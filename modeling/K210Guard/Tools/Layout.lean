/-
**Where the image tools put the images.**

Neither script checks a size. Inside the slot sizes of the flash map the images are where the loader
looks for them; a larger image runs over its slot's end and shifts what follows, because a negative
filler is empty. `tools_layout_iff` says exactly for which inputs the layout is right or no file is
written.
-/

import K210Guard.Tools.Genimg

namespace K210Guard

/-- The file has an image at a place, inside a slot of `size` bytes. -/
structure LiesAt (file image : List Byte) (place size : Nat) : Prop where
  bytes : (file.drop place).take image.length = image
  fits : image.length ≤ size

/-- What `genimg.py` promises of its file. -/
structure LoaderLayout (loader1Bin loader2Bin file : List Byte) : Prop where
  stage1 : LiesAt file (imageFile loader1Bin) 0 0x10000
  stage2 : LiesAt file (imageFile loader2Bin) 0x10000 0x10000
  stage2Bak : LiesAt file (imageFile loader2Bin) 0x20000 0x10000

/-- What `genimg_whole.py` promises of its file. -/
structure WholeLayout (loaderImg appBin file : List Byte) : Prop where
  loader : LiesAt file loaderImg 0 0x30000
  app : LiesAt file (imageFile appBin) 0x30000 0x50000
  bak : LiesAt file (imageFile appBin) 0x80000 0x50000

theorem liesAt_of_append {before image after : List Byte} {place size : Nat}
    (starts : before.length = place) (fits : image.length ≤ size) :
    LiesAt (before ++ image ++ after) image place size := by
  refine ⟨?_, fits⟩
  rw [List.append_assoc, List.drop_left' starts, List.take_left]

section Layout

variable {loader1Bin loader2Bin loaderImg appBin : List Byte}

theorem genimg_eq (first : (aligned loader1Bin).length < 2 ^ 32)
    (second : (aligned loader2Bin).length < 2 ^ 32) :
    genimg loader1Bin loader2Bin = some (imageFile loader1Bin ++
      filler (64 * 1024 - (imageFile loader1Bin).length) ++ imageFile loader2Bin ++
      filler (64 * 1024 - (imageFile loader2Bin).length) ++ imageFile loader2Bin) := by
  rw [genimg, genimgfile_eq, genimgfile_eq, if_pos first, if_pos second]
  rfl

theorem genimgWhole_eq (app : (aligned appBin).length < 2 ^ 32) :
    genimgWhole loaderImg appBin = some (loaderImg ++
      filler (3 * 64 * 1024 - loaderImg.length) ++ imageFile appBin ++
      filler (320 * 1024 - (imageFile appBin).length) ++ imageFile appBin) := by
  rw [genimgWhole, genimgfile_eq, if_pos app]
  rfl

/-- Without a file there is nothing to check. -/
theorem genimg_none (large : 2 ^ 32 ≤ (aligned loader1Bin).length ∨
    2 ^ 32 ≤ (aligned loader2Bin).length) : genimg loader1Bin loader2Bin = none := by
  rw [genimg, genimgfile_eq, genimgfile_eq]
  rcases large with first | second
  · rw [if_neg (by omega)]
    rfl
  · rw [if_neg (show ¬ (aligned loader2Bin).length < 2 ^ 32 by omega)]
    split <;> rfl

/-- **The layout of `genimg.py`** for images that fit their slots. -/
theorem genimg_layout (first : (imageFile loader1Bin).length ≤ 0x10000)
    (second : (imageFile loader2Bin).length ≤ 0x10000) {file : List Byte}
    (written : genimg loader1Bin loader2Bin = some file) :
    LoaderLayout loader1Bin loader2Bin file := by
  have size1 := imageFile_length loader1Bin
  have size2 := imageFile_length loader2Bin
  rw [genimg_eq (by omega) (by omega), Option.some.injEq] at written
  subst written
  refine ⟨?_, ?_, ?_⟩
  · have lies := @liesAt_of_append [] (imageFile loader1Bin)
      (filler (64 * 1024 - (imageFile loader1Bin).length) ++ (imageFile loader2Bin ++
        (filler (64 * 1024 - (imageFile loader2Bin).length) ++ imageFile loader2Bin)))
      0 0x10000 rfl first
    simpa only [List.nil_append, List.append_assoc] using lies
  · rw [List.append_assoc]
    exact liesAt_of_append (by rw [List.length_append, filler_length]; omega) second
  · have lies := @liesAt_of_append (imageFile loader1Bin ++
      filler (64 * 1024 - (imageFile loader1Bin).length) ++ imageFile loader2Bin ++
      filler (64 * 1024 - (imageFile loader2Bin).length)) (imageFile loader2Bin) [] 0x20000 0x10000
      (by simp only [List.length_append, filler_length]; omega) second
    rwa [List.append_nil] at lies

/-- **The layout of `genimg_whole.py`** for images that fit. -/
theorem genimgWhole_layout (loader : loaderImg.length ≤ 0x30000)
    (app : (imageFile appBin).length ≤ 0x50000) {file : List Byte}
    (written : genimgWhole loaderImg appBin = some file) : WholeLayout loaderImg appBin file := by
  have size := imageFile_length appBin
  rw [genimgWhole_eq (by omega), Option.some.injEq] at written
  subst written
  refine ⟨?_, ?_, ?_⟩
  · have lies := @liesAt_of_append [] loaderImg
      (filler (3 * 64 * 1024 - loaderImg.length) ++ (imageFile appBin ++
        (filler (320 * 1024 - (imageFile appBin).length) ++ imageFile appBin))) 0 0x30000 rfl loader
    simpa only [List.nil_append, List.append_assoc] using lies
  · rw [List.append_assoc]
    exact liesAt_of_append (by rw [List.length_append, filler_length]; omega) app
  · have lies := @liesAt_of_append (loaderImg ++ filler (3 * 64 * 1024 - loaderImg.length) ++
      imageFile appBin ++ filler (320 * 1024 - (imageFile appBin).length)) (imageFile appBin) []
      0x80000 0x50000 (by simp only [List.length_append, filler_length]; omega) app
    rwa [List.append_nil] at lies

end Layout

/-- **For which inputs the layout is right or no file is written**: the images fit their slots, or
a length does not fit its field. -/
theorem tools_layout_iff (loader1Bin loader2Bin loaderImg appBin : List Byte) :
    ((∀ file, genimg loader1Bin loader2Bin = some file →
        LoaderLayout loader1Bin loader2Bin file) ↔
      (imageFile loader1Bin).length ≤ 0x10000 ∧ (imageFile loader2Bin).length ≤ 0x10000 ∨
        2 ^ 32 ≤ (aligned loader1Bin).length ∨ 2 ^ 32 ≤ (aligned loader2Bin).length) ∧
    ((∀ file, genimgWhole loaderImg appBin = some file → WholeLayout loaderImg appBin file) ↔
      loaderImg.length ≤ 0x30000 ∧ (imageFile appBin).length ≤ 0x50000 ∨
        2 ^ 32 ≤ (aligned appBin).length) := by
  refine ⟨⟨fun layout => ?_, ?_⟩, ⟨fun layout => ?_, ?_⟩⟩
  · by_cases first : (aligned loader1Bin).length < 2 ^ 32
    · by_cases second : (aligned loader2Bin).length < 2 ^ 32
      · have laid := layout _ (genimg_eq first second)
        exact Or.inl ⟨laid.stage1.fits, laid.stage2.fits⟩
      · exact Or.inr (Or.inr (not_lt.mp second))
    · exact Or.inr (Or.inl (not_lt.mp first))
  · rintro (⟨first, second⟩ | large) file written
    · exact genimg_layout first second written
    · rw [genimg_none large] at written
      cases written
  · by_cases app : (aligned appBin).length < 2 ^ 32
    · have laid := layout _ (genimgWhole_eq app)
      exact Or.inl ⟨laid.loader.fits, laid.app.fits⟩
    · exact Or.inr (not_lt.mp app)
  · rintro (⟨loader, app⟩ | large) file written
    · exact genimgWhole_layout loader app written
    · rw [genimgWhole, genimgfile_eq, if_neg (not_lt.mpr large)] at written
      cases written

/-- **A stage-2 binary of 64 KiB** is put into a file that does not keep the layout: its image is
longer than its slot. -/
theorem oversize_laid_out : ∃ file, genimg [] (List.replicate 65536 0) = some file ∧
    ¬ LoaderLayout [] (List.replicate 65536 0) file := by
  obtain ⟨longer, shorter⟩ := aligned_length_bounds (List.replicate 65536 (0 : Byte))
  rw [List.length_replicate] at longer shorter
  refine ⟨_, genimg_eq (by decide) (by omega), fun laid => ?_⟩
  have fits := laid.stage2.fits
  rw [imageFile_length] at fits
  omega

end K210Guard
