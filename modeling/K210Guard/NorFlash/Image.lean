/-
**Storing an image in a NOR flash array.**

`blanked` is an array with one range erased. Erasing the sectors of a range one by one goes through
`blanked` arrays only (`replay_erases`). `Streams` says that a list of commands programs an image
in pieces, in order and each inside its page; it goes through overlays of the image's beginnings
only (`Streams.replay`), and every prefix of it streams too (`Streams.of_prefix`), so these are all
the states that a power failure can leave behind.
-/

import K210Guard.NorFlash.Array

namespace K210Guard.NorFlash

/-! ### Erasing a range -/

/-- The cells with `[low, high)` erased. -/
def blanked (cells : Cells) (low high : Nat) : Cells := fun x =>
  if low ≤ x ∧ x < high then blank else cells x

theorem blanked_inside (cells : Cells) {low high x : Nat} (above : low ≤ x) (below : x < high) :
    blanked cells low high x = blank := if_pos ⟨above, below⟩

theorem blanked_outside (cells : Cells) {low high x : Nat} (outside : x < low ∨ high ≤ x) :
    blanked cells low high x = cells x := if_neg (by omega)

@[simp] theorem blanked_empty (cells : Cells) (low : Nat) : blanked cells low low = cells :=
  funext fun _ => blanked_outside cells (by omega)

variable {g : Geometry}

/-- The commands that erase `count` sectors from `low` on. -/
def erases (g : Geometry) (low count : Nat) : List Command :=
  (List.range count).map fun index => .erase (low + g.sector * index)

theorem erases_succ (low count : Nat) :
    erases g low (count + 1) = erases g low count ++ [.erase (low + g.sector * count)] := by
  simp [erases, List.range_succ]

theorem erases_within {low count high : Nat} (aligned : g.sector ∣ low)
    (room : low + g.sector * count ≤ high) :
    ∀ command ∈ erases g low count, command.Within g low high := by
  intro command member
  obtain ⟨index, inRange, rfl⟩ := List.mem_map.mp member
  have step : g.sector * (index + 1) ≤ g.sector * count :=
    Nat.mul_le_mul_left _ (List.mem_range.mp inRange)
  rw [Nat.mul_succ] at step
  exact Command.erase_within (Nat.dvd_add aligned (Nat.dvd_mul_right _ _)) (by omega) (by omega)

/-- **Erasing sectors one by one erases their range.** -/
theorem replay_erases {low : Nat} (aligned : g.sector ∣ low) (cells : Cells) (count : Nat) :
    replay g (erases g low count) cells = blanked cells low (low + g.sector * count) := by
  induction count with
  | zero => simp [erases]
  | succ count ih =>
      rw [erases_succ, replay_append, ih]
      funext x
      show (if _ then _ else _) = _
      obtain ⟨index, rfl⟩ := aligned
      have sameSector : x / g.sector = (g.sector * index + g.sector * count) / g.sector ↔
          g.sector * (index + count) ≤ x ∧ x < g.sector * (index + count) + g.sector := by
        rw [← Nat.mul_add, Nat.mul_div_cancel_left _ g.sector_pos,
          Nat.div_eq_iff g.sector_pos, Nat.mul_comm _ g.sector]
        have := g.sector_pos
        omega
      simp only [blanked, sameSector, Nat.mul_add, Nat.mul_succ]
      split_ifs <;> first | rfl | omega

/-- A prefix of the erases of a range is the erases of a shorter range. -/
theorem erases_of_prefix {low count : Nat} {commands : List Command}
    (isPrefix : commands <+: erases g low count) :
    ∃ fewer ≤ count, commands = erases g low fewer := by
  have fewer : commands.length ≤ count := by simpa [erases] using isPrefix.length_le
  refine ⟨commands.length, fewer, ?_⟩
  have taken := List.prefix_iff_eq_take.mp isPrefix
  rw [erases, ← List.map_take, List.take_range, Nat.min_eq_left fewer] at taken
  exact taken

/-! ### Some of the commands -/

/-- Of a family of commands of which one only touches a cell, the selected ones are carried out. -/
theorem replay_selected {commands : Nat → Command} {selected : Nat → Prop}
    [DecidablePred selected] {x index count : Nat} (effect : Byte → Byte)
    (hit : ∀ cells, (commands index).apply g cells x = effect (cells x))
    (miss : ∀ other < count, other ≠ index → ∀ cells, (commands other).apply g cells x = cells x)
    (cells : Cells) :
    replay g (((List.range count).filter selected).map commands) cells x =
      if index < count ∧ selected index then effect (cells x) else cells x := by
  induction count with
  | zero => rw [if_neg fun both => absurd both.1 (Nat.not_lt_zero _)]; rfl
  | succ count ih =>
      have before := ih fun other bound => miss other (Nat.lt_succ_of_lt bound)
      rw [List.range_succ, List.filter_append, List.map_append, replay_append]
      by_cases here : count = index
      · subst here
        rw [if_neg fun both => absurd both.1 (Nat.lt_irrefl _)] at before
        by_cases chosen : selected count
        · rw [List.filter_singleton, decide_eq_true chosen, if_pos ⟨Nat.lt_succ_self _, chosen⟩]
          exact (hit _).trans (congrArg effect before)
        · rw [List.filter_singleton, decide_eq_false chosen, if_neg fun both => chosen both.2]
          exact before
      · have same : index < count + 1 ↔ index < count := by omega
        simp only [same]
        rw [← before, List.filter_singleton]
        by_cases chosen : selected count
        · rw [decide_eq_true chosen]
          exact miss count (Nat.lt_succ_self _) here _
        · rw [decide_eq_false chosen]
          rfl

/-! ### Programming an image in pieces -/

/-- Two overlays in a row are one overlay. -/
theorem overlay_append (cells : Cells) (low : Nat) (first second : List Byte) :
    overlay cells low (first ++ second) =
      overlay (overlay cells low first) (low + first.length) second := by
  induction first generalizing cells low with
  | nil => simp
  | cons value first ih =>
      rw [List.cons_append, overlay_cons, overlay_cons, ih, List.length_cons]
      congr 1
      omega

/-- Over erased cells an overlay stores its bytes. -/
theorem overlay_of_blank {cells : Cells} {low : Nat} {data : List Byte}
    (erased : ∀ x, low ≤ x → x < low + data.length → cells x = blank) :
    overlay cells low data = writeRange cells low data := by
  funext x
  by_cases inside : low ≤ x ∧ x < low + data.length
  · rw [overlay_inside _ inside.1 (by omega), writeRange_inside _ inside.1 (by omega),
      erased x inside.1 inside.2, blank_and]
  · rw [overlay_outside _ (by omega), writeRange_outside _ (by omega)]

/-- The commands program the bytes `start, …, stop - 1` of an image based at `low`, in order, in
pieces that stay inside their pages. -/
inductive Streams (g : Geometry) (low : Nat) (image : List Byte) : Nat → List Command → Nat → Prop
  | done (start : Nat) : Streams g low image start [] start
  | next (start size stop : Nat) (rest : List Command) (bound : start + size ≤ image.length)
      (fits : (low + start) % g.page + size ≤ g.page)
      (following : Streams g low image (start + size) rest stop) :
      Streams g low image start
        (.program (low + start) ((image.drop start).take size) :: rest) stop

namespace Streams

variable {low start middle stop : Nat} {image : List Byte} {first second : List Command}

theorem append (before : Streams g low image start first middle)
    (after : Streams g low image middle second stop) :
    Streams g low image start (first ++ second) stop := by
  induction before with
  | done => exact after
  | next start size stop rest bound fits _ ih => exact .next _ _ _ _ bound fits (ih after)

/-- A stream of a piece of an image is a stream of the image. -/
theorem embed {offset size : Nat}
    (streams : Streams g (low + offset) ((image.drop offset).take size) start first stop)
    (bound : offset + size ≤ image.length) :
    Streams g low image (offset + start) first (offset + stop) := by
  generalize piece : (image.drop offset).take size = part at streams
  induction streams with
  | done => exact .done _
  | next start inner stop rest inside fits _ ih =>
      have length : part.length = size := by
        rw [← piece, List.length_take, List.length_drop]
        omega
      have same : (part.drop start).take inner = (image.drop (offset + start)).take inner := by
        rw [← piece, List.drop_take, List.take_take, List.drop_drop, Nat.min_eq_left (by omega)]
      rw [← Nat.add_assoc offset] at ih
      rw [same, Nat.add_assoc]
      exact .next _ _ _ _ (by omega) (by rw [← Nat.add_assoc]; exact fits) ih

/-- One program, then a stream of what follows. -/
theorem prepend {piece : List Byte} (fits : low % g.page + piece.length ≤ g.page)
    (rest : Streams g (low + piece.length) image 0 first stop) :
    Streams g low (piece ++ image) 0 (.program low piece :: first) (piece.length + stop) := by
  have bound : piece.length + image.length ≤ (piece ++ image).length := by
    rw [List.length_append]
  have whole : ((piece ++ image).drop piece.length).take image.length = image := by
    rw [List.drop_left, List.take_length]
  have tail := (whole.symm ▸ rest).embed bound
  rw [Nat.add_zero] at tail
  have stream : Streams g low (piece ++ image) 0
      (.program (low + 0) (((piece ++ image).drop 0).take piece.length) :: first)
      (piece.length + stop) :=
    .next 0 piece.length _ first (by omega) (by rwa [Nat.add_zero]) (by rwa [Nat.zero_add])
  rwa [Nat.add_zero, List.drop_zero, List.take_left] at stream

/-- One program of the beginning of the data, then a stream of the rest. -/
theorem cons {size : Nat} (bound : size ≤ image.length) (fits : low % g.page + size ≤ g.page)
    (rest : Streams g (low + size) (image.drop size) 0 first (image.length - size)) :
    Streams g low image 0 (.program low (image.take size) :: first) image.length := by
  have taken : (image.take size).length = size := List.length_take_of_le bound
  have stream : Streams g low (image.take size ++ image.drop size) 0
      (.program low (image.take size) :: first)
      ((image.take size).length + (image.length - size)) :=
    prepend (by rwa [taken]) (by rwa [taken])
  rwa [List.take_append_drop, taken, Nat.add_sub_cancel' bound] at stream

/-- A stream of the beginning of the data, then a stream of the rest. -/
theorem concat {size : Nat} (bound : size ≤ image.length)
    (begin' : Streams g low (image.take size) 0 first size)
    (rest : Streams g (low + size) (image.drop size) 0 second (image.length - size)) :
    Streams g low image 0 (first ++ second) image.length := by
  have head : Streams g low image (0 + 0) first (0 + size) :=
    embed (by rwa [Nat.add_zero, List.drop_zero]) (show 0 + size ≤ image.length by omega)
  have whole : image.drop size = (image.drop size).take (image.length - size) :=
    (List.take_of_length_le (by rw [List.length_drop])).symm
  rw [whole] at rest
  have tail := rest.embed (by omega)
  rw [Nat.add_sub_cancel' bound, Nat.add_zero] at tail
  rw [Nat.zero_add, Nat.zero_add] at head
  exact head.append tail

theorem le (streams : Streams g low image start first stop) : start ≤ stop := by
  induction streams with
  | done => exact le_rfl
  | next start size stop rest bound fits _ ih => omega

/-- Every prefix of a stream streams, up to an earlier byte. -/
theorem of_prefix (streams : Streams g low image start first stop) (isPrefix : second <+: first) :
    ∃ earlier ≤ stop, Streams g low image start second earlier := by
  induction streams generalizing second with
  | done start => exact ⟨start, le_rfl, by rw [List.prefix_nil.mp isPrefix]; exact .done _⟩
  | next start size stop rest bound fits following ih =>
      rcases List.prefix_cons_iff.mp isPrefix with rfl | ⟨tail, rfl, shorter⟩
      · exact ⟨start, (le_trans (Nat.le_add_right _ _) following.le), .done _⟩
      · obtain ⟨earlier, bound', streams'⟩ := ih shorter
        exact ⟨earlier, bound', .next _ _ _ _ bound fits streams'⟩

theorem within (streams : Streams g low image start first stop) {base high : Nat}
    (above : base ≤ low) (below : low + image.length ≤ high) :
    ∀ command ∈ first, command.Within g base high := by
  induction streams with
  | done => exact fun _ member => by cases member
  | next start size stop rest bound fits _ ih =>
      intro command member
      rcases List.mem_cons.mp member with rfl | member
      · have piece : ((image.drop start).take size).length = size := by
          rw [List.length_take, List.length_drop]
          omega
        refine ⟨by omega, by omega, ?_⟩
        rw [piece]
        exact fits
      · exact ih command member

/-- **A stream overlays the image piece by piece.** -/
theorem replay (streams : Streams g low image start first stop) (cells : Cells) :
    NorFlash.replay g first (overlay cells low (image.take start)) =
      overlay cells low (image.take stop) := by
  induction streams with
  | done => rfl
  | next start size stop rest bound fits _ ih =>
      have begun : (image.take start).length = start := by
        rw [List.length_take]
        omega
      have piece : ((image.drop start).take size).length = size := by
        rw [List.length_take, List.length_drop]
        omega
      have programmed : programPage g (overlay cells low (image.take start)) (low + start)
          ((image.drop start).take size) = overlay cells low (image.take (start + size)) := by
        rw [programPage_eq_overlay (by rw [piece]; exact fits), List.take_add, overlay_append,
          begun]
      rw [replay_cons]
      show NorFlash.replay g rest (programPage g _ _ _) = _
      rw [programmed, ih]

end Streams

end K210Guard.NorFlash
