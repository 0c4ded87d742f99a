import Xv6.Fs.Calls
import Xv6.Fs.Images

/-!
# Opens that fail

`sys_open` looks for a file structure and a descriptor after it has found the inode, which with
`O_CREATE` it may just have created. If there is none it puts the inode back, but the name of the
new file stays in its directory. In all other cases an open that fails has no effect.
-/

namespace Xv6.Fs

open Xv6.Lib
open Xv6.Process (Slot Stop)

variable {d : Disk} {s s' : State} {a a' : Abs} {p : Slot} {sb : Superblock} {j : ℕ}
  {major minor type : BitVec 16} {path : List UInt8}

/-! ## Opens without effect -/

/-- The same files, with the same inodes, link counts and contents, the same open files and
descriptors, and the same reference counts. -/
structure State.Same (s s' : State) : Prop where
  sb : s'.sb = s.sb
  files : view s.sb s'.disk = view s.sb s.disk
  proc : s'.proc = s.proc
  ftable : s'.ftable = s.ftable
  refs : ∀ e, (s'.itable e).ref = (s.itable e).ref

lemma Inv.same (h : Inv sb a [] [] s) (h' : Inv sb a [] [] s') : State.Same s s' where
  sb := h'.sb_eq.trans h.sb_eq.symm
  files := by rw [h.sb_eq, h.view_eq, h'.view_eq]
  proc := h'.proc.trans h.proc.symm
  ftable := h'.ftable.trans h.ftable.symm
  refs e := (h'.table.ref e).trans (h.table.ref e).symm

/-- The first process makes pipes until it has no free descriptor. -/
def pipes : List (Slot × Call) := List.replicate 8 (0, .pipe true true)

end Xv6.Fs
