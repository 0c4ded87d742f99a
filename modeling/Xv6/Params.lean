import Mathlib.Data.Nat.Notation

/-!
# Sizes that several parts of the kernel share
-/

namespace Xv6

/-! ## `kernel/param.h` -/

/-- Open files per process. -/
def NOFILE : ℕ := 16

/-- Open files per system. -/
def NFILE : ℕ := 100

/-- The longest path, with its NUL. -/
def MAXPATH : ℕ := 128

/-- Max number of blocks any file-system operation writes. -/
def MAXOPBLOCKS : ℕ := 10

/-- Max data blocks in the on-disk log. -/
def LOGSIZE : ℕ := MAXOPBLOCKS * 3

/-! ## `kernel/fs.h` and `kernel/pipe.c` -/

/-- Block size. -/
def BSIZE : ℕ := 1024

/-- The capacity of a pipe in bytes. -/
def PIPESIZE : ℕ := 512

end Xv6
