import Xv6.Fs.Kernel

/-!
# The image builder (`mkfs/mkfs.c`)

`mkfs` writes a disk image with one directory and the files given on the command line. It
has its own code for the layout of inodes and blocks: blocks are handed out one after the
other from `freeblock` on, and the free map is written at the end.

A host file is given by its argument string and by what the calls of `read` return for it,
so that nothing depends on how the host cuts a file into pieces.
-/

namespace Xv6.Mkfs

open Xv6.Lib
open Xv6.Disk (Block)
open Xv6.Fs

/-! ## Layout -/

def NINODES : ℕ := 200

/-- Size of the file system in blocks (`kernel/param.h`). -/
def FSSIZE : ℕ := 2000

def nbitmap : ℕ := FSSIZE / (BSIZE * 8) + 1

def ninodeblocks : ℕ := NINODES / IPB + 1

def nlog : ℕ := LOGSIZE

/-- Number of meta blocks: boot, super block, log, inodes, bitmap. -/
def nmeta : ℕ := 2 + nlog + ninodeblocks + nbitmap

/-- Number of data blocks. -/
def nblocks : ℕ := FSSIZE - nmeta

/-- The variable `sb`. -/
def sb : Superblock where
  magic := FSMAGIC
  size := FSSIZE
  nblocks := nblocks
  ninodes := NINODES
  nlog := nlog
  logstart := 2
  inodestart := 2 + nlog
  bmapstart := 2 + nlog + ninodeblocks

/-- The block with the super block. -/
def sbBlock : Block :=
  (Bytes.fill BSIZE 0).stWords 0 8 fun j =>
    [sb.magic, sb.size, sb.nblocks, sb.ninodes, sb.nlog, sb.logstart, sb.inodestart,
      sb.bmapstart].getD j 0

/-! ## State -/

/-- How `mkfs` ends without an image. -/
inductive Abort where
  | assert (cond : String)
  | die (msg : String)
  /-- `die(argv[i])`: the file cannot be opened. -/
  | dieArg (arg : List UInt8)
deriving DecidableEq

/-- The image file and the variables `freeinode` and `freeblock`. -/
structure Mk where
  disk : Disk
  freeinode : ℕ
  freeblock : ℕ

/-- Code of `mkfs`. -/
abbrev MkM := StateT Mk (Except Abort)

/-- `rsect`. The image has `FSSIZE` blocks. -/
def rsect (sec : ℕ) : MkM Block := do
  if sec < FSSIZE then return (← get).disk sec else throw (.die "read")

/-- `wsect`. -/
def wsect (sec : ℕ) (buf : Block) : MkM Unit :=
  modify fun s => { s with disk := Function.update s.disk sec buf }

/-- `winode`. -/
def winode (inum : ℕ) (ip : Dinode) : MkM Unit := do
  let buf ← rsect (sb.iblock inum)
  wsect (sb.iblock inum) (ip.store (inum % IPB) buf)

/-- `rinode`. -/
def rinode (inum : ℕ) : MkM Dinode := do
  let buf ← rsect (sb.iblock inum)
  return .load buf (inum % IPB)

/-- `freeinode++`. -/
def nextInode : MkM ℕ := do
  let s ← get
  set { s with freeinode := s.freeinode + 1 }
  return s.freeinode

/-- `freeblock++`. -/
def nextBlock : MkM ℕ := do
  let s ← get
  set { s with freeblock := s.freeblock + 1 }
  return s.freeblock

/-- `ialloc`. -/
def ialloc (type : BitVec 16) : MkM ℕ := do
  let inum ← nextInode
  winode inum { Dinode.zero with type := type, nlink := 1 }
  return inum

/-- The block of the free map with the bits of the first `used` blocks set. -/
def bitmap (used : ℕ) : Block :=
  (List.range used).foldl (fun buf i => buf.setBit i) (Bytes.fill BSIZE 0)

/-- `balloc`. -/
def balloc (used : ℕ) : MkM Unit := do
  if used < BSIZE * 8 then wsect sb.bmapstart (bitmap used) else throw (.assert "used < BSIZE*8")

/-! ## `iappend` -/

/-- `if(xint(din.addrs[k]) == 0) din.addrs[k] = xint(freeblock++);`. -/
def needAddr (din : Dinode) (k : Fin (NDIRECT + 1)) : MkM Dinode := do
  if din.addrs k = 0 then return din.setAddr k (← nextBlock) else return din

/-- The block number of block `fbn` of a file. -/
def blockFor (din : Dinode) (fbn : ℕ) : MkM (ℕ × Dinode) := do
  if fbn < NDIRECT then
    let din ← needAddr din (Fin.ofNat _ fbn)
    return ((din.addrs (Fin.ofNat _ fbn)).toNat, din)
  else
    let din ← needAddr din (Fin.last NDIRECT)
    let ind := (din.addrs (Fin.last NDIRECT)).toNat
    let indirect ← rsect ind
    if entry indirect (fbn - NDIRECT) = 0 then
      let indirect := indirect.st 4 (4 * (fbn - NDIRECT)) (← nextBlock)
      wsect ind indirect
      return (entry indirect (fbn - NDIRECT), din)
    else return (entry indirect (fbn - NDIRECT), din)

/-- The loop of `iappend`. It writes at least one byte a round, so `p.length` rounds are
enough. -/
def iappendLoop : ℕ → Dinode → ℕ → List UInt8 → MkM (Dinode × ℕ)
  | 0, din, off, _ => return (din, off)
  | fuel + 1, din, off, p =>
    if p = [] then return (din, off)
    else do
      let fbn := off / BSIZE
      if fbn < MAXFILE then
        let (x, din) ← blockFor din fbn
        let n1 := min p.length ((fbn + 1) * BSIZE - off)
        let buf ← rsect x
        wsect x (buf.put (off - fbn * BSIZE) (p.take n1))
        iappendLoop fuel din (off + n1) (p.drop n1)
      else throw (.assert "fbn < MAXFILE")

/-- `iappend`. -/
def iappend (inum : ℕ) (p : List UInt8) : MkM Unit := do
  let din ← rinode inum
  let (din, off) ← iappendLoop p.length din din.size.toNat p
  winode inum { din with size := .ofNat 32 off }

/-! ## `main` -/

/-- A file on the command line: the argument, and what `read` returns, or `none` if the file
cannot be opened. -/
structure Input where
  arg : List UInt8
  chunks : Option (List (List UInt8))

/-- The string `"user/"`. -/
def user : List UInt8 := [117, 115, 101, 114, 47]

/-- The argument without `"user/"`. -/
def baseName (arg : List UInt8) : List UInt8 := if user.isPrefixOf arg then arg.drop 5 else arg

/-- The name without a leading `'_'`. -/
def shortName (arg : List UInt8) : List UInt8 :=
  match baseName arg with
  | 95 :: name => name
  | name => name

/-- The entry for `name` that `main` appends to the root directory. -/
def dirent (inum : ℕ) (name : List UInt8) : List UInt8 :=
  Dirent.encode ⟨.ofNat 16 inum, strncpy name⟩

/-- The loop body of `main` for one file. -/
def addFile (rootino : ℕ) (f : Input) : MkM Unit := do
  if slash ∈ baseName f.arg then throw (.assert "index(shortname, '/') == 0")
  else
    match f.chunks with
    | none => throw (.dieArg f.arg)
    | some chunks =>
      let inum ← ialloc T_FILE
      iappend rootino (dirent inum (shortName f.arg))
      chunks.forM (iappend inum)

/-- `main` from the first `ialloc` on. -/
def build (files : List Input) : MkM Unit := do
  let rootino ← ialloc T_DIR
  if rootino = ROOTINO then
    iappend rootino (dirent rootino dot)
    iappend rootino (dirent rootino dotdot)
    files.forM (addFile rootino)
    let din ← rinode rootino
    winode rootino { din with size := .ofNat 32 ((din.size.toNat / BSIZE + 1) * BSIZE) }
    balloc (← get).freeblock
  else throw (.assert "rootino == ROOTINO")

/-- The image before the first `ialloc`: zeroes and the super block. -/
def start : Mk where
  disk := Function.update (fun _ => Bytes.fill BSIZE 0) 1 sbBlock
  freeinode := 1
  freeblock := nmeta

/-- `main`: the image for these files. -/
def main (files : List Input) : Except Abort Mk := do
  let (_, s) ← (build files).run start
  return s

end Xv6.Mkfs
