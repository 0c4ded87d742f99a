import Mathlib.Data.BitVec
import Mathlib.Data.Fintype.Basic
import Mathlib.Data.List.TakeWhile
import Mathlib.Logic.Function.Basic
import Mathlib.Tactic.IntervalCases
import Xv6.Disk.Bcache

/-!
# On-disk file system format (`kernel/fs.h`)

The superblock, the inode structure, the free bitmap and the directory entry, as they lie
in the bytes of a disk block. Fields of a fixed width are bit vectors, so that a structure
read back after it was written is the same structure.

A `Disk` here is what the blocks hold as far as the file system code is concerned: a block
in the buffer cache, or on the disk if it is not cached.
-/

namespace Xv6.Fs

open Xv6.Lib
open Xv6.Disk (Block)
open Function (update update_of_ne update_self)

/-- The contents of the blocks of the device. -/
abbrev Disk := ℕ → Block

/-- Root i-number. -/
def ROOTINO : ℕ := 1

def NDIRECT : ℕ := 12

def NINDIRECT : ℕ := BSIZE / 4

instance : NeZero NINDIRECT := ⟨by decide⟩

instance (priority := 2000) : NeZero (NDIRECT + 1) := ⟨by decide⟩

def MAXFILE : ℕ := NDIRECT + NINDIRECT

/-- `sizeof(struct dinode)`. -/
def DINODE : ℕ := 64

/-- Inodes per block. -/
def IPB : ℕ := BSIZE / DINODE

/-- Bitmap bits per block. -/
def BPB : ℕ := BSIZE * 8

/-- Length of a directory entry's name. -/
def DIRSIZ : ℕ := 14

/-- `sizeof(struct dirent)`. -/
def DIRENT : ℕ := 16

def FSMAGIC : ℕ := 0x10203040

/-! ## File types (`kernel/stat.h`) -/

def T_DIR : BitVec 16 := 1

def T_FILE : BitVec 16 := 2

def T_DEVICE : BitVec 16 := 3

/-! ## The superblock -/

/-- `struct superblock`. -/
structure Superblock where
  magic : ℕ
  size : ℕ
  nblocks : ℕ
  ninodes : ℕ
  nlog : ℕ
  logstart : ℕ
  inodestart : ℕ
  bmapstart : ℕ
deriving DecidableEq, Repr

/-- `readsb`. -/
def readsb (d : Disk) : Superblock where
  magic := (d 1).ld 4 0
  size := (d 1).ld 4 4
  nblocks := (d 1).ld 4 8
  ninodes := (d 1).ld 4 12
  nlog := (d 1).ld 4 16
  logstart := (d 1).ld 4 20
  inodestart := (d 1).ld 4 24
  bmapstart := (d 1).ld 4 28

/-- `IBLOCK(i, sb)`: the block containing inode `i`. -/
def Superblock.iblock (sb : Superblock) (i : ℕ) : ℕ := i / IPB + sb.inodestart

/-- `BBLOCK(b, sb)`: the block of the free map containing the bit for block `b`. -/
def Superblock.bblock (sb : Superblock) (b : ℕ) : ℕ := b / BPB + sb.bmapstart

/-- The first data block. -/
def Superblock.dataStart (sb : Superblock) : ℕ := sb.size - sb.nblocks

/-- The layout `[ boot block | super block | log | inode blocks | free bit map | data
blocks ]`. Inode numbers fit the 16 bits a directory entry has for them, and block numbers
fit an `int`, the type of the loop index of `balloc`. -/
structure Superblock.WellFormed (sb : Superblock) : Prop where
  log_le : 2 ≤ sb.logstart ∧ sb.logstart + sb.nlog ≤ sb.inodestart
  inode_lt : ∀ i < sb.ninodes, sb.iblock i < sb.bmapstart
  bmap_lt : ∀ b < sb.size, sb.bblock b < sb.dataStart
  ninodes_le : sb.ninodes ≤ 2 ^ 16
  size_lt : sb.size < 2 ^ 31
  root_lt : ROOTINO < sb.ninodes

/-! ## The free map -/

/-- The bit for block `b` in the free map: set if the block is in use. -/
def marked (sb : Superblock) (d : Disk) (b : ℕ) : Bool := (d (sb.bblock b)).testBit (b % BPB)

/-! ## Inodes on disk -/

/-- `struct dinode`, and the fields of `struct inode` that copy it. -/
@[ext]
structure Dinode where
  type : BitVec 16
  major : BitVec 16
  minor : BitVec 16
  nlink : BitVec 16
  size : BitVec 32
  addrs : Fin (NDIRECT + 1) → BitVec 32
deriving DecidableEq

/-- The inode structure of which every byte is `0`. -/
def Dinode.zero : Dinode where
  type := 0
  major := 0
  minor := 0
  nlink := 0
  size := 0
  addrs := fun _ => 0

/-- The inode structure number `k` in a block. -/
def Dinode.load (b : Block) (k : ℕ) : Dinode where
  type := .ofNat 16 (b.ld 2 (DINODE * k))
  major := .ofNat 16 (b.ld 2 (DINODE * k + 2))
  minor := .ofNat 16 (b.ld 2 (DINODE * k + 4))
  nlink := .ofNat 16 (b.ld 2 (DINODE * k + 6))
  size := .ofNat 32 (b.ld 4 (DINODE * k + 8))
  addrs := fun j => .ofNat 32 (b.ld 4 (DINODE * k + 12 + 4 * j))

/-- Assign all fields of the inode structure number `k` in a block. -/
def Dinode.store (di : Dinode) (k : ℕ) (b : Block) : Block :=
  let b := b.st 2 (DINODE * k) di.type.toNat
  let b := b.st 2 (DINODE * k + 2) di.major.toNat
  let b := b.st 2 (DINODE * k + 4) di.minor.toNat
  let b := b.st 2 (DINODE * k + 6) di.nlink.toNat
  let b := b.st 4 (DINODE * k + 8) di.size.toNat
  b.stWords (DINODE * k + 12) (NDIRECT + 1) fun j => (di.addrs (Fin.ofNat _ j)).toNat

/-- Inode `i` as it is on disk. -/
def dinode (sb : Superblock) (d : Disk) (i : ℕ) : Dinode := .load (d (sb.iblock i)) (i % IPB)

/-- Write inode `i`. -/
def setDinode (sb : Superblock) (i : ℕ) (di : Dinode) (d : Disk) : Disk :=
  update d (sb.iblock i) (di.store (i % IPB) (d (sb.iblock i)))

/-! ## Directory entries -/

/-- A file name: a C string without its final NUL. -/
abbrev Name := List UInt8

/-- The C string in the first `n` bytes of a buffer. -/
def cstr (n : ℕ) (s : List UInt8) : Name := (s.take n).takeWhile (· ≠ 0)

/-- `struct dirent`. -/
structure Dirent where
  inum : BitVec 16
  name : List UInt8
deriving DecidableEq, Repr

/-- The entry of which every byte is `0`. -/
def Dirent.zero : Dirent := ⟨0, List.replicate DIRSIZ 0⟩

/-- The entry in the bytes of a buffer. -/
def Dirent.decode (bs : List UInt8) : Dirent := ⟨.ofNat 16 (leNat (bs.take 2)), bs.drop 2⟩

/-- The bytes of an entry. -/
def Dirent.encode (de : Dirent) : List UInt8 := leBytes 2 de.inum.toNat ++ de.name

/-- The number of entries of a directory of `size` bytes. -/
def slots (size : BitVec 32) : ℕ := (size.toNat + (DIRENT - 1)) / DIRENT

/-- `namecmp(s, t) == 0`. -/
def namecmp (s t : List UInt8) : Bool := cstr DIRSIZ s = cstr DIRSIZ t

/-- The array written by `strncpy(_, s, DIRSIZ)`. -/
def strncpy (s : List UInt8) : List UInt8 :=
  cstr DIRSIZ s ++ List.replicate (DIRSIZ - (cstr DIRSIZ s).length) 0

/-! ## Reading back what was written -/

private lemma ofNat_toNat_mod {w m : ℕ} (x : BitVec w) (hm : m = 2 ^ w) :
    BitVec.ofNat w (x.toNat % m) = x := by
  rw [hm, Nat.mod_eq_of_lt x.isLt, BitVec.ofNat_toNat, BitVec.setWidth_eq]

/-- The superblock is read back from a block that holds its fields. -/
lemma readsb_stWords {d : Disk} {sb : Superblock} {b : Block}
    (h : d 1 = b.stWords 0 8 fun j => [sb.magic, sb.size, sb.nblocks, sb.ninodes, sb.nlog,
      sb.logstart, sb.inodestart, sb.bmapstart].getD j 0)
    (hlt : ∀ v ∈ [sb.magic, sb.size, sb.nblocks, sb.ninodes, sb.nlog, sb.logstart, sb.inodestart,
      sb.bmapstart], v < 2 ^ 32) : readsb d = sb := by
  have hword : ∀ k < 8, (d 1).ld 4 (4 * k) = [sb.magic, sb.size, sb.nblocks, sb.ninodes,
      sb.nlog, sb.logstart, sb.inodestart, sb.bmapstart].getD k 0 := by
    intro k hk
    have hld := Bytes.ld_stWords (b := b) (f := fun j => [sb.magic, sb.size, sb.nblocks,
      sb.ninodes, sb.nlog, sb.logstart, sb.inodestart, sb.bmapstart].getD j 0) hk
      (show 0 + 4 * 8 ≤ BSIZE by decide)
    rw [Nat.zero_add] at hld
    rw [h, hld]
    interval_cases k <;> exact Nat.mod_eq_of_lt (hlt _ (by simp))
  unfold readsb
  rw [show (d 1).ld 4 0 = _ from hword 0 (by decide),
    show (d 1).ld 4 4 = _ from hword 1 (by decide),
    show (d 1).ld 4 8 = _ from hword 2 (by decide),
    show (d 1).ld 4 12 = _ from hword 3 (by decide),
    show (d 1).ld 4 16 = _ from hword 4 (by decide),
    show (d 1).ld 4 20 = _ from hword 5 (by decide),
    show (d 1).ld 4 24 = _ from hword 6 (by decide),
    show (d 1).ld 4 28 = _ from hword 7 (by decide)]
  rfl

lemma Dinode.load_store (di : Dinode) {k : ℕ} (hk : k < IPB) (b : Block) :
    Dinode.load (di.store k b) k = di := by
  have hfit : DINODE * k + 64 ≤ BSIZE := by
    unfold IPB DINODE BSIZE at *
    omega
  have hwords : 4 * (NDIRECT + 1) = 52 := rfl
  unfold Dinode.load Dinode.store
  refine Dinode.ext ?_ ?_ ?_ ?_ ?_ (funext fun j => ?_)
  case refine_6 =>
    have hj : Fin.ofNat (NDIRECT + 1) j.val = j := Fin.ofNat_val_eq_self j
    simp only [Bytes.ld_stWords j.isLt (show DINODE * k + 12 + 4 * (NDIRECT + 1) ≤ BSIZE by omega),
      hj]
    exact ofNat_toNat_mod _ rfl
  all_goals
    simp (disch := omega) only [Bytes.ld_stWords_of_disjoint, Bytes.ld_st_of_disjoint,
      Bytes.ld_st]
    exact ofNat_toNat_mod _ rfl

lemma Dinode.load_store_of_ne (di : Dinode) {k k' : ℕ} (h : k' ≠ k) (b : Block) :
    Dinode.load (di.store k b) k' = Dinode.load b k' := by
  have hwords : 4 * (NDIRECT + 1) = 52 := rfl
  have hapart : DINODE * k' + 64 ≤ DINODE * k ∨ DINODE * k + 64 ≤ DINODE * k' := by
    unfold DINODE
    omega
  unfold Dinode.load Dinode.store
  refine Dinode.ext ?_ ?_ ?_ ?_ ?_ (funext fun j => ?_)
  case refine_6 =>
    have hj : j.val < 13 := j.isLt
    simp (disch := omega) only [Bytes.ld_stWords_of_disjoint, Bytes.ld_st_of_disjoint]
  all_goals
    simp (disch := omega) only [Bytes.ld_stWords_of_disjoint, Bytes.ld_st_of_disjoint]

lemma Dinode.load_fill (k : ℕ) : Dinode.load (Bytes.fill BSIZE 0) k = .zero := by
  unfold Dinode.load Dinode.zero
  simp only [Bytes.ld_fill_zero]
  rfl

lemma setDinode_of_ne {sb : Superblock} {i b : ℕ} (h : b ≠ sb.iblock i) (di : Dinode) (d : Disk) :
    setDinode sb i di d b = d b := update_of_ne h _ _

lemma dinode_congr {sb : Superblock} {d d' : Disk} {i : ℕ}
    (h : d' (sb.iblock i) = d (sb.iblock i)) :
    dinode sb d' i = dinode sb d i := by rw [dinode, h, dinode]

/-- Writing an inode changes that inode only. -/
lemma dinode_setDinode (sb : Superblock) (i : ℕ) (di : Dinode) (d : Disk) :
    dinode sb (setDinode sb i di d) = update (dinode sb d) i di := by
  have hlow : ∀ j, j % IPB < IPB := fun j => Nat.mod_lt j (by decide)
  funext j
  by_cases hj : j = i
  · subst hj
    rw [update_self, dinode, setDinode, update_self,
      Dinode.load_store di (hlow j)]
  · rw [update_of_ne hj]
    by_cases hblock : sb.iblock j = sb.iblock i
    · -- two inodes of one block
      have hdiv : j / IPB = i / IPB := by simpa [Superblock.iblock] using hblock
      have hmod : j % IPB ≠ i % IPB := by
        intro hmod
        exact hj (by rw [← Nat.div_add_mod j IPB, hdiv, hmod, Nat.div_add_mod])
      rw [dinode, setDinode, hblock, update_self, Dinode.load_store_of_ne di hmod,
        ← hblock, dinode]
    · exact dinode_congr (setDinode_of_ne hblock di d)

lemma length_cstr_le (n : ℕ) (s : List UInt8) : (cstr n s).length ≤ n :=
  (List.takeWhile_sublist _).length_le.trans (List.length_take_le n s)

lemma ne_zero_of_mem_cstr {n : ℕ} {s : List UInt8} {c : UInt8} (h : c ∈ cstr n s) : c ≠ 0 := by
  simpa using List.mem_takeWhile_imp h

@[simp]
lemma length_strncpy (s : List UInt8) : (strncpy s).length = DIRSIZ := by
  have h := length_cstr_le DIRSIZ s
  simp [strncpy]
  omega

/-- A name survives being stored in an entry. -/
lemma cstr_strncpy (s : List UInt8) : cstr DIRSIZ (strncpy s) = cstr DIRSIZ s := by
  have hchars : ∀ c ∈ cstr DIRSIZ s, decide (c ≠ 0) = true := fun c hc =>
    decide_eq_true (ne_zero_of_mem_cstr hc)
  have hpad : (List.replicate (DIRSIZ - (cstr DIRSIZ s).length) (0 : UInt8)).takeWhile
      (· ≠ 0) = [] := by
    cases DIRSIZ - (cstr DIRSIZ s).length <;> simp [List.replicate_succ]
  calc cstr DIRSIZ (strncpy s)
      = (strncpy s).takeWhile (· ≠ 0) := by
        rw [cstr, List.take_of_length_le (length_strncpy s).le]
    _ = cstr DIRSIZ s := by
        rw [strncpy, List.takeWhile_append_of_pos hchars, hpad, List.append_nil]

lemma Dirent.length_encode {de : Dirent} (h : de.name.length = DIRSIZ) :
    de.encode.length = DIRENT := by
  simp [encode, h]
  rfl

lemma Dirent.decode_encode (de : Dirent) : Dirent.decode de.encode = de := by
  have htake : de.encode.take 2 = leBytes 2 de.inum.toNat := by
    simp [encode]
  have hdrop : de.encode.drop 2 = de.name := by
    simp [encode]
  have hinum : BitVec.ofNat 16 (de.inum.toNat % 256 ^ 2) = de.inum := ofNat_toNat_mod _ rfl
  rw [decode, htake, hdrop, leNat_leBytes, hinum]

end Xv6.Fs
