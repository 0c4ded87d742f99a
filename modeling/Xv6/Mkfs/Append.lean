import Xv6.Fs.Update
import Xv6.Lib.Triple
import Xv6.Mkfs.Machine

/-!
# `iappend` and the block map of the kernel

While `mkfs` works, `freeblock` stands for the free map: the blocks in front of it are in
use. `overlay` is the disk with the free map filled in that way. On it `blockFor` does what
the kernel's `bmap` does, and appending to a file does what the kernel's `writei` does at its
end, so that the invariant `Sound` of the kernel applies to the image as it grows.
-/

namespace Xv6.Mkfs

open Xv6.Lib
open Xv6.Disk (Block)
open Xv6.Fs
open Function (update update_of_ne update_self update_eq_self update_idem update_comm)

variable {d d' : Disk} {D : ℕ → Dinode} {i fb b x m : ℕ} {din din' : Dinode} {s : Mk} {r : Ref}
  {k : Fin (NDIRECT + 1)} {p : List UInt8}

/-! ## The free map -/

lemma bitmap_succ (n : ℕ) : bitmap (n + 1) = (bitmap n).setBit n := by
  simp [bitmap, List.range_succ]

lemma testBit_bitmap {n : ℕ} (hn : n ≤ 8 * BSIZE) (b : ℕ) :
    (bitmap n).testBit b = decide (b < n) := by
  induction n with
  | zero =>
    simp [bitmap, Bytes.testBit, Bytes.get, Bytes.fill]
  | succ n ih =>
    rw [bitmap_succ, Bytes.testBit_setBit (by omega), ih (by omega)]
    by_cases hb : b = n
    · simp [hb]
    · simp only [hb, decide_false, Bool.false_or, decide_eq_decide]
      omega

/-- The disk with the first `fb` blocks marked in the free map. -/
def overlay (fb : ℕ) (d : Disk) : Disk := update d sb.bmapstart (bitmap fb)

lemma overlay_of_ne (h : b ≠ sb.bmapstart) : overlay fb d b = d b :=
  update_of_ne h ..

lemma overlay_update (h : b ≠ sb.bmapstart) (v : Block) :
    overlay fb (update d b v) = update (overlay fb d) b v :=
  update_comm h ..

lemma sb_wellFormed : sb.WellFormed where
  log_le := by decide
  inode_lt i hi := by
    show i / 16 + 32 < 45
    have hi : i < 200 := hi
    omega
  bmap_lt b hb := by
    show b / 8192 + 45 < 46
    have hb : b < 2000 := hb
    omega
  ninodes_le := by decide
  size_lt := by decide
  root_lt := by decide

lemma marked_overlay (hfb : fb ≤ FSSIZE) (hb : b < BPB) :
    marked sb (overlay fb d) b = decide (b < fb) := by
  have hb' : b < 8192 := hb
  have hblock : sb.bblock b = sb.bmapstart := by
    show b / 8192 + 45 = 45
    omega
  have hmod : b % BPB = b := Nat.mod_eq_of_lt hb
  have hfit : fb ≤ 8 * BSIZE := hfb.trans (by decide)
  rw [marked, hblock, overlay, update_self, hmod, testBit_bitmap hfit]

/-- What the next block is: the one that the kernel's `balloc` finds. -/
lemma balloc_overlay (hfb : fb < FSSIZE) (hzero : d fb = Bytes.fill BSIZE 0)
    (hmeta : nmeta ≤ fb) : Fs.balloc sb (overlay fb d) = (fb, overlay (fb + 1) d) := by
  have hfit : fb < BPB := hfb.trans (by decide)
  have hfind : (List.range sb.size).find? (fun b => !marked sb (overlay fb d) b) = some fb := by
    rw [List.find?_range_eq_some]
    refine ⟨?_, List.mem_range.2 hfb, fun j hj => ?_⟩
    · rw [marked_overlay hfb.le hfit]
      simp
    · rw [marked_overlay hfb.le (hj.trans hfit)]
      simp [hj]
  have hne : fb ≠ sb.bmapstart := by
    have : sb.bmapstart < nmeta := by decide
    omega
  have hfb' : fb < 2000 := hfb
  have hblock : sb.bblock fb = sb.bmapstart := by
    show fb / 8192 + 45 = 45
    omega
  have hmod : fb % BPB = fb := by
    show fb % 8192 = fb
    omega
  unfold Fs.balloc
  rw [Store.blocks_disk, hfind]
  dsimp only
  rw [hblock, hmod, Store.put_disk]
  have hset : update (overlay fb d) sb.bmapstart
      ((overlay fb d sb.bmapstart).setBit fb) = overlay (fb + 1) d := by
    simp only [overlay, update_self, update_idem, bitmap_succ]
  have hthere : overlay (fb + 1) d fb = Bytes.fill BSIZE 0 := (overlay_of_ne hne).trans hzero
  rw [hset, bzero_disk, ← hthere, update_eq_self]

/-! ## Block numbers of one inode -/

/-- The place `r` of the inode gets the block number `b`, and all others stay. -/
def PutAt (din : Dinode) (d : Disk) (r : Ref) (b : ℕ) (din' : Dinode) (d' : Disk) : Prop :=
  ∀ r', din'.at d' r' = if r' = r then b else din.at d r'

lemma PutAt.new (h : PutAt din d r b din' d') (r' : Ref) :
    din'.at d' r' = din.at d r' ∨ b ≤ din'.at d' r' := by
  rw [h]
  split
  · exact .inr le_rfl
  · exact .inl rfl

lemma putAt_addr (hk : k ≠ Fin.last NDIRECT) (hb : b < 2 ^ 32) :
    PutAt din d (.addr k) b (din.setAddr k b) d := by
  intro r
  cases r with
  | addr k' =>
    by_cases hkk : k' = k
    · rw [hkk, if_pos rfl, Dinode.at_addr, Dinode.setAddr_addrs, BitVec.toNat_ofNat,
        Nat.mod_eq_of_lt hb]
    · rw [if_neg (by simpa using hkk), Dinode.at_addr, Dinode.setAddr_addrs_of_ne _ hkk,
        Dinode.at_addr]
  | entry j => rw [if_neg (by simp), Dinode.setAddr_at_entry _ hk]

/-- A new indirect block is zeroed. -/
lemma putAt_indirect (hnone : din.addrs (Fin.last NDIRECT) = 0) (hb : b < 2 ^ 32) (hb0 : b ≠ 0)
    (hzero : d b = Bytes.fill BSIZE 0) :
    PutAt din d .indirect b (din.setAddr (Fin.last NDIRECT) b) d := by
  have haddr : ((din.setAddr (Fin.last NDIRECT) b).addrs (Fin.last NDIRECT)).toNat = b := by
    rw [Dinode.setAddr_addrs, BitVec.toNat_ofNat, Nat.mod_eq_of_lt hb]
  have hne : (din.setAddr (Fin.last NDIRECT) b).addrs (Fin.last NDIRECT) ≠ 0 := by
    intro h0
    rw [h0] at haddr
    exact hb0 haddr.symm
  intro r
  cases r with
  | addr k' =>
    by_cases hkk : k' = Fin.last NDIRECT
    · rw [hkk, Ref.indirect, if_pos rfl, Dinode.at_addr, haddr]
    · rw [if_neg (by simpa [Ref.indirect] using hkk), Dinode.at_addr,
        Dinode.setAddr_addrs_of_ne _ hkk, Dinode.at_addr]
  | entry j =>
    rw [if_neg (by simp [Ref.indirect]), Dinode.at_entry_of_none hnone, Dinode.at_entry hne, haddr,
      hzero, entry, Bytes.ld_fill_zero]

lemma putAt_entry {j : Fin NINDIRECT} (hne : din.addrs (Fin.last NDIRECT) ≠ 0) (hb : b < 2 ^ 32) :
    PutAt din d (.entry j) b din (update d (din.addrs (Fin.last NDIRECT)).toNat
      ((d (din.addrs (Fin.last NDIRECT)).toNat).st 4 (4 * j) b)) := by
  intro r
  cases r with
  | addr k' => rw [if_neg (by simp), Dinode.at_addr, Dinode.at_addr]
  | entry e =>
    rw [Dinode.at_entry hne, Dinode.at_entry hne, update_self, entry_st j.isLt hb]
    by_cases he : e = j
    · rw [if_pos (congrArg Fin.val he), if_pos (by rw [he])]
    · rw [if_neg (fun h => he (Fin.ext h)), if_neg (by simpa using he)]

/-- The inode has the blocks for its first `n` bytes and no others, and zeroes from byte `off`
on. -/
structure Exact (din : Dinode) (d : Disk) (n off : ℕ) : Prop where
  block : ∀ bn < MAXFILE, din.at d (blockRef bn) ≠ 0 ↔ bn * BSIZE < n
  indirect : din.at d .indirect ≠ 0 ↔ NDIRECT * BSIZE < n
  tail : ∀ o, off ≤ o → o / BSIZE < MAXFILE → din.at d (blockRef (o / BSIZE)) ≠ 0 →
    fileByte din d o = 0

/-- The block for byte `off`, the first of a block, is added. -/
lemma Exact.grow {off : ℕ} (h : Exact din d off off) (hmod : off % BSIZE = 0)
    (hplaces : ∀ bn < MAXFILE, din'.at d' (blockRef bn) =
      if bn = off / BSIZE then x else din.at d (blockRef bn)) (hx : x ≠ 0)
    (hind : din'.at d' .indirect ≠ 0 ↔ NDIRECT * BSIZE < off + 1)
    (hzero : d' x = Bytes.fill BSIZE 0) : Exact din' d' (off + 1) off := by
  refine ⟨fun bn hbn => ?_, hind, fun o ho hbn hne => ?_⟩
  · rw [hplaces bn hbn]
    by_cases heq : bn = off / BSIZE
    · rw [if_pos heq]
      refine iff_of_true hx ?_
      unfold BSIZE at *
      omega
    · rw [if_neg heq, h.block bn hbn]
      unfold BSIZE at *
      omega
  · rw [hplaces _ hbn] at hne
    by_cases heq : o / BSIZE = off / BSIZE
    · rw [fileByte, hplaces _ hbn, if_pos heq, hzero]
      exact Bytes.get_fill (Nat.mod_lt _ (by decide))
    · rw [if_neg heq, h.block _ hbn] at hne
      unfold BSIZE at *
      omega

/-- The number of blocks that `size` bytes take. -/
def blocksFor (size : ℕ) : ℕ :=
  (size + (BSIZE - 1)) / BSIZE + if NDIRECT * BSIZE < size then 1 else 0

lemma blocksFor_mono {n : ℕ} (h : m ≤ n) : blocksFor m ≤ blocksFor n := by
  unfold blocksFor NDIRECT BSIZE
  split <;> split <;> omega

/-- The unused blocks of the image are zeroed. -/
structure Fresh (s : Mk) : Prop where
  zero : ∀ b, s.freeblock ≤ b → b < FSSIZE → s.disk b = Bytes.fill BSIZE 0
  meta_le : nmeta ≤ s.freeblock

/-! ## One round of `iappend` -/

/-- A new block number in `din.addrs[k]`, if there is none: as the kernel does it. -/
lemma needAddr_none (hf : Fresh s) (hk : din.addrs k = 0) (hlt : s.freeblock < FSSIZE) :
    (needAddr din k).run s =
        .ok (din.setAddr k s.freeblock, { s with freeblock := s.freeblock + 1 }) ∧
      bmapAddr sb din k (overlay s.freeblock s.disk) =
        (s.freeblock, din.setAddr k s.freeblock, overlay (s.freeblock + 1) s.disk) := by
  have hmeta : 46 ≤ s.freeblock := hf.meta_le
  unfold needAddr bmapAddr
  rw [if_pos hk, if_pos hk, balloc_overlay hlt (hf.zero _ le_rfl hlt) hf.meta_le]
  refine ⟨rfl, ?_⟩
  dsimp only
  rw [if_neg (by omega)]

lemma needAddr_some (hk : din.addrs k ≠ 0) :
    (needAddr din k).run s = .ok (din, s) ∧
      bmapAddr sb din k (overlay s.freeblock s.disk) =
        ((din.addrs k).toNat, din, overlay s.freeblock s.disk) := by
  unfold needAddr bmapAddr
  rw [if_neg hk, if_neg hk]
  exact ⟨rfl, rfl⟩

/-- A new block number in an entry of the indirect block: as the kernel does it. -/
lemma entry_run (hf : Fresh s) {ind j : ℕ} (hind : nmeta ≤ ind)
    (hzero : entry (s.disk ind) j = 0) (hlt : s.freeblock < FSSIZE) :
    bmapEntry sb ind j (overlay s.freeblock s.disk) = (s.freeblock, overlay (s.freeblock + 1)
      (update s.disk ind ((s.disk ind).st 4 (4 * j) s.freeblock))) := by
  have hmeta : 46 ≤ s.freeblock := hf.meta_le
  have hne : ind ≠ sb.bmapstart := by
    have : sb.bmapstart < nmeta := by decide
    omega
  unfold bmapEntry
  rw [Store.blocks_disk, overlay_of_ne hne, if_pos hzero,
    balloc_overlay hlt (hf.zero _ le_rfl hlt) hf.meta_le]
  dsimp only
  rw [if_neg (by omega), Store.put_disk, Store.blocks_disk, overlay_update hne, overlay_of_ne hne]

lemma rsect_run (hb : b < FSSIZE) : (rsect b).run s = .ok (s.disk b, s) := by
  unfold rsect
  rw [if_pos hb]
  rfl

/-- What `blockFor` returns and leaves behind, and that `bmap` does the same. -/
structure Found (s : Mk) (din : Dinode) (off x : ℕ) (din' : Dinode) (s' : Mk) : Prop where
  run : (blockFor din (off / BSIZE)).run s = .ok ((x, din'), s')
  bmap : bmap sb din (off / BSIZE) (overlay s.freeblock s.disk) =
    .ok (x, din', overlay s'.freeblock s'.disk)
  freeinode : s'.freeinode = s.freeinode
  count : s'.freeblock + blocksFor off = s.freeblock + blocksFor (off + 1)
  fresh : Fresh s'
  lt : nmeta ≤ x ∧ x < s'.freeblock
  exact : Exact din' s'.disk (off + 1) off
  kept : ∀ b < s.freeblock, (∀ r, din.at s.disk r ≠ b) → s'.disk b = s.disk b
  new : ∀ r, din'.at s'.disk r = din.at s.disk r ∨ s.freeblock ≤ din'.at s'.disk r

lemma at_overlay (h : nmeta ≤ (din.addrs (Fin.last NDIRECT)).toNat ∨
    din.addrs (Fin.last NDIRECT) = 0) (r : Ref) : din.at (overlay fb d) r = din.at d r := by
  cases r with
  | addr k => rfl
  | entry j =>
    by_cases hnone : din.addrs (Fin.last NDIRECT) = 0
    · rw [Dinode.at_entry_of_none hnone, Dinode.at_entry_of_none hnone]
    · have hne : (din.addrs (Fin.last NDIRECT)).toNat ≠ sb.bmapstart := by
        have : sb.bmapstart < nmeta := by decide
        have := h.resolve_right hnone
        omega
      rw [Dinode.at_entry hnone, Dinode.at_entry hnone, overlay_of_ne hne]

section Found

variable {off : ℕ}

/-- The hypotheses of a round: the block numbers are in use, each is at one place, and there
is room. -/
structure Ready (s : Mk) (din : Dinode) (off : ℕ) : Prop where
  fresh : Fresh s
  le : s.freeblock ≤ FSSIZE
  range : ∀ r, din.at s.disk r ≠ 0 → nmeta ≤ din.at s.disk r ∧ din.at s.disk r < s.freeblock
  inj : ∀ r r', din.at s.disk r ≠ 0 → din.at s.disk r = din.at s.disk r' → r = r'
  exact : Exact din s.disk off off
  lt : off / BSIZE < MAXFILE
  fit : s.freeblock + blocksFor (off + 1) ≤ FSSIZE + blocksFor off

lemma Ready.indirect (h : Ready s din off) : nmeta ≤ (din.addrs (Fin.last NDIRECT)).toNat ∨
    din.addrs (Fin.last NDIRECT) = 0 := by
  by_cases h0 : din.addrs (Fin.last NDIRECT) = 0
  · exact .inr h0
  · exact .inl (h.range .indirect fun hz => h0 (BitVec.eq_of_toNat_eq hz)).1

/-- The block is there. -/
lemma Ready.found_mapped (h : Ready s din off) (hmod : off % BSIZE ≠ 0) :
    Found s din off (din.at s.disk (blockRef (off / BSIZE))) din s := by
  have hne : din.at s.disk (blockRef (off / BSIZE)) ≠ 0 := by
    rw [h.exact.block _ h.lt]
    unfold BSIZE at *
    omega
  have hcount : blocksFor (off + 1) = blocksFor off := by
    unfold blocksFor NDIRECT BSIZE at *
    split <;> split <;> omega
  refine ⟨?_, ?_, rfl, by rw [hcount], h.fresh, h.range _ hne, ⟨fun bn hbn => ?_, ?_, h.exact.tail⟩,
    fun _ _ _ => rfl, fun _ => .inl rfl⟩
  · unfold blockFor
    by_cases hdir : off / BSIZE < NDIRECT
    · rw [blockRef_addr hdir, Dinode.at_addr] at hne ⊢
      have haddr : din.addrs (Fin.ofNat _ (off / BSIZE)) ≠ 0 := fun h0 => hne (by rw [h0]; rfl)
      rw [if_pos hdir, run_bind_of_ok (needAddr_some haddr).1]
      rfl
    · have hsub : off / BSIZE - NDIRECT < NINDIRECT := by
        have := h.lt
        unfold MAXFILE at this
        omega
      have hfin : ((Fin.ofNat NINDIRECT (off / BSIZE - NDIRECT) : Fin NINDIRECT) : ℕ) =
          off / BSIZE - NDIRECT := Nat.mod_eq_of_lt hsub
      rw [blockRef_entry hdir] at hne ⊢
      have haddr : din.addrs (Fin.last NDIRECT) ≠ 0 := fun h0 =>
        hne (Dinode.at_entry_of_none h0 _ _)
      have hind : (din.addrs (Fin.last NDIRECT)).toNat < s.freeblock :=
        (h.range .indirect fun hz => haddr (BitVec.eq_of_toNat_eq hz)).2
      rw [Dinode.at_entry haddr, hfin] at hne ⊢
      rw [if_neg hdir, run_bind_of_ok (needAddr_some haddr).1]
      dsimp only
      rw [run_bind_of_ok (rsect_run (hind.trans_le h.le)), if_neg hne]
      rfl
  · have hat : din.at (overlay s.freeblock s.disk) (blockRef (off / BSIZE)) =
        din.at s.disk (blockRef (off / BSIZE)) := at_overlay h.indirect _
    rw [← hat] at hne ⊢
    exact bmap_of_mapped h.lt hne
  · rw [h.exact.block bn hbn]
    unfold BSIZE at *
    omega
  · rw [h.exact.indirect]
    unfold NDIRECT BSIZE at *
    omega

/-- A direct block is added. -/
lemma Ready.found_direct (h : Ready s din off) (hmod : off % BSIZE = 0)
    (hdir : off / BSIZE < NDIRECT) :
    Found s din off s.freeblock (din.setAddr (Fin.ofNat _ (off / BSIZE)) s.freeblock)
      { s with freeblock := s.freeblock + 1 } := by
  have hnone : din.addrs (Fin.ofNat _ (off / BSIZE)) = 0 := by
    have hz : ¬din.at s.disk (blockRef (off / BSIZE)) ≠ 0 := by
      rw [h.exact.block _ h.lt]
      unfold BSIZE at *
      omega
    rw [blockRef_addr hdir, Dinode.at_addr, not_not] at hz
    exact BitVec.eq_of_toNat_eq hz
  have hcount : blocksFor (off + 1) = blocksFor off + 1 := by
    unfold blocksFor NDIRECT BSIZE at *
    split <;> split <;> omega
  have hlt : s.freeblock < FSSIZE := by
    have := h.fit
    omega
  have hlt' : s.freeblock < 2000 := hlt
  have hmeta : 46 ≤ s.freeblock := h.fresh.meta_le
  have hlast : Fin.ofNat (NDIRECT + 1) (off / BSIZE) ≠ Fin.last NDIRECT := by
    intro heq
    have hval : ((Fin.ofNat (NDIRECT + 1) (off / BSIZE) : Fin (NDIRECT + 1)) : ℕ) = off / BSIZE :=
      Nat.mod_eq_of_lt (by omega)
    rw [heq, Fin.val_last] at hval
    omega
  obtain ⟨hrun, hmap⟩ := needAddr_none h.fresh hnone hlt
  have hput : PutAt din s.disk (.addr (Fin.ofNat _ (off / BSIZE))) s.freeblock
      (din.setAddr (Fin.ofNat _ (off / BSIZE)) s.freeblock) s.disk := putAt_addr hlast (by omega)
  have hval := hput (.addr (Fin.ofNat _ (off / BSIZE)))
  rw [if_pos rfl, Dinode.at_addr] at hval
  refine ⟨?_, ?_, rfl, by simp only; omega, ⟨fun b hb => h.fresh.zero b (by simp only at hb; omega),
    by simp only; exact hmeta.trans (Nat.le_succ _)⟩, ⟨hmeta, Nat.lt_succ_self _⟩, ?_,
    fun _ _ _ => rfl, hput.new⟩
  · unfold blockFor
    rw [if_pos hdir, run_bind_of_ok hrun, hval]
    rfl
  · unfold bmap
    rw [if_pos hdir, hmap]
    rfl
  · refine h.exact.grow hmod (x := s.freeblock) (fun bn hbn => ?_) (by omega) ?_
      (h.fresh.zero _ le_rfl hlt)
    · rw [hput]
      by_cases heq : bn = off / BSIZE
      · rw [if_pos heq, heq, blockRef_addr hdir, if_pos rfl]
      · rw [if_neg heq, if_neg fun hr => heq (blockRef_injective hbn h.lt
          (hr.trans (blockRef_addr hdir).symm))]
    · rw [hput, if_neg (by simpa [Ref.indirect] using hlast.symm), h.exact.indirect]
      unfold NDIRECT BSIZE at *
      omega

/-- A block in the indirect block is added, once there is an indirect block. -/
lemma Ready.found_entry (h : Ready s din off) (hmod : off % BSIZE = 0)
    (hdir : ¬off / BSIZE < NDIRECT) {s₁ : Mk}
    (hrun : (needAddr din (Fin.last NDIRECT)).run s = .ok (din', s₁))
    (hmap : bmapAddr sb din (Fin.last NDIRECT) (overlay s.freeblock s.disk) =
      ((din'.addrs (Fin.last NDIRECT)).toNat, din', overlay s₁.freeblock s.disk))
    (hdisk : s₁.disk = s.disk) (hinode : s₁.freeinode = s.freeinode) (hf : Fresh s₁)
    (hcount : s₁.freeblock + 1 + blocksFor off = s.freeblock + blocksFor (off + 1))
    (hind : nmeta ≤ (din'.addrs (Fin.last NDIRECT)).toNat ∧
      (din'.addrs (Fin.last NDIRECT)).toNat < s₁.freeblock)
    (hplaces : ∀ bn < MAXFILE, din'.at s.disk (blockRef bn) = din.at s.disk (blockRef bn))
    (hnew : ∀ r, din'.at s.disk r = din.at s.disk r ∨ s.freeblock ≤ din'.at s.disk r)
    (hmono : s.freeblock ≤ s₁.freeblock) :
    Found s din off s₁.freeblock din' { s₁ with
      disk := update s.disk (din'.addrs (Fin.last NDIRECT)).toNat
        ((s.disk (din'.addrs (Fin.last NDIRECT)).toNat).st 4 (4 * (off / BSIZE - NDIRECT))
          s₁.freeblock)
      freeblock := s₁.freeblock + 1 } := by
  have hsub : off / BSIZE - NDIRECT < NINDIRECT := by
    have := h.lt
    unfold MAXFILE at this
    omega
  have hfin : ((Fin.ofNat NINDIRECT (off / BSIZE - NDIRECT) : Fin NINDIRECT) : ℕ) =
      off / BSIZE - NDIRECT := Nat.mod_eq_of_lt hsub
  have hlt : s₁.freeblock < FSSIZE := by
    have := h.fit
    omega
  have hlt' : s₁.freeblock < 2000 := hlt
  have hmeta : 46 ≤ s₁.freeblock := hf.meta_le
  have hne : din'.addrs (Fin.last NDIRECT) ≠ 0 := by
    intro h0
    have hpos : 46 ≤ (din'.addrs (Fin.last NDIRECT)).toNat := hind.1
    rw [h0] at hpos
    exact absurd hpos (by decide)
  have hne' : (din'.addrs (Fin.last NDIRECT)).toNat ≠ 0 := fun h0 => hne (BitVec.eq_of_toNat_eq h0)
  have hzero : entry (s.disk (din'.addrs (Fin.last NDIRECT)).toNat) (off / BSIZE - NDIRECT) =
      0 := by
    have hz : ¬din.at s.disk (blockRef (off / BSIZE)) ≠ 0 := by
      rw [h.exact.block _ h.lt]
      unfold BSIZE at *
      omega
    rwa [not_not, ← hplaces _ h.lt, blockRef_entry hdir, Dinode.at_entry hne, hfin] at hz
  have hput := putAt_entry (d := s.disk) (j := Fin.ofNat NINDIRECT (off / BSIZE - NDIRECT)) hne
    (show s₁.freeblock < 2 ^ 32 by omega)
  rw [hfin] at hput
  refine ⟨?_, ?_, hinode, hcount, ⟨fun b hb hb' => ?_, hmeta.trans (Nat.le_succ _)⟩,
    ⟨hmeta, Nat.lt_succ_self _⟩, ?_, fun b hb hother => ?_, fun r => ?_⟩
  · unfold blockFor
    rw [if_neg hdir, run_bind_of_ok hrun]
    dsimp only
    rw [run_bind_of_ok (rsect_run (hind.2.trans hlt)), hdisk, if_pos hzero]
    have hent : entry ((s.disk (din'.addrs (Fin.last NDIRECT)).toNat).st 4
        (4 * (off / BSIZE - NDIRECT)) s₁.freeblock) (off / BSIZE - NDIRECT) = s₁.freeblock := by
      rw [entry_st hsub (by omega), if_pos rfl]
    rw [run_bind_of_ok (show nextBlock.run s₁ =
      .ok (s₁.freeblock, { s₁ with freeblock := s₁.freeblock + 1 }) from rfl)]
    rw [hent, ← hdisk]
    rfl
  -- `bmap` of the kernel takes the same block
  · unfold bmap
    rw [if_neg hdir, if_pos hsub, hmap]
    dsimp only
    have hentry := entry_run hf (j := off / BSIZE - NDIRECT) hind.1 (by rw [hdisk]; exact hzero) hlt
    rw [if_neg hne', ← hdisk, hentry]
    rfl
  · have hapart : b ≠ (din'.addrs (Fin.last NDIRECT)).toNat := by
      dsimp only at hb
      omega
    dsimp only at hb ⊢
    rw [update_of_ne hapart, ← hdisk]
    exact hf.zero b (by omega) hb'
  · refine h.exact.grow hmod (x := s₁.freeblock) (fun bn hbn => ?_) (by omega) ?_ ?_
    · rw [hput, hplaces bn hbn]
      by_cases heq : bn = off / BSIZE
      · rw [if_pos heq, heq, blockRef_entry hdir, if_pos rfl]
      · rw [if_neg heq, if_neg fun hr => heq (blockRef_injective hbn h.lt
          (hr.trans (blockRef_entry hdir).symm))]
    · rw [Ref.indirect, Dinode.at_addr]
      refine iff_of_true hne' ?_
      unfold NDIRECT BSIZE at *
      omega
    · dsimp only
      rw [update_of_ne (by omega), ← hdisk]
      exact hf.zero _ le_rfl hlt
  · -- the indirect block is the inode's, or new
    refine update_of_ne (fun heq => ?_) ..
    rcases hnew .indirect with hsame | hge
    · exact hother .indirect (hsame.symm.trans heq.symm)
    · have : b = din'.at s.disk .indirect := heq
      omega
  · rcases hput.new r with hsame | hge
    · rw [hsame]
      exact hnew r
    · exact .inr (hmono.trans hge)

/-- `blockFor` finds a block, as `bmap` does. -/
lemma Ready.found (h : Ready s din off) : ∃ x din' s', Found s din off x din' s' := by
  by_cases hmod : off % BSIZE = 0
  · by_cases hdir : off / BSIZE < NDIRECT
    · exact ⟨_, _, _, h.found_direct hmod hdir⟩
    · by_cases hnone : din.addrs (Fin.last NDIRECT) = 0
      · have hnot : ¬NDIRECT * BSIZE < off := by
          rw [← h.exact.indirect, Ref.indirect, Dinode.at_addr, hnone]
          exact fun hc => hc rfl
        have hcount : blocksFor (off + 1) = blocksFor off + 2 := by
          unfold blocksFor
          rw [if_neg hnot, if_pos (by unfold NDIRECT BSIZE at *; omega)]
          unfold BSIZE at *
          omega
        have hlt : s.freeblock < FSSIZE := by
          have := h.fit
          omega
        have hlt' : s.freeblock < 2000 := hlt
        have hmeta : 46 ≤ s.freeblock := h.fresh.meta_le
        obtain ⟨hrun, hmap⟩ := needAddr_none h.fresh hnone hlt
        have hput := putAt_indirect (d := s.disk) hnone (show s.freeblock < 2 ^ 32 by omega)
          (by omega) (h.fresh.zero _ le_rfl hlt)
        have hval := hput .indirect
        rw [if_pos rfl, Ref.indirect, Dinode.at_addr] at hval
        refine ⟨_, _, _, h.found_entry hmod hdir hrun (by rw [hmap, hval]) rfl rfl
          ⟨fun b hb => h.fresh.zero b (by dsimp only at hb; omega), hmeta.trans (Nat.le_succ _)⟩
          (by dsimp only; omega) ?_ (fun bn hbn => ?_) hput.new (Nat.le_succ _)⟩
        · rw [hval]
          exact ⟨hmeta, Nat.lt_succ_self _⟩
        · rw [hput, if_neg (blockRef_ne_indirect hbn)]
      · obtain ⟨hrun, hmap⟩ := needAddr_some (s := s) hnone
        have hind := h.range .indirect fun hz => hnone (BitVec.eq_of_toNat_eq hz)
        have hthere : NDIRECT * BSIZE < off := by
          rw [← h.exact.indirect]
          exact fun hz => hnone (BitVec.eq_of_toNat_eq hz)
        have hcount : blocksFor (off + 1) = blocksFor off + 1 := by
          unfold blocksFor
          rw [if_pos hthere, if_pos (by omega)]
          unfold BSIZE at *
          omega
        exact ⟨_, _, _, h.found_entry hmod hdir hrun hmap rfl rfl h.fresh (by omega) hind
          (fun _ _ => rfl) (fun _ => .inl rfl) le_rfl⟩
  · exact ⟨_, _, _, h.found_mapped hmod⟩

end Found

/-! ## The loop of `iappend` -/

/-- The invariant reads the same block numbers. -/
lemma cell_overlay (hs : Sound sb (overlay fb d) D) (hi : i < NINODES) (ht : (D i).type ≠ 0)
    (r : Ref) : cell sb (overlay fb d) D (i, r) = (D i).at d r := by
  rw [cell_eq hi ht]
  apply at_overlay
  by_cases h0 : (D i).addrs (Fin.last NDIRECT) = 0
  · exact .inr h0
  · exact .inl (hs.at_mem (r := .indirect) hi ht fun hz => h0 (BitVec.eq_of_toNat_eq hz)).1

/-- The block numbers of an inode are in use. -/
lemma range_of_sound (hs : Sound sb (overlay fb d) D) (hle : fb ≤ FSSIZE) (hi : i < NINODES)
    (ht : (D i).type ≠ 0) (hr : (D i).at d r ≠ 0) : nmeta ≤ (D i).at d r ∧ (D i).at d r < fb := by
  rw [← cell_overlay hs hi ht] at hr ⊢
  have hmem := hs.owned.mem _ hr
  have hused := hs.owned.used_cell hr
  rw [marked_overlay hle (hmem.2.trans (by decide)), decide_eq_true_eq] at hused
  exact ⟨hmem.1, hused⟩

/-- A block number is at one place. -/
lemma inj_of_sound (hs : Sound sb (overlay fb d) D) {j : ℕ} (hi : i < NINODES) (ht : (D i).type ≠ 0)
    (hj : j < NINODES) (htj : (D j).type ≠ 0) {r' : Ref} (hr : (D i).at d r ≠ 0)
    (heq : (D i).at d r = (D j).at d r') : (i, r) = (j, r') := by
  rw [← cell_overlay hs hi ht] at hr heq
  rw [← cell_overlay hs hj htj] at heq
  exact hs.owned.inj _ _ hr heq

lemma ready_of_sound {off : ℕ} (hs : Sound sb (overlay s.freeblock s.disk) D) (hf : Fresh s)
    (hle : s.freeblock ≤ FSSIZE) (hi : i < NINODES) (ht : (D i).type ≠ 0)
    (hex : Exact (D i) s.disk off off) (hlt : off / BSIZE < MAXFILE)
    (hfit : s.freeblock + blocksFor (off + 1) ≤ FSSIZE + blocksFor off) :
    Ready s (D i) off where
  fresh := hf
  le := hle
  range _ := range_of_sound hs hle hi ht
  inj _ _ hr heq := congrArg Prod.snd (inj_of_sound hs hi ht hi ht hr heq)
  exact := hex
  lt := hlt
  fit := hfit

lemma copied_getElem (hm : m ≤ p.length) : copied (fun k => p[k]?) 0 m = p.take m := by
  have hsome : ∀ k < m, (p[0 + k]?).isSome := by
    intro k hk
    rw [Nat.zero_add, List.getElem?_eq_getElem (by omega)]
    rfl
  rw [copied_eq hsome]
  apply List.ext_getElem
  · simp [hm]
  · intro k hk hk'
    simp at hk hk' ⊢
    rw [List.getElem?_eq_getElem (by omega), Option.getD_some]

/-- Only the indirect block matters to the block numbers. -/
lemma at_update {v : Block} (hind : din.at d .indirect ≠ x) (r : Ref) :
    din.at (update d x v) r = din.at d r := by
  cases r with
  | addr k => rfl
  | entry j =>
    by_cases hnone : din.addrs (Fin.last NDIRECT) = 0
    · rw [Dinode.at_entry_of_none hnone, Dinode.at_entry_of_none hnone]
    · have hne : (din.addrs (Fin.last NDIRECT)).toNat ≠ x := hind
      rw [Dinode.at_entry hnone, Dinode.at_entry hnone, update_of_ne hne]

/-- Bytes are written to the block that was found. -/
lemma Exact.write {off : ℕ} (h : Exact din d (off + 1) off)
    (hx : din.at d (blockRef (off / BSIZE)) = x) (hind : din.at d .indirect ≠ x) (hm : 0 < m)
    (hfit : off % BSIZE + m ≤ BSIZE) (hp : p.length = m) :
    Exact din (update d x ((d x).put (off % BSIZE) p)) (off + m) (off + m) := by
  have hat := at_update (v := (d x).put (off % BSIZE) p) hind
  refine ⟨fun bn hbn => ?_, ?_, fun o ho hbn hne => ?_⟩
  · rw [hat, h.block bn hbn]
    unfold BSIZE at *
    omega
  · rw [hat, h.indirect]
    unfold NDIRECT BSIZE at *
    omega
  · rw [hat] at hne
    have hblock := (h.block _ hbn).1 hne
    have heq : o / BSIZE = off / BSIZE := by
      unfold BSIZE at *
      omega
    have hzero := h.tail o (by omega) hbn hne
    rw [fileByte, heq, hx] at hzero
    rw [fileByte, hat, heq, hx, update_self, Bytes.get_put_of_disjoint, hzero]
    rw [hp]
    unfold BSIZE at *
    omega

/-- The state after bytes were written to block `x`. -/
def Mk.write (s : Mk) (x off : ℕ) (p : List UInt8) : Mk :=
  { s with disk := update s.disk x ((s.disk x).put (off % BSIZE) p) }

lemma Exact.cell_ne_zero {off : ℕ} (hex : Exact (D i) d off off) (hs : Sound sb (overlay fb d) D)
    (hi : i < NINODES) (ht : (D i).type ≠ 0) (hmax : off ≤ MAXFILE * BSIZE) :
    ∀ bn, bn * BSIZE < off → cell sb (overlay fb d) D (i, blockRef bn) ≠ 0 := by
  intro bn hbn
  rw [cell_overlay hs hi ht, hex.block bn (by unfold BSIZE at *; omega)]
  exact hbn

lemma wrote_nil {off : ℕ} (hs : Sound sb (overlay fb d) D) (hi : i < NINODES)
    (ht : (D i).type ≠ 0) (hex : Exact (D i) d off off) (hmax : off ≤ MAXFILE * BSIZE) :
    Wrote sb D i (overlay fb d) (fun k => ([] : List UInt8)[k]?) 0 off 0 (D i) (overlay fb d) :=
  (Maps.refl hs (fun _ => rfl) (.inr rfl)).wrote (r := .indirect) hi ht _ _ hmax
    (hex.cell_ne_zero hs hi ht hmax)

/-- One round of the loop: `m` bytes are written to the block that `blockFor` finds. -/
lemma Found.write {off : ℕ} {s' : Mk} (h : Found s (D i) off x din' s')
    (hs : Sound sb (overlay s.freeblock s.disk) D) (hi : i < NINODES) (ht : (D i).type ≠ 0)
    (hex : Exact (D i) s.disk off off) (hm : 0 < m) (hmp : m ≤ p.length)
    (hfit : off % BSIZE + m ≤ BSIZE) (hmax : off + p.length ≤ MAXFILE * BSIZE) :
    Fresh (s'.write x off (p.take m)) ∧
      Exact din' (s'.write x off (p.take m)).disk (off + m) (off + m) ∧
      (∀ b < s.freeblock, (∀ r, (D i).at s.disk r ≠ b) →
        (s'.write x off (p.take m)).disk b = s.disk b) ∧
      (∀ r, din'.at (s'.write x off (p.take m)).disk r = (D i).at s.disk r ∨
        s.freeblock ≤ din'.at (s'.write x off (p.take m)).disk r) ∧
      Wrote sb D i (overlay s.freeblock s.disk) (fun k => p[k]?) p.length off m din'
        (overlay s'.freeblock (s'.write x off (p.take m)).disk) := by
  have hbn : off / BSIZE < MAXFILE := Nat.div_lt_of_lt_mul (by rw [Nat.mul_comm]; omega)
  have hmaps := (hs.bmap_post (E := fun _ => True) sb_wellFormed hi ht hbn).of_ok h.bmap
  dsimp only at hmaps
  have hxne : x ≠ sb.bmapstart := by
    have h₁ : sb.bmapstart < nmeta := by decide
    have h₂ := h.lt.1
    omega
  have hx0 : x ≠ 0 := by
    have h₁ : 46 ≤ x := h.lt.1
    omega
  have ht' : (update D i din' i).type ≠ 0 := by
    rwa [update_self, hmaps.sameMeta.1]
  have hat : (update D i din' i).at (overlay s'.freeblock s'.disk)
      (blockRef (off / BSIZE)) = x := by
    rw [update_self]
    exact (hmaps.addr_eq.resolve_left hx0).symm
  have hplace : ∀ r, (update D i din' i).at s'.disk r = din'.at s'.disk r := by
    intro r
    rw [update_self]
  have hcell := cell_overlay hmaps.sound hi ht'
  have hx : din'.at s'.disk (blockRef (off / BSIZE)) = x := by
    rw [← hplace, ← hcell, cell_eq hi ht', hat]
  -- the block is not the indirect block
  have hind : din'.at s'.disk .indirect ≠ x := by
    intro heq
    have hcells : cell sb (overlay s'.freeblock s'.disk) (update D i din') (i, .indirect) =
        cell sb (overlay s'.freeblock s'.disk) (update D i din')
          (i, blockRef (off / BSIZE)) := by
      rw [hcell, hcell, hplace, hplace, heq, hx]
    have hne : cell sb (overlay s'.freeblock s'.disk) (update D i din')
        (i, .indirect) ≠ 0 := by
      rw [hcell, hplace, heq]
      exact hx0
    have := hmaps.sound.owned.inj _ _ hne hcells
    exact blockRef_ne_indirect hbn (congrArg Prod.snd this).symm
  refine ⟨⟨fun b hb hb' => ?_, h.fresh.meta_le⟩, ?_, fun b hb hother => ?_, fun r => ?_, ?_⟩
  · have hbx : b ≠ x := by
      have h₁ := h.lt.2
      have h₂ : s'.freeblock ≤ b := hb
      omega
    rw [← h.fresh.zero b hb hb']
    exact update_of_ne hbx ..
  · exact h.exact.write hx hind hm hfit (List.length_take_of_le hmp)
  · have hbx : b ≠ x := by
      rintro rfl
      rcases h.new (blockRef (off / BSIZE)) with hsame | hge
      · exact hother _ (hsame.symm.trans hx)
      · omega
    rw [← h.kept b hb hother]
    exact update_of_ne hbx ..
  · rw [show din'.at (s'.write x off (p.take m)).disk r = din'.at s'.disk r from at_update hind r]
    exact h.new r
  · have hw₁ : Wrote sb D i (overlay s.freeblock s.disk) (fun k => p[k]?) p.length off 0 din'
        (overlay s'.freeblock s'.disk) :=
      hmaps.wrote hi ht _ _ (by omega) (hex.cell_ne_zero hs hi ht (by omega))
    have hw₂ := hmaps.sound.wrote sb_wellFormed hi ht' (fun k => p[k]?) hmp hbn hfit
      (fun bn hbn => hw₁.mapped bn (by omega)) (hat ▸ hx0)
    rw [hat, copied_getElem hmp, List.length_take_of_le hmp, if_neg (lt_irrefl m),
      overlay_of_ne hxne, ← overlay_update hxne, update_self] at hw₂
    have hw : Wrote sb D i (overlay s.freeblock s.disk) (fun k => p[k]?) p.length off (0 + m) din'
        (overlay s'.freeblock (s'.write x off (p.take m)).disk) := by
      refine hw₁.trans ?_ (by omega)
      simp only [Nat.zero_add, Nat.add_zero, Nat.sub_zero]
      exact hw₂
    rwa [Nat.zero_add] at hw

/-- The loop of `iappend` writes all bytes if there is room for them. -/
lemma iappendLoop_run (hi : i < NINODES) (fuel : ℕ) : ∀ (p : List UInt8) (off : ℕ) (D : ℕ → Dinode)
    (s : Mk), p.length ≤ fuel → Sound sb (overlay s.freeblock s.disk) D → (D i).type ≠ 0 →
    Fresh s → Exact (D i) s.disk off off →
    s.freeblock + blocksFor (off + p.length) ≤ FSSIZE + blocksFor off →
    off + p.length ≤ MAXFILE * BSIZE → s.freeblock ≤ FSSIZE →
    ∃ din' s', (iappendLoop fuel (D i) off p).run s = .ok ((din', off + p.length), s') ∧
      s'.freeinode = s.freeinode ∧
      s'.freeblock + blocksFor off = s.freeblock + blocksFor (off + p.length) ∧ Fresh s' ∧
      Exact din' s'.disk (off + p.length) (off + p.length) ∧
      (∀ b < s.freeblock, (∀ r, (D i).at s.disk r ≠ b) → s'.disk b = s.disk b) ∧
      Wrote sb D i (overlay s.freeblock s.disk) (fun k => p[k]?) p.length off p.length din'
        (overlay s'.freeblock s'.disk) := by
  induction fuel with
  | zero =>
    intro p off D s hp hs ht hf hex hfit hmax hle
    have hnil : p = [] := List.eq_nil_of_length_eq_zero (by omega)
    subst hnil
    exact ⟨D i, s, rfl, rfl, rfl, hf, hex, fun _ _ _ => rfl, wrote_nil hs hi ht hex hmax⟩
  | succ fuel ih =>
    intro p off D s hp hs ht hf hex hfit hmax hle
    by_cases hnil : p = []
    · subst hnil
      exact ⟨D i, s, rfl, rfl, rfl, hf, hex, fun _ _ _ => rfl, wrote_nil hs hi ht hex hmax⟩
    have hpos : 0 < p.length := List.length_pos_iff.2 hnil
    have hbn : off / BSIZE < MAXFILE := Nat.div_lt_of_lt_mul (by rw [Nat.mul_comm]; omega)
    have hmono : blocksFor (off + 1) ≤ blocksFor (off + p.length) := blocksFor_mono (by omega)
    have hmod : off % BSIZE < BSIZE := Nat.mod_lt _ (by decide)
    obtain ⟨x, din', s', hfound⟩ :=
      (ready_of_sound hs hf hle hi ht hex hbn (by omega)).found
    have hcount := hfound.count
    -- the bytes of this round
    generalize hm : min p.length ((off / BSIZE + 1) * BSIZE - off) = m
    have hm₁ : 0 < m ∧ m ≤ p.length ∧ off % BSIZE + m ≤ BSIZE := by
      unfold BSIZE at *
      omega
    obtain ⟨hf₂, hex₂, hkept, hnew, hw⟩ := hfound.write hs hi ht hex hm₁.1 hm₁.2.1 hm₁.2.2 hmax
    have hblocks : blocksFor (off + m) = blocksFor (off + 1) := by
      unfold blocksFor NDIRECT BSIZE at *
      split <;> split <;> omega
    have hself : update D i din' i = din' := update_self ..
    have hsplit : off + m + (p.drop m).length = off + p.length := by
      rw [List.length_drop]
      omega
    obtain ⟨din₃, s₃, hrun, hinode, hcount₃, hf₃, hex₃, hkept₃, hw₃⟩ := ih (p.drop m) (off + m)
      (update D i din') (s'.write x off (p.take m)) (by rw [List.length_drop]; omega)
      hw.sound (by rw [hself, hw.sameMeta.1]; exact ht) hf₂ (by rwa [hself])
      (by rw [hsplit]; show s'.freeblock + _ ≤ _; omega) (by omega)
      (by show s'.freeblock ≤ _; omega)
    rw [hsplit] at hrun hcount₃ hex₃
    rw [hself] at hrun hkept₃
    refine ⟨din₃, s₃, ?_, hinode.trans hfound.freeinode, ?_, hf₃, hex₃, fun b hb hother => ?_, ?_⟩
    · unfold iappendLoop
      rw [if_neg hnil]
      dsimp only
      rw [if_pos hbn, run_bind_of_ok hfound.run]
      dsimp only
      have hoff : off - off / BSIZE * BSIZE = off % BSIZE := by
        unfold BSIZE at *
        omega
      have hx : x < FSSIZE := by
        have := hfound.lt.2
        omega
      rw [hm, hoff, run_bind_of_ok (rsect_run hx), run_bind_of_ok (show (wsect x ((s'.disk x).put
        (off % BSIZE) (p.take m))).run s' = .ok ((), s'.write x off (p.take m)) from rfl)]
      exact hrun
    · have : s₃.freeblock + blocksFor (off + m) = s'.freeblock + blocksFor (off + p.length) :=
        hcount₃
      omega
    · have hle₂ : s.freeblock ≤ s'.freeblock := by
        have : blocksFor off ≤ blocksFor (off + 1) := blocksFor_mono (by omega)
        omega
      rw [hkept₃ b (hb.trans_le hle₂) fun r heq => ?_, hkept b hb hother]
      rcases hnew r with hsame | hge
      · exact hother r (hsame.symm.trans heq)
      · omega
    · have hdrop : (fun k => (p.drop m)[k]?) = fun k => p[m + k]? := by
        funext k
        exact List.getElem?_drop
      rw [hdrop, List.length_drop] at hw₃
      have htrans := hw.trans hw₃ (by omega)
      rwa [show m + (p.length - m) = p.length by omega] at htrans

end Xv6.Mkfs
