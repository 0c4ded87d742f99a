import Xv6.Fs.Inode
import Xv6.Lib.Ownership

/-!
# Who owns a block

A data block belongs to the place that holds its number: an element of the `addrs` of an
allocated inode, or an entry of its indirect block. `Sound` is the invariant of the disk:
the free map agrees with these places, the blocks in front of the data blocks are marked,
and a file has a block for every byte below its size.

The inodes are given by a function `din`: those on disk, or, in the middle of an operation,
those on disk but for one that is more recent in memory.
-/

namespace Xv6.Fs

open Xv6.Lib
open Xv6.Disk (Block)
open Xv6.Process (Stop)
open Function (update update_of_ne update_self update_eq_self update_idem)

/-! ## Places that hold block numbers -/

/-- A place in an inode that holds a block number. -/
inductive Ref where
  | addr (k : Fin (NDIRECT + 1))
  | entry (j : Fin NINDIRECT)
deriving DecidableEq

/-- The place of the number of the indirect block. -/
def Ref.indirect : Ref := .addr (Fin.last NDIRECT)

/-- The block number at a place, `0` if there is none. -/
def Dinode.at (ip : Dinode) (d : Disk) : Ref → ℕ
  | .addr k => (ip.addrs k).toNat
  | .entry j =>
    if ip.addrs (Fin.last NDIRECT) = 0 then 0
    else Fs.entry (d (ip.addrs (Fin.last NDIRECT)).toNat) j

/-- The place of block `bn` of a file. -/
def blockRef (bn : ℕ) : Ref :=
  if bn < NDIRECT then .addr (Fin.ofNat _ bn) else .entry (Fin.ofNat _ (bn - NDIRECT))

/-- The places of all allocated inodes, with what they hold. -/
def cell (sb : Superblock) (d : Disk) (din : ℕ → Dinode) (x : ℕ × Ref) : ℕ :=
  if x.1 < sb.ninodes ∧ (din x.1).type ≠ 0 then (din x.1).at d x.2 else 0

/-- The data blocks. -/
def Superblock.dataBlocks (sb : Superblock) : Set ℕ := {b | sb.dataStart ≤ b ∧ b < sb.size}

/-- The invariant of the disk. -/
structure Sound (sb : Superblock) (d : Disk) (din : ℕ → Dinode) : Prop where
  owned : Owned sb.dataBlocks (fun b => marked sb d b = true) (cell sb d din)
  reserved : ∀ b < sb.dataStart, marked sb d b = true
  size_le : ∀ i < sb.ninodes, (din i).type ≠ 0 → (din i).size.toNat ≤ MAXFILE * BSIZE
  mapped : ∀ i < sb.ninodes, (din i).type ≠ 0 → ∀ bn, bn * BSIZE < (din i).size.toNat →
    cell sb d din (i, blockRef bn) ≠ 0

/-- Nothing that was there changed in the blocks of the file contents at the places in `P`:
a place that held a block holds it still, and the block has the same contents. -/
def SameData (P : Set (ℕ × Ref)) (c : ℕ × Ref → ℕ) (d : Disk) (c' : ℕ × Ref → ℕ) (d' : Disk) :
    Prop :=
  ∀ x ∈ P, x.2 ≠ Ref.indirect → c x ≠ 0 → c' x = c x ∧ d' (c x) = d (c x)

/-- The blocks in front of the free map, those of the inodes among them, are the same. -/
def SameFront (sb : Superblock) (d d' : Disk) : Prop := ∀ b < sb.bmapstart, d' b = d b

/-- The metadata of an inode apart from the block numbers are the same. -/
def Dinode.SameMeta (ip ip' : Dinode) : Prop :=
  ip'.type = ip.type ∧ ip'.major = ip.major ∧ ip'.minor = ip.minor ∧ ip'.nlink = ip.nlink ∧
    ip'.size = ip.size

variable {sb : Superblock} {d d' : Disk} {din : ℕ → Dinode} {i b : ℕ} {P : Set (ℕ × Ref)}
  {c c' : ℕ × Ref → ℕ} {ip ip' : Dinode} {k : Fin (NDIRECT + 1)} {E : Stop → Prop} {r : Ref}

lemma SameData.refl (P : Set (ℕ × Ref)) (c : ℕ × Ref → ℕ) (d : Disk) : SameData P c d c d :=
  fun _ _ _ _ => ⟨rfl, rfl⟩

lemma SameData.trans {c'' : ℕ × Ref → ℕ} {d'' : Disk} (h : SameData P c d c' d')
    (h' : SameData P c' d' c'' d'') : SameData P c d c'' d'' := by
  intro x hx hind hne
  obtain ⟨hc, hd⟩ := h x hx hind hne
  obtain ⟨hc', hd'⟩ := h' x hx hind (hc ▸ hne)
  rw [hc] at hc' hd'
  exact ⟨hc', hd'.trans hd⟩

lemma SameData.mono {Q : Set (ℕ × Ref)} (h : SameData P c d c' d') (hQ : Q ⊆ P) :
    SameData Q c d c' d' := fun x hx => h x (hQ hx)

lemma SameFront.refl (sb : Superblock) (d : Disk) : SameFront sb d d := fun _ _ => rfl

lemma SameFront.trans {d'' : Disk} (h : SameFront sb d d') (h' : SameFront sb d' d'') :
    SameFront sb d d'' := fun b hb => (h' b hb).trans (h b hb)

lemma SameFront.dinode (hsb : sb.WellFormed) (h : SameFront sb d d') {j : ℕ}
    (hj : j < sb.ninodes) : dinode sb d' j = dinode sb d j :=
  dinode_congr (h _ (hsb.inode_lt j hj))

lemma Dinode.SameMeta.refl (ip : Dinode) : ip.SameMeta ip := ⟨rfl, rfl, rfl, rfl, rfl⟩

lemma Dinode.SameMeta.trans {ip'' : Dinode} (h : ip.SameMeta ip') (h' : ip'.SameMeta ip'') :
    ip.SameMeta ip'' := by
  unfold Dinode.SameMeta at *
  simp only [h', h, and_self]

lemma Dinode.setAddr_sameMeta (ip : Dinode) (k : Fin (NDIRECT + 1)) (b : ℕ) :
    ip.SameMeta (ip.setAddr k b) := ⟨rfl, rfl, rfl, rfl, rfl⟩

/-! ## Cells and updates -/

@[simp]
lemma Dinode.at_addr (ip : Dinode) (d : Disk) (k : Fin (NDIRECT + 1)) :
    ip.at d (.addr k) = (ip.addrs k).toNat := rfl

lemma Dinode.at_entry_of_none (h : ip.addrs (Fin.last NDIRECT) = 0) (d : Disk) (j : Fin NINDIRECT) :
    ip.at d (.entry j) = 0 := if_pos h

lemma Dinode.at_entry (h : ip.addrs (Fin.last NDIRECT) ≠ 0) (d : Disk) (j : Fin NINDIRECT) :
    ip.at d (.entry j) = entry (d (ip.addrs (Fin.last NDIRECT)).toNat) j := if_neg h

/-- The block numbers depend on the `addrs` only. -/
lemma Dinode.at_congr (h : ip'.addrs = ip.addrs) (d : Disk) (r : Ref) : ip'.at d r = ip.at d r := by
  unfold Dinode.at
  rw [h]

@[simp]
lemma Dinode.setAddr_addrs (ip : Dinode) (k : Fin (NDIRECT + 1)) (b : ℕ) :
    (ip.setAddr k b).addrs k = .ofNat 32 b := update_self ..

lemma Dinode.setAddr_addrs_of_ne (ip : Dinode) {k' : Fin (NDIRECT + 1)} (h : k' ≠ k) (b : ℕ) :
    (ip.setAddr k b).addrs k' = ip.addrs k' := update_of_ne h ..

/-- The entries of the indirect block do not depend on the other block numbers. -/
lemma Dinode.setAddr_at_entry (ip : Dinode) (h : k ≠ Fin.last NDIRECT) (b : ℕ) (d : Disk)
    (j : Fin NINDIRECT) : (ip.setAddr k b).at d (.entry j) = ip.at d (.entry j) := by
  unfold Dinode.at
  rw [ip.setAddr_addrs_of_ne h.symm]

lemma cell_eq (hi : i < sb.ninodes) (ht : (din i).type ≠ 0) (r : Ref) :
    cell sb d din (i, r) = (din i).at d r := if_pos ⟨hi, ht⟩

/-- What a cell holds after inode `i` changed. -/
lemma cell_update (x : ℕ × Ref) :
    cell sb d (update din i ip) x =
      if x.1 = i then (if i < sb.ninodes ∧ ip.type ≠ 0 then ip.at d x.2 else 0)
      else cell sb d din x := by
  unfold cell
  by_cases h : x.1 = i
  · simp [h]
  · simp [h]

/-- The cells depend on the contents of the indirect blocks only. -/
lemma cell_congr (h : ∀ j < sb.ninodes, (din j).type ≠ 0 → (din j).addrs (Fin.last NDIRECT) ≠ 0 →
    d' ((din j).addrs (Fin.last NDIRECT)).toNat = d ((din j).addrs (Fin.last NDIRECT)).toNat) :
    cell sb d' din = cell sb d din := by
  funext ⟨j, r⟩
  unfold cell
  split
  case isFalse => rfl
  case isTrue hj =>
    cases r with
    | addr k => rfl
    | entry e =>
      by_cases hne : (din j).addrs (Fin.last NDIRECT) = 0
      · rw [Dinode.at_entry_of_none hne, Dinode.at_entry_of_none hne]
      · rw [Dinode.at_entry hne, Dinode.at_entry hne, h j hj.1 hj.2 hne]

/-- Assigning to `ip->addrs[k]`. An assignment to the number of the indirect block must not
change the entries. -/
lemma cell_setAddr (hi : i < sb.ninodes) (ht : (din i).type ≠ 0) (hb : b < 2 ^ 32)
    (hent : k = Fin.last NDIRECT → ∀ j : Fin NINDIRECT,
      ((din i).setAddr k b).at d (.entry j) = (din i).at d (.entry j)) :
    cell sb d (update din i ((din i).setAddr k b)) =
      update (cell sb d din) (i, .addr k) b := by
  funext ⟨j, r⟩
  rw [cell_update]
  by_cases hj : j = i
  · subst hj
    rw [if_pos rfl, if_pos ⟨hi, ht⟩]
    cases r with
    | addr k' =>
      by_cases hk : k' = k
      · rw [hk, update_self, Dinode.at_addr, Dinode.setAddr_addrs, BitVec.toNat_ofNat,
          Nat.mod_eq_of_lt hb]
      · rw [update_of_ne (by simpa using hk), cell_eq hi ht, Dinode.at_addr,
          Dinode.setAddr_addrs_of_ne _ hk, Dinode.at_addr]
    | entry e =>
      rw [update_of_ne (by simp), cell_eq hi ht]
      by_cases hk : k = Fin.last NDIRECT
      · exact hent hk e
      · exact Dinode.setAddr_at_entry _ hk b d e
  · rw [if_neg hj, update_of_ne (by simp [hj])]

lemma Superblock.bmapstart_le_bblock (sb : Superblock) (b : ℕ) : sb.bmapstart ≤ sb.bblock b :=
  Nat.le_add_left ..

/-- The free map is in front of the data blocks. -/
lemma Superblock.WellFormed.bblock_ne (hsb : sb.WellFormed) {c : ℕ} (hc : c < sb.size)
    (hb : b ∈ sb.dataBlocks) : sb.bblock c ≠ b := by
  have hlt := hsb.bmap_lt c hc
  have hle := hb.1
  omega

/-- A write behind the free map changes no mark. -/
lemma marked_congr (hsb : sb.WellFormed) (h : ∀ b < sb.dataStart, d' b = d b) (hb : b < sb.size) :
    marked sb d' b = marked sb d b := by
  rw [marked, h _ (hsb.bmap_lt b hb), marked]

/-! ## The block allocator -/

/-- The marks after the bit for block `b` was changed. -/
lemma marked_update (sb : Superblock) (d : Disk) {f : Block → ℕ → Block}
    {g : ℕ → ℕ → Bool → Bool}
    (hf : ∀ (a : Block) j k, j < 8 * BSIZE → (f a j).testBit k = g j k (a.testBit k))
    (hg : ∀ j k x, j ≠ k → g j k x = x) (b c : ℕ) :
    marked sb (update d (sb.bblock b) (f (d (sb.bblock b)) (b % BPB))) c =
      if c = b then g (b % BPB) (b % BPB) (marked sb d b) else marked sb d c := by
  have hlow : b % BPB < 8 * BSIZE := Nat.mod_lt b (by decide)
  unfold marked
  by_cases hblock : sb.bblock c = sb.bblock b
  · have hdiv : c / BPB = b / BPB := by simpa [Superblock.bblock] using hblock
    have hmod : c = b ↔ b % BPB = c % BPB := by
      constructor
      · rintro rfl
        rfl
      · intro hmod
        rw [← Nat.div_add_mod c BPB, hdiv, ← hmod, Nat.div_add_mod]
    rw [hblock, update_self, hf _ _ _ hlow]
    by_cases hcb : c = b
    · rw [if_pos hcb, hcb]
    · rw [if_neg hcb, hg _ _ _ (fun h => hcb (hmod.2 h))]
  · have hcb : c ≠ b := by
      rintro rfl
      exact hblock rfl
    rw [update_of_ne hblock, if_neg hcb]

/-- What `balloc` does when it returns block `b`. -/
structure Allocates (sb : Superblock) (d : Disk) (b : ℕ) (d' : Disk) : Prop where
  mem : b ∈ sb.dataBlocks
  free : marked sb d b = false
  marked_eq : ∀ c < sb.size, marked sb d' c = (decide (c = b) || marked sb d c)
  zero : d' b = Bytes.fill BSIZE 0
  front : SameFront sb d d'
  data : ∀ x ∈ sb.dataBlocks, x ≠ b → d' x = d x

/-- `balloc` finds no free block, or marks and clears one. -/
lemma balloc_cases (hsb : sb.WellFormed) (hres : ∀ b < sb.dataStart, marked sb d b = true) :
    balloc sb d = (0, d) ∨ Allocates sb d (balloc sb d).1 (balloc sb d).2 := by
  unfold balloc
  split
  case h_2 => exact .inl rfl
  case h_1 b hfind =>
    have hsize : b < sb.size := List.mem_range.1 (List.mem_of_find?_eq_some hfind)
    have hfree : marked sb d b = false := by simpa using List.find?_some hfind
    have hmem : b ∈ sb.dataBlocks := by
      refine ⟨?_, hsize⟩
      by_contra hlt
      rw [hres b (by omega)] at hfree
      exact absurd hfree (by decide)
    have hbit := hsb.bblock_ne hsize hmem
    have hmap := sb.bmapstart_le_bblock b
    -- the marks before the new block is zeroed
    have hcell (c : ℕ) := marked_update sb d (f := Bytes.setBit)
      (g := fun j k x => decide (k = j) || x)
      (fun a j k hj => Bytes.testBit_setBit hj k) (fun j k x h => by simp [h.symm]) b c
    right
    rw [bzero_disk, Store.put_disk, Store.blocks_disk]
    dsimp only
    refine ⟨hmem, hfree, fun c hc => ?_, update_self .., fun x hx => ?_,
      fun x hx hne => ?_⟩
    · rw [marked, update_of_ne (hsb.bblock_ne hc hmem), ← marked, hcell]
      by_cases hcb : c = b
      · simp [hcb]
      · simp [hcb]
    · have hlt := hsb.bmap_lt b hsize
      have hle := hmem.1
      rw [update_of_ne (by omega), update_of_ne (by omega)]
    · rw [update_of_ne hne, update_of_ne (hsb.bblock_ne hsize hx).symm]

/-- What `bfree` does to block `b`. -/
structure Frees (sb : Superblock) (d : Disk) (b : ℕ) (d' : Disk) : Prop where
  marked_eq : ∀ c, marked sb d' c = (!decide (c = b) && marked sb d c)
  front : SameFront sb d d'
  data : ∀ x ∈ sb.dataBlocks, d' x = d x

/-- `bfree` of a marked block does not panic. -/
lemma bfree_post (hsb : sb.WellFormed) (hb : b < sb.size) (hm : marked sb d b = true) :
    Post E (Frees sb d b) (bfree sb b d) := by
  rw [bfree, if_pos hm, Post.pure_iff]
  have hmap := sb.bmapstart_le_bblock b
  refine ⟨fun c => ?_, fun x hx => update_of_ne (by omega) .., fun x hx =>
    update_of_ne (hsb.bblock_ne hb hx).symm ..⟩
  have hcell := marked_update sb d (f := Bytes.clearBit)
    (g := fun j k x => !decide (k = j) && x)
    (fun a j k hj => Bytes.testBit_clearBit hj k) (fun j k x h => by simp [h.symm]) b c
  rw [hcell]
  by_cases hcb : c = b
  · simp [hcb]
  · simp [hcb]

/-! ## Mapping blocks -/

lemma Superblock.dataStart_le (sb : Superblock) : sb.dataStart ≤ sb.size := Nat.sub_le ..

lemma Sound.at_mem (h : Sound sb d din) (hi : i < sb.ninodes) (ht : (din i).type ≠ 0)
    (hne : (din i).at d r ≠ 0) : (din i).at d r ∈ sb.dataBlocks := by
  rw [← cell_eq hi ht] at hne ⊢
  exact h.owned.mem _ hne

/-- The cells do not change when a block is allocated, since none holds it yet. -/
lemma Sound.cell_allocates (h : Sound sb d din) (ha : Allocates sb d b d') :
    cell sb d' din = cell sb d din := by
  apply cell_congr
  intro j hj ht hne
  have hne' : (din j).at d .indirect ≠ 0 := by
    rw [Ref.indirect, Dinode.at_addr]
    exact fun h0 => hne (BitVec.eq_of_toNat_eq h0)
  have hfresh : (din j).at d .indirect ≠ b := by
    rw [← cell_eq hj ht]
    exact h.owned.cell_ne ha.mem (by simp [ha.free]) _
  exact ha.data _ (h.at_mem hj ht hne') hfresh

/-- A block was allocated and its number put into an empty place of inode `i`. -/
lemma Sound.fill (h : Sound sb d din) (hi : i < sb.ninodes) (ht : (din i).type ≠ 0)
    (hcell : cell sb d' (update din i ip') = update (cell sb d din) (i, r) b)
    (hempty : cell sb d din (i, r) = 0) (hmeta : (din i).SameMeta ip') (hb : b ∈ sb.dataBlocks)
    (hfree : marked sb d b = false)
    (hmarks : ∀ c < sb.size, marked sb d' c = (decide (c = b) || marked sb d c))
    (hdata : ∀ x ∈ sb.dataBlocks, x ≠ b → x ≠ cell sb d din (i, .indirect) → d' x = d x) :
    Sound sb d' (update din i ip') ∧
      SameData Set.univ (cell sb d din) d (cell sb d' (update din i ip')) d' := by
  have hold : ∀ x, cell sb d din x ≠ 0 →
      cell sb d' (update din i ip') x = cell sb d din x := by
    intro x hx
    have hxr : x ≠ (i, r) := by
      rintro rfl
      exact hx hempty
    rw [hcell, update_of_ne hxr]
  have hinodes : ∀ j, (update din i ip' j).type = (din j).type ∧
      (update din i ip' j).size = (din j).size := by
    intro j
    by_cases hj : j = i
    · subst hj
      simp [hmeta.1, hmeta.2.2.2.2]
    · simp [hj]
  refine ⟨⟨?_, fun c hc => ?_, fun j hj htj => ?_, fun j hj htj bn hbn => ?_⟩, ?_⟩
  · rw [hcell]
    refine h.owned.fill hempty hb (by simp [hfree]) fun c hc => ?_
    simp [hmarks c hc.2]
  · have hlt : c < sb.size := hc.trans_le sb.dataStart_le
    simp [hmarks c hlt, h.reserved c hc]
  · rw [(hinodes j).1] at htj
    rw [(hinodes j).2]
    exact h.size_le j hj htj
  · rw [(hinodes j).1] at htj
    rw [(hinodes j).2] at hbn
    have hne := h.mapped j hj htj bn hbn
    rwa [hold _ hne]
  · intro x _ hind hne
    refine ⟨hold x hne, hdata _ (h.owned.mem x hne) ?_ fun heq => hind ?_⟩
    · exact h.owned.cell_ne hb (by simp [hfree]) x
    · rw [h.owned.inj x _ hne heq]

/-- What `bmap(ip, bn)` guarantees about its result `addr`, the inode and the disk. -/
structure Maps (sb : Superblock) (din : ℕ → Dinode) (i : ℕ) (d : Disk) (r : Ref) (addr : ℕ)
    (ip' : Dinode) (d' : Disk) : Prop where
  sound : Sound sb d' (update din i ip')
  data : SameData Set.univ (cell sb d din) d (cell sb d' (update din i ip')) d'
  front : SameFront sb d d'
  sameMeta : (din i).SameMeta ip'
  addr_eq : addr = 0 ∨ addr = ip'.at d' r
  of_mapped : (din i).at d r ≠ 0 → addr = (din i).at d r ∧ ip' = din i ∧ d' = d

lemma Maps.refl (h : Sound sb d din) {addr : ℕ} (haddr : (din i).at d r ≠ 0 → addr = (din i).at d r)
    (hzero : addr = 0 ∨ addr = (din i).at d r) :
    Maps sb din i d r addr (din i) d where
  sound := by rwa [update_eq_self]
  data := by
    rw [update_eq_self]
    exact .refl _ _ _
  front := .refl _ _
  sameMeta := .refl _
  addr_eq := hzero
  of_mapped hne := ⟨haddr hne, rfl, rfl⟩

/-- `bmap` for the blocks listed in the inode, and for the indirect block. -/
lemma Sound.maps_addr (h : Sound sb d din) (hsb : sb.WellFormed) (hi : i < sb.ninodes)
    (ht : (din i).type ≠ 0) (k : Fin (NDIRECT + 1)) :
    Maps sb din i d (.addr k) (bmapAddr sb (din i) k d).1 (bmapAddr sb (din i) k d).2.1
      (bmapAddr sb (din i) k d).2.2 := by
  unfold bmapAddr
  split
  case isFalse hne => exact .refl h (fun _ => rfl) (.inr rfl)
  case isTrue hnone =>
    have hempty : (din i).at d (.addr k) = 0 := by simp [hnone]
    rcases balloc_cases hsb h.reserved with hfull | ha
    · rw [hfull]
      exact .refl h (fun hne => absurd hempty hne) (.inl rfl)
    · have hb0 : (balloc sb d).1 ≠ 0 := h.owned.ne_zero_of_mem ha.mem
      generalize balloc sb d = r at ha hb0
      obtain ⟨b, d'⟩ := r
      dsimp only at ha hb0 ⊢
      rw [if_neg hb0]
      have hlt : b < 2 ^ 32 := by
        have h1 := ha.mem.2
        have h2 := hsb.size_lt
        omega
      have hcell : cell sb d' (update din i ((din i).setAddr k b)) =
          update (cell sb d din) (i, .addr k) b := by
        rw [← h.cell_allocates ha]
        refine cell_setAddr hi ht hlt fun hk j => ?_
        -- the new indirect block is zeroed
        subst hk
        have haddr : (((din i).setAddr (Fin.last NDIRECT) b).addrs
          (Fin.last NDIRECT)).toNat = b := by
          rw [Dinode.setAddr_addrs, BitVec.toNat_ofNat, Nat.mod_eq_of_lt hlt]
        have hne : ((din i).setAddr (Fin.last NDIRECT) b).addrs (Fin.last NDIRECT) ≠ 0 := by
          intro h0
          rw [h0] at haddr
          exact hb0 haddr.symm
        rw [Dinode.at_entry_of_none hnone, Dinode.at_entry hne, haddr, ha.zero, entry,
          Bytes.ld_fill_zero]
      obtain ⟨hsound, hdata⟩ := h.fill hi ht hcell (by rw [cell_eq hi ht, hempty])
        (Dinode.setAddr_sameMeta ..) ha.mem ha.free ha.marked_eq fun x hx hxb _ => ha.data x hx hxb
      refine ⟨hsound, hdata, ha.front, Dinode.setAddr_sameMeta .., .inr ?_, fun hne => ?_⟩
      · rw [Dinode.at_addr, Dinode.setAddr_addrs, BitVec.toNat_ofNat, Nat.mod_eq_of_lt hlt]
      · exact absurd hempty hne

lemma entry_st {j k : ℕ} (hj : j < NINDIRECT) (hb : b < 2 ^ 32) (a : Block) :
    entry (a.st 4 (4 * j) b) k = if k = j then b else entry a k := by
  have hfit : 4 * j + 4 ≤ BSIZE := by
    unfold NINDIRECT BSIZE at *
    omega
  unfold entry
  split
  case isTrue h => rw [h, Bytes.ld_st hfit, Nat.mod_eq_of_lt (by omega)]
  case isFalse h => exact Bytes.ld_st_of_disjoint (by omega)

/-- Assigning to an entry of the indirect block of inode `i`, a block that is of no other
use as an indirect block. -/
lemma cell_setEntry {ind : ℕ} {j : Fin NINDIRECT} (hi : i < sb.ninodes) (ht : (din i).type ≠ 0)
    (hind : (din i).at d .indirect = ind) (hne : ind ≠ 0) (hb : b < 2 ^ 32)
    (hother : ∀ k, k ≠ i → cell sb d din (k, .indirect) ≠ ind) :
    cell sb (update d ind ((d ind).st 4 (4 * j) b)) din =
      update (cell sb d din) (i, .entry j) b := by
  funext ⟨k, r⟩
  by_cases hk : k < sb.ninodes ∧ (din k).type ≠ 0
  case neg =>
    have hki : k ≠ i := by
      rintro rfl
      exact hk ⟨hi, ht⟩
    rw [update_of_ne (by simp [hki]), cell, if_neg hk, cell, if_neg hk]
  case pos =>
    rw [cell_eq hk.1 hk.2]
    cases r with
    | addr a => rw [update_of_ne (by simp), cell_eq hk.1 hk.2, Dinode.at_addr,
      Dinode.at_addr]
    | entry e =>
      have hcell := cell_eq (d := d) hk.1 hk.2 .indirect
      by_cases hki : k = i
      · subst hki
        have haddr : (din k).addrs (Fin.last NDIRECT) ≠ 0 := by
          intro h0
          rw [Ref.indirect, Dinode.at_addr, h0] at hind
          exact hne hind.symm
        rw [Dinode.at_entry haddr]
        rw [Ref.indirect, Dinode.at_addr] at hind
        rw [hind, update_self, entry_st j.isLt hb]
        by_cases he : e = j
        · rw [he, if_pos rfl, update_self]
        · rw [if_neg (fun h => he (Fin.ext h)), update_of_ne (by simpa using he),
            cell_eq hi ht, Dinode.at_entry haddr, hind]
      · rw [update_of_ne (by simp [hki]), cell_eq hk.1 hk.2]
        by_cases haddr : (din k).addrs (Fin.last NDIRECT) = 0
        · rw [Dinode.at_entry_of_none haddr, Dinode.at_entry_of_none haddr]
        · have hapart : ((din k).addrs (Fin.last NDIRECT)).toNat ≠ ind := by
            have := hother k hki
            rwa [hcell] at this
          rw [Dinode.at_entry haddr, Dinode.at_entry haddr, update_of_ne hapart]

/-- `bmap` for the blocks listed in the indirect block. -/
lemma Sound.maps_entry (h : Sound sb d din) (hsb : sb.WellFormed) (hi : i < sb.ninodes)
    (ht : (din i).type ≠ 0) {ind : ℕ} (hind : (din i).at d .indirect = ind) (hne : ind ≠ 0)
    (j : Fin NINDIRECT) :
    Maps sb din i d (.entry j) (bmapEntry sb ind j d).1 (din i) (bmapEntry sb ind j d).2 := by
  have haddr : (din i).addrs (Fin.last NDIRECT) ≠ 0 := by
    intro h0
    rw [Ref.indirect, Dinode.at_addr, h0] at hind
    exact hne hind.symm
  have hat : (din i).at d (.entry j) = entry (d ind) j := by
    rw [Dinode.at_entry haddr, ← hind, Ref.indirect, Dinode.at_addr]
  unfold bmapEntry
  split
  case isFalse => exact .refl h (fun _ => hat.symm) (.inr hat.symm)
  case isTrue hnone =>
    have hempty : (din i).at d (.entry j) = 0 := hat.trans hnone
    rcases balloc_cases hsb h.reserved with hfull | ha
    · rw [hfull]
      exact .refl h (fun hne => absurd hempty hne) (.inl rfl)
    · have hb0 : (balloc sb d).1 ≠ 0 := h.owned.ne_zero_of_mem ha.mem
      generalize balloc sb d = r at ha hb0
      obtain ⟨b, d'⟩ := r
      dsimp only at ha hb0 ⊢
      rw [if_neg hb0, Store.put_disk, Store.blocks_disk]
      dsimp only
      have hlt : b < 2 ^ 32 := by
        have h1 := ha.mem.2
        have h2 := hsb.size_lt
        omega
      have hmem : ind ∈ sb.dataBlocks := hind ▸ h.at_mem hi ht (hind ▸ hne)
      have hcelli : cell sb d din (i, .indirect) = ind := (cell_eq hi ht _).trans hind
      have hcell : cell sb (update d' ind ((d' ind).st 4 (4 * j) b)) din =
          update (cell sb d din) (i, .entry j) b := by
        rw [← h.cell_allocates ha]
        refine cell_setEntry hi ht hind hne hlt fun k hk heq => hk ?_
        rw [h.cell_allocates ha, ← hcelli] at heq
        exact congrArg Prod.fst (h.owned.inj _ _ (by rw [heq, hcelli]; exact hne) heq)
      -- the indirect block is a data block, so metadata stays
      have hlow : ∀ c < sb.dataStart,
          update d' ind ((d' ind).st 4 (4 * j) b) c = d' c := fun c hc =>
        update_of_ne (by have := hmem.1; omega) ..
      have hself : update din i (din i) = din := update_eq_self ..
      obtain ⟨hsound, hdata⟩ := h.fill hi ht (by rwa [hself]) (by rw [cell_eq hi ht, hempty])
        (.refl _) ha.mem ha.free (fun c hc => by rw [marked_congr hsb hlow hc, ha.marked_eq c hc])
        fun x hx hxb hxi => by
          rw [update_of_ne (hcelli ▸ hxi), ha.data x hx hxb]
      refine ⟨hsound, hdata, fun x hx => ?_, .refl _, .inr ?_, fun hne => absurd hempty hne⟩
      · have hstart := hsb.bmap_lt ind hmem.2
        have hle := sb.bmapstart_le_bblock ind
        rw [hlow x (by omega), ha.front x hx]
      · have hi' := congrFun hcell (i, .entry j)
        rwa [cell_eq hi ht, update_self, eq_comm] at hi'

/-- Block numbers past the direct ones. -/
lemma blockRef_entry {bn : ℕ} (h : ¬bn < NDIRECT) :
    blockRef bn = .entry (Fin.ofNat _ (bn - NDIRECT)) := if_neg h

/-- `bmap` maps a block of a file within the maximal size. -/
lemma Sound.bmap_post (h : Sound sb d din) (hsb : sb.WellFormed) (hi : i < sb.ninodes)
    (ht : (din i).type ≠ 0) {bn : ℕ} (hbn : bn < MAXFILE) :
    Post E (fun r => Maps sb din i d (blockRef bn) r.1 r.2.1 r.2.2) (bmap sb (din i) bn d) := by
  unfold bmap
  by_cases hdir : bn < NDIRECT
  · rw [if_pos hdir, Post.pure_iff, blockRef, if_pos hdir]
    exact h.maps_addr hsb hi ht _
  · have hsub : bn - NDIRECT < NINDIRECT := by
      unfold MAXFILE at hbn
      omega
    have hfin : ((Fin.ofNat NINDIRECT (bn - NDIRECT) : Fin NINDIRECT) : ℕ) = bn - NDIRECT :=
      Nat.mod_eq_of_lt hsub
    rw [if_neg hdir, if_pos hsub, blockRef_entry hdir]
    have h₁ := h.maps_addr hsb hi ht (Fin.last NDIRECT)
    generalize bmapAddr sb (din i) (Fin.last NDIRECT) d = r at h₁
    obtain ⟨ind, ip₁, d₁⟩ := r
    dsimp only at h₁ ⊢
    -- a mapped entry is an entry of an indirect block that exists
    have hthere : (din i).at d (.entry (Fin.ofNat _ (bn - NDIRECT))) ≠ 0 →
        (din i).at d (.addr (Fin.last NDIRECT)) ≠ 0 := by
      intro hne h0
      rw [Dinode.at_addr] at h0
      exact hne (Dinode.at_entry_of_none (BitVec.eq_of_toNat_eq h0) d _)
    by_cases hind : ind = 0
    · rw [if_pos hind, Post.pure_iff]
      refine ⟨h₁.sound, h₁.data, h₁.front, h₁.sameMeta, .inl rfl, fun hne => ?_⟩
      have := (h₁.of_mapped (hthere hne)).1
      exact absurd (this.symm.trans hind) (hthere hne)
    · rw [if_neg hind, Post.pure_iff]
      have hat : ip₁.at d₁ .indirect = ind := (h₁.addr_eq.resolve_left hind).symm
      have h₂ := h₁.sound.maps_entry hsb hi (by rwa [update_self, h₁.sameMeta.1])
        (by rwa [update_self]) hind (Fin.ofNat _ (bn - NDIRECT))
      rw [hfin] at h₂
      generalize bmapEntry sb ind (bn - NDIRECT) d₁ = r at h₂
      obtain ⟨addr, d₂⟩ := r
      dsimp only at h₂ ⊢
      have hidem : update (update din i ip₁) i ip₁ = update din i ip₁ :=
        update_idem ..
      have hsound := h₂.sound
      have hdata := h₂.data
      have haddr := h₂.addr_eq
      have hof := h₂.of_mapped
      simp only [update_self, hidem] at hsound hdata haddr hof
      refine ⟨hsound, h₁.data.trans hdata, h₁.front.trans h₂.front, h₁.sameMeta, haddr,
        fun hne => ?_⟩
      obtain ⟨-, rfl, rfl⟩ := h₁.of_mapped (hthere hne)
      obtain ⟨haddr', -, hd⟩ := hof hne
      exact ⟨haddr', rfl, hd⟩

end Xv6.Fs
