import Mathlib.Algebra.BigOperators.Group.Finset.Basic
import Mathlib.Algebra.Order.BigOperators.Group.Finset
import Xv6.Mkfs.Append

/-!
# How `mkfs` builds an image

`Built s t c`: up to now `mkfs` has made inodes with types `t` and contents `c`, and nothing
else. `ialloc` adds an inode, `iappend` appends to the contents of one, and both return as long
as there is room. For a list of files that fits, `main` returns.
-/

namespace Xv6.Mkfs

open Xv6.Lib
open Xv6.Disk (Block)
open Xv6.Fs
open Function (update update_of_ne update_self update_eq_self update_idem)

variable {d d' : Disk} {ip : Dinode} {s : Mk} {t : ℕ → BitVec 16} {c c' : ℕ → List UInt8}
  {i o b : ℕ} {bs p : List UInt8} {files : List Input}

/-! ## The contents of one file -/

/-- The inode `ip` holds the bytes `bs`, and has the blocks for them only. -/
structure Holds (ip : Dinode) (d : Disk) (bs : List UInt8) : Prop where
  exact : Exact ip d bs.length bs.length
  le : bs.length ≤ MAXFILE * BSIZE
  bytes : ∀ o < bs.length, bs[o]? = some (fileByte ip d o)

/-- The blocks of `ip` have the same contents on both disks. -/
def SameBlocks (ip : Dinode) (d d' : Disk) : Prop :=
  ∀ r, ip.at d r ≠ 0 → d' (ip.at d r) = d (ip.at d r)

lemma SameBlocks.at_eq (h : SameBlocks ip d d') (r : Ref) : ip.at d' r = ip.at d r := by
  cases r with
  | addr k => rfl
  | entry j =>
    by_cases hnone : ip.addrs (Fin.last NDIRECT) = 0
    · rw [Dinode.at_entry_of_none hnone, Dinode.at_entry_of_none hnone]
    · have hind : d' (ip.addrs (Fin.last NDIRECT)).toNat = d (ip.addrs (Fin.last NDIRECT)).toNat :=
        h .indirect fun hz => hnone (BitVec.eq_of_toNat_eq hz)
      rw [Dinode.at_entry hnone, Dinode.at_entry hnone, hind]

lemma SameBlocks.fileByte_eq (h : SameBlocks ip d d') (hne : ip.at d (blockRef (o / BSIZE)) ≠ 0) :
    fileByte ip d' o = fileByte ip d o := by
  rw [fileByte, h.at_eq, h _ hne, fileByte]

lemma Holds.at_ne_zero (h : Holds ip d bs) (ho : o < bs.length) :
    o / BSIZE < MAXFILE ∧ ip.at d (blockRef (o / BSIZE)) ≠ 0 := by
  have hle := h.le
  have hbn : o / BSIZE < MAXFILE := Nat.div_lt_of_lt_mul (by rw [Nat.mul_comm]; omega)
  refine ⟨hbn, (h.exact.block _ hbn).2 ?_⟩
  exact (Nat.div_mul_le_self ..).trans_lt ho

/-- What other blocks hold does not matter. -/
lemma Holds.congr (h : Holds ip d bs) (hsame : SameBlocks ip d d') :
    Holds ip d' bs where
  exact := by
    refine ⟨fun bn hbn => ?_, ?_, fun o ho hbn hne => ?_⟩
    · rw [hsame.at_eq, h.exact.block bn hbn]
    · rw [hsame.at_eq, h.exact.indirect]
    · rw [hsame.at_eq] at hne
      rw [hsame.fileByte_eq hne]
      exact h.exact.tail o ho hbn hne
  le := h.le
  bytes o ho := by
    rw [hsame.fileByte_eq (h.at_ne_zero ho).2]
    exact h.bytes o ho

/-- The size and the other fields do not matter. -/
lemma Holds.congr_addrs {ip' : Dinode} (h : Holds ip d bs) (haddrs : ip'.addrs = ip.addrs) :
    Holds ip' d bs := by
  have hat := Dinode.at_congr haddrs d
  have hbyte : ∀ o, fileByte ip' d o = fileByte ip d o := by
    intro o
    rw [fileByte, hat, fileByte]
  refine ⟨⟨fun bn hbn => ?_, ?_, fun o ho hbn hne => ?_⟩, h.le, fun o ho => ?_⟩
  · rw [hat, h.exact.block bn hbn]
  · rw [hat, h.exact.indirect]
  · rw [hat] at hne
    rw [hbyte, h.exact.tail o ho hbn hne]
  · rw [hbyte, h.bytes o ho]

lemma holds_nil (haddrs : ip.addrs = fun _ => 0) (d : Disk) : Holds ip d [] := by
  have hat : ∀ r, ip.at d r = 0 := by
    intro r
    cases r with
    | addr k =>
      rw [Dinode.at_addr, haddrs]
      rfl
    | entry j => exact Dinode.at_entry_of_none (by rw [haddrs]) _ _
  refine ⟨⟨fun bn _ => ?_, ?_, fun o _ _ hne => absurd (hat _) hne⟩, Nat.zero_le _,
    fun o ho => absurd ho (Nat.not_lt_zero o)⟩
  · rw [hat]
    simp
  · rw [hat]
    simp

/-- The inode `ip` is one that `ialloc` made with type `ty`, and holds the bytes `bs`. -/
structure FileIs (ip : Dinode) (d : Disk) (ty : BitVec 16) (bs : List UInt8) : Prop where
  type_ne : ty ≠ 0
  type : ip.type = ty
  nlink : ip.nlink = 1
  size : ip.size.toNat = bs.length
  holds : Holds ip d bs

lemma FileIs.congr {ty : BitVec 16} (h : FileIs ip d ty bs) (hsame : SameBlocks ip d d') :
    FileIs ip d' ty bs :=
  { h with holds := h.holds.congr hsame }

/-! ## Inodes and the free map -/

lemma iblock_lt (hi : i < NINODES) : sb.iblock i < sb.bmapstart := sb_wellFormed.inode_lt i hi

lemma iblock_lt_size (hi : i < NINODES) : sb.iblock i < FSSIZE :=
  (iblock_lt hi).trans (by decide)

lemma rinode_run (hi : i < NINODES) : (rinode i).run s = .ok (dinode sb s.disk i, s) := by
  unfold rinode
  rw [run_bind_of_ok (rsect_run (iblock_lt_size hi))]
  rfl

lemma winode_run (hi : i < NINODES) (ip : Dinode) :
    (winode i ip).run s = .ok ((), { s with disk := setDinode sb i ip s.disk }) := by
  unfold winode
  rw [run_bind_of_ok (rsect_run (iblock_lt_size hi))]
  rfl

lemma dinode_overlay (hi : i < NINODES) (fb : ℕ) (d : Disk) :
    dinode sb (overlay fb d) i = dinode sb d i :=
  dinode_congr (overlay_of_ne (iblock_lt hi).ne)

lemma overlay_setDinode (hi : i < NINODES) (fb : ℕ) (ip : Dinode) (d : Disk) :
    overlay fb (setDinode sb i ip d) = setDinode sb i ip (overlay fb d) := by
  have hne := (iblock_lt hi).ne
  rw [setDinode, overlay_update hne, setDinode, overlay_of_ne hne]

lemma setDinode_of_back (hi : i < NINODES) (ip : Dinode) (d : Disk) (hb : nmeta ≤ b) :
    setDinode sb i ip d b = d b := by
  have h₁ := iblock_lt hi
  have h₂ : sb.bmapstart < nmeta := by decide
  exact setDinode_of_ne (by omega) ip d

lemma overlay_of_back (fb : ℕ) (d : Disk) (hb : nmeta ≤ b) : overlay fb d b = d b := by
  have h : sb.bmapstart < nmeta := by decide
  exact overlay_of_ne (by omega)

/-! ## The image as it grows -/

/-- The number of blocks that the inodes below `n` take. -/
def blocksUpTo (c : ℕ → List UInt8) (n : ℕ) : ℕ := ∑ i ∈ Finset.range n, blocksFor (c i).length

lemma blocksUpTo_mono {m n : ℕ} (hmn : m ≤ n) (h : ∀ i < m, (c i).length ≤ (c' i).length) :
    blocksUpTo c m ≤ blocksUpTo c' n := by
  calc blocksUpTo c m ≤ blocksUpTo c' m :=
        Finset.sum_le_sum fun i hi => blocksFor_mono (h i (Finset.mem_range.1 hi))
    _ ≤ blocksUpTo c' n :=
        Finset.sum_le_sum_of_subset (Finset.range_subset_range.2 hmn)

lemma blocksUpTo_update {n : ℕ} (hi : i < n) (bs : List UInt8) :
    blocksUpTo (update c i bs) n + blocksFor (c i).length =
      blocksUpTo c n + blocksFor bs.length := by
  unfold blocksUpTo
  have hmem : i ∈ Finset.range n := Finset.mem_range.2 hi
  have hrest : ∑ j ∈ (Finset.range n).erase i, blocksFor (update c i bs j).length =
      ∑ j ∈ (Finset.range n).erase i, blocksFor (c j).length := by
    refine Finset.sum_congr rfl fun j hj => ?_
    rw [update_of_ne (Finset.ne_of_mem_erase hj)]
  rw [← Finset.add_sum_erase _ _ hmem,
    ← Finset.add_sum_erase _ (fun j => blocksFor (c j).length) hmem, hrest, update_self]
  omega

/-- The image has the inodes `1, 2, …` up to `freeinode`, with types `t` and contents `c`. -/
structure Built (s : Mk) (t : ℕ → BitVec 16) (c : ℕ → List UInt8) : Prop where
  sound : Sound sb (overlay s.freeblock s.disk) (dinode sb s.disk)
  fresh : Fresh s
  le : s.freeblock ≤ FSSIZE
  inodes : 1 ≤ s.freeinode ∧ s.freeinode ≤ NINODES
  count : s.freeblock = nmeta + blocksUpTo c s.freeinode
  none : c 0 = []
  free : ∀ i < NINODES, i = 0 ∨ s.freeinode ≤ i → dinode sb s.disk i = .zero
  used : ∀ i, 1 ≤ i → i < s.freeinode → FileIs (dinode sb s.disk i) s.disk (t i) (c i)
  super : s.disk 1 = sbBlock

lemma start_disk (hb : b ≠ 1) : start.disk b = Bytes.fill BSIZE 0 := by
  show update (fun _ => Bytes.fill BSIZE 0) 1 sbBlock b = _
  exact update_of_ne hb ..

lemma start_dinode (i : ℕ) : dinode sb start.disk i = .zero := by
  have h : 32 ≤ sb.iblock i := sb.inodestart_le_iblock i
  rw [dinode, start_disk (by omega), Dinode.load_fill]

/-- At the start there is no inode. -/
lemma start_built : Built start (fun _ => 0) (fun _ => []) := by
  have hcell : ∀ x, cell sb (overlay start.freeblock start.disk) (dinode sb start.disk) x = 0 := by
    intro x
    unfold cell
    exact if_neg fun hx => hx.2 (by rw [start_dinode]; rfl)
  have hfb : start.freeblock ≤ FSSIZE := by decide
  have hmeta : start.freeblock = 46 := by decide
  refine ⟨⟨⟨fun h => ?_, fun x hx => absurd (hcell x) hx, fun x _ hx => absurd (hcell x) hx,
    fun b hb => ?_⟩, fun b hb => ?_, fun i hi ht => ?_, fun i hi ht => ?_⟩, ⟨fun b hb hb' => ?_,
    le_rfl⟩, hfb, by decide, ?_, rfl, fun i _ _ => start_dinode i, fun i h h' => ?_, ?_⟩
  · exact absurd h.1 (by decide)
  · -- no data block is in use
    have hge : nmeta ≤ b := hb.1
    rw [marked_overlay hfb (hb.2.trans (by decide)), decide_eq_true_eq]
    refine iff_of_false (Nat.not_lt.2 hge) ?_
    rintro ⟨x, hx⟩
    rw [hcell] at hx
    have : 46 ≤ b := hge
    omega
  · have hlt : b < nmeta := hb
    rw [marked_overlay hfb (hlt.trans (by decide)), decide_eq_true_eq]
    exact hlt
  · rw [start_dinode] at ht
    exact absurd rfl ht
  · rw [start_dinode] at ht
    exact absurd rfl ht
  · exact start_disk (by omega)
  · simp [blocksUpTo, start, blocksFor, NDIRECT, BSIZE]
  · exact absurd h' (Nat.not_lt.2 h)
  · show update (fun _ => Bytes.fill BSIZE 0) 1 sbBlock 1 = _
    exact update_self ..

lemma Built.sound_overlay (h : Built s t c) :
    Sound sb (overlay s.freeblock s.disk) (dinode sb (overlay s.freeblock s.disk)) :=
  h.sound.congr_din fun _ hj => dinode_overlay hj _ _

lemma Built.type_ne (h : Built s t c) (h₁ : 1 ≤ i) (h₂ : i < s.freeinode) :
    (dinode sb s.disk i).type ≠ 0 := by
  have hf := h.used i h₁ h₂
  rw [hf.type]
  exact hf.type_ne

lemma Built.range (h : Built s t c) {r : Ref} (h₁ : 1 ≤ i) (h₂ : i < s.freeinode)
    (hr : (dinode sb s.disk i).at s.disk r ≠ 0) :
    nmeta ≤ (dinode sb s.disk i).at s.disk r ∧ (dinode sb s.disk i).at s.disk r < s.freeblock :=
  range_of_sound h.sound h.le (h₂.trans_le h.inodes.2) (h.type_ne h₁ h₂) hr

lemma zero_at (d : Disk) (r : Ref) : Dinode.zero.at d r = 0 := by
  cases r with
  | addr k => rfl
  | entry j => exact Dinode.at_entry_of_none rfl _ _

/-- Only files have blocks. -/
lemma Built.used_of_at (h : Built s t c) (hi : i < NINODES) {r : Ref}
    (hr : (dinode sb s.disk i).at s.disk r ≠ 0) : 1 ≤ i ∧ i < s.freeinode := by
  by_contra hout
  rw [h.free i hi (by omega), zero_at] at hr
  exact hr rfl

/-- Writing an inode leaves the blocks of the files alone. -/
lemma Built.sameBlocks (h : Built s t c) (h₁ : 1 ≤ i) (h₂ : i < s.freeinode) {j : ℕ}
    (hj : j < NINODES) (ip : Dinode) :
    SameBlocks (dinode sb s.disk i) s.disk (setDinode sb j ip s.disk) :=
  fun _ hr => setDinode_of_back hj _ _ (h.range h₁ h₂ hr).1

lemma super_setDinode (i : ℕ) (ip : Dinode) : setDinode sb i ip d 1 = d 1 := by
  have : 32 ≤ sb.iblock i := sb.inodestart_le_iblock _
  exact setDinode_of_ne (by omega) ..

/-- `ialloc` writes an empty inode of the given type. -/
lemma Built.ialloc_run (h : Built s t c) (hlt : s.freeinode < NINODES) {type : BitVec 16}
    (hty : type ≠ 0) : ∃ s', (ialloc type).run s = .ok (s.freeinode, s') ∧
      s'.freeinode = s.freeinode + 1 ∧
      Built s' (update t s.freeinode type) (update c s.freeinode []) := by
  have hpos := h.inodes.1
  have hzero := h.free _ hlt (.inr le_rfl)
  have hcell : ∀ r, cell sb (overlay s.freeblock s.disk) (dinode sb (overlay s.freeblock s.disk))
      (s.freeinode, r) = 0 := by
    intro r
    unfold cell
    rw [dinode_overlay hlt, hzero]
    exact if_neg fun hc => hc.2 rfl
  generalize hip : ({ Dinode.zero with type := type, nlink := 1 } : Dinode) = ip
  have haddrs : ip.addrs = fun _ => 0 := by rw [← hip]; rfl
  have hup := h.sound_overlay.updates_empty sb_wellFormed hlt hcell _ haddrs (by rw [← hip]; rfl)
  rw [← overlay_setDinode hlt] at hup
  have hold : ∀ j, j ≠ s.freeinode → ∀ {α : Type} (f : ℕ → α) (a : α),
      update f s.freeinode a j = f j := fun j hj α f a => update_of_ne hj ..
  refine ⟨{ s with
    freeinode := s.freeinode + 1
    disk := setDinode sb s.freeinode ip s.disk }, ?_, rfl, ?_⟩
  · unfold ialloc
    rw [run_bind_of_ok (show nextInode.run s = .ok (s.freeinode, { s with
      freeinode := s.freeinode + 1 }) from rfl), hip, run_bind_of_ok (winode_run hlt ip)]
    rfl
  refine ⟨hup.sound.congr_din fun j hj => (dinode_overlay hj _ _).symm,
    ⟨fun b hb hb' => ?_, h.fresh.meta_le⟩, h.le, ⟨Nat.le_add_left .., hlt⟩, ?_, ?_,
    fun j hj hout => ?_, fun j h₁ h₂ => ?_, ?_⟩
  · dsimp only at hb ⊢
    rw [setDinode_of_back hlt _ _ (h.fresh.meta_le.trans hb), h.fresh.zero b hb hb']
  · have hnil : blocksFor ([] : List UInt8).length = 0 := by decide
    dsimp only
    rw [h.count, blocksUpTo, blocksUpTo, Finset.sum_range_succ, update_self, hnil,
      Nat.add_zero]
    congr 1
    refine Finset.sum_congr rfl fun j hj => ?_
    rw [hold j (Finset.mem_range.1 hj).ne]
  · rw [hold 0 (by omega), h.none]
  · dsimp only at hout ⊢
    rw [dinode_setDinode, hold j (by omega)]
    exact h.free j hj (by omega)
  · dsimp only at h₂ ⊢
    rw [dinode_setDinode]
    by_cases hj : j = s.freeinode
    · subst hj
      rw [update_self, update_self, update_self]
      refine ⟨hty, ?_, ?_, ?_, holds_nil haddrs _⟩
      all_goals subst hip; rfl
    · rw [hold j hj, hold j hj, hold j hj]
      exact (h.used j h₁ (by omega)).congr (h.sameBlocks h₁ (by omega) hlt ip)
  · dsimp only
    rw [super_setDinode, h.super]

/-- The bytes of a file after `p` was written at its end. -/
lemma getElem_append_of_wrote {D : ℕ → Dinode} {fb fb' : ℕ} {din' : Dinode}
    (hw : Wrote sb D i (overlay fb d) (fun k => p[k]?) p.length bs.length p.length din'
      (overlay fb' d')) (hsame : SameBlocks (D i) d (overlay fb d))
    (hsame' : SameBlocks din' d' (overlay fb' d')) (hi : i < NINODES) (ht : (D i).type ≠ 0)
    (hold : Holds (D i) d bs) (hnew : Exact din' d' (bs ++ p).length (bs ++ p).length)
    (hmax : bs.length + p.length ≤ MAXFILE * BSIZE) (ho : o < (bs ++ p).length) :
    (bs ++ p)[o]? = some (fileByte din' d' o) := by
  have hsrc : ∀ k < p.length, (p[k]?).isSome := fun k hk => by
    rw [List.getElem?_eq_getElem hk]
    rfl
  have hlen : (bs ++ p).length = bs.length + p.length := List.length_append
  have hbn : o / BSIZE < MAXFILE := Nat.div_lt_of_lt_mul (by rw [Nat.mul_comm]; omega)
  have hblock : o / BSIZE * BSIZE ≤ o := Nat.div_mul_le_self ..
  rw [← hsame'.fileByte_eq ((hnew.block _ hbn).2 (by omega))]
  by_cases hlow : o < bs.length
  · have hne := (hold.at_ne_zero hlow).2
    rw [hw.kept hsrc o hbn (by rwa [cell_eq hi ht, hsame.at_eq]) (.inl hlow), hsame.fileByte_eq hne,
      List.getElem?_append_left hlow, hold.bytes o hlow]
  · have hk : o - bs.length < p.length := by omega
    have hbyte := hw.bytes hsrc _ hk _ (List.getElem?_eq_getElem hk)
    rw [show bs.length + (o - bs.length) = o by omega] at hbyte
    rw [hbyte, List.getElem?_append_right (by omega), List.getElem?_eq_getElem hk]

/-- `iappend` appends to the contents of an inode if there is room. -/
lemma Built.iappend_run (h : Built s t c) (h₁ : 1 ≤ i) (h₂ : i < s.freeinode)
    (hroom : nmeta + blocksUpTo (update c i (c i ++ p)) s.freeinode ≤ FSSIZE)
    (hmax : (c i ++ p).length ≤ MAXFILE * BSIZE) :
    ∃ s', (iappend i p).run s = .ok ((), s') ∧ s'.freeinode = s.freeinode ∧
      Built s' t (update c i (c i ++ p)) := by
  have hi : i < NINODES := h₂.trans_le h.inodes.2
  have hfile := h.used i h₁ h₂
  have ht := h.type_ne h₁ h₂
  have hcount := h.count
  have hsum := blocksUpTo_update (c := c) h₂ (c i ++ p)
  rw [List.length_append] at hsum hmax
  obtain ⟨din', s', hrun, hinode, hblocks, hfresh, hexact, hkept, hw⟩ :=
    iappendLoop_run hi p.length p (c i).length (dinode sb s.disk) s le_rfl h.sound ht h.fresh
      hfile.holds.exact (by omega) hmax h.le
  have hmaxval : MAXFILE * BSIZE = 274432 := by decide
  generalize hip : ({ din' with size := .ofNat 32 ((c i).length + p.length) } : Dinode) = ip
  have hsize : ip.size.toNat = (c i).length + p.length := by
    rw [← hip, BitVec.toNat_ofNat, Nat.mod_eq_of_lt (by omega)]
  have haddrs : ip.addrs = din'.addrs := by rw [← hip]
  have htype : ip.type = (dinode sb s.disk i).type := by rw [← hip]; exact hw.sameMeta.1
  have hnlink : ip.nlink = (dinode sb s.disk i).nlink := by rw [← hip]; exact hw.sameMeta.2.2.2.1
  have hself : update (dinode sb s.disk) i din' i = din' := update_self ..
  have ht' : (update (dinode sb s.disk) i din' i).type ≠ 0 := by
    rwa [hself, hw.sameMeta.1]
  have hle : s'.freeblock ≤ FSSIZE := by omega
  have hrange : ∀ r, din'.at s'.disk r ≠ 0 → nmeta ≤ din'.at s'.disk r := by
    intro r hr
    have hr' := range_of_sound hw.sound hle hi ht' (r := r)
    rw [hself] at hr'
    exact (hr' hr).1
  -- the inodes
  have hdin : ∀ j < NINODES, dinode sb (setDinode sb i ip s'.disk) j =
      update (dinode sb s.disk) i ip j := by
    intro j hj
    rw [dinode_setDinode]
    by_cases hji : j = i
    · rw [hji, update_self, update_self]
    · rw [update_of_ne hji, update_of_ne hji, ← dinode_overlay hj s'.freeblock,
        hw.front.dinode sb_wellFormed hj, dinode_overlay hj]
  refine ⟨{ s' with disk := setDinode sb i ip s'.disk }, ?_, hinode, ?_⟩
  · unfold iappend
    rw [run_bind_of_ok (rinode_run hi), hfile.size, run_bind_of_ok hrun]
    dsimp only
    rw [hip]
    exact winode_run hi ip
  refine ⟨?_, ⟨fun b hb hb' => ?_, hfresh.meta_le⟩, hle, hinode ▸ h.inodes, ?_, ?_,
    fun j hj hout => ?_, fun j hj₁ hj₂ => ?_, ?_⟩
  · -- the invariant of the disk
    obtain ⟨hsound, -⟩ := hw.sound.resize (i := i)
      (show ip.type = _ by rw [hself, htype, hw.sameMeta.1]) (by rw [hself, haddrs])
      (by omega) fun bn hbn => hw.mapped bn (by omega)
    rw [update_idem] at hsound
    refine (hsound.congr_front sb_wellFormed fun b hb => ?_).1.congr_din hdin
    rw [overlay_setDinode hi]
    exact setDinode_of_ne ((iblock_lt hi).trans_le hb).ne' _ _
  · dsimp only at hb ⊢
    rw [setDinode_of_back hi _ _ (hfresh.meta_le.trans hb), hfresh.zero b hb hb']
  · dsimp only
    rw [hinode]
    omega
  · rw [update_of_ne (by omega), h.none]
  · dsimp only at hout ⊢
    rw [hdin j hj, update_of_ne (by omega), h.free j hj (by omega)]
  · dsimp only at hj₂ ⊢
    rw [hinode] at hj₂
    have hj : j < NINODES := hj₂.trans_le h.inodes.2
    rw [hdin j hj]
    by_cases hji : j = i
    · subst hji
      rw [update_self, update_self]
      have hbytes : Holds din' s'.disk (c j ++ p) := by
        have hexact' : Exact din' s'.disk (c j ++ p).length (c j ++ p).length := by
          rw [List.length_append]
          exact hexact
        refine ⟨hexact', by rw [List.length_append]; exact hmax, fun o ho => ?_⟩
        exact getElem_append_of_wrote hw (fun r hr => overlay_of_back _ _ (h.range hj₁ hj₂ hr).1)
          (fun r hr => overlay_of_back _ _ (hrange r hr)) hi ht hfile.holds hexact' hmax ho
      refine ⟨hfile.type_ne, htype.trans hfile.type, hnlink.trans hfile.nlink,
        hsize.trans (List.length_append ..).symm, (hbytes.congr fun r hr => ?_).congr_addrs haddrs⟩
      exact setDinode_of_back hi _ _ (hrange r hr)
    · -- the blocks of another inode
      rw [update_of_ne hji, update_of_ne hji]
      refine (h.used j hj₁ hj₂).congr fun r hr => ?_
      obtain ⟨hge, hlt⟩ := h.range hj₁ hj₂ hr
      rw [setDinode_of_back hi _ _ hge]
      refine hkept _ hlt fun r' heq => ?_
      have hpair := inj_of_sound h.sound hj (h.type_ne hj₁ hj₂) hi ht hr heq.symm
      exact hji (congrArg Prod.fst hpair)
  · dsimp only
    rw [super_setDinode, ← h.super]
    have hfront := hw.front 1 (by decide)
    rwa [overlay_of_ne (by decide), overlay_of_ne (by decide)] at hfront

/-- Only what is below `freeinode` matters. -/
lemma Built.congr {t' : ℕ → BitVec 16} (h : Built s t c)
    (ht : ∀ i, 1 ≤ i → i < s.freeinode → t' i = t i) (hc : ∀ i < s.freeinode, c' i = c i) :
    Built s t' c' :=
  { h with
    count := by
      rw [h.count, blocksUpTo, blocksUpTo]
      congr 1
      exact Finset.sum_congr rfl fun j hj => by rw [hc j (Finset.mem_range.1 hj)]
    none := by rw [hc 0 h.inodes.1, h.none]
    used := fun i h₁ h₂ => by
      rw [ht i h₁ h₂, hc i h₂]
      exact h.used i h₁ h₂ }

/-- The loop over what `read` returns for one file. -/
lemma Built.forM_run (chunks : List (List UInt8)) : ∀ (s : Mk) (c : ℕ → List UInt8), Built s t c →
    1 ≤ i → i < s.freeinode →
    nmeta + blocksUpTo (update c i (c i ++ chunks.flatten)) s.freeinode ≤ FSSIZE →
    (c i ++ chunks.flatten).length ≤ MAXFILE * BSIZE →
    ∃ s', (chunks.forM (iappend i)).run s = .ok ((), s') ∧ s'.freeinode = s.freeinode ∧
      Built s' t (update c i (c i ++ chunks.flatten)) := by
  induction chunks with
  | nil =>
    intro s c h _ _ _ _
    refine ⟨s, rfl, rfl, ?_⟩
    rwa [List.flatten_nil, List.append_nil, update_eq_self]
  | cons p chunks ih =>
    intro s c h h₁ h₂ hroom hmax
    rw [List.flatten_cons] at hroom hmax ⊢
    have hroom₁ : nmeta + blocksUpTo (update c i (c i ++ p)) s.freeinode ≤ FSSIZE := by
      refine le_trans (Nat.add_le_add_left (blocksUpTo_mono le_rfl fun j _ => ?_) _) hroom
      by_cases hj : j = i
      · subst hj
        simp only [update_self, List.length_append]
        omega
      · rw [update_of_ne hj, update_of_ne hj]
    have hmax₁ : (c i ++ p).length ≤ MAXFILE * BSIZE := by
      simp only [List.length_append] at hmax ⊢
      omega
    obtain ⟨s₁, hrun₁, hinode₁, hb₁⟩ := h.iappend_run h₁ h₂ hroom₁ hmax₁
    have hself : update c i (c i ++ p) i ++ chunks.flatten =
        c i ++ (p ++ chunks.flatten) := by rw [update_self, List.append_assoc]
    have hrest := ih s₁ _ hb₁ h₁ (hinode₁.symm ▸ h₂)
    rw [hself, update_idem, hinode₁] at hrest
    obtain ⟨s₂, hrun₂, hinode₂, hb₂⟩ := hrest hroom hmax
    refine ⟨s₂, ?_, hinode₂, hb₂⟩
    show (iappend i p >>= fun _ => chunks.forM (iappend i)).run s = _
    rw [run_bind_of_ok hrun₁, hrun₂]

/-! ## The files on the command line -/

/-- The bytes of a host file. -/
def Input.bytes (f : Input) : List UInt8 := (f.chunks.getD []).flatten

/-- The entries of the root directory. The files get the inode numbers from `2` on. -/
def rootEntries (files : List Input) : List Dirent :=
  [⟨.ofNat 16 ROOTINO, strncpy dot⟩, ⟨.ofNat 16 ROOTINO, strncpy dotdot⟩] ++
    files.mapIdx fun k f => ⟨.ofNat 16 (k + 2), strncpy (shortName f.arg)⟩

/-- The contents of the root directory. -/
def rootBytes (files : List Input) : List UInt8 := (rootEntries files).flatMap Dirent.encode

/-- The contents of the inodes for these files. -/
def contents (files : List Input) : ℕ → List UInt8
  | 0 => []
  | 1 => rootBytes files
  | k + 2 => (files[k]?.map Input.bytes).getD []

/-- The types of the inodes. -/
def types (i : ℕ) : BitVec 16 := if i = ROOTINO then T_DIR else T_FILE

/-- The files can be opened, have names that `mkfs` accepts, and there is room for them: fewer
than `NINODES` inodes, files of at most `MAXFILE` blocks, and all blocks below `FSSIZE`. The
root directory is then less than four blocks long. -/
structure Fits (files : List Input) : Prop where
  name : ∀ f ∈ files, slash ∉ baseName f.arg
  opened : ∀ f ∈ files, f.chunks.isSome
  inodes : files.length + 1 < NINODES
  size : ∀ f ∈ files, f.bytes.length ≤ MAXFILE * BSIZE
  blocks : nmeta + blocksFor (DIRENT * (files.length + 2)) +
    (files.map fun f => blocksFor f.bytes.length).sum ≤ FSSIZE

lemma length_rootEntries (files : List Input) : (rootEntries files).length = files.length + 2 := by
  simp only [rootEntries, List.length_append, List.length_cons, List.length_nil, List.length_mapIdx]
  omega

lemma length_name_rootEntries {de : Dirent} (h : de ∈ rootEntries files) :
    de.name.length = DIRSIZ := by
  simp only [rootEntries, List.mem_append, List.mem_cons, List.not_mem_nil, or_false,
    List.mem_mapIdx] at h
  obtain (rfl | rfl) | ⟨k, hk, rfl⟩ := h
  all_goals exact length_strncpy _

lemma length_rootBytes (files : List Input) :
    (rootBytes files).length = DIRENT * (files.length + 2) := by
  have hlen : ∀ de ∈ rootEntries files, de.encode.length = DIRENT := fun de h =>
    Dirent.length_encode (length_name_rootEntries h)
  rw [rootBytes, List.length_flatMap, List.map_congr_left hlen, List.map_const',
    List.sum_replicate_nat, length_rootEntries, Nat.mul_comm]

lemma rootEntries_concat (files : List Input) (f : Input) : rootEntries (files ++ [f]) =
    rootEntries files ++ [⟨.ofNat 16 (files.length + 2), strncpy (shortName f.arg)⟩] := by
  simp [rootEntries, List.mapIdx_append]

lemma rootBytes_concat (files : List Input) (f : Input) : rootBytes (files ++ [f]) =
    rootBytes files ++ dirent (files.length + 2) (shortName f.arg) := by
  rw [rootBytes, rootEntries_concat, List.flatMap_append, List.flatMap_singleton]
  rfl

/-- The blocks of all files. -/
lemma blocksUpTo_contents (files : List Input) :
    blocksUpTo (contents files) (files.length + 2) = blocksFor (DIRENT * (files.length + 2)) +
      (files.map fun f => blocksFor f.bytes.length).sum := by
  have hsum : ∀ l : List Input, ∑ k ∈ Finset.range l.length,
      blocksFor ((l[k]?.map Input.bytes).getD []).length =
        (l.map fun f => blocksFor f.bytes.length).sum := by
    intro l
    induction l with
    | nil => rfl
    | cons f l ih =>
      rw [List.length_cons, Finset.sum_range_succ', List.map_cons, List.sum_cons, ← ih,
        Nat.add_comm]
      rfl
  unfold blocksUpTo
  rw [Finset.sum_range_succ', Finset.sum_range_succ', ← hsum, ← length_rootBytes]
  have hnil : blocksFor (contents files 0).length = 0 := by
    show blocksFor 0 = 0
    decide
  rw [hnil, Nat.add_zero, Nat.add_comm]
  rfl

lemma Fits.of_append {more : List Input} (h : Fits (files ++ more)) : Fits files where
  name f hf := h.name f (List.mem_append_left _ hf)
  opened f hf := h.opened f (List.mem_append_left _ hf)
  inodes := by
    have := h.inodes
    rw [List.length_append] at this
    omega
  size f hf := h.size f (List.mem_append_left _ hf)
  blocks := by
    have hblocks := h.blocks
    have hmono : blocksFor (DIRENT * (files.length + 2)) ≤
        blocksFor (DIRENT * ((files ++ more).length + 2)) := by
      apply blocksFor_mono
      rw [List.length_append]
      exact Nat.mul_le_mul_left _ (by omega)
    rw [List.map_append, List.sum_append] at hblocks
    omega

lemma Fits.room (h : Fits files) :
    nmeta + blocksUpTo (contents files) (files.length + 2) ≤ FSSIZE := by
  have := h.blocks
  rw [blocksUpTo_contents]
  omega

lemma Fits.root (h : Fits files) : (rootBytes files).length ≤ MAXFILE * BSIZE := by
  have h₁ : files.length + 1 < 200 := h.inodes
  have h₂ : MAXFILE * BSIZE = 274432 := by decide
  rw [length_rootBytes, h₂]
  unfold DIRENT
  omega

lemma contents_concat (files : List Input) (f : Input) (k : ℕ) (hk : k < files.length) :
    contents (files ++ [f]) (k + 2) = contents files (k + 2) := by
  show ((files ++ [f])[k]?.map Input.bytes).getD [] = (files[k]?.map Input.bytes).getD []
  rw [List.getElem?_append_left hk]

/-- The body of the loop of `main` over the files. -/
lemma Built.addFile_run {f : Input} (h : Built s types (contents files))
    (hfree : s.freeinode = files.length + 2) (hfit : Fits (files ++ [f])) :
    ∃ s', (addFile ROOTINO f).run s = .ok ((), s') ∧ s'.freeinode = (files ++ [f]).length + 2 ∧
      Built s' types (contents (files ++ [f])) := by
  have hlen : (files ++ [f]).length = files.length + 1 := by simp
  have hmem : f ∈ files ++ [f] := by simp
  obtain ⟨chunks, hchunks⟩ := Option.isSome_iff_exists.1 (hfit.opened f hmem)
  have hbytes : f.bytes = chunks.flatten := by rw [Input.bytes, hchunks, Option.getD_some]
  have hinodes := hfit.inodes
  have hroom := hfit.room
  have hroot := hfit.root
  rw [hlen] at hinodes hroom
  rw [rootBytes_concat] at hroot
  -- the contents after each step
  obtain ⟨s₁, hrun₁, hinode₁, hb₁⟩ := h.ialloc_run (by omega) (show T_FILE ≠ 0 by decide)
  rw [hfree] at hrun₁ hinode₁ hb₁
  generalize hc₁ : update (contents files) (files.length + 2) [] = c₁ at hb₁
  have hc₁root : c₁ 1 = rootBytes files := by
    rw [← hc₁, update_of_ne (by omega)]
    rfl
  have hc₁new : c₁ (files.length + 2) = [] := by rw [← hc₁, update_self]
  have hfinal : ∀ j < files.length + 3, contents (files ++ [f]) j = update
      (update c₁ 1 (rootBytes files ++ dirent (files.length + 2) (shortName f.arg)))
      (files.length + 2) chunks.flatten j := by
    intro j hj
    match j with
    | 0 =>
      rw [update_of_ne (by omega), update_of_ne (by omega), ← hc₁,
        update_of_ne (by omega)]
      rfl
    | 1 =>
      rw [update_of_ne (by omega), update_self, ← rootBytes_concat]
      rfl
    | k + 2 =>
      by_cases hk : k = files.length
      · subst hk
        rw [update_self]
        show ((files ++ [f])[files.length]?.map Input.bytes).getD [] = _
        rw [List.getElem?_concat_length, Option.map_some, Option.getD_some, hbytes]
      · rw [update_of_ne (by omega), update_of_ne (by omega), ← hc₁,
          update_of_ne (by omega), contents_concat _ _ _ (by omega)]
  generalize hc₂ : update c₁ 1
    (rootBytes files ++ dirent (files.length + 2) (shortName f.arg)) = c₂ at hfinal
  have hc₂new : c₂ (files.length + 2) = [] := by
    rw [← hc₂, update_of_ne (by omega), hc₁new]
  have hroom₂ : nmeta + blocksUpTo c₂ (files.length + 3) ≤ FSSIZE := by
    refine le_trans (Nat.add_le_add_left (blocksUpTo_mono le_rfl fun j hj => ?_) _) hroom
    rw [hfinal j hj]
    by_cases hnew : j = files.length + 2
    · rw [hnew, hc₂new]
      exact Nat.zero_le _
    · rw [update_of_ne hnew]
  obtain ⟨s₂, hrun₂, hinode₂, hb₂⟩ := hb₁.iappend_run (i := 1)
    (p := dirent (files.length + 2) (shortName f.arg)) le_rfl (by omega)
    (by rw [hc₁root, hc₂, hinode₁]; exact hroom₂) (by rw [hc₁root]; exact hroot)
  rw [hc₁root, hc₂] at hb₂
  have hchunk : update c₂ (files.length + 2) (c₂ (files.length + 2) ++ chunks.flatten) =
      update c₂ (files.length + 2) chunks.flatten := by rw [hc₂new, List.nil_append]
  have hroom₃ : blocksUpTo (update c₂ (files.length + 2) chunks.flatten)
      (files.length + 3) = blocksUpTo (contents (files ++ [f])) (files.length + 3) :=
    Finset.sum_congr rfl fun j hj => by rw [hfinal j (Finset.mem_range.1 hj)]
  obtain ⟨s₃, hrun₃, hinode₃, hb₃⟩ := Built.forM_run (i := files.length + 2) chunks s₂ c₂ hb₂
    (by omega) (by omega) (by rw [hchunk, hinode₂, hinode₁, hroom₃]; exact hroom)
    (by rw [hc₂new, List.nil_append, ← hbytes]; exact hfit.size f hmem)
  rw [hchunk] at hb₃
  refine ⟨s₃, ?_, by omega, hb₃.congr (fun j h₁ h₂ => ?_) fun j hj => hfinal j (by omega)⟩
  · unfold addFile
    rw [if_neg (hfit.name f hmem), hchunks]
    dsimp only
    rw [run_bind_of_ok hrun₁, run_bind_of_ok (show (iappend ROOTINO _).run s₁ = _ from hrun₂),
      hrun₃]
  · by_cases hnew : j = files.length + 2
    · rw [hnew, update_self]
      exact if_neg (by unfold ROOTINO; omega)
    · rw [update_of_ne hnew]

/-- The loop of `main` over the files. -/
lemma Built.forM_addFile_run (rest : List Input) : ∀ (files : List Input) (s : Mk),
    Built s types (contents files) → s.freeinode = files.length + 2 → Fits (files ++ rest) →
    ∃ s', (rest.forM (addFile ROOTINO)).run s = .ok ((), s') ∧
      s'.freeinode = (files ++ rest).length + 2 ∧ Built s' types (contents (files ++ rest)) := by
  induction rest with
  | nil =>
    intro files s h hfree _
    rw [List.append_nil]
    exact ⟨s, rfl, hfree, h⟩
  | cons f rest ih =>
    intro files s h hfree hfit
    have hassoc : files ++ f :: rest = files ++ [f] ++ rest := by simp
    rw [hassoc] at hfit ⊢
    obtain ⟨s₁, hrun₁, hfree₁, hb₁⟩ := h.addFile_run hfree hfit.of_append
    obtain ⟨s₂, hrun₂, hfree₂, hb₂⟩ := ih _ s₁ hb₁ hfree₁ hfit
    refine ⟨s₂, ?_, hfree₂, hb₂⟩
    show (addFile ROOTINO f >>= fun _ => rest.forM (addFile ROOTINO)).run s = _
    rw [run_bind_of_ok hrun₁, hrun₂]

/-- The last steps of `main`: the size of the root directory and the free map. -/
def Mk.finish (s : Mk) : Mk :=
  let root := dinode sb s.disk ROOTINO
  { s with disk := overlay s.freeblock (setDinode sb ROOTINO
      { root with size := .ofNat 32 ((root.size.toNat / BSIZE + 1) * BSIZE) } s.disk) }

/-- The first entries of the root directory, while it is the only inode. -/
lemma Built.root_run (h : Built s t (update (fun _ => []) ROOTINO bs)) (hfree : s.freeinode = 2)
    (hlen : (bs ++ p).length ≤ 32) :
    ∃ s', (iappend ROOTINO p).run s = .ok ((), s') ∧ s'.freeinode = 2 ∧
      Built s' t (update (fun _ => []) ROOTINO (bs ++ p)) := by
  have hmax : (bs ++ p).length ≤ MAXFILE * BSIZE := hlen.trans (by decide)
  have hval : nmeta + (blocksFor 0 + blocksFor 32) ≤ FSSIZE := by decide
  have hroom : nmeta + blocksUpTo (update (fun _ => []) ROOTINO (bs ++ p)) 2 ≤ FSSIZE := by
    have hmono := blocksFor_mono hlen
    have hroot : update (fun _ => []) ROOTINO (bs ++ p) 1 = bs ++ p :=
      update_self ..
    have hnil : update (fun _ => []) ROOTINO (bs ++ p) 0 = [] :=
      update_of_ne (by decide) ..
    rw [blocksUpTo, Finset.sum_range_succ, Finset.sum_range_one, hroot, hnil, List.length_nil]
    omega
  have hrun := h.iappend_run (i := ROOTINO) (p := p) le_rfl (by rw [hfree]; decide)
  rw [update_self, update_idem, hfree] at hrun
  exact hrun hroom hmax

/-- The first steps of `main`: the root directory with its own two entries. -/
lemma start_run : ∃ s₁ s₂ s₃, (ialloc T_DIR).run start = .ok (ROOTINO, s₁) ∧
    (iappend ROOTINO (dirent ROOTINO dot)).run s₁ = .ok ((), s₂) ∧
    (iappend ROOTINO (dirent ROOTINO dotdot)).run s₂ = .ok ((), s₃) ∧ s₃.freeinode = 2 ∧
    Built s₃ types (contents []) := by
  have hlen : ∀ name, (dirent ROOTINO name).length = 16 := fun name =>
    Dirent.length_encode (length_strncpy name)
  obtain ⟨s₁, hrun₁, hinode₁, hb₁⟩ :=
    start_built.ialloc_run (by decide) (show T_DIR ≠ 0 by decide)
  obtain ⟨s₂, hrun₂, hinode₂, hb₂⟩ := hb₁.root_run (p := dirent ROOTINO dot) hinode₁
    (by rw [List.nil_append, hlen]; decide)
  obtain ⟨s₃, hrun₃, hinode₃, hb₃⟩ := hb₂.root_run (p := dirent ROOTINO dotdot) hinode₂
    (by rw [List.nil_append, List.length_append, hlen, hlen])
  refine ⟨s₁, s₂, s₃, hrun₁, hrun₂, hrun₃, hinode₃, hb₃.congr (fun i h₁ h₂ => ?_) fun i hi => ?_⟩
  · have hi : i = 1 := by omega
    subst hi
    rfl
  · rw [hinode₃] at hi
    match i with
    | 0 => rfl
    | 1 => rfl

/-- `main` returns an image with the files. -/
theorem main_run {files : List Input} (hfit : Fits files) :
    ∃ s, main files = .ok s.finish ∧ s.freeinode = files.length + 2 ∧
      Built s types (contents files) := by
  obtain ⟨s₁, s₂, s₃, hrun₁, hrun₂, hrun₃, hfree, hb⟩ := start_run
  obtain ⟨s, hrun, hfree', hb'⟩ := hb.forM_addFile_run files [] s₃ hfree hfit
  refine ⟨s, ?_, hfree', hb'⟩
  have hused : s.freeblock < BSIZE * 8 := hb'.le.trans_lt (by decide)
  unfold main build
  rw [run_bind_of_ok hrun₁, if_pos rfl, run_bind_of_ok hrun₂, run_bind_of_ok hrun₃,
    run_bind_of_ok hrun, run_bind_of_ok (rinode_run (by decide)),
    run_bind_of_ok (winode_run (by decide) _), run_bind_of_ok rfl, balloc, if_pos hused]
  rfl

end Xv6.Mkfs
