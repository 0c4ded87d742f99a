import Xv6.Fs.Content

/-!
# Writing and truncating files

`writei` and `itrunc` on one file keep the invariant of the disk and leave all other files
alone. What they do to their own file is said byte by byte.
-/

namespace Xv6.Fs

open Xv6.Lib
open Xv6.Disk (Block)
open Xv6.Process (Stop)
open Function (update update_of_ne update_self update_eq_self update_idem)

attribute [local irreducible] Post

variable {sb : Superblock} {d d' : Disk} {din din' : ℕ → Dinode} {i m n off k : ℕ} {E : Stop → Prop}
  {ip' : Dinode} {src : ℕ → Option UInt8} {r : Ref} {c : ℕ × Ref → ℕ}

/-! ## Operations on one inode -/

/-- Inode `i` becomes `ip'`, and all other files stay as they are. -/
structure Updates (sb : Superblock) (i : ℕ) (d : Disk) (ip' : Dinode) (d' : Disk) : Prop where
  sound : Sound sb d' (dinode sb d')
  self : dinode sb d' i = ip'
  others : ∀ j < sb.ninodes, j ≠ i → dinode sb d' j = dinode sb d j
  data : ∀ j < sb.ninodes, j ≠ i → (dinode sb d j).type ≠ 0 → ∀ o < (dinode sb d j).size.toNat,
    fileByte (dinode sb d j) d' o = fileByte (dinode sb d j) d o
  front : ∀ b < sb.inodestart, d' b = d b

lemma Updates.refl (h : Sound sb d (dinode sb d)) : Updates sb i d (dinode sb d i) d :=
  ⟨h, rfl, fun _ _ _ => rfl, fun _ _ _ _ _ _ => rfl, fun _ _ => rfl⟩

lemma Superblock.inodestart_le_iblock (sb : Superblock) (i : ℕ) : sb.inodestart ≤ sb.iblock i :=
  Nat.le_add_left ..

lemma Superblock.WellFormed.inodestart_lt (hsb : sb.WellFormed) : sb.inodestart < sb.bmapstart :=
  (sb.inodestart_le_iblock _).trans_lt (hsb.inode_lt _ hsb.root_lt)

/-- The end of an operation: inode `i` is written to the disk. -/
lemma Sound.updates (h : Sound sb d (dinode sb d)) (hsb : sb.WellFormed) (hi : i < sb.ninodes)
    (h' : Sound sb d' (update (dinode sb d) i ip'))
    (hothers : SameData {x | x.1 ≠ i} (cell sb d (dinode sb d)) d
      (cell sb d' (update (dinode sb d) i ip')) d') (hfront : SameFront sb d d') :
    Updates sb i d ip' (setDinode sb i ip' d') ∧ (ip'.type ≠ 0 → ∀ o < ip'.size.toNat,
      fileByte ip' (setDinode sb i ip' d') o = fileByte ip' d' o) := by
  have hlt := hsb.inode_lt i hi
  have hback : ∀ b, sb.bmapstart ≤ b → setDinode sb i ip' d' b = d' b := fun b hb =>
    setDinode_of_ne (by omega) ip' d'
  obtain ⟨hsound, hcell⟩ := h'.congr_front hsb hback
  have hdin : ∀ j < sb.ninodes, dinode sb (setDinode sb i ip' d') j =
      update (dinode sb d) i ip' j := by
    intro j hj
    rw [dinode_setDinode]
    by_cases hji : j = i
    · rw [hji, update_self, update_self]
    · rw [update_of_ne hji, update_of_ne hji, hfront.dinode hsb hj]
  -- bytes of files are in data blocks
  have hbyte : ∀ j < sb.ninodes, (update (dinode sb d) i ip' j).type ≠ 0 →
      ∀ o < (update (dinode sb d) i ip' j).size.toNat,
      fileByte (update (dinode sb d) i ip' j) (setDinode sb i ip' d') o =
        fileByte (update (dinode sb d) i ip' j) d' o := by
    intro j hj ht o ho
    have hle : o / BSIZE * BSIZE ≤ o := Nat.div_mul_le_self ..
    have hmem := h'.owned.mem _ (h'.mapped j hj ht (o / BSIZE) (by omega))
    have hge := hsb.bmapstart_lt hmem
    rw [fileByte_eq_cell hj ht, fileByte_eq_cell hj ht, hcell, hback _ (hge.le.trans hmem.1)]
  refine ⟨⟨hsound.congr_din hdin, ?_, fun j hj hji => ?_, fun j hj hji ht o ho => ?_,
    fun b hb => ?_⟩, fun ht o ho => ?_⟩
  · rw [hdin i hi, update_self]
  · rw [hdin j hj, update_of_ne hji]
  · have hself : update (dinode sb d) i ip' j = dinode sb d j :=
      update_of_ne hji ..
    have hle : o / BSIZE * BSIZE ≤ o := Nat.div_mul_le_self ..
    have hbn := (h.at_ne_zero hj ht ho).1
    obtain ⟨hc, hd⟩ := hothers (j, blockRef (o / BSIZE)) hji (blockRef_ne_indirect hbn)
      (h.mapped j hj ht _ (by omega))
    have hnew := hbyte j hj (by rwa [hself]) o (by rwa [hself])
    have ht' : (update (dinode sb d) i ip' j).type ≠ 0 := by rwa [hself]
    have hmid := fileByte_eq_cell (d := d') hj ht' o
    rw [hself] at hnew hmid
    rw [hnew, hmid, hc, hd, fileByte_eq_cell hj ht]
  · have hle := sb.inodestart_le_iblock i
    have hin := hsb.inodestart_lt
    rw [setDinode_of_ne (by omega), hfront b (by omega)]
  · have := hbyte i hi (by rwa [update_self]) o (by rwa [update_self])
    rwa [update_self] at this

/-! ## Writing -/

/-- What writing `m` bytes of `src` at `off`, the first of `n`, does to inode `i`. -/
structure Wrote (sb : Superblock) (din : ℕ → Dinode) (i : ℕ) (d : Disk) (src : ℕ → Option UInt8)
    (n off m : ℕ) (ip' : Dinode) (d' : Disk) : Prop where
  sound : Sound sb d' (update din i ip')
  others : SameData {x | x.1 ≠ i} (cell sb d din) d (cell sb d' (update din i ip')) d'
  front : SameFront sb d d'
  sameMeta : (din i).SameMeta ip'
  same : ∀ r, r ≠ Ref.indirect → cell sb d din (i, r) ≠ 0 →
    cell sb d' (update din i ip') (i, r) = cell sb d din (i, r)
  mapped : ∀ bn, bn * BSIZE < off + m → cell sb d' (update din i ip') (i, blockRef bn) ≠ 0
  kept : (∀ k < n, (src k).isSome) → ∀ o, o / BSIZE < MAXFILE →
    cell sb d din (i, blockRef (o / BSIZE)) ≠ 0 → o < off ∨ off + m ≤ o →
    fileByte ip' d' o = fileByte (din i) d o
  bytes : (∀ k < n, (src k).isSome) → ∀ k < m, ∀ v, src k = some v → fileByte ip' d' (off + k) = v

/-- Two chunks, one after the other. -/
lemma Wrote.trans {m' : ℕ} {ip'' : Dinode} {d'' : Disk} (h : Wrote sb din i d src n off m ip' d')
    (h' : Wrote sb (update din i ip') i d' (fun k => src (m + k)) (n - m) (off + m) m' ip'' d'')
    (hlt : off + m ≤ MAXFILE * BSIZE) : Wrote sb din i d src n off (m + m') ip'' d'' := by
  have hidem : update (update din i ip') i ip'' = update din i ip'' :=
    update_idem ..
  have hself : update din i ip' i = ip' := update_self ..
  obtain ⟨hsound, hothers, hfront, hmeta, hsame, hmapped, hkept, hbytes⟩ := h'
  rw [hidem] at hsound hothers hsame hmapped
  rw [hself] at hmeta hkept
  have htail : (∀ k < n, (src k).isSome) → ∀ k < n - m, (src (m + k)).isSome :=
    fun hsrc k hk => hsrc _ (by omega)
  refine ⟨hsound, h.others.trans hothers, h.front.trans hfront, h.sameMeta.trans hmeta,
    fun r hr hne => ?_, fun bn hbn => hmapped bn (by omega), fun hsrc o ho hne hout => ?_,
    fun hsrc k hk v hv => ?_⟩
  · rw [hsame r hr (by rwa [h.same r hr hne]), h.same r hr hne]
  · rw [hkept (htail hsrc) o ho (by rwa [h.same _ (blockRef_ne_indirect ho) hne]) (by omega)]
    exact h.kept hsrc o ho hne (by omega)
  · by_cases hkm : k < m
    · have hbn : (off + k) / BSIZE < MAXFILE :=
        Nat.div_lt_of_lt_mul (by rw [Nat.mul_comm]; omega)
      have hle : (off + k) / BSIZE * BSIZE ≤ off + k := Nat.div_mul_le_self ..
      rw [hkept (htail hsrc) _ hbn (h.mapped _ (by omega)) (by omega)]
      exact h.bytes hsrc k hkm v hv
    · have hbyte := hbytes (htail hsrc) (k - m) (by omega) v
        (by rwa [show m + (k - m) = k by omega])
      rwa [show off + m + (k - m) = off + k by omega] at hbyte

lemma Maps.wrote {addr : ℕ} (h : Maps sb din i d r addr ip' d') (hi : i < sb.ninodes)
    (ht : (din i).type ≠ 0) (src : ℕ → Option UInt8) (n : ℕ) (hoff : off ≤ MAXFILE * BSIZE)
    (hmap : ∀ bn, bn * BSIZE < off → cell sb d din (i, blockRef bn) ≠ 0) :
    Wrote sb din i d src n off 0 ip' d' := by
  have hsame : ∀ r, r ≠ Ref.indirect → cell sb d din (i, r) ≠ 0 →
      cell sb d' (update din i ip') (i, r) = cell sb d din (i, r) :=
    fun r hr hne => (h.data (i, r) trivial hr hne).1
  have ht' : (update din i ip' i).type ≠ 0 := by
    rwa [update_self, h.sameMeta.1]
  refine ⟨h.sound, h.data.mono (Set.subset_univ _), h.front, h.sameMeta, hsame, fun bn hbn => ?_,
    fun _ o ho hne _ => ?_, fun _ k hk => absurd hk (by omega)⟩
  · have hlt : bn < MAXFILE := by
      unfold BSIZE at *
      omega
    rw [hsame _ (blockRef_ne_indirect hlt) (hmap bn (by omega))]
    exact hmap bn (by omega)
  · have hbyte := fileByte_eq_cell (d := d') hi ht' o
    rw [update_self] at hbyte
    obtain ⟨hc, hd⟩ := h.data (i, blockRef (o / BSIZE)) trivial (blockRef_ne_indirect ho) hne
    rw [hbyte, hc, hd, fileByte_eq_cell hi ht]

lemma copied_eq {tot : ℕ} (h : ∀ k < m, (src (tot + k)).isSome) :
    copied src tot m = (List.range m).map fun k => (src (tot + k)).getD 0 := by
  have hall : ((List.range m).map fun k => src (tot + k)).takeWhile Option.isSome =
      (List.range m).map fun k => src (tot + k) := by
    rw [List.takeWhile_eq_self_iff]
    intro x hx
    obtain ⟨k, hk, rfl⟩ := List.mem_map.1 hx
    exact h k (List.mem_range.1 hk)
  have hsome : ((List.range m).map fun k => src (tot + k)) =
      (List.range m).map fun k => some ((src (tot + k)).getD 0) := by
    apply List.map_congr_left
    intro k hk
    have := h k (List.mem_range.1 hk)
    rw [Option.isSome_iff_exists] at this
    obtain ⟨v, hv⟩ := this
    rw [hv, Option.getD_some]
  rw [copied, hall, hsome]
  show List.filterMap id _ = _
  rw [List.filterMap_map]
  exact congrFun List.filterMap_eq_map' _

lemma length_copied_le (src : ℕ → Option UInt8) (tot m : ℕ) : (copied src tot m).length ≤ m := by
  unfold copied
  calc _ ≤ (((List.range m).map fun k => src (tot + k)).takeWhile Option.isSome).length :=
        List.length_filterMap_le ..
    _ ≤ ((List.range m).map fun k => src (tot + k)).length :=
        (List.takeWhile_sublist _).length_le
    _ = m := by simp

lemma blockRef_injective {bn bn' : ℕ} (h : bn < MAXFILE) (h' : bn' < MAXFILE)
    (heq : blockRef bn = blockRef bn') : bn = bn' := by
  have := congrArg Ref.rank heq
  rwa [rank_blockRef h, rank_blockRef h'] at this

/-- Bytes are copied into one block of a file. -/
lemma Sound.wrote (h : Sound sb d din) (hsb : sb.WellFormed) (hi : i < sb.ninodes)
    (ht : (din i).type ≠ 0) (src : ℕ → Option UInt8) (hm : m ≤ n) (hlt : off / BSIZE < MAXFILE)
    (hfit : off % BSIZE + m ≤ BSIZE)
    (hmap : ∀ bn, bn * BSIZE < off → cell sb d din (i, blockRef bn) ≠ 0)
    (hne : (din i).at d (blockRef (off / BSIZE)) ≠ 0) :
    Wrote sb din i d src n off (if (copied src 0 m).length < m then 0 else m) (din i)
      (update d ((din i).at d (blockRef (off / BSIZE)))
        ((d ((din i).at d (blockRef (off / BSIZE)))).put (off % BSIZE) (copied src 0 m))) := by
  rw [← cell_eq hi ht] at hne ⊢
  have hself : update din i (din i) = din := update_eq_self ..
  have hle := length_copied_le src 0 m
  have hind : (i, blockRef (off / BSIZE)).2 ≠ Ref.indirect := blockRef_ne_indirect hlt
  obtain ⟨hsound, hcell, hfront⟩ := h.write hsb hne hind
    ((d (cell sb d din (i, blockRef (off / BSIZE)))).put (off % BSIZE) (copied src 0 m))
  generalize hd' : update d (cell sb d din (i, blockRef (off / BSIZE))) _ = d' at *
  have hother : ∀ x, x ≠ (i, blockRef (off / BSIZE)) → cell sb d din x ≠ 0 →
      d' (cell sb d din x) = d (cell sb d din x) := by
    intro x hx hx0
    rw [← hd']
    exact update_of_ne (fun heq => hx (h.owned.inj _ _ hx0 heq)) ..
  have hfull : (∀ k < n, (src k).isSome) → copied src 0 m =
      (List.range m).map fun k => (src k).getD 0 := by
    intro hsrc
    have hrange : ∀ k < m, (src (0 + k)).isSome := fun k hk => by
      rw [Nat.zero_add]
      exact hsrc k (by omega)
    simpa only [Nat.zero_add] using copied_eq hrange
  refine ⟨by rwa [hself], fun x hx hxi hx0 => ?_, hfront, .refl _, fun r _ _ => ?_, fun bn
    hbn => ?_,
    fun hsrc o ho ho0 hout => ?_, fun hsrc k hk v hv => ?_⟩
  · rw [hself, hcell]
    exact ⟨rfl, hother x (fun heq => hx (by rw [heq])) hx0⟩
  · rw [hself, hcell]
  · rw [hself, hcell]
    by_cases hlow : bn * BSIZE < off
    · exact hmap bn hlow
    · have hbn' : bn = off / BSIZE := by
        have hle : (if (copied src 0 m).length < m then 0 else m) ≤ m := by split <;> omega
        unfold BSIZE at *
        omega
      rwa [hbn']
  · have hlen : (copied src 0 m).length = m := by simp [hfull hsrc]
    rw [if_neg (by omega)] at hout
    rw [fileByte_eq_cell hi ht, fileByte_eq_cell hi ht, hcell]
    by_cases hblock : o / BSIZE = off / BSIZE
    · rw [hblock, ← hd', update_self]
      apply Bytes.get_put_of_disjoint
      rw [hlen]
      unfold BSIZE at *
      omega
    · rw [hother _ _ ho0]
      intro heq
      exact hblock (blockRef_injective ho hlt (congrArg Prod.snd heq))
  · have hlen : (copied src 0 m).length = m := by simp [hfull hsrc]
    rw [if_neg (by omega)] at hk
    have hblock : (off + k) / BSIZE = off / BSIZE := by
      unfold BSIZE at *
      omega
    have hmod : (off + k) % BSIZE = off % BSIZE + k := by
      unfold BSIZE at *
      omega
    rw [fileByte_eq_cell hi ht, hcell, hblock, hmod, ← hd', update_self, Bytes.get_put,
      if_pos (by omega), Nat.add_sub_cancel_left, hfull hsrc]
    simp [List.getD_eq_getElem?_getD, hk, hv]

/-- The loop of `writei`. -/
lemma writeLoop_post (hsb : sb.WellFormed) (hi : i < sb.ninodes) (src : ℕ → Option UInt8)
    (n fuel : ℕ) : ∀ (din : ℕ → Dinode) (d : Disk) (tot off : ℕ), Sound sb d din →
    (din i).type ≠ 0 → off + (n - tot) ≤ MAXFILE * BSIZE → n ≤ tot + fuel →
    (∀ bn, bn * BSIZE < off → cell sb d din (i, blockRef bn) ≠ 0) →
    Post E (fun r => ∃ m, m ≤ n - tot ∧ r.1 = (tot + m, off + m) ∧
        (off % BSIZE + (n - tot) ≤ BSIZE → m = 0 ∨ m = n - tot) ∧
        Wrote sb din i d (fun k => src (tot + k)) (n - tot) off m r.2.1 r.2.2)
      (writeLoop sb src n fuel tot off (din i) d) := by
  induction fuel with
  | zero =>
    intro din d tot off h ht hoff hfuel hmap
    refine Post.pure_iff.2 ⟨0, Nat.zero_le _, rfl, fun _ => .inl rfl, ?_⟩
    exact (Maps.refl h (fun _ => rfl) (.inr rfl)).wrote (r := .indirect) hi ht _ _ (by omega) hmap
  | succ fuel ih =>
    intro din d tot off h ht hoff hfuel hmap
    unfold writeLoop
    have hnone : Wrote sb din i d (fun k => src (tot + k)) (n - tot) off 0 (din i) d :=
      (Maps.refl h (fun _ => rfl) (.inr rfl)).wrote (r := .indirect) hi ht _ _ (by omega) hmap
    refine Post.ite (fun hlt => ?_) fun _ =>
      Post.pure_iff.2 ⟨0, Nat.zero_le _, rfl, fun _ => .inl rfl, hnone⟩
    have hbn : off / BSIZE < MAXFILE := Nat.div_lt_of_lt_mul (by rw [Nat.mul_comm]; omega)
    -- `bmap` may allocate the block even if nothing is written to it then
    refine Post.bind ((h.bmap_post hsb hi ht hbn).mono ?_)
    rintro ⟨addr, ip₁, d₁⟩ h₁
    dsimp only at h₁ ⊢
    have hw₁ : Wrote sb din i d (fun k => src (tot + k)) (n - tot) off 0 ip₁ d₁ :=
      h₁.wrote hi ht _ _ (by omega) hmap
    refine Post.ite (fun _ => Post.pure_iff.2 ⟨0, Nat.zero_le _, rfl, fun _ => .inl rfl, hw₁⟩)
      fun haddr => ?_
    have hmod : off % BSIZE < BSIZE := Nat.mod_lt _ (by decide)
    have ht₁ : (update din i ip₁ i).type ≠ 0 := by
      rwa [update_self, h₁.sameMeta.1]
    have hat : addr = (update din i ip₁ i).at d₁ (blockRef (off / BSIZE)) := by
      rw [update_self]
      exact h₁.addr_eq.resolve_left haddr
    generalize hm : min (n - tot) (BSIZE - off % BSIZE) = m
    have hcopy : copied src tot m = copied (fun k => src (tot + k)) 0 m := by
      simp only [copied, Nat.zero_add]
    have hw₂ := h₁.sound.wrote hsb hi ht₁ (fun k => src (tot + k)) (n := n - tot) (m := m)
      (by omega) hbn (by omega) (fun bn hbn => hw₁.mapped bn (by omega)) (hat ▸ haddr)
    rw [← hat, ← hcopy, update_self] at hw₂
    have hw : Wrote sb din i d (fun k => src (tot + k)) (n - tot) off
        (0 + if (copied src tot m).length < m then 0 else m) ip₁
        (update d₁ addr ((d₁ addr).put (off % BSIZE) (copied src tot m))) := by
      refine hw₁.trans ?_ (by omega)
      simpa only [Nat.zero_add, Nat.add_zero, Nat.sub_zero] using hw₂
    rw [Nat.zero_add] at hw
    -- `either_copyin` fails: the loop ends, and the bytes do not count
    refine Post.ite (fun hshort => ?_) fun hfull => ?_
    · rw [if_pos hshort] at hw
      exact Post.pure_iff.2 ⟨0, Nat.zero_le _, rfl, fun _ => .inl rfl, hw⟩
    · rw [if_neg hfull] at hw
      have hrest := ih (update din i ip₁) _ (tot + m) (off + m) hw.sound ht₁ (by omega)
        (by omega) hw.mapped
      rw [update_self] at hrest
      refine hrest.mono ?_
      rintro ⟨⟨tot', off'⟩, ip', d'⟩ ⟨m', hm', hr, -, hw'⟩
      dsimp only at hr hw' ⊢
      obtain ⟨rfl, rfl⟩ := Prod.mk.inj hr
      refine ⟨m + m', by omega, by rw [Nat.add_assoc, Nat.add_assoc], fun _ => .inr (by omega),
        hw.trans ?_ (by omega)⟩
      simpa only [Nat.add_assoc, Nat.sub_sub] using hw'

/-! ## `writei` -/

/-- What `writei` does to the contents of its inode, with result `r`. -/
structure Rewrites (ip : Dinode) (d : Disk) (src : ℕ → Option UInt8) (n off : ℕ) (r : ℤ)
    (ip' : Dinode) (d' : Disk) : Prop where
  type : ip'.type = ip.type
  nlink : ip'.nlink = ip.nlink
  device : ip'.major = ip.major ∧ ip'.minor = ip.minor
  cases : (r = -1 ∧ ip' = ip ∧ d' = d) ∨ ∃ m ≤ n, r = m ∧ off ≤ ip.size.toNat ∧
    ip'.size.toNat = max ip.size.toNat (off + m) ∧
    (off % BSIZE + n ≤ BSIZE → m = 0 ∨ m = n) ∧
    ((∀ k < n, (src k).isSome) →
      (∀ o < ip.size.toNat, o < off ∨ off + m ≤ o → fileByte ip' d' o = fileByte ip d o) ∧
      ∀ k < m, ∀ v, src k = some v → fileByte ip' d' (off + k) = v)

/-- `writei` keeps the disk sound and writes what it counts. -/
lemma Sound.writei_post (h : Sound sb d (dinode sb d)) (hsb : sb.WellFormed) (hi : i < sb.ninodes)
    (ht : (dinode sb d i).type ≠ 0) (src : ℕ → Option UInt8) (hn : n < 2 ^ 32) :
    Post E (fun r => Updates sb i d r.2.1 r.2.2 ∧
        Rewrites (dinode sb d i) d src n off r.1 r.2.1 r.2.2)
      (writei sb i (dinode sb d i) src off n d) := by
  have hsize := (dinode sb d i).size.isLt
  have hfail : Updates sb i d (dinode sb d i) d ∧
      Rewrites (dinode sb d i) d src n off (-1) (dinode sb d i) d :=
    ⟨.refl h, rfl, rfl, ⟨rfl, rfl⟩, .inl ⟨rfl, rfl, rfl⟩⟩
  unfold writei
  refine Post.ite (fun _ => Post.pure_iff.2 hfail) fun hout =>
    Post.ite (fun _ => Post.pure_iff.2 hfail) fun hmax => ?_
  -- the check of the source `off + n < off` rules an overflow out
  have hsum : (off + n) % 2 ^ 32 = off + n := by
    by_contra hne
    omega
  rw [hsum] at hout hmax
  have hmap : ∀ bn, bn * BSIZE < off → cell sb d (dinode sb d) (i, blockRef bn) ≠ 0 :=
    fun bn hbn => h.mapped i hi ht bn (by omega)
  refine Post.bind ((writeLoop_post hsb hi src n n (dinode sb d) d 0 off h ht (by omega) (by omega)
    hmap).mono ?_)
  rintro ⟨⟨tot, off'⟩, ip₁, d₁⟩ ⟨m, hm, hr, hone, hw⟩
  obtain ⟨rfl, rfl⟩ := Prod.mk.inj hr
  simp only [Nat.zero_add, Nat.sub_zero] at hm hone hw ⊢
  rw [Post.pure_iff, Store.put_dinode]
  generalize hip : (if ip₁.size.toNat < off + m then
    { ip₁ with size := BitVec.ofNat 32 (off + m) } else ip₁) = ip'
  have hsize₁ : ip₁.size = (dinode sb d i).size := hw.sameMeta.2.2.2.2
  have hnew : ip'.size.toNat = max (dinode sb d i).size.toNat (off + m) := by
    rw [← hip, ← hsize₁]
    split
    · rw [BitVec.toNat_ofNat, Nat.mod_eq_of_lt (by omega)]
      omega
    · omega
  have hadd : ip'.addrs = ip₁.addrs ∧ ip'.type = ip₁.type ∧ ip'.nlink = ip₁.nlink ∧
      ip'.major = ip₁.major ∧ ip'.minor = ip₁.minor := by
    rw [← hip]
    split <;> exact ⟨rfl, rfl, rfl, rfl, rfl⟩
  have htype : ip'.type = (dinode sb d i).type := hadd.2.1.trans hw.sameMeta.1
  have hbound := h.size_le i hi ht
  -- the file is longer only by what was written, so there is no hole
  have hmapped : ∀ bn, bn * BSIZE < ip'.size.toNat →
      cell sb d₁ (update (dinode sb d) i ip₁) (i, blockRef bn) ≠ 0 := by
    intro bn hbn
    by_cases hlow : bn * BSIZE < off + m
    · exact hw.mapped bn hlow
    · have hne := h.mapped i hi ht bn (by omega)
      have hlt : bn < MAXFILE := by
        unfold BSIZE at *
        omega
      rw [hw.same _ (blockRef_ne_indirect hlt) hne]
      exact hne
  obtain ⟨hsound, hcell⟩ := hw.sound.resize (i := i) (by rw [update_self, hadd.2.1])
    (by rw [update_self, hadd.1]) (by omega) hmapped
  rw [update_idem] at hsound hcell
  obtain ⟨hup, hbyte⟩ := h.updates hsb hi hsound (by rw [hcell]; exact hw.others) hw.front
  have hat : ∀ o, fileByte ip' d₁ o = fileByte ip₁ d₁ o := by
    intro o
    rw [fileByte, Dinode.at_congr hadd.1, fileByte]
  have hdevice : ip'.major = (dinode sb d i).major ∧ ip'.minor = (dinode sb d i).minor :=
    ⟨hadd.2.2.2.1.trans hw.sameMeta.2.1, hadd.2.2.2.2.trans hw.sameMeta.2.2.1⟩
  refine ⟨hup, htype, hadd.2.2.1.trans hw.sameMeta.2.2.2.1, hdevice, .inr ⟨m, hm, rfl, by omega,
    hnew, hone, fun hsrc => ⟨fun o ho hout => ?_, fun k hk v hv => ?_⟩⟩⟩
  · obtain ⟨hbn, -⟩ := h.at_ne_zero hi ht ho
    have hle : o / BSIZE * BSIZE ≤ o := Nat.div_mul_le_self ..
    rw [hbyte (by rwa [htype]) o (by omega), hat]
    exact hw.kept hsrc o hbn (h.mapped i hi ht _ (by omega)) hout
  · rw [hbyte (by rwa [htype]) _ (by omega), hat]
    exact hw.bytes hsrc k hk v hv

/-! ## Truncation -/

/-- The cells without the first `k` places of inode `i`. -/
def clearTo (i k : ℕ) (c : ℕ × Ref → ℕ) (x : ℕ × Ref) : ℕ :=
  if x.1 = i ∧ x.2.rank < k then 0 else c x

/-- From `d` to `d'` only marks changed, and these agree with the cells `c`. -/
structure Marks (sb : Superblock) (d : Disk) (c : ℕ × Ref → ℕ) (d' : Disk) : Prop where
  owned : Owned sb.dataBlocks (fun b => marked sb d' b = true) c
  reserved : ∀ b < sb.dataStart, marked sb d' b = true
  front : SameFront sb d d'
  data : ∀ x ∈ sb.dataBlocks, d' x = d x

lemma Sound.marks (h : Sound sb d din) : Marks sb d (clearTo i 0 (cell sb d din)) d where
  owned := h.owned.congr (fun _ _ => Iff.rfl) fun x => by simp [clearTo]
  reserved := h.reserved
  front := .refl _ _
  data _ _ := rfl

/-- The next place of inode `i` is empty. -/
lemma Marks.skip (h : Marks sb d (clearTo i k c) d') (hk : r.rank = k) (hr : c (i, r) = 0) :
    Marks sb d (clearTo i (k + 1) c) d' where
  owned := by
    refine h.owned.congr (fun _ _ => Iff.rfl) fun x => ?_
    unfold clearTo
    by_cases hx : x = (i, r)
    · simp [hx, hr]
    · have hiff : x.1 = i ∧ x.2.rank < k + 1 ↔ x.1 = i ∧ x.2.rank < k := by
        refine and_congr_right fun hi => ⟨fun hlt => ?_, fun hlt => by omega⟩
        have hne : x.2.rank ≠ k := fun heq =>
          hx (Prod.ext hi (Ref.rank_injective (heq.trans hk.symm)))
        omega
      simp only [hiff]
  reserved := h.reserved
  front := h.front
  data := h.data

/-- The block at the next place of inode `i` is freed. -/
lemma Marks.bfree_post (h : Marks sb d (clearTo i k c) d') (hsb : sb.WellFormed) (hk : r.rank = k)
    (hr : c (i, r) ≠ 0) : Post E (Marks sb d (clearTo i (k + 1) c)) (bfree sb (c (i, r)) d') := by
  have hcell : clearTo i k c (i, r) = c (i, r) := if_neg (by simp [hk])
  have hne : clearTo i k c (i, r) ≠ 0 := hcell ▸ hr
  have hmem := h.owned.mem _ hne
  rw [← hcell]
  refine (Fs.bfree_post hsb hmem.2 (h.owned.used_cell hne)).mono fun d'' hf => ?_
  refine ⟨?_, fun b hb => ?_, h.front.trans hf.front, fun x hx => (hf.data x hx).trans
    (h.data x hx)⟩
  · have hused : ∀ b ∈ sb.dataBlocks, marked sb d'' b = true ↔
        b ≠ clearTo i k c (i, r) ∧ marked sb d' b = true := by
      intro b _
      simp [hf.marked_eq]
    refine (h.owned.clear hne hused).congr (fun _ _ => Iff.rfl) fun x => ?_
    unfold clearTo
    by_cases hx : x = (i, r)
    · simp [hx, hk]
    · rw [update_of_ne hx]
      have hiff : x.1 = i ∧ x.2.rank < k + 1 ↔ x.1 = i ∧ x.2.rank < k := by
        refine and_congr_right fun hi => ⟨fun hlt => ?_, fun hlt => by omega⟩
        have hne : x.2.rank ≠ k := fun heq =>
          hx (Prod.ext hi (Ref.rank_injective (heq.trans hk.symm)))
        omega
      simp only [hiff]
  · have hne' : b ≠ clearTo i k c (i, r) := by
      have := hmem.1
      omega
    simp [hf.marked_eq, hne', h.reserved b hb]

/-- The inode without its first `k` block numbers. -/
def Dinode.cleared (ip : Dinode) (k : ℕ) : Dinode :=
  { ip with addrs := fun j => if j.val < k then 0 else ip.addrs j }

/-- The inode of an empty file. -/
def Dinode.emptied (ip : Dinode) : Dinode := { ip with size := 0, addrs := fun _ => 0 }

lemma Dinode.emptied_addrs (ip : Dinode) : ip.emptied.addrs = fun _ => 0 := rfl

lemma Dinode.emptied_size (ip : Dinode) : ip.emptied.size = 0 := rfl

lemma Dinode.emptied_of_cleared {ip : Dinode} (h : ip' = ip.cleared (NDIRECT + 1)) :
    { ip' with size := 0 } = ip.emptied := by
  subst h
  exact Dinode.ext rfl rfl rfl rfl rfl (funext fun j => if_pos j.isLt)

lemma Dinode.cleared_addrs (ip : Dinode) {j : Fin (NDIRECT + 1)} (h : k ≤ j) :
    (ip.cleared k).addrs j = ip.addrs j := if_neg (by omega)

lemma Dinode.setAddr_cleared (ip : Dinode) (k : Fin (NDIRECT + 1)) :
    (ip.cleared k).setAddr k 0 = ip.cleared (k + 1) := by
  unfold Dinode.setAddr Dinode.cleared
  congr 1
  funext j
  by_cases hj : j = k
  · simp [hj]
  · have hval : j.val ≠ k.val := fun h => hj (Fin.ext h)
    rw [update_of_ne hj]
    exact if_congr (by omega) rfl rfl

lemma Dinode.cleared_succ (ip : Dinode) {k : Fin (NDIRECT + 1)} (h : ip.addrs k = 0) :
    ip.cleared (k + 1) = ip.cleared k := by
  unfold Dinode.cleared
  congr 1
  funext j
  by_cases hj : j = k
  · simp [hj, h]
  · have hval : j.val ≠ k.val := fun h => hj (Fin.ext h)
    exact if_congr (by omega) rfl rfl

/-- The first loop of `itrunc` frees the direct blocks. -/
lemma Sound.truncDirect_post (h : Sound sb d din) (hsb : sb.WellFormed) (hi : i < sb.ninodes)
    (ht : (din i).type ≠ 0) :
    Post E (fun r => r.1 = (din i).cleared NDIRECT ∧
        Marks sb d (clearTo i NDIRECT (cell sb d din)) r.2)
      ((List.range NDIRECT).foldlM (truncDirect sb) (din i, d)) := by
  refine Post.foldlM_range (I := fun k (x : Dinode × Disk) => x.1 = (din i).cleared k ∧
    Marks sb d (clearTo i k (cell sb d din)) x.2) ⟨?_, h.marks⟩ fun k hk x hx => ?_
  · simp [Dinode.cleared]
  · obtain ⟨ip, d₁⟩ := x
    obtain ⟨rfl, hmarks⟩ := hx
    have hval : ((Fin.ofNat (NDIRECT + 1) k : Fin (NDIRECT + 1)) : ℕ) = k :=
      Nat.mod_eq_of_lt (by omega)
    have hrank : (Ref.addr (Fin.ofNat (NDIRECT + 1) k)).rank = k := by
      rw [Ref.rank_addr, hval]
      intro hlast
      rw [hlast, Fin.val_last] at hval
      omega
    have hcell : cell sb d din (i, .addr (Fin.ofNat _ k)) =
        ((din i).addrs (Fin.ofNat _ k)).toNat := cell_eq hi ht _
    have haddr : ((din i).cleared k).addrs (Fin.ofNat _ k) = (din i).addrs (Fin.ofNat _ k) :=
      Dinode.cleared_addrs _ hval.ge
    unfold truncDirect
    dsimp only at hmarks ⊢
    rw [haddr]
    refine Post.ite (fun hne => ?_) fun hzero => ?_
    · have hne' : cell sb d din (i, .addr (Fin.ofNat _ k)) ≠ 0 := by
        rw [hcell]
        exact fun h0 => hne (BitVec.eq_of_toNat_eq h0)
      rw [← hcell]
      refine Post.bind ((hmarks.bfree_post hsb hrank hne').mono fun d₂ h₂ =>
        Post.pure_iff.2 ⟨?_, h₂⟩)
      have := (din i).setAddr_cleared (Fin.ofNat _ k)
      rwa [hval] at this
    · have hzero : (din i).addrs (Fin.ofNat _ k) = 0 := by simpa using hzero
      refine Post.pure_iff.2 ⟨?_, hmarks.skip hrank (by rw [hcell, hzero]; rfl)⟩
      have := (din i).cleared_succ hzero
      rw [hval] at this
      exact this.symm

/-- The rest of `itrunc` frees the blocks in the indirect block, and that block. -/
lemma Sound.truncIndirect_post (h : Sound sb d din) (hsb : sb.WellFormed) (hi : i < sb.ninodes)
    (ht : (din i).type ≠ 0) (hmarks : Marks sb d (clearTo i NDIRECT (cell sb d din)) d') :
    Post E (fun r => r.1 = (din i).cleared (NDIRECT + 1) ∧
        Marks sb d (clearTo i (MAXFILE + 1) (cell sb d din)) r.2)
      (truncIndirect sb ((din i).cleared NDIRECT) d') := by
  have hlast : ((din i).cleared NDIRECT).addrs (Fin.last NDIRECT) =
      (din i).addrs (Fin.last NDIRECT) := Dinode.cleared_addrs _ le_rfl
  have hcell : cell sb d din (i, .indirect) = ((din i).addrs (Fin.last NDIRECT)).toNat :=
    cell_eq hi ht _
  unfold truncIndirect
  dsimp only
  rw [hlast]
  refine Post.ite (fun hne => ?_) fun hzero => ?_
  · have hne' : cell sb d din (i, .indirect) ≠ 0 := by
      rw [hcell]
      exact fun h0 => hne (BitVec.eq_of_toNat_eq h0)
    have hblock : d' ((din i).addrs (Fin.last NDIRECT)).toNat =
        d ((din i).addrs (Fin.last NDIRECT)).toNat := by
      rw [← hcell]
      exact hmarks.data _ (h.owned.mem _ hne')
    have hentries : Post E (Marks sb d (clearTo i (NDIRECT + NINDIRECT) (cell sb d din)))
        ((List.range NINDIRECT).foldlM
          (truncEntry sb (d' ((din i).addrs (Fin.last NDIRECT)).toNat)) d') := by
      refine Post.foldlM_range (I := fun j x =>
        Marks sb d (clearTo i (NDIRECT + j) (cell sb d din)) x) hmarks fun j hj x hx => ?_
      have hat : cell sb d din (i, .entry ⟨j, hj⟩) =
          entry (d' ((din i).addrs (Fin.last NDIRECT)).toNat) j := by
        rw [cell_eq hi ht, Dinode.at_entry hne, hblock]
      unfold truncEntry
      rw [← hat]
      refine Post.ite (fun hne => ?_) fun hzero => ?_
      · exact hx.bfree_post hsb (Ref.rank_entry ⟨j, hj⟩) hne
      · exact Post.pure_iff.2 (hx.skip (Ref.rank_entry ⟨j, hj⟩) (by simpa using hzero))
    refine Post.bind (hentries.mono fun d₁ h₁ => ?_)
    rw [← hcell]
    refine Post.bind ((h₁.bfree_post hsb Ref.rank_indirect hne').mono fun d₂ h₂ =>
      Post.pure_iff.2 ⟨?_, h₂⟩)
    exact (din i).setAddr_cleared (Fin.last NDIRECT)
  · have hzero : (din i).addrs (Fin.last NDIRECT) = 0 := by simpa using hzero
    refine Post.pure_iff.2
      ⟨((din i).cleared_succ hzero).symm, ?_, hmarks.reserved, hmarks.front, hmarks.data⟩
    -- without an indirect block there are no entries
    refine hmarks.owned.congr (fun _ _ => Iff.rfl) fun x => ?_
    unfold clearTo
    by_cases hx : x.1 = i ∧ x.2.rank < NDIRECT
    · have hle : NDIRECT ≤ MAXFILE := Nat.le_add_right ..
      rw [if_pos hx, if_pos ⟨hx.1, by omega⟩]
    · rw [if_neg hx]
      by_cases hxi : x.1 = i ∧ x.2.rank < MAXFILE + 1
      · rw [if_pos hxi]
        obtain ⟨j, r⟩ := x
        obtain ⟨rfl, -⟩ := hxi
        rw [cell_eq hi ht]
        rcases r.cases with rfl | ⟨k, hk, rfl⟩ | ⟨e, rfl⟩
        · rw [Ref.indirect, Dinode.at_addr, hzero]
          rfl
        · exact absurd ⟨rfl, Ref.rank_addr_lt hk⟩ hx
        · rw [Dinode.at_entry_of_none hzero]
      · rw [if_neg hxi]

/-- Without its blocks and with size `0`, inode `i` is as good as any. -/
lemma Marks.sound (h : Sound sb d din)
    (hmarks : Marks sb d (clearTo i (MAXFILE + 1) (cell sb d din)) d')
    (haddrs : ip'.addrs = fun _ => 0) (hsize : ip'.size = 0) :
    Sound sb d' (update din i ip') ∧
      SameData {x | x.1 ≠ i} (cell sb d din) d (cell sb d' (update din i ip')) d' := by
  have hcell' : cell sb d' din = cell sb d din := by
    apply cell_congr
    intro j hj ht hne
    have hne' : (din j).at d .indirect ≠ 0 := fun h0 => hne (BitVec.eq_of_toNat_eq h0)
    exact hmarks.data _ (h.at_mem hj ht hne')
  have hcell : cell sb d' (update din i ip') = clearTo i (MAXFILE + 1)
    (cell sb d din) := by
    funext x
    rw [cell_update, hcell', clearTo]
    by_cases hx : x.1 = i
    · have hat : ip'.at d' x.2 = 0 := by
        rcases x.2.cases with hr | ⟨k, -, hr⟩ | ⟨e, hr⟩
        · rw [hr, Ref.indirect, Dinode.at_addr, haddrs]
          rfl
        · rw [hr, Dinode.at_addr, haddrs]
          rfl
        · rw [hr, Dinode.at_entry_of_none (by rw [haddrs])]
      have hrank := x.2.rank_le
      rw [if_pos hx, hat, ite_self, if_pos ⟨hx, by omega⟩]
    · rw [if_neg hx, if_neg fun hc => hx hc.1]
  refine ⟨⟨?_, hmarks.reserved, fun j hj ht => ?_, fun j hj ht bn hbn => ?_⟩, fun x hx _ hne => ?_⟩
  · rw [hcell]
    exact hmarks.owned
  · by_cases hji : j = i
    · subst hji
      rw [update_self, hsize]
      exact Nat.zero_le _
    · rw [update_of_ne hji] at ht ⊢
      exact h.size_le j hj ht
  · by_cases hji : j = i
    · subst hji
      rw [update_self, hsize] at hbn
      exact absurd hbn (Nat.not_lt_zero _)
    · rw [update_of_ne hji] at ht hbn
      rw [hcell, clearTo, if_neg fun hc => hji hc.1]
      exact h.mapped j hj ht bn hbn
  · have hx : x.1 ≠ i := hx
    rw [hcell, clearTo, if_neg fun hc => hx hc.1]
    exact ⟨rfl, hmarks.data _ (h.owned.mem x hne)⟩

/-- An inode without blocks becomes another one without blocks. -/
lemma Sound.updates_empty (h : Sound sb d (dinode sb d)) (hsb : sb.WellFormed)
    (hi : i < sb.ninodes) (hnone : ∀ r, cell sb d (dinode sb d) (i, r) = 0) (ip' : Dinode)
    (haddrs : ip'.addrs = fun _ => 0) (hsize : ip'.size = 0) :
    Updates sb i d ip' (setDinode sb i ip' d) := by
  have hclear : clearTo i (MAXFILE + 1) (cell sb d (dinode sb d)) = cell sb d (dinode sb d) := by
    funext x
    unfold clearTo
    by_cases hx : x.1 = i ∧ x.2.rank < MAXFILE + 1
    · obtain ⟨j, r⟩ := x
      obtain ⟨rfl, -⟩ := hx
      rw [hnone r, ite_self]
    · rw [if_neg hx]
  have hmarks : Marks sb d (clearTo i (MAXFILE + 1) (cell sb d (dinode sb d))) d := by
    rw [hclear]
    exact ⟨h.owned, h.reserved, .refl _ _, fun _ _ => rfl⟩
  obtain ⟨hsound, hothers⟩ := hmarks.sound h haddrs hsize
  exact (h.updates hsb hi hsound hothers (.refl _ _)).1

/-- `itrunc` frees all blocks of the inode. -/
lemma Sound.itrunc_post (h : Sound sb d (dinode sb d)) (hsb : sb.WellFormed)
    (hi : i < sb.ninodes) (ht : (dinode sb d i).type ≠ 0) :
    Post E (fun r => r.1 = (dinode sb d i).emptied ∧ Updates sb i d r.1 r.2)
      (itrunc sb i (dinode sb d i) d) := by
  unfold itrunc
  refine Post.bind ((h.truncDirect_post hsb hi ht).mono ?_)
  rintro ⟨ip₁, d₁⟩ ⟨hip₁, h₁⟩
  dsimp only at hip₁ h₁ ⊢
  rw [hip₁]
  refine Post.bind ((h.truncIndirect_post hsb hi ht h₁).mono ?_)
  rintro ⟨ip₂, d₂⟩ ⟨hip, h₂⟩
  dsimp only at hip h₂ ⊢
  rw [Dinode.emptied_of_cleared hip, Post.pure_iff]
  obtain ⟨hsound, hothers⟩ := h₂.sound h (Dinode.emptied_addrs _) (Dinode.emptied_size _)
  exact ⟨rfl, (h.updates hsb hi hsound hothers h₂.front).1⟩

end Xv6.Fs
