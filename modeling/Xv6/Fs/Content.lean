import Xv6.Fs.Blocks

/-!
# The contents of files

`fileByte ip d o` is byte `o` of the file with inode `ip`. Reading a file changes nothing, since
its blocks are there.
-/

namespace Xv6.Fs

open Xv6.Lib
open Xv6.Disk (Block)
open Xv6.Process (Stop)
open Function (update update_of_ne update_self)

variable {sb : Superblock} {d d' : Disk} {din din' : ℕ → Dinode} {i bn off n : ℕ} {E : Stop → Prop}
  {ip : Dinode}

/-- Byte `o` of the file with inode `ip`. -/
def fileByte (ip : Dinode) (d : Disk) (o : ℕ) : UInt8 :=
  (d (ip.at d (blockRef (o / BSIZE)))).get (o % BSIZE)

/-- The `n` bytes from `off` on. -/
def fileBytes (ip : Dinode) (d : Disk) (off n : ℕ) : List UInt8 :=
  (List.range n).map fun k => fileByte ip d (off + k)

/-- Entry number `k` of the directory with inode `ip`. -/
def direntAt (ip : Dinode) (d : Disk) (k : ℕ) : Dirent :=
  .decode (fileBytes ip d (DIRENT * k) DIRENT)

/-! ## Changes that keep the invariant -/

lemma Superblock.WellFormed.bmapstart_lt (hsb : sb.WellFormed) {b : ℕ} (hb : b ∈ sb.dataBlocks) :
    sb.bmapstart < sb.dataStart := by
  have h := hsb.bmap_lt b hb.2
  have hle := sb.bmapstart_le_bblock b
  omega

/-- The invariant reads the inodes with numbers in range only. -/
lemma cell_congr_din (h : ∀ j < sb.ninodes, din' j = din j) : cell sb d din' = cell sb d din := by
  funext x
  unfold cell
  by_cases hx : x.1 < sb.ninodes
  · rw [h _ hx]
  · simp [hx]

lemma Sound.congr_din (h : Sound sb d din) (hdin : ∀ j < sb.ninodes, din' j = din j) :
    Sound sb d din' where
  owned := by rw [cell_congr_din hdin]; exact h.owned
  reserved := h.reserved
  size_le j hj := by rw [hdin j hj]; exact h.size_le j hj
  mapped j hj := by rw [hdin j hj, cell_congr_din hdin]; exact h.mapped j hj

/-- Changes in front of the free map do not matter. -/
lemma Sound.congr_front (h : Sound sb d din) (hsb : sb.WellFormed)
    (hd : ∀ b, sb.bmapstart ≤ b → d' b = d b) :
    Sound sb d' din ∧ cell sb d' din = cell sb d din := by
  have hcell : cell sb d' din = cell sb d din := by
    apply cell_congr
    intro j hj ht hne
    have hne' : (din j).at d .indirect ≠ 0 := fun h0 => hne (BitVec.eq_of_toNat_eq h0)
    have hmem := h.at_mem hj ht hne'
    have hlt := hsb.bmapstart_lt hmem
    exact hd _ (hlt.le.trans hmem.1)
  have hmarks : ∀ b, marked sb d' b = marked sb d b := by
    intro b
    rw [marked, hd _ (sb.bmapstart_le_bblock b), marked]
  refine ⟨⟨?_, fun b hb => ?_, h.size_le, fun j hj ht bn hbn => ?_⟩, hcell⟩
  · exact h.owned.congr (fun b _ => by rw [hmarks]) fun x => congrFun hcell x
  · rw [hmarks, h.reserved b hb]
  · rw [hcell]
    exact h.mapped j hj ht bn hbn

/-- Writing to a block of the contents of a file. -/
lemma Sound.write (h : Sound sb d din) (hsb : sb.WellFormed) {x : ℕ × Ref}
    (hx : cell sb d din x ≠ 0) (hind : x.2 ≠ Ref.indirect) (v : Block) :
    Sound sb (update d (cell sb d din x) v) din ∧
      cell sb (update d (cell sb d din x) v) din = cell sb d din ∧
      SameFront sb d (update d (cell sb d din x) v) := by
  have hmem := h.owned.mem x hx
  have hcell : cell sb (update d (cell sb d din x) v) din = cell sb d din := by
    apply cell_congr
    intro j hj ht hne
    have hat : cell sb d din (j, .indirect) = ((din j).addrs (Fin.last NDIRECT)).toNat :=
      cell_eq hj ht _
    apply update_of_ne
    intro heq
    rw [← hat] at heq
    exact hind (by rw [← h.owned.inj _ _ (heq ▸ hx) heq])
  have hlow : ∀ b < sb.dataStart, update d (cell sb d din x) v b = d b := fun b hb =>
    update_of_ne (by have := hmem.1; omega) ..
  refine ⟨⟨?_, fun b hb => ?_, h.size_le, fun j hj ht bn hbn => ?_⟩, hcell, fun b hb => ?_⟩
  · refine h.owned.congr (fun b hb => ?_) fun x => congrFun hcell x
    rw [marked_congr hsb hlow hb.2]
  · rw [marked_congr hsb hlow (hb.trans_le sb.dataStart_le), h.reserved b hb]
  · rw [hcell]
    exact h.mapped j hj ht bn hbn
  · exact hlow b (hb.trans (hsb.bmapstart_lt hmem))

/-- An inode gets a size up to which it has blocks. -/
lemma Sound.resize (h : Sound sb d din) {ip' : Dinode}
    (htype : ip'.type = (din i).type) (haddrs : ip'.addrs = (din i).addrs)
    (hle : ip'.size.toNat ≤ MAXFILE * BSIZE)
    (hmapped : ∀ bn, bn * BSIZE < ip'.size.toNat → cell sb d din (i, blockRef bn) ≠ 0) :
    Sound sb d (update din i ip') ∧
      cell sb d (update din i ip') = cell sb d din := by
  have hcell : cell sb d (update din i ip') = cell sb d din := by
    funext x
    rw [cell_update]
    by_cases hx : x.1 = i
    · rw [if_pos hx, htype, Dinode.at_congr haddrs, cell, hx]
    · rw [if_neg hx]
  refine ⟨⟨by rw [hcell]; exact h.owned, h.reserved, fun j hj ht => ?_,
    fun j hj ht bn hbn => ?_⟩, hcell⟩
  · by_cases hji : j = i
    · subst hji
      rwa [update_self]
    · rw [update_of_ne hji] at ht ⊢
      exact h.size_le j hj ht
  · rw [hcell]
    by_cases hji : j = i
    · subst hji
      rw [update_self] at hbn
      exact hmapped bn hbn
    · rw [update_of_ne hji] at ht hbn
      exact h.mapped j hj ht bn hbn

/-! ## The order of the places -/

/-- The place of block `bn` of a file has rank `bn`; the number of the indirect block comes
last. This is the order in which `itrunc` frees the blocks. -/
def Ref.rank : Ref → ℕ
  | .addr k => if k = Fin.last NDIRECT then MAXFILE else k
  | .entry j => NDIRECT + j

lemma Ref.rank_addr {k : Fin (NDIRECT + 1)} (h : k ≠ Fin.last NDIRECT) :
    (Ref.addr k).rank = k := if_neg h

@[simp] lemma Ref.rank_entry (j : Fin NINDIRECT) : (Ref.entry j).rank = NDIRECT + j := rfl

@[simp] lemma Ref.rank_indirect : Ref.indirect.rank = MAXFILE := by simp [Ref.indirect, Ref.rank]

lemma Ref.rank_addr_lt {k : Fin (NDIRECT + 1)} (h : k ≠ Fin.last NDIRECT) :
    (Ref.addr k).rank < NDIRECT := (Ref.rank_addr h).symm ▸ Fin.val_lt_last h

lemma Ref.rank_entry_lt (j : Fin NINDIRECT) : (Ref.entry j).rank < MAXFILE :=
  Nat.add_lt_add_left j.isLt NDIRECT

/-- The three kinds of places. -/
lemma Ref.cases (r : Ref) : r = .indirect ∨ (∃ k, k ≠ Fin.last NDIRECT ∧ r = .addr k) ∨
    ∃ j, r = .entry j := by
  cases r with
  | entry j => exact .inr (.inr ⟨j, rfl⟩)
  | addr k =>
    by_cases hk : k = Fin.last NDIRECT
    · exact .inl (by rw [hk, Ref.indirect])
    · exact .inr (.inl ⟨k, hk, rfl⟩)

lemma Ref.rank_le (r : Ref) : r.rank ≤ MAXFILE := by
  rcases r.cases with rfl | ⟨k, hk, rfl⟩ | ⟨j, rfl⟩
  · rw [Ref.rank_indirect]
  · exact (Ref.rank_addr_lt hk).le.trans (Nat.le_add_right ..)
  · exact (Ref.rank_entry_lt j).le

/-- Different places have different ranks. -/
lemma Ref.rank_injective : Function.Injective Ref.rank := by
  intro r r' h
  have hle : NDIRECT ≤ MAXFILE := Nat.le_add_right ..
  rcases r.cases with rfl | ⟨k, hk, rfl⟩ | ⟨j, rfl⟩ <;>
    rcases r'.cases with rfl | ⟨k', hk', rfl⟩ | ⟨j', rfl⟩
  · rfl
  · have := Ref.rank_addr_lt hk'
    rw [Ref.rank_indirect] at h
    omega
  · have := Ref.rank_entry_lt j'
    rw [Ref.rank_indirect] at h
    omega
  · have := Ref.rank_addr_lt hk
    rw [Ref.rank_indirect] at h
    omega
  · rw [Ref.rank_addr hk, Ref.rank_addr hk'] at h
    rw [Fin.ext h]
  · have := Ref.rank_addr_lt hk
    rw [Ref.rank_entry] at h
    omega
  · have := Ref.rank_entry_lt j
    rw [Ref.rank_indirect] at h
    omega
  · have := Ref.rank_addr_lt hk'
    rw [Ref.rank_entry] at h
    omega
  · rw [Ref.rank_entry, Ref.rank_entry] at h
    rw [Fin.ext (Nat.add_left_cancel h)]

@[simp]
lemma rank_blockRef (h : bn < MAXFILE) : (blockRef bn).rank = bn := by
  unfold blockRef
  unfold MAXFILE at h
  split
  case isTrue hdir =>
    have hval : ((Fin.ofNat (NDIRECT + 1) bn : Fin (NDIRECT + 1)) : ℕ) = bn :=
      Nat.mod_eq_of_lt (by omega)
    rw [Ref.rank_addr, hval]
    intro hlast
    rw [hlast, Fin.val_last] at hval
    omega
  case isFalse hdir =>
    have hval : ((Fin.ofNat NINDIRECT (bn - NDIRECT) : Fin NINDIRECT) : ℕ) = bn - NDIRECT :=
      Nat.mod_eq_of_lt (by omega)
    rw [Ref.rank_entry, hval]
    omega

lemma blockRef_ne_indirect (h : bn < MAXFILE) : blockRef bn ≠ Ref.indirect := by
  intro heq
  have := congrArg Ref.rank heq
  rw [rank_blockRef h, Ref.rank_indirect] at this
  omega

/-! ## Reading -/

lemma length_fileBytes (ip : Dinode) (d : Disk) (off n : ℕ) :
    (fileBytes ip d off n).length = n := by
  simp [fileBytes]

/-- A read in two parts. -/
lemma fileBytes_add (ip : Dinode) (d : Disk) (off m n : ℕ) :
    fileBytes ip d off (m + n) = fileBytes ip d off m ++ fileBytes ip d (off + m) n := by
  simp [fileBytes, List.range_add, Nat.add_assoc]

/-- The bytes of a file within one block. -/
lemma slice_eq_fileBytes (ip : Dinode) (d : Disk) {m : ℕ} (h : off % BSIZE + m ≤ BSIZE) :
    (d (ip.at d (blockRef (off / BSIZE)))).slice (off % BSIZE) m = fileBytes ip d off m := by
  unfold Bytes.slice fileBytes
  apply List.map_congr_left
  intro k hk
  rw [List.mem_range] at hk
  have hdiv : (off + k) / BSIZE = off / BSIZE := by
    unfold BSIZE at *
    omega
  have hmod : (off + k) % BSIZE = off % BSIZE + k := by
    unfold BSIZE at *
    omega
  rw [fileByte, hdiv, hmod]

/-- A byte of a file is in the block that its cell holds. -/
lemma fileByte_eq_cell (hi : i < sb.ninodes) (ht : (din i).type ≠ 0) (o : ℕ) :
    fileByte (din i) d o = (d (cell sb d din (i, blockRef (o / BSIZE)))).get (o % BSIZE) := by
  rw [fileByte, cell_eq hi ht]

lemma blockRef_addr (h : bn < NDIRECT) : blockRef bn = .addr (Fin.ofNat _ bn) := if_pos h

/-- `bmap` of a block that is there. -/
lemma bmap_of_mapped {D : Type} [Store D] {d : D} (hbn : bn < MAXFILE)
    (h : ip.at (Store.blocks d) (blockRef bn) ≠ 0) :
    bmap sb ip bn d = pure (ip.at (Store.blocks d) (blockRef bn), ip, d) := by
  unfold bmap
  by_cases hdir : bn < NDIRECT
  · rw [blockRef_addr hdir, Dinode.at_addr] at h ⊢
    have hne : ip.addrs (Fin.ofNat _ bn) ≠ 0 := fun h0 => h (by rw [h0]; rfl)
    rw [if_pos hdir, bmapAddr, if_neg hne]
  · have hsub : bn - NDIRECT < NINDIRECT := by
      unfold MAXFILE at hbn
      omega
    have hfin : ((Fin.ofNat NINDIRECT (bn - NDIRECT) : Fin NINDIRECT) : ℕ) = bn - NDIRECT :=
      Nat.mod_eq_of_lt hsub
    rw [blockRef_entry hdir] at h ⊢
    have hne : ip.addrs (Fin.last NDIRECT) ≠ 0 := fun h0 => h (Dinode.at_entry_of_none h0 _ _)
    have hne' : (ip.addrs (Fin.last NDIRECT)).toNat ≠ 0 := fun h0 =>
      hne (BitVec.eq_of_toNat_eq h0)
    rw [Dinode.at_entry hne, hfin] at h ⊢
    rw [if_neg hdir, if_pos hsub, bmapAddr, if_neg hne]
    dsimp only
    rw [if_neg hne', bmapEntry, if_neg h]

/-- A file has its blocks. -/
lemma Sound.at_ne_zero (h : Sound sb d din) (hi : i < sb.ninodes) (ht : (din i).type ≠ 0) {o : ℕ}
    (ho : o < (din i).size.toNat) :
    o / BSIZE < MAXFILE ∧ (din i).at d (blockRef (o / BSIZE)) ≠ 0 := by
  have hle : o / BSIZE * BSIZE ≤ o := Nat.div_mul_le_self ..
  refine ⟨?_, ?_⟩
  · have hmax := h.size_le i hi ht
    exact Nat.div_lt_of_lt_mul (by rw [Nat.mul_comm]; omega)
  · rw [← cell_eq hi ht]
    exact h.mapped i hi ht _ (hle.trans_lt ho)

/-- The loop of `readi` changes nothing, and copies the bytes of the file if it can. -/
lemma readLoop_of_mapped (dst : ℕ → Bool)
    (hmap : ∀ o, off ≤ o → o < off + n → o / BSIZE < MAXFILE ∧ ip.at d (blockRef (o / BSIZE)) ≠ 0)
    (fuel : ℕ) :
    ∀ c : Copy, c.off = off + c.tot → c.tot ≤ n → n ≤ c.tot + fuel →
    c.bytes = fileBytes ip d off c.tot → c.failed = false →
    Post E (fun r => r.2 = (ip, d) ∧ ((∀ k < n, dst k = true) →
      r.1 = ⟨n, off + n, fileBytes ip d off n, false⟩)) (readLoop sb dst n fuel c ip d) := by
  induction fuel with
  | zero =>
    rintro ⟨tot, coff, bytes, failed⟩ hoff htot hfuel hbytes hfailed
    dsimp only at hoff htot hfuel hbytes hfailed
    have htot' : tot = n := by omega
    subst htot' hoff hbytes hfailed
    exact ⟨rfl, fun _ => rfl⟩
  | succ fuel ih =>
    rintro ⟨tot, coff, bytes, failed⟩ hoff htot hfuel hbytes hfailed
    dsimp only at hoff htot hfuel hbytes hfailed
    subst hoff hbytes hfailed
    unfold readLoop
    refine Post.ite (fun hlt => ?_) fun hge => ?_
    · dsimp only at hlt
      obtain ⟨hbn, hne⟩ := hmap (off + tot) (by omega) (by omega)
      dsimp only
      rw [bmap_of_mapped (d := d) hbn hne, Store.blocks_disk]
      have hmod : (off + tot) % BSIZE < BSIZE := Nat.mod_lt _ (by decide)
      refine Post.ite (fun h0 => absurd h0 hne) fun _ => Post.ite (fun hall => ?_) fun hbad => ?_
      · rw [slice_eq_fileBytes _ _ (by omega)]
        refine ih _ ?_ ?_ ?_ ?_ rfl
        · exact Nat.add_assoc ..
        · dsimp only
          omega
        · dsimp only
          omega
        · exact (fileBytes_add ..).symm
      · refine ⟨rfl, fun hdst => absurd (List.all_eq_true.2 fun k hk => hdst _ ?_) hbad⟩
        rw [List.mem_range] at hk
        omega
    · dsimp only at hge
      have htot' : tot = n := by omega
      subst htot'
      exact ⟨rfl, fun _ => rfl⟩

/-- The number of bytes that `readi` copies. -/
def readCount (size off n : ℕ) : ℕ :=
  if size < off ∨ (off + n) % 2 ^ 32 < off then 0
  else if size < (off + n) % 2 ^ 32 then size - off else n

/-- `readi` changes nothing where the file has its blocks, and copies its bytes if it can. -/
lemma readi_of_mapped (dst : ℕ → Bool)
    (hmap : ∀ o, off ≤ o → o < off + readCount ip.size.toNat off n →
      o / BSIZE < MAXFILE ∧ ip.at d (blockRef (o / BSIZE)) ≠ 0) :
    Post E (fun r => r.2 = (ip, d) ∧ ((∀ k < readCount ip.size.toNat off n, dst k = true) →
      r.1 = ((readCount ip.size.toNat off n : ℤ),
        fileBytes ip d off (readCount ip.size.toNat off n)))) (readi sb ip dst off n d) := by
  unfold readi
  unfold readCount at hmap ⊢
  by_cases hout : ip.size.toNat < off ∨ (off + n) % 2 ^ 32 < off
  · rw [if_pos hout, if_pos hout]
    exact ⟨rfl, fun _ => rfl⟩
  · rw [if_neg hout] at hmap
    rw [if_neg hout, if_neg hout]
    refine Post.bind ((readLoop_of_mapped dst hmap _ ⟨0, off, [], false⟩ rfl (Nat.zero_le _)
      (by simp) rfl rfl).mono ?_)
    rintro ⟨c, ip', d'⟩ ⟨hsame, hc⟩
    refine ⟨hsame, fun hdst => ?_⟩
    have hc := hc hdst
    dsimp only at hc ⊢
    rw [hc]
    rfl

/-- `readi` does not read past the end. -/
lemma readCount_le {size : ℕ} (off : ℕ) (h : size < 2 ^ 32) (hn : n < 2 ^ 32) :
    readCount size off n = 0 ∨ off + readCount size off n ≤ size := by
  unfold readCount
  by_cases hout : size < off ∨ (off + n) % 2 ^ 32 < off
  · rw [if_pos hout]
    exact .inl rfl
  · rw [if_neg hout]
    have hsum : (off + n) % 2 ^ 32 = off + n := by
      by_contra hne
      omega
    rw [hsum]
    split <;> omega

/-- `readi` changes nothing, and copies the bytes of the file if it can. -/
lemma Sound.readi_post (h : Sound sb d din) (hi : i < sb.ninodes) (ht : (din i).type ≠ 0)
    (dst : ℕ → Bool) (hn : n < 2 ^ 32) :
    Post E (fun r => r.2 = (din i, d) ∧
      ((∀ k < readCount (din i).size.toNat off n, dst k = true) →
        r.1 = ((readCount (din i).size.toNat off n : ℤ),
          fileBytes (din i) d off (readCount (din i).size.toNat off n))))
      (readi sb (din i) dst off n d) := by
  refine readi_of_mapped dst fun o hge hlt => h.at_ne_zero hi ht ?_
  have hle := readCount_le off (din i).size.isLt hn
  omega

end Xv6.Fs
