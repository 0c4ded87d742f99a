import Xv6.Fs.View
import Xv6.Mkfs.Build

/-!
# The image that `mkfs` builds

For a list of files that fits, the image has these files and a root directory that names them.
It satisfies the invariants of the kernel, but for a root directory whose entries fill their
blocks.
-/

namespace Xv6.Mkfs

open Xv6.Lib
open Xv6.Disk (Block)
open Xv6.Fs
open Function (update update_of_ne update_self)

variable {d : Disk} {ip : Dinode} {s : Mk}

/-! ## The image -/

/-- What the image has to do with the files. -/
structure Image (files : List Input) (s : Mk) : Prop where
  super : s.disk 1 = sbBlock
  bitmap : ∀ b < BPB, marked sb s.disk b = decide (b < s.freeblock)
  free : ∀ i < NINODES, i = 0 ∨ files.length + 2 ≤ i → dinode sb s.disk i = .zero
  type : ∀ i, 1 ≤ i → i < files.length + 2 → (dinode sb s.disk i).type = types i
  nlink : ∀ i, 1 ≤ i → i < files.length + 2 → (dinode sb s.disk i).nlink = 1
  size : ∀ k < files.length, (dinode sb s.disk (k + 2)).size.toNat = (contents files (k + 2)).length
  rootSize : (dinode sb s.disk ROOTINO).size.toNat = ((rootBytes files).length / BSIZE + 1) * BSIZE
  holds : ∀ i, 1 ≤ i → i < files.length + 2 → Holds (dinode sb s.disk i) s.disk (contents files i)
  range : ∀ i < NINODES, ∀ r, (dinode sb s.disk i).at s.disk r ≠ 0 →
    nmeta ≤ (dinode sb s.disk i).at s.disk r ∧ (dinode sb s.disk i).at s.disk r < s.freeblock
  inj : ∀ i < NINODES, ∀ j < NINODES, ∀ r r', (dinode sb s.disk i).at s.disk r ≠ 0 →
    (dinode sb s.disk i).at s.disk r = (dinode sb s.disk j).at s.disk r' → i = j ∧ r = r'
  onto : ∀ b, nmeta ≤ b → b < s.freeblock → ∃ i < NINODES, ∃ r, (dinode sb s.disk i).at s.disk r = b
  le : s.freeblock ≤ FSSIZE

/-- `main` returns an image with the files. -/
theorem main_image {files : List Input} (hfit : Fits files) :
    ∃ s, main files = .ok s ∧ Image files s := by
  obtain ⟨s, hrun, hfree, h⟩ := main_run hfit
  refine ⟨_, hrun, ?_⟩
  have hroot : ROOTINO < NINODES := by decide
  generalize hip : ({ dinode sb s.disk ROOTINO with
    size := .ofNat 32 (((dinode sb s.disk ROOTINO).size.toNat / BSIZE + 1) * BSIZE) } : Dinode) = ip
  have hfin : s.finish =
      { s with disk := overlay s.freeblock (setDinode sb ROOTINO ip s.disk) } := by
    rw [← hip]
    rfl
  rw [hfin]
  have hdin : ∀ i < NINODES, dinode sb (overlay s.freeblock (setDinode sb ROOTINO ip s.disk)) i =
      update (dinode sb s.disk) ROOTINO ip i := by
    intro i hi
    rw [dinode_overlay hi, dinode_setDinode]
  -- only the size of the root is another one
  have hrest : ∀ i, (update (dinode sb s.disk) ROOTINO ip i).type = (dinode sb s.disk i).type ∧
      (update (dinode sb s.disk) ROOTINO ip i).nlink = (dinode sb s.disk i).nlink ∧
      (update (dinode sb s.disk) ROOTINO ip i).addrs = (dinode sb s.disk i).addrs := by
    intro i
    by_cases hi : i = ROOTINO
    · rw [hi, update_self, ← hip]
      exact ⟨rfl, rfl, rfl⟩
    · rw [update_of_ne hi]
      exact ⟨rfl, rfl, rfl⟩
  have hback : ∀ b, nmeta ≤ b → overlay s.freeblock (setDinode sb ROOTINO ip s.disk) b = s.disk b :=
    fun b hb => (overlay_of_back _ _ hb).trans (setDinode_of_back hroot _ _ hb)
  have hsame : ∀ i, 1 ≤ i → i < s.freeinode → SameBlocks (dinode sb s.disk i) s.disk
      (overlay s.freeblock (setDinode sb ROOTINO ip s.disk)) :=
    fun i h₁ h₂ r hr => hback _ (h.range h₁ h₂ hr).1
  -- the block numbers are the ones of the inodes before the size was changed
  have hat : ∀ i < NINODES, ∀ r, (update (dinode sb s.disk) ROOTINO ip i).at
      (overlay s.freeblock (setDinode sb ROOTINO ip s.disk)) r =
        (dinode sb s.disk i).at s.disk r := by
    intro i hi r
    by_cases hused : i = 0 ∨ s.freeinode ≤ i
    · rw [update_of_ne (by unfold ROOTINO; omega), h.free i hi hused, zero_at, zero_at]
    · rw [← (hsame i (by omega) (by omega)).at_eq, Dinode.at_congr (hrest i).2.2]
  have hlen := (h.used ROOTINO le_rfl (by unfold ROOTINO; omega)).size
  have hinodes := h.inodes.2
  refine ⟨?_, fun b hb => marked_overlay h.le hb, fun i hi hout => ?_, fun i h₁ h₂ => ?_,
    fun i h₁ h₂ => ?_, fun k hk => ?_, ?_, fun i h₁ h₂ => ?_, fun i hi r hr => ?_,
    fun i hi j hj r r' hr heq => ?_, fun b hb hb' => ?_, h.le⟩
  · dsimp only
    rw [overlay_of_ne (by decide), super_setDinode, h.super]
  · dsimp only
    rw [hdin i hi, update_of_ne (by unfold ROOTINO; omega), h.free i hi (by omega)]
  · dsimp only
    rw [hdin i (by omega), (hrest i).1]
    exact (h.used i h₁ (by omega)).type
  · dsimp only
    rw [hdin i (by omega), (hrest i).2.1]
    exact (h.used i h₁ (by omega)).nlink
  · dsimp only
    rw [hdin _ (by omega), update_of_ne (by unfold ROOTINO; omega)]
    exact (h.used (k + 2) (by omega) (by omega)).size
  · have hsmall := hfit.root
    have hmax : MAXFILE * BSIZE = 274432 := by decide
    have hlen : (dinode sb s.disk ROOTINO).size.toNat = (rootBytes files).length := hlen
    dsimp only
    rw [hdin _ hroot, update_self, ← hip, hlen, BitVec.toNat_ofNat, Nat.mod_eq_of_lt]
    unfold BSIZE at *
    omega
  · have hfile := (h.used i h₁ (by omega)).congr (hsame i h₁ (by omega))
    dsimp only
    rw [hdin i (by omega)]
    exact hfile.holds.congr_addrs (hrest i).2.2
  · dsimp only at hr ⊢
    rw [hdin i hi, hat i hi] at hr ⊢
    obtain ⟨h₁, h₂⟩ := h.used_of_at hi hr
    exact h.range h₁ h₂ hr
  · dsimp only at hr heq
    rw [hdin i hi, hat i hi] at hr heq
    rw [hdin j hj, hat j hj] at heq
    obtain ⟨hi₁, hi₂⟩ := h.used_of_at hi hr
    obtain ⟨hj₁, hj₂⟩ := h.used_of_at hj (heq ▸ hr)
    exact Prod.mk.inj (inj_of_sound h.sound hi (h.type_ne hi₁ hi₂) hj (h.type_ne hj₁ hj₂) hr heq)
  · have hmarked : marked sb (overlay s.freeblock s.disk) b = true := by
      rw [marked_overlay h.le (hb'.trans_le (h.le.trans (by decide))), decide_eq_true_eq]
      exact hb'
    obtain ⟨⟨i, r⟩, hx⟩ := (h.sound.owned.used_iff b ⟨hb, hb'.trans_le h.le⟩).1 hmarked
    by_cases hi : i < NINODES ∧ (dinode sb s.disk i).type ≠ 0
    · rw [cell_overlay h.sound hi.1 hi.2] at hx
      refine ⟨i, hi.1, r, ?_⟩
      dsimp only
      rw [hdin i hi.1, hat i hi.1, hx]
    · have hb : 46 ≤ b := hb
      have hzero : cell sb (overlay s.freeblock s.disk) (dinode sb s.disk) (i, r) = 0 := if_neg hi
      omega

/-! ## The invariants of the kernel

The root directory gets a size that is a multiple of the block size and larger than what was
written to it. If its entries fill their blocks, the last block is missing. -/

/-- What the kernel relies on, and the entries of the root directory. -/
structure Consistent (files : List Input) (s : Mk) : Prop where
  mapped : ∀ i < NINODES, ∀ bn, bn * BSIZE < (dinode sb s.disk i).size.toNat →
    (dinode sb s.disk i).at s.disk (blockRef bn) ≠ 0
  range : ∀ i < NINODES, ∀ r, (dinode sb s.disk i).at s.disk r ≠ 0 →
    nmeta ≤ (dinode sb s.disk i).at s.disk r ∧ (dinode sb s.disk i).at s.disk r < s.freeblock
  distinct : ∀ i < NINODES, ∀ j < NINODES, ∀ r r', (dinode sb s.disk i).at s.disk r ≠ 0 →
    (dinode sb s.disk i).at s.disk r = (dinode sb s.disk j).at s.disk r' → i = j ∧ r = r'
  bitmap : ∀ b < BPB, marked sb s.disk b = true ↔ b < s.freeblock
  rootType : (dinode sb s.disk ROOTINO).type = T_DIR
  entries : ∀ k < slots (dinode sb s.disk ROOTINO).size,
    direntAt (dinode sb s.disk ROOTINO) s.disk k = (rootEntries files).getD k .zero

lemma Holds.fileBytes_eq {bs : List UInt8} (h : Holds ip d bs) {off n : ℕ}
    (hle : off + n ≤ bs.length) : fileBytes ip d off n = (bs.drop off).take n := by
  apply List.ext_getElem?
  intro k
  by_cases hk : k < n
  · rw [fileBytes, List.getElem?_map, List.getElem?_range hk, List.getElem?_take_of_lt hk,
      List.getElem?_drop, h.bytes _ (by omega), Option.map_some]
  · rw [List.getElem?_eq_none (by rw [length_fileBytes]; omega),
      List.getElem?_eq_none (by rw [List.length_take]; omega)]

/-- An entry of the root directory. -/
lemma Image.direntAt_eq {files : List Input} (h : Image files s) {k : ℕ}
    (hk : k < (rootEntries files).length) :
    direntAt (dinode sb s.disk ROOTINO) s.disk k = (rootEntries files)[k] := by
  have hlen : ∀ de ∈ rootEntries files, de.encode.length = DIRENT := fun de hde =>
    Dirent.length_encode (length_name_rootEntries hde)
  have hk' := hk
  rw [length_rootEntries] at hk'
  have hfit : DIRENT * k + DIRENT ≤ (rootBytes files).length := by
    rw [length_rootBytes, ← Nat.mul_succ]
    exact Nat.mul_le_mul_left _ hk'
  have hbytes := (h.holds ROOTINO le_rfl (by unfold ROOTINO; omega)).fileBytes_eq hfit
  have hhead : ((rootBytes files).drop (DIRENT * k)).take DIRENT =
      (rootEntries files)[k].encode := by
    rw [rootBytes, drop_flatMap hlen, List.drop_eq_getElem_cons hk, List.flatMap_cons,
      ← hlen _ (List.getElem_mem hk), List.take_left]
  rw [direntAt, hbytes.trans hhead, Dirent.decode_encode]

/-- The rest of the root directory is empty. -/
lemma Image.direntAt_zero {files : List Input} (h : Image files s) {k : ℕ}
    (hk : files.length + 2 ≤ k) (hbn : DIRENT * k / BSIZE < MAXFILE)
    (hne : (dinode sb s.disk ROOTINO).at s.disk (blockRef (DIRENT * k / BSIZE)) ≠ 0) :
    direntAt (dinode sb s.disk ROOTINO) s.disk k = .zero := by
  have hholds := h.holds ROOTINO le_rfl (by unfold ROOTINO; omega)
  have hzero : fileBytes (dinode sb s.disk ROOTINO) s.disk (DIRENT * k) DIRENT =
      List.replicate DIRENT 0 := by
    rw [List.eq_replicate_iff]
    refine ⟨length_fileBytes .., fun v hv => ?_⟩
    obtain ⟨j, hj, rfl⟩ := List.mem_map.1 hv
    rw [List.mem_range] at hj
    have hblock : (DIRENT * k + j) / BSIZE = DIRENT * k / BSIZE := by
      unfold DIRENT BSIZE at *
      omega
    refine hholds.exact.tail _ ?_ (by rwa [hblock]) (by rwa [hblock])
    show (rootBytes files).length ≤ _
    rw [length_rootBytes]
    exact (Nat.mul_le_mul_left _ hk).trans (Nat.le_add_right ..)
  rw [direntAt, hzero]
  decide

/-- The root directory has its blocks if its last block is not full. -/
lemma Image.root_mapped {files : List Input} (h : Image files s)
    (hfull : (files.length + 2) % (BSIZE / DIRENT) ≠ 0) {bn : ℕ}
    (hbn : bn * BSIZE < (dinode sb s.disk ROOTINO).size.toNat) :
    bn < MAXFILE ∧ (dinode sb s.disk ROOTINO).at s.disk (blockRef bn) ≠ 0 := by
  have hholds := h.holds ROOTINO le_rfl (by unfold ROOTINO; omega)
  have hlen : (contents files ROOTINO).length = DIRENT * (files.length + 2) :=
    length_rootBytes files
  have hle := hholds.le
  rw [h.rootSize, length_rootBytes] at hbn
  have hlt : bn * BSIZE < (contents files ROOTINO).length := by
    rw [hlen]
    unfold DIRENT BSIZE at *
    omega
  have hmax : bn < MAXFILE := by
    unfold BSIZE at *
    omega
  exact ⟨hmax, (hholds.exact.block bn hmax).2 hlt⟩

/-- If the entries fill their blocks, the block behind them is missing. -/
lemma Image.root_hole {files : List Input} (h : Image files s) (hfit : Fits files)
    (hfull : (files.length + 2) % (BSIZE / DIRENT) = 0) :
    (files.length + 2) / (BSIZE / DIRENT) * BSIZE < (dinode sb s.disk ROOTINO).size.toNat ∧
      (dinode sb s.disk ROOTINO).at s.disk
        (blockRef ((files.length + 2) / (BSIZE / DIRENT))) = 0 := by
  have hinodes := hfit.inodes
  have hlen : (contents files ROOTINO).length = DIRENT * (files.length + 2) :=
    length_rootBytes files
  have hmax : (files.length + 2) / (BSIZE / DIRENT) < MAXFILE := by
    unfold NINODES at hinodes
    unfold MAXFILE NDIRECT NINDIRECT DIRENT BSIZE
    omega
  have hholds := h.holds ROOTINO le_rfl (by unfold ROOTINO; omega)
  constructor
  · rw [h.rootSize, length_rootBytes]
    unfold DIRENT BSIZE at *
    omega
  · by_contra hne
    have hlt := (hholds.exact.block _ hmax).1 hne
    rw [hlen] at hlt
    unfold DIRENT BSIZE at *
    omega

namespace Image

variable {files : List Input} {i : ℕ} (h : Image files s)
include h

lemma used (hi : i < NINODES) (hne : dinode sb s.disk i ≠ .zero) :
    1 ≤ i ∧ i < files.length + 2 := by
  by_contra hout
  exact hne (h.free i hi (by omega))

lemma used_of_at (hi : i < NINODES) {r : Ref} (hr : (dinode sb s.disk i).at s.disk r ≠ 0) :
    1 ≤ i ∧ i < files.length + 2 :=
  h.used hi fun h0 => hr (by rw [h0, zero_at])

lemma used_of_type (hi : i < NINODES) (ht : (dinode sb s.disk i).type ≠ 0) :
    1 ≤ i ∧ i < files.length + 2 :=
  h.used hi fun h0 => ht (by rw [h0]; rfl)

lemma type_ne (h₁ : 1 ≤ i) (h₂ : i < files.length + 2) : (dinode sb s.disk i).type ≠ 0 := by
  rw [h.type i h₁ h₂, types]
  split <;> decide

/-- A file has all its blocks. -/
lemma mapped (hfull : (files.length + 2) % (BSIZE / DIRENT) ≠ 0) (h₁ : 1 ≤ i)
    (h₂ : i < files.length + 2) {bn : ℕ} (hbn : bn * BSIZE < (dinode sb s.disk i).size.toNat) :
    (dinode sb s.disk i).at s.disk (blockRef bn) ≠ 0 := by
  by_cases hroot : i = ROOTINO
  · subst hroot
    exact (h.root_mapped hfull hbn).2
  · obtain ⟨k, rfl⟩ : ∃ k, i = k + 2 := ⟨i - 2, by unfold ROOTINO at hroot; omega⟩
    have hholds := h.holds (k + 2) h₁ h₂
    have hle := hholds.le
    rw [h.size k (by omega)] at hbn
    refine (hholds.exact.block bn ?_).2 hbn
    unfold BSIZE at *
    omega

end Image

/-- For every list of files that fits, `main` returns an image, and it satisfies the invariants
exactly if the entries of the root directory do not fill their last block. -/
theorem main_consistent {files : List Input} (hfit : Fits files) :
    ∃ s, main files = .ok s ∧
      (Consistent files s ↔ (files.length + 2) % (BSIZE / DIRENT) ≠ 0) := by
  obtain ⟨s, hrun, h⟩ := main_image hfit
  refine ⟨s, hrun, fun hcons hfull => ?_, fun hfull => ?_⟩
  · obtain ⟨hsize, hhole⟩ := h.root_hole hfit hfull
    exact hcons.mapped ROOTINO (by decide) _ hsize hhole
  refine ⟨fun i hi bn hbn => ?_, h.range, h.inj, fun b hb => ?_, ?_, fun k hk => ?_⟩
  · obtain ⟨h₁, h₂⟩ := h.used hi fun h0 => absurd (h0 ▸ hbn) (Nat.not_lt_zero _)
    exact h.mapped hfull h₁ h₂ hbn
  · rw [h.bitmap b hb, decide_eq_true_eq]
  · exact h.type ROOTINO le_rfl (by unfold ROOTINO; omega)
  · by_cases hin : k < (rootEntries files).length
    · rw [h.direntAt_eq hin, List.getD_eq_getElem?_getD, List.getElem?_eq_getElem hin,
        Option.getD_some]
    · have hout := hin
      rw [length_rootEntries] at hout
      have hlt : DIRENT * k / BSIZE * BSIZE < (dinode sb s.disk ROOTINO).size.toNat := by
        have hsize := h.rootSize
        unfold slots at hk
        unfold DIRENT BSIZE at *
        omega
      obtain ⟨hbn, hne⟩ := h.root_mapped hfull hlt
      rw [h.direntAt_zero (by omega) hbn hne, List.getD_eq_getElem?_getD,
        List.getElem?_eq_none (by omega), Option.getD_none]

/-- One file with one byte. -/
theorem main_consistent_one :
    Fits [⟨[97], some [[1]]⟩] ∧ ∃ s, main [⟨[97], some [[1]]⟩] = .ok s ∧
      Consistent [⟨[97], some [[1]]⟩] s := by
  have hfit : Fits [⟨[97], some [[1]]⟩] :=
    ⟨by decide, by decide, by decide, by decide, by decide⟩
  obtain ⟨s, hrun, hcons⟩ := main_consistent hfit
  exact ⟨hfit, s, hrun, hcons.2 (by decide)⟩

/-- The names of the files in the image. -/
def names (files : List Input) : List Name := files.map fun f => cstr DIRSIZ (shortName f.arg)

/-- So many empty files that the entries of the root directory fill one block. -/
def manyFiles : List Input := (List.range 62).map fun k => ⟨[.ofNat (k + 128)], some []⟩

/-- The root directory then has a size of two blocks, and its second block is missing. -/
theorem main_manyFiles : Fits manyFiles ∧ (names manyFiles).Nodup ∧ ∃ s, main manyFiles = .ok s ∧
    (dinode sb s.disk ROOTINO).size.toNat = 2 * BSIZE ∧
    (dinode sb s.disk ROOTINO).at s.disk (blockRef 1) = 0 := by
  have hfit : Fits manyFiles := ⟨by decide, by decide, by decide, by decide, by decide⟩
  obtain ⟨s, hrun, h⟩ := main_image hfit
  refine ⟨hfit, by decide, s, hrun, ?_, (h.root_hole hfit (by decide)).2⟩
  rw [h.rootSize, length_rootBytes]
  rfl

end Xv6.Mkfs
