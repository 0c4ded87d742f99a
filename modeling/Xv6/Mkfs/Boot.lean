import Xv6.Fs.Runs
import Xv6.Mkfs.Mount

/-!
# Booting from the image that `mkfs` builds

The image is one that the kernel can use, so that everything that holds between two calls holds
in a system that was booted from it.
-/

namespace Xv6.Mkfs

open Xv6.Lib
open Xv6.Fs

variable {files : List Input} {s : Mk} {i : ℕ}

namespace Image

variable (h : Image files s)
include h

lemma cell_eq (hi : i < NINODES) (r : Ref) :
    cell sb s.disk (dinode sb s.disk) (i, r) = (dinode sb s.disk i).at s.disk r := by
  by_cases ht : (dinode sb s.disk i).type = 0
  · rw [cell, if_neg (by simp [ht])]
    by_contra hr
    obtain ⟨h₁, h₂⟩ := h.used_of_at hi (Ne.symm hr)
    exact h.type_ne h₁ h₂ ht
  · exact if_pos ⟨hi, ht⟩

/-- A file is no longer than its blocks. -/
lemma size_le (hfit : Fits files) (h₁ : 1 ≤ i) (h₂ : i < files.length + 2) :
    (dinode sb s.disk i).size.toNat ≤ MAXFILE * BSIZE := by
  have hle := (h.holds i h₁ h₂).le
  by_cases hroot : i = ROOTINO
  · have hinodes := hfit.inodes
    rw [hroot, h.rootSize, length_rootBytes]
    unfold NINODES at hinodes
    unfold MAXFILE NDIRECT NINDIRECT DIRENT BSIZE
    omega
  · obtain ⟨k, rfl⟩ : ∃ k, i = k + 2 := ⟨i - 2, by unfold ROOTINO at hroot; omega⟩
    rwa [h.size k (by omega)]

/-- The free map agrees with the files, and no file has a hole. -/
lemma sound (hfit : Fits files) (hfull : (files.length + 2) % (BSIZE / DIRENT) ≠ 0) :
    Sound sb s.disk (dinode sb s.disk) := by
  have hcell : ∀ x, cell sb s.disk (dinode sb s.disk) x ≠ 0 → x.1 < NINODES ∧
      (dinode sb s.disk x.1).at s.disk x.2 = cell sb s.disk (dinode sb s.disk) x := by
    intro x hx
    have hi : x.1 < NINODES := by
      by_contra hi
      exact hx (if_neg fun hc => hi hc.1)
    exact ⟨hi, (h.cell_eq hi x.2).symm⟩
  have hle := h.le
  refine ⟨⟨fun h0 => absurd h0.1 (by decide), fun x hx => ?_, fun x y hx hxy => ?_, fun b hb => ?_⟩,
    fun b hb => ?_, fun i hi ht => ?_, fun i hi ht bn hbn => ?_⟩
  · obtain ⟨hi, heq⟩ := hcell x hx
    rw [← heq] at hx ⊢
    obtain ⟨hlow, hhigh⟩ := h.range _ hi _ hx
    exact ⟨hlow, hhigh.trans_le hle⟩
  · obtain ⟨hi, heq⟩ := hcell x hx
    obtain ⟨hj, heq'⟩ := hcell y (hxy ▸ hx)
    rw [← heq] at hx
    obtain ⟨hij, hr⟩ := h.inj _ hi _ hj _ _ hx (heq.trans (hxy.trans heq'.symm))
    exact Prod.ext hij hr
  · have hlt : b < BPB := hb.2.trans (by decide)
    rw [h.bitmap b hlt, decide_eq_true_eq]
    constructor
    · intro hb'
      obtain ⟨i, hi, r, hr⟩ := h.onto b hb.1 hb'
      exact ⟨(i, r), (h.cell_eq hi r).trans hr⟩
    · rintro ⟨x, rfl⟩
      have hne : cell sb s.disk (dinode sb s.disk) x ≠ 0 := by
        intro h0
        have hlow : 46 ≤ cell sb s.disk (dinode sb s.disk) x := hb.1
        omega
      obtain ⟨hi, heq⟩ := hcell x hne
      rw [← heq] at hne ⊢
      exact (h.range _ hi _ hne).2
  · -- the root directory has a block behind the free map
    have hroot : (dinode sb s.disk ROOTINO).at s.disk (blockRef 0) ≠ 0 := by
      refine h.mapped (i := ROOTINO) hfull le_rfl (by unfold ROOTINO; omega) ?_
      rw [h.rootSize, Nat.zero_mul]
      exact Nat.mul_pos (Nat.succ_pos _) (by decide)
    have hlow := h.range ROOTINO (by decide) _ hroot
    have hb : b < nmeta := hb
    rw [h.bitmap b (hb.trans (by decide)), decide_eq_true_eq]
    omega
  · obtain ⟨h₁, h₂⟩ := h.used_of_type hi ht
    exact h.size_le hfit h₁ h₂
  · obtain ⟨h₁, h₂⟩ := h.used_of_type hi ht
    rw [h.cell_eq hi]
    exact h.mapped hfull h₁ h₂ hbn

lemma root_proper (hfit : Fits files) (hfull : (files.length + 2) % (BSIZE / DIRENT) ≠ 0) :
    ((dinode sb s.disk ROOTINO).node s.disk).Proper sb := by
  refine ⟨?_, fun k hk => ?_⟩
  · unfold Node.Whole
    rw [Dinode.length_node_data, h.rootSize]
    exact Dvd.dvd.mul_left (by decide) _
  · have hsize : DIRENT * k + DIRENT ≤ (dinode sb s.disk ROOTINO).size.toNat := by
      rw [Node.slots, Dinode.length_node_data] at hk
      unfold DIRENT at *
      omega
    rw [Dinode.node_entry hsize]
    by_cases hin : k < (rootEntries files).length
    · rw [h.direntAt_eq hin]
      have hmem := List.getElem_mem hin
      generalize (rootEntries files)[k] = de at hmem
      simp only [rootEntries, List.mem_append, List.mem_cons, List.not_mem_nil, or_false,
        List.mem_mapIdx] at hmem
      obtain (rfl | rfl) | ⟨j, hj, rfl⟩ := hmem
      · decide
      · decide
      · have hinodes := hfit.inodes
        rw [BitVec.toNat_ofNat, Nat.mod_eq_of_lt (by unfold NINODES at hinodes; omega)]
        show j + 2 < NINODES
        omega
    · rw [length_rootEntries] at hin
      have hlt : DIRENT * k / BSIZE * BSIZE < (dinode sb s.disk ROOTINO).size.toNat := by
        unfold DIRENT BSIZE at *
        omega
      obtain ⟨hbn, hne⟩ := h.root_mapped hfull hlt
      rw [h.direntAt_zero (by omega) hbn hne]
      decide

lemma formatted (hfit : Fits files) (hfull : (files.length + 2) % (BSIZE / DIRENT) ≠ 0) :
    Formatted s.disk := by
  have hroot := h.type_ne (i := ROOTINO) le_rfl (by unfold ROOTINO; omega)
  refine ⟨?_, ?_, fun i n hn hd => ?_, ?_, fun i n hn => ?_⟩ <;> rw [h.readsb_eq] at *
  · exact sb_wellFormed
  · exact h.sound hfit hfull
  · obtain ⟨hi, ht, rfl⟩ := view_eq_some.1 hn
    obtain ⟨h₁, h₂⟩ := h.used_of_type hi ht
    have hroot : i = ROOTINO := by
      by_contra hne
      have htype : (dinode sb s.disk i).type = T_DIR := hd
      rw [h.type i h₁ h₂, types, if_neg hne] at htype
      exact absurd htype (by decide)
    subst hroot
    exact h.root_proper hfit hfull
  · intro hnone
    rw [view, if_pos ⟨by decide, hroot⟩] at hnone
    cases hnone
  · obtain ⟨hi, ht, rfl⟩ := view_eq_some.1 hn
    obtain ⟨h₁, h₂⟩ := h.used_of_type hi ht
    show (dinode sb s.disk i).nlink ≠ 0
    rw [h.nlink i h₁ h₂]
    decide

end Image

/-- A system booted from an image that `mkfs` built of files that fit: after any calls of any
processes the free map agrees with the files, what processes and files refer to is allocated,
and the next call is stopped by no other panic than those of `Stuck`. -/
theorem mkfs_boots (hfit : Fits files) (hfull : (files.length + 2) % (BSIZE / DIRENT) ≠ 0) :
    ∃ m, main files = .ok m ∧ ∀ s, Reachable m.disk s → BlockMap s.sb s.disk ∧
      (∀ e, s.Refers e → view s.sb s.disk (s.itable e).inum ≠ none) ∧
      ∀ p c err, call p c s = .error err → Stuck s err := by
  obtain ⟨m, hrun, h⟩ := main_image hfit
  refine ⟨m, hrun, fun s hs => ?_⟩
  obtain ⟨hsettled, hquiet, -, -⟩ := reachable_settled (h.formatted hfit hfull) hs
  exact ⟨hsettled.inv.sound.blockMap, fun e he => hsettled.alive he,
    fun p c err herr => hsettled.stuck hquiet herr⟩

theorem mkfs_boots_one : ∃ m, main [⟨[97], some [[1]]⟩] = .ok m ∧
    ∀ s, Reachable m.disk s → BlockMap s.sb s.disk := by
  have hfit : Fits [⟨[97], some [[1]]⟩] := ⟨by decide, by decide, by decide, by decide, by decide⟩
  obtain ⟨m, hrun, h⟩ := mkfs_boots hfit (by decide)
  exact ⟨m, hrun, fun s hs => (h s hs).1⟩

end Xv6.Mkfs
