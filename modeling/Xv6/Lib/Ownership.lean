import Mathlib.Data.Set.Basic
import Mathlib.Logic.Function.Basic
import Mathlib.Logic.Equiv.Defs
import Mathlib.Logic.ExistsUnique

/-!
# Allocated resources and the cells that hold them

An allocator marks the elements of a pool `D` that are in use, and the rest of a program
keeps the elements it got in cells, a cell without one being `0`. `Owned D used cell` says
that the two agree: each element in use is in one cell, and each element that is not in
use is in none. Allocating into an empty cell and freeing what a cell holds keep this.
-/

namespace Xv6.Lib

open Function (update update_of_ne update_self comp_apply)

variable {ι β : Type*} [Zero β]

/-- The marks of the pool `D` agree with the contents of the cells. -/
structure Owned (D : Set β) (used : β → Prop) (cell : ι → β) : Prop where
  zero_notMem : 0 ∉ D
  mem : ∀ x, cell x ≠ 0 → cell x ∈ D
  inj : ∀ x y, cell x ≠ 0 → cell x = cell y → x = y
  used_iff : ∀ b ∈ D, used b ↔ ∃ x, cell x = b

namespace Owned

variable {D : Set β} {used used' : β → Prop} {cell cell' : ι → β} {b : β} {x y : ι}

lemma ne_zero_of_mem (h : Owned D used cell) (hb : b ∈ D) : b ≠ 0 :=
  ne_of_mem_of_not_mem hb h.zero_notMem

/-- What a cell holds is in use. -/
lemma used_cell (h : Owned D used cell) (hx : cell x ≠ 0) : used (cell x) :=
  (h.used_iff _ (h.mem x hx)).2 ⟨x, rfl⟩

/-- No cell holds an element that is not in use. -/
lemma cell_ne (h : Owned D used cell) (hb : b ∈ D) (hfree : ¬used b) (x : ι) : cell x ≠ b := by
  intro hx
  exact hfree ((h.used_iff b hb).2 ⟨x, hx⟩)

lemma congr (h : Owned D used cell) (hused : ∀ b ∈ D, used' b ↔ used b)
    (hcell : ∀ x, cell' x = cell x) : Owned D used' cell' where
  zero_notMem := h.zero_notMem
  mem x := hcell x ▸ h.mem x
  inj x y := hcell x ▸ hcell y ▸ h.inj x y
  used_iff b hb := by simp only [hcell, hused b hb, h.used_iff b hb]

variable [DecidableEq ι]

section Update

variable (h : Owned D used cell)

include h

/-- A free element is marked and put into an empty cell. -/
lemma fill (hx : cell x = 0) (hb : b ∈ D) (hfree : ¬used b)
    (hused : ∀ c ∈ D, used' c ↔ c = b ∨ used c) : Owned D used' (update cell x b) where
  zero_notMem := h.zero_notMem
  mem y hy := by
    by_cases hyx : y = x
    · simpa [hyx] using hb
    · simp only [update_of_ne hyx] at hy ⊢
      exact h.mem y hy
  inj y z hy hyz := by
    have hne := h.cell_ne hb hfree
    by_cases hyx : y = x <;> by_cases hzx : z = x
    · rw [hyx, hzx]
    · simp only [hyx, update_self, update_of_ne hzx] at hyz
      exact absurd hyz.symm (hne z)
    · simp only [hzx, update_self, update_of_ne hyx] at hyz
      exact absurd hyz (hne y)
    · simp only [update_of_ne hyx, update_of_ne hzx] at hy hyz
      exact h.inj y z hy hyz
  used_iff c hc := by
    rw [hused c hc]
    constructor
    · rintro (rfl | hcu)
      · exact ⟨x, update_self ..⟩
      · obtain ⟨y, rfl⟩ := (h.used_iff c hc).1 hcu
        have hyx : y ≠ x := by
          rintro rfl
          exact h.ne_zero_of_mem hc hx
        exact ⟨y, update_of_ne hyx ..⟩
    · rintro ⟨y, rfl⟩
      by_cases hyx : y = x
      · exact .inl (by rw [hyx, update_self])
      · rw [update_of_ne hyx] at hc ⊢
        exact .inr ((h.used_iff _ hc).2 ⟨y, rfl⟩)

/-- The element in a cell is freed and the cell cleared. -/
lemma clear (hx : cell x ≠ 0) (hused : ∀ c ∈ D, used' c ↔ c ≠ cell x ∧ used c) :
    Owned D used' (update cell x 0) where
  zero_notMem := h.zero_notMem
  mem y hy := by
    by_cases hyx : y = x
    · simp [hyx] at hy
    · simp only [update_of_ne hyx] at hy ⊢
      exact h.mem y hy
  inj y z hy hyz := by
    by_cases hyx : y = x
    · simp [hyx] at hy
    · rw [update_of_ne hyx] at hy hyz
      by_cases hzx : z = x
      · rw [hzx, update_self] at hyz
        exact absurd hyz hy
      · rw [update_of_ne hzx] at hyz
        exact h.inj y z hy hyz
  used_iff c hc := by
    rw [hused c hc, h.used_iff c hc]
    constructor
    · rintro ⟨hcx, y, rfl⟩
      have hyx : y ≠ x := by
        rintro rfl
        exact hcx rfl
      exact ⟨y, update_of_ne hyx ..⟩
    · rintro ⟨y, rfl⟩
      by_cases hyx : y = x
      · rw [hyx, update_self] at hc
        exact absurd hc h.zero_notMem
      · rw [update_of_ne hyx] at hc ⊢
        refine ⟨fun hyz => hyx ?_, y, rfl⟩
        exact h.inj y x (hyz ▸ hx) hyz

/-- The element in a cell moves to an empty one. -/
lemma move (hxy : x ≠ y) (hx : cell x ≠ 0) (hy : cell y = 0) :
    Owned D used (update (update cell x 0) y (cell x)) := by
  have hclear : Owned D (fun c => c ≠ cell x ∧ used c) (update cell x 0) :=
    h.clear hx fun _ _ => Iff.rfl
  have hempty : update cell x 0 y = 0 := by rwa [update_of_ne hxy.symm]
  refine hclear.fill hempty (h.mem x hx) (fun hu => hu.1 rfl) fun c _ => ?_
  by_cases hc : c = cell x
  · simp [hc, h.used_cell hx]
  · simp [hc]

omit [DecidableEq ι] in
/-- An element is in use exactly if one cell, and only one, holds it. -/
lemma used_iff_existsUnique (hb : b ∈ D) : used b ↔ ∃! x, cell x = b := by
  rw [h.used_iff b hb]
  refine ⟨fun ⟨x, hx⟩ => ⟨x, hx, fun y hy => ?_⟩, fun h => h.exists⟩
  have hne : cell y ≠ 0 := hy ▸ h.ne_zero_of_mem hb
  exact h.inj y x hne (hy.trans hx.symm)

end Update

/-! ## Some of the cells

A part of the program works with some of the cells only, those in the range of `e`. For it
the pool has just the elements that no other cell holds. -/

section Focus

variable {κ : Type*} {e : κ → ι}

/-- The elements that no cell outside the range of `e` holds. -/
def within (D : Set β) (cell : ι → β) (e : κ → ι) : Set β :=
  {b ∈ D | ∀ x, (∀ y, e y ≠ x) → cell x ≠ b}

omit [DecidableEq ι] in
lemma focus (h : Owned D used cell) (he : Function.Injective e) :
    Owned (within D cell e) used (cell ∘ e) where
  zero_notMem hz := h.zero_notMem hz.1
  mem y hy := by
    refine ⟨h.mem _ hy, fun x hx heq => ?_⟩
    exact hx y (h.inj _ _ hy heq.symm)
  inj y z hy hyz := he (h.inj _ _ hy hyz)
  used_iff b hb := by
    rw [h.used_iff b hb.1]
    refine ⟨fun ⟨x, hx⟩ => ?_, fun ⟨y, hy⟩ => ⟨e y, hy⟩⟩
    by_contra hnone
    exact hb.2 x (fun y hy => hnone ⟨y, by rw [comp_apply, hy, hx]⟩) hx

omit [DecidableEq ι] in
/-- The other cells keep what they hold. -/
lemma unfocus (h : Owned D used cell) {cell₁ : κ → β} (h₁ : Owned (within D cell e) used' cell₁)
    (hused : ∀ b ∈ D, b ∉ within D cell e → used' b) (hin : ∀ y, cell' (e y) = cell₁ y)
    (hout : ∀ x, (∀ y, e y ≠ x) → cell' x = cell x) : Owned D used' cell' where
  zero_notMem := h.zero_notMem
  mem x hx := by
    by_cases hrange : ∃ y, e y = x
    · obtain ⟨y, rfl⟩ := hrange
      rw [hin] at hx ⊢
      exact (h₁.mem y hx).1
    · rw [hout x (by simpa using hrange)] at hx ⊢
      exact h.mem x hx
  inj x z hx hxz := by
    by_cases hxe : ∃ y, e y = x <;> by_cases hze : ∃ y, e y = z
    · obtain ⟨y, rfl⟩ := hxe
      obtain ⟨w, rfl⟩ := hze
      rw [hin] at hx
      rw [hin, hin] at hxz
      rw [h₁.inj y w hx hxz]
    · obtain ⟨y, rfl⟩ := hxe
      rw [hin] at hx
      rw [hin, hout z (by simpa using hze)] at hxz
      exact absurd hxz.symm ((h₁.mem y hx).2 z (by simpa using hze))
    · obtain ⟨w, rfl⟩ := hze
      have hx' := hxz ▸ hx
      rw [hin] at hx'
      rw [hin, hout x (by simpa using hxe)] at hxz
      exact absurd hxz ((h₁.mem w hx').2 x (by simpa using hxe))
    · rw [hout x (by simpa using hxe)] at hx
      rw [hout x (by simpa using hxe), hout z (by simpa using hze)] at hxz
      exact h.inj x z hx hxz
  used_iff b hb := by
    by_cases hin' : b ∈ within D cell e
    · rw [h₁.used_iff b hin']
      refine ⟨fun ⟨y, hy⟩ => ⟨e y, by rw [hin, hy]⟩, fun ⟨x, hx⟩ => ?_⟩
      by_contra hnone
      have hxe : ∀ y, e y ≠ x := by
        rintro y rfl
        exact hnone ⟨y, by rw [← hin, hx]⟩
      rw [hout x hxe] at hx
      exact hin'.2 x hxe hx
    · refine ⟨fun _ => ?_, fun _ => hused b hb hin'⟩
      have hex : ∃ x, (∀ y, e y ≠ x) ∧ cell x = b := by
        by_contra hnone
        exact hin' ⟨hb, fun x hx heq => hnone ⟨x, hx, heq⟩⟩
      obtain ⟨x, hx, heq⟩ := hex
      exact ⟨x, by rw [hout x hx, heq]⟩

omit [DecidableEq ι] in
/-- The cells get other names. -/
lemma rename (h : Owned D used cell) (σ : κ ≃ ι) : Owned D used (cell ∘ σ) where
  zero_notMem := h.zero_notMem
  mem y hy := h.mem _ hy
  inj y z hy hyz := σ.injective (h.inj _ _ hy hyz)
  used_iff b hb := by
    rw [h.used_iff b hb]
    exact ⟨fun ⟨x, hx⟩ => ⟨σ.symm x, by simpa using hx⟩, fun ⟨y, hy⟩ => ⟨σ y, hy⟩⟩

end Focus

end Owned

end Xv6.Lib
