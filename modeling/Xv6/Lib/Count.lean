import Mathlib.Algebra.BigOperators.Group.Finset.Basic
import Mathlib.Algebra.BigOperators.Pi
import Mathlib.Algebra.Order.Group.Int
import Mathlib.Algebra.Order.Pi
import Mathlib.Algebra.Ring.Int.Defs
import Mathlib.Data.Fintype.Prod

/-!
# Counting references

A reference count is a sum over all places that may hold a reference. These lemmas follow such
a sum when one place changes.
-/

namespace Xv6.Lib

open Function (update update_of_ne update_self)

variable {α β κ : Type*} [Fintype α] [DecidableEq κ] {f : α → Option κ} {k : κ}

/-- One place goes from `f a` to `b`. -/
lemma sum_update [DecidableEq α] (f : α → β) (g : β → ℕ) (a : α) (b : β) :
    ∑ x, g (update f a b x) + g (f a) = ∑ x, g (f x) + g b := by
  have hrest : ∀ x ∈ Finset.univ.erase a, g (update f a b x) = g (f x) := by
    intro x hx
    rw [update_of_ne (Finset.ne_of_mem_erase hx)]
  rw [← Finset.add_sum_erase Finset.univ (fun x => g (update f a b x))
    (Finset.mem_univ a), ← Finset.add_sum_erase Finset.univ (fun x => g (f x))
    (Finset.mem_univ a), Finset.sum_congr rfl hrest, update_self]
  omega

/-- The number of places that refer to `k`. -/
def refs (f : α → Option κ) (k : κ) : ℕ := (Finset.univ.filter fun a => f a = some k).card

/-- A reference, as one that is counted at what it refers to. -/
def tally (o : Option κ) : κ → ℤ := fun k => if o = some k then 1 else 0

@[simp] lemma tally_none : tally (none : Option κ) = 0 := by
  funext k
  simp [tally]

@[simp] lemma tally_self (k : κ) : tally (some k) k = 1 := by simp [tally]

lemma tally_nonneg (o : Option κ) : 0 ≤ tally o := by
  intro k
  unfold tally
  split <;> simp

@[simp] lemma refs_none (k : κ) : refs (fun _ : α => none) k = 0 := by simp [refs]

/-- One place goes from `f a` to `o`. -/
lemma refs_update [DecidableEq α] (f : α → Option κ) (a : α) (o : Option κ) (k : κ) :
    (refs (update f a o) k : ℤ) = refs f k + tally o k - tally (f a) k := by
  have h := sum_update f (fun o => if o = some k then 1 else 0) a o
  unfold refs
  rw [Finset.card_filter, Finset.card_filter]
  unfold tally
  split_ifs at h ⊢ <;> omega

lemma refs_pos {a : α} (h : f a = some k) : 1 ≤ refs f k :=
  Finset.card_pos.2 ⟨a, by simpa using h⟩

lemma exists_of_refs_pos (h : 0 < refs f k) : ∃ a, f a = some k := by
  obtain ⟨a, ha⟩ := Finset.card_pos.1 h
  exact ⟨a, (Finset.mem_filter.1 ha).2⟩

/-- Two places refer to `k`. -/
lemma two_le_refs {a b : α} (hab : a ≠ b) (ha : f a = some k) (hb : f b = some k) : 2 ≤ refs f k :=
  Finset.one_lt_card.2 ⟨a, by simpa using ha, b, by simpa using hb, hab⟩

-- so that no elaboration counts the places
attribute [irreducible] refs

end Xv6.Lib
