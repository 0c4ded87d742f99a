import Mathlib.Computability.Language
import Xv6.User.Grep

/-!
# What a pattern of `grep` means

A pattern is read from left to right as items: a character, or a character with a star behind
it. The texts of the items are languages, and those of the pattern their product. A `^` in
front ties the match to the start of the text, a `$` at the end to its end.
-/

namespace Xv6.Grep

/-! ## Items -/

/-- The texts of one character of a pattern. -/
def sym (c : UInt8) : Language UInt8 := {w | ∃ t, w = [t] ∧ (c = 46 ∨ c = t)}

/-- An item of a pattern: `c`, or `c*`. -/
inductive Item where
  | one (c : UInt8)
  | star (c : UInt8)

/-- The texts of an item. -/
def Item.lang : Item → Language UInt8
  | .one c => sym c
  | .star c => KStar.kstar (sym c)

/-- The items of a pattern, and whether a `$` ends it. -/
def items : List UInt8 → List Item × Bool
  | [] => ([], false)
  | c :: 42 :: re => (.star c :: (items re).1, (items re).2)
  | [36] => ([], true)
  | c :: re => (.one c :: (items re).1, (items re).2)

/-- The text starts with a text of the items, and with `tied` it is one. -/
def Starts (is : List Item) (tied : Bool) (text : List UInt8) : Prop :=
  ∃ mid post, text = mid ++ post ∧ mid ∈ (is.map Item.lang).prod ∧ (tied = true → post = [])

theorem starts_nil {tied : Bool} {text : List UInt8} :
    Starts [] tied text ↔ (tied = true → text = []) := by
  simp [Starts, Language.mem_one]

theorem starts_cons {i : Item} {is : List Item} {tied : Bool} {text : List UInt8} :
    Starts (i :: is) tied text ↔ ∃ a b, text = a ++ b ∧ a ∈ i.lang ∧ Starts is tied b := by
  simp only [Starts, List.map_cons, List.prod_cons, Language.mem_mul]
  constructor
  · rintro ⟨_, post, rfl, ⟨a, ha, b, hb, rfl⟩, hp⟩
    exact ⟨a, b ++ post, List.append_assoc .., ha, b, post, rfl, hb, hp⟩
  · rintro ⟨a, _, rfl, ha, b, post, rfl, hb, hp⟩
    exact ⟨a ++ b, post, (List.append_assoc ..).symm, ⟨a, ha, b, hb, rfl⟩, hp⟩

/-! ## The matcher -/

theorem nil_mem_star (c : UInt8) : [] ∈ (Item.star c).lang :=
  Language.nil_mem_kstar _

theorem cons_mem_star {c t : UInt8} {w : List UInt8} :
    t :: w ∈ (Item.star c).lang ↔ (c = 46 ∨ c = t) ∧ w ∈ (Item.star c).lang := by
  have h : (Item.star c).lang = 1 + sym c * (Item.star c).lang :=
    (Language.one_add_self_mul_kstar_eq_kstar _).symm
  conv_lhs => rw [h]
  simp only [Language.mem_add, Language.mem_one, reduceCtorEq, false_or, Language.mem_mul]
  constructor
  · rintro ⟨_, ⟨s, rfl, hs⟩, v, hv, he⟩
    cases he
    exact ⟨hs, hv⟩
  · rintro ⟨ht, hw⟩
    exact ⟨[t], ⟨t, rfl, ht⟩, w, hw, rfl⟩

theorem matchstar_iff {c : UInt8} {here : List UInt8 → Bool} {text : List UInt8} :
    matchstar c here text = true ↔
      ∃ a b, text = a ++ b ∧ a ∈ (Item.star c).lang ∧ here b = true := by
  induction text with
  | nil => simp [matchstar, nil_mem_star]
  | cons t text ih =>
    have hc : (t = c ∨ c = 46) ↔ (c = 46 ∨ c = t) := by
      rw [or_comm, @eq_comm _ t]
    simp only [matchstar, Bool.or_eq_true, Bool.and_eq_true, beq_iff_eq, ih, hc]
    constructor
    · rintro (h | ⟨ht, a, b, rfl, ha, hb⟩)
      · exact ⟨[], t :: text, rfl, nil_mem_star c, h⟩
      · exact ⟨t :: a, b, rfl, cons_mem_star.2 ⟨ht, ha⟩, hb⟩
    · rintro ⟨_ | ⟨s, a⟩, b, he, ha, hb⟩
      · exact .inl (he ▸ hb)
      · obtain ⟨rfl, rfl⟩ := List.cons.inj he
        exact .inr ⟨(cons_mem_star.1 ha).1, a, b, rfl, (cons_mem_star.1 ha).2, hb⟩

/-- `matchhere` finds the items of the pattern at the start of the text. -/
theorem matchhere_iff (re text : List UInt8) :
    matchhere re text = true ↔ Starts (items re).1 (items re).2 text := by
  induction re using items.induct generalizing text with
  | case1 => simp [matchhere, items, starts_nil]
  | case2 c re ih => simp only [matchhere, matchstar_iff, items, starts_cons, ih]
  | case3 => simp [matchhere, items, starts_nil]
  | case4 c re h1 h2 ih =>
    rw [items.eq_4 c re h1 h2, starts_cons]
    cases text with
    | nil =>
      rw [matchhere.eq_5 c re h1 h2]
      simp only [Bool.false_eq_true, false_iff]
      rintro ⟨_, b, he, ⟨s, rfl, -⟩, -⟩
      cases he
    | cons t text =>
      rw [matchhere.eq_4 c re t text h1 h2]
      simp only [Bool.and_eq_true, Bool.or_eq_true, beq_iff_eq, ih]
      constructor
      · rintro ⟨ht, hs⟩
        exact ⟨[t], text, rfl, ⟨t, rfl, ht⟩, hs⟩
      · rintro ⟨_, b, he, ⟨s, rfl, hs⟩, hb⟩
        obtain ⟨rfl, rfl⟩ := List.cons.inj he
        exact ⟨hs, hb⟩

theorem matchLoop_iff (re text : List UInt8) :
    matchLoop re text = true ↔ ∃ a b, text = a ++ b ∧ matchhere re b = true := by
  induction text with
  | nil => simp [matchLoop]
  | cons t text ih =>
    simp only [matchLoop, Bool.or_eq_true, ih]
    constructor
    · rintro (h | ⟨a, b, rfl, h⟩)
      · exact ⟨[], _, rfl, h⟩
      · exact ⟨t :: a, b, rfl, h⟩
    · rintro ⟨_ | ⟨s, a⟩, b, he, h⟩
      · exact .inl (he ▸ h)
      · exact .inr ⟨a, b, (List.cons.inj he).2, h⟩

/-- What is left of a pattern behind a `^` in front. -/
def body (re : List UInt8) : List UInt8 :=
  if re.head? = some 94 then re.tail else re

/-- `match` accepts a text if a part of it, the start of the text behind a `^` and the end of it
before a `$`, is a text of the items of the pattern. -/
theorem reMatch_iff (re text : List UInt8) :
    reMatch re text = true ↔ ∃ pre mid post, text = pre ++ mid ++ post ∧
      mid ∈ ((items (body re)).1.map Item.lang).prod ∧
      (re.head? = some 94 → pre = []) ∧ ((items (body re)).2 = true → post = []) := by
  fun_cases reMatch re text with
  | case1 re text =>
    rw [matchhere_iff]
    simp [body, Starts]
  | case2 re text h =>
    have hh : re.head? ≠ some 94 := by
      intro he
      obtain ⟨re', rfl⟩ := List.head?_eq_some_iff.1 he
      exact h re' rfl
    simp only [matchLoop_iff, matchhere_iff, body, hh, false_imp_iff, true_and, Starts]
    constructor
    · rintro ⟨pre, _, rfl, mid, post, rfl, h⟩
      exact ⟨pre, mid, post, (List.append_assoc ..).symm, h⟩
    · rintro ⟨pre, mid, post, rfl, h⟩
      exact ⟨pre, mid ++ post, List.append_assoc .., mid, post, rfl, h⟩

end Xv6.Grep
