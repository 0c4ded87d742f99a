import Mathlib.Data.List.Chain
import Mathlib.Data.List.Nodup
import Mathlib.Logic.Function.Basic

/-!
# Circular doubly linked lists

Nodes of a type `α` carry a `next` and a `prev` pointer, and one node `hd` is the head of the
list. `Represents L hd l` says that the pointers go from `hd` through the nodes of `l` back to
`hd`, and backwards the same way. Unlinking a node removes it from `l`, inserting one behind
the head puts it in front, and the two usual loops look through `l` from either end.
-/

namespace Xv6.Lib

open Function (update update_of_ne update_self)

variable {α : Type*} [DecidableEq α]

/-- The pointers of all nodes. -/
structure Links (α : Type*) where
  next : α → α
  prev : α → α

namespace Links

/-- `y` follows `x`. -/
def Adj (L : Links α) (x y : α) : Prop := L.next x = y ∧ L.prev y = x

/-- The nodes behind the head are those of `l`, in this order. -/
structure Represents (L : Links α) (hd : α) (l : List α) : Prop where
  nodup : (hd :: l).Nodup
  chain : (hd :: (l ++ [hd])).IsChain L.Adj

/-- Take node `b` out of the list. -/
def unlink (L : Links α) (b : α) : Links α :=
  let L := { L with prev := update L.prev (L.next b) (L.prev b) }
  { L with next := update L.next (L.prev b) (L.next b) }

/-- Insert node `b` right behind the head. -/
def pushFront (L : Links α) (hd b : α) : Links α :=
  let L := { L with next := update L.next b (L.next hd) }
  let L := { L with prev := update L.prev b hd }
  let L := { L with prev := update L.prev (L.next hd) b }
  { L with next := update L.next hd b }

/-- `for(b = x; b != hd; b = f(b)) if(p(b)) return b;` -/
def scan (f : α → α) (hd : α) (p : α → Bool) : ℕ → α → Option α
  | 0, _ => none
  | k + 1, x => if x = hd then none else if p x then some x else scan f hd p k (f x)

/-- The list read in the other direction. -/
def flip (L : Links α) : Links α := ⟨L.prev, L.next⟩

variable {L : Links α} {hd b u v x y : α} {l l₁ l₂ : List α}

/-! ## Unlinking -/

lemma unlink_eq (hu : L.Adj u b) (hv : L.Adj b v) (hne : b ≠ v) :
    L.unlink b = ⟨update L.next u v, update L.prev v u⟩ := by
  unfold unlink
  dsimp only
  rw [hv.1, hu.2, update_of_ne hne, hu.2]

/-- The neighbours of `b` become neighbours. -/
lemma Adj.bridge (hu : L.Adj u b) (hv : L.Adj b v) (hne : b ≠ v) : (L.unlink b).Adj u v := by
  rw [unlink_eq hu hv hne]
  exact ⟨update_self .., update_self ..⟩

/-- Other neighbours stay neighbours. -/
lemma Adj.unlink (hu : L.Adj u b) (hv : L.Adj b v) (hne : b ≠ v) (h : L.Adj x y) (hx : x ≠ b)
    (hy : y ≠ b) : (L.unlink b).Adj x y := by
  have hxu : x ≠ u := by
    rintro rfl
    exact hy (h.1.symm.trans hu.1)
  have hyv : y ≠ v := by
    rintro rfl
    exact hx (h.2.symm.trans hv.2)
  rw [unlink_eq hu hv hne]
  exact ⟨(update_of_ne hxu ..).trans h.1, (update_of_ne hyv ..).trans h.2⟩

/-- Unlinking a node takes it out of the list and leaves the order of the others. -/
lemma Represents.unlink (h : L.Represents hd (l₁ ++ b :: l₂)) :
    (L.unlink b).Represents hd (l₁ ++ l₂) := by
  have hsub : (hd :: (l₁ ++ l₂)).Sublist (hd :: (l₁ ++ b :: l₂)) :=
    ((List.sublist_cons_self b l₂).append_left l₁).cons_cons hd
  refine ⟨h.nodup.sublist hsub, ?_⟩
  -- `u` stands before `b` and `v` behind it
  obtain ⟨m₁, u, hm₁⟩ := List.eq_nil_or_concat' (hd :: l₁) |>.resolve_left (by simp)
  obtain ⟨v, m₂, hm₂⟩ : ∃ v m₂, l₂ ++ [hd] = v :: m₂ := List.exists_cons_of_ne_nil (by simp)
  have hchain : (m₁ ++ u :: b :: v :: m₂).IsChain L.Adj := by
    have := h.chain
    rwa [List.append_assoc, List.cons_append, hm₂, ← List.cons_append, hm₁, List.append_assoc,
      List.singleton_append] at this
  obtain ⟨hleft, hu, hright⟩ := List.isChain_append_cons_cons.1 hchain
  obtain ⟨hv, hright⟩ := List.isChain_cons_cons.1 hright
  have hnodup : (m₁ ++ [u]).Nodup ∧ (b :: l₂).Nodup ∧ ∀ x ∈ m₁ ++ [u], ∀ y ∈ b :: l₂, x ≠ y := by
    have := h.nodup
    rwa [← List.cons_append, hm₁, List.nodup_append] at this
  have hbl : b ∉ m₁ ++ [u] := fun hb => hnodup.2.2 b hb b (by simp) rfl
  have hbr : b ∉ v :: m₂ := by
    rw [← hm₂, List.mem_append, List.mem_singleton, not_or]
    refine ⟨(List.nodup_cons.1 hnodup.2.1).1, ?_⟩
    rintro rfl
    exact hbl (hm₁ ▸ List.mem_cons_self ..)
  have hne : b ≠ v := fun hb => hbr (hb ▸ List.mem_cons_self ..)
  have hmono : ∀ {m : List α}, b ∉ m → m.IsChain L.Adj → m.IsChain (L.unlink b).Adj := by
    intro m hb hm
    refine hm.imp_of_mem_imp fun x y hx hy hxy => Adj.unlink hu hv hne hxy ?_ ?_
    · exact fun hxb => hb (hxb ▸ hx)
    · exact fun hyb => hb (hyb ▸ hy)
  rw [List.append_assoc, hm₂, ← List.cons_append, hm₁, List.append_assoc, List.singleton_append]
  exact List.isChain_append_cons_cons.2 ⟨hmono hbl hleft, hu.bridge hv hne, hmono hbr hright⟩

/-! ## Inserting -/

lemma pushFront_eq (hv : L.next hd = v) (hne : hd ≠ b) :
    L.pushFront hd b = ⟨update (update L.next b v) hd b,
      update (update L.prev b hd) v b⟩ := by
  unfold pushFront
  dsimp only
  rw [update_of_ne hne, hv]

/-- A new node becomes the first one. -/
lemma Represents.pushFront (h : L.Represents hd l) (hb : b ∉ hd :: l) :
    (L.pushFront hd b).Represents hd (b :: l) := by
  obtain ⟨hbhd, hbl⟩ : b ≠ hd ∧ b ∉ l := by simpa using hb
  obtain ⟨hhd, hl⟩ := List.nodup_cons.1 h.nodup
  refine ⟨List.nodup_cons.2 ⟨?_, List.nodup_cons.2 ⟨hbl, hl⟩⟩, ?_⟩
  · simpa using ⟨Ne.symm hbhd, hhd⟩
  obtain ⟨v, m, hm⟩ : ∃ v m, l ++ [hd] = v :: m := List.exists_cons_of_ne_nil (by simp)
  have hmem : b ∉ v :: m := by
    rw [← hm]
    simpa using ⟨hbl, hbhd⟩
  have hbv : b ≠ v := fun hbv => hmem (hbv ▸ List.mem_cons_self ..)
  obtain ⟨hv, hrest⟩ : L.Adj hd v ∧ (v :: m).IsChain L.Adj := by
    have := h.chain
    rw [hm] at this
    exact List.isChain_cons_cons.1 this
  rw [List.cons_append, hm, pushFront_eq hv.1 (Ne.symm hbhd)]
  refine List.isChain_cons_cons.2 ⟨⟨update_self .., ?_⟩,
    List.isChain_cons_cons.2 ⟨⟨?_, update_self ..⟩, ?_⟩⟩
  · exact (update_of_ne hbv ..).trans (update_self ..)
  · exact (update_of_ne hbhd ..).trans (update_self ..)
  · -- the head is the last node here, and nothing follows it
    have hnodup : (v :: m).Nodup := by
      rw [← hm, List.nodup_append]
      refine ⟨hl, List.nodup_singleton hd, fun x hx y hy hxy => hhd ?_⟩
      rwa [← List.mem_singleton.1 hy, ← hxy]
    refine hrest.imp_of_mem_tail_imp fun x y hx hy hxy => ?_
    have hyv : y ≠ v := fun h => (List.nodup_cons.1 hnodup).1 (h ▸ hy)
    have hyb : y ≠ b := fun h => hmem (h ▸ List.mem_cons_of_mem v hy)
    have hxb : x ≠ b := fun h => hmem (h ▸ hx)
    have hxhd : x ≠ hd := fun h => hyv (hxy.1.symm.trans (h ▸ hv.1))
    constructor
    · dsimp only
      rw [update_of_ne hxhd, update_of_ne hxb, hxy.1]
    · dsimp only
      rw [update_of_ne hyv, update_of_ne hyb, hxy.2]

/-- Unlinking a node and inserting it again moves it to the front. -/
lemma Represents.moveToFront (h : L.Represents hd (l₁ ++ b :: l₂)) :
    ((L.unlink b).pushFront hd b).Represents hd (b :: (l₁ ++ l₂)) := by
  have hnodup := h.nodup
  refine h.unlink.pushFront ?_
  grind

/-- Inserting the nodes of a list one after the other. -/
lemma Represents.foldl_pushFront (h : L.Represents hd l) {bs : List α} (hbs : bs.Nodup)
    (hdisj : ∀ b ∈ bs, b ∉ hd :: l) :
    (bs.foldl (fun L b => L.pushFront hd b) L).Represents hd (bs.reverse ++ l) := by
  induction bs generalizing L l with
  | nil => exact h
  | cons b bs ih =>
    obtain ⟨hb, hbs⟩ := List.nodup_cons.1 hbs
    rw [List.foldl_cons, List.reverse_cons, List.append_assoc, List.singleton_append]
    refine ih (h.pushFront (hdisj b (by simp))) hbs fun c hc hmem => ?_
    have hcb : c ≠ b := fun h => hb (h ▸ hc)
    have hcl := hdisj c (List.mem_cons_of_mem b hc)
    simp only [List.mem_cons, not_or] at hmem hcl
    grind

/-! ## Looking through the list -/

omit [DecidableEq α] in
lemma Represents.flip (h : L.Represents hd l) : L.flip.Represents hd l.reverse := by
  constructor
  · have hnodup := List.nodup_cons.1 h.nodup
    exact List.nodup_cons.2 ⟨by simpa using hnodup.1, List.nodup_reverse.2 hnodup.2⟩
  · have hrev : hd :: (l.reverse ++ [hd]) = (hd :: (l ++ [hd])).reverse := by simp
    rw [hrev, List.isChain_reverse]
    exact h.chain.imp fun x y hxy => ⟨hxy.2, hxy.1⟩

/-- The loop that follows `next` from the head finds what a search through the list finds. -/
lemma Represents.scan_next (h : L.Represents hd l) (p : α → Bool) {k : ℕ} (hk : l.length < k) :
    scan L.next hd p k (L.next hd) = l.find? p := by
  -- the loop stands at `x`, and the rest of the list is `m`
  suffices hloop : ∀ {m x k}, m.length < k → hd ∉ m → (x :: (m ++ [hd])).IsChain L.Adj →
      scan L.next hd p k (L.next x) = m.find? p from
    hloop hk (List.nodup_cons.1 h.nodup).1 h.chain
  intro m
  induction m with
  | nil =>
    intro x k hk _ hchain
    obtain ⟨k, rfl⟩ : ∃ j, k = j + 1 := ⟨k - 1, by simp at hk; omega⟩
    have hx : L.next x = hd := (List.isChain_cons_cons.1 hchain).1.1
    rw [hx, scan, if_pos rfl, List.find?_nil]
  | cons y m ih =>
    intro x k hk hnot hchain
    obtain ⟨k, rfl⟩ : ∃ j, k = j + 1 := ⟨k - 1, by simp at hk; omega⟩
    obtain ⟨hyhd, hnot⟩ : hd ≠ y ∧ hd ∉ m := by simpa using hnot
    obtain ⟨hx, hchain⟩ := List.isChain_cons_cons.1 hchain
    rw [hx.1, scan, if_neg (Ne.symm hyhd), List.find?_cons]
    cases p y with
    | true => rfl
    | false => exact ih (by simpa using hk) hnot hchain

/-- The loop that follows `prev` finds what a search from the end finds. -/
lemma Represents.scan_prev (h : L.Represents hd l) (p : α → Bool) {k : ℕ} (hk : l.length < k) :
    scan L.prev hd p k (L.prev hd) = l.reverse.find? p :=
  h.flip.scan_next p (by simpa using hk)

end Links

end Xv6.Lib
