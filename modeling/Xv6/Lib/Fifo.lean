import Mathlib.Data.BitVec
import Mathlib.Data.List.Basic
import Mathlib.Data.Nat.ModEq
import Mathlib.Logic.Function.Basic

/-!
# Ring buffers with free-running counters

A `Fifo α w N` keeps up to `N` values in an array and counts the values read and written in
two `w`-bit counters that are never reset. Indices are the counters modulo `N`, so the buffer
survives the wrap of the counters when `N` divides `2 ^ w`.

`contents` lists the values between the counters. The lemmas say that `put` appends to it and
`get` takes its first element.
-/

namespace Xv6.Lib

/-- An array of `N` values with `w`-bit read and write counters. -/
structure Fifo (α : Type*) (w N : ℕ) where
  data : ℕ → α
  nread : BitVec w
  nwrite : BitVec w

namespace Fifo

variable {α : Type*} {w N : ℕ} {f : Fifo α w N}

/-- The number of values written but not read. -/
def count (f : Fifo α w N) : ℕ := (f.nwrite - f.nread).toNat

/-- The array index of a counter value. -/
def index (N : ℕ) (c : BitVec w) : ℕ := c.toNat % N

/-- The values in the buffer, oldest first. -/
def contents (f : Fifo α w N) : List α :=
  (List.range f.count).map fun k => f.data (index N (f.nread + BitVec.ofNat w k))

/-- The buffer holds no value. -/
def Empty (f : Fifo α w N) : Prop := f.nread = f.nwrite

/-- The buffer holds `N` values. -/
def Full (f : Fifo α w N) : Prop := f.nwrite = f.nread + BitVec.ofNat w N

instance (f : Fifo α w N) : Decidable f.Empty := inferInstanceAs (Decidable (_ = _))

instance (f : Fifo α w N) : Decidable f.Full := inferInstanceAs (Decidable (_ = _))

/-- Write `a` behind the others. -/
def put (f : Fifo α w N) (a : α) : Fifo α w N :=
  { f with data := Function.update f.data (index N f.nwrite) a, nwrite := f.nwrite + 1#w }

/-- The value the next `pop` takes. -/
def front (f : Fifo α w N) : α := f.data (index N f.nread)

/-- Read the oldest value. -/
def pop (f : Fifo α w N) : Fifo α w N := { f with nread := f.nread + 1#w }

/-- Take back the value written last. -/
def unput (f : Fifo α w N) : Fifo α w N := { f with nwrite := f.nwrite - 1#w }

/-! ## Counting -/

/-- The write counter is `count` ahead of the read counter. -/
lemma nwrite_eq (f : Fifo α w N) : f.nwrite = f.nread + BitVec.ofNat w f.count := by
  unfold count
  rw [BitVec.ofNat_toNat, BitVec.setWidth_eq, BitVec.add_comm, BitVec.sub_add_cancel]

lemma count_eq {k : ℕ} (hk : k < 2 ^ w) (h : f.nwrite = f.nread + BitVec.ofNat w k) :
    f.count = k := by
  unfold count
  rw [h, BitVec.add_comm, BitVec.add_sub_cancel, BitVec.toNat_ofNat, Nat.mod_eq_of_lt hk]

lemma empty_iff (f : Fifo α w N) : f.Empty ↔ f.count = 0 := by
  constructor
  · intro h
    exact count_eq (Nat.two_pow_pos w) (by rw [← h, BitVec.add_zero])
  · intro h
    have hw := f.nwrite_eq
    rw [h, BitVec.add_zero] at hw
    exact hw.symm

lemma full_iff (hN : N < 2 ^ w) (f : Fifo α w N) : f.Full ↔ f.count = N := by
  constructor
  · exact count_eq hN
  · intro h
    have hw := f.nwrite_eq
    rwa [h] at hw

lemma count_put (hN : N < 2 ^ w) (h : f.count < N) (a : α) : (f.put a).count = f.count + 1 := by
  refine count_eq (by omega) ?_
  unfold put
  dsimp only
  rw [BitVec.ofNat_add, ← BitVec.add_assoc, ← nwrite_eq]

lemma count_pop (h : 0 < f.count) : f.pop.count = f.count - 1 := by
  have hlt : f.count < 2 ^ w := (f.nwrite - f.nread).isLt
  refine count_eq (by omega) ?_
  unfold pop
  dsimp only
  rw [BitVec.add_assoc, ← BitVec.ofNat_add, Nat.add_sub_cancel' h]
  exact f.nwrite_eq

lemma count_unput (h : 0 < f.count) : f.unput.count = f.count - 1 := by
  have hlt : f.count < 2 ^ w := (f.nwrite - f.nread).isLt
  refine count_eq (by omega) ?_
  unfold unput
  dsimp only
  rw [BitVec.sub_eq_iff_eq_add, BitVec.add_assoc, ← BitVec.ofNat_add, Nat.sub_add_cancel h]
  exact f.nwrite_eq

/-! ## Contents -/

/-- Indices go round the array, also where the counters wrap. -/
lemma index_add (hdvd : N ∣ 2 ^ w) (c : BitVec w) (k : ℕ) :
    index N (c + BitVec.ofNat w k) = (c.toNat + k) % N := by
  unfold index
  rw [BitVec.toNat_add, BitVec.toNat_ofNat, Nat.mod_mod_of_dvd _ hdvd, Nat.add_mod,
    Nat.mod_mod_of_dvd _ hdvd, ← Nat.add_mod]

lemma contents_put (hdvd : N ∣ 2 ^ w) (hN : N < 2 ^ w) (h : f.count < N) (a : α) :
    (f.put a).contents = f.contents ++ [a] := by
  have hput : index N f.nwrite = (f.nread.toNat + f.count) % N := by
    rw [f.nwrite_eq, index_add hdvd]
  have hold : ∀ k ∈ List.range f.count,
      (f.put a).data (index N (f.nread + BitVec.ofNat w k)) =
        f.data (index N (f.nread + BitVec.ofNat w k)) := by
    intro k hk
    have hk := List.mem_range.1 hk
    -- two of fewer than `N` consecutive indices differ
    refine Function.update_of_ne ?_ _ _
    rw [hput, index_add hdvd]
    intro heq
    have hmod : k ≡ f.count [MOD N] := Nat.ModEq.add_left_cancel' _ heq
    have := Nat.ModEq.eq_of_lt_of_lt hmod (by omega) h
    omega
  have hnew : (f.put a).data (index N (f.nread + BitVec.ofNat w f.count)) = a := by
    unfold put
    dsimp only
    rw [← nwrite_eq, Function.update_self]
  unfold contents
  rw [count_put hN h, List.range_succ, List.map_append]
  show (List.range f.count).map (fun k => (f.put a).data (index N (f.nread + BitVec.ofNat w k))) ++
    [(f.put a).data (index N (f.nread + BitVec.ofNat w f.count))] = _
  rw [List.map_congr_left hold, hnew]

lemma contents_eq_cons (h : 0 < f.count) : f.contents = f.front :: f.pop.contents := by
  unfold contents
  obtain ⟨c, hc⟩ : ∃ c, f.count = c + 1 := ⟨f.count - 1, by omega⟩
  rw [count_pop h, hc, List.range_succ_eq_map, List.map_cons, List.map_map, Nat.add_sub_cancel]
  have hfirst : f.data (index N (f.nread + BitVec.ofNat w 0)) = f.front := by
    rw [BitVec.add_zero, front]
  rw [hfirst]
  refine congrArg _ (List.map_congr_left fun k _ => ?_)
  show f.data _ = f.data _
  rw [pop, Nat.succ_eq_add_one, Nat.add_comm k 1, BitVec.ofNat_add, ← BitVec.add_assoc]

/-- Only the counters and the `N` places of the array matter. -/
lemma contents_congr {g : Fifo α w N} (hN : 0 < N) (hread : f.nread = g.nread)
    (hwrite : f.nwrite = g.nwrite) (hdata : ∀ k < N, f.data k = g.data k) :
    f.contents = g.contents := by
  unfold contents count
  rw [hread, hwrite]
  exact List.map_congr_left fun k _ => hdata _ (Nat.mod_lt _ hN)

lemma length_contents (f : Fifo α w N) : f.contents.length = f.count := by simp [contents]

lemma getElem?_contents {k : ℕ} (h : k < f.count) :
    f.contents[k]? = some (f.data (index N (f.nread + BitVec.ofNat w k))) := by
  rw [contents, List.getElem?_map, List.getElem?_range h, Option.map_some]

lemma contents_unput (h : 0 < f.count) : f.unput.contents = f.contents.dropLast := by
  unfold contents
  obtain ⟨c, hc⟩ : ∃ c, f.count = c + 1 := ⟨f.count - 1, by omega⟩
  rw [count_unput h, hc, List.range_succ, List.map_append, List.map_singleton,
    List.dropLast_concat, Nat.add_sub_cancel]
  rfl

end Fifo

end Xv6.Lib
