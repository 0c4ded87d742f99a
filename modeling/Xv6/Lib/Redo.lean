import Mathlib.Data.Set.Function
import Mathlib.Logic.Function.Basic
import Mathlib.Data.List.Basic

/-!
# Redo logs

A store maps locations to contents. A redo log keeps, next to the store, a record of
writes that are committed but perhaps not carried out yet: what the store stands for is
its contents with the record replayed over them. Committing a record is the only change
to what the store stands for; carrying writes out, in any order and any number of times,
and dropping a record that was carried out are not.
-/

namespace Xv6.Lib.Redo

open Function (update update_of_ne update_self)

variable {α β : Type*} [DecidableEq α] {g : α → β}

/-- Carry out writes, in order. -/
def replay (ws : List (α × β)) (f : α → β) : α → β :=
  ws.foldl (fun f w => update f w.1 w.2) f

@[simp] lemma replay_nil (f : α → β) : replay [] f = f := rfl

@[simp]
lemma replay_cons (w : α × β) (ws : List (α × β)) (f : α → β) :
    replay (w :: ws) f = replay ws (update f w.1 w.2) := rfl

lemma replay_append (ws us : List (α × β)) (f : α → β) :
    replay (ws ++ us) f = replay us (replay ws f) := by
  simp [replay, List.foldl_append]

/-- A location that no write names keeps its contents. -/
lemma replay_of_notMem {ws : List (α × β)} {f : α → β} {a : α} (h : a ∉ ws.map Prod.fst) :
    replay ws f a = f a := by
  induction ws generalizing f with
  | nil => rfl
  | cons w ws ih =>
    simp only [List.map_cons, List.mem_cons, not_or] at h
    rw [replay_cons, ih h.2, update_of_ne h.1]

/-- A location that some write names does not remember what it held before. -/
lemma replay_congr_of_mem {ws : List (α × β)} {f : α → β} {a : α} (h : a ∈ ws.map Prod.fst) :
    replay ws f a = replay ws g a := by
  induction ws generalizing f g with
  | nil => simp at h
  | cons w ws ih =>
    rw [replay_cons, replay_cons]
    by_cases hws : a ∈ ws.map Prod.fst
    · exact ih hws
    · have hw : a = w.1 := by simpa [hws] using h
      rw [replay_of_notMem hws, replay_of_notMem hws, hw, update_self,
        update_self]

/-- Replay only looks at the location in question. -/
lemma replay_congr {ws : List (α × β)} {f : α → β} {a : α} (h : f a = g a) :
    replay ws f a = replay ws g a := by
  by_cases hws : a ∈ ws.map Prod.fst
  · exact replay_congr_of_mem hws
  · rw [replay_of_notMem hws, replay_of_notMem hws, h]

/-- When every write carries the contents `v` wants, so does every location it names. -/
lemma replay_of_forall {ws : List (α × β)} {f v : α → β} {a : α} (hv : ∀ w ∈ ws, w.2 = v w.1)
    (h : a ∈ ws.map Prod.fst) : replay ws f a = v a := by
  induction ws generalizing f with
  | nil => simp at h
  | cons w ws ih =>
    rw [replay_cons]
    by_cases hws : a ∈ ws.map Prod.fst
    · exact ih (fun u hu => hv u (List.mem_cons_of_mem _ hu)) hws
    · have hw : a = w.1 := by simpa [hws] using h
      rw [replay_of_notMem hws, hw, update_self]
      exact hv w List.mem_cons_self

/-- Absorption: a record that holds, for each location written, its final contents has the
effect of all the writes. -/
lemma replay_absorb {ws us : List (α × β)} {f : α → β} (hv : ∀ w ∈ ws, w.2 = replay us f w.1)
    (hkeys : ∀ u ∈ us, u.1 ∈ ws.map Prod.fst) : replay ws f = replay us f := by
  funext a
  by_cases hws : a ∈ ws.map Prod.fst
  · exact replay_of_forall hv hws
  · have hus : a ∉ us.map Prod.fst := by
      intro ha
      obtain ⟨u, hu, rfl⟩ := List.mem_map.1 ha
      exact hws (hkeys u hu)
    rw [replay_of_notMem hws, replay_of_notMem hus]

/-! ## What a store with a committed record stands for -/

/-- On the locations `S`, a store with contents `d` and committed record `ws` stands for
`f`. -/
def Stands (S : Set α) (ws : List (α × β)) (d f : α → β) : Prop := Set.EqOn (replay ws d) f S

namespace Stands

variable {S : Set α} {ws us : List (α × β)} {d e f : α → β} {a : α} {v : β}

/-- Writing to a location that the record names does not matter. -/
lemma install (h : Stands S ws d f) (ha : a ∈ ws.map Prod.fst) :
    Stands S ws (update d a v) f := by
  intro c hc
  rw [← h hc]
  by_cases hca : c = a
  · exact replay_congr_of_mem (hca ▸ ha)
  · exact replay_congr (update_of_ne hca v d)

/-- Committing a record that absorbs the writes `us` carries `us` out. -/
lemma commit (h : Stands S [] d f) (hv : ∀ w ∈ ws, w.2 = replay us f w.1)
    (hkeys : ∀ u ∈ us, u.1 ∈ ws.map Prod.fst) : Stands S ws d (replay us f) := by
  intro a ha
  rw [← replay_absorb hv hkeys]
  exact replay_congr (h ha)

/-- A record whose writes have all been carried out can be dropped. -/
lemma clear (h : Stands S ws d f) (hd : ∀ w ∈ ws, w.1 ∈ S → d w.1 = f w.1) :
    Stands S [] d f := by
  intro a ha
  by_cases hws : a ∈ ws.map Prod.fst
  · obtain ⟨w, hw, rfl⟩ := List.mem_map.1 hws
    exact hd w hw ha
  · have hf : replay ws d a = f a := h ha
    rwa [replay_of_notMem hws] at hf

end Stands

end Xv6.Lib.Redo
