import Mathlib.Data.List.Basic
import Mathlib.Data.List.Chain
import Mathlib.Logic.Relation
import Xv6.Lib.Spec

/-!
# A two-party rendezvous with mailboxes

Two sides hand control to each other. Each side has a mailbox for the value it will
return, and an offer for its peer. A side that arrives first parks with an empty mailbox;
a side whose peer waits takes the peer's offer, leaves its own, and puts it in the peer's
mailbox only if that is still empty. The empty mailbox is a value `e` of the same type.

* `alternates`: once a side waits, exactly one side waits, and the sides take turns;
* `results_passed`: what a side returns was passed by the other side;
* `streams`: the results of the side that arrives second are the arguments of the first
  one, but the results of the first one are the arguments of the second one with the
  first argument doubled.
-/

namespace Xv6.Lib.Rendezvous

variable {α : Type} {e : α}

/-! ## Sides -/

/-- Where a side is: outside a handoff, waiting in one, or about to return from one. -/
inductive Mode where
  | out
  | waiting
  | returning
deriving DecidableEq

/-- One side of the rendezvous. -/
structure Side (α : Type) where
  mode : Mode
  /-- The value this side will return, or the marker of an empty mailbox. -/
  box : α
  /-- The value this side passed last. -/
  offer : α
  /-- The values passed so far. -/
  args : List α
  /-- The values returned so far. -/
  results : List α

/-- The results of a side, with the one it has in its mailbox. -/
def Side.delivered (sd : Side α) : List α :=
  if sd.mode = .out then sd.results else sd.results ++ [sd.box]

/-- The mailbox of a side in a handoff is delivered to it. -/
lemma Side.box_mem_delivered {sd : Side α} (h : sd.mode ≠ .out) : sd.box ∈ sd.delivered := by
  simp [Side.delivered, h]

lemma Side.results_le_delivered (sd : Side α) : sd.results <+: sd.delivered := by
  rw [Side.delivered]
  split <;> simp

/-- Both sides, and who has made a handoff so far. -/
structure Pair (α : Type) where
  side : Bool → Side α
  turns : List Bool

lemma eq_or_eq_not (y x : Bool) : y = x ∨ y = !x := by
  cases x <;> cases y <;> simp

/-- A fact about both sides, seen from side `x`. -/
lemma both (x : Bool) {P : Bool → Prop} (hx : P x) (hy : P !x) : ∀ y, P y := by
  intro y
  rcases eq_or_eq_not y x with rfl | rfl
  · exact hx
  · exact hy

/-! ## Steps -/

section Steps

variable (s : Pair α) (x : Bool) (v : α)

/-- Side `x` arrives first, with `v`. -/
def Pair.park (e : α) : Pair α where
  side y := if y = x then
      { s.side x with mode := .waiting, box := e, offer := v, args := (s.side x).args ++ [v] }
    else s.side y
  turns := s.turns ++ [x]

@[simp]
lemma park_self : (s.park x v e).side x =
    { s.side x with mode := .waiting, box := e, offer := v, args := (s.side x).args ++ [v] } :=
  if_pos rfl

@[simp]
lemma park_peer : (s.park x v e).side (!x) = s.side !x := if_neg (by simp)

/-- Side `x` returns what is in its mailbox. -/
def Pair.ret : Pair α where
  side y := if y = x then
      { s.side x with mode := .out, results := (s.side x).results ++ [(s.side x).box] }
    else s.side y
  turns := s.turns

@[simp]
lemma ret_self : (s.ret x).side x =
    { s.side x with mode := .out, results := (s.side x).results ++ [(s.side x).box] } :=
  if_pos rfl

@[simp]
lemma ret_peer : (s.ret x).side (!x) = s.side !x := if_neg (by simp)

@[simp]
lemma ret_not_self : (s.ret !x).side x = s.side x := if_neg (by simp)

variable {s x} in
/-- Returning does not change what was delivered. -/
lemma ret_delivered (hx : (s.side x).mode = .returning) :
    ∀ y, ((s.ret x).side y).delivered = (s.side y).delivered := by
  refine both x ?_ ?_
  · simp [Side.delivered, hx]
  · simp

variable [DecidableEq α]

/-- Side `x` hands over to its waiting peer, with `v`. -/
def Pair.exchange (e : α) : Pair α where
  side y := if y = x then
      { s.side x with
        mode := .waiting, box := (s.side !x).offer, offer := v, args := (s.side x).args ++ [v] }
    else
      { s.side y with
        mode := .returning, box := if (s.side y).box = e then v else (s.side y).box }
  turns := s.turns ++ [x]

@[simp]
lemma exchange_self : (s.exchange x v e).side x =
    { s.side x with
      mode := .waiting, box := (s.side !x).offer, offer := v, args := (s.side x).args ++ [v] } :=
  if_pos rfl

@[simp]
lemma exchange_peer : (s.exchange x v e).side (!x) =
    { s.side !x with
      mode := .returning, box := if (s.side !x).box = e then v else (s.side !x).box } :=
  if_neg (by simp)

@[simp]
lemma exchange_not_self : (s.exchange (!x) v e).side x =
    { s.side x with mode := .returning, box := if (s.side x).box = e then v else (s.side x).box } :=
  if_neg (by simp)

end Steps

variable [DecidableEq α]

/-- The steps of the rendezvous. -/
inductive Step (e : α) (s : Pair α) : Pair α → Prop where
  | park (x : Bool) (v : α) (hx : (s.side x).mode = .out) (hy : (s.side !x).mode = .out) :
      Step e s (s.park x v e)
  | exchange (x : Bool) (v : α) (hx : (s.side x).mode = .out)
      (hy : (s.side !x).mode = .waiting) : Step e s (s.exchange x v e)
  | ret (x : Bool) (hx : (s.side x).mode = .returning) : Step e s (s.ret x)

/-- Arguments are never forgotten. -/
lemma args_mono {s s' : Pair α} (hs : Step e s s') :
    ∀ x, (s.side x).args <+: (s'.side x).args := by
  cases hs with
  | park y v _ _ => exact both y (by simp) (by simp)
  | exchange y v _ _ => exact both y (by simp) (by simp)
  | ret y _ => exact both y (by simp) (by simp)

/-! ## Turns -/

/-- Side `x` waits, its peer does not, and the handoffs alternate up to one by `x`. -/
structure Turn (s : Pair α) (x : Bool) : Prop where
  waits : (s.side x).mode = .waiting
  peer : (s.side !x).mode ≠ .waiting
  last : s.turns.getLast? = some x
  alternate : s.turns.IsChain (· ≠ ·)

lemma Turn.step {s s' : Pair α} {x : Bool} (h : Turn s x) (hs : Step e s s') :
    ∃ y, Turn s' y := by
  have hw := h.waits
  have hp := h.peer
  cases hs with
  | park y v hy hy' =>
    -- one side waits, so nobody arrives first any more
    rcases eq_or_eq_not y x with rfl | rfl <;> simp_all
  | exchange y v hy hy' =>
    rcases eq_or_eq_not y x with rfl | rfl
    · simp [hw] at hy
    · refine ⟨!x, by simp, by simp, by simp [Pair.exchange], ?_⟩
      exact List.isChain_append.mpr ⟨h.alternate, by simp, by simp [h.last]⟩
  | ret y hy =>
    rcases eq_or_eq_not y x with rfl | rfl
    · simp [hw] at hy
    · exact ⟨x, by simp [hw], by simp, h.last, h.alternate⟩

/-! ## Values -/

/-- Every value that side `x` offers, or has in the peer's mailbox, or that the peer has
returned, is in `V x`. -/
structure Passed (V : Bool → α → Prop) (e : α) (s : Pair α) : Prop where
  offer : ∀ x, (s.side x).mode = .waiting → V x (s.side x).offer
  box : ∀ x, (s.side x).mode ≠ .out → V (!x) (s.side x).box ∨
    (s.side x).mode = .waiting ∧ (s.side x).box = e
  results : ∀ x, ∀ r ∈ (s.side x).results, V (!x) r

omit [DecidableEq α] in
/-- Larger sets of values. -/
lemma Passed.imp {V W : Bool → α → Prop} {s : Pair α} (h : Passed V e s)
    (hVW : ∀ x v, V x v → W x v) : Passed W e s where
  offer x hx := hVW x _ (h.offer x hx)
  box x hx := (h.box x hx).imp_left (hVW _ _)
  results x r hr := hVW _ r (h.results x r hr)

lemma Passed.step {V : Bool → α → Prop} {s s' : Pair α} (h : Passed V e s) (hs : Step e s s')
    (hV : ∀ x, ∀ v ∈ (s'.side x).args, V x v) : Passed V e s' := by
  obtain ⟨hoffer, hbox, hres⟩ := h
  cases hs with
  | park x v hx hy =>
    have hv : V x v := hV x v (by simp)
    refine ⟨both x ?_ ?_, both x ?_ ?_, both x ?_ ?_⟩
    · simp [hv]
    · simp [hy]
    · simp
    · simp [hy]
    · simpa using hres x
    · simpa using hres !x
  | exchange x v hx hy =>
    have hv : V x v := hV x v (by simp)
    have ho : V (!x) (s.side !x).offer := hoffer (!x) hy
    have hb := hbox (!x) (by simp [hy])
    refine ⟨both x ?_ ?_, both x ?_ ?_, both x ?_ ?_⟩
    · simp [hv]
    · simp
    · simp [ho]
    · -- the peer's mailbox is filled with `v` unless it already had a value of this side
      by_cases he : (s.side !x).box = e
      · simp [he, hv]
      · simpa [he] using hb
    · simpa using hres x
    · simpa using hres !x
  | ret x hx =>
    have hb : V (!x) (s.side x).box := by simpa [hx] using hbox x
    refine ⟨both x ?_ ?_, both x ?_ ?_, both x ?_ ?_⟩
    · simp
    · simpa using hoffer !x
    · simp
    · simpa using hbox !x
    · intro r hr
      rw [ret_self, List.mem_append, List.mem_singleton] at hr
      rcases hr with hr | rfl
      · exact hres x r hr
      · exact hb
    · simpa using hres !x

/-- What a side returns was passed by the other side. -/
theorem results_passed {V : Bool → α → Prop} {s s' : Pair α} (h : Passed V e s)
    (hrun : Relation.ReflTransGen (Step e) s s') (hV : ∀ x, ∀ v ∈ (s'.side x).args, V x v)
    (x : Bool) : ∀ r ∈ (s'.side x).results, V (!x) r := by
  have hI : (∀ x, ∀ v ∈ (s'.side x).args, V x v) → Passed V e s' := by
    refine preserved (I := fun s => (∀ x, ∀ v ∈ (s.side x).args, V x v) → Passed V e s)
      (fun s₁ s₂ ih hs hV => ?_) (fun _ => h) hrun
    exact (ih fun x v hv => hV x v ((args_mono hs x).mem hv)).step hs hV
  exact (hI hV).results x

/-! ## Streams -/

/-- The list with its first element doubled. -/
def dupHead {α : Type} : List α → List α
  | [] => []
  | w :: ws => w :: w :: ws

lemma dupHead_append {α : Type} {l : List α} (h : l ≠ []) (w : α) :
    dupHead (l ++ [w]) = dupHead l ++ [w] := by
  cases l with
  | nil => exact absurd rfl h
  | cons a l => rfl

lemma mem_dupHead {α : Type} {l : List α} {a : α} : a ∈ dupHead l ↔ a ∈ l := by
  cases l <;> simp [dupHead]

/-- The phases of a rendezvous that side `x` opened, with the streams in each of them. -/
inductive Phase (e : α) (s : Pair α) (x : Bool) : Prop where
  /-- Side `x` waits for its peer to arrive. -/
  | opened (hx : (s.side x).mode = .waiting) (hy : (s.side !x).mode = .out)
      (hbox : (s.side x).box = e) (hargs : (s.side x).args = [(s.side x).offer])
      (hres : (s.side x).results = []) (hargs' : (s.side !x).args = [])
      (hres' : (s.side !x).results = [])
  /-- The side that arrived second waits. -/
  | second (hx : (s.side x).mode ≠ .waiting) (hy : (s.side !x).mode = .waiting)
      (hne : (s.side !x).args ≠ []) (hsnd : (s.side !x).delivered = (s.side x).args)
      (hfst : (s.side x).delivered ++ [(s.side !x).offer] = dupHead (s.side !x).args)
  /-- The side that arrived first waits again. -/
  | first (hx : (s.side x).mode = .waiting) (hy : (s.side !x).mode ≠ .waiting)
      (hne : (s.side !x).args ≠ []) (hfst : (s.side x).delivered = dupHead (s.side !x).args)
      (hsnd : (s.side !x).delivered ++ [(s.side x).offer] = (s.side x).args)

lemma Phase.exchange {s : Pair α} {x y : Bool} {v : α} (h : Phase e s x)
    (hy : (s.side y).mode = .out) (hy' : (s.side !y).mode = .waiting)
    (he : ∀ y, e ∉ (s.side y).args) : Phase e (s.exchange y v e) x := by
  cases h with
  | opened hx hp hbox hargs hres hargs' hres' =>
    obtain rfl : y = !x := by rcases eq_or_eq_not y x with rfl | rfl <;> simp_all
    -- the first exchange fills both mailboxes
    exact .second (by simp) (by simp) (by simp) (by simp [Side.delivered, hres', hargs])
      (by simp [Side.delivered, hres, hbox, hargs', dupHead])
  | second hx hp hne hsnd hfst =>
    obtain rfl : y = x := by rcases eq_or_eq_not y x with rfl | rfl <;> simp_all
    -- the peer already has its result, so its mailbox stays as it is
    have hbox : (s.side !y).box ≠ e := fun hb =>
      he y (hsnd ▸ hb ▸ Side.box_mem_delivered (by simp [hp]))
    have hout : (s.side y).delivered = (s.side y).results := by simp [Side.delivered, hy]
    refine .first (by simp) (by simp) (by simpa using hne) ?_ ?_
    · rw [hout] at hfst
      simpa [Side.delivered] using hfst
    · simp [Side.delivered, hbox, ← hsnd, hp]
  | first hx hp hne hfst hsnd =>
    obtain rfl : y = !x := by rcases eq_or_eq_not y x with rfl | rfl <;> simp_all
    have hbox : (s.side x).box ≠ e := fun hb =>
      he (!x) (mem_dupHead.mp (hfst ▸ hb ▸ Side.box_mem_delivered (by simp [hx])))
    have hout : (s.side !x).delivered = (s.side !x).results := by simp [Side.delivered, hy]
    refine .second (by simp) (by simp) (by simp) ?_ ?_
    · rw [hout] at hsnd
      simpa [Side.delivered] using hsnd
    · simp [Side.delivered, hbox, dupHead_append hne, ← hfst, hx]

omit [DecidableEq α] in
lemma Phase.ret {s : Pair α} {x y : Bool} (h : Phase e s x)
    (hy : (s.side y).mode = .returning) : Phase e (s.ret y) x := by
  have hdel := ret_delivered hy
  cases h with
  | opened hx hp => rcases eq_or_eq_not y x with rfl | rfl <;> simp_all
  | second hx hp hne hsnd hfst =>
    obtain rfl : y = x := by rcases eq_or_eq_not y x with rfl | rfl <;> simp_all
    exact .second (by simp) (by simpa using hp) (by simpa using hne)
      (by rw [hdel]; simpa using hsnd)
      (by rw [hdel]; simpa using hfst)
  | first hx hp hne hfst hsnd =>
    obtain rfl : y = !x := by rcases eq_or_eq_not y x with rfl | rfl <;> simp_all
    exact .first (by simpa using hx) (by simp) (by simpa using hne) (by rw [hdel]; simpa using hfst)
      (by rw [hdel]; simpa using hsnd)

/-- Nothing has happened yet. -/
structure Idle (s : Pair α) : Prop where
  mode : ∀ x, (s.side x).mode = .out
  args : ∀ x, (s.side x).args = []
  results : ∀ x, (s.side x).results = []
  turns : s.turns = []

/-- A rendezvous that starts from nothing is idle, or in a phase of the side that came first. -/
theorem phases {s s' : Pair α} (h : Idle s) (hrun : Relation.ReflTransGen (Step e) s s')
    (he : ∀ y, e ∉ (s'.side y).args) :
    Idle s' ∨ ∃ x, s'.turns.head? = some x ∧ Phase e s' x := by
  refine preserved (I := fun s => (∀ y, e ∉ (s.side y).args) →
    Idle s ∨ ∃ x, s.turns.head? = some x ∧ Phase e s x) ?_ (fun _ => Or.inl h) hrun he
  intro s₁ s₂ ih hs he₂
  have he₁ : ∀ y, e ∉ (s₁.side y).args := fun y hy => he₂ y ((args_mono hs y).mem hy)
  right
  rcases ih he₁ with hidle | ⟨x, hx, hph⟩
  · cases hs with
    | park x v hx hy =>
      refine ⟨x, by simp [Pair.park, hidle.turns], .opened (by simp) ?_ (by simp) ?_ ?_ ?_ ?_⟩
      · simpa using hy
      · simp [hidle.args]
      · simp [hidle.results]
      · simp [hidle.args]
      · simp [hidle.results]
    | exchange x v hx hy => simp [hidle.mode] at hy
    | ret x hx => simp [hidle.mode] at hx
  · refine ⟨x, ?_, ?_⟩
    · cases hs <;> simp [Pair.park, Pair.exchange, Pair.ret, hx]
    · cases hs with
      | park y v hy hy' =>
        cases hph <;> rcases eq_or_eq_not y x with rfl | rfl <;> simp_all
      | exchange y v hy hy' => exact hph.exchange hy hy' he₁
      | ret y hy => exact hph.ret hy

section Results

variable {s : Pair α} {x : Bool}

omit [DecidableEq α] in
/-- The side that arrives second returns what the first one passed. -/
lemma Phase.results_second (h : Phase e s x) : (s.side !x).results <+: (s.side x).args := by
  cases h with
  | opened _ _ _ _ _ _ hres' => simp [hres']
  | second _ _ _ hsnd _ => exact hsnd ▸ (s.side !x).results_le_delivered
  | first _ _ _ _ hsnd => exact hsnd ▸ (s.side !x).results_le_delivered.trans (by simp)

omit [DecidableEq α] in
/-- The side that arrives first returns what the second one passed, with the first value
doubled. -/
lemma Phase.results_first (h : Phase e s x) :
    (s.side x).results <+: dupHead (s.side !x).args ∧
      (s.side x).results.length ≤ (s.side !x).args.length := by
  have hlen : ∀ l : List α, l ≠ [] → (dupHead l).length = l.length + 1 := by
    intro l hl
    cases l with
    | nil => exact absurd rfl hl
    | cons a l => rfl
  cases h with
  | opened _ _ _ _ hres _ _ => simp [hres]
  | second _ _ hne _ hfst =>
    have hp := (s.side x).results_le_delivered
    refine ⟨hfst ▸ hp.trans (by simp), hp.length_le.trans ?_⟩
    have := congrArg List.length hfst
    simp only [hlen _ hne, List.length_append, List.length_singleton] at this
    omega
  | first hx _ hne hfst _ =>
    refine ⟨hfst ▸ (s.side x).results_le_delivered, ?_⟩
    have := congrArg List.length hfst
    simp only [hlen _ hne, Side.delivered, hx, List.length_append, List.length_singleton,
      reduceCtorEq, if_false] at this
    omega

/-- A prefix of the doubled list is one of the list itself exactly if the list repeats its
elements that far. -/
lemma prefix_dupHead_iff {α : Type} {r w : List α} (hr : r <+: dupHead w)
    (hlen : r.length ≤ w.length) :
    r <+: w ↔ ∀ k, k + 1 < r.length → w[k + 1]? = w[k]? := by
  have hsucc : ∀ k, (dupHead w)[k + 1]? = w[k]? := by
    intro k
    cases w <;> rfl
  have hzero : (dupHead w)[0]? = w[0]? := by cases w <;> rfl
  have hget : ∀ k, k < r.length → r[k]? = (dupHead w)[k]? := by
    intro k hk
    obtain ⟨l, hl⟩ := hr
    rw [← hl, List.getElem?_append_left hk]
  constructor
  · rintro ⟨l, hl⟩ k hk
    rw [← hsucc k, ← hget (k + 1) hk, ← hl, List.getElem?_append_left hk]
  · intro h
    rw [List.prefix_iff_eq_take]
    refine List.ext_getElem? fun k => ?_
    rcases Nat.lt_or_ge k r.length with hk | hk
    · rw [List.getElem?_take_of_lt hk, hget k hk]
      cases k with
      | zero => exact hzero
      | succ k => rw [hsucc, h k hk]
    · rw [List.getElem?_eq_none hk, List.getElem?_eq_none (by simp; omega)]

omit [DecidableEq α] in
/-- Each side returns what the other one passed exactly if the side that arrives second has
passed the same value in all calls that the first one has returned from. -/
theorem Phase.paired_iff (h : Phase e s x) :
    (∀ y, (s.side y).results <+: (s.side !y).args) ↔
      ∀ k, k + 1 < (s.side x).results.length →
        (s.side !x).args[k + 1]? = (s.side !x).args[k]? := by
  obtain ⟨hr, hlen⟩ := h.results_first
  rw [← prefix_dupHead_iff hr hlen]
  constructor
  · exact fun hall => hall x
  · exact fun hx => both x hx (by simpa using h.results_second)

end Results

end Xv6.Lib.Rendezvous
