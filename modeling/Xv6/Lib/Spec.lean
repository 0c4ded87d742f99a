import Mathlib.Data.Nat.Notation
import Mathlib.Logic.Relation

/-!
# Specifications of fallible programs, and invariants of runs

* `Post E Q x`: the program `x : Except ε α` either returns a value that satisfies
  `Q` or stops with an error that satisfies `E`. The rules below follow the program's
  text: `pure`, `throw`, `>>=`, `if`, and the loop rule for `List.foldlM`;
* `preserved`: a property that one step keeps holds along every run;
* `runActs`: the run that a list of actions makes.
-/

namespace Xv6.Lib

universe u v

variable {ε : Type u} {α β : Type v} {E : ε → Prop} {f : α → Except ε β} {x : Except ε α}

/-- `x` returns a value satisfying `Q`, or stops with an error satisfying `E`. -/
def Post (E : ε → Prop) (Q : α → Prop) : Except ε α → Prop
  | .ok a => Q a
  | .error e => E e

instance (Q : α → Prop) [DecidablePred E] [DecidablePred Q] (x : Except ε α) :
    Decidable (Post E Q x) :=
  match x with
  | .ok a => inferInstanceAs (Decidable (Q a))
  | .error e => inferInstanceAs (Decidable (E e))

/-- What a sequence of two programs that returned `b` did. -/
lemma bind_eq_ok {b : β} (h : x >>= f = .ok b) : ∃ a, x = .ok a ∧ f a = .ok b := by
  cases x with
  | ok a => exact ⟨a, rfl, h⟩
  | error e => cases h

namespace Post

@[simp] lemma ok_iff {Q : α → Prop} {a : α} : Post E Q (.ok a) ↔ Q a := Iff.rfl

@[simp] lemma pure_iff {Q : α → Prop} {a : α} : Post E Q (pure a) ↔ Q a := Iff.rfl

@[simp] lemma throw_iff {Q : α → Prop} {e : ε} : Post E Q (throw e) ↔ E e := Iff.rfl

lemma bind {Q : β → Prop} (h : Post E (fun a => Post E Q (f a)) x) : Post E Q (x >>= f) := by
  cases x with
  | ok a => exact h
  | error e => exact h

/-- Sequencing after a program known to return `a`. -/
lemma bind_of_eq {Q : β → Prop} {a : α} (hx : x = .ok a) (h : Post E Q (f a)) :
    Post E Q (x >>= f) := by
  subst hx
  exact h

/-- Sequencing, when any error is allowed and it does not matter what comes first. -/
lemma bind_of_forall {Q : β → Prop} (h : ∀ a, Post (fun _ => True) Q (f a)) :
    Post (fun _ => True) Q (x >>= f) := by
  cases x with
  | ok a => exact h a
  | error e => trivial

/-- Weakening of the postcondition. -/
lemma mono {Q R : α → Prop} (h : Post E Q x) (hQR : ∀ a, Q a → R a) : Post E R x := by
  cases x with
  | ok a => exact hQR a h
  | error e => exact h

lemma map {Q : β → Prop} {f : α → β} (h : Post E (fun a => Q (f a)) x) : Post E Q (x.map f) := by
  cases x with
  | ok a => exact h
  | error e => exact h

lemma ite {Q : α → Prop} {c : Prop} [Decidable c] {y : Except ε α} (hx : c → Post E Q x)
    (hy : ¬c → Post E Q y) : Post E Q (if c then x else y) := by
  by_cases h : c
  · rw [if_pos h]
    exact hx h
  · rw [if_neg h]
    exact hy h

/-- A check that stops the program, when any error is allowed. -/
lemma guard {Q : α → Prop} {c : Prop} [Decidable c] {e : ε} (h : ¬c → Post (fun _ => True) Q x) :
    Post (fun _ => True) Q (if c then throw e else x) :=
  ite (fun _ => trivial) h

/-- What a program that returned `a` guarantees. -/
lemma of_ok {Q : α → Prop} {a : α} (h : Post E Q x) (hx : x = .ok a) : Q a := by
  subst hx
  exact h

/-- A program that cannot stop with an error returns. -/
lemma exists_ok {Q : α → Prop} (h : Post (fun _ => False) Q x) : ∃ a, x = .ok a ∧ Q a := by
  cases x with
  | ok a => exact ⟨a, rfl, h⟩
  | error e => exact h.elim

/-- What a program that stopped with `e` guarantees. -/
lemma of_error {Q : α → Prop} {e : ε} (h : Post E Q x) (hx : x = .error e) : E e := by
  subst hx
  exact h

/-- The loop rule: an invariant kept by every iteration holds at the end. -/
lemma foldlM {γ : Type*} {I : α → Prop} {f : α → γ → Except ε α} (l : List γ) {a : α}
    (hI : I a) (hstep : ∀ a c, I a → Post E I (f a c)) : Post E I (l.foldlM f a) := by
  induction l generalizing a with
  | nil => exact hI
  | cons c l ih =>
    rw [List.foldlM_cons]
    exact Post.bind ((hstep a c hI).mono fun b hb => ih hb)

/-- The loop rule for a counted loop: the invariant of round `k` leads to that of round
`k + 1`. -/
lemma foldlM_range {I : ℕ → α → Prop} {f : α → ℕ → Except ε α} {n : ℕ} {a : α} (h₀ : I 0 a)
    (hstep : ∀ k < n, ∀ a, I k a → Post E (I (k + 1)) (f a k)) :
    Post E (I n) ((List.range n).foldlM f a) := by
  induction n with
  | zero => exact h₀
  | succ n ih =>
    rw [List.range_succ, List.foldlM_append]
    refine Post.bind ((ih fun k hk => hstep k (by omega)).mono fun b hb => ?_)
    simpa using hstep n (by omega) b hb

end Post

/-! ## Runs -/

/-- A property kept by every step of `r` holds at the end of every run. -/
lemma preserved {σ : Type*} {r : σ → σ → Prop} {I : σ → Prop}
    (hstep : ∀ s s', I s → r s s' → I s') {s s' : σ} (hs : I s)
    (hrun : Relation.ReflTransGen r s s') : I s' := by
  induction hrun with
  | refl => exact hs
  | tail _ hlast ih => exact hstep _ _ ih hlast

section Actions

variable {σ τ : Type*} (step : σ → τ → Option σ) {r : σ → σ → Prop}

/-- Take the given actions from `s` on, up to the first one that is not possible. -/
def runActs (s : σ) : List τ → σ
  | [] => s
  | a :: acts =>
    match step s a with
    | some s' => runActs s' acts
    | none => s

/-- Every step of that run passes the test `ok`. -/
def checkActs (ok : σ → τ → σ → Bool) (s : σ) : List τ → Bool
  | [] => true
  | a :: acts =>
    match step s a with
    | some s' => ok s a s' && checkActs ok s' acts
    | none => true

variable {step}

/-- A run whose steps pass a test for the steps of `r` is a run of `r`. -/
lemma runActs_of_check {ok : σ → τ → σ → Bool}
    (hr : ∀ s a s', step s a = some s' → ok s a s' = true → r s s') {s : σ} {acts : List τ}
    (h : checkActs step ok s acts = true) : Relation.ReflTransGen r s (runActs step s acts) := by
  induction acts generalizing s with
  | nil => exact .refl
  | cons a acts ih =>
    unfold checkActs at h
    unfold runActs
    cases hs : step s a with
    | none => exact .refl
    | some s' =>
      rw [hs] at h
      obtain ⟨hok, hrest⟩ := Bool.and_eq_true_iff.1 h
      exact .head (hr s a s' hs hok) (ih hrest)

/-- A run of actions each of which is always a step of `r`. -/
lemma runActs_of_mem {acts : List τ} (hr : ∀ a ∈ acts, ∀ s s', step s a = some s' → r s s') (s : σ)
    : Relation.ReflTransGen r s (runActs step s acts) := by
  induction acts generalizing s with
  | nil => exact .refl
  | cons a acts ih =>
    unfold runActs
    cases hs : step s a with
    | none => exact .refl
    | some s' =>
      exact .head (hr a List.mem_cons_self s s' hs) (ih (fun b hb => hr b (by simp [hb])) s')

/-- The steps of a program are those that return. -/
lemma eq_ok_of_toOption {a : α} (h : x.toOption = some a) : x = .ok a := by
  cases x with
  | ok b => exact congrArg Except.ok (Option.some.inj h)
  | error e => cases h

end Actions

end Xv6.Lib
