import Xv6.Lib.Spec

/-!
# Hoare triples for stateful programs that can fail

`Triple E P m Q`: started in a state that satisfies `P`, the program `m` returns a value and
a state related by `Q`, or stops with an error that satisfies `E`. There is one rule for
each construct of `do` notation.
-/

namespace Xv6.Lib

variable {ε σ α β γ : Type} {a : α} {f : α → StateT σ (Except ε) β} {m : StateT σ (Except ε) α}
  {s : σ}

/-- A program goes on where its first part returned. -/
lemma run_bind_of_ok {s' : σ} (h : m.run s = .ok (a, s')) : (m >>= f).run s = (f a).run s' := by
  rw [StateT.run_bind, h]
  rfl

lemma run_get_bind (f : σ → StateT σ (Except ε) β) (s : σ) : (get >>= f).run s = (f s).run s := rfl

lemma run_modify_bind (g : σ → σ) (f : PUnit → StateT σ (Except ε) β) (s : σ) :
    (modify g >>= f).run s = (f ⟨⟩).run (g s) := rfl

/-- Started where `P` holds, `m` returns where `Q` holds, or stops with an error that
satisfies `E`. -/
def Triple (E : ε → Prop) (P : σ → Prop) (m : StateT σ (Except ε) α) (Q : α → σ → Prop) : Prop :=
  ∀ s, P s → Post E (fun r => Q r.1 r.2) (m.run s)

namespace Triple

variable {E E' : ε → Prop} {P P' : σ → Prop} {Q Q' : α → σ → Prop} {R : β → σ → Prop} {l : List γ}

/-- A triple is proved for each state. -/
lemma of_run (h : ∀ s, P s → Post E (fun r => Q r.1 r.2) (m.run s)) : Triple E P m Q := h

/-- What a triple says about a run. -/
lemma run (h : Triple E P m Q) (hs : P s) : Post E (fun r => Q r.1 r.2) (m.run s) := h s hs

/-- A run from one state. -/
lemma of_eq {t : σ} (h : m.run s = .ok (a, t)) : Triple E (· = s) m fun b u => b = a ∧ u = t := by
  rintro _ rfl
  rw [h]
  exact ⟨rfl, rfl⟩

lemma pure (h : ∀ s, P s → Q a s) : Triple E P (pure a) Q := fun s hs => h s hs

/-- Returning a value that does not matter. -/
lemma skip : Triple E P (Pure.pure a) fun _ => P := .pure fun _ hs => hs

lemma bind (hm : Triple E P m Q) (hf : ∀ a, Triple E (Q a) (f a) R) : Triple E P (m >>= f) R := by
  intro s hs
  rw [StateT.run_bind]
  exact Post.bind ((hm s hs).mono fun r hr => hf r.1 r.2 hr)

/-- Applying a function to the result. -/
lemma map {f : α → β} (h : Triple E P m fun a => R (f a)) : Triple E P (f <$> m) R := by
  rw [map_eq_pure_bind]
  exact h.bind fun a => .pure fun _ ha => ha

lemma conseq (h : Triple E P m Q) (hpre : ∀ s, P' s → P s) (hpost : ∀ a s, Q a s → Q' a s) :
    Triple E P' m Q' :=
  fun s hs => (h s (hpre s hs)).mono fun r => hpost r.1 r.2

lemma pre (h : Triple E P m Q) (hpre : ∀ s, P' s → P s) : Triple E P' m Q :=
  h.conseq hpre fun _ _ hq => hq

lemma post (h : Triple E P m Q) (hpost : ∀ a s, Q a s → Q' a s) : Triple E P m Q' :=
  h.conseq (fun _ hp => hp) hpost

/-- More errors are allowed. -/
lemma weaken (h : Triple E P m Q) (hE : ∀ e, E e → E' e) : Triple E' P m Q := by
  intro s hs
  have hrun := h s hs
  revert hrun
  cases m.run s with
  | ok r => exact id
  | error e => exact hE e

/-- Two triples about one program. One of them says how it can stop. -/
lemma and (h : Triple E P m Q) (h' : Triple E' P' m Q') :
    Triple E (fun s => P s ∧ P' s) m fun a s => Q a s ∧ Q' a s := by
  intro s hs
  have hrun := h s hs.1
  have hrun' := h' s hs.2
  revert hrun hrun'
  cases m.run s with
  | ok r => exact fun hq hq' => ⟨hq, hq'⟩
  | error e => exact fun he _ => he

/-- A condition that does not depend on the state is an assumption. -/
lemma assume {φ : Prop} (h : φ → Triple E P m Q) :
    Triple E (fun s => φ ∧ P s) m Q := fun s hs => h hs.1 s hs.2

/-- The precondition may be used to prove the triple. -/
lemma of_pre (h : ∀ s, P s → Triple E P m Q) : Triple E P m Q :=
  fun s hs => h s hs s hs

/-- A precondition with an unknown. -/
lemma exists_pre {P : γ → σ → Prop} (h : ∀ x, Triple E (P x) m Q) :
    Triple E (fun s => ∃ x, P x s) m Q := fun s hs => hs.elim fun x hx => h x s hx

/-- A precondition with two cases. -/
lemma or_pre (h : Triple E P m Q) (h' : Triple E P' m Q) :
    Triple E (fun s => P s ∨ P' s) m Q := fun s hs => hs.elim (h s) (h' s)

lemma get_bind {f : σ → StateT σ (Except ε) β} (h : ∀ s, P s → Triple E (· = s) (f s) R) :
    Triple E P (get >>= f) R := fun s hs => h s hs s rfl

/-- Reading the state, when only what holds of it matters. -/
lemma read_bind {f : σ → StateT σ (Except ε) β} (h : ∀ s, P s → Triple E P (f s) R) :
    Triple E P (get >>= f) R :=
  get_bind fun s hs => (h s hs).pre fun _ ht => ht ▸ hs

lemma set {s' : σ} {R : PUnit → σ → Prop} (h : ∀ s, P s → R ⟨⟩ s') :
    Triple E P (set s') R := fun s hs => h s hs

lemma modify {g : σ → σ} {R : PUnit → σ → Prop} (h : ∀ s, P s → R ⟨⟩ (g s)) :
    Triple E P (modify g) R := fun s hs => h s hs

lemma throw {e : ε} (h : E e) : Triple E P (throw e) Q := fun _ _ => h

lemma throw_bind {e : ε} (h : E e) : Triple E P (MonadExceptOf.throw e >>= f) R := fun _ _ => h

lemma ite {c : Prop} [Decidable c] {x y : StateT σ (Except ε) α} (hx : c → Triple E P x Q)
    (hy : ¬c → Triple E P y Q) : Triple E P (if c then x else y) Q := by
  by_cases h : c
  · rw [if_pos h]
    exact hx h
  · rw [if_neg h]
    exact hy h

/-- A program without state, run on the way. -/
lemma lift_bind {x : Except ε α} (h : ∀ s, P s → Post E (fun a => Triple E (· = s) (f a) R) x) :
    Triple E P (liftM x >>= f) R := by
  intro s hs
  have hx := h s hs
  cases x with
  | ok a => exact hx s rfl
  | error e => exact hx

/-- The loop rule: `I done` holds after the rounds for the elements of `done`. -/
lemma forM {I : List γ → σ → Prop} {f : γ → StateT σ (Except ε) PUnit}
    (hstep : ∀ done c rest, l = done ++ c :: rest →
      Triple E (I done) (f c) fun _ => I (done ++ [c])) :
    Triple E (I []) (l.forM f) fun _ => I l := by
  have h : ∀ rest done, l = done ++ rest → Triple E (I done) (rest.forM f) fun _ => I l := by
    intro rest
    induction rest with
    | nil =>
      intro done hl
      rw [List.append_nil] at hl
      rw [hl]
      exact .pure fun _ hs => hs
    | cons c rest ih =>
      intro done hl
      exact (hstep done c rest hl).bind fun _ => ih (done ++ [c]) (by simp [hl])
  exact h l [] rfl

/-- The loop rule for an invariant that does not count the rounds. -/
lemma forM_inv {I : σ → Prop} {f : γ → StateT σ (Except ε) PUnit}
    (h : ∀ c, Triple E I (f c) fun _ => I) : Triple E I (l.forM f) fun _ => I :=
  forM (I := fun _ => I) fun _ c _ _ => h c

end Triple

-- so that no elaboration of a triple runs its program
attribute [irreducible] Triple

end Xv6.Lib
