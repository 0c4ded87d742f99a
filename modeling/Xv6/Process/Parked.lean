import Xv6.Process.Invariant

/-!
# Handing over the hart, and processes parked in `co_yield`

Two consequences of `Wf` for every reachable state:

* the lock discipline of `swtch`: whoever is resumed finds exactly its own lock held,
  also when `co_yield` switches directly from one process to another;
* a process suspended in `co_yield` sleeps on the `co_chan` of the slot it named until
  that slot's process answers, or is killed.
-/

namespace Xv6.Process

/-! ## The lock handed over by `swtch` -/

/-- In every reachable state the only `RUNNING` process is `c->proc`; at a `swtch` the hart
holds one lock, the one of the process being resumed or, on the way to the scheduler, of
`c->proc`, with `noff = 1`; and no step panics, except for `exit` of the first process. -/
theorem swtch_handoff (m : Machine) (h : Reachable m) :
    (∀ p, (m.proc p).state = .running → m.cpuProc = some p) ∧
    (∀ p q, (m.proc p).state = .running → (m.proc q).state = .running → p = q) ∧
    (∀ k, m.pc = .run k → ∃ p, m.cpuProc = some p ∧ (m.proc p).state = .running) ∧
    (∀ p, m.pc = .swtchProc p → m.cpuProc = some p ∧ (m.proc p).state = .running ∧
      m.noff = 1 ∧ m.locks = [.proc p]) ∧
    (m.pc = .swtchSched → ∃ p, m.cpuProc = some p ∧ m.noff = 1 ∧ m.locks = [.proc p]) ∧
    ∀ a msg, step m a = .error (.panic msg) → msg = "init exiting" := by
  have hwf := reachable_wf h
  have hh := hwf.hands
  rw [Hands] at hh
  refine ⟨hwf.running, fun p q hp hq => ?_, hwf.atRun, fun p hpc => ?_, fun hpc => ?_,
    fun a msg hstep => ?_⟩
  · have hpq := (hwf.running p hp).symm.trans (hwf.running q hq)
    exact Option.some_inj.mp hpq
  · rw [hpc] at hh
    exact ⟨(hwf.atSwtch p hpc).1, (hwf.atSwtch p hpc).2, hh.2.1, hh.1⟩
  · rw [hpc] at hh
    obtain ⟨p, hcpu, hl, hn, -⟩ := hh
    exact ⟨p, hcpu, hn, hl⟩
  · rcases (step_done hwf.ready).of_error hstep with hd | hp
    · cases hd
    · cases hp
      rfl

/-- The first process forks a child with pid 2 and parks on it. -/
def parkRun : List Act :=
  [.run, .run, .run, .finish 0, .ecall .fork 0 0, .alloc .ok, .alloc .ok, .run, .run, .run, .run,
    .ecall .coYield 2 10, .run, .run, .run]

/-- The child calls `co_yield(1, 20)` and switches to the first process. -/
def handoffRun : List Act := parkRun ++ [.run, .ecall .coYield 1 20, .run, .run]

/-- Both switches of `co_yield`: to the child, which never ran, and back to the first process. -/
theorem swtch_handoff_coYield :
    (runActs boot parkRun).trace = [.park 0 1 1 2 10] ∧
      (runActs boot parkRun).pc = .swtchProc 1 ∧ (runActs boot parkRun).locks = [.proc 1] ∧
    (runActs boot handoffRun).trace = [.park 0 1 1 2 10, .exchange 1 0 2 1 20] ∧
      (runActs boot handoffRun).pc = .swtchProc 0 ∧ (runActs boot handoffRun).cpuProc = some 0 ∧
      (runActs boot handoffRun).noff = 1 ∧ (runActs boot handoffRun).locks = [.proc 0] := by
  have hpc : (runActs boot parkRun).pc = .swtchProc 1 := by decide +kernel
  have hpc' : (runActs boot handoffRun).pc = .swtchProc 0 := by decide +kernel
  obtain ⟨-, -, -, h, -, -⟩ := swtch_handoff _ (reachable_runActs parkRun)
  obtain ⟨-, -, -, h', -, -⟩ := swtch_handoff _ (reachable_runActs handoffRun)
  obtain ⟨hcpu, -, hnoff, hlocks⟩ := h' 0 hpc'
  exact ⟨by decide +kernel, hpc, (h 1 hpc).2.2.2, by decide +kernel, hpc', hcpu, hnoff, hlocks⟩

/-! ## Parked processes -/

/-- Process `q` is asleep in `co_yield(pid, value)`, on the slot `t` it named. -/
def Machine.Parked (m : Machine) (q t : Slot) (pid value : BitVec 32) : Prop :=
  m.cpuProc ≠ some q ∧ (m.proc q).context = .coYield t pid value ∧
    (m.proc q).killed = false ∧ (m.proc q).state = .sleeping ∧ (m.proc q).chan = .coChan t

instance (m : Machine) (q t : Slot) (pid value : BitVec 32) :
    Decidable (m.Parked q t pid value) :=
  inferInstanceAs (Decidable (_ ∧ _ ∧ _ ∧ _ ∧ _))

/-- The process in slot `t` is in `find_proc`, about to find `q` for a `co_yield`. -/
def Machine.Names (m : Machine) (t q : Slot) : Prop :=
  m.cpuProc = some t ∧ ∃ v, m.pc = .run (.findProc (m.proc q).pid v q)

/-- A process that sleeps on a `co_chan` is not woken, at most it gets another parent. -/
lemma Nudged.parent_only {q q' : Proc} {t : Slot} (h : Nudged q q') (hch : q.chan = .coChan t) :
    q' = { q with parent := q'.parent } := by
  obtain ⟨st, pa, rfl, rfl | ⟨-, hno, -⟩, -⟩ := h
  · rfl
  · exact absurd hch (hno t)

/-- How a parked process may change in one step: not at all but for its parent, or the
process in slot `t` names it in a `co_yield` and resumes it, or it is killed. -/
lemma Machine.Parked.step {m m' : Machine} {q t : Slot} {pid value : BitVec 32}
    (hp : m.Parked q t pid value) (h : Wf m) (he : Effect m m') :
    (m'.Parked q t pid value ∧ Nudged (m.proc q) (m'.proc q)) ∨
    (m.Names t q ∧ m'.cpuProc = some q ∧ (m'.proc q).state = .running ∧
      ∃ w, m'.trace = m.trace ++ [.exchange t q (m.proc t).pid (m.proc q).pid w]) ∨
    ((∃ p, m.Active p (.kill (m.proc q).pid q)) ∧ (m'.proc q).killed = true ∧
      (m'.proc q).state = .runnable) := by
  obtain ⟨hcpu, hctx, hk, hst, hch⟩ := hp
  -- in the first case it is enough that the slot is the same but for wakeups
  have hsame : m'.cpuProc ≠ some q → Nudged (m.proc q) (m'.proc q) →
      m'.Parked q t pid value ∧ Nudged (m.proc q) (m'.proc q) := by
    rintro hcpu' hn
    obtain ⟨hctx', -, hk', hch', -⟩ := hn.same
    refine ⟨⟨hcpu', hctx'.trans hctx, hk'.trans hk, ?_, hch'.trans hch⟩, hn⟩
    rcases hn.state_eq with hst' | ⟨-, hno, -⟩
    · exact hst'.trans hst
    · exact absurd hch (hno t)
  have := h.atRun
  have := h.atSwtch
  have := h.idle
  have := @h.building
  cases he with
  | exchange p r pid' v hpc hc hpr hpid hst' hch' _ _ _ hcpu' htr _ hr ho =>
    by_cases hqr : q = r
    · subst hqr
      obtain rfl : t = p := by simpa [hch] using hch'
      exact Or.inr (Or.inl ⟨⟨hc, v, by rw [hpc, hpid]⟩, hcpu', by rw [hr], v, by rw [htr, hpid]⟩)
    · have hqp : q ≠ p := by
        rintro rfl
        exact hcpu hc
      exact Or.inl (hsame (by simpa [hcpu'] using Ne.symm hqr) (ho q hqp hqr ▸ Nudged.refl _))
  | kill p r pid' hpc hc hpid _ hcpu' _ hr ho =>
    by_cases hqr : q = r
    · subst hqr
      exact Or.inr (Or.inr ⟨⟨p, hc, by rw [hpc, hpid]⟩, by rw [hr], by simp [hr, hst]⟩)
    · exact Or.inl (hsame (hcpu' ▸ hc ▸ hcpu) (ho q hqr ▸ Nudged.refl _))
  | _ => exact Or.inl (hsame (by grind) (by grind [Nudged.refl]))

/-- In every reachable state, a process suspended in `co_yield` is either not killed and
asleep on the `co_chan` of the slot it named, or killed and `RUNNABLE`. It leaves the first
state only when the process in that slot names it in a `co_yield`, which makes it `RUNNING`,
or when it is killed, which makes it `RUNNABLE`; all other steps leave it as it is. -/
theorem suspended_in_coYield (m : Machine) (h : Reachable m) (q t : Slot) (pid value : BitVec 32)
    (hq : m.cpuProc ≠ some q) (hctx : (m.proc q).context = .coYield t pid value) :
    Xor ((m.proc q).killed = false ∧ (m.proc q).state = .sleeping ∧
        (m.proc q).chan = .coChan t)
      ((m.proc q).killed = true ∧ (m.proc q).state = .runnable) ∧
    ((m.proc q).killed = false → ∀ m', Next m m' →
      (m'.Parked q t pid value ∧ ∃ pa, m'.proc q = { m.proc q with parent := pa }) ∨
      (m.Names t q ∧ m'.cpuProc = some q ∧ (m'.proc q).state = .running) ∨
      ((∃ p, m.Active p (.kill (m.proc q).pid q)) ∧ (m'.proc q).killed = true ∧
        (m'.proc q).state = .runnable)) := by
  have hwf := reachable_wf h
  have hpk := hwf.parked q t pid value hq hctx
  refine ⟨?_, fun hk m' hn => ?_⟩
  · rcases hpk with ha | hb
    · exact Or.inl ⟨ha, by simp [ha.1]⟩
    · exact Or.inr ⟨hb, by simp [hb.1]⟩
  · have ha : m.Parked q t pid value := by
      rcases hpk with ha | hb
      · exact ⟨hq, hctx, ha⟩
      · simp [hb.1] at hk
    rcases ha.step hwf (hwf.next hn).2 with ⟨hp', hnud⟩ | ⟨hname, hcpu', hst', -⟩ | hkill
    · exact Or.inl ⟨hp', _, hnud.parent_only (t := t) ha.2.2.2.2⟩
    · exact Or.inr (Or.inl ⟨hname, hcpu', hst'⟩)
    · exact Or.inr (Or.inr hkill)

/-- The first process waits for its child in `co_yield(2, 10)`, and is not killed. -/
theorem suspended_in_coYield_first :
    ((runActs boot parkRun).proc 0).killed = false ∧
      ((runActs boot parkRun).proc 0).state = .sleeping := by
  have hk : ((runActs boot parkRun).proc 0).killed = false := by decide +kernel
  have h := suspended_in_coYield _ (reachable_runActs parkRun) 0 1 2 10 (by decide +kernel)
    (by decide +kernel)
  rcases h.1 with ⟨ha, -⟩ | ⟨hb, -⟩
  · exact ⟨ha.1, ha.2.1⟩
  · simp [hk] at hb

end Xv6.Process
