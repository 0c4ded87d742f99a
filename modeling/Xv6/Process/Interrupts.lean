import Xv6.Process.Frame

/-!
# The interrupt state across `co_yield`

`sched` saves and restores `c->intena` around its `swtch`, but `co_yield` does not: the call that
is resumed releases its lock under the `intena` that the thread before it left. A peer that hands
over has interrupts enabled, so the call returns with interrupts enabled as well. The scheduler
leaves what it had when it picked the process, and after a `yield` from a trap it goes on with
interrupts disabled up to the top of its loop.
-/

namespace Xv6.Process

open Xv6.Lib

variable {m m' m₁ m₂ : Machine} {p t : Slot} {pid value status : BitVec 32} {k : Point}
  {ctx : Bool → Ctx} {a : Act} {i : ℕ}

/-! ## Interrupts are enabled in `co_yield` up to `find_proc` -/

/-- Interrupts are enabled where `co_yield` holds no lock. -/
def Enabled (m : Machine) : Prop := ∀ k, m.pc = .run k → k.inCall → m.sie = true

lemma Enabled.step (h : Enabled m) (he : Effect m m') : Enabled m' := by
  intro k hk hin
  cases he with
  | enter p pid value hpc _ _ _ _ _ _ hs =>
    rw [hs]
    exact h _ hpc rfl
  | scan p t pid value hpc _ _ _ _ _ _ hs =>
    rw [hs]
    exact h _ hpc rfl
  | _ => grind [Point.inCall, Machine.InScheduler]

lemma reachable_enabled (h : Reachable m) : Enabled m := by
  have hboot : Enabled boot := by
    intro k hk
    cases hk
  have hinv := preserved (I := fun m => Wf m ∧ Enabled m)
    (fun m m' hi hn => ⟨hi.1.step (hi.1.next hn), hi.2.step (hi.1.next hn).2⟩)
    ⟨boot_wf, hboot⟩ h
  exact hinv.2

/-! ## What a resumed call returns with -/

/-- The `swtch` to a process leaves the interrupt state of the thread before it in `c->intena`. -/
lemma intena_of_swtchProc (hwf : Wf m) (hn : Next m m₁) (hpc : m₁.pc = .swtchProc p) :
    m₁.intena = m.sie := by
  cases (hwf.next hn).2 with
  | pick _ _ _ _ _ _ _ _ hi => exact hi
  | park _ _ _ _ _ _ _ _ _ _ _ _ _ _ _ _ _ hi => exact hi
  | exchange _ _ _ _ _ _ _ _ _ _ _ _ _ _ _ _ _ _ hi => exact hi
  | _ => simp_all [Machine.InScheduler]

/-- A resumed call releases its lock under the `intena` it finds. -/
lemma coYieldResume_sie (hwf : Wf m₁) (hpc : m₁.pc = .swtchProc p)
    (hctx : (m₁.proc p).context = .coYield t pid value) (hr : step m₁ .run = .ok m₂) :
    m₂.sie = m₁.intena := by
  have hhands := hwf.hands
  unfold Hands at hhands
  rw [hpc] at hhands
  obtain ⟨hl, hn, hs⟩ := hhands
  simp only [step, hpc, onRun, resume, hctx, coYieldResume] at hr
  rw [release_eq (by simp [hl]) (by simpa using hs) (by simp [hn])] at hr
  cases hr
  simp [hn]

/-- The threads that can be before a process in `swtch`: the scheduler, or the caller of
`co_yield`. -/
lemma before_swtchProc (hwf : Wf m) (hn : Next m m₁) (hpc : m₁.pc = .swtchProc p) :
    m.InScheduler ∨ ∃ pid value i, m.pc = .run (.findProc pid value i) := by
  cases (hwf.next hn).2 with
  | pick q hin => exact .inl hin
  | park q t pid value hf => exact .inr ⟨_, _, _, hf⟩
  | exchange q t pid value hf => exact .inr ⟨_, _, _, hf⟩
  | _ => simp_all [Machine.InScheduler]

/-- A resumed call of `co_yield` returns with the interrupt state that every call is entered with
just if its peer resumed it, or the scheduler while that has interrupts enabled. -/
theorem coYield_interrupts (h : Reachable m) (hn : Next m m₁) (hpc : m₁.pc = .swtchProc p)
    (hctx : (m₁.proc p).context = .coYield t pid value) (hr : step m₁ .run = .ok m₂) {e : Machine}
    (he : Reachable e) {x y : BitVec 32} (hentry : e.pc = .run (.coYield x y)) :
    m₂.sie = e.sie ↔ (m.InScheduler → m.sie = true) := by
  have hwf := reachable_wf h
  rw [coYieldResume_sie (hwf.step (hwf.next hn)) hpc hctx hr, intena_of_swtchProc hwf hn hpc,
    reachable_enabled he _ hentry rfl]
  refine ⟨fun hsie _ => hsie, fun hon => ?_⟩
  rcases before_swtchProc hwf hn hpc with hin | ⟨pid, value, i, hf⟩
  · exact hon hin
  -- the peer is inside its own call
  · exact reachable_enabled h _ hf rfl

/-- The first process forks a child and is preempted; the child calls `co_yield(1, 10)`. -/
def childCalls : List Act :=
  [.run, .run, .run, .finish 0, .ecall .fork 0 0, .alloc .ok, .alloc .ok, .run, .run, .run, .run,
    .userIntr .timer 0 0, .run, .run, .run, .ecall .coYield 1 10]

/-- The child parks, and the first process calls `co_yield(2, 20)`. -/
def parentCalls : List Act :=
  childCalls ++ [.run, .run, .run, .ecall .coYield 2 20, .run, .run]

/-- The first process hands over to the child. -/
theorem coYield_interrupts_handoff :
    let m := runActs boot parentCalls
    (runActs (runActs m [.run]) [.run]).trace.getLast? = some (.ret 1 2 1 20 false) ∧
      (runActs (runActs m [.run]) [.run]).sie = (runActs boot childCalls).sie := by
  refine ⟨by decide +kernel, ?_⟩
  have hpc : (runActs boot parentCalls).pc = .run (.findProc 2 20 1) := by decide +kernel
  have hpc₁ : (runActs (runActs boot parentCalls) [.run]).pc = .swtchProc 1 := by decide +kernel
  have hctx : ((runActs (runActs boot parentCalls) [.run]).proc 1).context = .coYield 0 1 10 := by
    decide +kernel
  have hentry : (runActs boot childCalls).pc = .run (.coYield 1 10) := by decide +kernel
  refine (coYield_interrupts (reachable_runActs parentCalls) ⟨.run, step_runActs ?_⟩ hpc₁ hctx
    (step_runActs ?_) (reachable_runActs _) hentry).2 fun hin => ?_
  · decide +kernel
  · decide +kernel
  · simp [Machine.InScheduler, hpc] at hin

/-- The child parks, the first process kills it and is preempted twice; the scheduler finds the
child while interrupts are disabled. -/
def childKilled : List Act :=
  [.run, .run, .run, .ecall .kill 2 0, .run, .run, .run, .run, .userIntr .timer 0 0] ++
    List.replicate 67 .run ++ [.userIntr .timer 0 0, .run, .run, .run]

/-- The call of the child is entered with interrupts enabled, and returns with interrupts
disabled. -/
theorem coYield_returns_disabled :
    ∃ e, Reachable e ∧ e.pc = .run (.coYield 1 10) ∧ e.cpuProc = some 1 ∧ e.sie = true ∧
    ∃ m, Relation.ReflTransGen Next e m ∧
      m.trace = [.park 1 0 2 1 10, .ret 1 2 1 (-1) true] ∧
      m.pc = .run (.sysRet (-1)) ∧ m.cpuProc = some 1 ∧ m.sie = false :=
  ⟨runActs boot childCalls, reachable_runActs _, by decide +kernel, by decide +kernel,
    by decide +kernel, runActs (runActs boot childCalls) childKilled, runActs_run .., by
      decide +kernel, by decide +kernel, by decide +kernel, by decide +kernel⟩

end Xv6.Process
