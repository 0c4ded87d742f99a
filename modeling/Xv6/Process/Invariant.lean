import Xv6.Process.StepSpec

/-!
# The invariant of the process machine

`Wf` holds in every reachable state. It says who may be `RUNNING`, what a saved
context can be in each process state, that a child that `fork` is still building is
`USED`, and where a process suspended in `co_yield` is. It is derived from `Effect`
alone; the code itself is not looked at again.
-/

namespace Xv6.Process

open Xv6.Lib

/-- Process `q` executes its own code, at `k`. -/
def Machine.Active (m : Machine) (q : Slot) (k : Point) : Prop :=
  m.cpuProc = some q ∧ m.pc = .run k

/-- Process `q` is at `k`: it executes there, or was preempted there. -/
def Machine.At (m : Machine) (q : Slot) (k : Point) : Prop :=
  m.Active q k ∨
    (¬ ∃ k', m.Active q k') ∧ ∃ i, (m.proc q).context = .yieldKernel k i

/-- The invariant of the process machine. -/
structure Wf (m : Machine) : Prop where
  hands : Hands m
  /-- A `RUNNING` process is `c->proc`. -/
  running : ∀ p, (m.proc p).state = .running → m.cpuProc = some p
  idle : m.InScheduler → m.cpuProc = none
  atRun : ∀ k, m.pc = .run k → ∃ p, m.cpuProc = some p ∧ (m.proc p).state = .running
  atSwtch : ∀ p, m.pc = .swtchProc p → m.cpuProc = some p ∧ (m.proc p).state = .running
  atSched : m.pc = .swtchSched → ∀ p, m.cpuProc = some p → (m.proc p).state ≠ .running ∧
    ∀ t pid value, (m.proc p).context ≠ .coYield t pid value
  /-- A slot that holds no live process has no context of a live process. -/
  dead : ∀ p, (m.proc p).state = .unused ∨ (m.proc p).state = .zombie →
    (m.proc p).context = .none ∨ (m.proc p).context = .forkret ∨ (m.proc p).context = .exit
  used : ∀ p, (m.proc p).state = .used → (m.proc p).context = .forkret
  live : ∀ p, (m.proc p).state = .runnable ∨ (m.proc p).state = .sleeping ∨
    m.pc = .swtchProc p → (m.proc p).context ≠ .none ∧ (m.proc p).context ≠ .exit
  /-- The child that a process is building is `USED`, and it is built by one process. -/
  fork : ∀ q k np, m.At q k → k.fork? = some np → (m.proc np).state = .used
  forkInj : ∀ q q' k k' np, m.At q k → m.At q' k' → k.fork? = some np → k'.fork? = some np →
    q = q'
  find : ∀ q pid value i, m.At q (.findProc pid value i) →
    0 < pid.toInt ∧ pid ≠ (m.proc q).pid
  /-- A process suspended in `co_yield` sleeps there, or was killed there. -/
  parked : ∀ q t pid value, m.cpuProc ≠ some q → (m.proc q).context = .coYield t pid value →
    (m.proc q).killed = false ∧ (m.proc q).state = .sleeping ∧ (m.proc q).chan = .coChan t ∨
    (m.proc q).killed = true ∧ (m.proc q).state = .runnable
  sleeping : ∀ q, (m.proc q).state = .sleeping →
    (∃ t pid value, (m.proc q).context = .coYield t pid value ∧ (m.proc q).chan = .coChan t) ∨
    (∃ s i, (m.proc q).context = .sleep s i) ∧ ∀ t, (m.proc q).chan ≠ .coChan t

@[grind →]
lemma Nudged.state_eq {q q' : Proc} (h : Nudged q q') :
    q'.state = q.state ∨
      q.state = .sleeping ∧ (∀ t, q.chan ≠ .coChan t) ∧ q'.state = .runnable := by
  obtain ⟨st, pa, rfl, hst, -⟩ := h
  exact hst

@[grind →]
lemma Nudged.same {q q' : Proc} (h : Nudged q q') :
    q'.context = q.context ∧ q'.pid = q.pid ∧ q'.killed = q.killed ∧ q'.chan = q.chan ∧
      q'.trapframe = q.trapframe := by
  obtain ⟨st, pa, rfl, -⟩ := h
  exact ⟨rfl, rfl, rfl, rfl, rfl⟩

@[grind →]
lemma Ctx.Resumes.preempted_or_plain {c : Ctx} {k : Point} (h : c.Resumes k) :
    (∃ i, c = .yieldKernel k i) ∨ k.Plain := by
  cases c with
  | yieldKernel k' i => exact Or.inl ⟨i, by rw [h]⟩
  | forkret => exact Or.inr h
  | sleep s i => exact Or.inr h
  | yieldUser i => exact Or.inr h
  | none => cases h
  | coYield t pid value => cases h
  | exit => cases h

@[grind →]
lemma Point.Plain.fork?_eq {k : Point} (h : k.Plain) :
    k.fork? = none ∧ ∀ pid value i, k ≠ .findProc pid value i := by
  cases k <;> simp_all [Plain, fork?]

section Steps

variable {m m' : Machine} {np q : Slot}

lemma Wf.building (h : Wf m) {p : Slot} {pid : BitVec 32} (hcpu : m.cpuProc = some p) :
    (m.pc = .run (.forkParent np pid) → (m.proc np).state = .used) ∧
      (m.pc = .run (.forkRunnable np pid) → (m.proc np).state = .used) :=
  ⟨fun hpc => h.fork p _ np (Or.inl ⟨hcpu, hpc⟩) rfl,
    fun hpc => h.fork p _ np (Or.inl ⟨hcpu, hpc⟩) rfl⟩

/-- Only the current process runs. -/
lemma running_step (h : Wf m) (he : Effect m m') (p : Slot)
    (hp : (m'.proc p).state = .running) : m'.cpuProc = some p := by
  have := h.running
  have := h.idle
  have := h.atSched
  have := h.atSwtch
  cases he <;> grind

lemma idle_step (h : Wf m) (he : Effect m m') (hpc : m'.InScheduler) : m'.cpuProc = none := by
  have := h.idle
  cases he <;> grind [Machine.InScheduler]

lemma atRun_step (h : Wf m) (he : Effect m m') (k : Point) (hpc : m'.pc = .run k) :
    ∃ p, m'.cpuProc = some p ∧ (m'.proc p).state = .running := by
  have := h.atRun
  have := h.atSwtch
  have := @h.building
  cases he <;> grind [Machine.InScheduler]

lemma atSwtch_step (he : Effect m m') (p : Slot) (hpc : m'.pc = .swtchProc p) :
    m'.cpuProc = some p ∧ (m'.proc p).state = .running := by
  cases he <;> grind [Machine.InScheduler]

/-- In `swtch` to the scheduler the current process does not run any more. -/
lemma atSched_step (he : Effect m m') (hpc : m'.pc = .swtchSched) (p : Slot)
    (hcpu : m'.cpuProc = some p) : (m'.proc p).state ≠ .running ∧
      ∀ t pid value, (m'.proc p).context ≠ .coYield t pid value := by
  cases he <;> grind [Machine.InScheduler]

section Kept

variable (h : Wf m) (he : Effect m m')

include h he

lemma dead_step (p : Slot) (hp : (m'.proc p).state = .unused ∨ (m'.proc p).state = .zombie) :
    (m'.proc p).context = .none ∨ (m'.proc p).context = .forkret ∨ (m'.proc p).context = .exit := by
  have := h.dead p
  have := h.atRun
  have := h.atSwtch
  cases he <;> grind

lemma used_step (p : Slot) (hp : (m'.proc p).state = .used) : (m'.proc p).context = .forkret := by
  have := h.used p
  have := h.atRun
  have := h.atSwtch
  cases he <;> grind

/-- A process that can run has a context to resume. -/
lemma live_step (p : Slot)
    (hp : (m'.proc p).state = .runnable ∨ (m'.proc p).state = .sleeping ∨ m'.pc = .swtchProc p) :
    (m'.proc p).context ≠ .none ∧ (m'.proc p).context ≠ .exit := by
  have := h.live p
  have := h.used p
  have := h.atRun
  have := h.atSwtch
  have := @h.building
  cases he <;> grind [Machine.InScheduler]

/-- What is true of a process that is parked in `co_yield`. -/
lemma parked_step (q t : Slot) (pid value : BitVec 32) (hq : m'.cpuProc ≠ some q)
    (hctx : (m'.proc q).context = .coYield t pid value) :
    (m'.proc q).killed = false ∧ (m'.proc q).state = .sleeping ∧ (m'.proc q).chan = .coChan t ∨
    (m'.proc q).killed = true ∧ (m'.proc q).state = .runnable := by
  have := h.parked q t pid value
  have := h.dead q
  have := h.used q
  have := h.atRun
  have := h.idle
  have := h.atSwtch
  have := h.atSched
  have := @h.building
  cases he <;> grind [Machine.InScheduler]

/-- A sleeping process is parked in `co_yield`, or sleeps on another channel. -/
lemma sleeping_step (q : Slot) (hq : (m'.proc q).state = .sleeping) :
    (∃ t pid value, (m'.proc q).context = .coYield t pid value ∧
      (m'.proc q).chan = .coChan t) ∨
    (∃ s i, (m'.proc q).context = .sleep s i) ∧ ∀ t, (m'.proc q).chan ≠ .coChan t := by
  have := h.sleeping q
  have := h.atRun
  have := h.atSwtch
  cases he <;> grind [Machine.InScheduler]

/-- Who is at a point after a step was there before, unless it went there in this step. -/
lemma at_back {k : Point} (hat : m'.At q k) : m.At q k ∨ m.cpuProc = some q ∧ m'.pc = .run k := by
  have := h.atRun
  have := h.atSwtch
  have := h.atSched
  have := h.idle
  have := h.dead
  rw [Machine.At] at hat ⊢
  simp only [Machine.Active] at hat ⊢
  cases he <;> grind [Machine.InScheduler]

/-- A slot that is being built stays so until its builder makes it runnable. -/
lemma used_stays (hnp : (m.proc np).state = .used) :
    (m'.proc np).state = .used ∨
      ∃ p pid r, m.Active p (.forkRunnable np pid) ∧ m'.Active p (.sysRet r) := by
  have := h.atRun
  have := h.atSwtch
  simp only [Machine.Active]
  cases he <;> grind

/-- Who builds a child after a step did so before, or has just taken the slot. -/
lemma fork_back {k : Point} (hat : m'.At q k) (hk : k.fork? = some np) :
    (∃ k', m.At q k' ∧ k'.fork? = some np) ∨
      m.cpuProc = some q ∧ (m.proc np).state = .unused ∧ (m'.proc np).state = .used := by
  rcases at_back h he hat with hat | ⟨hcpu, hpc'⟩
  · exact Or.inl ⟨k, hat, hk⟩
  · have := h.atSwtch
    simp only [Machine.At, Machine.Active]
    cases he <;> grind [Machine.InScheduler, Point.fork?]

/-- The child of a `fork` in progress is `USED`. -/
lemma fork_step (q : Slot) (k : Point) (np : Slot) (hat : m'.At q k) (hk : k.fork? = some np) :
    (m'.proc np).state = .used := by
  rcases fork_back h he hat hk with ⟨k', hat', hk'⟩ | ⟨-, -, hused⟩
  · rcases used_stays h he (h.fork q k' np hat' hk') with hst | ⟨p, pid, r, hp, hp'⟩
    · exact hst
    · -- the builder is `q` itself, and it has left `fork`
      obtain rfl : q = p := h.forkInj q p k' _ np hat' (Or.inl hp) hk' rfl
      rcases hat with ⟨-, hpc⟩ | ⟨hno, -⟩
      · rw [hp'.2] at hpc
        cases hpc
        cases hk
      · exact absurd ⟨_, hp'⟩ hno
  · exact hused

lemma forkInj_step (q q' : Slot) (k k' : Point) (np : Slot) (hat : m'.At q k) (hat' : m'.At q' k')
    (hk : k.fork? = some np) (hk' : k'.fork? = some np) : q = q' := by
  rcases fork_back h he hat hk with ⟨k₁, h₁, hk₁⟩ | ⟨hcpu, hun, -⟩ <;>
    rcases fork_back h he hat' hk' with ⟨k₂, h₂, hk₂⟩ | ⟨hcpu', hun', -⟩
  · exact h.forkInj q q' k₁ k₂ np h₁ h₂ hk₁ hk₂
  · simp [h.fork q k₁ np h₁ hk₁] at hun'
  · simp [h.fork q' k₂ np h₂ hk₂] at hun
  · rw [hcpu, Option.some_inj] at hcpu'
    exact hcpu'

/-- A slot only becomes free when a zombie is reaped. -/
lemma unused_back (hq : (m'.proc q).state = .unused) :
    (m.proc q).state = .unused ∨ (m.proc q).state = .zombie := by
  have := h.atRun
  cases he <;> grind

/-- The pid of a slot does not change while the slot is in use. -/
lemma pid_kept (hq : (m.proc q).state ≠ .unused) (hq' : (m'.proc q).state ≠ .unused) :
    (m'.proc q).pid = (m.proc q).pid := by
  have := h.atRun
  cases he <;> grind

lemma pid_stays (hq : (m.proc q).state ≠ .unused) (hz : (m.proc q).state ≠ .zombie) :
    (m'.proc q).pid = (m.proc q).pid := by
  refine pid_kept h he hq fun hq' => ?_
  rcases unused_back h he hq' with hu | hz'
  · exact hq hu
  · exact hz hz'

end Kept

lemma Wf.at_state (h : Wf m) {k : Point} (hat : m.At q k) :
    (m.proc q).state ≠ .unused ∧ (m.proc q).state ≠ .zombie := by
  have := h.dead q
  have := h.atRun
  simp only [Machine.At, Machine.Active] at hat
  grind

/-- `find_proc` looks for a positive pid, not that of its caller. -/
lemma find_step (h : Wf m) (he : Effect m m') (q : Slot) (pid value : BitVec 32) (i : ℕ)
    (hat : m'.At q (.findProc pid value i)) : 0 < pid.toInt ∧ pid ≠ (m'.proc q).pid := by
  rcases at_back h he hat with hat | ⟨hcpu, hpc'⟩
  · obtain ⟨hu, hz⟩ := h.at_state hat
    rw [pid_stays h he hu hz]
    exact h.find q pid value i hat
  · have hfind := h.find q
    have := h.atSwtch
    simp only [Machine.At, Machine.Active] at hfind
    cases he <;> grind [Machine.InScheduler, Point.fork?]

/-- Every step keeps the invariant. -/
lemma Wf.step (h : Wf m) (hd : Done m m') : Wf m' where
  hands := hd.1
  running := running_step h hd.2
  idle := idle_step h hd.2
  atRun := atRun_step h hd.2
  atSwtch := atSwtch_step hd.2
  atSched := atSched_step hd.2
  dead := dead_step h hd.2
  used := used_step h hd.2
  live := live_step h hd.2
  fork := fork_step h hd.2
  forkInj := forkInj_step h hd.2
  find := find_step h hd.2
  parked := parked_step h hd.2
  sleeping := sleeping_step h hd.2

lemma Wf.ready (h : Wf m) : Ready m where
  hands := h.hands
  atRun := h.atRun
  atFind p pid value i hpc hcpu := (h.find p pid value i (Or.inl ⟨hcpu, hpc⟩)).2
  atSwtch p hpc := ⟨(h.atSwtch p hpc).1, h.live p (Or.inr (Or.inr hpc))⟩

end Steps

/-! ## Runs -/

lemma boot_proc (p : Slot) : boot.proc p = if p = 0 then
    { Proc.zero with state := .runnable, pid := 1, context := .forkret } else Proc.zero := by
  simp [boot, Function.update_apply]

lemma boot_not_at (q : Slot) (k : Point) : ¬ boot.At q k := by
  rintro (⟨hcpu, -⟩ | ⟨-, i, hctx⟩)
  · cases hcpu
  · rw [boot_proc] at hctx
    split at hctx <;> cases hctx

lemma boot_wf : Wf boot where
  hands := ⟨rfl, rfl⟩
  running p hp := by
    rw [boot_proc] at hp
    split at hp <;> cases hp
  idle _ := rfl
  atRun k hk := by cases hk
  atSwtch p hp := by cases hp
  atSched h := by cases h
  dead p _ := by
    rw [boot_proc]
    split <;> simp [Proc.zero]
  used p hp := by
    rw [boot_proc] at hp
    split at hp <;> cases hp
  live p hp := by
    rw [boot_proc] at hp ⊢
    split
    · simp
    · simp_all [Proc.zero, boot]
  fork q k np hat _ := absurd hat (boot_not_at q k)
  forkInj q _ k _ _ hat _ _ _ := absurd hat (boot_not_at q k)
  find q pid value i hat := absurd hat (boot_not_at q _)
  parked q t pid value _ hctx := by
    rw [boot_proc] at hctx
    split at hctx <;> cases hctx
  sleeping q hq := by
    rw [boot_proc] at hq
    split at hq <;> cases hq

/-- A step from a well-formed state has one of the listed effects. -/
lemma Wf.next {m m' : Machine} (h : Wf m) (hn : Next m m') : Done m m' := by
  obtain ⟨a, ha⟩ := hn
  exact (step_done h.ready).of_ok ha

/-- `Wf` holds in every reachable state. -/
theorem reachable_wf {m : Machine} (h : Reachable m) : Wf m := by
  exact preserved (fun m m' hwf hn => hwf.step (hwf.next hn)) boot_wf h

lemma runActs_run (m : Machine) (as : List Act) :
    Relation.ReflTransGen Next m (runActs m as) :=
  runActs_of_mem (fun a _ _ _ hs => ⟨a, eq_ok_of_toOption hs⟩) m

/-- Runs from boot reach only reachable states. -/
lemma reachable_runActs (as : List Act) : Reachable (runActs boot as) := runActs_run boot as

/-- An action that is possible is a step to the state it makes. -/
lemma step_runActs {m : Machine} {a : Act} (h : (step m a).isOk) :
    step m a = .ok (runActs m [a]) := by
  cases hs : step m a with
  | ok m' => simp [runActs, Lib.runActs, hs, Except.toOption]
  | error e =>
    rw [hs] at h
    cases h

end Xv6.Process
