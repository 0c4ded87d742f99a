import Xv6.Process.Effect

/-!
# Every block of kernel code has its effect

One lemma for each function of `Kernel`, stated for the locks the function is called
with. `step_spec` puts them together.
-/

namespace Xv6.Process

open Xv6.Lib
open Function (update_of_ne update_self)

/-- The goal of every block: the locks are as `Hands` says, and the step is one of the
kinds of `Effect`. -/
def Done (m m' : Machine) : Prop := Hands m' ∧ Effect m m'

/-- `m'` is `m` after some wakeups and reparentings. -/
def Stirred (m m' : Machine) : Prop :=
  m' = { m with proc := m'.proc } ∧ ∀ r, Nudged (m.proc r) (m'.proc r)

lemma Stirred.refl (m : Machine) : Stirred m m := ⟨rfl, fun _ => Nudged.refl _⟩

lemma Stirred.trans {m₁ m₂ m₃ : Machine} (h₁ : Stirred m₁ m₂) (h₂ : Stirred m₂ m₃) :
    Stirred m₁ m₃ := by
  refine ⟨?_, fun r => (h₁.2 r).trans (h₂.2 r)⟩
  rw [h₂.1, h₁.1]

/-- `m'` is `m` after some wakeups, which skip the current process. -/
def Woken (m m' : Machine) : Prop :=
  Stirred m m' ∧ ∀ q, m.cpuProc = some q → m'.proc q = m.proc q

lemma Woken.refl (m : Machine) : Woken m m := ⟨Stirred.refl m, fun _ _ => rfl⟩

lemma Woken.trans {m₁ m₂ m₃ : Machine} (h₁ : Woken m₁ m₂) (h₂ : Woken m₂ m₃) : Woken m₁ m₃ := by
  refine ⟨h₁.1.trans h₂.1, fun q hq => ?_⟩
  have hq₂ : m₂.cpuProc = some q := by
    rw [h₁.1.1]
    exact hq
  rw [h₂.2 q hq₂, h₁.2 q hq]

/-! ## `wakeup` and `reparent` -/

section Loops

variable {m : Machine} {f : Slot → Proc} {p : Slot}

/-- The locks under which `wakeup` may be called. -/
def NoProcLock (m : Machine) : Prop :=
  (∀ r, Lock.proc r ∉ m.locks) ∧ 1 ≤ m.noff ∧ m.sie = false

lemma Stirred.noProcLock {m' : Machine} (h : Stirred m m') (hm : NoProcLock m) : NoProcLock m' := by
  rw [h.1]
  exact hm

/-- A critical section leaves its updates of the process table and `c->intena` behind. -/
lemma Machine.section_eq {l : Lock} (hs : 1 ≤ m.noff → m.sie = false) :
    ({ m.locked l with proc := f } : Machine).unlocked l =
      { m with proc := f, intena := (m.locked l).intena } := by
  rcases Nat.eq_zero_or_pos m.noff with hn | hn
  · simp [Machine.unlocked, Machine.locked, hn]
  · have hn0 : ¬ m.noff = 0 := by omega
    simp [Machine.unlocked, Machine.locked, hn0, hs hn]

/-- A critical section inside another one leaves only its updates behind. -/
lemma Machine.nested_eq {l : Lock} (hn : 1 ≤ m.noff) (hs : m.sie = false) :
    ({ m.locked l with proc := f } : Machine).unlocked l = { m with proc := f } := by
  have hn0 : ¬ m.noff = 0 := by omega
  rw [Machine.section_eq (fun _ => hs)]
  simp [hn0]

/-- One round of `wakeup`, for another process than the current one. -/
lemma wakeupOne_eq {c : Chan} (hm : NoProcLock m) (hp : m.cpuProc ≠ some p) :
    wakeupOne c m p = .ok (m.setProc p fun q =>
      if q.state = .sleeping ∧ q.chan = c then { q with state := .runnable } else q) := by
  obtain ⟨hl, hn, hs⟩ := hm
  rw [wakeupOne, if_neg hp, acquire_eq (hl p)]
  simp only [Except.bind, bind]
  rw [release_eq (by simp) (by simp) (by simp)]
  exact congrArg Except.ok (Machine.nested_eq hn hs)

lemma wakeupOne_wakes {c : Chan} (hc : ∀ t, c ≠ .coChan t) (hm : NoProcLock m) :
    Post Allowed (Woken m) (wakeupOne c m p) := by
  by_cases hp : m.cpuProc = some p
  · rw [wakeupOne, if_pos hp]
    exact Woken.refl m
  · rw [wakeupOne_eq hm hp]
    refine ⟨⟨rfl, fun r => ?_⟩, fun q hq => ?_⟩
    · by_cases hr : r = p
      · subst hr
        simp only [Machine.setProc_proc, update_self]
        split
        · next h =>
          exact ⟨.runnable, _, rfl, Or.inr ⟨h.1, fun t => h.2 ▸ hc t, rfl⟩, Or.inl rfl⟩
        · exact Nudged.refl _
      · rw [Machine.setProc_proc, update_of_ne hr]
        exact Nudged.refl _
    · have hqp : q ≠ p := by
        rintro rfl
        exact hp hq
      rw [Machine.setProc_proc, update_of_ne hqp]

/-- `wakeup` on a channel that is not a `co_chan` leaves the processes parked in
`co_yield` alone. -/
lemma wakeup_wakes {c : Chan} (hc : ∀ t, c ≠ .coChan t) (hm : NoProcLock m) :
    Post Allowed (Woken m) (wakeup c m) := by
  refine Post.foldlM _ (Woken.refl m) fun m₁ p h₁ => ?_
  exact (wakeupOne_wakes hc (h₁.1.noProcLock hm)).mono fun m₂ h₂ => h₁.trans h₂

lemma reparentOne_stirs {pp : Slot} (hm : NoProcLock m) :
    Post Allowed (Stirred m) (reparentOne p m pp) := by
  rw [reparentOne]
  refine Post.ite (fun hparent => ?_) fun _ => Stirred.refl m
  have hset : Stirred m (m.setProc pp fun q => { q with parent := some m.initproc }) := by
    refine ⟨rfl, fun r => ?_⟩
    by_cases hr : r = pp
    · subst hr
      rw [Machine.setProc_proc, update_self]
      exact ⟨_, _, rfl, Or.inl rfl, Or.inr (by simp [hparent])⟩
    · rw [Machine.setProc_proc, update_of_ne hr]
      exact Nudged.refl _
  refine (wakeup_wakes (by simp) (hset.noProcLock hm)).mono fun m' h' => ?_
  exact hset.trans h'.1

/-- `reparent` changes parents and wakes the first process. -/
lemma reparent_stirs (hm : NoProcLock m) : Post Allowed (Stirred m) (reparent p m) := by
  refine Post.foldlM _ (Stirred.refl m) fun m₁ pp h₁ => ?_
  exact (reparentOne_stirs (h₁.noProcLock hm)).mono fun m₂ h₂ => h₁.trans h₂

end Loops

/-! ## The scheduler -/

section Quiet

variable {α : Type} {m : Machine} {p np : Slot} {l : Lock} {Q : α → Prop}
  {f : Machine → Except Stop α} {i : ℕ} {ctx : Bool → Ctx} {addr r : BitVec 64} {copied : Bool}
  {d : Intr} {status : BitVec 32} {a : Act} {o : AllocOutcome}

/-- A program that first acquires a free lock. -/
lemma Post.acquire (h : l ∉ m.locks) (hf : Post Allowed Q (f (m.locked l))) :
    Post Allowed Q (acquire l m >>= f) :=
  Post.bind_of_eq (acquire_eq h) hf

/-- A program that first releases a held lock. -/
lemma Post.release (h : l ∈ m.locks) (hs : m.sie = false) (hn : 1 ≤ m.noff)
    (hf : Post Allowed Q (f (m.unlocked l))) : Post Allowed Q (release l m >>= f) :=
  Post.bind_of_eq (release_eq h hs hn) hf

/-- `scheduler` passes over a slot, or switches to its process. -/
lemma schedulerScan_done (hl : m.locks = []) (hn : m.noff = 0) (hpc : m.pc = .schedScan i) :
    Post Allowed (Done m) (schedulerScan i m) := by
  have hin : m.InScheduler := Or.inr ⟨i, hpc⟩
  rw [schedulerScan]
  split
  · next h =>
    refine Post.acquire (by simp [hl]) (Post.ite (fun hst => ?_) fun hst => ?_)
    · refine ⟨by simp [Hands, hl, hn],
        Effect.pick ⟨i, h⟩ hin hst rfl rfl rfl (by simp) (fun r hr => ?_) (by simp [hn])⟩
      simp [hr]
    · refine Post.release (by simp) (by simp) (by simp) ?_
      refine ⟨by simp [Hands, hl, hn], Effect.idle hin (Or.inr ⟨i + 1, rfl⟩) rfl rfl ?_⟩
      exact fun r => Nudged.refl _
  · exact ⟨by simp [Hands, hl, hn],
      Effect.idle hin (Or.inl rfl) rfl rfl fun r => Nudged.refl _⟩

/-- `scheduler` releases the lock that its `swtch` was given. -/
lemma schedulerResume_done (hl : m.locks = [.proc p]) (hn : m.noff = 1) (hs : m.sie = false)
    (hcpu : m.cpuProc = some p) (hpc : m.pc = .swtchSched) :
    Post Allowed (Done m) (schedulerResume m) := by
  rw [schedulerResume, hcpu]
  refine Post.release (by simp [hl]) hs (by simp [hn]) ?_
  exact ⟨by simp [Hands, hl, hn], Effect.back hpc (Or.inr ⟨_, rfl⟩) rfl rfl rfl⟩

/-! ## Calls inside a block -/

/-- The current process goes from a point outside `fork` to a plain one. -/
lemma Effect.goto {m' : Machine} {k k' : Point} (hpc : m.pc = .run k) (hk : k.fork? = none)
    (hcpu : m.cpuProc = some p) (hpc' : m'.pc = .run k') (hk' : k'.Plain ∧ k'.inCall = false)
    (hcpu' : m'.cpuProc = some p) (htr : m'.trace = m.trace) (hproc : m'.proc = m.proc) :
    Effect m m' := by
  refine Effect.move p k k' hpc hcpu hpc' (Or.inr ⟨hk'.1, hk⟩) hcpu' htr
    ⟨_, _, congrFun hproc p⟩ (fun r _ => ?_) (Or.inl hk'.2)
  rw [hproc]
  exact Nudged.refl _

/-- `allocpid`, called with the lock of the new slot held. -/
lemma allocpid_eq (hl : m.locks = []) (hn : m.noff = 0) :
    allocpid (m.locked (.proc np)) =
      .ok (m.nextpid, { m.locked (.proc np) with nextpid := m.nextpid + 1 }) := by
  rw [allocpid, acquire_eq (by simp [hl])]
  simp only [Except.bind, bind]
  rw [release_eq (by simp) (by simp) (by simp)]
  simp [Machine.unlocked, Machine.locked, hl, hn, pure, Except.pure]

/-- The exits of `fork` that give the slot back. -/
lemma freeproc_done {m' : Machine} (hcpu : m.cpuProc = some p) (hpc : m.pc = .run (.allocproc i))
    (hst : (m.proc np).state = .unused) (hlocks : m'.locks = [.proc np]) (hnoff : m'.noff = 1)
    (hsie : m'.sie = false) (hcpu' : m'.cpuProc = some p) (htr : m'.trace = m.trace)
    (hctx : (m'.proc np).context = (m.proc np).context ∨ (m'.proc np).context = .forkret)
    (ho : ∀ r, r ≠ np → m'.proc r = m.proc r) :
    Post Allowed (Done m) (do
      let m ← release (.proc np) (freeproc np m')
      pure (m.goto (.sysRet minusOne))) := by
  refine Post.release (by simp [freeproc, hlocks]) hsie (by simp [freeproc, hnoff]) ?_
  refine ⟨by simp [Hands, freeproc, hlocks, hnoff],
    Effect.forkFail p np _ hpc rfl hcpu hst rfl hcpu' htr ?_ ?_ fun r hr => ?_⟩
  · simpa [freeproc] using hctx
  · constructor <;> simp [freeproc]
  · simpa [freeproc, hr] using ho r hr

/-- The checks of `sched` hold, and it switches to the scheduler. -/
lemma sched_eq (hl : m.locks = [.proc p]) (hn : m.noff = 1) (hs : m.sie = false)
    (hst : (m.proc p).state ≠ .running) :
    sched p ctx m = .ok { m.setProc p (fun q => { q with context := ctx m.intena }) with
      pc := .swtchSched } := by
  simp [sched, holding, hl, hn, hs, hst, pure, Except.pure]

/-- `sleep`, called in `m₁` with only its lock held; the block started in `m`. -/
lemma sleep_done {m₁ : Machine} {k : Point} {c : Chan} {lk : Lock} {s : Sleeper}
    (hcpu : m.cpuProc = some p) (hpc : m.pc = .run k) (hk : k.fork? = none)
    (hc : ∀ t, c ≠ .coChan t) (hlk : ∀ r, lk ≠ .proc r) (hl : m₁.locks = [lk])
    (hn : m₁.noff = 1) (hproc : m₁.proc = m.proc) (hcpu₁ : m₁.cpuProc = m.cpuProc)
    (htr : m₁.trace = m.trace) : Post Allowed (Done m) (sleep p c lk s m₁) := by
  rw [sleep]
  refine Post.acquire (by simp [hl, (hlk p).symm]) ?_
  refine Post.release (by simp [hl]) (by simp) (by simp) ?_
  rw [sched_eq (by simp [hl, (hlk p).symm]) (by simp [hn]) (by simp [hn]) (by simp)]
  refine ⟨?_, Effect.sleep p k s m₁.intena c hpc hk hcpu rfl ?_ ?_ hc ?_ fun r hr => ?_⟩
  · exact ⟨p, by simp [hcpu₁, hcpu], by simp [hl, (hlk p).symm], by simp [hn], by simp [hn]⟩
  · simp [hcpu₁, hcpu]
  · simp [htr]
  · simp [hproc, hn]
  · simp [hr, hproc]

lemma parentChan_ne (q : Proc) (t : Slot) : parentChan q ≠ .coChan t := by
  rw [parentChan]
  split <;> simp

/-- The scan of `wait`: it leaves the machine as it was, or frees one zombie. -/
lemma waitScan_spec (ps : List Slot) (havekids : Bool) (hl : m.locks = [.waitLock])
    (hn : m.noff = 1) (hs : m.sie = false) :
    Post Allowed (fun r =>
      (∃ q pid, (m.proc q).state = .zombie ∧ r = (.reaped pid, freeproc q m)) ∨
        (∀ pid, r.1 ≠ .reaped pid) ∧ r.2 = m) (waitScan p addr copied ps havekids m) := by
  induction ps generalizing havekids with
  | nil => exact Or.inr ⟨by simp, rfl⟩
  | cons q ps ih =>
    rw [waitScan]
    refine Post.ite (fun _ => ?_) fun _ => ih havekids
    refine Post.acquire (by simp [hl]) (Post.ite (fun hz => ?_) fun _ => ?_)
    · refine Post.ite (fun _ => ?_) fun _ => ?_
      · refine Post.release (by simp) (by simp) (by simp) ?_
        exact Or.inr ⟨by simp, Machine.nested_eq (by simp [hn]) hs⟩
      · refine Post.release (by simp [freeproc]) (by simp [freeproc]) (by simp [freeproc]) ?_
        exact Or.inl ⟨q, (m.proc q).pid, hz, Prod.ext rfl (Machine.nested_eq (by simp [hn]) hs)⟩
    · refine Post.release (by simp) (by simp) (by simp) ?_
      have hback : (m.locked (.proc q)).unlocked (.proc q) = m :=
        Machine.nested_eq (by simp [hn]) hs
      rw [hback]
      exact ih true

/-- `killed(p)` reads the flag; only `c->intena` may differ after it. -/
lemma killed_spec (hl : .proc p ∉ m.locks) (hs : 1 ≤ m.noff → m.sie = false) :
    Post Allowed (fun r => r.1 = (m.proc p).killed ∧ ∃ i, r.2 = { m with intena := i })
      (killed p m) := by
  rw [killed]
  refine Post.acquire hl (Post.release (by simp) (by simp) (by simp) ?_)
  exact ⟨rfl, _, Machine.section_eq hs⟩

/-- The exits of `wait` that release `wait_lock` and free nothing. -/
lemma waitReturn_done {m₁ : Machine} (hcpu : m.cpuProc = some p) (hpc : m.pc = .run (.wait addr))
    (hl : m₁.locks = [.waitLock]) (hn : m₁.noff = 1) (hs : m₁.sie = false)
    (hproc : m₁.proc = m.proc) (hcpu₁ : m₁.cpuProc = m.cpuProc) (htr : m₁.trace = m.trace) :
    Post Allowed (Done m) (do
      let m ← release .waitLock m₁
      pure (m.goto (.sysRet r))) := by
  refine Post.release (by simp [hl]) hs (by simp [hn]) ?_
  exact ⟨by simp [Hands, hl, hn], Effect.goto hpc rfl hcpu rfl ⟨trivial, rfl⟩
    (hcpu₁.trans hcpu) htr hproc⟩

/-- Wakeups under a lock `l` that is no process lock. -/
lemma wakeSection_spec (hl : m.locks = []) (hn : m.noff = 0) (hlp : ∀ r, l ≠ .proc r)
    {f : Machine → Exec} (hf : ∀ m, NoProcLock m → Post Allowed (Woken m) (f m)) :
    Post Allowed (fun m' => ∃ i, Woken { m with intena := i } m') (do
      let m ← acquire l m
      let m ← f m
      release l m) := by
  refine Post.acquire (by simp [hl]) (Post.bind ?_)
  refine (hf _ ⟨?_, by simp, rfl⟩).mono fun m₁ h₁ => ?_
  · simp [hl, fun r => (hlp r).symm]
  obtain ⟨⟨heq, hnud⟩, hcur⟩ := h₁
  have hrel : release l m₁ = .ok { m with proc := m₁.proc, intena := (m.locked l).intena } := by
    rw [release_eq (by rw [heq]; simp) (by rw [heq]; rfl) (by rw [heq]; simp), heq]
    exact congrArg Except.ok (Machine.section_eq (by simp [hn]))
  rw [hrel]
  exact ⟨(m.locked l).intena, ⟨rfl, hnud⟩, hcur⟩

/-- `devintr` may wake processes that do not wait in `co_yield`. -/
lemma devintr_spec (hl : m.locks = []) (hn : m.noff = 0) :
    Post Allowed (fun m' => ∃ i, Woken { m with intena := i } m') (devintr d m) := by
  cases d with
  | timer => exact wakeSection_spec hl hn (by simp) fun m => wakeup_wakes (by simp)
  | device lk chans =>
    refine wakeSection_spec hl hn (by simp) fun m hm => ?_
    refine Post.foldlM _ (Woken.refl m) fun m₁ c h₁ => ?_
    exact (wakeup_wakes (by simp) (h₁.1.noProcLock hm)).mono fun m₂ h₂ => h₁.trans h₂

/-- `yield`, called in `m₁` after the wakeups of an interrupt; the block started in `m`. -/
lemma yield_done {m₁ : Machine} {k : Point} {tf : Trapframe} (hcpu : m.cpuProc = some p)
    (hpc : m.pc = .run k) (hl : m₁.locks = []) (hn : m₁.noff = 0)
    (hctx : ∀ i, (∃ i', ctx i = .yieldUser i') ∧ k = .user ∨ ∃ i', ctx i = .yieldKernel k i')
    (hcpu₁ : m₁.cpuProc = some p) (htr : m₁.trace = m.trace)
    (hp : m₁.proc p = { m.proc p with trapframe := tf })
    (ho : ∀ r, r ≠ p → Nudged (m.proc r) (m₁.proc r)) : Post Allowed (Done m) (yield p ctx m₁) := by
  rw [yield]
  refine Post.acquire (by simp [hl]) ?_
  rw [sched_eq (by simp [hl]) (by simp [hn]) (by simp) (by simp)]
  refine ⟨⟨p, by simp [hcpu₁], by simp [hl], by simp [hn], by simp⟩,
    Effect.preempt p k (ctx m₁.sie) tf hpc hcpu rfl (by simp [hcpu₁]) (by simp [htr]) (hctx _)
      (by simp [hp, hn]) fun r hr => ?_⟩
  simpa [hr] using ho r hr

/-- `m₁` is a state inside `usertrap`, in a block that started in `m` at `k`: only the
saved registers and the killed flag of `p` have changed, and others may have been woken. -/
structure InTrap (m : Machine) (p : Slot) (k : Point) (m₁ : Machine) : Prop where
  pc : m.pc = .run k
  plain : k.fork? = none
  cpu : m.cpuProc = some p
  locks : m₁.locks = []
  noff : m₁.noff = 0
  cpu₁ : m₁.cpuProc = some p
  trace : m₁.trace = m.trace
  self : ∃ tf kd, m₁.proc p = { m.proc p with trapframe := tf, killed := kd }
  others : ∀ r, r ≠ p → Nudged (m.proc r) (m₁.proc r)

namespace InTrap

variable {m₁ : Machine} {k : Point} (h : InTrap m p k m₁)

include h

/-- The current process goes on at `k'`. -/
lemma goto {k' : Point} {s : Bool} (hk' : k'.Plain) (hs : k'.inCall = false ∨ s = true) :
    Done m { m₁ with sie := s, pc := .run k' } :=
  ⟨by simp [Hands, h.locks, h.noff], Effect.move p k k' h.pc h.cpu rfl (Or.inr ⟨hk', h.plain⟩)
    h.cpu₁ h.trace h.self h.others hs⟩

lemma killed : Post Allowed (fun r => InTrap m p k r.2) (killed p m₁) := by
  refine (killed_spec (by simp [h.locks]) (by simp [h.noff])).mono ?_
  rintro ⟨kd, m₂⟩ ⟨-, i, rfl⟩
  exact { h with }

lemma exitEntry : Post Allowed (Done m) (exitEntry p status m₁) := by
  rw [Process.exitEntry]
  refine Post.ite (fun _ => Or.inr rfl) fun _ => ?_
  exact h.goto (s := m₁.sie) trivial (Or.inl rfl)

lemma syscall {c : Call} (hs : m₁.sie = true) : Post Allowed (Done m) (syscall p c m₁) := by
  cases c with
  | exit => exact h.exitEntry
  | coYield | kill | fork | wait | other => exact h.goto (s := m₁.sie) trivial (Or.inr hs)

lemma trapRet : Post Allowed (Done m) (trapRet p m₁) := by
  refine Post.bind (h.killed.mono ?_)
  rintro ⟨kd, m₂⟩ h₂
  refine Post.ite (fun _ => h₂.exitEntry) fun _ => ?_
  exact h₂.goto trivial (Or.inl rfl)

end InTrap

/-! ## Blocks of the current process -/

/-- Partial correctness: any error is allowed. -/
abbrev Returns (Q : α → Prop) (x : Except Stop α) : Prop := Post (fun _ => True) Q x

/-- What the blocks need of the state they start in. -/
structure Ready (m : Machine) : Prop where
  hands : Hands m
  atRun : ∀ k, m.pc = .run k → ∃ p, m.cpuProc = some p ∧ (m.proc p).state = .running
  atFind : ∀ p pid value i, m.pc = .run (.findProc pid value i) → m.cpuProc = some p →
    pid ≠ (m.proc p).pid
  atSwtch : ∀ p, m.pc = .swtchProc p → m.cpuProc = some p ∧ (m.proc p).context ≠ .none ∧
    (m.proc p).context ≠ .exit

lemma onRun_done {x : Exec} (h : Post Allowed (Done m) x) : Post Allowed (Done m) (onRun a x) := by
  cases a <;> first | exact h | exact Or.inl rfl

section Current

variable (hl : m.locks = []) (hn : m.noff = 0) (hcpu : m.cpuProc = some p) {pid value : BitVec 32}
  {t : Slot} {chan lk : ℕ} {k : After} {a0 a1 : BitVec 64}

include hl hn hcpu

/-! ### `co_yield` -/

/-- `co_yield` up to the call of `find_proc`. -/
lemma coYieldEntry_done (hpc : m.pc = .run (.coYield pid value)) :
    Post Allowed (Done m) (coYieldEntry p pid value m) := by
  rw [coYieldEntry]
  refine Post.ite (fun h => ?_) fun h => ?_
  · exact ⟨by simp [Hands, coYieldFail, hl, hn],
      Effect.fail p _ pid value hpc hcpu (.badPid h) rfl hcpu rfl rfl⟩
  · rw [not_or, not_le] at h
    exact ⟨by simp [Hands, hl, hn], Effect.enter p pid value hpc hcpu h rfl hcpu rfl rfl rfl⟩

/-- The exits of `co_yield` that only hold the target's lock. -/
lemma coYieldFail_done (hpc : m.pc = .run (.findProc pid value t))
    (hwhy : Fails m p pid value (.findProc pid value t)) :
    Post Allowed (Done m) (do
      let m ← release (.proc t) (m.locked (.proc t))
      pure (coYieldFail p pid value m)) := by
  refine Post.release (by simp) (by simp) (by simp) ?_
  exact ⟨by simp [Hands, coYieldFail, hl, hn],
    Effect.fail p _ pid value hpc hcpu hwhy rfl hcpu rfl rfl⟩

/-- The exits of `co_yield` that find the caller killed. -/
lemma coYieldKilled_done (hpc : m.pc = .run (.findProc pid value t))
    (hwhy : Fails m p pid value (.findProc pid value t)) :
    Post Allowed (Done m) (do
      let m ← release (.proc p) ((m.locked (.proc t)).locked (.proc p))
      let m ← release (.proc t) m
      pure (coYieldFail p pid value m)) := by
  refine Post.release (by simp) (by simp) (by simp) ?_
  refine Post.release (by simp [hl]) (by simp [hn]) (by simp [hn]) ?_
  exact ⟨by simp [Hands, coYieldFail, hl, hn],
    Effect.fail p _ pid value hpc hcpu hwhy rfl hcpu rfl rfl⟩

/-- `co_yield` with a target that sleeps. -/
lemma coYieldExchange_done (hpc : m.pc = .run (.findProc pid value t)) (hpt : p ≠ t)
    (hpid : (m.proc t).pid = pid) (hst : (m.proc t).state = .sleeping)
    (htk : (m.proc t).killed = false) :
    Post Allowed (Done m) (coYieldExchange p t pid value (m.locked (.proc t))) := by
  rw [coYieldExchange]
  refine Post.ite (fun hch => ?_) fun hch => ?_
  · refine coYieldFail_done hl hn hcpu hpc (.found t hpid (by simp [hst]) ?_)
    exact Or.inr (Or.inr (Or.inl ⟨hst, hch⟩))
  rw [not_not] at hch
  refine Post.acquire (by simp [hl, hpt]) (Post.ite (fun hpk => ?_) fun hpk => ?_)
  · refine coYieldKilled_done hl hn hcpu hpc (.found t hpid (by simp [hst]) ?_)
    exact Or.inr (Or.inr (Or.inr (Or.inr (Or.inr hpk))))
  refine Post.release (by simp) (by simp) (by simp) ?_
  refine ⟨by simp [Hands, hl, hn], Effect.exchange p t pid value hpc hcpu hpt hpid hst hch htk
    (by simpa using hpk) rfl rfl (by simp [hpt]) (by simp [hpt, hpt.symm]) ?_ ?_ (by simp [hn])⟩
  · simp only [Machine.record_proc, Machine.setProc_proc, Machine.unlocked_proc,
      Machine.locked_proc, ne_eq, hpt, hpt.symm, not_false_eq_true, update_of_ne,
      update_self]
    split <;> rfl
  · intro r hrp hrt
    simp [hrp, hrt]

/-- `co_yield` with a target that does not sleep. -/
lemma coYieldPark_done (hpc : m.pc = .run (.findProc pid value t)) (hpt : p ≠ t)
    (hpid : (m.proc t).pid = pid) (hnu : (m.proc t).state ≠ .unused)
    (hnz : (m.proc t).state ≠ .zombie) (hns : (m.proc t).state ≠ .sleeping)
    (htk : (m.proc t).killed = false) :
    Post Allowed (Done m) (coYieldPark p t pid value (m.locked (.proc t))) := by
  rw [coYieldPark]
  refine Post.ite (fun hst => ?_) fun hst => ?_
  · refine coYieldFail_done hl hn hcpu hpc (.found t hpid hnu ?_)
    cases h : (m.proc t).state <;> simp_all
  rw [not_not] at hst
  refine Post.acquire (by simp [hl, hpt]) (Post.ite (fun hpk => ?_) fun hpk => ?_)
  · refine coYieldKilled_done hl hn hcpu hpc (.found t hpid hnu ?_)
    exact Or.inr (Or.inr (Or.inr (Or.inr (Or.inr hpk))))
  refine Post.release (by simp) (by simp) (by simp) ?_
  refine ⟨by simp [Hands, hl, hn], Effect.park p t pid value hpc hcpu hpt hpid hst htk
    (by simpa using hpk) rfl rfl (by simp [hpt]) (by simp [hpt]) (by simp [hpt.symm])
    (fun r hrp hrt => ?_) (by simp [hn])⟩
  simp [hrp, hrt]

/-- `find_proc` looks at one slot, and `co_yield` goes on if it matches. -/
lemma findProc_done (hpid : pid ≠ (m.proc p).pid) (hpc : m.pc = .run (.findProc pid value i)) :
    Post Allowed (Done m) (findProc p pid value i m) := by
  rw [findProc]
  split
  · next h =>
    refine Post.acquire (by simp [hl]) (Post.ite (fun ht => ?_) fun ht => ?_)
    · obtain ⟨htp, htu⟩ := ht
      have hpt : p ≠ ⟨i, h⟩ := by
        rintro rfl
        exact hpid htp.symm
      rw [coYieldFound]
      refine Post.ite (fun hd => ?_) fun hd => ?_
      · refine coYieldFail_done hl hn hcpu hpc (.found ⟨i, h⟩ htp htu ?_)
        rcases hd with hd | hd | hd
        · exact Or.inl hd
        · exact absurd hd htu
        · exact Or.inr (Or.inl hd)
      · simp only [Machine.locked_proc, not_or, Bool.not_eq_true] at hd
        refine Post.ite (fun hs => ?_) fun hs => ?_
        · exact coYieldExchange_done hl hn hcpu hpc hpt htp hs hd.1
        · exact coYieldPark_done hl hn hcpu hpc hpt htp htu hd.2.2 hs hd.1
    · refine Post.release (by simp) (by simp) (by simp) ?_
      refine ⟨by simp [Hands, hl, hn],
        Effect.scan p ⟨i, h⟩ pid value hpc hcpu ?_ rfl hcpu rfl rfl (by simp [hn])⟩
      by_cases htp : (m.proc ⟨i, h⟩).pid = pid
      · right
        by_contra hu
        exact ht ⟨htp, hu⟩
      · exact Or.inl htp
  · next h =>
    exact ⟨by simp [Hands, coYieldFail, hl, hn],
      Effect.fail p _ pid value hpc hcpu (.notFound i h) rfl hcpu rfl rfl⟩

/-! ### `kill` and `fork` -/

lemma kill_done (hpc : m.pc = .run (.kill pid i)) : Post Allowed (Done m) (kill pid i m) := by
  rw [kill]
  split
  · next h =>
    refine Post.acquire (by simp [hl]) (Post.ite (fun hq => ?_) fun hq => ?_)
    · refine Post.release (by simp) (by simp) (by simp) ?_
      refine ⟨by simp [Hands, hl, hn],
        Effect.kill p ⟨i, h⟩ pid hpc hcpu hq rfl hcpu rfl (by simp) fun r hr => ?_⟩
      simp [hr]
    · refine Post.release (by simp) (by simp) (by simp) ?_
      exact ⟨by simp [Hands, hl, hn],
        Effect.goto hpc rfl hcpu rfl ⟨trivial, rfl⟩ hcpu rfl rfl⟩
  · exact ⟨by simp [Hands, hl, hn],
      Effect.goto hpc rfl hcpu rfl ⟨trivial, rfl⟩ hcpu rfl rfl⟩

/-- The rest of `allocproc` and of `fork`, for each outcome of the allocations. -/
lemma forkFound_done (hpc : m.pc = .run (.allocproc np)) (hpnp : p ≠ np)
    (hst : (m.proc np).state = .unused) :
    Post Allowed (Done m) (forkFound p np o (m.locked (.proc np))) := by
  rw [forkFound, allocpid_eq hl hn]
  cases o with
  | noTrapframe =>
    refine freeproc_done hcpu hpc hst (by simp [hl]) (by simp [hn]) rfl hcpu rfl
      (by simp) fun r hr => ?_
    simp [hr]
  | noPagetable =>
    refine freeproc_done hcpu hpc hst (by simp [hl]) (by simp [hn]) rfl hcpu rfl
      (by simp) fun r hr => ?_
    simp [hr]
  | noCopy =>
    refine freeproc_done hcpu hpc hst (by simp [hl]) (by simp [hn]) rfl hcpu rfl
      (by simp) fun r hr => ?_
    simp [hr]
  | ok =>
    refine Post.release (by simp) rfl (by simp) ?_
    refine ⟨by simp [Hands, hl, hn],
      Effect.forkUsed p np hpc hcpu hst rfl hcpu rfl (by simp [hpnp]) fun r hr => ?_⟩
    simp [hr]

lemma allocproc_done (hrun : (m.proc p).state = .running) (hpc : m.pc = .run (.allocproc i)) :
    Post Allowed (Done m) (allocproc p i o m) := by
  rw [allocproc]
  split
  · next h =>
    refine Post.acquire (by simp [hl]) (Post.ite (fun hst => ?_) fun hst => ?_)
    · refine forkFound_done hl hn hcpu hpc ?_ hst
      rintro rfl
      simp [hrun] at hst
    · refine Post.release (by simp) (by simp) (by simp) ?_
      exact ⟨by simp [Hands, hl, hn],
        Effect.goto hpc rfl hcpu rfl ⟨trivial, rfl⟩ hcpu rfl rfl⟩
  · exact ⟨by simp [Hands, hl, hn],
      Effect.goto hpc rfl hcpu rfl ⟨trivial, rfl⟩ hcpu rfl rfl⟩

lemma forkParent_done (hpc : m.pc = .run (.forkParent np pid)) :
    Post Allowed (Done m) (forkParent p np pid m) := by
  rw [forkParent]
  refine Post.acquire (by simp [hl]) (Post.release (by simp) (by simp) (by simp) ?_)
  refine ⟨by simp [Hands, hl, hn],
    Effect.forkParent p np pid hpc hcpu rfl hcpu rfl (by simp) fun r hr => ?_⟩
  simp [hr]

lemma forkRunnable_done (hpc : m.pc = .run (.forkRunnable np pid)) :
    Post Allowed (Done m) (forkRunnable np pid m) := by
  rw [forkRunnable]
  refine Post.acquire (by simp [hl]) (Post.release (by simp) (by simp) (by simp) ?_)
  refine ⟨by simp [Hands, hl, hn],
    Effect.forkRunnable p np pid hpc hcpu rfl hcpu rfl (by simp) fun r hr => ?_⟩
  simp [hr]

/-! ### `sleep`, `exit` and `wait` -/

lemma sleepOn_done (hpc : m.pc = .run (.busy k)) :
    Post Allowed (Done m) (sleepOn p chan lk k m) := by
  rw [sleepOn]
  refine Post.acquire (by simp [hl]) ?_
  exact sleep_done hcpu hpc rfl (by simp) (by simp) (by simp [hl]) (by simp [hn]) rfl rfl rfl

lemma relock_done {again : Bool} (hpc : m.pc = .run (.relock chan lk k)) :
    Post Allowed (Done m) (relock p chan lk k again m) := by
  rw [relock]
  refine Post.acquire (by simp [hl]) (Post.ite (fun _ => ?_) fun _ => ?_)
  · exact sleep_done hcpu hpc rfl (by simp) (by simp) (by simp [hl]) (by simp [hn]) rfl rfl rfl
  · refine Post.release (by simp) (by simp) (by simp) ?_
    exact ⟨by simp [Hands, hl, hn],
      Effect.goto hpc rfl hcpu rfl ⟨trivial, rfl⟩ hcpu rfl rfl⟩

/-- The end of `exit`, from `wait_lock` on. -/
lemma exitLast_done (hrun : (m.proc p).state = .running) (hpc : m.pc = .run (.exitLast status)) :
    Post Allowed (Done m) (exitLast p status m) := by
  rw [exitLast]
  refine Post.acquire (by simp [hl]) (Post.bind ?_)
  have hm₀ : NoProcLock (m.locked .waitLock) := ⟨by simp [hl], by simp, by simp⟩
  refine (reparent_stirs hm₀).mono fun m₁ h₁ => Post.bind ?_
  refine (wakeup_wakes (parentChan_ne _) (h₁.noProcLock hm₀)).mono fun m₂ h₂ => ?_
  obtain ⟨heq, hst⟩ := h₁.trans h₂.1
  -- the exiting process runs, so no wakeup changes it
  obtain ⟨st, pa, hp, hpst, -⟩ := hst p
  have hp' : m₂.proc p = { m.proc p with parent := pa } := by
    rcases hpst with rfl | ⟨hsl, -, -⟩
    · exact hp
    · simp [hrun] at hsl
  have hl₂ : m₂.locks = [.waitLock] := by rw [heq]; simp [hl]
  have hn₂ : m₂.noff = 1 := by rw [heq]; simp [hn]
  have hc₂ : m₂.cpuProc = some p := by rw [heq]; exact hcpu
  have ht₂ : m₂.trace = m.trace := by rw [heq]; rfl
  refine Post.acquire (by simp [hl₂]) (Post.release (by simp [hl₂]) (by simp) (by simp) ?_)
  rw [sched_eq (by simp [hl₂]) (by simp [hn₂]) (by simp [hn₂]) (by simp)]
  refine ⟨⟨p, by simp [hc₂], by simp [hl₂], by simp [hn₂], by simp [hn₂]⟩,
    Effect.exit p status pa hpc hcpu rfl (by simp [hc₂]) (by simp [ht₂]) (by simp [hp'])
      fun r hr => ?_⟩
  simpa [hr] using hst r

/-- `wait`: it reaps a zombie, returns `-1` or goes to sleep. -/
lemma wait_done (hpc : m.pc = .run (.wait addr)) :
    Post Allowed (Done m) (wait p addr copied m) := by
  rw [wait]
  refine Post.acquire (by simp [hl]) (Post.bind ?_)
  refine (waitScan_spec _ _ (by simp [hl]) (by simp [hn]) (by simp)).mono ?_
  rintro ⟨r, m₁⟩ (⟨q, pid, hz, h⟩ | ⟨hr, rfl⟩)
  · cases h
    refine Post.release (by simp [freeproc]) rfl (by simp [freeproc]) ?_
    refine ⟨by simp [Hands, freeproc, hl, hn], Effect.reap p q _ _ hpc rfl hcpu hz rfl hcpu rfl
      (by simp [freeproc]) (by constructor <;> simp [freeproc]) fun r hr => ?_⟩
    simp [freeproc, hr]
  · cases r with
    | reaped pid => exact absurd rfl (hr pid)
    | copyoutFailed =>
      exact waitReturn_done hcpu hpc (by simp [hl]) (by simp [hn]) rfl rfl rfl rfl
    | scanned havekids =>
      refine Post.ite (fun _ => ?_) fun _ => Post.bind ?_
      · exact waitReturn_done hcpu hpc (by simp [hl]) (by simp [hn]) rfl rfl rfl rfl
      refine (killed_spec (by simp [hl]) (by simp)).mono ?_
      rintro ⟨kd, m₂⟩ ⟨rfl, i, rfl⟩
      refine Post.ite (fun _ => ?_) fun _ => ?_
      · exact waitReturn_done hcpu hpc (by simp [hl]) (by simp [hn]) rfl rfl rfl rfl
      · exact sleep_done hcpu hpc rfl (by simp) (by simp) (by simp [hl]) (by simp [hn]) rfl rfl rfl

/-! ### Traps -/

lemma wake_done (hpc : m.pc = .run (.busy k)) : Post Allowed (Done m) (wake chan lk m) := by
  refine (wakeSection_spec hl hn (by simp) fun m => wakeup_wakes (by simp)).mono ?_
  rintro m' ⟨i, ⟨heq, hnud⟩, hcur⟩
  rw [heq]
  exact ⟨by simp [Hands, hpc, hl, hn], Effect.move p _ _ hpc hcpu hpc (Or.inl rfl) hcpu rfl
    ⟨_, _, hcur p hcpu⟩ (fun r _ => hnud r) (Or.inl rfl)⟩

/-- An interrupt in the kernel. -/
lemma kerneltrap_done {k : Point} (hpc : m.pc = .run k) :
    Post Allowed (Done m) (kerneltrap p k d m) := by
  rw [kerneltrap]
  refine Post.bind ((devintr_spec (by exact hl) (by exact hn)).mono ?_)
  rintro m₁ ⟨i, ⟨heq, hnud⟩, hcur⟩
  refine Post.ite (fun _ => ?_) fun _ => ?_
  · refine yield_done hcpu hpc (by rw [heq]; exact hl) (by rw [heq]; exact hn)
      (fun i => Or.inr ⟨i, rfl⟩) (by rw [heq]; exact hcpu) (by rw [heq]) (hcur p hcpu)
      fun r _ => hnud r
  · rw [heq]
    exact ⟨by simp [Hands, hpc, hl, hn], Effect.move p _ _ hpc hcpu hpc (Or.inl rfl) hcpu rfl
      ⟨_, _, hcur p hcpu⟩ (fun r _ => hnud r) (Or.inr rfl)⟩

lemma InTrap.uservec (hpc : m.pc = .run .user) :
    InTrap m p .user (uservec p a0 a1 m) where
  pc := hpc
  plain := rfl
  cpu := hcpu
  locks := hl
  noff := hn
  cpu₁ := hcpu
  trace := rfl
  self := ⟨⟨a0, a1⟩, (m.proc p).killed, by simp [Process.uservec]⟩
  others r hr := by simpa [Process.uservec, hr] using Nudged.refl _

lemma usertrapSyscall_done {c : Call} (hpc : m.pc = .run .user) :
    Post Allowed (Done m) (usertrapSyscall p c a0 a1 m) := by
  refine Post.bind ((InTrap.uservec hl hn hcpu hpc).killed.mono ?_)
  rintro ⟨kd, m₁⟩ h₁
  refine Post.ite (fun _ => h₁.exitEntry) fun _ => ?_
  have h₂ : InTrap m p .user { m₁ with sie := true } :=
    ⟨h₁.pc, h₁.plain, h₁.cpu, h₁.locks, h₁.noff, h₁.cpu₁, h₁.trace, h₁.self, h₁.others⟩
  exact h₂.syscall rfl

/-- An interrupt in user space. -/
lemma usertrapIntr_done (hpc : m.pc = .run .user) :
    Post Allowed (Done m) (usertrapIntr p d a0 a1 m) := by
  refine Post.bind ((devintr_spec (by exact hl) (by exact hn)).mono ?_)
  rintro m₁ ⟨i, ⟨heq, hnud⟩, hcur⟩
  have hp : m₁.proc p = { m.proc p with trapframe := ⟨a0, a1⟩ } := by
    rw [hcur p hcpu]
    simp [uservec]
  have ho : ∀ r, r ≠ p → Nudged (m.proc r) (m₁.proc r) := by
    intro r hr
    simpa [uservec, hr] using hnud r
  refine Post.bind ((killed_spec (by rw [heq]; simp [uservec, hl])
    (by rw [heq]; simp [uservec, hn])).mono ?_)
  rintro ⟨kd, m₂⟩ ⟨-, i', rfl⟩
  have htrap : InTrap m p .user { m₁ with intena := i' } :=
    { pc := hpc, plain := rfl, cpu := hcpu, locks := by rw [heq]; exact hl
      noff := by rw [heq]; exact hn, cpu₁ := by rw [heq]; exact hcpu, trace := by rw [heq]; rfl
      self := ⟨_, _, hp⟩, others := ho }
  refine Post.ite (fun _ => htrap.exitEntry) fun _ => Post.ite (fun _ => ?_) fun _ => ?_
  · exact yield_done hcpu hpc htrap.locks htrap.noff (fun i => Or.inl ⟨⟨i, rfl⟩, rfl⟩)
      htrap.cpu₁ htrap.trace hp ho
  · exact htrap.goto trivial (Or.inl rfl)

lemma usertrapFault_done (hpc : m.pc = .run .user) :
    Post Allowed (Done m) (usertrapFault p a0 a1 m) := by
  have h : InTrap m p .user (uservec p a0 a1 m) := InTrap.uservec hl hn hcpu hpc
  have hset : Post Allowed (InTrap m p .user) (setkilled p (uservec p a0 a1 m)) := by
    rw [setkilled]
    refine Post.acquire (by simp [h.locks]) ?_
    rw [release_eq (by simp) (by simp) (by simp)]
    refine ⟨hpc, rfl, hcpu, by simp [h.locks], by simp [h.noff], by simp [h.cpu₁],
      by simp [h.trace], ?_, fun r hr => ?_⟩
    · exact ⟨⟨a0, a1⟩, true, by simp [uservec]⟩
    · simpa [hr] using h.others r hr
  exact Post.bind (hset.mono fun m₁ h₁ => h₁.trapRet)

lemma finish_done (hpc : m.pc = .run (.busy k)) : Done m (finish k r m) := by
  cases k with
  | sysRet =>
    exact ⟨by simp [finish, Hands, hl, hn],
      Effect.goto hpc rfl hcpu rfl ⟨trivial, rfl⟩ hcpu rfl rfl⟩
  | exit status =>
    exact ⟨by simp [finish, Hands, hl, hn],
      Effect.goto hpc rfl hcpu rfl ⟨trivial, rfl⟩ hcpu rfl rfl⟩
  | userRet =>
    exact ⟨by simp [finish, usertrapret, Hands, hl, hn],
      Effect.goto hpc rfl hcpu rfl ⟨trivial, rfl⟩ hcpu rfl rfl⟩

/-! ### One step of a process -/

lemma stepUser_done (hpc : m.pc = .run .user) : Post Allowed (Done m) (stepUser p a m) := by
  rw [stepUser.eq_def]
  split
  · exact usertrapSyscall_done hl hn hcpu hpc
  · exact usertrapIntr_done hl hn hcpu hpc
  · exact usertrapFault_done hl hn hcpu hpc
  · exact Or.inl rfl

lemma stepBusy_done (hpc : m.pc = .run (.busy k)) : Post Allowed (Done m) (stepBusy p k a m) := by
  rw [stepBusy.eq_def]
  split
  · exact sleepOn_done hl hn hcpu hpc
  · exact wake_done hl hn hcpu hpc
  · exact finish_done hl hn hcpu hpc
  · exact Or.inl rfl

lemma stepPoint_done {k : Point} (h : Ready m) (hrun : (m.proc p).state = .running)
    (hpc : m.pc = .run k) : Post Allowed (Done m) (stepPoint p k a m) := by
  cases k with
  | user => exact stepUser_done hl hn hcpu hpc
  | coYield pid value => exact onRun_done (coYieldEntry_done hl hn hcpu hpc)
  | findProc pid value i =>
    exact onRun_done (findProc_done hl hn hcpu (h.atFind p _ _ _ hpc hcpu) hpc)
  | kill pid i => exact onRun_done (kill_done hl hn hcpu hpc)
  | allocproc i =>
    rw [stepPoint.eq_def]
    dsimp only
    split
    · exact allocproc_done hl hn hcpu hrun hpc
    · exact Or.inl rfl
  | forkParent np pid => exact onRun_done (forkParent_done hl hn hcpu hpc)
  | forkRunnable np pid => exact onRun_done (forkRunnable_done hl hn hcpu hpc)
  | wait addr =>
    rw [stepPoint.eq_def]
    dsimp only
    split
    · exact wait_done hl hn hcpu hpc
    · exact Or.inl rfl
  | busy k => exact stepBusy_done hl hn hcpu hpc
  | relock chan lk k =>
    rw [stepPoint.eq_def]
    dsimp only
    split
    · exact relock_done hl hn hcpu hpc
    · exact Or.inl rfl
  | exitLast status => exact onRun_done (exitLast_done hl hn hcpu hrun hpc)
  | sysRet r =>
    refine onRun_done ⟨by simp [Hands, hl, hn], Effect.move p _ _ hpc hcpu rfl
      (Or.inr ⟨trivial, rfl⟩) hcpu rfl ⟨{ (m.proc p).trapframe with a0 := r },
        (m.proc p).killed, by simp⟩ (fun r hr => ?_) (Or.inl rfl)⟩
    simpa [hr] using Nudged.refl _
  | trapRet =>
    refine onRun_done (InTrap.trapRet ⟨hpc, rfl, hcpu, hl, hn, hcpu, rfl, ⟨_, _, rfl⟩, ?_⟩)
    exact fun r _ => Nudged.refl _

lemma stepProc_done {k : Point} (h : Ready m) (hrun : (m.proc p).state = .running)
    (hpc : m.pc = .run k) : Post Allowed (Done m) (stepProc p k a m) := by
  rw [stepProc.eq_def]
  split
  · exact Post.ite (fun _ => kerneltrap_done hl hn hcpu hpc) fun _ => Or.inl rfl
  · exact stepPoint_done hl hn hcpu h hrun hpc

/-- An interrupt leaves the process where it is, or preempts it. -/
lemma kerneltrap_stays {k : Point} (hpc : m.pc = .run k) (hrun : (m.proc p).state = .running) :
    Returns (fun m' => (m'.pc = .run k ∨ m'.pc = .swtchSched) ∧ (m'.proc p).state ≠ .zombie)
      (kerneltrap p k d m) := by
  rw [kerneltrap]
  refine Post.bind ?_
  have hd := devintr_spec (m := { m with sie := false }) (d := d) hl hn
  cases hx : devintr d { m with sie := false } with
  | error e => trivial
  | ok m₁ =>
    obtain ⟨i, ⟨heq, -⟩, hcur⟩ := hd.of_ok hx
    have hp : (m₁.proc p).state = .running := by rw [hcur p hcpu, hrun]
    refine Post.ite (fun _ => ?_) fun _ => ?_
    · rw [yield]
      refine Post.bind_of_forall fun m₂ => ?_
      rw [sched]
      refine Post.guard fun _ => Post.guard fun _ =>
        Post.guard fun _ => Post.guard fun _ => ?_
      simp
    · have hpc₁ : m₁.pc = .run k := by
        rw [heq]
        exact hpc
      simp [hp, hpc₁]

end Current

/-! ## Resuming a process -/

lemma forkret_done (hl : m.locks = [.proc p]) (hn : m.noff = 1) (hs : m.sie = false)
    (hcpu : m.cpuProc = some p) (hpc : m.pc = .swtchProc p)
    (hctx : (m.proc p).context = .forkret) : Post Allowed (Done m) (forkret m) := by
  rw [forkret, hcpu]
  refine Post.release (by simp [hl]) hs (by simp [hn]) (Post.ite (fun _ => ?_) fun _ => ?_)
  all_goals
    exact ⟨by simp [Hands, usertrapret, hl, hn], Effect.resume p _ (m.proc p).chan hpc rfl rfl rfl
      (by simp only [hctx]; trivial) rfl (fun r _ => rfl) (Or.inl rfl)⟩

/-- A process resumes where its context was saved. -/
lemma resume_done (hl : m.locks = [.proc p]) (hn : m.noff = 1) (hs : m.sie = false)
    (hcpu : m.cpuProc = some p) (hpc : m.pc = .swtchProc p) (hnone : (m.proc p).context ≠ .none)
    (hexit : (m.proc p).context ≠ .exit) : Post Allowed (Done m) (resume p m) := by
  rw [resume]
  split
  · next h => exact absurd h hnone
  · next h => exact forkret_done hl hn hs hcpu hpc h
  · next t pid value h =>
    refine Post.release (by simp [hl]) hs (by simp [hn]) ?_
    exact ⟨by simp [Hands, hl, hn], Effect.coResume p t pid value _ hpc h rfl rfl (by simp)
      (by simp) fun r hr => by simp [hr]⟩
  · next addr i h =>
    refine Post.release (by simp [hl]) hs (by simp [hn]) ?_
    exact ⟨by simp [Hands, hl, hn], Effect.resume p _ .null hpc rfl rfl rfl
      (by simp only [h]; trivial) (by simp) (fun r hr => by simp [hr]) (Or.inl rfl)⟩
  · next chan lk k i h =>
    refine Post.release (by simp [hl]) hs (by simp [hn]) ?_
    exact ⟨by simp [Hands, hl, hn], Effect.resume p _ .null hpc rfl rfl rfl
      (by simp only [h]; trivial) (by simp) (fun r hr => by simp [hr]) (Or.inl rfl)⟩
  · next i h =>
    refine Post.release (by simp [hl]) hs (by simp [hn]) ?_
    exact ⟨by simp [Hands, usertrapret, hl, hn], Effect.resume p _ (m.proc p).chan hpc rfl rfl rfl
      (by simp only [h]; trivial) rfl (fun r _ => rfl) (Or.inl rfl)⟩
  · next k i h =>
    refine Post.release (by simp [hl]) hs (by simp [hn]) ?_
    exact ⟨by simp [Hands, hl, hn], Effect.resume p k (m.proc p).chan hpc rfl rfl rfl
      (by simp only [h]; rfl) rfl (fun r _ => rfl) (Or.inr rfl)⟩
  · next h => exact absurd h hexit

/-! ## `step` -/

lemma kerneltrapIdle_done (hl : m.locks = []) (hn : m.noff = 0) (hpc : m.InScheduler) :
    Post Allowed (Done m) (kerneltrapIdle d m) := by
  rw [kerneltrapIdle]
  refine Post.bind ((devintr_spec (by exact hl) (by exact hn)).mono ?_)
  rintro m₁ ⟨i, ⟨heq, hnud⟩, -⟩
  rw [heq]
  refine ⟨?_, Effect.idle hpc hpc rfl rfl hnud⟩
  rcases hpc with hpc | ⟨i, hpc⟩ <;> simp [Hands, hpc, hl, hn]

lemma stepIdle_done {x : Machine → Exec} (hl : m.locks = []) (hn : m.noff = 0) (hpc : m.InScheduler)
    (hx : Post Allowed (Done m) (x m)) : Post Allowed (Done m) (stepIdle x a m) := by
  rw [stepIdle.eq_def]
  split
  · exact hx
  · exact Post.ite (fun _ => kerneltrapIdle_done hl hn hpc) fun _ => Or.inl rfl
  · exact Or.inl rfl

/-- One step from a state that is `Ready` does what `Effect` says, and does not panic
unless the first process exits. -/
theorem step_done {a : Act} (h : Ready m) : Post Allowed (Done m) (step m a) := by
  have hh := h.hands
  rw [Hands] at hh
  rw [step]
  cases hpc : m.pc with
  | schedTop =>
    simp only [hpc] at hh
    refine stepIdle_done hh.1 hh.2 (Or.inl hpc) ⟨by simp [Hands, hh], ?_⟩
    exact Effect.idle (Or.inl hpc) (Or.inr ⟨0, rfl⟩) rfl rfl fun r => Nudged.refl _
  | schedScan i =>
    simp only [hpc] at hh
    exact stepIdle_done hh.1 hh.2 (Or.inr ⟨i, hpc⟩) (schedulerScan_done hh.1 hh.2 hpc)
  | swtchSched =>
    simp only [hpc] at hh
    obtain ⟨p, hcpu, hl, hn, hs⟩ := hh
    exact onRun_done (schedulerResume_done hl hn hs hcpu hpc)
  | swtchProc p =>
    simp only [hpc] at hh
    obtain ⟨hcpu, hnone, hexit⟩ := h.atSwtch p hpc
    exact onRun_done (resume_done hh.1 hh.2.1 hh.2.2 hcpu hpc hnone hexit)
  | run k =>
    simp only [hpc] at hh
    obtain ⟨p, hcpu, hrun⟩ := h.atRun k hpc
    simp only [hcpu]
    exact stepProc_done hh.1 hh.2 hcpu h hrun hpc

/-! ## Which action a step takes -/

lemma release_proc : Returns (fun m' => m'.proc = m.proc) (release l m) := by
  rw [release]
  refine Post.guard fun _ => ?_
  rw [popOff]
  exact Post.guard fun _ => Post.guard fun _ => rfl

lemma sched_state : Returns (fun m' => (m'.proc p).state = (m.proc p).state) (sched p ctx m) := by
  rw [sched]
  refine Post.guard fun _ => Post.guard fun _ =>
    Post.guard fun _ => Post.guard fun _ => ?_
  simp

/-- After the last block of `exit` the process is a zombie. -/
lemma exitLast_zombie : Returns (fun m' => (m'.proc p).state = .zombie) (exitLast p status m) := by
  rw [exitLast]
  refine Post.bind_of_forall fun m₁ => ?_
  refine Post.bind_of_forall fun m₂ => ?_
  refine Post.bind_of_forall fun m₃ => ?_
  refine Post.bind_of_forall fun m₄ => ?_
  refine Post.bind (release_proc.mono fun m₅ h₅ => sched_state.mono fun m₆ h₆ => ?_)
  rw [h₆, h₅]
  simp

/-- `allocproc` ends outside `fork` when an allocation fails. -/
lemma allocproc_fails (ho : o ≠ .ok) :
    Returns (fun m' => ∃ k, m'.pc = .run k ∧ k.fork? = none) (allocproc p i o m) := by
  have hret : ∀ (k : Point) (x : Exec), k.fork? = none →
      Returns (fun m' => ∃ k, m'.pc = .run k ∧ k.fork? = none)
        (x >>= fun m => pure (m.goto k)) := by
    intro k x hk
    exact Post.bind_of_forall fun m => ⟨k, rfl, hk⟩
  rw [allocproc]
  split
  · refine Post.bind_of_forall fun m₁ => Post.ite (fun _ => ?_) fun _ => ?_
    · rw [forkFound]
      refine Post.bind_of_forall fun r => ?_
      cases o with
      | ok => exact absurd rfl ho
      | noTrapframe => exact hret _ _ rfl
      | noPagetable => exact hret _ _ rfl
      | noCopy => exact hret _ _ rfl
    · exact hret _ _ rfl
  · exact ⟨_, rfl, rfl⟩

end Quiet

end Xv6.Process
