import Xv6.Process.Kernel
import Xv6.Lib.Spec

/-!
# What one step of the process machine does

Two things are said once here, for every block of kernel code, and used by all the
invariants of the machine:

* `Hands`: which spinlocks the hart holds between two blocks. It holds none, except
  inside `swtch`, where it holds exactly the lock that is handed over;
* `Effect`: how a step changes the process table, `c->proc`, the program counter and
  the history. Each constructor is one kind of step, with the guards it passed.

`step_spec` derives both from the code, together with the fact that no `panic` other
than `init exiting` is reached.
-/

namespace Xv6.Process

open Xv6.Lib

/-! ## Spinlocks -/

/-- The machine after `acquire(l)` of a free lock. -/
@[simps]
def Machine.locked (m : Machine) (l : Lock) : Machine :=
  { m with
    sie := false
    intena := if m.noff = 0 then m.sie else m.intena
    noff := m.noff + 1
    locks := l :: m.locks }

/-- The machine after `release(l)` of a held lock. -/
@[simps]
def Machine.unlocked (m : Machine) (l : Lock) : Machine :=
  { m with
    locks := m.locks.erase l
    noff := m.noff - 1
    sie := m.noff - 1 = 0 && m.intena }

lemma acquire_eq {l : Lock} {m : Machine} (h : l ∉ m.locks) :
    acquire l m = .ok (m.locked l) := by
  simp only [acquire, pushOff, holding, h, decide_false, Bool.false_eq_true, if_false]
  rfl

lemma release_eq {l : Lock} {m : Machine} (h : l ∈ m.locks) (hs : m.sie = false)
    (hn : 1 ≤ m.noff) : release l m = .ok (m.unlocked l) := by
  have hn' : ¬ m.noff < 1 := by omega
  simp only [release, popOff, holding, h, hs, hn', decide_true, Bool.not_true,
    Bool.false_eq_true, if_false]
  rfl

/-- The panics that a step may reach: none but the one of `exit` in the first process. -/
def Allowed (e : Stop) : Prop := e = .disabled ∨ e = .panic "init exiting"

/-- The locks held between two blocks: none, or inside `swtch` the one lock that is
handed to the thread being resumed. -/
def Hands (m : Machine) : Prop :=
  match m.pc with
  | .swtchProc p => m.locks = [.proc p] ∧ m.noff = 1 ∧ m.sie = false
  | .swtchSched => ∃ p, m.cpuProc = some p ∧ m.locks = [.proc p] ∧ m.noff = 1 ∧ m.sie = false
  | _ => m.locks = [] ∧ m.noff = 0

/-! ## Effects -/

/-- `q'` is `q`, except that it may have been given another parent in place of one or been woken
from a sleep on a channel that is not a `co_chan`. -/
def Nudged (q q' : Proc) : Prop :=
  ∃ st pa, q' = { q with state := st, parent := pa } ∧
    (st = q.state ∨ q.state = .sleeping ∧ (∀ t, q.chan ≠ .coChan t) ∧ st = .runnable) ∧
    (pa = q.parent ∨ q.parent ≠ none)

lemma Nudged.refl (q : Proc) : Nudged q q := ⟨q.state, q.parent, rfl, Or.inl rfl, Or.inl rfl⟩

lemma Nudged.trans {q₁ q₂ q₃ : Proc} (h₁ : Nudged q₁ q₂) (h₂ : Nudged q₂ q₃) : Nudged q₁ q₃ := by
  obtain ⟨st, pa, rfl, hst, hpa⟩ := h₁
  obtain ⟨st', pa', rfl, hst', hpa'⟩ := h₂
  refine ⟨st', pa', rfl, ?_, ?_⟩
  · rcases hst' with rfl | ⟨hs, hc, rfl⟩
    · exact hst
    · rcases hst with rfl | ⟨-, -, rfl⟩
      · exact Or.inr ⟨hs, hc, rfl⟩
      · cases hs
  · rcases hpa with rfl | hne
    · exact hpa'
    · exact Or.inr hne

/-- What `freeproc` leaves in a slot, as far as `allocproc` relies on it. -/
structure Proc.Blank (x : Proc) : Prop where
  pid : x.pid = 0
  killed : x.killed = false
  chan : x.chan = .null
  parent : x.parent = none

/-- The child a process is in the middle of creating, at this point of `fork`. -/
def Point.fork? : Point → Option Slot
  | .forkParent np _ => some np
  | .forkRunnable np _ => some np
  | _ => none

/-- A point that is neither in the middle of `fork` nor in `find_proc`. -/
def Point.Plain : Point → Prop
  | .forkParent _ _ => False
  | .forkRunnable _ _ => False
  | .findProc _ _ _ => False
  | _ => True

/-- The place is in `co_yield`, before the switch. -/
def Point.inCall : Point → Bool
  | .coYield _ _ => true
  | .findProc _ _ _ => true
  | _ => false

/-- Loading context `c`, other than one saved by `co_yield`, leads to point `k`. -/
def Ctx.Resumes (c : Ctx) (k : Point) : Prop :=
  match c with
  | .yieldKernel k' _ => k = k'
  | .forkret | .sleep _ _ | .yieldUser _ => k.Plain
  | _ => False

/-- The hart executes the code of `scheduler`. -/
def Machine.InScheduler (m : Machine) : Prop := m.pc = .schedTop ∨ ∃ i, m.pc = .schedScan i

/-- Why a `co_yield(pid, value)` of process `p` that is at `k` returns `-1`. -/
inductive Fails (m : Machine) (p : Slot) (pid value : BitVec 32) : Point → Prop where
  | badPid (h : pid.toInt ≤ 0 ∨ pid = (m.proc p).pid) : Fails m p pid value (.coYield pid value)
  | notFound (i : ℕ) (h : ¬ i < NPROC) : Fails m p pid value (.findProc pid value i)
  | found (t : Slot) (hpid : (m.proc t).pid = pid) (hst : (m.proc t).state ≠ .unused)
      (h : (m.proc t).killed = true ∨ (m.proc t).state = .zombie ∨
        (m.proc t).state = .sleeping ∧ (m.proc t).chan ≠ .coChan p ∨
        (m.proc t).state = .used ∨ (m.proc t).state = .running ∨ (m.proc p).killed = true) :
      Fails m p pid value (.findProc pid value t)

/-- The effect of one step. -/
inductive Effect (m m' : Machine) : Prop where
  /-- `scheduler` goes on, or an interrupt is handled on its stack. -/
  | idle (hpc : m.InScheduler) (hpc' : m'.InScheduler) (hcpu : m'.cpuProc = m.cpuProc)
      (htr : m'.trace = m.trace) (hproc : ∀ r, Nudged (m.proc r) (m'.proc r))
  /-- `scheduler` switches to a runnable process. -/
  | pick (p : Slot) (hpc : m.InScheduler) (hst : (m.proc p).state = .runnable)
      (hpc' : m'.pc = .swtchProc p) (hcpu : m'.cpuProc = some p) (htr : m'.trace = m.trace)
      (hp : m'.proc p = { m.proc p with state := .running })
      (ho : ∀ r, r ≠ p → m'.proc r = m.proc r) (hi : m'.intena = m.sie)
  /-- `scheduler` resumes after its `swtch`. -/
  | back (hpc : m.pc = .swtchSched) (hpc' : m'.InScheduler) (hcpu : m'.cpuProc = none)
      (htr : m'.trace = m.trace) (hproc : m'.proc = m.proc)
  /-- A process resumes after a `swtch` outside `co_yield`. -/
  | resume (p : Slot) (k : Point) (c : Chan) (hpc : m.pc = .swtchProc p) (hpc' : m'.pc = .run k)
      (hcpu : m'.cpuProc = m.cpuProc) (htr : m'.trace = m.trace)
      (hctx : (m.proc p).context.Resumes k) (hp : m'.proc p = { m.proc p with chan := c })
      (ho : ∀ r, r ≠ p → m'.proc r = m.proc r) (hs : k.inCall = false ∨ m'.sie = true)
  /-- A process resumes after a `swtch` of `co_yield`. -/
  | coResume (p target : Slot) (pid value : BitVec 32) (r : BitVec 64)
      (hpc : m.pc = .swtchProc p) (hctx : (m.proc p).context = .coYield target pid value)
      (hpc' : m'.pc = .run (.sysRet r)) (hcpu : m'.cpuProc = m.cpuProc)
      (htr : m'.trace = m.trace ++ [.ret p (m.proc p).pid pid
        ((m.proc p).trapframe.a0.setWidth 32) (m.proc p).killed])
      (hp : m'.proc p = { m.proc p with chan := .null })
      (ho : ∀ r, r ≠ p → m'.proc r = m.proc r)
  /-- The current process goes from one point to another one. -/
  | move (p : Slot) (k k' : Point) (hpc : m.pc = .run k) (hcpu : m.cpuProc = some p)
      (hpc' : m'.pc = .run k') (hk : k' = k ∨ k'.Plain ∧ k.fork? = none)
      (hcpu' : m'.cpuProc = some p) (htr : m'.trace = m.trace)
      (hp : ∃ tf kd, m'.proc p = { m.proc p with trapframe := tf, killed := kd })
      (ho : ∀ r, r ≠ p → Nudged (m.proc r) (m'.proc r))
      (hs : k'.inCall = false ∨ m'.sie = true)
  /-- `co_yield` calls `find_proc`. -/
  | enter (p : Slot) (pid value : BitVec 32) (hpc : m.pc = .run (.coYield pid value))
      (hcpu : m.cpuProc = some p) (hpid : 0 < pid.toInt ∧ pid ≠ (m.proc p).pid)
      (hpc' : m'.pc = .run (.findProc pid value 0)) (hcpu' : m'.cpuProc = some p)
      (htr : m'.trace = m.trace) (hproc : m'.proc = m.proc) (hs : m'.sie = m.sie)
  /-- `find_proc` passes over a slot. -/
  | scan (p t : Slot) (pid value : BitVec 32) (hpc : m.pc = .run (.findProc pid value t))
      (hcpu : m.cpuProc = some p)
      (ht : (m.proc t).pid ≠ pid ∨ (m.proc t).state = .unused)
      (hpc' : m'.pc = .run (.findProc pid value (t + 1))) (hcpu' : m'.cpuProc = some p)
      (htr : m'.trace = m.trace) (hproc : m'.proc = m.proc) (hs : m'.sie = m.sie)
  /-- `co_yield` returns `-1`. -/
  | fail (p : Slot) (k : Point) (pid value : BitVec 32) (hpc : m.pc = .run k)
      (hcpu : m.cpuProc = some p) (why : Fails m p pid value k)
      (hpc' : m'.pc = .run (.sysRet minusOne)) (hcpu' : m'.cpuProc = some p)
      (htr : m'.trace = m.trace ++ [.fail p (m.proc p).pid pid value])
      (hproc : m'.proc = m.proc)
  /-- `co_yield` parks its caller and runs a runnable target. -/
  | park (p t : Slot) (pid value : BitVec 32) (hpc : m.pc = .run (.findProc pid value t))
      (hcpu : m.cpuProc = some p) (hpt : p ≠ t) (hpid : (m.proc t).pid = pid)
      (hst : (m.proc t).state = .runnable) (htk : (m.proc t).killed = false)
      (hpk : (m.proc p).killed = false)
      (hpc' : m'.pc = .swtchProc t) (hcpu' : m'.cpuProc = some t)
      (htr : m'.trace = m.trace ++ [.park p t (m.proc p).pid pid value])
      (hp : m'.proc p = { m.proc p with
        state := .sleeping, chan := .coChan t, context := .coYield t pid value
        trapframe := ⟨minusOne, value.signExtend 64⟩ })
      (ht : m'.proc t = { m.proc t with state := .running })
      (ho : ∀ r, r ≠ p → r ≠ t → m'.proc r = m.proc r) (hi : m'.intena = m.sie)
  /-- `co_yield` parks its caller and resumes a target that is parked on it. -/
  | exchange (p t : Slot) (pid value : BitVec 32) (hpc : m.pc = .run (.findProc pid value t))
      (hcpu : m.cpuProc = some p) (hpt : p ≠ t) (hpid : (m.proc t).pid = pid)
      (hst : (m.proc t).state = .sleeping) (hch : (m.proc t).chan = .coChan p)
      (htk : (m.proc t).killed = false) (hpk : (m.proc p).killed = false)
      (hpc' : m'.pc = .swtchProc t) (hcpu' : m'.cpuProc = some t)
      (htr : m'.trace = m.trace ++ [.exchange p t (m.proc p).pid pid value])
      (hp : m'.proc p = { m.proc p with
        state := .sleeping, chan := .coChan t, context := .coYield t pid value
        trapframe := ⟨(m.proc t).trapframe.a1, value.signExtend 64⟩ })
      (ht : m'.proc t = { m.proc t with
        state := .running, chan := .null
        trapframe := ⟨if (m.proc t).trapframe.a0 = minusOne then value.signExtend 64
          else (m.proc t).trapframe.a0, (m.proc t).trapframe.a1⟩ })
      (ho : ∀ r, r ≠ p → r ≠ t → m'.proc r = m.proc r) (hi : m'.intena = m.sie)
  /-- `kill` finds its victim. -/
  | kill (p q : Slot) (pid : BitVec 32) (hpc : m.pc = .run (.kill pid q))
      (hcpu : m.cpuProc = some p) (hpid : (m.proc q).pid = pid)
      (hpc' : m'.pc = .run (.sysRet 0)) (hcpu' : m'.cpuProc = some p)
      (htr : m'.trace = m.trace)
      (hq : m'.proc q = { m.proc q with
        killed := true
        state := if (m.proc q).state = .sleeping then .runnable else (m.proc q).state })
      (ho : ∀ r, r ≠ q → m'.proc r = m.proc r)
  /-- `fork` takes a free slot and gives it back. -/
  | forkFail (p np : Slot) (k : Point) (hpc : m.pc = .run k) (hk : k.fork? = none)
      (hcpu : m.cpuProc = some p) (hst : (m.proc np).state = .unused)
      (hpc' : m'.pc = .run (.sysRet minusOne)) (hcpu' : m'.cpuProc = some p)
      (htr : m'.trace = m.trace)
      (hnp : (m'.proc np).state = .unused ∧
        ((m'.proc np).context = (m.proc np).context ∨ (m'.proc np).context = .forkret))
      (hb : (m'.proc np).Blank) (ho : ∀ r, r ≠ np → m'.proc r = m.proc r)
  /-- `fork` takes a free slot. -/
  | forkUsed (p np : Slot) (hpc : m.pc = .run (.allocproc np))
      (hcpu : m.cpuProc = some p) (hst : (m.proc np).state = .unused)
      (hpc' : m'.pc = .run (.forkParent np m.nextpid)) (hcpu' : m'.cpuProc = some p)
      (htr : m'.trace = m.trace)
      (hnp : m'.proc np = { m.proc np with
        pid := m.nextpid, state := .used, context := .forkret
        trapframe := { (m.proc p).trapframe with a0 := 0 } })
      (ho : ∀ r, r ≠ np → m'.proc r = m.proc r)
  /-- `fork` sets the parent of the child. -/
  | forkParent (p np : Slot) (pid : BitVec 32) (hpc : m.pc = .run (.forkParent np pid))
      (hcpu : m.cpuProc = some p) (hpc' : m'.pc = .run (.forkRunnable np pid))
      (hcpu' : m'.cpuProc = some p) (htr : m'.trace = m.trace)
      (hnp : m'.proc np = { m.proc np with parent := some p })
      (ho : ∀ r, r ≠ np → m'.proc r = m.proc r)
  /-- `fork` makes the child runnable. -/
  | forkRunnable (p np : Slot) (pid : BitVec 32) (hpc : m.pc = .run (.forkRunnable np pid))
      (hcpu : m.cpuProc = some p) (hpc' : m'.pc = .run (.sysRet (pid.signExtend 64)))
      (hcpu' : m'.cpuProc = some p) (htr : m'.trace = m.trace)
      (hnp : m'.proc np = { m.proc np with state := .runnable })
      (ho : ∀ r, r ≠ np → m'.proc r = m.proc r)
  /-- The current process calls `sleep`. -/
  | sleep (p : Slot) (k : Point) (s : Sleeper) (intena : Bool) (c : Chan) (hpc : m.pc = .run k)
      (hk : k.fork? = none) (hcpu : m.cpuProc = some p) (hpc' : m'.pc = .swtchSched)
      (hcpu' : m'.cpuProc = some p) (htr : m'.trace = m.trace) (hc : ∀ t, c ≠ .coChan t)
      (hp : m'.proc p = { m.proc p with
        state := .sleeping, chan := c, context := .sleep s intena })
      (ho : ∀ r, r ≠ p → m'.proc r = m.proc r)
  /-- The current process yields in a timer interrupt. -/
  | preempt (p : Slot) (k : Point) (c : Ctx) (tf : Trapframe) (hpc : m.pc = .run k)
      (hcpu : m.cpuProc = some p) (hpc' : m'.pc = .swtchSched) (hcpu' : m'.cpuProc = some p)
      (htr : m'.trace = m.trace)
      (hc : (∃ i, c = .yieldUser i) ∧ k = .user ∨ ∃ i, c = .yieldKernel k i)
      (hp : m'.proc p = { m.proc p with state := .runnable, context := c, trapframe := tf })
      (ho : ∀ r, r ≠ p → Nudged (m.proc r) (m'.proc r))
  /-- The current process becomes a zombie. -/
  | exit (p : Slot) (status : BitVec 32) (pa : Option Slot)
      (hpc : m.pc = .run (.exitLast status)) (hcpu : m.cpuProc = some p)
      (hpc' : m'.pc = .swtchSched) (hcpu' : m'.cpuProc = some p) (htr : m'.trace = m.trace)
      (hp : m'.proc p = { m.proc p with
        state := .zombie, xstate := status, context := .exit, parent := pa })
      (ho : ∀ r, r ≠ p → Nudged (m.proc r) (m'.proc r))
  /-- `wait` frees a zombie. -/
  | reap (p q : Slot) (k : Point) (r : BitVec 64) (hpc : m.pc = .run k) (hk : k.fork? = none)
      (hcpu : m.cpuProc = some p) (hst : (m.proc q).state = .zombie)
      (hpc' : m'.pc = .run (.sysRet r)) (hcpu' : m'.cpuProc = some p)
      (htr : m'.trace = m.trace)
      (hq : (m'.proc q).state = .unused ∧ (m'.proc q).context = (m.proc q).context)
      (hb : (m'.proc q).Blank) (ho : ∀ r, r ≠ q → m'.proc r = m.proc r)

end Xv6.Process
