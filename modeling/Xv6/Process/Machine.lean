import Mathlib.Data.BitVec
import Mathlib.Logic.Function.Basic
import Mathlib.Logic.Relation
import Mathlib.Tactic.Simps.Basic
import Mathlib.Data.List.FinRange

/-!
# The single-hart process machine: data model and spinlocks

State of `kernel/proc.c` on one hart: the process table, `struct cpu`, the
spinlocks the hart holds, and where each kernel thread is in the code.

* `Point` names the places where a process may be interrupted: it holds no
  spinlock there, so a timer or device interrupt can land between two points;
* `Ctx` names the places a `struct context` can resume, i.e. the return points
  of the `swtch` calls and `forkret`;
* `Machine.trace` is a history variable: `co_yield` records what it does there,
  and no definition of the machine reads it.
-/

namespace Xv6.Process

/-- Maximum number of processes (`kernel/param.h`). -/
def NPROC : ℕ := 64

instance : NeZero NPROC := ⟨by decide⟩

/-- An index into `proc[NPROC]`, standing for the pointer `&proc[i]`. -/
abbrev Slot := Fin NPROC

/-- `enum procstate`. -/
inductive ProcState where
  | unused
  | used
  | sleeping
  | runnable
  | running
  | zombie
deriving DecidableEq, Repr

/-- A sleep channel. The addresses the kernel sleeps on are the null pointer,
`co_chan(p)` (that is `&p->context`), `p` itself in `wait`, and the addresses of
other kernel objects, all pairwise different. -/
inductive Chan where
  | null
  | coChan (p : Slot)
  | proc (p : Slot)
  | other (n : ℕ)
deriving DecidableEq, Repr

/-- The spinlocks: `p->lock`, `wait_lock`, `pid_lock`, `tickslock`, and the other
locks of the kernel. -/
inductive Lock where
  | proc (p : Slot)
  | waitLock
  | pidLock
  | ticksLock
  | other (n : ℕ)
deriving DecidableEq, Repr

/-- The two saved user registers that `co_yield` reads and writes. -/
structure Trapframe where
  a0 : BitVec 64
  a1 : BitVec 64
deriving DecidableEq, Repr

/-- What the kernel code around a generic sleep does when it is done: return from
the system call, finish `exit(status)`, or return to user space from `forkret`. -/
inductive After where
  | sysRet
  | exit (status : BitVec 32)
  | userRet
deriving DecidableEq, Repr

/-- The callers of `sleep`: `wait(addr)`, or any other kernel code that sleeps on a
channel of its own with a lock of its own. -/
inductive Sleeper where
  | wait (addr : BitVec 64)
  | other (chan lk : ℕ) (k : After)
deriving DecidableEq, Repr

/-- A place in the code of a process where it holds no spinlock. -/
inductive Point where
  /-- In user mode. -/
  | user
  /-- At the entry of `co_yield`. -/
  | coYield (pid value : BitVec 32)
  /-- In `find_proc`, about to acquire `proc[i].lock`. -/
  | findProc (pid value : BitVec 32) (i : ℕ)
  /-- In `kill`, about to acquire `proc[i].lock`. -/
  | kill (pid : BitVec 32) (i : ℕ)
  /-- In `allocproc` called by `fork`, about to acquire `proc[i].lock`. -/
  | allocproc (i : ℕ)
  /-- In `fork`, about to acquire `wait_lock` to set `np->parent`. -/
  | forkParent (np : Slot) (pid : BitVec 32)
  /-- In `fork`, about to acquire `np->lock` to make the child runnable. -/
  | forkRunnable (np : Slot) (pid : BitVec 32)
  /-- In `wait`, about to acquire `wait_lock`. -/
  | wait (addr : BitVec 64)
  /-- In kernel code that may sleep on and wake other channels. -/
  | busy (k : After)
  /-- At the end of `sleep`, about to acquire `lk` again. -/
  | relock (chan lk : ℕ) (k : After)
  /-- In `exit`, about to acquire `wait_lock`. -/
  | exitLast (status : BitVec 32)
  /-- In `syscall`, about to store the result in `trapframe->a0`. -/
  | sysRet (r : BitVec 64)
  /-- In `usertrap`, about to check `killed(p)` after a system call. -/
  | trapRet
deriving DecidableEq, Repr

/-- A saved `struct context`: where `swtch` resumes, with the locals of the frame
that are used after it. -/
inductive Ctx where
  /-- No context was ever saved in this slot. -/
  | none
  | forkret
  /-- After either `swtch` of `co_yield(pid, value)`. -/
  | coYield (target : Slot) (pid value : BitVec 32)
  /-- After the `swtch` of `sched` called by `sleep`. -/
  | sleep (s : Sleeper) (intena : Bool)
  /-- After the `swtch` of `sched` called by `yield` from `usertrap`. -/
  | yieldUser (intena : Bool)
  /-- After the `swtch` of `sched` called by `yield` from `kerneltrap`, which
  interrupted the process at `k`. -/
  | yieldKernel (k : Point) (intena : Bool)
  /-- After the `swtch` of `sched` called by `exit`. -/
  | exit
deriving DecidableEq, Repr

/-- `struct proc`, without the file and memory fields. -/
structure Proc where
  state : ProcState
  chan : Chan
  killed : Bool
  xstate : BitVec 32
  pid : BitVec 32
  parent : Option Slot
  trapframe : Trapframe
  context : Ctx
deriving DecidableEq, Repr

/-- A slot of the zero-initialised process table. -/
def Proc.zero : Proc where
  state := .unused
  chan := .null
  killed := false
  xstate := 0
  pid := 0
  parent := Option.none
  trapframe := ⟨0, 0⟩
  context := .none

/-- What the hart is executing. -/
inductive Pc where
  /-- The top of the `for(;;)` of `scheduler`. -/
  | schedTop
  /-- In the inner loop of `scheduler`, about to acquire `proc[i].lock`. -/
  | schedScan (i : ℕ)
  /-- The code of process `c->proc`, at a point. -/
  | run (k : Point)
  /-- Inside `swtch`, about to load `p->context`. -/
  | swtchProc (p : Slot)
  /-- Inside `swtch`, about to load `c->context`. -/
  | swtchSched
deriving DecidableEq, Repr

/-- What a `co_yield` call does, as seen from outside. `pid` is the caller's own
pid and `named` the pid it passed. -/
inductive Event where
  /-- The call returns `-1` without switching. -/
  | fail (p : Slot) (pid named value : BitVec 32)
  /-- The call parks its caller and runs a target that was `RUNNABLE`. -/
  | park (p target : Slot) (pid named value : BitVec 32)
  /-- The call parks its caller and resumes a target parked on the caller. -/
  | exchange (p target : Slot) (pid named value : BitVec 32)
  /-- A parked call is resumed and returns `r`. -/
  | ret (p : Slot) (pid named r : BitVec 32) (killed : Bool)
deriving DecidableEq, Repr

/-- The state of the hart and of the kernel data it shares between processes. -/
structure Machine where
  proc : Slot → Proc
  /-- `c->proc`. -/
  cpuProc : Option Slot
  /-- The loop index of the `scheduler` frame saved in `c->context`. -/
  cpuContext : ℕ
  /-- `c->noff`. -/
  noff : ℕ
  /-- `c->intena`. -/
  intena : Bool
  /-- The interrupt-enable bit `sstatus.SIE`. -/
  sie : Bool
  /-- The spinlocks that are locked. There is one hart, so these are the locks with
  `lk->locked && lk->cpu == mycpu()`. -/
  locks : List Lock
  nextpid : BitVec 32
  initproc : Slot
  /-- `static int first` of `forkret`. -/
  first : Bool
  pc : Pc
  trace : List Event

/-- Why the machine does not take a step. -/
inductive Stop where
  /-- `panic(msg)`. -/
  | panic (msg : String)
  /-- The chosen action does not apply in this state. -/
  | disabled
deriving DecidableEq, Repr

/-- Kernel code: it reads and updates the machine, or panics. -/
abbrev Exec := Except Stop Machine

/-! ## Process-table updates -/

/-- Update slot `p` of the process table. -/
@[simps]
def Machine.setProc (m : Machine) (p : Slot) (f : Proc → Proc) : Machine :=
  { m with proc := Function.update m.proc p (f (m.proc p)) }

/-- Continue the current process at `k`. -/
@[simps]
def Machine.goto (m : Machine) (k : Point) : Machine := { m with pc := .run k }

/-- Append to the history variable. -/
@[simps]
def Machine.record (m : Machine) (e : Event) : Machine := { m with trace := m.trace ++ [e] }

/-! ## Spinlocks (`kernel/spinlock.c`) -/

/-- `push_off`. -/
def pushOff (m : Machine) : Machine :=
  { m with
    sie := false
    intena := if m.noff = 0 then m.sie else m.intena
    noff := m.noff + 1 }

/-- `pop_off`. -/
def popOff (m : Machine) : Exec :=
  if m.sie then throw (.panic "pop_off - interruptible")
  else if m.noff < 1 then throw (.panic "pop_off")
  else
    let noff := m.noff - 1
    pure { m with noff := noff, sie := noff = 0 && m.intena }

/-- `holding`. -/
def holding (l : Lock) (m : Machine) : Bool := l ∈ m.locks

/-- `acquire`. With one hart a lock that is not held is free, so the loop around
`__sync_lock_test_and_set` ends at once. -/
def acquire (l : Lock) (m : Machine) : Exec :=
  let m := pushOff m
  if holding l m then throw (.panic "acquire")
  else pure { m with locks := l :: m.locks }

/-- `release`. -/
def release (l : Lock) (m : Machine) : Exec :=
  if !holding l m then throw (.panic "release")
  else popOff { m with locks := m.locks.erase l }

end Xv6.Process
