import Xv6.Lib.Spec
import Xv6.Process.Machine

/-!
# The process table on any number of harts

`fork`, `exit`, `wait`, `kill` and scheduling of `kernel/proc.c`, at the granularity of critical
sections of `wait_lock` and `p->lock`. Every slot of the table has a kernel thread, `pc p` says
where it is; a thread runs while its process is RUNNING, on a hart of its own.

* `waitLock` is the holder of `wait_lock`. `locked p` says that `p->lock` is held from one step
  to the next: in `allocproc` and `fork` for a new process, in `sleep`, and at the end of `exit`
  until the scheduler releases it. A critical section of `p->lock` inside one step waits for it.
* A step of `allocproc`, `reparent`, `wakeup`, `wait` or `kill` looks at one slot of the table.
* Where the code allocates memory or copies to user memory, the action says how that ends.
* `hist` is a history variable, and no definition of the machine reads it.
-/

namespace Xv6.Table

open Xv6.Process (NPROC Slot ProcState Stop)

/-- A sleep channel: the null pointer, a process (in `wait`), or some other kernel object. -/
inductive Chan where
  | null
  | proc (p : Slot)
  | other
deriving DecidableEq, Repr

/-- `struct proc`, without the memory, file and context fields. -/
structure Proc where
  state : ProcState
  chan : Chan
  killed : Bool
  xstate : BitVec 32
  pid : BitVec 32
  parent : Option Slot
deriving DecidableEq, Repr

/-- What `freeproc` leaves in a slot. -/
def Proc.free : Proc := ⟨.unused, .null, false, 0, 0, none⟩

/-- Where a kernel thread is. -/
inductive Pc where
  /-- In user space, or in kernel code that does not use the process table. -/
  | user
  /-- Asleep in such kernel code. -/
  | blocked
  /-- In `allocproc` called by `fork`, about to acquire `proc[j].lock`. -/
  | allocproc (j : ℕ)
  /-- In `allocproc` or `fork`, with `np->lock` held. -/
  | setup (np : Slot)
  /-- In `fork`, about to acquire `wait_lock`. -/
  | forkParent (np : Slot) (pid : BitVec 32)
  /-- In `fork`, about to acquire `np->lock` again. -/
  | forkRunnable (np : Slot) (pid : BitVec 32)
  /-- In `exit`, about to acquire `wait_lock`. -/
  | exit (status : BitVec 32)
  /-- In `reparent`, at slot `j`. -/
  | reparent (status : BitVec 32) (j : ℕ)
  /-- In `wakeup(initproc)` at slot `k`, called by `reparent` for slot `j`. -/
  | wakeInit (status : BitVec 32) (j k : ℕ)
  /-- In `exit`, in `wakeup(p->parent)` at slot `k`. -/
  | wakeParent (status : BitVec 32) (c : Chan) (k : ℕ)
  /-- In `exit`, about to acquire `p->lock`. -/
  | exitLast (status : BitVec 32)
  /-- In `exit`, in the call of `sched`. -/
  | dying
  /-- The scheduler has released the lock of the exited process. -/
  | dead
  /-- In `wait`, about to acquire `wait_lock`. -/
  | wait (addr : BitVec 64)
  /-- In the loop of `wait`, at slot `j`. -/
  | waitScan (addr : BitVec 64) (j : ℕ) (havekids : Bool)
  /-- In `wait`, about to call `sleep(p, &wait_lock)`. -/
  | waitSleep (addr : BitVec 64)
  /-- In that `sleep`, with `p->lock` held and `wait_lock` released. -/
  | falling (addr : BitVec 64)
  /-- In that `sleep`, inside `sched`. -/
  | sched (addr : BitVec 64)
  /-- In `kill`, about to acquire `proc[j].lock`. -/
  | kill (pid : BitVec 32) (j : ℕ)
deriving DecidableEq, Repr

/-- What happens to slots: a process is allocated, its allocation or `fork` fails, it exits,
and a process reaps it. -/
inductive Event where
  | alloc (c : Slot) (pid : BitVec 32)
  | fail (c : Slot)
  | exit (c : Slot) (pid status : BitVec 32)
  | reap (p c : Slot) (pid status : BitVec 32)
deriving DecidableEq, Repr

/-- State of the machine. `ret p` is the result of the last system call of `p`, and `copied p`
what its last `wait` stored in user memory, and where. -/
structure State where
  proc : Slot → Proc
  pc : Slot → Pc
  waitLock : Option Slot
  locked : Slot → Bool
  nextpid : BitVec 32
  ret : Slot → BitVec 32
  copied : Slot → Option (BitVec 64 × BitVec 32)
  hist : List Event

/-- `initproc`: `userinit` allocates the first slot. -/
def initproc : Slot := 0

namespace State

/-- Change the record of process `p`. -/
def setProc (s : State) (p : Slot) (f : Proc → Proc) : State :=
  { s with proc := Function.update s.proc p (f (s.proc p)) }

/-- The thread of `p` goes on at `pc`. -/
def goto (s : State) (p : Slot) (pc : Pc) : State :=
  { s with pc := Function.update s.pc p pc }

/-- The system call of `p` returns `v`. -/
def sysret (s : State) (p : Slot) (v : BitVec 32) : State :=
  { s.goto p .user with ret := Function.update s.ret p v }

/-- Hold `p->lock` beyond this step, or release it. -/
def setLocked (s : State) (p : Slot) (b : Bool) : State :=
  { s with locked := Function.update s.locked p b }

/-- Record an event. -/
def record (s : State) (e : Event) : State := { s with hist := s.hist ++ [e] }

end State

/-! ## The code -/

/-- `allocproc` looks at slot `j`. -/
def allocproc (p : Slot) (j : ℕ) (s : State) : Except Stop State :=
  if h : j < NPROC then
    let np : Slot := ⟨j, h⟩
    if s.locked np then throw .disabled
    else if (s.proc np).state = .unused then
      let s := s.setProc np fun x => { x with pid := s.nextpid, state := .used }
      let s := (s.setLocked np true).record (.alloc np s.nextpid)
      pure ({ s with nextpid := s.nextpid + 1 }.goto p (.setup np))
    else pure (s.goto p (.allocproc (j + 1)))
  else pure (s.sysret p (-1))

/-- The rest of `allocproc`, and `fork` up to `release(&np->lock)`. A failed allocation, here or
in `uvmcopy`, frees the slot. -/
def setup (ok : Bool) (p np : Slot) (s : State) : State :=
  if ok then ((s.setLocked np false).goto np .user).goto p (.forkParent np (s.proc np).pid)
  else
    let s := (s.setProc np fun _ => Proc.free).record (.fail np)
    (s.setLocked np false).sysret p (-1)

/-- `fork` sets `np->parent` under `wait_lock`. -/
def forkParent (p np : Slot) (pid : BitVec 32) (s : State) : Except Stop State :=
  if s.waitLock = none then
    pure ((s.setProc np fun x => { x with parent := some p }).goto p (.forkRunnable np pid))
  else throw .disabled

/-- `fork` makes the child RUNNABLE under `np->lock`. -/
def forkRunnable (p np : Slot) (pid : BitVec 32) (s : State) : Except Stop State :=
  if s.locked np then throw .disabled
  else pure ((s.setProc np fun x => { x with state := .runnable }).sysret p pid)

/-- One round of the loop of `wakeup(c)`, called by `p`. -/
def wakeOne (c : Chan) (p q : Slot) (s : State) : Except Stop State :=
  if q = p then pure s
  else if s.locked q then throw .disabled
  else if (s.proc q).state = .sleeping ∧ (s.proc q).chan = c then
    pure (s.setProc q fun x => { x with state := .runnable })
  else pure s

/-- The loop of `wakeup(c)`, with `next k` the place for slot `k` and `after` what follows. -/
def wakeup (c : Chan) (p : Slot) (k : ℕ) (next : ℕ → Pc) (after : Pc) (s : State) :
    Except Stop State :=
  if h : k < NPROC then do
    let s ← wakeOne c p ⟨k, h⟩ s
    pure (s.goto p (next (k + 1)))
  else pure (s.goto p after)

/-- `exit` acquires `wait_lock`. -/
def exitLock (p : Slot) (status : BitVec 32) (s : State) : Except Stop State :=
  if s.waitLock = none then pure ({ s with waitLock := some p }.goto p (.reparent status 0))
  else throw .disabled

/-- The channel `p->parent`. -/
def parentChan (x : Proc) : Chan :=
  match x.parent with
  | some q => .proc q
  | none => .null

/-- One round of the loop of `reparent(p)`, and what follows it in `exit`. -/
def reparent (p : Slot) (status : BitVec 32) (j : ℕ) (s : State) : State :=
  if h : j < NPROC then
    if (s.proc ⟨j, h⟩).parent = some p then
      (s.setProc ⟨j, h⟩ fun x => { x with parent := some initproc }).goto p (.wakeInit status j 0)
    else s.goto p (.reparent status (j + 1))
  else s.goto p (.wakeParent status (parentChan (s.proc p)) 0)

/-- The end of `exit`: `p` becomes a ZOMBIE and `wait_lock` is released. -/
def exitLast (p : Slot) (status : BitVec 32) (s : State) : Except Stop State :=
  if s.locked p then throw .disabled
  else
    let s := s.setProc p fun x => { x with xstate := status, state := .zombie }
    let s := (s.setLocked p true).record (.exit p (s.proc p).pid status)
    pure ({ s with waitLock := none }.goto p .dying)

/-- `wait` acquires `wait_lock`. -/
def waitLock (p : Slot) (addr : BitVec 64) (s : State) : Except Stop State :=
  if s.waitLock = none then pure ({ s with waitLock := some p }.goto p (.waitScan addr 0 false))
  else throw .disabled

/-- `wait` finds the exited child `c`. -/
def reap (ok : Bool) (p c : Slot) (addr : BitVec 64) (s : State) : State :=
  let pid := (s.proc c).pid
  let xstate := (s.proc c).xstate
  if addr ≠ 0 ∧ ok = false then { s with waitLock := none }.sysret p (-1)
  else
    let s := if addr ≠ 0 then { s with copied := Function.update s.copied p (some (addr, xstate)) }
      else s
    let s := (s.setProc c fun _ => Proc.free).record (.reap p c pid xstate)
    { s with waitLock := none }.sysret p pid

/-- One round of the loop of `wait`, and what follows the loop. -/
def waitScan (ok : Bool) (p : Slot) (addr : BitVec 64) (j : ℕ) (havekids : Bool) (s : State) :
    Except Stop State :=
  if h : j < NPROC then
    let c : Slot := ⟨j, h⟩
    if (s.proc c).parent = some p then
      if s.locked c then throw .disabled
      else if (s.proc c).state = .zombie then pure (reap ok p c addr s)
      else pure (s.goto p (.waitScan addr (j + 1) true))
    else pure (s.goto p (.waitScan addr (j + 1) havekids))
  else if havekids = false ∨ (s.proc p).killed then
    pure ({ s with waitLock := none }.sysret p (-1))
  else pure (s.goto p (.waitSleep addr))

/-- `sleep(p, &wait_lock)` acquires `p->lock` and releases `wait_lock`. -/
def waitSleep (p : Slot) (addr : BitVec 64) (s : State) : Except Stop State :=
  if s.locked p then throw .disabled
  else pure (({ s with waitLock := none }.setLocked p true).goto p (.falling addr))

/-- `sleep` makes `p` SLEEPING; the scheduler releases `p->lock`. -/
def fallAsleep (p : Slot) (addr : BitVec 64) (s : State) : State :=
  let s := s.setProc p fun x => { x with chan := .proc p, state := .sleeping }
  (s.setLocked p false).goto p (.sched addr)

/-- The body of `kill`, for the process it was looking for. -/
def Proc.kill (x : Proc) : Proc :=
  { x with killed := true, state := if x.state = .sleeping then .runnable else x.state }

/-- `kill` looks at slot `j`. -/
def kill (p : Slot) (pid : BitVec 32) (j : ℕ) (s : State) : Except Stop State :=
  if h : j < NPROC then
    if s.locked ⟨j, h⟩ then throw .disabled
    else if (s.proc ⟨j, h⟩).pid = pid then pure ((s.setProc ⟨j, h⟩ Proc.kill).sysret p 0)
    else pure (s.goto p (.kill pid (j + 1)))
  else pure (s.sysret p (-1))

/-- The next step of the thread of `p`. -/
def run (ok : Bool) (p : Slot) (s : State) : Except Stop State :=
  match s.pc p with
  | .user => throw .disabled
  | .blocked => pure ((s.setProc p fun x => { x with chan := .null }).goto p .user)
  | .allocproc j => allocproc p j s
  | .setup np => pure (setup ok p np s)
  | .forkParent np pid => forkParent p np pid s
  | .forkRunnable np pid => forkRunnable p np pid s
  | .exit status => exitLock p status s
  | .reparent status j => pure (reparent p status j s)
  | .wakeInit status j k =>
    wakeup (.proc initproc) p k (.wakeInit status j) (.reparent status (j + 1)) s
  | .wakeParent status c k => wakeup c p k (.wakeParent status c) (.exitLast status) s
  | .exitLast status => exitLast p status s
  | .dying => throw .disabled
  | .dead => throw .disabled
  | .wait addr => waitLock p addr s
  | .waitScan addr j havekids => waitScan ok p addr j havekids s
  | .waitSleep addr => waitSleep p addr s
  | .falling addr => pure (fallAsleep p addr s)
  | .sched addr => pure ((s.setProc p fun x => { x with chan := .null }).goto p (.wait addr))
  | .kill pid j => kill p pid j s

/-! ## The machine -/

/-- A system call of a process in user space. -/
inductive Call where
  | fork
  | exit (status : BitVec 32)
  | wait (addr : BitVec 64)
  | kill (pid : BitVec 32)
deriving DecidableEq, Repr

/-- Where a system call of `p` begins. `exit` has closed the files before. -/
def enter (p : Slot) : Call → Except Stop Pc
  | .fork => pure (.allocproc 0)
  | .exit status => if p = initproc then throw (.panic "init exiting") else pure (.exit status)
  | .wait addr => pure (.wait addr)
  | .kill pid => pure (.kill pid 0)

/-- What can happen: a system call, a step of a thread, the scheduler picks a process or takes
it off its hart, a process sleeps in other kernel code and is woken there, it is killed by a
trap of its own, and the scheduler releases the lock of an exited process. -/
inductive Act where
  | call (p : Slot) (c : Call)
  | run (p : Slot) (ok : Bool)
  | schedule (p : Slot)
  | yield (p : Slot)
  | block (p : Slot)
  | unblock (p : Slot)
  | setkilled (p : Slot)
  | finish (p : Slot)
deriving DecidableEq, Repr

/-- A process that holds `wait_lock`, its own lock or that of a new process is not preempted. -/
def preemptible (p : Slot) (s : State) : Bool :=
  s.waitLock ≠ some p && !s.locked p &&
    match s.pc p with
    | .setup _ => false
    | _ => true

/-- One step of the machine. -/
def step (a : Act) (s : State) : Except Stop State :=
  match a with
  | .call p c =>
    if (s.proc p).state = .running ∧ s.pc p = .user then do
      let pc ← enter p c
      pure (s.goto p pc)
    else throw .disabled
  | .run p ok => if (s.proc p).state = .running then run ok p s else throw .disabled
  | .schedule p =>
    if s.locked p = false ∧ (s.proc p).state = .runnable then
      pure (s.setProc p fun x => { x with state := .running })
    else throw .disabled
  | .yield p =>
    if (s.proc p).state = .running ∧ preemptible p s then
      pure (s.setProc p fun x => { x with state := .runnable })
    else throw .disabled
  | .block p =>
    if (s.proc p).state = .running ∧ s.pc p = .user then
      pure ((s.setProc p fun x => { x with chan := .other, state := .sleeping }).goto p .blocked)
    else throw .disabled
  | .unblock p =>
    if s.locked p = false ∧ (s.proc p).state = .sleeping ∧ (s.proc p).chan = .other then
      pure (s.setProc p fun x => { x with state := .runnable })
    else throw .disabled
  | .setkilled p =>
    if (s.proc p).state = .running ∧ s.pc p = .user then
      pure (s.setProc p fun x => { x with killed := true })
    else throw .disabled
  | .finish p =>
    if s.pc p = .dying then pure ((s.setLocked p false).goto p .dead) else throw .disabled

/-- Some action leads from `s` to `s'`. -/
def Next (s s' : State) : Prop := ∃ a, step a s = .ok s'

/-- The table after `userinit`. -/
def boot : State where
  proc p := if p = initproc then { Proc.free with state := .runnable, pid := 1 } else Proc.free
  pc _ := .user
  waitLock := none
  locked _ := false
  nextpid := 2
  ret _ := 0
  copied _ := none
  hist := [.alloc initproc 1]

/-- The states the machine can reach. -/
def Reachable (s : State) : Prop := Relation.ReflTransGen Next boot s

/-- Take the given actions from `s` on, up to the first one that is not possible. -/
def runActs : State → List Act → State := Lib.runActs fun s a => (step a s).toOption

lemma runActs_run (s : State) (acts : List Act) :
    Relation.ReflTransGen Next s (runActs s acts) :=
  Lib.runActs_of_mem (fun a _ _ _ hs => ⟨a, Lib.eq_ok_of_toOption hs⟩) s

end Xv6.Table
