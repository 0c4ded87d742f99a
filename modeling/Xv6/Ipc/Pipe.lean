import Xv6.Lib.Fifo
import Xv6.Lib.Spec
import Xv6.Params
import Xv6.Process.Machine

/-!
# The pipe machine

One pipe of `kernel/pipe.c` and the processes that call `pipewrite`, `piperead` and
`pipeclose` on it, on any number of harts.

* A step of a process is what it does between two places where another hart can interfere:
  one iteration of a loop under `pi->lock`, one slot of the loop in `wakeup`, or a stage of
  `sleep`. A `kill` may land between any two steps.
* `p->lock` matters where `sleep` has released `pi->lock` but is not yet SLEEPING: `wakeup` and
  `kill` wait for it there.
* `put` and `got` are history variables that list the bytes put into the ring and taken out of
  it; no definition of the machine reads them.
-/

namespace Xv6.Ipc

open Xv6.Lib
open Xv6.Process (NPROC Slot ProcState)

/-- `struct pipe`, without its lock. -/
structure Pipe where
  ring : Fifo UInt8 32 PIPESIZE
  readopen : Bool
  writeopen : Bool

/-- The channels `&pi->nread` and `&pi->nwrite`. -/
inductive Chan where
  | nread
  | nwrite
deriving DecidableEq, Repr

/-- Where a process goes on once it has acquired `pi->lock`: at the top of the loop of
`pipewrite` or `piperead`, or in `pipeclose`. -/
inductive Entry where
  | write (i n : ℤ)
  | read (n : ℤ)
  | close (writable : Bool)
deriving DecidableEq, Repr

/-- What follows a call of `wakeup`. -/
inductive After where
  /-- `pipewrite` sleeps because the pipe is full. -/
  | writeFull (i n : ℤ)
  /-- `pipewrite` or `piperead` releases the lock and returns `v`. -/
  | ret (v : ℤ)
  /-- The end of `pipeclose`. -/
  | closed
deriving DecidableEq, Repr

/-- A place in the code where a process holds `pi->lock`. -/
inductive Held where
  | top (e : Entry)
  /-- The `for` loop of `piperead`. -/
  | readCopy (i n : ℤ)
  /-- About to call `sleep(&pi->nwrite, &pi->lock)`. -/
  | writeSleep (i n : ℤ)
  /-- About to call `sleep(&pi->nread, &pi->lock)`. -/
  | readSleep (n : ℤ)
  /-- In `wakeup(c)`, about to look at `proc[j]`. -/
  | wakeup (c : Chan) (j : ℕ) (k : After)
deriving DecidableEq, Repr

/-- Where a process is. -/
inductive Pc where
  /-- Not in a call on this pipe. -/
  | out
  /-- In `acquire(&pi->lock)`. -/
  | acquire (e : Entry)
  | held (h : Held)
  /-- In `sleep(c)`, holding `p->lock`, after `release(lk)`. -/
  | falling (c : Chan) (e : Entry)
  /-- In `sleep`, inside `sched`. -/
  | sched (e : Entry)
deriving DecidableEq, Repr

/-- The part of `struct proc` that matters here. `chan` is `none` for any channel that is not
one of this pipe, `locked` says that the process itself holds its `p->lock`, and `ret` is the
result of its last call. -/
structure Proc where
  state : ProcState
  chan : Option Chan
  killed : Bool
  locked : Bool
  pc : Pc
  ret : ℤ

/-- State of the machine. -/
structure State where
  pi : Pipe
  /-- The holder of `pi->lock`. -/
  lock : Option Slot
  /-- `pipeclose` has freed the pipe. -/
  freed : Bool
  proc : Slot → Proc
  put : List UInt8
  got : List UInt8

/-- What the page table of the running process answers: the byte `copyin` reads, if the page
is there, and whether `copyout` succeeds. -/
structure User where
  copyin : Option UInt8
  copyout : Bool

namespace State

/-- Change the record of process `p`. -/
def setProc (s : State) (p : Slot) (f : Proc → Proc) : State :=
  { s with proc := Function.update s.proc p (f (s.proc p)) }

/-- Process `p` goes on at `pc`. -/
def goto (s : State) (p : Slot) (pc : Pc) : State := s.setProc p fun x => { x with pc := pc }

/-- `release(&pi->lock); return v;` -/
def leave (s : State) (p : Slot) (v : ℤ) : State :=
  { s with lock := none }.setProc p fun x => { x with pc := .out, ret := v }

/-- The first half of `sleep(c, &pi->lock)`: `acquire(&p->lock); release(lk);` -/
def fall (s : State) (p : Slot) (c : Chan) (e : Entry) : State :=
  { s with lock := none }.setProc p fun x => { x with locked := true, pc := .falling c e }

end State

/-- One round of the loop of `wakeup(c)`, called by `p`. It waits for the lock of `q`. -/
def wakeOne (c : Chan) (p q : Slot) (s : State) : Option State :=
  if q = p then some s
  else if (s.proc q).locked then none
  else if (s.proc q).state = .sleeping ∧ (s.proc q).chan = some c then
    some (s.setProc q fun x => { x with state := .runnable })
  else some s

/-- One iteration of the loop of `pipewrite`. -/
def pipewrite (u : User) (p : Slot) (i n : ℤ) (s : State) : State :=
  if i < n then
    if s.pi.readopen = false ∨ (s.proc p).killed then s.leave p (-1)
    else if s.pi.ring.Full then s.goto p (.held (.wakeup .nread 0 (.writeFull i n)))
    else
      match u.copyin with
      | none => s.goto p (.held (.wakeup .nread 0 (.ret i)))
      | some ch =>
        { s with pi := { s.pi with ring := s.pi.ring.put ch }, put := s.put ++ [ch] }.goto p
          (.held (.top (.write (i + 1) n)))
  else s.goto p (.held (.wakeup .nread 0 (.ret i)))

/-- One iteration of the `while` loop of `piperead`. -/
def pipereadWait (p : Slot) (n : ℤ) (s : State) : State :=
  if s.pi.ring.Empty ∧ s.pi.writeopen then
    if (s.proc p).killed then s.leave p (-1) else s.goto p (.held (.readSleep n))
  else s.goto p (.held (.readCopy 0 n))

/-- One iteration of the `for` loop of `piperead`. -/
def pipereadCopy (u : User) (p : Slot) (i n : ℤ) (s : State) : State :=
  if i < n ∧ ¬s.pi.ring.Empty then
    let s' := { s with pi := { s.pi with ring := s.pi.ring.pop },
                       got := s.got ++ [s.pi.ring.front] }
    if u.copyout then s'.goto p (.held (.readCopy (i + 1) n))
    else s'.goto p (.held (.wakeup .nwrite 0 (.ret i)))
  else s.goto p (.held (.wakeup .nwrite 0 (.ret i)))

/-- The first half of `pipeclose`. -/
def pipeclose (p : Slot) (writable : Bool) (s : State) : State :=
  if writable then
    { s with pi := { s.pi with writeopen := false } }.goto p (.held (.wakeup .nread 0 .closed))
  else
    { s with pi := { s.pi with readopen := false } }.goto p (.held (.wakeup .nwrite 0 .closed))

/-- What follows `wakeup`. `pipeclose` frees the pipe when both ends are closed. -/
def afterWakeup (p : Slot) (s : State) : After → State
  | .writeFull i n => s.goto p (.held (.writeSleep i n))
  | .ret v => s.leave p v
  | .closed =>
    { s with lock := none, freed := !s.pi.readopen && !s.pi.writeopen }.goto p .out

/-- A step of process `p`, which holds `pi->lock`. -/
def runHeld (u : User) (p : Slot) (s : State) : Held → Option State
  | .top (.write i n) => some (pipewrite u p i n s)
  | .top (.read n) => some (pipereadWait p n s)
  | .top (.close writable) => some (pipeclose p writable s)
  | .readCopy i n => some (pipereadCopy u p i n s)
  | .writeSleep i n => some (s.fall p .nwrite (.write i n))
  | .readSleep n => some (s.fall p .nread (.read n))
  | .wakeup c j k =>
    if h : j < NPROC then
      (wakeOne c p ⟨j, h⟩ s).map fun s' => s'.goto p (.held (.wakeup c (j + 1) k))
    else some (afterWakeup p s k)

/-- A step of process `p`. -/
def run (u : User) (p : Slot) (s : State) : Option State :=
  match (s.proc p).pc with
  | .out => none
  | .acquire e =>
    if s.lock = none then some ({ s with lock := some p }.goto p (.held (.top e))) else none
  | .held h => runHeld u p s h
  | .falling c e =>
    -- the scheduler releases `p->lock`
    some (s.setProc p fun x =>
      { x with state := .sleeping, chan := some c, locked := false, pc := .sched e })
  | .sched e =>
    if (s.proc p).state = .runnable then
      some (s.setProc p fun x => { x with state := .running, chan := none, pc := .acquire e })
    else none

/-- What can happen: a process outside the pipe calls `pipewrite(n)`, `piperead(n)` or
`pipeclose`, a process takes a step, a process is killed, or a slot passes to a new process. -/
inductive Act where
  | write (p : Slot) (n : ℤ)
  | read (p : Slot) (n : ℤ)
  | close (p : Slot) (writable : Bool)
  | run (p : Slot) (u : User)
  | kill (p : Slot)
  | recycle (p : Slot)

/-- Process `p` calls one of the three functions. -/
def enter (p : Slot) (e : Entry) (s : State) : Option State :=
  if (s.proc p).pc = .out then some (s.goto p (.acquire e)) else none

/-- `kill` finds process `p`. -/
def kill (p : Slot) (s : State) : Option State :=
  if (s.proc p).locked then none
  else some (s.setProc p fun x =>
    { x with killed := true, state := if x.state = .sleeping then .runnable else x.state })

/-- One step of the machine. Nobody uses a pipe that is freed: the file layer calls `pipeclose`
for an end when the last descriptor of that end is closed. -/
def step (a : Act) (s : State) : Option State :=
  if s.freed then none
  else
    match a with
    | .write p n => enter p (.write 0 n) s
    | .read p n => enter p (.read n) s
    | .close p writable => enter p (.close writable) s
    | .run p u => run u p s
    | .kill p => kill p s
    | .recycle p =>
      if (s.proc p).pc = .out then some (s.setProc p fun x => { x with killed := false }) else none

/-- Some action leads from `s` to `s'`. -/
def Next (s s' : State) : Prop := ∃ a, step a s = some s'

/-- The pipe as `pipealloc` makes it, in a page with the bytes `data`. -/
def pipealloc (data : ℕ → UInt8) : State where
  pi := { ring := ⟨data, 0, 0⟩, readopen := true, writeopen := true }
  lock := none
  freed := false
  proc _ := ⟨.running, none, false, false, .out, 0⟩
  put := []
  got := []

/-- The states a pipe can reach. -/
def Reachable (data : ℕ → UInt8) (s : State) : Prop :=
  Relation.ReflTransGen Next (pipealloc data) s

/-- Take the given actions from `s` on, up to the first one that is not possible. -/
def runActs : State → List Act → State := Lib.runActs fun s a => step a s

lemma runActs_run (s : State) (acts : List Act) :
    Relation.ReflTransGen Next s (runActs s acts) :=
  runActs_of_mem (fun a _ _ _ hs => ⟨a, hs⟩) s

end Xv6.Ipc
