import Xv6.Lib.Spec
import Xv6.Process.Machine

/-!
# The single-hart process machine: kernel code and steps

The code of `kernel/proc.c` and of the trap path in `kernel/trap.c`, cut where the
hart holds no spinlock and at `swtch`. Each block below runs from one such place to
the next one. Interrupts are off inside a block (`noff > 0`), so on one hart nothing
can happen in the middle of it.

`step` runs one block. Its second argument carries what the kernel code does not
decide: the user program, the devices, and whether `kalloc` and `copyout` succeed.
-/

namespace Xv6.Process

/-- `(uint64)-1`. -/
def minusOne : BitVec 64 := -1

/-! ## `sched`, `sleep`, `wakeup`, `killed` -/

/-- `sched`, called by process `p`. `ctx` is the context `swtch` saves, given the
local `intena`. -/
def sched (p : Slot) (ctx : Bool → Ctx) (m : Machine) : Exec :=
  if !holding (.proc p) m then throw (.panic "sched p->lock")
  else if m.noff ≠ 1 then throw (.panic "sched locks")
  else if (m.proc p).state = .running then throw (.panic "sched running")
  else if m.sie then throw (.panic "sched interruptible")
  else pure { m.setProc p (fun q => { q with context := ctx m.intena }) with pc := .swtchSched }

/-- `yield`, called by process `p`, up to its `swtch`. -/
def yield (p : Slot) (ctx : Bool → Ctx) (m : Machine) : Exec := do
  let m ← acquire (.proc p) m
  let m := m.setProc p fun q => { q with state := .runnable }
  sched p ctx m

/-- `sleep(chan, lk)`, called by process `p`, up to its `swtch`. -/
def sleep (p : Slot) (chan : Chan) (lk : Lock) (s : Sleeper) (m : Machine) : Exec := do
  let m ← acquire (.proc p) m
  let m ← release lk m
  let m := m.setProc p fun q => { q with chan := chan, state := .sleeping }
  sched p (.sleep s) m

/-- The body of the loop of `wakeup(chan)`. -/
def wakeupOne (chan : Chan) (m : Machine) (p : Slot) : Exec :=
  if m.cpuProc = some p then pure m
  else do
    let m ← acquire (.proc p) m
    let m := m.setProc p fun q =>
      if q.state = .sleeping ∧ q.chan = chan then { q with state := .runnable } else q
    release (.proc p) m

/-- `wakeup(chan)`. -/
def wakeup (chan : Chan) (m : Machine) : Exec :=
  (List.finRange NPROC).foldlM (wakeupOne chan) m

/-- `killed(p)`. -/
def killed (p : Slot) (m : Machine) : Except Stop (Bool × Machine) := do
  let m ← acquire (.proc p) m
  let k := (m.proc p).killed
  let m ← release (.proc p) m
  pure (k, m)

/-- `setkilled(p)`. -/
def setkilled (p : Slot) (m : Machine) : Exec := do
  let m ← acquire (.proc p) m
  let m := m.setProc p fun q => { q with killed := true }
  release (.proc p) m

/-! ## `scheduler` -/

/-- One iteration of the inner loop of `scheduler`, up to its `swtch` if
`proc[i]` is runnable. -/
def schedulerScan (i : ℕ) (m : Machine) : Exec :=
  if h : i < NPROC then do
    let p : Slot := ⟨i, h⟩
    let m ← acquire (.proc p) m
    if (m.proc p).state = .runnable then
      let m := m.setProc p fun q => { q with state := .running }
      pure { m with cpuProc := some p, cpuContext := i, pc := .swtchProc p }
    else do
      let m ← release (.proc p) m
      pure { m with pc := .schedScan (i + 1) }
  else pure { m with pc := .schedTop }

/-- The rest of the iteration of `scheduler`, after its `swtch` returned. -/
def schedulerResume (m : Machine) : Exec :=
  match m.cpuProc with
  | none => throw (.panic "kerneltrap")
  | some ran => do
    let m ← release (.proc ran) { m with cpuProc := none }
    pure { m with pc := .schedScan (m.cpuContext + 1) }

/-! ## `co_yield` -/

/-- The `return -1` exits of `co_yield`. -/
def coYieldFail (p : Slot) (pid value : BitVec 32) (m : Machine) : Machine :=
  (m.record (.fail p (m.proc p).pid pid value)).goto (.sysRet minusOne)

/-- `co_yield(pid, value)`, called by process `p`, up to the call of `find_proc`. -/
def coYieldEntry (p : Slot) (pid value : BitVec 32) (m : Machine) : Exec :=
  if pid.toInt ≤ 0 ∨ pid = (m.proc p).pid then pure (coYieldFail p pid value m)
  else pure (m.goto (.findProc pid value 0))

/-- `co_yield`, from the branch on a target that sleeps to the `swtch` there. -/
def coYieldExchange (p target : Slot) (pid value : BitVec 32) (m : Machine) : Exec :=
  if (m.proc target).chan ≠ .coChan p then do
    let m ← release (.proc target) m
    pure (coYieldFail p pid value m)
  else do
    let m ← acquire (.proc p) m
    if (m.proc p).killed then
      let m ← release (.proc p) m
      let m ← release (.proc target) m
      pure (coYieldFail p pid value m)
    else do
      let m := m.setProc p fun q =>
        { q with trapframe := { q.trapframe with a1 := value.signExtend 64 } }
      let m := m.setProc p fun q =>
        { q with trapframe := { q.trapframe with a0 := (m.proc target).trapframe.a1 } }
      let m := m.setProc target fun q =>
        if q.trapframe.a0 = minusOne then
          { q with trapframe := { q.trapframe with a0 := value.signExtend 64 } }
        else q
      let m := m.setProc p fun q => { q with chan := .coChan target, state := .sleeping }
      let m := m.setProc target fun q => { q with state := .running, chan := .null }
      let m := { m with cpuProc := some target }
      let m ← release (.proc p) m
      let m := m.setProc p fun q => { q with context := .coYield target pid value }
      let m := m.record (.exchange p target (m.proc p).pid pid value)
      pure { m with pc := .swtchProc target }

/-- `co_yield`, from the branch on a target that does not sleep to the `swtch` there:
the first side to arrive parks itself. -/
def coYieldPark (p target : Slot) (pid value : BitVec 32) (m : Machine) : Exec :=
  if (m.proc target).state ≠ .runnable then do
    let m ← release (.proc target) m
    pure (coYieldFail p pid value m)
  else do
    let m ← acquire (.proc p) m
    if (m.proc p).killed then
      let m ← release (.proc p) m
      let m ← release (.proc target) m
      pure (coYieldFail p pid value m)
    else do
      let m := m.setProc p fun q =>
        { q with trapframe := { a0 := minusOne, a1 := value.signExtend 64 } }
      let m := m.setProc p fun q => { q with chan := .coChan target, state := .sleeping }
      let m := m.setProc target fun q => { q with state := .running }
      let m := { m with cpuProc := some target }
      let m ← release (.proc p) m
      let m := m.setProc p fun q => { q with context := .coYield target pid value }
      let m := m.record (.park p target (m.proc p).pid pid value)
      pure { m with pc := .swtchProc target }

/-- `co_yield`, after `find_proc` returned `target` with its lock held. -/
def coYieldFound (p target : Slot) (pid value : BitVec 32) (m : Machine) : Exec :=
  let t := m.proc target
  if t.killed ∨ t.state = .unused ∨ t.state = .zombie then do
    let m ← release (.proc target) m
    pure (coYieldFail p pid value m)
  else if t.state = .sleeping then coYieldExchange p target pid value m
  else coYieldPark p target pid value m

/-- One iteration of `find_proc(pid)`; when it finds the process, `co_yield` goes on
with the lock held. -/
def findProc (p : Slot) (pid value : BitVec 32) (i : ℕ) (m : Machine) : Exec :=
  if h : i < NPROC then do
    let target : Slot := ⟨i, h⟩
    let m ← acquire (.proc target) m
    if (m.proc target).pid = pid ∧ (m.proc target).state ≠ .unused then
      coYieldFound p target pid value m
    else do
      let m ← release (.proc target) m
      pure (m.goto (.findProc pid value (i + 1)))
  else pure (coYieldFail p pid value m)

/-- Both tails of `co_yield`: what process `p` does when its `swtch` returns. -/
def coYieldResume (p : Slot) (pid : BitVec 32) (m : Machine) : Exec := do
  let ret := (m.proc p).trapframe.a0.setWidth 32
  let m := m.setProc p fun q => { q with chan := .null }
  let m ← release (.proc p) m
  let m := m.record (.ret p (m.proc p).pid pid ret (m.proc p).killed)
  pure (m.goto (.sysRet (ret.signExtend 64)))

/-! ## `kill`, `fork`, `exit`, `wait` -/

/-- One iteration of `kill(pid)`. -/
def kill (pid : BitVec 32) (i : ℕ) (m : Machine) : Exec :=
  if h : i < NPROC then do
    let q : Slot := ⟨i, h⟩
    let m ← acquire (.proc q) m
    if (m.proc q).pid = pid then
      let m := m.setProc q fun r =>
        { r with killed := true, state := if r.state = .sleeping then .runnable else r.state }
      let m ← release (.proc q) m
      pure (m.goto (.sysRet 0))
    else do
      let m ← release (.proc q) m
      pure (m.goto (.kill pid (i + 1)))
  else pure (m.goto (.sysRet minusOne))

/-- `freeproc`. -/
def freeproc (p : Slot) (m : Machine) : Machine :=
  m.setProc p fun q =>
    { q with
      pid := 0, parent := none, chan := .null, killed := false, xstate := 0, state := .unused }

/-- `allocpid`. -/
def allocpid (m : Machine) : Except Stop (BitVec 32 × Machine) := do
  let m ← acquire .pidLock m
  let pid := m.nextpid
  let m := { m with nextpid := m.nextpid + 1 }
  let m ← release .pidLock m
  pure (pid, m)

/-- Which of the allocations of `fork` fails: the trapframe page, the page table,
the copy of the user memory, or none. -/
inductive AllocOutcome where
  | noTrapframe
  | noPagetable
  | noCopy
  | ok
deriving DecidableEq, Repr

/-- `allocproc` from `found:` on, and `fork` up to the first `release(&np->lock)`. -/
def forkFound (p np : Slot) (o : AllocOutcome) (m : Machine) : Exec := do
  let (pid, m) ← allocpid m
  let m := m.setProc np fun q => { q with pid := pid, state := .used }
  match o with
  | .noTrapframe | .noPagetable =>
    let m ← release (.proc np) (freeproc np m)
    pure (m.goto (.sysRet minusOne))
  | .noCopy =>
    let m := m.setProc np fun q => { q with context := .forkret }
    let m ← release (.proc np) (freeproc np m)
    pure (m.goto (.sysRet minusOne))
  | .ok =>
    let m := m.setProc np fun q =>
      { q with context := .forkret, trapframe := { (m.proc p).trapframe with a0 := 0 } }
    let m ← release (.proc np) m
    pure (m.goto (.forkParent np pid))

/-- One iteration of the loop of `allocproc`, called by `fork`. -/
def allocproc (p : Slot) (i : ℕ) (o : AllocOutcome) (m : Machine) : Exec :=
  if h : i < NPROC then do
    let np : Slot := ⟨i, h⟩
    let m ← acquire (.proc np) m
    if (m.proc np).state = .unused then forkFound p np o m
    else do
      let m ← release (.proc np) m
      pure (m.goto (.allocproc (i + 1)))
  else pure (m.goto (.sysRet minusOne))

/-- `fork`: the `wait_lock` section that sets the parent. -/
def forkParent (p np : Slot) (pid : BitVec 32) (m : Machine) : Exec := do
  let m ← acquire .waitLock m
  let m := m.setProc np fun q => { q with parent := some p }
  let m ← release .waitLock m
  pure (m.goto (.forkRunnable np pid))

/-- `fork`: the last section, which makes the child runnable. -/
def forkRunnable (np : Slot) (pid : BitVec 32) (m : Machine) : Exec := do
  let m ← acquire (.proc np) m
  let m := m.setProc np fun q => { q with state := .runnable }
  let m ← release (.proc np) m
  pure (m.goto (.sysRet (pid.signExtend 64)))

/-- The body of the loop of `reparent(p)`. -/
def reparentOne (p : Slot) (m : Machine) (pp : Slot) : Exec :=
  if (m.proc pp).parent = some p then
    wakeup (.proc m.initproc) (m.setProc pp fun q => { q with parent := some m.initproc })
  else pure m

/-- `reparent(p)`. -/
def reparent (p : Slot) (m : Machine) : Exec :=
  (List.finRange NPROC).foldlM (reparentOne p) m

/-- `exit(status)`, called by process `p`, up to closing the files. -/
def exitEntry (p : Slot) (status : BitVec 32) (m : Machine) : Exec :=
  if p = m.initproc then throw (.panic "init exiting")
  else pure (m.goto (.busy (.exit status)))

/-- The sleep channel `p->parent`. -/
def parentChan (q : Proc) : Chan :=
  match q.parent with
  | some pp => .proc pp
  | none => .null

/-- `exit(status)`, from `acquire(&wait_lock)` to the `swtch` of `sched`. -/
def exitLast (p : Slot) (status : BitVec 32) (m : Machine) : Exec := do
  let m ← acquire .waitLock m
  let m ← reparent p m
  let m ← wakeup (parentChan (m.proc p)) m
  let m ← acquire (.proc p) m
  let m := m.setProc p fun q => { q with xstate := status, state := .zombie }
  let m ← release .waitLock m
  sched p (fun _ => .exit) m

/-- How one scan of the process table by `wait` ends. -/
inductive WaitScan where
  | reaped (pid : BitVec 32)
  | copyoutFailed
  | scanned (havekids : Bool)
deriving DecidableEq, Repr

/-- The scan of `wait(addr)` over the given slots, with `wait_lock` held. `copied` says
whether `copyout` succeeds. -/
def waitScan (p : Slot) (addr : BitVec 64) (copied : Bool) :
    List Slot → Bool → Machine → Except Stop (WaitScan × Machine)
  | [], havekids, m => pure (.scanned havekids, m)
  | pp :: rest, havekids, m =>
    if (m.proc pp).parent = some p then do
      let m ← acquire (.proc pp) m
      if (m.proc pp).state = .zombie then
        if addr ≠ 0 ∧ copied = false then
          let m ← release (.proc pp) m
          pure (.copyoutFailed, m)
        else do
          let pid := (m.proc pp).pid
          let m ← release (.proc pp) (freeproc pp m)
          pure (.reaped pid, m)
      else do
        let m ← release (.proc pp) m
        waitScan p addr copied rest true m
    else waitScan p addr copied rest havekids m

/-- `wait(addr)`, called by process `p`, from `acquire(&wait_lock)` to its return or to
the `swtch` of its `sleep`. -/
def wait (p : Slot) (addr : BitVec 64) (copied : Bool) (m : Machine) : Exec := do
  let m ← acquire .waitLock m
  let (r, m) ← waitScan p addr copied (List.finRange NPROC) false m
  match r with
  | .reaped pid =>
    let m ← release .waitLock m
    pure (m.goto (.sysRet (pid.signExtend 64)))
  | .copyoutFailed =>
    let m ← release .waitLock m
    pure (m.goto (.sysRet minusOne))
  | .scanned havekids =>
    if !havekids then
      let m ← release .waitLock m
      pure (m.goto (.sysRet minusOne))
    else do
      let (k, m) ← killed p m
      if k then
        let m ← release .waitLock m
        pure (m.goto (.sysRet minusOne))
      else sleep p (.proc p) .waitLock (.wait addr) m

/-! ## Traps -/

/-- An interrupt, as `devintr` sees it: the timer, or a device whose handler takes a
lock of its own and wakes some channels. -/
inductive Intr where
  | timer
  | device (lk : ℕ) (chans : List ℕ)
deriving DecidableEq, Repr

/-- The address of `ticks`, a channel of `other` kernel code. -/
def ticksChan : ℕ := 0

/-- `devintr`, for a recognised interrupt. -/
def devintr (d : Intr) (m : Machine) : Exec :=
  match d with
  | .timer => do
    let m ← acquire .ticksLock m
    let m ← wakeup (.other ticksChan) m
    release .ticksLock m
  | .device lk chans => do
    let m ← acquire (.other lk) m
    let m ← chans.foldlM (fun m c => wakeup (.other c) m) m
    release (.other lk) m

/-- `kerneltrap`, which interrupted the kernel code of `c->proc` at `k`. On return
`sret` enables interrupts again. -/
def kerneltrap (p : Slot) (k : Point) (d : Intr) (m : Machine) : Exec := do
  let m ← devintr d { m with sie := false }
  if d = .timer ∧ (m.proc p).state = .running then yield p (.yieldKernel k) m
  else pure { m with sie := true }

/-- `kerneltrap`, which interrupted `scheduler`: there is no current process. -/
def kerneltrapIdle (d : Intr) (m : Machine) : Exec := do
  let m ← devintr d { m with sie := false }
  pure { m with sie := true }

/-- `usertrapret`: back to user mode, where interrupts are enabled. -/
def usertrapret (m : Machine) : Machine := { m with sie := true, pc := .run .user }

/-- Entering the kernel from user mode: the hardware disables interrupts and `uservec`
saves the user registers. -/
def uservec (p : Slot) (a0 a1 : BitVec 64) (m : Machine) : Machine :=
  { m.setProc p (fun q => { q with trapframe := ⟨a0, a1⟩ }) with sie := false }

/-- The system calls. -/
inductive Call where
  | coYield
  | kill
  | fork
  | exit
  | wait
  | other
deriving DecidableEq, Repr

/-- `syscall`: fetch the arguments of the call and enter its function. -/
def syscall (p : Slot) (c : Call) (m : Machine) : Exec :=
  let tf := (m.proc p).trapframe
  match c with
  | .coYield => pure (m.goto (.coYield (tf.a0.setWidth 32) (tf.a1.setWidth 32)))
  | .kill => pure (m.goto (.kill (tf.a0.setWidth 32) 0))
  | .fork => pure (m.goto (.allocproc 0))
  | .exit => exitEntry p (tf.a0.setWidth 32) m
  | .wait => pure (m.goto (.wait tf.a0))
  | .other => pure (m.goto (.busy .sysRet))

/-- `usertrap` on a system call, up to the function of the call. -/
def usertrapSyscall (p : Slot) (c : Call) (a0 a1 : BitVec 64) (m : Machine) : Exec := do
  let (k, m) ← killed p (uservec p a0 a1 m)
  if k then exitEntry p (-1) m
  else syscall p c { m with sie := true }

/-- `usertrap` on an interrupt. -/
def usertrapIntr (p : Slot) (d : Intr) (a0 a1 : BitVec 64) (m : Machine) : Exec := do
  let m ← devintr d (uservec p a0 a1 m)
  let (k, m) ← killed p m
  if k then exitEntry p (-1) m
  else if d = .timer then yield p .yieldUser m
  else pure (usertrapret m)

/-- `usertrap` on an exception it does not handle. -/
def usertrapFault (p : Slot) (a0 a1 : BitVec 64) (m : Machine) : Exec := do
  let m ← setkilled p (uservec p a0 a1 m)
  let (k, m) ← killed p m
  if k then exitEntry p (-1) m
  else pure (usertrapret m)

/-- The end of `usertrap` after a system call. -/
def trapRet (p : Slot) (m : Machine) : Exec := do
  let (k, m) ← killed p m
  if k then exitEntry p (-1) m
  else pure (usertrapret m)

/-- `forkret`, on the first switch to a new process. -/
def forkret (m : Machine) : Exec :=
  match m.cpuProc with
  | none => throw (.panic "kerneltrap")
  | some p => do
    let m ← release (.proc p) m
    if m.first then pure ({ m with first := false }.goto (.busy .userRet))
    else pure (usertrapret m)

/-! ## Resuming a process -/

/-- The end of `sched` and of `yield` in process `p`. -/
def yieldResume (p : Slot) (intena : Bool) (m : Machine) : Exec :=
  release (.proc p) { m with intena := intena }

/-- The end of `sched` and of `sleep` in process `p`, up to `acquire(lk)`. -/
def sleepResume (p : Slot) (intena : Bool) (m : Machine) : Exec :=
  release (.proc p)
    { m.setProc p (fun q => { q with chan := .null }) with intena := intena }

/-- What runs when `swtch` loads `p->context`. -/
def resume (p : Slot) (m : Machine) : Exec :=
  match (m.proc p).context with
  | .none => throw (.panic "kerneltrap")
  | .forkret => forkret m
  | .coYield _ pid _ => coYieldResume p pid m
  | .sleep (.wait addr) intena => do
    let m ← sleepResume p intena m
    pure (m.goto (.wait addr))
  | .sleep (.other chan lk k) intena => do
    let m ← sleepResume p intena m
    pure (m.goto (.relock chan lk k))
  | .yieldUser intena => do
    let m ← yieldResume p intena m
    pure (usertrapret m)
  | .yieldKernel k intena => do
    let m ← yieldResume p intena m
    pure { m with sie := true, pc := .run k }
  | .exit => throw (.panic "zombie exit")

/-! ## Other kernel code -/

/-- Kernel code that takes a lock of its own and sleeps on a channel of its own. -/
def sleepOn (p : Slot) (chan lk : ℕ) (k : After) (m : Machine) : Exec := do
  let m ← acquire (.other lk) m
  sleep p (.other chan) (.other lk) (.other chan lk k) m

/-- The end of such a `sleep`: `lk` is held again, and the caller sleeps once more or
goes on. -/
def relock (p : Slot) (chan lk : ℕ) (k : After) (again : Bool) (m : Machine) : Exec := do
  let m ← acquire (.other lk) m
  if again then sleep p (.other chan) (.other lk) (.other chan lk k) m
  else do
    let m ← release (.other lk) m
    pure (m.goto (.busy k))

/-- Kernel code that takes a lock of its own and wakes a channel of its own. -/
def wake (chan lk : ℕ) (m : Machine) : Exec := do
  let m ← acquire (.other lk) m
  let m ← wakeup (.other chan) m
  release (.other lk) m

/-- The end of such code. -/
def finish (k : After) (r : BitVec 64) (m : Machine) : Machine :=
  match k with
  | .sysRet => m.goto (.sysRet r)
  | .exit status => m.goto (.exitLast status)
  | .userRet => usertrapret m

/-! ## Steps -/

/-- What happens next, as far as the kernel code does not decide it. -/
inductive Act where
  /-- The hart goes on. -/
  | run
  /-- The user program makes a system call, with these registers. -/
  | ecall (c : Call) (a0 a1 : BitVec 64)
  /-- An interrupt arrives in user mode. -/
  | userIntr (d : Intr) (a0 a1 : BitVec 64)
  /-- The user program faults. -/
  | userFault (a0 a1 : BitVec 64)
  /-- An interrupt arrives in the kernel. -/
  | intr (d : Intr)
  /-- The hart goes on in `allocproc`, with this outcome of the allocations. -/
  | alloc (o : AllocOutcome)
  /-- The hart goes on in `wait`, and `copyout` succeeds or not. -/
  | copyout (copied : Bool)
  /-- Other kernel code sleeps. -/
  | sleepOn (chan lk : ℕ)
  /-- Other kernel code goes on after a sleep. -/
  | relock (again : Bool)
  /-- Other kernel code wakes a channel. -/
  | wake (chan lk : ℕ)
  /-- Other kernel code ends with this result. -/
  | finish (r : BitVec 64)
deriving DecidableEq, Repr

/-- `x`, if the hart just goes on. -/
def onRun (a : Act) (x : Exec) : Exec :=
  match a with
  | .run => x
  | _ => throw .disabled

/-- One block of process `p`, which is in user mode. -/
def stepUser (p : Slot) (a : Act) (m : Machine) : Exec :=
  match a with
  | .ecall c a0 a1 => usertrapSyscall p c a0 a1 m
  | .userIntr d a0 a1 => usertrapIntr p d a0 a1 m
  | .userFault a0 a1 => usertrapFault p a0 a1 m
  | _ => throw .disabled

/-- One block of process `p` in kernel code that may sleep on and wake other channels. -/
def stepBusy (p : Slot) (k : After) (a : Act) (m : Machine) : Exec :=
  match a with
  | .sleepOn chan lk => sleepOn p chan lk k m
  | .wake chan lk => wake chan lk m
  | .finish r => pure (finish k r m)
  | _ => throw .disabled

/-- One block of process `p`, which is at `k` and is not interrupted in the kernel. -/
def stepPoint (p : Slot) (k : Point) (a : Act) (m : Machine) : Exec :=
  match k with
  | .user => stepUser p a m
  | .coYield pid value => onRun a (coYieldEntry p pid value m)
  | .findProc pid value i => onRun a (findProc p pid value i m)
  | .kill pid i => onRun a (kill pid i m)
  | .allocproc i =>
    match a with
    | .alloc o => allocproc p i o m
    | _ => throw .disabled
  | .forkParent np pid => onRun a (forkParent p np pid m)
  | .forkRunnable np pid => onRun a (forkRunnable np pid m)
  | .wait addr =>
    match a with
    | .copyout copied => wait p addr copied m
    | _ => throw .disabled
  | .busy k => stepBusy p k a m
  | .relock chan lk k =>
    match a with
    | .relock again => relock p chan lk k again m
    | _ => throw .disabled
  | .exitLast status => onRun a (exitLast p status m)
  | .sysRet r =>
    onRun a (pure ((m.setProc p fun q =>
      { q with trapframe := { q.trapframe with a0 := r } }).goto .trapRet))
  | .trapRet => onRun a (trapRet p m)

/-- One block of process `p`, which is at `k`. -/
def stepProc (p : Slot) (k : Point) (a : Act) (m : Machine) : Exec :=
  match a with
  | .intr d => if k ≠ .user ∧ m.sie then kerneltrap p k d m else throw .disabled
  | a => stepPoint p k a m

/-- One block of `scheduler`, which is at `x`. -/
def stepIdle (x : Machine → Exec) (a : Act) (m : Machine) : Exec :=
  match a with
  | .run => x m
  | .intr d => if m.sie then kerneltrapIdle d m else throw .disabled
  | _ => throw .disabled

/-- One step of the hart. -/
def step (m : Machine) (a : Act) : Exec :=
  match m.pc with
  | .schedTop => stepIdle (fun m => pure { m with sie := true, pc := .schedScan 0 }) a m
  | .schedScan i => stepIdle (schedulerScan i) a m
  | .swtchSched => onRun a (schedulerResume m)
  | .swtchProc p => onRun a (resume p m)
  | .run k =>
    match m.cpuProc with
    | none => throw (.panic "kerneltrap")
    | some p => stepProc p k a m

/-- The state in which `main` enters `scheduler`: `userinit` has made the first
process, with pid 1, in the first slot. -/
def boot : Machine where
  proc := Function.update (fun _ => Proc.zero) 0
    { Proc.zero with state := .runnable, pid := 1, context := .forkret }
  cpuProc := none
  cpuContext := 0
  noff := 0
  intena := false
  sie := false
  locks := []
  nextpid := 2
  initproc := 0
  first := true
  pc := .schedTop
  trace := []

/-- The hart can go from `m` to `m'` in one step. -/
def Next (m m' : Machine) : Prop := ∃ a, step m a = .ok m'

/-- The states of all runs from boot. -/
def Reachable (m : Machine) : Prop := Relation.ReflTransGen Next boot m

/-- Run a list of actions, up to the first one that stops. -/
def runActs : Machine → List Act → Machine := Lib.runActs fun m a => (step m a).toOption

end Xv6.Process
