import Xv6.Params
import Xv6.Vm.Exec

/-!
# System calls that allocate memory

`fork`, `exit`, `wait` and `growproc` of `kernel/proc.c`, `exec`, and the pipes of
`kernel/pipe.c`, `kernel/file.c` and `kernel/sysfile.c`, over the physical memory of
`Xv6.Vm.Memory`. A pipe is a page of that memory; user code can store to the pages it can
access at any time.

A system call runs from its entry to its return. What other calls in progress do to `kalloc`
is in `Ram.deny`, which is given anew for each call. Of `struct file` there is what pipes
need, and of `struct proc` what memory and pipes need. A process is identified by its slot.
-/

namespace Xv6.Vm

open Xv6.Lib
open Xv6.Process (NPROC Slot ProcState Stop)

/-! ## State -/

/-- An index into `ftable.file`. -/
abbrev FileNo := Fin NFILE

/-- `struct file`. `pipe` is the page of the pipe, or `none` for the type `FD_NONE`. -/
structure File where
  ref : ℕ
  pipe : Option ℕ
  writable : Bool
deriving DecidableEq

/-- `struct proc`. `name` is the string in the array of that name. -/
structure Proc where
  state : ProcState
  xstate : BitVec 32
  parent : Option Slot
  sz : ℕ
  pagetable : ℕ
  trapframe : ℕ
  ofile : Fin NOFILE → Option FileNo
  name : List UInt8
deriving DecidableEq

/-- `sizeof(p->name)`. -/
def NAMESIZE : ℕ := 16

/-- The string that `safestrcpy` leaves in an array of `n` bytes. -/
def safestrcpy (str : List UInt8) (n : ℕ) : List UInt8 := (str.takeWhile (· ≠ 0)).take (n - 1)

/-- The kernel's own data: the process table, the file table, and the pages that the kernel
allocates when it starts and keeps (its page table, the kernel stacks, the disk driver). -/
structure Sys where
  proc : Slot → Proc
  file : FileNo → File
  kernel : List ℕ

/-- State of the machine. -/
structure State where
  ram : Ram
  sys : Sys

/-- Kernel code. -/
abbrev M := StateT State (Except Stop)

/-- Run code that works on physical memory only. -/
def vm {α : Type} (x : VmM α) : M α := fun s => do
  let (a, ram) ← x.run s.ram
  return (a, { s with ram := ram })

/-- Change the record of process `p`. -/
def Sys.setProc (k : Sys) (p : Slot) (f : Proc → Proc) : Sys :=
  { k with proc := Function.update k.proc p (f (k.proc p)) }

/-- Change an entry of the file table. -/
def Sys.setFile (k : Sys) (f : FileNo) (g : File → File) : Sys :=
  { k with file := Function.update k.file f (g (k.file f)) }

/-- Change the kernel's data. -/
def modifySys (f : Sys → Sys) : M Unit := modify fun s => { s with sys := f s.sys }

/-- Assign to fields of `*p`. -/
def modifyProc (p : Slot) (f : Proc → Proc) : M Unit := modifySys fun k => k.setProc p f

/-- Assign to fields of `*f`. -/
def modifyFile (f : FileNo) (g : File → File) : M Unit := modifySys fun k => k.setFile f g

/-- `*p`. -/
def proc (p : Slot) : M Proc := do return (← get).sys.proc p

/-- `*f`. -/
def file (f : FileNo) : M File := do return (← get).sys.file f

/-- `initproc`: `userinit` allocates the first slot. -/
def initproc : Slot := 0

/-! ## Pipes and files -/

/-- Offset of `readopen` in `struct pipe`. -/
def READOPEN : ℕ := 544

/-- Offset of `writeopen` in `struct pipe`. -/
def WRITEOPEN : ℕ := 548

/-- The offset of the flag of an end. -/
def openField (writable : Bool) : ℕ := if writable then WRITEOPEN else READOPEN

/-- `pi->readopen` or `pi->writeopen`. -/
def pipeOpen (pi : ℕ) (writable : Bool) : VmM Bool := do
  return decide (((← get).mem pi).ld 4 (openField writable) ≠ 0)

/-- Assign to `pi->readopen` or `pi->writeopen`. -/
def setPipeOpen (pi : ℕ) (writable : Bool) (v : ℕ) : VmM Unit :=
  modify fun s => s.setPage pi ((s.mem pi).st 4 (openField writable) v)

/-- `pipeclose`. -/
def pipeclose (lk : Link) (pi : ℕ) (writable : Bool) : VmM Unit := do
  setPipeOpen pi writable 0
  if !(← pipeOpen pi false) && !(← pipeOpen pi true) then kfree lk pi else return

/-- `filealloc`. -/
def filealloc : M (Option FileNo) := do
  let k := (← get).sys
  match (List.finRange NFILE).find? fun f => (k.file f).ref = 0 with
  | some f =>
    modifyFile f fun x => { x with ref := 1 }
    return some f
  | none => return none

/-- `filedup`. -/
def filedup (f : FileNo) : M Unit := do
  if (← file f).ref < 1 then throw (.panic "filedup")
  else modifyFile f fun x => { x with ref := x.ref + 1 }

/-- `fileclose`. -/
def fileclose (lk : Link) (f : FileNo) : M Unit := do
  let ff ← file f
  if ff.ref < 1 then throw (.panic "fileclose")
  else if 1 < ff.ref then modifyFile f fun x => { x with ref := x.ref - 1 }
  else
    modifyFile f fun x => { x with ref := 0, pipe := none }
    match ff.pipe with
    | some pi => vm (pipeclose lk pi ff.writable)
    | none => return

/-- What `pipealloc` writes to the new page: `readopen`, `writeopen`, `nwrite`, `nread`. -/
def initPipe (pi : ℕ) : VmM Unit := do
  setPipeOpen pi false 1
  setPipeOpen pi true 1
  modify fun s => s.setPage pi ((s.mem pi).st 4 540 0)
  modify fun s => s.setPage pi ((s.mem pi).st 4 536 0)

/-- `pipealloc`. -/
def pipealloc (lk : Link) : M (Option (FileNo × FileNo)) := do
  match ← filealloc with
  | none => return none
  | some f0 =>
    match ← filealloc with
    | none =>
      fileclose lk f0
      return none
    | some f1 =>
      let pi ← vm kalloc
      if pi = 0 then
        fileclose lk f0
        fileclose lk f1
        return none
      else
        vm (initPipe pi)
        modifyFile f0 fun x => { x with pipe := some pi, writable := false }
        modifyFile f1 fun x => { x with pipe := some pi, writable := true }
        return some (f0, f1)

/-- `p->ofile[fd] = f`. -/
def setOfile (p : Slot) (fd : Fin NOFILE) (f : Option FileNo) : M Unit :=
  modifyProc p fun x => { x with ofile := Function.update x.ofile fd f }

/-- `fdalloc`. -/
def fdalloc (p : Slot) (f : FileNo) : M (Option (Fin NOFILE)) := do
  let pr ← proc p
  match (List.finRange NOFILE).find? fun fd => pr.ofile fd = none with
  | some fd =>
    setOfile p fd (some f)
    return some fd
  | none => return none

/-- The first half of `sys_pipe`: a pipe, with descriptors for its ends. -/
def sysPipeAlloc (lk : Link) (p : Slot) :
    M (Option ((FileNo × FileNo) × (Fin NOFILE × Fin NOFILE))) := do
  match ← pipealloc lk with
  | none => return none
  | some (rf, wf) =>
    match ← fdalloc p rf with
    | none =>
      fileclose lk rf
      fileclose lk wf
      return none
    | some fd0 =>
      match ← fdalloc p wf with
      | none =>
        setOfile p fd0 none
        fileclose lk rf
        fileclose lk wf
        return none
      | some fd1 => return some ((rf, wf), (fd0, fd1))

/-- `sys_pipe`. -/
def sysPipe (lk : Link) (p : Slot) (fdarray : ℕ) : M ℤ := do
  match ← sysPipeAlloc lk p with
  | none => return -1
  | some ((rf, wf), (fd0, fd1)) =>
    let pr ← proc p
    let ok ← vm do
      if (← copyout pr.pagetable fdarray (leBytes 4 fd0)) < 0 then return false
      else return !decide ((← copyout pr.pagetable ((fdarray + 4) % 2 ^ 64) (leBytes 4 fd1)) < 0)
    if ok then return 0
    else
      setOfile p fd0 none
      setOfile p fd1 none
      fileclose lk rf
      fileclose lk wf
      return -1

/-- `sys_close`. -/
def sysClose (lk : Link) (p : Slot) (fd : BitVec 32) : M ℤ := do
  let pr ← proc p
  if h : fd.toNat < NOFILE then
    match pr.ofile ⟨fd.toNat, h⟩ with
    | none => return -1
    | some f =>
      setOfile p ⟨fd.toNat, h⟩ none
      fileclose lk f
      return 0
  else return -1

/-! ## Processes -/

/-- `freeproc`. -/
def freeproc (lk : Link) (p : Slot) : M Unit := do
  let pr ← proc p
  (if pr.trapframe ≠ 0 then vm (kfree lk pr.trapframe) else pure ())
  modifyProc p fun x => { x with trapframe := 0 }
  (if pr.pagetable ≠ 0 then vm (procFreepagetable lk pr.pagetable pr.sz) else pure ())
  modifyProc p fun x =>
    { x with pagetable := 0, sz := 0, parent := none, name := [], xstate := 0, state := .unused }

/-- `allocproc`. -/
def allocproc (lk : Link) : M (Option Slot) := do
  let k := (← get).sys
  match (List.finRange NPROC).find? fun p => (k.proc p).state = .unused with
  | none => return none
  | some p =>
    modifyProc p fun x => { x with state := .used }
    let trapframe ← vm kalloc
    modifyProc p fun x => { x with trapframe := trapframe }
    if trapframe = 0 then
      freeproc lk p
      return none
    else
      let pagetable ← vm (procPagetable lk trapframe)
      modifyProc p fun x => { x with pagetable := pagetable }
      if pagetable = 0 then
        freeproc lk p
        return none
      else return some p

/-- `growproc`. -/
def growproc (lk : Link) (p : Slot) (n : BitVec 32) : M ℤ := do
  let pr ← proc p
  if 0 < n.toInt then
    let sz ← vm (uvmalloc lk pr.pagetable pr.sz ((pr.sz + n.toNat) % 2 ^ 64) PTE_W)
    if sz = 0 then return -1
    else
      modifyProc p fun x => { x with sz := sz }
      return 0
  else if n.toInt < 0 then
    let sz ← vm (uvmdealloc lk pr.pagetable pr.sz ((pr.sz + n.toInt) % 2 ^ 64).toNat)
    modifyProc p fun x => { x with sz := sz }
    return 0
  else return 0

/-- `sys_sbrk`. -/
def sysSbrk (lk : Link) (p : Slot) (n : BitVec 32) : M ℤ := do
  let addr := (← proc p).sz
  if (← growproc lk p n) < 0 then return -1 else return addr

/-- `sys_memsize`. -/
def sysMemsize (p : Slot) : M ℤ := do return (← proc p).sz

/-- Bytes of `struct trapframe`. -/
def TRAPFRAME_SIZE : ℕ := 288

/-- The loop body of `fork` over the open files of `p`. -/
def forkFile (p np : Slot) (fd : Fin NOFILE) : M Unit := do
  match (← proc p).ofile fd with
  | some f =>
    filedup f
    setOfile np fd (some f)
  | none => return

/-- `*(np->trapframe) = *(p->trapframe); np->trapframe->a0 = 0`. -/
def copyTrapframe (src dst : ℕ) : VmM Unit := do
  modify fun s => s.setPage dst ((s.mem dst).put 0 ((s.mem src).slice 0 TRAPFRAME_SIZE))
  modify fun s => s.setPage dst ((s.mem dst).st 8 112 0)

/-- `fork`. It returns the child. -/
def fork (lk : Link) (p : Slot) : M (Option Slot) := do
  match ← allocproc lk with
  | none => return none
  | some np =>
    let pr ← proc p
    let npr ← proc np
    if (← vm (uvmcopy lk pr.pagetable npr.pagetable pr.sz)) < 0 then
      freeproc lk np
      return none
    else
      modifyProc np fun x => { x with sz := pr.sz }
      vm (copyTrapframe pr.trapframe npr.trapframe)
      (List.finRange NOFILE).forM (forkFile p np)
      modifyProc np fun x =>
        { x with name := safestrcpy pr.name NAMESIZE, parent := some p, state := .runnable }
      return some np

/-- The loop body of `exit` over the open files of `p`. -/
def exitFile (lk : Link) (p : Slot) (fd : Fin NOFILE) : M Unit := do
  match (← proc p).ofile fd with
  | some f =>
    fileclose lk f
    setOfile p fd none
  | none => return

/-- `reparent`. -/
def reparent (p : Slot) : M Unit :=
  modifySys fun k => { k with proc := fun q =>
    if (k.proc q).parent = some p then { k.proc q with parent := some initproc } else k.proc q }

/-- `exit`. -/
def exit (lk : Link) (p : Slot) (status : BitVec 32) : M Unit :=
  if p = initproc then throw (.panic "init exiting")
  else do
    (List.finRange NOFILE).forM (exitFile lk p)
    reparent p
    modifyProc p fun x => { x with xstate := status, state := .zombie }

/-- The child that `wait` finds: one that has exited. -/
def Sys.exited (k : Sys) (p : Slot) : Option Slot :=
  (List.finRange NPROC).find? fun q => (k.proc q).parent = some p ∧ (k.proc q).state = .zombie

lemma Sys.zombie_of_exited {k : Sys} {p q : Slot} (h : k.exited p = some q) :
    (k.proc q).state = .zombie := by
  have := List.find?_some h
  simp only [decide_eq_true_eq] at this
  exact this.2

/-- `wait`. It returns the child; the caller sleeps while it has children, but none that
has exited. -/
def wait (lk : Link) (p : Slot) (addr : ℕ) : M (Option Slot) := do
  let k := (← get).sys
  match k.exited p with
  | some q =>
    let failed ← vm do
      if addr ≠ 0 then
        return decide ((← copyout (k.proc p).pagetable addr
          (leBytes 4 (k.proc q).xstate.toNat)) < 0)
      else return false
    if failed then return none
    else
      freeproc lk q
      return some q
  | none =>
    if ∃ q, (k.proc q).parent = some p then throw .disabled else return none

/-! ## Programs -/

/-- Assign to a field of a trapframe, given by its offset. -/
def setTrapframe (trapframe off v : ℕ) : VmM Unit :=
  modify fun s => s.setPage trapframe ((s.mem trapframe).st 8 off v)

/-- The loop of `exec` over the path, at `s`: it finds what stands behind the last `/`. -/
def lastElem : List UInt8 → List UInt8 → List UInt8
  | [], last => last
  | c :: s, last => lastElem s (if c = 47 then s else last)

/-- The name that `exec` gives a process. -/
def execName (path : List UInt8) : List UInt8 :=
  let path := path.takeWhile (· ≠ 0)
  safestrcpy (lastElem path path) NAMESIZE

/-- The end of `exec`: `p` gets the new image. -/
def execCommit (lk : Link) (p : Slot) (path : List UInt8) (img : Image) : M ℤ := do
  let pr ← proc p
  vm (setTrapframe pr.trapframe 120 img.sp)
  modifyProc p fun x =>
    { x with name := execName path, pagetable := img.pagetable, sz := img.sz }
  vm (setTrapframe pr.trapframe 24 img.entry)
  vm (setTrapframe pr.trapframe 48 img.sp)
  vm (procFreepagetable lk pr.pagetable pr.sz)
  return img.argc

/-- `exec`, on the file that `namei` found. -/
def exec (lk : Link) (p : Slot) (path : List UInt8) (content : Option (List UInt8))
    (argv : List ℕ) : M ℤ := do
  match content with
  | none => return -1
  | some content =>
    let pr ← proc p
    match ← vm (execLoad lk pr.trapframe content argv) with
    | none => return -1
    | some img => execCommit lk p path img

/-- `sys_exec`. `files` are the contents of the files by their path. -/
def sysExec (lk : Link) (p : Slot) (upath uargv : ℕ)
    (files : List UInt8 → Option (List UInt8)) : M ℤ := do
  let pr ← proc p
  let (path, r) ← vm (copyinstr pr.pagetable upath MAXPATH)
  if r < 0 then return -1
  else
    let (ok, argv) ← vm (fetchArgs pr.pagetable pr.sz uargv MAXARG [])
    let ret ← (if ok then exec lk p path (files path) argv else pure (-1))
    vm (argv.forM (kfree lk))
    return ret

/-! ## The machine -/

/-- What a process does: a system call with its arguments, or a store of user code. -/
inductive Call where
  | fork
  | exec (upath uargv : ℕ) (files : List UInt8 → Option (List UInt8))
  | sbrk (n : BitVec 32)
  | exit (status : BitVec 32)
  | wait (addr : ℕ)
  | pipe (fdarray : ℕ)
  | close (fd : BitVec 32)
  /-- User code changes the page at `va`. -/
  | store (va : ℕ) (page : Page)

/-- User code of `p` changes the page at `va`, if it can access it. -/
def userStore (p : Slot) (va : ℕ) (page : Page) : M Unit := do
  let pr ← proc p
  vm do
    let pa ← walkaddr pr.pagetable va
    if pa = 0 then throw .disabled else modify fun s => s.setPage pa page

/-- The code of a call made by process `p`. -/
def Call.code (lk : Link) (p : Slot) : Call → M Unit
  | .fork => discard (Vm.fork lk p)
  | .exec upath uargv files => discard (sysExec lk p upath uargv files)
  | .sbrk n => discard (sysSbrk lk p n)
  | .exit status => Vm.exit lk p status
  | .wait addr => discard (Vm.wait lk p addr)
  | .pipe fdarray => discard (sysPipe lk p fdarray)
  | .close fd => discard (sysClose lk p fd)
  | .store va page => userStore p va page

/-- Process `p` makes a call, during which `kalloc` fails as `deny` says. -/
def call (lk : Link) (p : Slot) (c : Call) (deny : ℕ → Bool) : M Unit := do
  modify fun s => { s with ram := { s.ram with deny := deny } }
  if (← proc p).state = .runnable then c.code lk p else throw .disabled

/-- `uvmfirst`, in a machine with enough memory to start. -/
def uvmfirst (pagetable : ℕ) (src : List UInt8) : VmM Unit :=
  if PGSIZE ≤ src.length then throw (.panic "uvmfirst: more than a page")
  else do
    let mem ← kalloc
    if mem = 0 then throw .disabled
    else
      memset mem 0
      if (← mappages pagetable 0 PGSIZE mem (PTE_R ||| PTE_U ||| (PTE_W ||| PTE_X))) ≠ 0 then
        throw .disabled
      else memmove mem 0 src

/-- `"initcode"`. -/
def initName : List UInt8 := [105, 110, 105, 116, 99, 111, 100, 101]

/-- `userinit`, in a machine with enough memory to start. -/
def userinit (lk : Link) (initcode : List UInt8) : M Unit := do
  match ← allocproc lk with
  | none => throw .disabled
  | some p =>
    let pr ← proc p
    vm (uvmfirst pr.pagetable initcode)
    modifyProc p fun x => { x with sz := PGSIZE }
    vm (setTrapframe pr.trapframe 24 0)
    vm (setTrapframe pr.trapframe 48 PGSIZE)
    modifyProc p fun x => { x with name := initName, state := .runnable }

/-- A slot of the process table that is not in use. -/
def Proc.free : Proc := ⟨.unused, 0, none, 0, 0, 0, fun _ => none, []⟩

/-- The machine before the first process: the kernel has allocated `kernel` for itself. -/
def blank (mem : ℕ → Page) (free kernel : List ℕ) : State where
  ram := ⟨freed mem free, free, fun _ => false⟩
  sys := ⟨fun _ => Proc.free, fun _ => ⟨0, none, false⟩, kernel⟩

/-- The machine has started: all pages are on the free list or the kernel's, and `userinit`
has made the first process. -/
def Boot (lk : Link) (s : State) : Prop :=
  ∃ mem free kernel initcode, (free ++ kernel).Nodup ∧ (∀ b, b ∈ free ++ kernel ↔ b ∈ lk.pool) ∧
    (userinit lk initcode).run (blank mem free kernel) = .ok ((), s)

/-- One call of some process. -/
def Next (lk : Link) (s s' : State) : Prop :=
  ∃ p c deny, (call lk p c deny).run s = .ok ((), s')

end Xv6.Vm
