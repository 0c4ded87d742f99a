import Xv6.Disk.Bcache
import Mathlib.Data.List.FinRange

/-!
# The redo log (`kernel/log.c`): data model, code and steps

File-system operations of any number of processes share one log. `step` runs one of
them up to its next disk write, so that a crash can fall between any two disk writes:

* inside an operation a process reads blocks, changes buffers it holds, and calls
  `log_write` on each buffer it changed before it releases it;
* the last `end_op` runs `commit`, one disk write at a time;
* a crash leaves only the disk; the kernel then boots and runs `recover_from_log`, again
  one disk write at a time.

`State.trace` is a history variable that no definition of the machine reads.
-/

namespace Xv6.Log

open Xv6.Lib
open Xv6.Disk
open Xv6.Process (Slot Stop)

/-- Where the superblock puts the log: `sb.logstart` and `sb.nlog`. There is room for the
header, and block numbers are `uint`s. -/
structure Layout where
  start : ℕ
  size : ℕ
  size_pos : 0 < size
  fits : start + size ≤ 2 ^ 32

/-- Block `b` is not one of the log's own blocks. -/
def Layout.Home (lay : Layout) (b : ℕ) : Prop := b < lay.start ∨ lay.start + lay.size ≤ b

instance (lay : Layout) (b : ℕ) : Decidable (lay.Home b) := by
  unfold Layout.Home
  infer_instance

/-! ## The log header -/

/-- `struct logheader`. -/
structure Logheader where
  n : ℕ
  block : ℕ → ℕ

/-- The blocks listed in a header. -/
def Logheader.blocks (lh : Logheader) : List ℕ := (List.range lh.n).map lh.block

/-- The `int` with the 32-bit representation `w`. -/
def asInt (w : ℕ) : ℤ := if w < 2 ^ 31 then w else w - 2 ^ 32

/-- The field `n` of the header in a block. The loops of `kernel/log.c` run from `0` while
the index is less than `n`, so a negative `n` counts as `0`. -/
def headN (hb : Block) : ℕ := (asInt (hb.ld 4 0)).toNat

/-- The field `block[i]` of the header in a block. -/
def headBlock (hb : Block) (i : ℕ) : ℕ := hb.ld 4 (4 + 4 * i)

/-- The assignments of `write_head` to the header in a block. -/
def storeHead (lh : Logheader) (hb : Block) : Block :=
  (hb.st 4 0 lh.n).stWords 4 lh.n lh.block

/-! ## Reading and writing the log -/

/-- `read_head`. -/
def readHead (lay : Layout) (p : Slot) (lh : Logheader) (s : Bio) :
    Except Stop (Logheader × Bio) := do
  let (i, s) ← bread p ROOTDEV lay.start s
  let hb := (s.buf i).data
  let n := headN hb
  let s ← brelse p i s
  pure ({ n := n, block := fun k => if k < n then headBlock hb k else lh.block k }, s)

/-- `write_head`. -/
def writeHead (lay : Layout) (p : Slot) (lh : Logheader) (s : Bio) : Except Stop Bio := do
  let (i, s) ← bread p ROOTDEV lay.start s
  let s := setData i (storeHead lh (s.buf i).data) s
  let s ← bwrite p i s
  brelse p i s

/-- The loop body of `write_log`. -/
def writeLogBody (lay : Layout) (p : Slot) (lh : Logheader) (tail : ℕ) (s : Bio) :
    Except Stop Bio := do
  let (tobuf, s) ← bread p ROOTDEV (lay.start + tail + 1) s
  let (frombuf, s) ← bread p ROOTDEV (lh.block tail) s
  let s := setData tobuf (s.buf frombuf).data s
  let s ← bwrite p tobuf s
  let s ← brelse p frombuf s
  brelse p tobuf s

/-- The loop body of `install_trans`. -/
def installBody (lay : Layout) (p : Slot) (recovering : Bool) (lh : Logheader) (tail : ℕ)
    (s : Bio) : Except Stop Bio := do
  let (lbuf, s) ← bread p ROOTDEV (lay.start + tail + 1) s
  let (dbuf, s) ← bread p ROOTDEV (lh.block tail) s
  let s := setData dbuf (s.buf lbuf).data s
  let s ← bwrite p dbuf s
  let s := if recovering then s else bunpin dbuf s
  let s ← brelse p lbuf s
  brelse p dbuf s

/-- `install_trans`. -/
def installTrans (lay : Layout) (p : Slot) (recovering : Bool) (lh : Logheader) (s : Bio) :
    Except Stop Bio :=
  (List.range lh.n).foldlM (fun s tail => installBody lay p recovering lh tail s) s

/-- `recover_from_log`. -/
def recoverFromLog (lay : Layout) (p : Slot) (lh : Logheader) (s : Bio) : Except Stop Bio := do
  let (lh, s) ← readHead lay p lh s
  let s ← installTrans lay p true lh s
  writeHead lay p { lh with n := 0 } s

/-! ## The machine -/

/-- `struct log`, without its lock and the constants of the layout. -/
structure LogVars where
  outstanding : ℕ
  committing : Bool
  lh : Logheader

/-- The zero-initialised `log`. -/
def LogVars.zero : LogVars where
  outstanding := 0
  committing := false
  lh := { n := 0, block := fun _ => 0 }

/-- Where a process is inside the `commit` of its `end_op`. -/
inductive Commit where
  | writeLog (tail : ℕ)
  | writeHead
  | install (tail : ℕ)
  | clearHead
  /-- Back in `end_op`, about to clear `log.committing`. -/
  | finish
deriving DecidableEq, Repr

/-- What a process is doing as far as the log is concerned. -/
inductive Task where
  /-- Not in a file-system operation. -/
  | idle
  /-- Between `begin_op` and `end_op`. Operations are numbered. -/
  | inOp (op : ℕ)
  | commit (c : Commit)
deriving DecidableEq, Repr

/-- Whether the kernel is in `recover_from_log` or past it. -/
inductive Mode where
  | readHead
  | install (tail : ℕ)
  | clearHead
  | up
deriving DecidableEq, Repr

/-- What happens, as far as durability is concerned. -/
inductive Event where
  | beginOp (op : ℕ)
  | logWrite (op b : ℕ) (data : Block)
  | endOp (op : ℕ)
  /-- A block reaches the disk. -/
  | write (b : ℕ) (data : Block)
  | crash

/-- The state of the machine. -/
structure State where
  bio : Bio
  log : LogVars
  mode : Mode
  task : Slot → Task
  nextOp : ℕ
  trace : List Event

/-- Append to the history variable. -/
def State.record (s : State) (e : Event) : State := { s with trace := s.trace ++ [e] }

/-- The process that runs `fsinit` first thing after boot. -/
def bootSlot : Slot := 0

/-- The machine at power-on, with the given disk. -/
def State.boot (disk : ℕ → Block) (nextOp : ℕ) (trace : List Event) : State where
  bio := binit disk
  log := LogVars.zero
  mode := .readHead
  task := fun _ => .idle
  nextOp := nextOp
  trace := trace

/-- Set what process `p` is doing. -/
def State.setTask (s : State) (p : Slot) (t : Task) : State :=
  { s with task := Function.update s.task p t }

/-- Record that block `b` of the disk was written. -/
def State.wrote (s : State) (b : ℕ) : State := s.record (.write b (s.bio.disk b))

/-- `begin_op`, called by process `p`. Where it sleeps, the call is not taken now. -/
def beginOp (p : Slot) (s : State) : Except Stop State :=
  if s.log.committing then throw .disabled
  else if s.log.lh.n + (s.log.outstanding + 1) * MAXOPBLOCKS > LOGSIZE then throw .disabled
  else
    let s := { s with log := { s.log with outstanding := s.log.outstanding + 1 } }
    let s := (s.setTask p (.inOp s.nextOp)).record (.beginOp s.nextOp)
    pure { s with nextOp := s.nextOp + 1 }

/-- `log_write(b)` on buffer `i`, in operation `op`. -/
def logWrite (lay : Layout) (op : ℕ) (i : Fin NBUF) (s : State) : Except Stop State :=
  let b := (s.bio.buf i).blockno
  let lh := s.log.lh
  if lh.n ≥ LOGSIZE ∨ lh.n ≥ lay.size - 1 then throw (.panic "too big a transaction")
  else if s.log.outstanding < 1 then throw (.panic "log_write outside of trans")
  else
    let k := ((List.range lh.n).find? fun k => lh.block k = b).getD lh.n
    let block := Function.update lh.block k b
    let s := s.record (.logWrite op b (s.bio.buf i).data)
    let s := if k = lh.n then
        { s with bio := bpin i s.bio,
                 log := { s.log with lh := { n := lh.n + 1, block := block } } }
      else { s with log := { s.log with lh := { lh with block := block } } }
    pure { s with bio := markLogged i s.bio }

/-- `end_op`, called by process `p` in operation `op`, up to its call of `commit`. -/
def endOp (p : Slot) (op : ℕ) (s : State) : Except Stop State :=
  let s := { s with log := { s.log with outstanding := s.log.outstanding - 1 } }
  if s.log.committing then throw (.panic "log.committing")
  else
    let s := s.record (.endOp op)
    if s.log.outstanding = 0 then
      let s := { s with log := { s.log with committing := true } }
      pure (s.setTask p (.commit (if s.log.lh.n > 0 then .writeLog 0 else .finish)))
    else pure (s.setTask p .idle)

/-- `commit` and the rest of `end_op`, run by process `p` from `c` to just after the next
disk write. -/
def commitStep (lay : Layout) (p : Slot) (c : Commit) (s : State) : Except Stop State := do
  let lh := s.log.lh
  match c with
  | .writeLog tail =>
    if tail < lh.n then
      let bio ← writeLogBody lay p lh tail s.bio
      pure (({ s with bio := bio }.wrote (lay.start + tail + 1)).setTask p
        (.commit (.writeLog (tail + 1))))
    else pure (s.setTask p (.commit .writeHead))
  | .writeHead =>
    let bio ← writeHead lay p lh s.bio
    pure (({ s with bio := bio }.wrote lay.start).setTask p (.commit (.install 0)))
  | .install tail =>
    if tail < lh.n then
      let bio ← installBody lay p false lh tail s.bio
      pure (({ s with bio := bio }.wrote (lh.block tail)).setTask p (.commit (.install (tail + 1))))
    else
      pure ({ s with log := { s.log with lh := { lh with n := 0 } } }.setTask p
        (.commit .clearHead))
  | .clearHead =>
    let bio ← writeHead lay p lh s.bio
    pure (({ s with bio := bio }.wrote lay.start).setTask p (.commit .finish))
  | .finish =>
    pure ({ s with log := { s.log with committing := false } }.setTask p .idle)

/-- `recover_from_log` at boot, up to just after the next disk write. -/
def recoverStep (lay : Layout) (s : State) : Except Stop State := do
  let lh := s.log.lh
  match s.mode with
  | .readHead =>
    let (lh, bio) ← readHead lay bootSlot lh s.bio
    pure { s with bio := bio, log := { s.log with lh := lh }, mode := .install 0 }
  | .install tail =>
    if tail < lh.n then
      let bio ← installBody lay bootSlot true lh tail s.bio
      pure { { s with bio := bio }.wrote (lh.block tail) with mode := .install (tail + 1) }
    else pure { s with log := { s.log with lh := { lh with n := 0 } }, mode := .clearHead }
  | .clearHead =>
    let bio ← writeHead lay bootSlot lh s.bio
    pure { { s with bio := bio }.wrote lay.start with mode := .up }
  | .up => throw .disabled

/-- What happens next. -/
inductive Act where
  | beginOp (p : Slot)
  /-- Process `p` reads a block that is not part of the log. -/
  | bread (p : Slot) (b : ℕ)
  /-- Process `p` changes the data of a buffer it holds. -/
  | modify (p : Slot) (i : Fin NBUF) (data : Block)
  | logWrite (p : Slot) (i : Fin NBUF)
  | brelse (p : Slot) (i : Fin NBUF)
  | endOp (p : Slot)
  /-- The process in `commit` goes on. -/
  | commit (p : Slot)
  /-- The booting kernel goes on. -/
  | recover
  | crash

/-- A step of the running kernel. -/
def stepUp (lay : Layout) (s : State) : Act → Except Stop State
  | .beginOp p => if s.task p = .idle then beginOp p s else throw .disabled
  | .bread p b =>
    match s.task p with
    | .commit _ => throw .disabled
    | _ =>
      if lay.Home b ∧ b < 2 ^ 32 then do
        let (_, bio) ← bread p ROOTDEV b s.bio
        pure { s with bio := bio }
      else throw .disabled
  | .modify p i data =>
    match s.task p with
    | .inOp _ =>
      if (s.bio.buf i).lock = some p then pure { s with bio := setData i data s.bio }
      else throw .disabled
    | _ => throw .disabled
  | .logWrite p i =>
    match s.task p with
    | .inOp op => if (s.bio.buf i).lock = some p then logWrite lay op i s else throw .disabled
    | _ => throw .disabled
  | .brelse p i =>
    match s.task p with
    | .commit _ => throw .disabled
    | _ =>
      if (s.bio.buf i).modified then throw .disabled
      else do
        let bio ← brelse p i s.bio
        pure { s with bio := bio }
  | .endOp p =>
    match s.task p with
    | .inOp op => endOp p op s
    | _ => throw .disabled
  | .commit p =>
    match s.task p with
    | .commit c => commitStep lay p c s
    | _ => throw .disabled
  | .recover => throw .disabled
  | .crash => throw .disabled

/-- One step of the machine. A crash may come at any time. -/
def step (lay : Layout) (a : Act) (s : State) : Except Stop State :=
  match a with
  | .crash => pure (State.boot s.bio.disk s.nextOp (s.trace ++ [.crash]))
  | .recover => recoverStep lay s
  | a => if s.mode = .up then stepUp lay s a else throw .disabled

/-- Some action leads from `s` to `s'`. -/
def Next (lay : Layout) (s s' : State) : Prop := ∃ a, step lay a s = .ok s'

/-- The states the machine can reach from power-on with disk `d`. -/
def Reachable (lay : Layout) (d : ℕ → Block) (s : State) : Prop :=
  Relation.ReflTransGen (Next lay) (State.boot d 0 []) s

/-- Take the given actions from `s` on, up to the first one that is not possible. -/
def runActs (lay : Layout) : State → List Act → State :=
  Lib.runActs fun s a => (step lay a s).toOption

lemma runActs_run (lay : Layout) (s : State) (acts : List Act) :
    Relation.ReflTransGen (Next lay) s (runActs lay s acts) :=
  runActs_of_mem (fun a _ _ _ hs => ⟨a, eq_ok_of_toOption hs⟩) s

end Xv6.Log
