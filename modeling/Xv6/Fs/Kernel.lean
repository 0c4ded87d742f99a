import Mathlib.Logic.Relation
import Xv6.Fs.Inode

/-!
# The inode table, directories, files and the file system calls

The rest of `kernel/fs.c`, with `kernel/file.c` and `kernel/sysfile.c`. A system call runs
from its entry to its return without another one in between: `FsM` passes the state along
and stops at a `panic`, or where the caller would sleep for ever on a sleep-lock that it
holds itself.

`begin_op` and `end_op` leave no trace here, and the device is always `ROOTDEV`. Of
`struct proc` there is the open file table and the current directory; a slot of the
process table is in use as long as it has a current directory.
-/

namespace Xv6.Fs

open Xv6.Lib
open Xv6.Disk (Block)
open Xv6.Process (Slot Stop)
open Function (update)

/-! ## State -/

/-- Maximum number of active i-nodes (`kernel/param.h`). -/
def NINODE : ℕ := 50

/-- Maximum major device number. -/
def NDEV : ℕ := 10

instance : NeZero NINODE := ⟨by decide⟩

instance : NeZero NFILE := ⟨by decide⟩

/-- An index into `itable.inode`, standing for the pointer `&itable.inode[i]`. -/
abbrev Ino := Fin NINODE

/-- An index into `ftable.file`. -/
abbrev FileNo := Fin NFILE

/-- `struct inode`: the in-memory copy of an inode. -/
structure Inode where
  inum : ℕ
  ref : ℕ
  locked : Bool
  valid : Bool
  din : Dinode
deriving DecidableEq

/-- The type of a `struct file`. -/
inductive FileType where
  | none
  | pipe
  | inode
  | device
deriving DecidableEq, Repr

/-- `struct file`. Its inode `ip` means something for the types `inode` and `device` only. -/
structure File where
  type : FileType
  ref : ℕ
  readable : Bool
  writable : Bool
  ip : Ino
  off : BitVec 32
  major : BitVec 16
deriving DecidableEq

/-- The fields of `struct proc` that belong to the file system. -/
structure Proc where
  ofile : Fin NOFILE → Option FileNo
  cwd : Option Ino
deriving DecidableEq

/-- A transaction of `filewrite`: what it calls `writei` with. -/
structure Tx where
  sb : Superblock
  inum : ℕ
  ip : Dinode
  src : ℕ → Option UInt8
  off : ℕ
  n : ℕ
  disk : Disk

/-- The state of the file system code. `hist` is a history variable: no definition of the
model reads it. -/
structure State where
  sb : Superblock
  disk : Disk
  itable : Ino → Inode
  ftable : FileNo → File
  proc : Slot → Proc
  hist : List Tx

/-- File system code. -/
abbrev FsM := StateT State (Except Stop)

/-- Update entry `e` of the inode table. -/
def State.setInode (s : State) (e : Ino) (f : Inode → Inode) : State :=
  { s with itable := update s.itable e (f (s.itable e)) }

/-- Update entry `f` of the file table. -/
def State.setFile (s : State) (f : FileNo) (g : File → File) : State :=
  { s with ftable := update s.ftable f (g (s.ftable f)) }

/-- Update slot `p` of the process table. -/
def State.setProc (s : State) (p : Slot) (g : Proc → Proc) : State :=
  { s with proc := update s.proc p (g (s.proc p)) }

/-- Append to the history variable. -/
def State.record (s : State) (tx : Tx) : State := { s with hist := s.hist ++ [tx] }

/-- The entry `*ip` of the inode table. -/
def inode (e : Ino) : FsM Inode := do return (← get).itable e

/-- Assign to fields of `*ip`. -/
def modifyInode (e : Ino) (f : Inode → Inode) : FsM Unit := modify fun s => s.setInode e f

/-- Assign to fields of `*ip` that copy the inode on disk. -/
def modifyDin (e : Ino) (f : Dinode → Dinode) : FsM Unit :=
  modifyInode e fun ip => { ip with din := f ip.din }

/-- Run code that works on the contents of `*ip`. -/
def onInode {α : Type} (e : Ino)
    (f : Superblock → ℕ → Dinode → Disk → Except Stop (α × Dinode × Disk)) : FsM α := do
  let s ← get
  let (a, ip, d) ← f s.sb (s.itable e).inum (s.itable e).din s.disk
  set (({ s with disk := d } : State).setInode e fun x => { x with din := ip })
  return a

/-! ## The inode table -/

/-- `iupdate`. -/
def iupdate (e : Ino) : FsM Unit :=
  modify fun s => { s with disk := setDinode s.sb (s.itable e).inum (s.itable e).din s.disk }

/-- `iget`. -/
def iget (inum : ℕ) : FsM Ino := do
  let s ← get
  match (List.finRange NINODE).find? fun e =>
      0 < (s.itable e).ref ∧ (s.itable e).inum = inum with
  | some e =>
    modifyInode e fun ip => { ip with ref := ip.ref + 1 }
    return e
  | none =>
    match (List.finRange NINODE).find? fun e => (s.itable e).ref = 0 with
    | some e =>
      modifyInode e fun ip => { ip with inum := inum, ref := 1, valid := false }
      return e
    | none => throw (.panic "iget: no inodes")

/-- `ialloc`. -/
def ialloc (type : BitVec 16) : FsM (Option Ino) := do
  let s ← get
  match (List.range s.sb.ninodes).find? fun i => 1 ≤ i ∧ (dinode s.sb s.disk i).type = 0 with
  | some i =>
    set { s with disk := setDinode s.sb i { Dinode.zero with type := type } s.disk }
    return some (← iget i)
  | none => return none

/-- `idup`. -/
def idup (e : Ino) : FsM Ino := do
  modifyInode e fun ip => { ip with ref := ip.ref + 1 }
  return e

/-- `acquiresleep(&ip->lock)`. -/
def acquiresleep (e : Ino) : FsM Unit := do
  if (← inode e).locked then throw .disabled
  modifyInode e fun ip => { ip with locked := true }

/-- `releasesleep(&ip->lock)`. -/
def releasesleep (e : Ino) : FsM Unit := modifyInode e fun ip => { ip with locked := false }

/-- `ilock`. -/
def ilock (e : Ino) : FsM Unit := do
  if (← inode e).ref < 1 then throw (.panic "ilock")
  acquiresleep e
  let s ← get
  if !(s.itable e).valid then
    let di := dinode s.sb s.disk (s.itable e).inum
    modifyInode e fun ip => { ip with din := di, valid := true }
    if di.type = 0 then throw (.panic "ilock: no type")

/-- `iunlock`. -/
def iunlock (e : Ino) : FsM Unit := do
  let ip ← inode e
  if !ip.locked ∨ ip.ref < 1 then throw (.panic "iunlock")
  releasesleep e

/-- The branch of `iput` that frees an inode which has no links and no other references. -/
def ifree (e : Ino) : FsM Unit := do
  acquiresleep e
  onInode e fun sb inum ip d => do
    let (ip, d) ← itrunc sb inum ip d
    return ((), ip, d)
  modifyDin e fun ip => { ip with type := 0 }
  iupdate e
  modifyInode e fun ip => { ip with valid := false }
  releasesleep e

/-- `iput`. -/
def iput (e : Ino) : FsM Unit := do
  let ip ← inode e
  if ip.ref = 1 ∧ ip.valid ∧ ip.din.nlink = 0 then ifree e
  modifyInode e fun ip => { ip with ref := ip.ref - 1 }

/-- `iunlockput`. -/
def iunlockput (e : Ino) : FsM Unit := do
  iunlock e
  iput e

/-- `ip->nlink++; iupdate(ip)`. -/
def incLink (e : Ino) : FsM Unit := do
  modifyDin e fun ip => { ip with nlink := ip.nlink + 1 }
  iupdate e

/-- `ip->nlink--; iupdate(ip)`. -/
def decLink (e : Ino) : FsM Unit := do
  modifyDin e fun ip => { ip with nlink := ip.nlink - 1 }
  iupdate e

/-! ## Directories -/

/-- `readi(dp, 0, &de, off, sizeof(de))`, with the message of the `panic` that follows if it
fails. -/
def readDirent (msg : String) (dp : Ino) (off : ℕ) : FsM Dirent := do
  let (r, bs) ← onInode dp fun sb _ ip d => readi sb ip (fun _ => true) off DIRENT d
  if r ≠ DIRENT then throw (.panic msg)
  return .decode bs

/-- `writei(dp, 0, &de, off, sizeof(de))`. -/
def writeDirent (dp : Ino) (off : ℕ) (de : Dirent) : FsM ℤ :=
  onInode dp fun sb inum ip d => writei sb inum ip (fun k => de.encode[k]?) off DIRENT d

/-- The loop over the entries of a directory: the first one that satisfies `p`, with its
offset. -/
def findDirent (msg : String) (dp : Ino) (p : Dirent → Bool) : List ℕ → FsM (Option (ℕ × Dirent))
  | [] => return none
  | off :: offs => do
    let de ← readDirent msg dp off
    if p de then return some (off, de) else findDirent msg dp p offs

/-- The offsets of entries number `k` and up in a directory of `size` bytes. -/
def offsets (size : BitVec 32) (k : ℕ) : List ℕ :=
  ((List.range (slots size)).drop k).map (DIRENT * ·)

/-- `dirlookup`: the inode that `name` names in directory `dp`, and the offset of its entry. -/
def dirlookup (dp : Ino) (name : Name) : FsM (Option (Ino × ℕ)) := do
  let ip ← inode dp
  if ip.din.type ≠ T_DIR then throw (.panic "dirlookup not DIR")
  match ← findDirent "dirlookup read" dp (fun de => de.inum ≠ 0 ∧ namecmp name de.name)
      (offsets ip.din.size 0) with
  | some (off, de) => return some (← iget de.inum.toNat, off)
  | none => return none

/-- `dirlink`. -/
def dirlink (dp : Ino) (name : Name) (inum : ℕ) : FsM ℤ := do
  match ← dirlookup dp name with
  | some (ip, _) =>
    iput ip
    return -1
  | none =>
    let size := (← inode dp).din.size
    let off := match ← findDirent "dirlink read" dp (·.inum = 0) (offsets size 0) with
      | some (off, _) => off
      | none => DIRENT * slots size
    let r ← writeDirent dp off ⟨.ofNat 16 inum, strncpy name⟩
    return if r ≠ DIRENT then -1 else 0

/-- `isdirempty`. -/
def isdirempty (dp : Ino) : FsM Bool := do
  let ip ← inode dp
  match ← findDirent "isdirempty: readi" dp (·.inum ≠ 0) (offsets ip.din.size 2) with
  | some _ => return false
  | none => return true

/-! ## Paths -/

/-- The character `'/'`. -/
def slash : UInt8 := 47

/-- `skipelem`: the next path element and what follows it, without leading slashes. -/
def skipelem (path : List UInt8) : Option (Name × List UInt8) :=
  match path.dropWhile (· = slash) with
  | [] => none
  | c :: path =>
    some (((c :: path).takeWhile (· ≠ slash)).take DIRSIZ,
      ((c :: path).dropWhile (· ≠ slash)).dropWhile (· = slash))

/-- The elements `skipelem` finds one after the other. Each is at least one character, so
`path.length` rounds are enough. -/
def elemsLoop : ℕ → List UInt8 → List Name
  | 0, _ => []
  | fuel + 1, path =>
    match skipelem path with
    | none => []
    | some (name, path) => name :: elemsLoop fuel path

/-- The elements of a path. -/
def elems (path : List UInt8) : List Name := elemsLoop path.length path

/-- The loop of `namex` over the path elements, starting at `ip`. -/
def namexLoop (nameiparent : Bool) (ip : Ino) : List Name → FsM (Option (Ino × Name))
  | [] => do
    if nameiparent then
      iput ip
      return none
    return some (ip, [])
  | name :: path => do
    ilock ip
    if (← inode ip).din.type ≠ T_DIR then
      iunlockput ip
      return none
    if nameiparent ∧ path = [] then
      iunlock ip
      return some (ip, name)
    match ← dirlookup ip name with
    | none =>
      iunlockput ip
      return none
    | some (next, _) =>
      iunlockput ip
      namexLoop nameiparent next path

/-- `namex`, called by process `p`. -/
def namex (p : Slot) (path : List UInt8) (nameiparent : Bool) : FsM (Option (Ino × Name)) := do
  let ip ← if path.head? = some slash then iget ROOTINO
    else match ((← get).proc p).cwd with
      | some ip => idup ip
      | none => throw .disabled
  namexLoop nameiparent ip (elems path)

/-- `namei`. -/
def namei (p : Slot) (path : List UInt8) : FsM (Option Ino) := do
  return (← namex p path false).map Prod.fst

/-- `nameiparent`. -/
def nameiparent (p : Slot) (path : List UInt8) : FsM (Option (Ino × Name)) := namex p path true

/-! ## Files (`kernel/file.c`) -/

/-- The entry `*f` of the file table. -/
def file (f : FileNo) : FsM File := do return (← get).ftable f

/-- Assign to fields of `*f`. -/
def modifyFile (f : FileNo) (g : File → File) : FsM Unit := modify fun s => s.setFile f g

/-- `filealloc`. -/
def filealloc : FsM (Option FileNo) := do
  let s ← get
  match (List.finRange NFILE).find? fun f => (s.ftable f).ref = 0 with
  | some f =>
    modifyFile f fun x => { x with ref := 1 }
    return some f
  | none => return none

/-- `filedup`. -/
def filedup (f : FileNo) : FsM Unit := do
  if (← file f).ref < 1 then throw (.panic "filedup")
  modifyFile f fun x => { x with ref := x.ref + 1 }

/-- `fileclose`. -/
def fileclose (f : FileNo) : FsM Unit := do
  let ff ← file f
  if ff.ref < 1 then throw (.panic "fileclose")
  if 1 < ff.ref then modifyFile f fun x => { x with ref := x.ref - 1 }
  else
    modifyFile f fun x => { x with ref := 0, type := .none }
    match ff.type with
    | .inode | .device => iput ff.ip
    | .pipe | .none => return

/-- Is `devsw[f->major]` out of range? -/
def badMajor (major : BitVec 16) : Bool := major.toInt < 0 ∨ (NDEV : ℤ) ≤ major.toInt

/-- `fileread`, with the bytes it copies to `dst`. `ext` is what the pipe or the device returns. -/
def fileread (f : FileNo) (dst : ℕ → Bool) (n : BitVec 32) (ext : ℤ) :
    FsM (ℤ × List UInt8) := do
  let ff ← file f
  if !ff.readable then return (-1, [])
  match ff.type with
  | .pipe => return (ext, [])
  | .device => return if badMajor ff.major then (-1, []) else (ext, [])
  | .inode =>
    ilock ff.ip
    let (r, bs) ← onInode ff.ip fun sb _ ip d => readi sb ip dst ff.off.toNat n.toNat d
    if 0 < r then modifyFile f fun x => { x with off := x.off + .ofInt 32 r }
    iunlock ff.ip
    return (r, bs)
  | .none => throw (.panic "fileread")

/-- `max` in `filewrite`: the bytes written in one transaction. -/
def maxWrite : ℕ := (MAXOPBLOCKS - 1 - 1 - 2) / 2 * BSIZE

/-- A call of `writei` in `filewrite`, which is recorded. -/
def writeTx (e : Ino) (src : ℕ → Option UInt8) (off n : ℕ) : FsM ℤ := do
  modify fun s => s.record ⟨s.sb, (s.itable e).inum, (s.itable e).din, src, off, n, s.disk⟩
  onInode e fun sb inum ip d => writei sb inum ip src off n d

/-- The loop of `filewrite`. It writes at least one byte a round, so `n` rounds are enough. -/
def filewriteLoop (f : FileNo) (src : ℕ → Option UInt8) (n : ℕ) : ℕ → ℕ → FsM ℕ
  | 0, i => return i
  | fuel + 1, i => do
    if i < n then
      let n1 := min (n - i) maxWrite
      let ff ← file f
      ilock ff.ip
      let r ← writeTx ff.ip (fun k => src (i + k)) ff.off.toNat n1
      if 0 < r then modifyFile f fun x => { x with off := x.off + .ofInt 32 r }
      iunlock ff.ip
      if r ≠ n1 then return i
      filewriteLoop f src n fuel (i + n1)
    else return i

/-- `filewrite`. `ext` is what the pipe or the device returns. -/
def filewrite (f : FileNo) (src : ℕ → Option UInt8) (n : BitVec 32) (ext : ℤ) : FsM ℤ := do
  let ff ← file f
  if !ff.writable then return -1
  match ff.type with
  | .pipe => return ext
  | .device => return if badMajor ff.major then -1 else ext
  | .inode =>
    let i ← filewriteLoop f src n.toInt.toNat n.toInt.toNat 0
    return if (i : ℤ) = n.toInt then n.toInt else -1
  | .none => throw (.panic "filewrite")

/-! ## System calls (`kernel/sysfile.c`) -/

def O_RDONLY : BitVec 32 := 0x000

def O_WRONLY : BitVec 32 := 0x001

def O_RDWR : BitVec 32 := 0x002

def O_CREATE : BitVec 32 := 0x200

def O_TRUNC : BitVec 32 := 0x400

/-- `argfd`. A negative descriptor is a large one. -/
def argfd (p : Slot) (fd : BitVec 32) : FsM (Option (Fin NOFILE × FileNo)) := do
  let s ← get
  return if h : fd.toNat < NOFILE then
    ((s.proc p).ofile ⟨fd.toNat, h⟩).map fun f => (⟨fd.toNat, h⟩, f)
  else none

/-- `argstr(_, path, MAXPATH)`, with the user memory from the string's address on. -/
def argstr (str : ℕ → Option UInt8) : Option (List UInt8) :=
  let bs := copied str 0 MAXPATH
  if 0 ∈ bs then some (bs.takeWhile (· ≠ 0)) else none

/-- `p->ofile[fd] = f`. -/
def setOfile (p : Slot) (fd : Fin NOFILE) (f : Option FileNo) : FsM Unit :=
  modify fun s => s.setProc p fun x => { x with ofile := update x.ofile fd f }

/-- `p->cwd = ip`. -/
def setCwd (p : Slot) (ip : Option Ino) : FsM Unit :=
  modify fun s => s.setProc p fun x => { x with cwd := ip }

/-- `fdalloc`. -/
def fdalloc (p : Slot) (f : FileNo) : FsM (Option (Fin NOFILE)) := do
  let s ← get
  match (List.finRange NOFILE).find? fun fd => (s.proc p).ofile fd = none with
  | some fd =>
    setOfile p fd (some f)
    return some fd
  | none => return none

/-- `sys_dup`. -/
def sysDup (p : Slot) (fd : BitVec 32) : FsM ℤ := do
  match ← argfd p fd with
  | none => return -1
  | some (_, f) =>
    match ← fdalloc p f with
    | none => return -1
    | some fd =>
      filedup f
      return fd.val

/-- `sys_read`. -/
def sysRead (p : Slot) (fd n : BitVec 32) (dst : ℕ → Bool) (ext : ℤ) : FsM ℤ := do
  match ← argfd p fd with
  | none => return -1
  | some (_, f) => Prod.fst <$> fileread f dst n ext

/-- `sys_write`. -/
def sysWrite (p : Slot) (fd n : BitVec 32) (src : ℕ → Option UInt8) (ext : ℤ) : FsM ℤ := do
  match ← argfd p fd with
  | none => return -1
  | some (_, f) => filewrite f src n ext

/-- `sys_close`. -/
def sysClose (p : Slot) (fd : BitVec 32) : FsM ℤ := do
  match ← argfd p fd with
  | none => return -1
  | some (fd, f) =>
    setOfile p fd none
    fileclose f
    return 0

/-- The code at `bad:` in `sys_link`. -/
def linkBad (ip : Ino) : FsM ℤ := do
  ilock ip
  decLink ip
  iunlockput ip
  return -1

/-- `sys_link` after the link count of `ip` was incremented. -/
def linkNew (p : Slot) (ip : Ino) (new : List UInt8) : FsM ℤ := do
  match ← nameiparent p new with
  | none => linkBad ip
  | some (dp, name) =>
    ilock dp
    let r ← dirlink dp name (← inode ip).inum
    iunlockput dp
    if r < 0 then linkBad ip
    else
      iput ip
      return 0

/-- `sys_link`. -/
def sysLink (p : Slot) (old new : ℕ → Option UInt8) : FsM ℤ := do
  match argstr old, argstr new with
  | some old, some new =>
    match ← namei p old with
    | none => return -1
    | some ip =>
      ilock ip
      if (← inode ip).din.type = T_DIR then
        iunlockput ip
        return -1
      incLink ip
      iunlock ip
      linkNew p ip new
  | _, _ => return -1

/-- The names `"."` and `".."`. -/
def dot : Name := [46]

@[inherit_doc dot]
def dotdot : Name := [46, 46]

/-- `sys_unlink` after `ip`, the inode of the entry at `off` in `dp`, was found and locked. -/
def unlinkEntry (dp ip : Ino) (off : ℕ) : FsM ℤ := do
  let r ← writeDirent dp off .zero
  if r ≠ DIRENT then throw (.panic "unlink: writei")
  if (← inode ip).din.type = T_DIR then decLink dp
  iunlockput dp
  decLink ip
  iunlockput ip
  return 0

/-- `sys_unlink`. -/
def sysUnlink (p : Slot) (path : ℕ → Option UInt8) : FsM ℤ := do
  match argstr path with
  | none => return -1
  | some path =>
    match ← nameiparent p path with
    | none => return -1
    | some (dp, name) =>
      ilock dp
      if namecmp name dot ∨ namecmp name dotdot then
        iunlockput dp
        return -1
      match ← dirlookup dp name with
      | none =>
        iunlockput dp
        return -1
      | some (ip, off) =>
        ilock ip
        if (← inode ip).din.nlink.toInt < 1 then throw (.panic "unlink: nlink < 1")
        let full ← if (← inode ip).din.type = T_DIR then (! ·) <$> isdirempty ip else pure false
        if full then
          iunlockput ip
          iunlockput dp
          return -1
        unlinkEntry dp ip off

/-- The code at `fail:` in `create`. -/
def createFail (dp ip : Ino) : FsM (Option Ino) := do
  modifyDin ip fun x => { x with nlink := 0 }
  iupdate ip
  iunlockput ip
  iunlockput dp
  return none

/-- `create` after the new inode `ip` was initialised: its own entries, if it is a
directory, and its entry in `dp`. -/
def createLink (dp ip : Ino) (name : Name) (type : BitVec 16) : FsM (Option Ino) := do
  if type = T_DIR then
    if (← dirlink ip dot (← inode ip).inum) < 0 then return ← createFail dp ip
    if (← dirlink ip dotdot (← inode dp).inum) < 0 then return ← createFail dp ip
  if (← dirlink dp name (← inode ip).inum) < 0 then return ← createFail dp ip
  if type = T_DIR then incLink dp
  iunlockput dp
  return some ip

/-- `create` when `ip` is what the path names already. -/
def createExists (dp ip : Ino) (type : BitVec 16) : FsM (Option Ino) := do
  iunlockput dp
  ilock ip
  let t := (← inode ip).din.type
  if type = T_FILE ∧ (t = T_FILE ∨ t = T_DEVICE) then return some ip
  iunlockput ip
  return none

/-- `create`. -/
def create (p : Slot) (path : List UInt8) (type major minor : BitVec 16) :
    FsM (Option Ino) := do
  match ← nameiparent p path with
  | none => return none
  | some (dp, name) =>
    ilock dp
    match ← dirlookup dp name with
    | some (ip, _) => createExists dp ip type
    | none =>
      match ← ialloc type with
      | none =>
        iunlockput dp
        return none
      | some ip =>
        ilock ip
        modifyDin ip fun x => { x with major := major, minor := minor, nlink := 1 }
        iupdate ip
        createLink dp ip name type

/-- The inode `sys_open` opens, locked. -/
def openInode (p : Slot) (path : List UInt8) (omode : BitVec 32) : FsM (Option Ino) := do
  if omode &&& O_CREATE ≠ 0 then create p path T_FILE 0 0
  else
    match ← namei p path with
    | none => return none
    | some ip =>
      ilock ip
      if (← inode ip).din.type = T_DIR ∧ omode ≠ O_RDONLY then
        iunlockput ip
        return none
      return some ip

/-- The assignments of `sys_open` to the new file `f`. -/
def openFile (f : FileNo) (ip : Ino) (omode : BitVec 32) : FsM Unit := do
  let din := (← inode ip).din
  modifyFile f fun x =>
    let x := if din.type = T_DEVICE then { x with type := .device, major := din.major }
      else { x with type := .inode, off := 0 }
    { x with
      ip := ip
      readable := omode &&& O_WRONLY = 0
      writable := omode &&& O_WRONLY ≠ 0 ∨ omode &&& O_RDWR ≠ 0 }

/-- `filealloc` and `fdalloc` in `sys_open`: both succeed, or none has an effect. -/
def openFd (p : Slot) : FsM (Option (FileNo × Fin NOFILE)) := do
  match ← filealloc with
  | none => return none
  | some f =>
    match ← fdalloc p f with
    | none =>
      fileclose f
      return none
    | some fd => return some (f, fd)

/-- `sys_open` once it has the inode, locked. -/
def openLocked (p : Slot) (ip : Ino) (omode : BitVec 32) : FsM ℤ := do
  let din := (← inode ip).din
  if din.type = T_DEVICE ∧ badMajor din.major then
    iunlockput ip
    return -1
  match ← openFd p with
  | none =>
    iunlockput ip
    return -1
  | some (f, fd) =>
    openFile f ip omode
    if omode &&& O_TRUNC ≠ 0 ∧ din.type = T_FILE then
      onInode ip fun sb inum ip d => do
        let (ip, d) ← itrunc sb inum ip d
        return ((), ip, d)
    iunlock ip
    return fd.val

/-- `sys_open`. -/
def sysOpen (p : Slot) (path : ℕ → Option UInt8) (omode : BitVec 32) : FsM ℤ := do
  match argstr path with
  | none => return -1
  | some path =>
    match ← openInode p path omode with
    | none => return -1
    | some ip => openLocked p ip omode

/-- `sys_mkdir`. -/
def sysMkdir (p : Slot) (path : ℕ → Option UInt8) : FsM ℤ := do
  match argstr path with
  | none => return -1
  | some path =>
    match ← create p path T_DIR 0 0 with
    | none => return -1
    | some ip =>
      iunlockput ip
      return 0

/-- `sys_mknod`. -/
def sysMknod (p : Slot) (path : ℕ → Option UInt8) (major minor : BitVec 32) : FsM ℤ := do
  match argstr path with
  | none => return -1
  | some path =>
    match ← create p path T_DEVICE (major.setWidth 16) (minor.setWidth 16) with
    | none => return -1
    | some ip =>
      iunlockput ip
      return 0

/-- `sys_chdir`. -/
def sysChdir (p : Slot) (path : ℕ → Option UInt8) : FsM ℤ := do
  match argstr path with
  | none => return -1
  | some path =>
    match ← namei p path with
    | none => return -1
    | some ip =>
      ilock ip
      if (← inode ip).din.type ≠ T_DIR then
        iunlockput ip
        return -1
      iunlock ip
      match ((← get).proc p).cwd with
      | some old => iput old
      | none => throw .disabled
      setCwd p (some ip)
      return 0

/-- `pipealloc` (`kernel/pipe.c`). `mem` says whether `kalloc` returns a page. -/
def pipealloc (mem : Bool) : FsM (Option (FileNo × FileNo)) := do
  match ← filealloc with
  | none => return none
  | some f0 =>
    match ← filealloc with
    | none =>
      fileclose f0
      return none
    | some f1 =>
      if mem then
        modifyFile f0 fun x => { x with type := .pipe, readable := true, writable := false }
        modifyFile f1 fun x => { x with type := .pipe, readable := false, writable := true }
        return some (f0, f1)
      fileclose f0
      fileclose f1
      return none

/-- `sys_pipe`. `out` says whether the two calls of `copyout` succeed. -/
def sysPipe (p : Slot) (mem out : Bool) : FsM ℤ := do
  match ← pipealloc mem with
  | none => return -1
  | some (rf, wf) =>
    match ← fdalloc p rf with
    | none =>
      fileclose rf
      fileclose wf
      return -1
    | some fd0 =>
      match ← fdalloc p wf with
      | none =>
        setOfile p fd0 none
        fileclose rf
        fileclose wf
        return -1
      | some fd1 =>
        if out then return 0
        setOfile p fd0 none
        setOfile p fd1 none
        fileclose rf
        fileclose wf
        return -1

/-! ## Processes (`kernel/proc.c`) -/

/-- The loop body of `fork` over the open files of `p`. -/
def forkFile (p np : Slot) (fd : Fin NOFILE) : FsM Unit := do
  match ((← get).proc p).ofile fd with
  | some f =>
    filedup f
    setOfile np fd (some f)
  | none => return

/-- What `fork` does to the file system: the child `np` gets the files and the current
directory of `p`. `mem` says whether there is memory for the child. -/
def forkFs (p np : Slot) (mem : Bool) : FsM ℤ := do
  if ((← get).proc np).cwd.isSome then throw .disabled
  if !mem then return -1
  (List.finRange NOFILE).forM (forkFile p np)
  match ((← get).proc p).cwd with
  | some ip => setCwd np (some (← idup ip))
  | none => throw .disabled
  return 0

/-- The loop body of `exit` over the open files of `p`. -/
def exitFile (p : Slot) (fd : Fin NOFILE) : FsM Unit := do
  match ((← get).proc p).ofile fd with
  | some f =>
    fileclose f
    setOfile p fd none
  | none => return

/-- What `exit` does to the file system. -/
def exitFs (p : Slot) : FsM ℤ := do
  (List.finRange NOFILE).forM (exitFile p)
  match ((← get).proc p).cwd with
  | some ip => iput ip
  | none => throw .disabled
  setCwd p none
  return 0

/-- What `exec` does to the file system: it reads from the inode as `reads` says, offset and
length of each, and returns `r`. -/
def execFs (p : Slot) (path : ℕ → Option UInt8) (reads : List (BitVec 32 × BitVec 32)) (r : ℤ) :
    FsM ℤ := do
  match argstr path with
  | none => return -1
  | some path =>
    match ← namei p path with
    | none => return -1
    | some ip =>
      ilock ip
      reads.forM fun (off, n) => do
        let _ ← onInode ip fun sb _ ip d => readi sb ip (fun _ => true) off.toNat n.toNat d
      iunlockput ip
      return r

/-! ## The machine -/

/-- A system call with its arguments. Strings and buffers are given by the user memory at
their address, `ext` is the result of a pipe or a device. -/
inductive Call where
  | dup (fd : BitVec 32)
  | read (fd n : BitVec 32) (dst : ℕ → Bool) (ext : ℤ)
  | write (fd n : BitVec 32) (src : ℕ → Option UInt8) (ext : ℤ)
  | close (fd : BitVec 32)
  | link (old new : ℕ → Option UInt8)
  | unlink (path : ℕ → Option UInt8)
  | open (path : ℕ → Option UInt8) (omode : BitVec 32)
  | mkdir (path : ℕ → Option UInt8)
  | mknod (path : ℕ → Option UInt8) (major minor : BitVec 32)
  | chdir (path : ℕ → Option UInt8)
  | pipe (mem out : Bool)
  | fork (child : Slot) (mem : Bool)
  | exec (path : ℕ → Option UInt8) (reads : List (BitVec 32 × BitVec 32)) (r : ℤ)
  | exit

/-- The code of a system call made by process `p`. -/
def Call.code (p : Slot) : Call → FsM ℤ
  | .dup fd => sysDup p fd
  | .read fd n dst ext => sysRead p fd n dst ext
  | .write fd n src ext => sysWrite p fd n src ext
  | .close fd => sysClose p fd
  | .link old new => sysLink p old new
  | .unlink path => sysUnlink p path
  | .open path omode => sysOpen p path omode
  | .mkdir path => sysMkdir p path
  | .mknod path major minor => sysMknod p path major minor
  | .chdir path => sysChdir p path
  | .pipe mem out => sysPipe p mem out
  | .fork child mem => forkFs p child mem
  | .exec path reads r => execFs p path reads r
  | .exit => exitFs p

/-- Process `p` makes the call `c`: its result and the state after it. -/
def call (p : Slot) (c : Call) (s : State) : Except Stop (ℤ × State) :=
  if (s.proc p).cwd.isSome then (c.code p).run s else throw .disabled

/-- One system call by one process. -/
def Next (s s' : State) : Prop := ∃ p c r, call p c s = .ok (r, s')

/-- An entry of the zero-initialised `itable`. -/
def Inode.zero : Inode := ⟨0, 0, false, false, Dinode.zero⟩

/-- An entry of the zero-initialised `ftable`. -/
def File.zero : File := ⟨.none, 0, false, false, 0, 0, 0⟩

/-- The state after `userinit`, which sets the current directory of the first process to
`namei("/")`, and `fsinit`. -/
def boot (d : Disk) : State where
  sb := readsb d
  disk := d
  itable := update (fun _ => Inode.zero) 0 { Inode.zero with inum := ROOTINO, ref := 1 }
  ftable := fun _ => File.zero
  proc := update (fun _ => ⟨fun _ => none, none⟩) 0 ⟨fun _ => none, some 0⟩
  hist := []

/-- The states between two calls of a system booted from the image `d`. -/
def Reachable (d : Disk) (s : State) : Prop := Relation.ReflTransGen Next (boot d) s

end Xv6.Fs
