import Xv6.Fs.Kernel
import Xv6.Lib.Count
import Xv6.Lib.Triple

/-!
# Reference counts of the inode table

`Bal P T F s` is the balance of the two reference counted tables: every count is the number
of references that `struct proc` and `struct file` hold, plus those in the hands of the
running system call. `T` counts the references to inodes in hand, `F` those to files; a
count is negative where the code gives up a reference before it clears the place.

Each function of `kernel/fs.c` then has one specification that says which references it
takes and which it returns.
-/

namespace Xv6.Fs

open Xv6.Lib
open Xv6.Process (Slot Stop)

/-! ## The balance -/

/-- The inode that a file refers to. -/
def File.target (x : File) : Option Ino :=
  match x.type with
  | .inode | .device => some x.ip
  | .pipe | .none => none

/-- The references of current directories. -/
def cwds (P : Slot → Proc) : Slot → Option Ino := fun p => (P p).cwd

/-- The references of open file tables. -/
def ofiles (P : Slot → Proc) : Slot × Fin NOFILE → Option FileNo := fun x => (P x.1).ofile x.2

/-- The references of files. -/
def targets (ft : FileNo → File) : FileNo → Option Ino := fun f => (ft f).target

/-- The counts agree with the references held, with `T` and `F` in hand. -/
structure Bal (P : Slot → Proc) (T : Ino → ℤ) (F : FileNo → ℤ) (s : State) : Prop where
  proc : s.proc = P
  inodes : ∀ e, ((s.itable e).ref : ℤ) = refs (cwds P) e + refs (targets s.ftable) e + T e
  files : ∀ f, ((s.ftable f).ref : ℤ) = refs (ofiles P) f + F f
  /-- A free entry of the file table has no type. -/
  free : ∀ f, (s.ftable f).ref = 0 → (s.ftable f).type = .none

/-- Every stop but the panics of `filedup` and `fileclose`. -/
def Tolerated (e : Stop) : Prop := e ≠ .panic "filedup" ∧ e ≠ .panic "fileclose"

lemma DiskPanic.tolerated {e : Stop} (h : DiskPanic e) : Tolerated e := by
  obtain rfl | rfl := h <;> simp [Tolerated]

variable {P : Slot → Proc} {T : Ino → ℤ} {F : FileNo → ℤ} {s s' : State} {e : Ino} {α β : Type}
  {f : Inode → Inode} {Q : β → State → Prop} {R : State → Prop}

/-- Nothing that is counted changed. -/
lemma Bal.same (h : Bal P T F s) (hp : s'.proc = s.proc) (hf : s'.ftable = s.ftable)
    (hi : ∀ e, (s'.itable e).ref = (s.itable e).ref) : Bal P T F s' := by
  refine ⟨hp.trans h.proc, fun e => ?_, ?_, ?_⟩
  · rw [hi, hf]
    exact h.inodes e
  · rw [hf]
    exact h.files
  · rw [hf]
    exact h.free

/-- The count of entry `e` changes by `k`. -/
lemma Bal.ref (h : Bal P T F s) {k : ℤ} (hf : ((f (s.itable e)).ref : ℤ) = (s.itable e).ref + k)
    {T' : Ino → ℤ} (hT : T' = T + fun e' => k * tally (some e) e') :
    Bal P T' F (s.setInode e f) := by
  refine ⟨h.proc, fun e' => ?_, h.files, h.free⟩
  have := h.inodes e'
  show (((Function.update s.itable e (f (s.itable e)) e').ref : ℕ) : ℤ) = _
  rw [hT]
  by_cases he : e' = e
  · subst he
    rw [Function.update_self, hf]
    simp only [Pi.add_apply, tally_self, State.setInode]
    omega
  · rw [Function.update_of_ne he]
    simp only [Pi.add_apply, tally, Option.some.injEq, Ne.symm he, if_false, State.setInode]
    omega

/-! ## Code that leaves the counts alone -/

lemma modifyInode_bal (hf : ∀ x, (f x).ref = x.ref) :
    Triple Tolerated (Bal P T F) (modifyInode e f) fun _ => Bal P T F := by
  refine .modify fun s h => h.same rfl rfl fun e' => ?_
  by_cases he : e' = e
  · subst he
    simp [State.setInode, hf]
  · simp [State.setInode, he]

lemma modifyDin_bal (f : Dinode → Dinode) :
    Triple Tolerated (Bal P T F) (modifyDin e f) fun _ => Bal P T F :=
  modifyInode_bal fun _ => rfl

lemma iupdate_bal : Triple Tolerated (Bal P T F) (iupdate e) fun _ => Bal P T F :=
  .modify fun _ h => h.same rfl rfl fun _ => rfl

lemma inode_bind {f : Inode → FsM β} (h : ∀ x, Triple Tolerated R (f x) Q) :
    Triple Tolerated R (inode e >>= f) Q :=
  .of_run fun s hs => (h (s.itable e)).run hs

/-- Reading and writing an inode moves no reference. -/
lemma onInode_bal {f : Superblock → ℕ → Dinode → Disk → Except Stop (α × Dinode × Disk)}
    (hf : ∀ sb inum ip d, Post DiskPanic (fun _ => True) (f sb inum ip d)) :
    Triple Tolerated (Bal P T F) (onInode e f) fun _ => Bal P T F := by
  refine .read_bind fun s h => ?_
  refine .lift_bind fun s' h' => ?_
  have hx := hf s.sb (s.itable e).inum (s.itable e).din s.disk
  generalize f s.sb (s.itable e).inum (s.itable e).din s.disk = x at hx ⊢
  cases x with
  | error e => exact DiskPanic.tolerated hx
  | ok r =>
    rw [Post.ok_iff]
    refine .bind (Q := fun _ => Bal P T F) (.set fun _ _ => ?_) fun _ => .skip
    refine h.same rfl rfl fun e' => ?_
    by_cases he : e' = e
    · subst he
      simp [State.setInode]
    · simp [State.setInode, he]

lemma readi_bal (dst : ℕ → Bool) (off n : ℕ) :
    Triple Tolerated (Bal P T F) (onInode e fun sb _ ip d => readi sb ip dst off n d)
      fun _ => Bal P T F :=
  onInode_bal fun _ _ ip _ => (readi_uses ip dst off n).mono fun _ _ => trivial

lemma writei_bal (src : ℕ → Option UInt8) (off n : ℕ) :
    Triple Tolerated (Bal P T F) (onInode e fun sb inum ip d => writei sb inum ip src off n d)
      fun _ => Bal P T F :=
  onInode_bal fun _ inum ip _ => (writei_uses inum ip src off n).mono fun _ _ => trivial

lemma itrunc_bal :
    Triple Tolerated (Bal P T F) (onInode e fun sb inum ip d => do
      let (ip, d) ← itrunc sb inum ip d
      return ((), ip, d)) fun _ => Bal P T F :=
  onInode_bal fun _ inum ip _ =>
    Post.bind ((itrunc_uses inum ip).mono fun _ _ => trivial)

lemma acquiresleep_bal : Triple Tolerated (Bal P T F) (acquiresleep e) fun _ => Bal P T F := by
  refine inode_bind fun x => .ite (fun _ => ?_) fun _ => modifyInode_bal fun _ => rfl
  exact .throw_bind (by simp [Tolerated])

lemma releasesleep_bal : Triple Tolerated (Bal P T F) (releasesleep e) fun _ => Bal P T F :=
  modifyInode_bal fun _ => rfl

/-- Locks are no references. -/
lemma ilock_bal : Triple Tolerated (Bal P T F) (ilock e) fun _ => Bal P T F := by
  refine inode_bind fun x => .ite (fun _ => .throw_bind (by simp [Tolerated])) fun _ => ?_
  refine acquiresleep_bal.bind fun _ => .read_bind fun s _ => ?_
  refine .ite (fun _ => ?_) fun _ => .skip
  refine .bind (Q := fun _ => Bal P T F) (modifyInode_bal fun _ => rfl) fun _ => ?_
  exact .ite (fun _ => .throw (by simp [Tolerated])) fun _ => .skip

lemma iunlock_bal : Triple Tolerated (Bal P T F) (iunlock e) fun _ => Bal P T F := by
  refine inode_bind fun x => .ite (fun _ => .throw_bind (by simp [Tolerated])) fun _ => ?_
  exact releasesleep_bal

lemma incLink_bal : Triple Tolerated (Bal P T F) (incLink e) fun _ => Bal P T F :=
  (modifyDin_bal _).bind fun _ => iupdate_bal

lemma decLink_bal : Triple Tolerated (Bal P T F) (decLink e) fun _ => Bal P T F :=
  (modifyDin_bal _).bind fun _ => iupdate_bal

lemma ifree_bal : Triple Tolerated (Bal P T F) (ifree e) fun _ => Bal P T F := by
  refine acquiresleep_bal.bind fun _ => ?_
  refine itrunc_bal.bind fun _ => (modifyDin_bal _).bind fun _ => iupdate_bal.bind fun _ => ?_
  exact .bind (Q := fun _ => Bal P T F) (modifyInode_bal fun _ => rfl) fun _ => releasesleep_bal

/-! ## References to inodes -/

/-- A program that returns a reference or none. -/
lemma bind_option {m : FsM (Option α)} {f : Option α → FsM β} {g : α → Ino}
    (hm : Triple Tolerated R m fun r => Bal P (T + tally (r.map g)) F)
    (hnone : Triple Tolerated (Bal P T F) (f none) Q)
    (hsome : ∀ a, Triple Tolerated (Bal P (T + tally (some (g a))) F) (f (some a)) Q) :
    Triple Tolerated R (m >>= f) Q := by
  refine hm.bind fun r => ?_
  cases r with
  | none => simpa using hnone
  | some a => exact hsome a

/-- `iget` hands out a reference. -/
lemma iget_bal (inum : ℕ) :
    Triple Tolerated (Bal P T F) (iget inum) fun e => Bal P (T + tally (some e)) F := by
  refine .get_bind fun s h => ?_
  split
  case h_1 e _ =>
    refine .bind (Q := fun _ => Bal P (T + tally (some e)) F) (.modify ?_) fun _ =>
      .pure fun _ h => h
    rintro _ rfl
    exact h.ref (k := 1) (by simp) (by simp)
  case h_2 =>
    split
    case h_1 e hfind =>
      have he : (s.itable e).ref = 0 := by simpa using List.find?_some hfind
      refine .bind (Q := fun _ => Bal P (T + tally (some e)) F) (.modify ?_) fun _ =>
        .pure fun _ h => h
      rintro _ rfl
      exact h.ref (k := 1) (by simp [he]) (by simp)
    case h_2 => exact .throw (by simp [Tolerated])

lemma idup_bal (e : Ino) :
    Triple Tolerated (Bal P T F) (idup e) fun e => Bal P (T + tally (some e)) F :=
  .bind (Q := fun _ => Bal P (T + tally (some e)) F)
    (.modify fun _ h => h.ref (k := 1) (by simp) (by simp)) fun _ => .pure fun _ h => h

/-- `ialloc` hands out a reference to the new inode. -/
lemma ialloc_bal (type : BitVec 16) :
    Triple Tolerated (Bal P T F) (ialloc type) fun r => Bal P (T + tally r) F := by
  refine .read_bind fun s h => ?_
  split
  case h_1 i _ =>
    refine .bind (Q := fun _ => Bal P T F) (.set fun _ _ => h.same rfl rfl fun _ => rfl) fun _ => ?_
    exact (iget_bal i).bind fun e => .pure fun _ h => h
  case h_2 => exact .pure fun _ h => by simpa using h

/-- `iput`, where the reference is known to be counted. -/
lemma iput_counted (he : ∀ s, Bal P T F s → 1 ≤ (s.itable e).ref) :
    Triple Tolerated (Bal P T F) (iput e) fun _ => Bal P (T - tally (some e)) F := by
  have hput : Triple Tolerated (Bal P T F) (modifyInode e fun ip => { ip with ref := ip.ref - 1 })
      fun _ => Bal P (T - tally (some e)) F := by
    refine .modify fun s h => h.ref (k := -1) ?_ ?_
    · have := he s h
      dsimp only
      omega
    · funext e'
      simp [sub_eq_add_neg]
  refine inode_bind fun x => .ite (fun _ => ?_) fun _ => hput
  exact ifree_bal.bind fun _ => hput

/-- `iput` takes a reference back. -/
lemma iput_bal (hT : 0 ≤ T) :
    Triple Tolerated (Bal P (T + tally (some e)) F) (iput e) fun _ => Bal P T F := by
  refine (iput_counted fun s h => ?_).post fun _ _ h => by simpa using h
  have := h.inodes e
  have := hT e
  simp only [Pi.add_apply, tally_self, Pi.zero_apply] at *
  omega

lemma iunlockput_bal (hT : 0 ≤ T) :
    Triple Tolerated (Bal P (T + tally (some e)) F) (iunlockput e) fun _ => Bal P T F :=
  iunlock_bal.bind fun _ => iput_bal hT

/-! ## Directories and paths -/

lemma readDirent_bal (msg : String) (hmsg : Tolerated (.panic msg)) (dp : Ino) (off : ℕ) :
    Triple Tolerated (Bal P T F) (readDirent msg dp off) fun _ => Bal P T F :=
  (readi_bal _ _ _).bind fun _ =>
    .ite (fun _ => .throw_bind hmsg) fun _ => .skip

lemma writeDirent_bal (dp : Ino) (off : ℕ) (de : Dirent) :
    Triple Tolerated (Bal P T F) (writeDirent dp off de) fun _ => Bal P T F :=
  writei_bal _ _ _

lemma findDirent_bal (msg : String) (hmsg : Tolerated (.panic msg)) (dp : Ino)
    (p : Dirent → Bool) (offs : List ℕ) :
    Triple Tolerated (Bal P T F) (findDirent msg dp p offs) fun _ => Bal P T F := by
  induction offs with
  | nil => exact .skip
  | cons off offs ih =>
    refine (readDirent_bal msg hmsg dp off).bind fun de => ?_
    exact .ite (fun _ => .skip) fun _ => ih

/-- `dirlookup` hands out a reference to what it finds. -/
lemma dirlookup_bal (dp : Ino) (name : Name) :
    Triple Tolerated (Bal P T F) (dirlookup dp name)
      fun r => Bal P (T + tally (r.map Prod.fst)) F := by
  refine inode_bind fun x => .ite (fun _ => .throw_bind (by simp [Tolerated])) fun _ => ?_
  refine (findDirent_bal _ (by simp [Tolerated]) dp _ _).bind fun r => ?_
  cases r with
  | none => exact .pure fun _ h => by simpa using h
  | some x => exact (iget_bal _).bind fun e => .pure fun _ h => h

/-- `dirlink` gives back what its `dirlookup` found. -/
lemma dirlink_bal (hT : 0 ≤ T) (dp : Ino) (name : Name) (inum : ℕ) :
    Triple Tolerated (Bal P T F) (dirlink dp name inum) fun _ => Bal P T F := by
  refine bind_option (dirlookup_bal dp name) ?_ fun x => ?_
  · refine inode_bind fun x => (findDirent_bal _ (by simp [Tolerated]) dp _ _).bind fun r => ?_
    exact (writeDirent_bal dp _ _).bind fun _ => .skip
  · exact (iput_bal hT).bind fun _ => .skip

lemma isdirempty_bal (dp : Ino) :
    Triple Tolerated (Bal P T F) (isdirempty dp) fun _ => Bal P T F := by
  refine inode_bind fun x => (findDirent_bal _ (by simp [Tolerated]) dp _ _).bind fun r => ?_
  cases r with
  | none => exact .skip
  | some _ => exact .skip

section Balance

variable (hT : 0 ≤ T)

include hT

/-- The loop of `namex` trades the directory for its entry. -/
lemma namexLoop_bal (nameiparent : Bool) (path : List Name) :
    ∀ ip, Triple Tolerated (Bal P (T + tally (some ip)) F) (namexLoop nameiparent ip path)
      fun r => Bal P (T + tally (r.map Prod.fst)) F := by
  induction path with
  | nil =>
    intro ip
    refine .ite (fun _ => ?_) fun _ => .pure fun _ h => h
    exact (iput_bal hT).bind fun _ => .pure fun _ h => by simpa using h
  | cons name path ih =>
    intro ip
    have hfail : Triple Tolerated (Bal P (T + tally (some ip)) F) (do iunlockput ip; return none)
        fun r => Bal P (T + tally (Option.map Prod.fst (r : Option (Ino × Name)))) F :=
      (iunlockput_bal hT).bind fun _ => .pure fun _ h => by simpa using h
    refine ilock_bal.bind fun _ => inode_bind fun x => .ite (fun _ => hfail) fun _ => ?_
    refine .ite (fun _ => iunlock_bal.bind fun _ => .pure fun _ h => h) fun _ => ?_
    refine bind_option (dirlookup_bal ip name) hfail fun x => ?_
    rw [add_right_comm]
    exact (iunlockput_bal (add_nonneg hT (tally_nonneg _))).bind fun _ => ih x.1

lemma namex_bal (p : Slot) (path : List UInt8) (nameiparent : Bool) :
    Triple Tolerated (Bal P T F) (namex p path nameiparent)
      fun r => Bal P (T + tally (r.map Prod.fst)) F := by
  have hloop := namexLoop_bal (P := P) (F := F) hT nameiparent (elems path)
  refine .ite (fun _ => ?_) fun _ => ?_
  · exact (iget_bal _).bind hloop
  · refine .read_bind fun s _ => ?_
    split
    · exact (idup_bal _).bind hloop
    · exact .throw_bind (by simp [Tolerated])

lemma namei_bal (p : Slot) (path : List UInt8) :
    Triple Tolerated (Bal P T F) (namei p path) fun r => Bal P (T + tally r) F :=
  (namex_bal hT p path false).bind fun _ => .pure fun _ h => h

lemma nameiparent_bal (p : Slot) (path : List UInt8) :
    Triple Tolerated (Bal P T F) (nameiparent p path)
      fun r => Bal P (T + tally (r.map Prod.fst)) F :=
  namex_bal hT p path true

/-! ## Creating and removing names -/

lemma linkBad_bal (ip : Ino) :
    Triple Tolerated (Bal P (T + tally (some ip)) F) (linkBad ip) fun _ => Bal P T F :=
  ilock_bal.bind fun _ => decLink_bal.bind fun _ => (iunlockput_bal hT).bind fun _ =>
    .skip

lemma linkNew_bal (p : Slot) (ip : Ino) (new : List UInt8) :
    Triple Tolerated (Bal P (T + tally (some ip)) F) (linkNew p ip new) fun _ => Bal P T F := by
  have hip : 0 ≤ T + tally (some ip) := add_nonneg hT (tally_nonneg _)
  refine bind_option (nameiparent_bal hip p new) (linkBad_bal hT ip) fun x => ?_
  refine ilock_bal.bind fun _ => inode_bind fun y => ?_
  refine (dirlink_bal (add_nonneg hip (tally_nonneg _)) _ _ _).bind fun r => ?_
  refine (iunlockput_bal hip).bind fun _ => .ite (fun _ => linkBad_bal hT ip) fun _ => ?_
  exact (iput_bal hT).bind fun _ => .skip

/-- All paths of `sys_link` give back both references. -/
lemma sysLink_bal (p : Slot) (old new : ℕ → Option UInt8) :
    Triple Tolerated (Bal P T F) (sysLink p old new) fun _ => Bal P T F := by
  unfold sysLink
  split
  · refine bind_option (g := id) (by simpa using namei_bal hT p _) (.skip) fun ip => ?_
    refine ilock_bal.bind fun _ => inode_bind fun x => .ite (fun _ => ?_) fun _ => ?_
    · exact (iunlockput_bal hT).bind fun _ => .skip
    · exact incLink_bal.bind fun _ => iunlock_bal.bind fun _ => linkNew_bal hT p ip _
  · exact .skip

lemma unlinkEntry_bal (dp ip : Ino) (off : ℕ) :
    Triple Tolerated (Bal P (T + tally (some dp) + tally (some ip)) F) (unlinkEntry dp ip off)
      fun _ => Bal P T F := by
  have hip : 0 ≤ T + tally (some ip) := add_nonneg hT (tally_nonneg _)
  have hrest : Triple Tolerated (Bal P (T + tally (some dp) + tally (some ip)) F)
      (do iunlockput dp; decLink ip; iunlockput ip; return (0 : ℤ)) fun _ => Bal P T F := by
    rw [add_right_comm]
    refine (iunlockput_bal hip).bind fun _ => decLink_bal.bind fun _ => ?_
    exact (iunlockput_bal hT).bind fun _ => .skip
  refine (writeDirent_bal dp off _).bind fun r => ?_
  refine .ite (fun _ => .throw_bind (by simp [Tolerated])) fun _ => inode_bind fun x => ?_
  exact .ite (fun _ => decLink_bal.bind fun _ => hrest) fun _ => hrest

/-- So do those of `sys_unlink`. -/
lemma sysUnlink_bal (p : Slot) (path : ℕ → Option UInt8) :
    Triple Tolerated (Bal P T F) (sysUnlink p path) fun _ => Bal P T F := by
  unfold sysUnlink
  split
  · exact .skip
  · refine bind_option (nameiparent_bal hT p _) (.skip) fun x => ?_
    have hdp : 0 ≤ T + tally (some x.1) := add_nonneg hT (tally_nonneg _)
    have hfail : Triple Tolerated (Bal P (T + tally (some x.1)) F)
        (do iunlockput x.1; return (-1 : ℤ)) fun _ => Bal P T F :=
      (iunlockput_bal hT).bind fun _ => .skip
    refine ilock_bal.bind fun _ => .ite (fun _ => hfail) fun _ => ?_
    refine bind_option (dirlookup_bal x.1 x.2) hfail fun y => ilock_bal.bind fun _ => ?_
    refine inode_bind fun z => .ite (fun _ => .throw_bind (by simp [Tolerated])) fun _ => ?_
    have hfull : ∀ full : Bool, Triple Tolerated
        (Bal P (T + tally (some x.1) + tally (some y.1)) F)
        (if full then do iunlockput y.1; iunlockput x.1; return -1 else unlinkEntry x.1 y.1 y.2)
        fun _ => Bal P T F := by
      intro full
      refine .ite (fun _ => ?_) fun _ => unlinkEntry_bal hT _ _ _
      exact (iunlockput_bal hdp).bind fun _ => hfail
    refine inode_bind fun z => .ite (fun _ => ?_) fun _ => hfull false
    exact .bind (.map (R := fun _ => Bal P (T + tally (some x.1) + tally (some y.1)) F)
      (isdirempty_bal _)) hfull

lemma createFail_bal (dp ip : Ino) :
    Triple Tolerated (Bal P (T + tally (some dp) + tally (some ip)) F) (createFail dp ip)
      fun r => Bal P (T + tally r) F := by
  refine (modifyDin_bal _).bind fun _ => iupdate_bal.bind fun _ => ?_
  refine (iunlockput_bal (add_nonneg hT (tally_nonneg _))).bind fun _ => ?_
  exact (iunlockput_bal hT).bind fun _ => .pure fun _ h => by simpa using h

/-- The new inode stays in hand, or both are given back. -/
lemma createLink_bal (dp ip : Ino) (name : Name) (type : BitVec 16) :
    Triple Tolerated (Bal P (T + tally (some dp) + tally (some ip)) F) (createLink dp ip name type)
      fun r => Bal P (T + tally r) F := by
  have hboth : 0 ≤ T + tally (some dp) + tally (some ip) :=
    add_nonneg (add_nonneg hT (tally_nonneg _)) (tally_nonneg _)
  have hdone : Triple Tolerated (Bal P (T + tally (some dp) + tally (some ip)) F)
      (do iunlockput dp; return some ip) fun r => Bal P (T + tally r) F := by
    rw [add_right_comm]
    exact (iunlockput_bal (add_nonneg hT (tally_nonneg _))).bind fun _ => .pure fun _ h => h
  have hlink : Triple Tolerated (Bal P (T + tally (some dp) + tally (some ip)) F)
      (do
        if (← dirlink dp name (← inode ip).inum) < 0 then return ← createFail dp ip
        if type = T_DIR then incLink dp
        iunlockput dp
        return some ip) fun r => Bal P (T + tally r) F := by
    refine inode_bind fun x => (dirlink_bal hboth _ _ _).bind fun r => ?_
    refine .ite (fun _ => createFail_bal hT dp ip) fun _ => ?_
    exact .ite (fun _ => incLink_bal.bind fun _ => hdone) fun _ => hdone
  refine .ite (fun _ => ?_) fun _ => hlink
  refine inode_bind fun x => (dirlink_bal hboth _ _ _).bind fun r => ?_
  refine .ite (fun _ => createFail_bal hT dp ip) fun _ => ?_
  refine inode_bind fun x => (dirlink_bal hboth _ _ _).bind fun r => ?_
  exact .ite (fun _ => createFail_bal hT dp ip) fun _ => hlink

lemma createExists_bal (dp ip : Ino) (type : BitVec 16) :
    Triple Tolerated (Bal P (T + tally (some dp) + tally (some ip)) F) (createExists dp ip type)
      fun r => Bal P (T + tally r) F := by
  rw [add_right_comm]
  refine (iunlockput_bal (add_nonneg hT (tally_nonneg _))).bind fun _ => ilock_bal.bind fun _ => ?_
  refine inode_bind fun x => .ite (fun _ => .pure fun _ h => h) fun _ => ?_
  exact (iunlockput_bal hT).bind fun _ => .pure fun _ h => by simpa using h

/-- `create` hands out a reference to the inode it returns. -/
lemma create_bal (p : Slot) (path : List UInt8) (type major minor : BitVec 16) :
    Triple Tolerated (Bal P T F) (create p path type major minor)
      fun r => Bal P (T + tally r) F := by
  refine bind_option (nameiparent_bal hT p _) (.pure fun _ h => by simpa using h) fun x => ?_
  refine ilock_bal.bind fun _ => bind_option (dirlookup_bal x.1 x.2) ?_ fun y => ?_
  · refine bind_option (g := id) (by simpa using ialloc_bal type) ?_ fun ip => ?_
    · exact (iunlockput_bal hT).bind fun _ => .pure fun _ h => by simpa using h
    · refine ilock_bal.bind fun _ => (modifyDin_bal _).bind fun _ => iupdate_bal.bind fun _ => ?_
      exact createLink_bal hT x.1 ip x.2 type
  · exact createExists_bal hT x.1 y.1 type

lemma openInode_bal (p : Slot) (path : List UInt8) (omode : BitVec 32) :
    Triple Tolerated (Bal P T F) (openInode p path omode) fun r => Bal P (T + tally r) F := by
  refine .ite (fun _ => create_bal hT p path _ _ _) fun _ => ?_
  refine bind_option (g := id) (by simpa using namei_bal hT p path)
    (.pure fun _ h => by simpa using h) fun ip => ilock_bal.bind fun _ => inode_bind fun x => ?_
  refine .ite (fun _ => ?_) fun _ => .pure fun _ h => h
  exact (iunlockput_bal hT).bind fun _ => .pure fun _ h => by simpa using h

lemma sysMkdir_bal (p : Slot) (path : ℕ → Option UInt8) :
    Triple Tolerated (Bal P T F) (sysMkdir p path) fun _ => Bal P T F := by
  unfold sysMkdir
  split
  · exact .skip
  · refine bind_option (g := id) (by simpa using create_bal hT p _ _ _ _) (.skip)
      fun ip => ?_
    exact (iunlockput_bal hT).bind fun _ => .skip

lemma sysMknod_bal (p : Slot) (path : ℕ → Option UInt8) (major minor : BitVec 32) :
    Triple Tolerated (Bal P T F) (sysMknod p path major minor) fun _ => Bal P T F := by
  unfold sysMknod
  split
  · exact .skip
  · refine bind_option (g := id) (by simpa using create_bal hT p _ _ _ _) (.skip)
      fun ip => ?_
    exact (iunlockput_bal hT).bind fun _ => .skip

lemma execFs_bal (p : Slot) (path : ℕ → Option UInt8) (reads : List (BitVec 32 × BitVec 32))
    (r : ℤ) : Triple Tolerated (Bal P T F) (execFs p path reads r) fun _ => Bal P T F := by
  unfold execFs
  split
  · exact .skip
  · refine bind_option (g := id) (by simpa using namei_bal hT p _) (.skip) fun ip => ?_
    refine ilock_bal.bind fun _ => ?_
    refine .bind (Q := fun _ => Bal P (T + tally (some ip)) F)
      (.forM_inv fun x => (readi_bal _ x.1.toNat x.2.toNat).bind fun _ => .skip)
      fun _ => ?_
    exact (iunlockput_bal hT).bind fun _ => .skip

end Balance

end Xv6.Fs
