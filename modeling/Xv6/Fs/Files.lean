import Xv6.Fs.Refs

/-!
# Reference counts of the file table, and all counts over whole runs

The file system calls of `kernel/sysfile.c`, with the parts of `fork`, `exec` and `exit`
that concern files. Each call, however it ends, leaves every count equal to the number of
references that processes and files hold.
-/

namespace Xv6.Fs

open Xv6.Lib
open Xv6.Process (Slot Stop)
open Function (update update_of_ne update_self update_eq_self)

variable {P : Slot → Proc} {T : Ino → ℤ} {F : FileNo → ℤ} {s s' : State} {α β : Type} {p : Slot}
  {f : FileNo} {fd : Fin NOFILE} {g : File → File}

/-! ## Changes of the two tables -/

lemma targets_update (ft : FileNo → File) (f : FileNo) (x : File) :
    targets (update ft f x) = update (targets ft) f x.target := by
  funext f'
  by_cases hf : f' = f
  · subst hf
    simp [targets]
  · simp [targets, hf]

/-- The process table after `p->ofile[fd] = o`. -/
def withOfile (P : Slot → Proc) (p : Slot) (fd : Fin NOFILE) (o : Option FileNo) : Slot → Proc :=
  update P p { P p with ofile := update (P p).ofile fd o }

/-- The process table after `p->cwd = o`. -/
def withCwd (P : Slot → Proc) (p : Slot) (o : Option Ino) : Slot → Proc :=
  update P p { P p with cwd := o }

/-- Only one descriptor changes. -/
lemma ofiles_withOfile (P : Slot → Proc) (p : Slot) (fd : Fin NOFILE) (o : Option FileNo) :
    ofiles (withOfile P p fd o) = update (ofiles P) (p, fd) o := by
  funext x
  obtain ⟨q, fd'⟩ := x
  by_cases hq : q = p
  · subst hq
    by_cases hfd : fd' = fd
    · subst hfd
      simp [ofiles, withOfile]
    · simp [ofiles, withOfile, hfd]
  · simp [ofiles, withOfile, hq]

@[simp] lemma cwds_withOfile (P : Slot → Proc) (p : Slot) (fd : Fin NOFILE) (o : Option FileNo) :
    cwds (withOfile P p fd o) = cwds P := by
  funext q
  by_cases hq : q = p
  · subst hq
    simp [cwds, withOfile]
  · simp [cwds, withOfile, hq]

lemma cwds_withCwd (P : Slot → Proc) (p : Slot) (o : Option Ino) :
    cwds (withCwd P p o) = update (cwds P) p o := by
  funext q
  by_cases hq : q = p
  · subst hq
    simp [cwds, withCwd]
  · simp [cwds, withCwd, hq]

@[simp] lemma ofiles_withCwd (P : Slot → Proc) (p : Slot) (o : Option Ino) :
    ofiles (withCwd P p o) = ofiles P := by
  funext x
  by_cases hq : x.1 = p
  · subst hq
    simp [ofiles, withCwd]
  · simp [ofiles, withCwd, hq]

/-- Entry `f` of the file table changes: its count by `k`, and what it refers to. -/
lemma Bal.file (h : Bal P T F s) {k : ℤ} (hk : ((g (s.ftable f)).ref : ℤ) = (s.ftable f).ref + k)
    (hfree : (g (s.ftable f)).ref = 0 → (g (s.ftable f)).type = .none) {T' : Ino → ℤ}
    (hT : T' = T + tally (s.ftable f).target - tally (g (s.ftable f)).target) {F' : FileNo → ℤ}
    (hF : F' = F + fun f' => k * tally (some f) f') : Bal P T' F' (s.setFile f g) := by
  refine ⟨h.proc, fun e => ?_, fun f' => ?_, fun f' => ?_⟩
  · have := h.inodes e
    have hup := refs_update (targets s.ftable) f (g (s.ftable f)).target e
    show ((s.itable e).ref : ℤ) = _ + (refs (targets (update s.ftable f _)) e : ℤ) + _
    rw [targets_update, hup, hT, this]
    simp only [Pi.add_apply, Pi.sub_apply, targets]
    omega
  · have := h.files f'
    show (((update s.ftable f (g (s.ftable f)) f').ref : ℕ) : ℤ) = _
    rw [hF]
    by_cases hf : f' = f
    · subst hf
      rw [update_self, hk, this]
      simp only [Pi.add_apply, tally_self]
      omega
    · rw [update_of_ne hf, this]
      simp [tally, Ne.symm hf]
  · show (update s.ftable f (g (s.ftable f)) f').ref = 0 →
      (update s.ftable f (g (s.ftable f)) f').type = .none
    by_cases hf : f' = f
    · subst hf
      rw [update_self]
      exact hfree
    · rw [update_of_ne hf]
      exact h.free f'

/-- A descriptor that changes moves a reference to a file. -/
lemma Bal.ofile (h : Bal P T F s) (p : Slot) (fd : Fin NOFILE) (o : Option FileNo) :
    Bal (withOfile P p fd o) T (F + tally ((P p).ofile fd) - tally o)
      (s.setProc p fun x => { x with ofile := update x.ofile fd o }) := by
  refine ⟨?_, ?_, fun f => ?_, h.free⟩
  · simp only [State.setProc, withOfile, h.proc]
  · simpa [State.setProc] using h.inodes
  · have hup := refs_update (ofiles P) (p, fd) o f
    show ((s.ftable f).ref : ℤ) = _
    rw [h.files f, ofiles_withOfile, hup]
    simp only [Pi.add_apply, Pi.sub_apply, ofiles]
    omega

/-- A current directory that changes moves a reference to an inode. -/
lemma Bal.cwd (h : Bal P T F s) (p : Slot) (o : Option Ino) :
    Bal (withCwd P p o) (T + tally (P p).cwd - tally o) F
      (s.setProc p fun x => { x with cwd := o }) := by
  refine ⟨?_, fun e => ?_, ?_, h.free⟩
  · simp only [State.setProc, withCwd, h.proc]
  · have hup := refs_update (cwds P) p o e
    show ((s.itable e).ref : ℤ) = _ + (refs (targets s.ftable) e : ℤ) + _
    rw [h.inodes e, cwds_withCwd, hup]
    simp only [Pi.add_apply, Pi.sub_apply, cwds]
    omega
  · simpa [State.setProc] using h.files

/-! ## Files -/

lemma file_bind {R : State → Prop} {Q : β → State → Prop} {k : File → FsM β}
    (h : ∀ s, R s → Triple Tolerated (· = s) (k (s.ftable f)) Q) :
    Triple Tolerated R (file f >>= k) Q := .of_run fun s hs => (h s hs).run rfl

/-- A file that is referred to has a count, so `filedup` and `fileclose` do not panic. -/
lemma Bal.count_pos (h : Bal P T F s) (hf : 1 ≤ refs (ofiles P) f + F f) :
    1 ≤ (s.ftable f).ref := by
  have := h.files f
  omega

/-- Assignments to fields that neither count nor refer to anything. -/
lemma modifyFile_bal (hg : ∀ x, (g x).ref = x.ref ∧ (g x).type = x.type ∧ (g x).ip = x.ip) :
    Triple Tolerated (Bal P T F) (modifyFile f g) fun _ => Bal P T F := by
  refine .modify fun s h => h.file (k := 0) ?_ ?_ ?_ ?_
  · simp [hg]
  · rw [(hg _).1, (hg _).2.1]
    exact h.free f
  · have htarget : (g (s.ftable f)).target = (s.ftable f).target := by
      simp [File.target, hg]
    simp [htarget]
  · funext f'
    simp

/-- `filealloc` returns a file that refers to nothing, and no reference changes. -/
lemma filealloc_bal (G : (FileNo → Option Ino) → Prop) :
    Triple Tolerated (fun s => Bal P T F s ∧ G (targets s.ftable)) filealloc fun r s =>
      Bal P T (F + tally r) s ∧ (∀ f, r = some f → targets s.ftable f = none) ∧
        G (targets s.ftable) := by
  refine .get_bind fun s h => ?_
  obtain ⟨h, hG⟩ := h
  split
  case h_1 f hfind =>
    have hf : (s.ftable f).ref = 0 := by simpa using List.find?_some hfind
    have htarget : (s.ftable f).target = none := by simp [File.target, h.free f hf]
    have hsame : targets (s.setFile f fun x => { x with ref := 1 }).ftable = targets s.ftable := by
      show targets (update s.ftable f _) = _
      rw [targets_update]
      exact update_eq_self ..
    refine .bind (Q := fun _ s' => Bal P T (F + tally (some f)) s' ∧
      targets s'.ftable = targets s.ftable) (.modify ?_) fun _ => .pure fun s' hs => ?_
    · rintro _ rfl
      exact ⟨h.file (k := 1) (by simp [hf]) (by simp) (by simp [File.target]) (by simp), hsame⟩
    · rw [hs.2]
      exact ⟨hs.1, by rintro _ ⟨⟩; exact htarget, hG⟩
  case h_2 =>
    refine .pure ?_
    rintro _ rfl
    exact ⟨by simpa using h, by simp, hG⟩

/-- `filedup` hands out a reference. -/
lemma filedup_bal (hf : 1 ≤ refs (ofiles P) f + F f) :
    Triple Tolerated (Bal P T F) (filedup f) fun _ => Bal P T (F + tally (some f)) := by
  refine file_bind fun s h => ?_
  have hpos := h.count_pos hf
  refine .ite (fun hlt => absurd hlt (by omega)) fun _ => .modify ?_
  rintro _ rfl
  exact h.file (k := 1) (by simp) (by simp) (by simp [File.target]) (by simp)

/-- `fileclose` takes a reference back, and with the last one the one to the inode. -/
lemma fileclose_bal (hT : 0 ≤ T) (hf : 1 ≤ refs (ofiles P) f + F f) :
    Triple Tolerated (Bal P T F) (fileclose f) fun _ => Bal P T (F - tally (some f)) := by
  refine file_bind fun s h => ?_
  have hpos := h.count_pos hf
  refine .ite (fun hlt => absurd hlt (by omega)) fun _ => .ite (fun hmore => ?_) fun hlast => ?_
  · refine .modify ?_
    rintro _ rfl
    refine h.file (k := -1) ?_ ?_ (by simp [File.target]) ?_
    · dsimp only
      omega
    · dsimp only
      omega
    · funext f'
      simp [sub_eq_add_neg]
  · -- the last reference: what the file refers to is in hand now
    have hclose : Triple Tolerated (· = s)
        (modifyFile f fun x => { x with ref := 0, type := .none })
        fun _ => Bal P (T + tally (s.ftable f).target) (F - tally (some f)) := by
      refine .modify ?_
      rintro _ rfl
      refine h.file (k := -1) ?_ (by simp) ?_ ?_
      · dsimp only
        omega
      · simp [File.target]
      · funext f'
        simp [sub_eq_add_neg]
    refine hclose.bind fun _ => ?_
    cases htype : (s.ftable f).type with
    | inode => simpa [File.target, htype] using iput_bal hT
    | device => simpa [File.target, htype] using iput_bal hT
    | pipe => exact .pure fun _ hs => by simpa [File.target, htype] using hs
    | none => exact .pure fun _ hs => by simpa [File.target, htype] using hs

lemma fileread_bal (dst : ℕ → Bool) (n : BitVec 32) (ext : ℤ) :
    Triple Tolerated (Bal P T F) (fileread f dst n ext) fun _ => Bal P T F := by
  refine file_bind fun s h => .pre (P := Bal P T F) ?_ fun _ hs => hs ▸ h
  generalize s.ftable f = ff
  refine .ite (fun _ => .skip) fun _ => ?_
  split
  case h_1 => exact .skip
  case h_2 => exact .skip
  case h_3 =>
    refine ilock_bal.bind fun _ => (readi_bal dst _ _).bind fun r => ?_
    have hend : Triple Tolerated (Bal P T F) (do iunlock ff.ip; return (r.1, r.2))
        fun _ => Bal P T F :=
      iunlock_bal.bind fun _ => .skip
    refine .ite (fun _ => ?_) fun _ => hend
    exact .bind (Q := fun _ => Bal P T F) (modifyFile_bal fun _ => ⟨rfl, rfl, rfl⟩) fun _ => hend
  case h_4 => exact .throw (by simp [Tolerated])

lemma writeTx_bal (e : Ino) (src : ℕ → Option UInt8) (off n : ℕ) :
    Triple Tolerated (Bal P T F) (writeTx e src off n) fun _ => Bal P T F :=
  .bind (Q := fun _ => Bal P T F) (.modify fun _ h => h.same rfl rfl fun _ => rfl) fun _ =>
    writei_bal ..

lemma filewriteLoop_bal (src : ℕ → Option UInt8) (n fuel : ℕ) :
    ∀ i, Triple Tolerated (Bal P T F) (filewriteLoop f src n fuel i) fun _ => Bal P T F := by
  induction fuel with
  | zero => exact fun _ => .skip
  | succ fuel ih =>
    intro i
    refine .ite (fun _ => ?_) fun _ => .skip
    refine file_bind fun s h => .pre (P := Bal P T F) ?_ fun _ hs => hs ▸ h
    generalize s.ftable f = ff
    refine ilock_bal.bind fun _ => (writeTx_bal _ _ _ _).bind fun r => ?_
    have hend : Triple Tolerated (Bal P T F)
        (do
          iunlock ff.ip
          if r ≠ (min (n - i) maxWrite : ℕ) then return i
          filewriteLoop f src n fuel (i + min (n - i) maxWrite)) fun _ => Bal P T F :=
      iunlock_bal.bind fun _ => .ite (fun _ => .skip) fun _ => ih _
    refine .ite (fun _ => ?_) fun _ => hend
    exact .bind (Q := fun _ => Bal P T F) (modifyFile_bal fun _ => ⟨rfl, rfl, rfl⟩) fun _ => hend

lemma filewrite_bal (src : ℕ → Option UInt8) (n : BitVec 32) (ext : ℤ) :
    Triple Tolerated (Bal P T F) (filewrite f src n ext) fun _ => Bal P T F := by
  refine file_bind fun s h => .pre (P := Bal P T F) ?_ fun _ hs => hs ▸ h
  generalize s.ftable f = ff
  refine .ite (fun _ => .skip) fun _ => ?_
  split
  case h_1 => exact .skip
  case h_2 => exact .skip
  case h_3 => exact (filewriteLoop_bal src _ _ _).bind fun _ => .skip
  case h_4 => exact .throw (by simp [Tolerated])

/-! ## File descriptors -/

lemma setOfile_bal (o : Option FileNo) :
    Triple Tolerated (Bal P T F) (setOfile p fd o)
      fun _ => Bal (withOfile P p fd o) T (F + tally ((P p).ofile fd) - tally o) :=
  .modify fun _ h => h.ofile p fd o

lemma setCwd_bal (o : Option Ino) :
    Triple Tolerated (Bal P T F) (setCwd p o)
      fun _ => Bal (withCwd P p o) (T + tally (P p).cwd - tally o) F :=
  .modify fun _ h => h.cwd p o

lemma argfd_bal (fd : BitVec 32) :
    Triple Tolerated (Bal P T F) (argfd p fd)
      fun r s => (∀ x, r = some x → (P p).ofile x.1 = some x.2) ∧ Bal P T F s := by
  refine .read_bind fun s h => .pure fun s' h' => ⟨?_, h'⟩
  intro x hx
  split at hx
  case isTrue hlt =>
    rw [Option.map_eq_some_iff] at hx
    obtain ⟨f, hf, rfl⟩ := hx
    rw [h.proc] at hf
    exact hf
  case isFalse => cases hx

/-- `fdalloc` moves a reference in hand to a free slot of the open file table. -/
lemma fdalloc_bal (p : Slot) (f : FileNo) (G : (FileNo → File) → Prop) :
    Triple Tolerated (fun s => Bal P T F s ∧ G s.ftable) (fdalloc p f) fun r s =>
      (match r with
        | none => Bal P T F s
        | some fd => (P p).ofile fd = none ∧
            Bal (withOfile P p fd (some f)) T (F - tally (some f)) s) ∧ G s.ftable := by
  refine .get_bind fun s h => ?_
  split
  case h_1 fd hfind =>
    have hfd : (P p).ofile fd = none := by
      rw [← h.1.proc]
      simpa using List.find?_some hfind
    refine .bind (Q := fun _ s => Bal (withOfile P p fd (some f)) T (F - tally (some f)) s ∧
      G s.ftable) (.modify ?_) fun _ => .pure fun s hs => ⟨⟨hfd, hs.1⟩, hs.2⟩
    rintro _ rfl
    exact ⟨by simpa [hfd] using h.1.ofile p fd (some f), h.2⟩
  case h_2 =>
    refine .pure ?_
    rintro _ rfl
    exact h

/-- The new slot of `fdalloc` counts. -/
lemma refs_withOfile_pos (P : Slot → Proc) (p : Slot) (fd : Fin NOFILE) (f : FileNo) :
    1 ≤ refs (ofiles (withOfile P p fd (some f))) f := by
  apply refs_pos (a := (p, fd))
  rw [ofiles_withOfile, update_self]

/-- `openFd` returns a new file that refers to nothing and is in the open file table. -/
lemma openFd_bal (hT : 0 ≤ T) (p : Slot) :
    Triple Tolerated (Bal P T 0) (openFd p) fun r s =>
      match r with
      | none => Bal P T 0 s
      | some (f, fd) => Bal (withOfile P p fd (some f)) T 0 s ∧ targets s.ftable f = none := by
  refine .bind ((filealloc_bal fun _ => True).pre fun _ h => ⟨h, trivial⟩) fun r => ?_
  cases r with
  | none => exact .pure fun s h => by simpa using h.1
  | some f =>
    refine .bind ((fdalloc_bal p f fun ft => targets ft f = none).pre
      fun _ h => ⟨h.1, h.2.1 f rfl⟩) fun r => ?_
    cases r with
    | none =>
      refine .bind ((fileclose_bal hT (f := f) (by simp)).pre fun _ h => h.1) fun _ => ?_
      exact .pure fun s h => by simpa using h
    | some fd => exact .pure fun s h => ⟨by simpa using h.1.2, h.2⟩

/-- The new file of `sys_open` takes over the reference to the inode. -/
lemma openFile_bal (ip : Ino) (omode : BitVec 32) (hf : 1 ≤ refs (ofiles P) f + F f) :
    Triple Tolerated (fun s => Bal P (T + tally (some ip)) F s ∧ targets s.ftable f = none)
      (openFile f ip omode) fun _ => Bal P T F := by
  refine inode_bind fun x => .modify fun s h => ?_
  obtain ⟨hbal, htarget⟩ := h
  have hpos := hbal.count_pos hf
  have htarget : (s.ftable f).target = none := htarget
  refine hbal.file (k := 0) ?_ ?_ ?_ ?_
  · dsimp only
    split <;> simp
  · dsimp only
    split <;> intro h0 <;> dsimp only at h0 <;> omega
  · rw [htarget]
    dsimp only
    split <;> simp [File.target]
  · funext f'
    simp

/-- An end of a new pipe. -/
lemma pipeEnd_bal (r w : Bool) (G : (FileNo → Option Ino) → Prop)
    (hf : 1 ≤ refs (ofiles P) f + F f) :
    Triple Tolerated
      (fun s => Bal P T F s ∧ targets s.ftable f = none ∧ G (targets s.ftable))
      (modifyFile f fun x => { x with type := .pipe, readable := r, writable := w })
      fun _ s => Bal P T F s ∧ G (targets s.ftable) := by
  refine .modify fun s h => ?_
  obtain ⟨hbal, htarget, hG⟩ := h
  have hpos := hbal.count_pos hf
  have hnone : (s.ftable f).target = none := htarget
  constructor
  · refine hbal.file (k := 0) (by simp) ?_ ?_ ?_
    · dsimp only
      omega
    · rw [hnone]
      simp [File.target]
    · funext f'
      simp
  · have hsame : update (targets s.ftable) f none = targets s.ftable := by
      rw [← htarget]
      exact update_eq_self ..
    show G (targets (update s.ftable f _))
    rw [targets_update]
    exact hsame.symm ▸ hG

/-- The two ends of a pipe are closed. -/
lemma closeBoth_bal (rf wf : FileNo) :
    Triple Tolerated (Bal P 0 (tally (some rf) + tally (some wf)))
      (do fileclose rf; fileclose wf) fun _ => Bal P 0 0 := by
  have hnonneg := fun f f' : FileNo => tally_nonneg (some f) f'
  refine (fileclose_bal le_rfl ?_).bind fun _ => ?_
  · have := hnonneg wf rf
    simp only [Pi.add_apply, tally_self, Pi.zero_apply] at *
    omega
  · refine (fileclose_bal le_rfl ?_).post fun _ s h => ?_
    · simp
    · simpa using h

/-- `pipealloc` hands out two files, or none. -/
lemma pipealloc_bal (mem : Bool) :
    Triple Tolerated (Bal P 0 0) (pipealloc mem) fun r s =>
      match r with
      | none => Bal P 0 0 s
      | some (rf, wf) => Bal P 0 (tally (some rf) + tally (some wf)) s := by
  have hnonneg := fun f f' : FileNo => tally_nonneg (some f) f'
  refine .bind ((filealloc_bal fun _ => True).pre fun _ h => ⟨h, trivial⟩) fun r => ?_
  cases r with
  | none => exact .pure fun s h => by simpa using h.1
  | some f0 =>
    refine .bind ((filealloc_bal fun ts => ts f0 = none).pre
      fun _ h => ⟨h.1, h.2.1 f0 rfl⟩) fun r => ?_
    cases r with
    | none =>
      refine .bind ((fileclose_bal le_rfl (f := f0) (F := 0 + tally (some f0)) (by simp)).pre
        fun _ h => by simpa using h.1) fun _ => ?_
      exact .pure fun s h => by simpa using h
    | some f1 =>
      have h0 := hnonneg f0 f1
      have h1 := hnonneg f1 f0
      simp only [Pi.zero_apply] at h0 h1
      refine .ite (fun _ => ?_) fun _ => ?_
      · refine .bind (Q := fun _ s => Bal P 0 (tally (some f0) + tally (some f1)) s ∧
          targets s.ftable f1 = none) ?_ fun _ => ?_
        · refine .pre (pipeEnd_bal true false (fun ts => ts f1 = none) ?_)
            fun s h => ⟨by simpa using h.1, h.2.2, h.2.1 f1 rfl⟩
          simp only [Pi.add_apply, tally_self]
          omega
        · refine .bind (Q := fun _ => Bal P 0 (tally (some f0) + tally (some f1))) ?_
            fun _ => .pure fun _ h => h
          refine .conseq (pipeEnd_bal false true (fun _ => True) ?_)
            (fun s h => ⟨h.1, h.2, trivial⟩) fun _ s h => h.1
          simp only [Pi.add_apply, tally_self]
          omega
      · have hclose := (closeBoth_bal (P := P) f0 f1).bind (f := fun _ => pure none)
          (R := fun (r : Option (FileNo × FileNo)) s => match r with
            | none => Bal P 0 0 s
            | some (rf, wf) => Bal P 0 (tally (some rf) + tally (some wf)) s)
          fun _ => .pure fun _ h => h
        rw [bind_assoc] at hclose
        exact hclose.pre fun s h => by simpa using h.1

/-! ## System calls -/

/-- A slot of the process table that is not in use has no open files. -/
def Idle (P : Slot → Proc) : Prop := ∀ p, (P p).cwd = none → ∀ fd, (P p).ofile fd = none

/-- Between two calls nothing is in hand. -/
def Quiet (s : State) : Prop := ∃ P, Idle P ∧ Bal P 0 0 s

lemma Idle.withOfile (h : Idle P) (hp : (P p).cwd ≠ none) (fd : Fin NOFILE) (o : Option FileNo) :
    Idle (withOfile P p fd o) := by
  intro q hq
  by_cases hqp : q = p
  · subst hqp
    exact absurd (by simpa [Fs.withOfile] using hq) hp
  · simp only [Fs.withOfile, update_of_ne hqp] at hq ⊢
    exact h q hq

lemma withOfile_cwd (P : Slot → Proc) (p : Slot) (fd : Fin NOFILE) (o : Option FileNo) (q : Slot) :
    (withOfile P p fd o q).cwd = (P q).cwd :=
  congrFun (cwds_withOfile P p fd o) q

lemma withOfile_self (P : Slot → Proc) (p : Slot) (fd : Fin NOFILE) (o : Option FileNo) :
    (withOfile P p fd o p).ofile fd = o := by
  simp [withOfile]

lemma withOfile_other (P : Slot → Proc) (p : Slot) {fd' : Fin NOFILE} (h : fd' ≠ fd)
    (o : Option FileNo) : (withOfile P p fd o p).ofile fd' = (P p).ofile fd' := by
  simp [withOfile, h]

lemma sysDup_quiet (hP : Idle P) (hp : (P p).cwd ≠ none) (fd : BitVec 32) :
    Triple Tolerated (Bal P 0 0) (sysDup p fd) fun _ => Quiet := by
  refine (argfd_bal fd).bind fun r => .assume fun hr => ?_
  cases r with
  | none => exact .pure fun _ h => ⟨P, hP, h⟩
  | some x =>
    obtain ⟨fd, f⟩ := x
    have hfd : (P p).ofile fd = some f := hr _ rfl
    refine .bind ((fdalloc_bal p f fun _ => True).pre fun _ h => ⟨h, trivial⟩) fun r => ?_
    cases r with
    | none => exact .pure fun _ h => ⟨P, hP, h.1⟩
    | some fd' =>
      refine .pre (.assume fun hfree => ?_) fun _ h => h.1
      have hne : fd ≠ fd' := by
        rintro rfl
        rw [hfd] at hfree
        cases hfree
      -- the old descriptor and the new one
      have htwo : 2 ≤ refs (ofiles (withOfile P p fd' (some f))) f := by
        apply two_le_refs (a := (p, fd)) (b := (p, fd')) (by simpa using hne)
        · exact (withOfile_other P p hne _).trans hfd
        · exact withOfile_self ..
      refine (filedup_bal ?_).bind fun _ => .pure fun s h => ?_
      · simp only [Pi.sub_apply, Pi.zero_apply, tally_self]
        omega
      · exact ⟨_, hP.withOfile hp fd' _, by simpa using h⟩

lemma sysClose_quiet (hP : Idle P) (hp : (P p).cwd ≠ none) (fd : BitVec 32) :
    Triple Tolerated (Bal P 0 0) (sysClose p fd) fun _ => Quiet := by
  refine (argfd_bal fd).bind fun r => .assume fun hr => ?_
  cases r with
  | none => exact .pure fun _ h => ⟨P, hP, h⟩
  | some x =>
    obtain ⟨fd, f⟩ := x
    have hfd : (P p).ofile fd = some f := hr _ rfl
    refine (setOfile_bal none).bind fun _ => ?_
    rw [hfd]
    refine (fileclose_bal le_rfl ?_).bind fun _ => .pure fun s h => ?_
    · simp
    · exact ⟨_, hP.withOfile hp fd _, by simpa using h⟩

/-- `open` keeps the reference to the inode in the new file, or gives it back. -/
lemma sysOpen_quiet (hP : Idle P) (hp : (P p).cwd ≠ none) (path : ℕ → Option UInt8)
    (omode : BitVec 32) : Triple Tolerated (Bal P 0 0) (sysOpen p path omode) fun _ => Quiet := by
  unfold sysOpen
  split
  case h_1 => exact .pure fun _ h => ⟨P, hP, h⟩
  case h_2 path _ =>
    refine bind_option (g := id) (by simpa using openInode_bal le_rfl p path omode)
      (.pure fun _ h => ⟨P, hP, h⟩) fun ip => ?_
    unfold openLocked
    have hip : (0 : Ino → ℤ) ≤ 0 + tally (some ip) := add_nonneg le_rfl (tally_nonneg _)
    have hfail : Triple Tolerated (Bal P (0 + tally (some ip)) 0)
        (do iunlockput ip; return (-1 : ℤ)) fun _ => Quiet :=
      (iunlockput_bal le_rfl).bind fun _ => .pure fun _ h => ⟨P, hP, h⟩
    refine inode_bind fun x => .ite (fun _ => hfail) fun _ => (openFd_bal hip p).bind fun r => ?_
    cases r with
    | none => exact hfail
    | some y =>
      obtain ⟨f, fd⟩ := y
      refine .bind (openFile_bal ip omode ?_) fun _ => ?_
      · have := refs_withOfile_pos P p fd f
        simp only [Pi.zero_apply]
        omega
      · have hend : Triple Tolerated (Bal (withOfile P p fd (some f)) 0 0)
            (do iunlock ip; return (fd.val : ℤ)) fun _ => Quiet :=
          iunlock_bal.bind fun _ => .pure fun s h => ⟨_, hP.withOfile hp fd _, h⟩
        exact .ite (fun _ => itrunc_bal.bind fun _ => hend) fun _ => hend

/-- The directory that a process leaves is counted until `p->cwd` is assigned. -/
lemma iput_cwd (hT : 0 ≤ T) {old : Ino} (hold : (P p).cwd = some old) :
    Triple Tolerated (Bal P T F) (iput old) fun _ => Bal P (T - tally (some old)) F := by
  refine iput_counted fun s h => ?_
  have hpos : 1 ≤ refs (cwds P) old := refs_pos (a := p) hold
  have := h.inodes old
  have := hT old
  simp only [Pi.zero_apply] at this
  omega

lemma sysChdir_quiet (hP : Idle P) (path : ℕ → Option UInt8) :
    Triple Tolerated (Bal P 0 0) (sysChdir p path) fun _ => Quiet := by
  unfold sysChdir
  split
  case h_1 => exact .pure fun _ h => ⟨P, hP, h⟩
  case h_2 path _ =>
    refine bind_option (g := id) (by simpa using namei_bal le_rfl p path)
      (.pure fun _ h => ⟨P, hP, h⟩) fun ip => ?_
    refine ilock_bal.bind fun _ => inode_bind fun x => .ite (fun _ => ?_) fun _ => ?_
    · exact (iunlockput_bal le_rfl).bind fun _ => .pure fun _ h => ⟨P, hP, h⟩
    · refine iunlock_bal.bind fun _ => .read_bind fun s h => ?_
      split
      case h_2 => exact .throw_bind (by simp [Tolerated])
      case h_1 old hold =>
        rw [h.proc] at hold
        refine (iput_cwd (add_nonneg le_rfl (tally_nonneg _)) hold).bind fun _ => ?_
        refine (setCwd_bal (some ip)).bind fun _ => .pure fun s h =>
          ⟨_, ?_, by simpa [hold] using h⟩
        intro q hq
        by_cases hqp : q = p
        · subst hqp
          simp [withCwd] at hq
        · simp only [withCwd, update_of_ne hqp] at hq ⊢
          exact hP q hq

/-- `pipe` keeps both files, or closes both on each of its exits. -/
lemma sysPipe_quiet (hP : Idle P) (hp : (P p).cwd ≠ none) (mem out : Bool) :
    Triple Tolerated (Bal P 0 0) (sysPipe p mem out) fun _ => Quiet := by
  have hclose : ∀ (P' : Slot → Proc) (rf wf : FileNo), Idle P' →
      Triple Tolerated (Bal P' 0 (tally (some rf) + tally (some wf)))
        (do fileclose rf; fileclose wf; return (-1 : ℤ)) fun _ => Quiet := by
    intro P' rf wf hP'
    have h := (closeBoth_bal (P := P') rf wf).bind (f := fun _ => pure (-1 : ℤ))
      (R := fun _ => Quiet) fun _ => .pure fun s h => ⟨P', hP', h⟩
    rwa [bind_assoc] at h
  refine (pipealloc_bal mem).bind fun r => ?_
  cases r with
  | none => exact .pure fun _ h => ⟨P, hP, h⟩
  | some x =>
    obtain ⟨rf, wf⟩ := x
    refine .bind ((fdalloc_bal p rf fun _ => True).pre fun _ h => ⟨h, trivial⟩) fun r => ?_
    cases r with
    | none => exact (hclose P rf wf hP).pre fun _ h => h.1
    | some fd0 =>
      have hP0 := hP.withOfile hp fd0 (some rf)
      have hp0 : (withOfile P p fd0 (some rf) p).cwd ≠ none := by rwa [withOfile_cwd]
      refine .bind ((fdalloc_bal p wf fun _ => True).pre fun _ h => ⟨h.1.2, trivial⟩) fun r => ?_
      cases r with
      | none =>
        refine .bind ((setOfile_bal none).pre fun _ h => h.1) fun _ => ?_
        rw [withOfile_self]
        refine (hclose _ rf wf (hP0.withOfile hp0 fd0 none)).pre fun s h => ?_
        simpa [add_comm] using h
      | some fd1 =>
        refine .pre (.assume fun hfree => ?_) fun _ h => h.1
        have hP1 := hP0.withOfile hp0 fd1 (some wf)
        have hp1 : (withOfile (withOfile P p fd0 (some rf)) p fd1 (some wf) p).cwd ≠ none := by
          rwa [withOfile_cwd]
        have hne : fd0 ≠ fd1 := by
          rintro rfl
          rw [withOfile_self] at hfree
          cases hfree
        refine .ite (fun _ => .pure fun s h => ⟨_, hP1, by simpa using h⟩) fun _ => ?_
        refine (setOfile_bal none).bind fun _ => (setOfile_bal none).bind fun _ => ?_
        rw [withOfile_other _ _ hne, withOfile_self, withOfile_other _ _ hne.symm, withOfile_self]
        have hP2 := hP1.withOfile hp1 fd0 none
        have hp2 : (withOfile (withOfile (withOfile P p fd0 (some rf)) p fd1 (some wf))
            p fd0 none p).cwd ≠ none := by rwa [withOfile_cwd]
        exact (hclose _ rf wf (hP2.withOfile hp2 fd1 none)).pre fun s h => by simpa using h

/-! ## Fork and exit -/

/-- The table of the process that `fork` fills, after some rounds of the loop. -/
def Filling (P : Slot → Proc) (np : Slot) (done : List (Fin NOFILE)) (P' : Slot → Proc) : Prop :=
  (∀ q, q ≠ np → P' q = P q) ∧ (P' np).cwd = none ∧ ∀ fd ∉ done, (P' np).ofile fd = none

/-- One round of the loop of `fork` over the descriptors. -/
lemma forkFile_bal {np : Slot} {done rest : List (Fin NOFILE)}
    (hl : List.finRange NOFILE = done ++ fd :: rest) :
    Triple Tolerated (fun s => ∃ P', Filling P np done P' ∧ Bal P' 0 0 s) (forkFile p np fd)
      fun _ s => ∃ P', Filling P np (done ++ [fd]) P' ∧ Bal P' 0 0 s := by
  have hfd : fd ∉ done := by
    have hnd := List.nodup_finRange NOFILE
    rw [hl, List.nodup_append] at hnd
    intro hmem
    exact hnd.2.2 fd hmem fd (by simp) rfl
  refine .exists_pre fun P' => .assume fun hfill => .read_bind fun s h => ?_
  obtain ⟨hother, hcwd, hrest⟩ := hfill
  rw [h.proc]
  split
  case h_1 f hf =>
    have hcount : 1 ≤ refs (ofiles P') f := refs_pos (a := (p, fd)) hf
    refine (filedup_bal (by simpa using hcount)).bind fun _ => (setOfile_bal (some f)).post
      fun _ s h => ⟨withOfile P' np fd (some f), ?_, ?_⟩
    · refine ⟨fun q hq => ?_, ?_, fun fd' hfd' => ?_⟩
      · rw [withOfile, update_of_ne hq]
        exact hother q hq
      · rwa [withOfile_cwd]
      · simp only [List.mem_append, List.mem_singleton, not_or] at hfd'
        rw [withOfile_other _ _ hfd'.2]
        exact hrest fd' hfd'.1
    · rw [hrest fd hfd] at h
      simpa using h
  case h_2 hf =>
    refine .pure fun s h => ⟨P', ⟨hother, hcwd, fun fd' hfd' => hrest fd' ?_⟩, h⟩
    simp only [List.mem_append, not_or] at hfd'
    exact hfd'.1

/-- `fork` has counted each file and the directory once more. -/
lemma forkFs_quiet (hP : Idle P) (np : Slot) (mem : Bool) :
    Triple Tolerated (Bal P 0 0) (forkFs p np mem) fun _ => Quiet := by
  refine .read_bind fun s h => .ite (fun _ => .throw_bind (by simp [Tolerated])) fun hnp => ?_
  rw [h.proc] at hnp
  have hnp : (P np).cwd = none := by simpa using hnp
  refine .ite (fun _ => .pure fun _ h => ⟨P, hP, h⟩) fun _ => ?_
  refine .bind ((Triple.forM (I := fun done s => ∃ P', Filling P np done P' ∧ Bal P' 0 0 s)
    fun done c rest hl => forkFile_bal hl).pre fun s h =>
      ⟨P, ⟨fun _ _ => rfl, hnp, fun fd _ => hP np hnp fd⟩, h⟩) fun _ => ?_
  refine .exists_pre fun P' => .assume fun hfill => .read_bind fun s h => ?_
  obtain ⟨hother, hcwd, -⟩ := hfill
  split
  case h_2 => exact .throw_bind (by simp [Tolerated])
  case h_1 ip _ =>
    refine (idup_bal ip).bind fun e => (setCwd_bal (some e)).bind fun _ => .pure fun s h => ?_
    rw [hcwd] at h
    refine ⟨_, fun q hq => ?_, by simpa using h⟩
    by_cases hqnp : q = np
    · subst hqnp
      simp [withCwd] at hq
    · simp only [withCwd, update_of_ne hqnp] at hq ⊢
      rw [hother q hqnp] at hq ⊢
      exact hP q hq

/-- The table of the process that `exit` clears, after some rounds of the loop. -/
def Clearing (P : Slot → Proc) (p : Slot) (done : List (Fin NOFILE)) (P' : Slot → Proc) : Prop :=
  (∀ q, q ≠ p → P' q = P q) ∧ ∀ fd ∈ done, (P' p).ofile fd = none

/-- One round of the loop of `exit` over the descriptors. -/
lemma exitFile_bal (done : List (Fin NOFILE)) :
    Triple Tolerated (fun s => ∃ P', Clearing P p done P' ∧ Bal P' 0 0 s) (exitFile p fd)
      fun _ s => ∃ P', Clearing P p (done ++ [fd]) P' ∧ Bal P' 0 0 s := by
  refine .exists_pre fun P' => .assume fun hclear => .read_bind fun s h => ?_
  obtain ⟨hother, hdone⟩ := hclear
  rw [h.proc]
  split
  case h_1 f hf =>
    have hcount : 1 ≤ refs (ofiles P') f := refs_pos (a := (p, fd)) hf
    refine (fileclose_bal le_rfl (by simpa using hcount)).bind fun _ => (setOfile_bal none).post
      fun _ s h => ⟨withOfile P' p fd none, ?_, ?_⟩
    · refine ⟨fun q hq => ?_, fun fd' hfd' => ?_⟩
      · rw [withOfile, update_of_ne hq]
        exact hother q hq
      · by_cases heq : fd' = fd
        · rw [heq, withOfile_self]
        · rw [withOfile_other _ _ heq]
          exact hdone fd' (by simpa [heq] using hfd')
    · rw [hf] at h
      simpa using h
  case h_2 hf =>
    refine .pure fun s h => ⟨P', ⟨hother, fun fd' hfd' => ?_⟩, h⟩
    by_cases heq : fd' = fd
    · rw [heq, hf]
    · exact hdone fd' (by simpa [heq] using hfd')

/-- `exit` has given back each file and the directory. -/
lemma exitFs_quiet (hP : Idle P) :
    Triple Tolerated (Bal P 0 0) (exitFs p) fun _ => Quiet := by
  refine .bind ((Triple.forM (I := fun done s => ∃ P', Clearing P p done P' ∧ Bal P' 0 0 s)
    fun done c rest hl => exitFile_bal done).pre fun s h =>
      ⟨P, ⟨fun _ _ => rfl, fun _ hfd => nomatch hfd⟩, h⟩) fun _ => ?_
  refine .exists_pre fun P' => .assume fun hclear => .read_bind fun s h => ?_
  obtain ⟨hother, hdone⟩ := hclear
  rw [h.proc]
  split
  case h_2 => exact .throw_bind (by simp [Tolerated])
  case h_1 ip hip =>
    refine (iput_cwd le_rfl hip).bind fun _ => (setCwd_bal none).bind fun _ => .pure fun s h => ?_
    rw [hip] at h
    refine ⟨_, fun q hq fd => ?_, by simpa using h⟩
    by_cases hqp : q = p
    · subst hqp
      simpa [withCwd] using hdone fd (List.mem_finRange fd)
    · simp only [withCwd, update_of_ne hqp] at hq ⊢
      rw [hother q hqp] at hq ⊢
      exact hP q hq fd

/-! ## Whole runs -/

lemma read_write_quiet (hP : Idle P) {m : FileNo → FsM ℤ} (fd : BitVec 32)
    (hm : ∀ f, Triple Tolerated (Bal P 0 0) (m f) fun _ => Bal P 0 0) :
    Triple Tolerated (Bal P 0 0) (do
      match ← argfd p fd with
      | none => return -1
      | some (_, f) => m f) fun _ => Quiet := by
  refine (argfd_bal fd).bind fun r => .assume fun _ => ?_
  cases r with
  | none => exact .pure fun _ h => ⟨P, hP, h⟩
  | some x => exact (hm x.2).post fun _ _ h => ⟨P, hP, h⟩

/-- No call keeps a reference in hand. -/
lemma code_quiet (hP : Idle P) (hp : (P p).cwd ≠ none) (c : Call) :
    Triple Tolerated (Bal P 0 0) (c.code p) fun _ => Quiet := by
  have hkeep : ∀ {m : FsM ℤ}, Triple Tolerated (Bal P 0 0) m (fun _ => Bal P 0 0) →
      Triple Tolerated (Bal P 0 0) m fun _ => Quiet := fun h => h.post fun _ _ h => ⟨P, hP, h⟩
  cases c with
  | dup fd => exact sysDup_quiet hP hp fd
  | read fd n dst ext => exact read_write_quiet hP fd fun f => .map (fileread_bal dst n ext)
  | write fd n src ext => exact read_write_quiet hP fd fun f => filewrite_bal src n ext
  | close fd => exact sysClose_quiet hP hp fd
  | link old new => exact hkeep (sysLink_bal le_rfl p old new)
  | unlink path => exact hkeep (sysUnlink_bal le_rfl p path)
  | «open» path omode => exact sysOpen_quiet hP hp path omode
  | mkdir path => exact hkeep (sysMkdir_bal le_rfl p path)
  | mknod path major minor => exact hkeep (sysMknod_bal le_rfl p path major minor)
  | chdir path => exact sysChdir_quiet hP path
  | pipe mem out => exact sysPipe_quiet hP hp mem out
  | fork child mem => exact forkFs_quiet hP child mem
  | exec path reads r => exact hkeep (execFs_bal le_rfl p path reads r)
  | exit => exact exitFs_quiet hP

lemma call_quiet (h : Quiet s) (p : Slot) (c : Call) :
    Post Tolerated (fun r => Quiet r.2) (call p c s) := by
  obtain ⟨P, hP, hbal⟩ := h
  refine Post.ite (fun hp => ?_) fun _ => by simp [Tolerated]
  rw [hbal.proc] at hp
  refine (code_quiet hP (fun hnone => ?_) c).run hbal
  rw [hnone] at hp
  cases hp

lemma boot_quiet (d : Disk) : Quiet (boot d) := by
  refine ⟨(boot d).proc, fun p _ fd => ?_, rfl, fun e => ?_, fun f => ?_, fun _ _ => rfl⟩
  · by_cases hp : p = 0
    · subst hp
      rfl
    · simp [boot, hp]
  · have hcwds : cwds (boot d).proc = update (fun _ => none) 0 (some 0) := by
      funext p
      by_cases hp : p = 0
      · subst hp
        rfl
      · simp [cwds, boot, hp]
    have htargets : targets (boot d).ftable = fun _ => none := rfl
    rw [hcwds, htargets, refs_update]
    by_cases he : e = 0
    · subst he
      simp [boot]
    · simp [boot, he, Inode.zero, tally, Ne.symm he]
  · have hofiles : ofiles (boot d).proc = fun _ => none := by
      funext x
      by_cases hp : x.1 = 0
      · simp [ofiles, boot, hp]
      · simp [ofiles, boot, hp]
    rw [hofiles]
    simp [boot, File.zero]

/-- The counts of both tables are exact. -/
structure ExactRefs (s : State) : Prop where
  /-- A file is counted once for each descriptor. -/
  file_ref : ∀ f, (s.ftable f).ref = refs (ofiles s.proc) f
  file_free : ∀ f, (s.ftable f).ref = 0 → (s.ftable f).type = .none
  /-- An inode is counted once for each file and each current directory. -/
  inode_ref : ∀ e, (s.itable e).ref = refs (targets s.ftable) e + refs (cwds s.proc) e

/-- If nothing is in hand, the counts are those of the tables. -/
lemma Quiet.exactRefs (h : Quiet s) : ExactRefs s := by
  obtain ⟨P, -, hbal⟩ := h
  refine ⟨fun f => ?_, hbal.free, fun e => ?_⟩
  · have := hbal.files f
    rw [hbal.proc]
    simp only [Pi.zero_apply] at this
    omega
  · have := hbal.inodes e
    rw [hbal.proc]
    simp only [Pi.zero_apply] at this
    omega

/-- Between any two calls all reference counts are exact, and no call panics in `filedup` or
`fileclose`. -/
theorem exact_refs {d : Disk} (hs : Reachable d s) :
    ExactRefs s ∧ ∀ p c, call p c s ≠ .error (.panic "filedup") ∧
      call p c s ≠ .error (.panic "fileclose") := by
  have hquiet : Quiet s := by
    refine preserved (fun s s' h hnext => ?_) (boot_quiet d) hs
    obtain ⟨p, c, r, hcall⟩ := hnext
    exact (call_quiet h p c).of_ok hcall
  refine ⟨hquiet.exactRefs, fun p c => ⟨fun herr => ?_, fun herr => ?_⟩⟩
  · exact ((call_quiet hquiet p c).of_error herr).1 rfl
  · exact ((call_quiet hquiet p c).of_error herr).2 rfl

/-- The first process makes a pipe, duplicates its read end and forks; the child closes a
descriptor. -/
def pipeRun : State :=
  runActs (fun s x => (call x.1 x.2 s).toOption.map Prod.snd) (boot fun _ => Bytes.fill BSIZE 0)
    [(0, .pipe true true), (0, .dup 0), (0, .fork 1 true), (1, .close 0)]

theorem exact_refs_pipeRun :
    ((pipeRun.ftable 0).ref, (pipeRun.ftable 1).ref, (pipeRun.itable 0).ref) = (3, 2, 2) ∧
    ExactRefs pipeRun ∧ ∀ p c, call p c pipeRun ≠ .error (.panic "filedup") ∧
      call p c pipeRun ≠ .error (.panic "fileclose") :=
  ⟨by decide +kernel, exact_refs (runActs_of_mem (fun x _ s s' hs => by
    obtain ⟨r, hr, rfl⟩ := Option.map_eq_some_iff.1 hs
    exact ⟨x.1, x.2, r.1, eq_ok_of_toOption hr⟩) _)⟩

end Xv6.Fs
