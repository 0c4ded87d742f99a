import Xv6.Fs.Update
import Xv6.Fs.Kernel
import Xv6.Lib.Triple

/-!
# Locking inodes and reading directories

What `ilock` does, and what code on the contents of one inode does to the state. `findDirent`,
the loop that `dirlookup`, `dirlink` and `isdirempty` share, finds the first entry that satisfies
a condition and changes nothing, as long as the entries have their blocks.
-/

namespace Xv6.Fs

open Xv6.Lib
open Xv6.Disk (Block)
open Xv6.Process (Slot Stop)
open Function (update update_of_ne update_self update_eq_self update_idem)

attribute [local irreducible] Post

variable {sb : Superblock} {d : Disk} {s t : State} {e : Ino} {α : Type}

/-! ## Entries of the inode table -/

lemma setInode_setInode (t : State) (e : Ino) (f g : Inode → Inode) :
    (t.setInode e f).setInode e g = t.setInode e fun ip => g (f ip) := by
  simp only [State.setInode, update_self, update_idem]

lemma setInode_itable (t : State) (e : Ino) (f : Inode → Inode) :
    (t.setInode e f).itable e = f (t.itable e) := update_self ..

lemma setInode_itable_of_ne (t : State) {e' : Ino} (h : e' ≠ e) (f : Inode → Inode) :
    (t.setInode e f).itable e' = t.itable e' := update_of_ne h ..

lemma acquiresleep_run (hfree : (t.itable e).locked = false) :
    (acquiresleep e).run t = .ok ((), t.setInode e fun ip => { ip with locked := true }) := by
  unfold acquiresleep
  rw [run_bind_of_ok (show (inode e).run t = .ok (t.itable e, t) from rfl), hfree]
  rfl

/-- `ilock`: an inode that was not read yet is read, and has to be allocated. -/
lemma ilock_run_eq (href : 1 ≤ (t.itable e).ref) (hfree : (t.itable e).locked = false) :
    (ilock e).run t =
      if (t.itable e).valid then .ok ((), t.setInode e fun ip => { ip with locked := true })
      else if (dinode t.sb t.disk (t.itable e).inum).type = 0 then .error (.panic "ilock: no type")
      else .ok ((), t.setInode e fun ip =>
        { ip with
          locked := true
          din := dinode t.sb t.disk (t.itable e).inum
          valid := true }) := by
  unfold ilock
  rw [run_bind_of_ok (show (inode e).run t = .ok (t.itable e, t) from rfl),
    if_neg (by omega), run_bind_of_ok (acquiresleep_run hfree)]
  generalize ht' : t.setInode e (fun ip => { ip with locked := true }) = t'
  have hentry : t'.itable e = { t.itable e with locked := true } := by
    rw [← ht', setInode_itable]
  have hdisk : t'.disk = t.disk ∧ t'.sb = t.sb := by
    rw [← ht']
    exact ⟨rfl, rfl⟩
  rw [run_bind_of_ok (show (get : FsM State).run t' = .ok (t', t') from rfl), hentry, hdisk.1,
    hdisk.2]
  dsimp only
  cases (t.itable e).valid with
  | true => rfl
  | false =>
    rw [if_pos (by rfl), run_bind_of_ok (show (modifyInode e fun ip => { ip with
      din := dinode t.sb t.disk (t.itable e).inum, valid := true }).run t' = .ok ((), _) from rfl)]
    by_cases htype : (dinode t.sb t.disk (t.itable e).inum).type = 0
    · rw [if_pos htype, if_neg Bool.false_ne_true, if_pos htype]
      rfl
    · rw [if_neg htype, if_neg Bool.false_ne_true, if_neg htype, ← ht']
      exact congrArg (fun u => Except.ok ((), u)) (setInode_setInode t e _ _)

/-- `ilock` of an inode that was not read yet. -/
lemma ilock_run (href : 1 ≤ (t.itable e).ref) (hfree : (t.itable e).locked = false)
    (hvalid : (t.itable e).valid = false) (htype : (dinode t.sb t.disk (t.itable e).inum).type ≠ 0)
    :
    (ilock e).run t = .ok ((), t.setInode e fun ip =>
      { ip with
        locked := true
        din := dinode t.sb t.disk (t.itable e).inum
        valid := true }) := by
  rw [ilock_run_eq href hfree, hvalid, if_neg Bool.false_ne_true, if_neg htype]

/-! ## Reading a directory -/

/-- The directory has an entry number `k`, and its block. -/
structure HasEntry (ip : Dinode) (d : Disk) (k : ℕ) : Prop where
  size : DIRENT * k + DIRENT ≤ ip.size.toNat
  lt : DIRENT * k / BSIZE < MAXFILE
  mapped : ip.at d (blockRef (DIRENT * k / BSIZE)) ≠ 0

/-- What code on the contents of an inode does to the state. -/
lemma onInode_run (e : Ino)
    (f : Superblock → ℕ → Dinode → Disk → Except Stop (α × Dinode × Disk)) :
    (onInode e f).run s = f s.sb (s.itable e).inum (s.itable e).din s.disk >>= fun r =>
      .ok (r.1, ({ s with disk := r.2.2 } : State).setInode e fun x =>
        { x with din := r.2.1 }) := by
  unfold onInode
  rw [run_bind_of_ok (show (get : FsM State).run s = .ok (s, s) from rfl)]
  generalize f s.sb (s.itable e).inum (s.itable e).din s.disk = x
  cases x with
  | ok r => rfl
  | error x => rfl

/-- Code that changes neither the inode nor the disk. -/
lemma onInode_run_of_same
    {f : Superblock → ℕ → Dinode → Disk → Except Stop (α × Dinode × Disk)} {a : α}
    (h : f s.sb (s.itable e).inum (s.itable e).din s.disk = .ok (a, (s.itable e).din, s.disk)) :
    (onInode e f).run s = .ok (a, s) := by
  have hset : ({ s with disk := s.disk } : State).setInode e
      (fun x => { x with din := (s.itable e).din }) = s := by
    show { s with itable := update s.itable e (s.itable e) } = s
    rw [update_eq_self]
  rw [onInode_run, h]
  exact congrArg (fun t => Except.ok (a, t)) hset

lemma readCount_dirent {size k : ℕ} (h : DIRENT * k + DIRENT ≤ size) (hsize : size < 2 ^ 32) :
    readCount size (DIRENT * k) DIRENT = DIRENT := by
  unfold readCount
  rw [Nat.mod_eq_of_lt (by omega), if_neg (by omega), if_neg (by omega)]

/-- `readi` where the file has its blocks, to memory that can be written. -/
lemma readi_eq_of_mapped {ip : Dinode} {off n : ℕ}
    (hmap : ∀ o, off ≤ o → o < off + readCount ip.size.toNat off n →
      o / BSIZE < MAXFILE ∧ ip.at d (blockRef (o / BSIZE)) ≠ 0) :
    readi sb ip (fun _ => true) off n d = .ok (((readCount ip.size.toNat off n : ℤ),
      fileBytes ip d off (readCount ip.size.toNat off n)), ip, d) := by
  have hpost : Post (fun _ => False) _ (readi sb ip (fun _ => true) off n d) :=
    readi_of_mapped (fun _ => true) hmap
  obtain ⟨⟨r, ip', d'⟩, hr, hsame, hbytes⟩ := hpost.exists_ok
  obtain ⟨rfl, rfl⟩ := Prod.mk.inj hsame
  rw [hr, ← hbytes fun _ _ => rfl]

lemma readDirent_run {k : ℕ} (h : HasEntry (s.itable e).din s.disk k) (msg : String) :
    (readDirent msg e (DIRENT * k)).run s = .ok (direntAt (s.itable e).din s.disk k, s) := by
  have hcount := readCount_dirent h.size (s.itable e).din.size.isLt
  have hread : readi s.sb (s.itable e).din (fun _ => true) (DIRENT * k) DIRENT s.disk = _ :=
    readi_eq_of_mapped fun o hge hlt => by
      rw [hcount] at hlt
      have hblock : o / BSIZE = DIRENT * k / BSIZE := by
        unfold DIRENT BSIZE at *
        omega
      rw [hblock]
      exact ⟨h.lt, h.mapped⟩
  rw [hcount] at hread
  unfold readDirent
  rw [run_bind_of_ok (onInode_run_of_same hread)]
  dsimp only
  rw [if_neg (by simp)]
  rfl

/-- The loop over the entries with the numbers `ks`, and then those at the offsets `rest`. -/
lemma findDirent_run {p : Dirent → Bool} (msg : String) (ks rest : List ℕ)
    (h : ∀ k ∈ ks, HasEntry (s.itable e).din s.disk k) :
    (findDirent msg e p (ks.map (DIRENT * ·) ++ rest)).run s =
      match ks.find? fun k => p (direntAt (s.itable e).din s.disk k) with
      | some k => .ok (some (DIRENT * k, direntAt (s.itable e).din s.disk k), s)
      | none => (findDirent msg e p rest).run s := by
  induction ks with
  | nil => rfl
  | cons k ks ih =>
    rw [List.map_cons, List.cons_append, findDirent, List.find?_cons,
      run_bind_of_ok (readDirent_run (h k (List.mem_cons_self ..)) msg)]
    by_cases hp : p (direntAt (s.itable e).din s.disk k) = true
    · rw [if_pos hp, hp]
      rfl
    · have hp' : p (direntAt (s.itable e).din s.disk k) = false := by simpa using hp
      rw [if_neg hp, hp', ih fun k' hk' => h k' (List.mem_cons_of_mem k hk')]

/-- The offsets of the first `m` entries come first. -/
lemma offsets_eq_append {size : BitVec 32} {m : ℕ} (h : m ≤ slots size) :
    ∃ rest, offsets size 0 = (List.range m).map (DIRENT * ·) ++ rest := by
  obtain ⟨r, hr⟩ := Nat.exists_eq_add_of_le h
  refine ⟨((List.range r).map (m + ·)).map (DIRENT * ·), ?_⟩
  rw [offsets, hr, List.drop_zero, List.range_add, List.map_append]

end Xv6.Fs
