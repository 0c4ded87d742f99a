import Xv6.Fs.Tables

/-!
# All calls

What the remaining calls do, and what follows for whole runs. `Change` lists the ways in which a
call changes the files: it adds or removes a name, makes a new file, writes to a file that is not
a directory, or frees inodes that have no links. Every call leads from a settled state to a
settled one and composes such changes.
-/

namespace Xv6.Fs

open Xv6.Lib
open Xv6.Process (Slot Stop)
open Function (update update_of_ne update_self update_eq_self update_idem)

variable {sb : Superblock} {a : Abs} {H : Hands} {L : List Ino} {s : State} {e : Ino} {i j : ℕ}
  {n : Node} {E : Stop → Prop} {α β : Type} {p : Slot} {f : FileNo} {fd : Fin NOFILE}
  {omode : BitVec 32} {major minor : BitVec 16} {node' : ℕ → Option Node} {name : Name}

/-! ## `sys_open` -/

/-- `itrunc` of an open file empties it. -/
lemma trunc_spec (hsb : sb.WellFormed) (hei : a.Holds H e i) (he : e ∈ L) (hn : a.node i = some n)
    (hdir : n.type ≠ T_DIR) :
    Triple E (Inv sb a H L) (onInode e fun sb inum ip d => do
      let (ip, d) ← itrunc sb inum ip d
      return ((), ip, d)) fun _ => Inv sb (a.set i (some { n with data := [] })) H L := by
  refine .of_run fun s h => ?_
  obtain ⟨hlt, -, -, hne, hnode⟩ := h.entry hei he
  rw [hn] at hnode
  have hnode := Option.some.inj hnode
  have htrunc : Post (fun _ => False) _ (itrunc sb i (dinode sb s.disk i) s.disk) :=
    h.sound.itrunc_post hsb hlt hne
  obtain ⟨⟨ip', d'⟩, hrun, hip, hup⟩ := htrunc.exists_ok
  dsimp only at hip hup
  have hnew : ip'.node d' = { n with data := [] } := by
    rw [hip, hnode]
    rfl
  rw [h.onInode_run hei he (show _ = Except.ok ((), ip', d') by rw [hrun]; rfl), Post.ok_iff,
    ← hnew]
  refine h.write hei he hn hup rfl ?_ fun hd => absurd hd hdir
  rw [hip, hnode]
  rfl

/-- The inode that `sys_open` opens. -/
def Abs.Opened (a : Abs) (p : Slot) (path : List UInt8) (omode : BitVec 32) (i : ℕ) (a' : Abs) :
    Prop :=
  if omode &&& O_CREATE ≠ 0 then a.Create p path T_FILE 0 0 i a'
  else follow a.node (a.start p path) (elems path) = some i ∧ a' = a

/-- `create` makes or finds a file that is not a directory. -/
lemma Abs.Create.type_ne {a' : Abs} {path : List UInt8} (h : a.Create p path T_FILE 0 0 j a')
    (hn : a'.node j = some n) : n.type ≠ T_DIR := by
  cases h with
  | found _ _ _ _ _ hn' _ hfile =>
    rw [hn] at hn'
    obtain rfl := Option.some.inj hn'
    rcases hfile with h | h <;> rw [h] <;> decide
  | @new d m name _ hm _ _ _ hfree =>
    have hne : j ≠ d := by
      rintro rfl
      rw [hfree] at hm
      cases hm
    rw [Abs.drop_node_of_ne hne, Abs.set_node, update_of_ne hne, Abs.set_node,
      update_self] at hn
    obtain rfl := Option.some.inj hn
    rw [newFile_type]
    decide

/-- Why `sys_open` finds no inode. -/
structure Abs.Unopened (sb : Superblock) (a : Abs) (p : Slot) (path : List UInt8)
    (omode : BitVec 32) : Prop where
  read : omode = O_RDONLY → follow a.node (a.start p path) (elems path) = none
  create : omode &&& O_CREATE ≠ 0 → Abs.Uncreated sb a p path T_FILE

/-- The first part of `sys_open` finds or makes the inode and locks it. -/
lemma openInode_spec (hsb : sb.WellFormed) (hstop : Stops E a) (hp : (a.proc p).cwd ≠ none)
    (path : List UInt8) (omode : BitVec 32) :
    Triple E (Inv sb a [] []) (openInode p path omode) fun r s =>
      (r = none ∧ Abs.Unopened sb a p path omode ∧ Inv sb a [] [] s) ∨
      ∃ e i n a', r = some e ∧ a.Opened p path omode i a' ∧ a'.node i = some n ∧
        (n.type = T_DIR → omode = O_RDONLY) ∧ a'.Keeps [] e i ∧ Inv sb a' [(e, i)] [e] s := by
  unfold openInode
  refine .ite (fun hc => ?_) fun hc => ?_
  · have hmode : omode ≠ O_RDONLY := by
      rintro rfl
      exact hc (by decide)
    refine (create_spec hsb hstop hp path (by decide) 0 0).post fun r s h => h.imp
      (fun ⟨hr, hwhy, h⟩ => ⟨hr, ⟨fun h0 => absurd h0 hmode, fun _ => hwhy⟩, h⟩) ?_
    rintro ⟨e, j, a', hr, hmade, hkeep, h⟩
    obtain ⟨n, hn⟩ := hmade.exists_node
    refine ⟨e, j, n, a', hr, ?_, hn, fun hd => absurd hd (hmade.type_ne hn), hkeep, h⟩
    rwa [Abs.Opened, if_pos hc]
  · refine (namei_spec hsb hstop (Nat.zero_le _) hp path).bind fun r =>
      .or_pre (.assume fun hr => .assume fun hnone => ?_) (.exists_pre fun e => .exists_pre fun i =>
        .assume fun hr => .assume fun hi => .assume fun hkeep => ?_)
    · subst hr
      exact .pure fun _ h => .inl ⟨rfl, ⟨fun _ => hnone, fun h => absurd h hc⟩, h⟩
    subst hr
    refine .of_pre fun s h => (ilock_spec .head List.not_mem_nil
      (hstop.of_follow h hp hi)).bind fun _ => .of_pre fun s h => ?_
    obtain ⟨n, hn⟩ := h.node_of_lock .head (List.mem_cons_self ..)
    refine inode_spec .head (List.mem_cons_self ..) hn fun x hx => .ite (fun hd => ?_) fun hd => ?_
    · exact (iunlockput_keep hsb List.not_mem_nil hkeep).bind fun _ =>
        .pure fun _ h => .inl ⟨rfl, ⟨fun hmode => absurd hmode hd.2, fun h => absurd h hc⟩, h⟩
    · refine .pure fun _ h => .inr ⟨e, i, n, a, rfl, ?_, hn, fun ht => ?_, hkeep, h⟩
      · rw [Abs.Opened, if_neg hc]
        exact ⟨hi, rfl⟩
      · by_contra hmode
        exact hd ⟨hx.type.trans ht, hmode⟩

/-- Free entries of the file table have no type. -/
def Abs.Free (a : Abs) : Prop := ∀ f, (a.ftable f).ref = 0 → (a.ftable f).type = .none

/-- `filealloc` and `fdalloc` in `sys_open`: both succeed, or both are undone. -/
lemma openFd_spec (hsb : sb.WellFormed) (hfree : a.Free) :
    Triple E (Inv sb a H L) (openFd p) fun r s =>
      (r = none ∧ ((∀ f, (a.ftable f).ref ≠ 0) ∨ ∀ fd, (a.proc p).ofile fd ≠ none) ∧
        Inv sb a H L s) ∨
      ∃ f fd, r = some (f, fd) ∧ (a.ftable f).ref = 0 ∧ (a.proc p).ofile fd = none ∧
        Inv sb ((a.setFile f { a.ftable f with ref := 1 }).setOfile p fd (some f)) H L s := by
  refine filealloc_spec.bind fun r => .or_pre (.assume fun hr => .assume fun hfull => ?_)
    (.exists_pre fun f => .assume fun hr => .assume fun hf => ?_)
  · subst hr
    exact .pure fun _ h => .inl ⟨rfl, .inl hfull, h⟩
  subst hr
  obtain ⟨x, hx⟩ : ∃ x, x = a.ftable f := ⟨_, rfl⟩
  have htype := hfree f hf
  -- closing the new file again undoes `filealloc`
  have hclose : (a.setFile f { a.ftable f with ref := 1 }).closeFile f = a := by
    have hself := a.setFile_self f { a.ftable f with ref := 1 }
    unfold Abs.closeFile
    rw [hself, if_neg (lt_irrefl 1), show File.target { a.ftable f with ref := 1 } = none by
      rw [File.target, htype]]
    show (a.setFile f _).setFile f { a.ftable f with ref := 0, type := .none } = a
    rw [← hf, ← htype]
    simp only [Abs.setFile, update_idem]
    exact congrArg (fun t => { a with ftable := t }) (update_eq_self ..)
  refine (fdalloc_spec p f).bind fun r => .or_pre (.assume fun hr => .assume fun hfull => ?_)
    (.exists_pre fun fd => .assume fun hr => .assume fun hfd => ?_)
  · subst hr
    refine (fileclose_spec hsb (fun hlt => ?_) fun e htarget => ?_).bind fun _ => ?_
    · rw [Abs.setFile_self] at hlt
      exact absurd hlt (lt_irrefl 1)
    · rw [Abs.setFile_self, File.target, htype] at htarget
      cases htarget
    · rw [hclose]
      exact .pure fun _ h => .inl ⟨rfl, .inr hfull, h⟩
  · subst hr
    exact .pure fun _ h => .inr ⟨f, fd, rfl, hf, hfd, h⟩

/-- The entry of a file that was opened. -/
def File.opened (x : File) (e : Ino) (n : Node) (omode : BitVec 32) : File :=
  let x := if n.type = T_DEVICE then { x with type := .device, major := n.major }
    else { x with type := .inode, off := 0 }
  { x with
    ip := e
    readable := omode &&& O_WRONLY = 0
    writable := omode &&& O_WRONLY ≠ 0 ∨ omode &&& O_RDWR ≠ 0 }

lemma File.opened_target (x : File) (e : Ino) (n : Node) (omode : BitVec 32) :
    (x.opened e n omode).target = some e := by
  by_cases h : n.type = T_DEVICE <;> simp [File.opened, File.target, h]

lemma File.opened_writable (x : File) (e : Ino) (n : Node) (omode : BitVec 32) :
    (x.opened e n omode).writable = decide (omode &&& O_WRONLY ≠ 0 ∨ omode &&& O_RDWR ≠ 0) := rfl

/-- The file structure takes over the reference to the inode. -/
lemma openFile_spec (hn : a.node i = some n) (hfree : (a.ftable f).target = none)
    (hdir : n.type = T_DIR → omode = O_RDONLY) :
    Triple E (Inv sb a [(e, i)] [e]) (openFile f e omode) fun _ =>
      Inv sb ((a.setInum e i).setFile f ((a.ftable f).opened e n omode)) [] [e] := by
  refine inode_spec .head (List.mem_cons_self ..) hn fun x hx => .modify fun s h => ?_
  have hgive := h.giveFile (f := f) (by rw [hn]; exact Option.some_ne_none n) hfree
    ((a.ftable f).opened_target e n omode) fun hw m hm hd => ?_
  · rw [hx.type, hx.major]
    rw [← h.ftable] at hgive ⊢
    exact hgive
  · rw [hn] at hm
    obtain rfl := Option.some.inj hm
    rw [File.opened_writable, hdir hd] at hw
    exact absurd hw (by decide)

/-- A file that was opened: descriptor `fd` of process `p` is file `f`, which refers to entry `e`
of the inode table, that of inode `i`. -/
def Abs.openAt (a : Abs) (p : Slot) (fd : Fin NOFILE) (f : FileNo) (e : Ino) (i : ℕ) (n : Node)
    (omode : BitVec 32) : Abs :=
  let b := ((a.setOfile p fd (some f)).setInum e i).setFile f
    (File.opened { a.ftable f with ref := 1 } e n omode)
  if omode &&& O_TRUNC ≠ 0 ∧ n.type = T_FILE then b.set i (some { n with data := [] }) else b

/-- What `sys_open` does when it returns the descriptor `fd`. -/
inductive Abs.OpenFile (a : Abs) (p : Slot) (path : List UInt8) (omode : BitVec 32)
    (fd : Fin NOFILE) : Abs → Prop
  | intro {e : Ino} {i : ℕ} {n : Node} {f : FileNo} {b : Abs} (hopen : a.Opened p path omode i b)
    (hpin : b.pinned e ≠ 0 → b.inum e = i) (hn : b.node i = some n)
    (hdir : n.type = T_DIR → omode = O_RDONLY)
    (hdev : ¬(n.type = T_DEVICE ∧ badMajor n.major = true)) (hf : (b.ftable f).ref = 0)
    (hfd : (b.proc p).ofile fd = none) :
    Abs.OpenFile a p path omode fd (b.openAt p fd f e i n omode)

/-- Why `sys_open` fails for a file that is to be read. -/
def Abs.Refuses (a : Abs) (p : Slot) (path : List UInt8) : Prop :=
  follow a.node (a.start p path) (elems path) = none ∨
  (∃ i n, follow a.node (a.start p path) (elems path) = some i ∧ a.node i = some n ∧
    n.type = T_DEVICE) ∨
  (∀ f, (a.ftable f).ref ≠ 0) ∨ ∀ fd, (a.proc p).ofile fd ≠ none

/-- What `sys_open` returns. When it fails it may have made a file. -/
def OpenPost (sb : Superblock) (a : Abs) (p : Slot) (path : Option (List UInt8))
    (omode : BitVec 32) (r : ℤ) (s : State) : Prop :=
  (r = -1 ∧ (omode = O_RDONLY → ∀ path', path = some path' → a.Refuses p path') ∧
    ∃ a', (a' = a ∨ ∃ path' i, path = some path' ∧ a.Opened p path' omode i a') ∧
    Inv sb a' [] [] s) ∨
  ∃ path' fd a', r = (fd.val : ℤ) ∧ path = some path' ∧ a.OpenFile p path' omode fd a' ∧
    Inv sb a' [] [] s

/-- `create` leaves the open files and the descriptors alone. -/
lemma Abs.Create.kernel {a' : Abs} {path : List UInt8} {type : BitVec 16}
    (h : a.Create p path type major minor j a') : a'.ftable = a.ftable ∧ a'.proc = a.proc := by
  cases h with
  | found => exact ⟨rfl, rfl⟩
  | new =>
    unfold Abs.drop
    split <;> exact ⟨rfl, rfl⟩

lemma Abs.Opened.kernel {a' : Abs} {path : List UInt8} (h : a.Opened p path omode i a') :
    a'.ftable = a.ftable ∧ a'.proc = a.proc := by
  unfold Abs.Opened at h
  split at h
  case isTrue => exact Abs.Create.kernel h
  case isFalse =>
    rw [h.2]
    exact ⟨rfl, rfl⟩

/-- An inode is opened, unless it is a device that does not exist or no file structure or
descriptor is free. -/
lemma openLocked_spec (hsb : sb.WellFormed) (hfree : a.Free) {path : List UInt8} {b : Abs}
    (hopen : a.Opened p path omode i b) (hn : b.node i = some n)
    (hdir : n.type = T_DIR → omode = O_RDONLY) (hkeep : b.Keeps [] e i) :
    Triple E (Inv sb b [(e, i)] [e]) (openLocked p e omode) fun r s =>
      (r = -1 ∧ (n.type = T_DEVICE ∨ (∀ f, (a.ftable f).ref ≠ 0) ∨
        ∀ fd, (a.proc p).ofile fd ≠ none) ∧ Inv sb b [] [] s) ∨
      ∃ fd a', r = (fd.val : ℤ) ∧ a.OpenFile p path omode fd a' ∧ Inv sb a' [] [] s := by
  refine .of_pre fun s h => ?_
  have hpin : b.pinned e ≠ 0 → b.inum e = i := h.inum_of_hand (List.mem_cons_self ..)
  have hfree' : b.Free := by
    unfold Abs.Free
    rw [hopen.kernel.1]
    exact hfree
  have hfail (hwhy : n.type = T_DEVICE ∨ (∀ f, (a.ftable f).ref ≠ 0) ∨
      ∀ fd, (a.proc p).ofile fd ≠ none) :
      Triple E (Inv sb b [(e, i)] [e]) (do iunlockput e; return (-1 : ℤ)) fun r s =>
        (r = -1 ∧ (n.type = T_DEVICE ∨ (∀ f, (a.ftable f).ref ≠ 0) ∨
          ∀ fd, (a.proc p).ofile fd ≠ none) ∧ Inv sb b [] [] s) ∨
        ∃ fd a', r = (fd.val : ℤ) ∧ a.OpenFile p path omode fd a' ∧ Inv sb a' [] [] s :=
    (iunlockput_keep hsb List.not_mem_nil hkeep).bind fun _ => .pure fun _ h =>
      .inl ⟨rfl, hwhy, h⟩
  unfold openLocked
  refine inode_spec .head (List.mem_cons_self ..) hn fun x hx => .ite
    (fun hdev => hfail (.inl (hx.type.symm.trans hdev.1))) fun hdev => ?_
  rw [hx.type, hx.major] at hdev
  refine (openFd_spec hsb hfree').bind fun r => .or_pre
    (.assume fun hr => .assume fun hfull => ?_)
    (.exists_pre fun f => .exists_pre fun fd => .assume fun hr => .assume fun hf =>
      .assume fun hfd => ?_)
  · subst hr
    rw [hopen.kernel.1, hopen.kernel.2] at hfull
    exact hfail (.inr hfull)
  subst hr
  dsimp only
  obtain ⟨c, hc⟩ : ∃ c, c = (b.setFile f { b.ftable f with ref := 1 }).setOfile p fd (some f) :=
    ⟨_, rfl⟩
  have hcf : c.ftable f = { b.ftable f with ref := 1 } := by
    rw [hc]
    exact Abs.setFile_self ..
  have htarget : (c.ftable f).target = none := by
    rw [hcf, File.target, hfree' f hf]
  rw [← hc]
  refine (openFile_spec (by rw [hc]; exact hn) htarget hdir).bind fun _ => ?_
  obtain ⟨g, hg⟩ : ∃ g, g = (c.setInum e i).setFile f ((c.ftable f).opened e n omode) := ⟨_, rfl⟩
  have hbase : g = ((b.setOfile p fd (some f)).setInum e i).setFile f
      (File.opened { b.ftable f with ref := 1 } e n omode) := by
    rw [hg, hcf, hc]
    simp only [Abs.setFile, Abs.setOfile, Abs.setInum, update_idem]
  have hgn : g.node i = some n := by rw [hg, hc]; exact hn
  have hholds : g.Holds [] e i := by
    refine .inr ⟨Abs.pinned_of_target (f := f) ?_, ?_⟩
    · rw [hg, Abs.setFile_self, File.opened_target]
    · rw [hg]
      exact update_self ..
  rw [← hg]
  -- the file is open: truncate it if asked to, and unlock the inode
  have hdone : ∀ g', (if omode &&& O_TRUNC ≠ 0 ∧ n.type = T_FILE then
      g.set i (some { n with data := [] }) else g) = g' → g'.Holds [] e i →
      Triple E (Inv sb g' [] [e]) (do iunlock e; return (fd.val : ℤ)) fun r s =>
        (r = -1 ∧ (n.type = T_DEVICE ∨ (∀ f, (a.ftable f).ref ≠ 0) ∨
          ∀ fd, (a.proc p).ofile fd ≠ none) ∧ Inv sb b [] [] s) ∨
        ∃ fd a', r = (fd.val : ℤ) ∧ a.OpenFile p path omode fd a' ∧ Inv sb a' [] [] s := by
    intro g' hg' hholds'
    refine (iunlock_spec hholds' List.not_mem_nil).bind fun _ => .pure fun _ h =>
      .inr ⟨fd, g', rfl, ?_, h⟩
    have hopenAt : b.openAt p fd f e i n omode = g' := by
      rw [← hg', hbase]
      rfl
    exact hopenAt ▸ .intro hopen hpin hn hdir hdev hf hfd
  refine .ite (fun htrunc => ?_) fun htrunc => ?_
  · rw [hx.type] at htrunc
    have hfile : n.type ≠ T_DIR := by
      rw [htrunc.2]
      decide
    exact (trunc_spec hsb hholds (List.mem_cons_self ..) hgn hfile).bind fun _ =>
      hdone _ (if_pos htrunc) hholds
  · rw [hx.type] at htrunc
    exact hdone g (if_neg htrunc) hholds

/-- `open` returns `-1` and says why, or opens the file that the path names. -/
lemma sysOpen_spec (hsb : sb.WellFormed) (hstop : Stops E a) (hfree : a.Free)
    (hp : (a.proc p).cwd ≠ none) (path : ℕ → Option UInt8) (omode : BitVec 32) :
    Triple E (Inv sb a [] []) (sysOpen p path omode) (OpenPost sb a p (argstr path) omode) := by
  unfold sysOpen
  cases hpath : argstr path with
  | none =>
    refine .pure fun _ h => .inl ⟨rfl, fun _ path' hpath' => ?_, a, .inl rfl, h⟩
    cases hpath'
  | some path =>
    refine (openInode_spec hsb hstop hp path omode).bind fun r => .or_pre
      (.assume fun hr => .assume fun hnone => ?_)
      (.exists_pre fun e => .exists_pre fun i => .exists_pre fun n => .exists_pre fun b =>
        .assume fun hr => .assume fun hopen => .assume fun hn => .assume fun hdir =>
        .assume fun hkeep => ?_)
    · subst hr
      refine .pure fun _ h => .inl ⟨rfl, fun hmode path' hpath' => ?_, a, .inl rfl, h⟩
      obtain rfl := Option.some.inj hpath'
      exact .inl (hnone.read hmode)
    subst hr
    refine (openLocked_spec hsb hfree hopen hn hdir hkeep).post fun r s h => ?_
    obtain ⟨hr, hwhy, h⟩ | ⟨fd, a', hr, hfile, h⟩ := h
    · refine .inl ⟨hr, fun hmode path' hpath' => ?_, b, .inr ⟨path, i, rfl, hopen⟩, h⟩
      obtain rfl := Option.some.inj hpath'
      subst hmode
      obtain ⟨hi, rfl⟩ : follow a.node (a.start p path) (elems path) = some i ∧ b = a := hopen
      exact .inr (hwhy.imp_left fun htype => ⟨i, n, hi, hn, htype⟩)
    · exact .inr ⟨path, fd, a', hr, rfl, hfile, h⟩

/-! ## Changes of the files -/

/-- Inodes without links may be freed. -/
def Sheds (node node' : ℕ → Option Node) : Prop :=
  ∀ i, node' i = node i ∨ (node' i = none ∧ (node i).map Node.nlink = some 0)

lemma Sheds.refl (node : ℕ → Option Node) : Sheds node node := fun _ => .inl rfl

lemma Sheds.trans {node node'' : ℕ → Option Node} (h : Sheds node node') (h' : Sheds node' node'') :
    Sheds node node'' := by
  intro i
  rcases h i with heq | hnone
  · rw [← heq]
    exact h' i
  · rcases h' i with heq | ⟨-, hlink⟩
    · rw [heq]
      exact .inr hnone
    · rw [hnone.1] at hlink
      cases hlink

lemma Sheds.update {node : ℕ → Option Node} (h : Sheds node node') (j : ℕ) (o : Option Node) :
    Sheds (update node j o) (update node' j o) := by
  intro i
  by_cases hi : i = j
  · subst hi
    rw [update_self, update_self]
    exact .inl rfl
  · rw [update_of_ne hi, update_of_ne hi]
    exact h i

lemma sheds_update {node : ℕ → Option Node} (h : (node i).map Node.nlink = some 0) :
    Sheds node (update node i none) := by
  intro j
  by_cases hj : j = i
  · subst hj
    exact .inr ⟨update_self .., h⟩
  · exact .inl (update_of_ne hj ..)

lemma Abs.drop_sheds (a : Abs) (i : ℕ) : Sheds a.node (a.drop i).node := by
  unfold Abs.drop
  split
  case isTrue h => exact sheds_update h.2
  case isFalse => exact .refl _

/-- `iput` frees at most an inode without links. -/
lemma Abs.put_sheds (a : Abs) (H : Hands) (e : Ino) (i : ℕ) : Sheds a.node (a.put H e i).node := by
  unfold Abs.put
  split
  case isTrue h => exact sheds_update h.2.2
  case isFalse => exact .refl _

/-- So does the last `fileclose`. -/
lemma Abs.closeFile_sheds (a : Abs) (f : FileNo) : Sheds a.node (a.closeFile f).node := by
  unfold Abs.closeFile
  split
  · exact .refl _
  · split
    · exact Abs.drop_sheds (a.setFile f _) _
    · exact .refl _

lemma Abs.drop_tables (a : Abs) (i : ℕ) : (a.drop i).proc = a.proc ∧
    (a.drop i).ftable = a.ftable ∧ (a.drop i).inum = a.inum := by
  unfold Abs.drop
  split <;> exact ⟨rfl, rfl, rfl⟩

lemma Abs.closeFile_proc (a : Abs) (f : FileNo) : (a.closeFile f).proc = a.proc := by
  unfold Abs.closeFile
  split
  · rfl
  · split
    · rw [(Abs.drop_tables _ _).1]
      rfl
    · rfl

/-- The current directories are `C`, and the files are those of `node`, but for some that had no
links. -/
def Mild (sb : Superblock) (node : ℕ → Option Node) (C : Slot → Option Ino) (s : State) : Prop :=
  ∃ a, Sheds node a.node ∧ cwds a.proc = C ∧ Inv sb a [] [] s

section Mild

variable {node : ℕ → Option Node} {C : Slot → Option Ino}

lemma Inv.mild (h : Inv sb a [] [] s) : Mild sb a.node (cwds a.proc) s := ⟨a, .refl _, rfl, h⟩

/-- A program that is described by what it does to an abstract state. -/
lemma mild_of_spec {m : FsM α} {Q : α → State → Prop}
    (h : ∀ a, Sheds node a.node → cwds a.proc = C → Triple E (Inv sb a [] []) m Q) :
    Triple E (Mild sb node C) m Q :=
  .exists_pre fun a => .assume fun hshed => .assume fun hcwd => h a hshed hcwd

lemma setOfile_mild (p : Slot) (fd : Fin NOFILE) (o : Option FileNo) :
    Triple E (Mild sb node C) (setOfile p fd o) fun _ => Mild sb node C :=
  mild_of_spec fun a hshed hcwd => (setOfile_spec p fd o).post fun _ _ h =>
    ⟨a.setOfile p fd o, hshed, (cwds_withOfile ..).trans hcwd, h⟩

lemma fdalloc_mild (p : Slot) (f : FileNo) :
    Triple E (Mild sb node C) (fdalloc p f) fun _ => Mild sb node C :=
  mild_of_spec fun a hshed hcwd => (fdalloc_spec p f).post fun _ _ h => by
    obtain ⟨-, -, h⟩ | ⟨fd, -, -, h⟩ := h
    · exact ⟨a, hshed, hcwd, h⟩
    · exact ⟨a.setOfile p fd (some f), hshed, (cwds_withOfile ..).trans hcwd, h⟩

lemma filedup_mild (hE : E (.panic "filedup")) (f : FileNo) :
    Triple E (Mild sb node C) (filedup f) fun _ => Mild sb node C :=
  mild_of_spec fun a hshed hcwd => (filedup_spec fun _ => hE).post fun _ _ h =>
    ⟨a.setFile f _, hshed, hcwd, h⟩

/-- `fileclose` frees at most an inode without links. -/
lemma fileclose_mild (hsb : sb.WellFormed) (hE : E (.panic "fileclose")) (f : FileNo) :
    Triple E (Mild sb node C) (fileclose f) fun _ => Mild sb node C :=
  mild_of_spec fun a hshed hcwd => (fileclose_spec hsb (fun _ => hE)
    fun _ _ => ⟨List.not_mem_nil, rfl⟩).post fun _ _ h =>
      ⟨a.closeFile f, hshed.trans (a.closeFile_sheds f), by rw [a.closeFile_proc, hcwd], h⟩

lemma argfd_mild {Q : β → State → Prop} {k : Option (Fin NOFILE × FileNo) → FsM β}
    {fd : BitVec 32} (h : ∀ x, Triple E (Mild sb node C) (k x) Q) :
    Triple E (Mild sb node C) (argfd p fd >>= k) Q :=
  .bind (Q := fun _ => Mild sb node C) (mild_of_spec fun a hshed hcwd => .read_bind fun _ _ =>
    .pure fun _ hs => ⟨a, hshed, hcwd, hs⟩) h

/-! ## Descriptors and pipes -/

lemma sysDup_mild (hE : E (.panic "filedup")) (fd : BitVec 32) :
    Triple E (Mild sb node C) (sysDup p fd) fun _ => Mild sb node C := by
  refine argfd_mild fun x => ?_
  cases x with
  | none => exact .skip
  | some x =>
    refine (fdalloc_mild p x.2).bind fun fd => ?_
    cases fd with
    | none => exact .skip
    | some fd => exact (filedup_mild hE x.2).bind fun _ => .skip

lemma sysClose_mild (hsb : sb.WellFormed) (hE : E (.panic "fileclose")) (fd : BitVec 32) :
    Triple E (Mild sb node C) (sysClose p fd) fun _ => Mild sb node C := by
  refine argfd_mild fun x => ?_
  cases x with
  | none => exact .skip
  | some x =>
    exact (setOfile_mild p x.1 none).bind fun _ => (fileclose_mild hsb hE x.2).bind fun _ =>
      .skip

/-- A new file becomes an end of a pipe. -/
lemma pipeEnd_spec (hfile : (a.ftable f).target = none) (r w : Bool) :
    Triple E (Inv sb a H L)
      (modifyFile f fun x => { x with type := .pipe, readable := r, writable := w }) fun _ =>
        Inv sb (a.setFile f { a.ftable f with type := .pipe, readable := r, writable := w }) H L :=
  modifyFile_spec hfile.symm fun htype => nomatch htype

/-- `pipealloc`, also where it fails half-way. -/
lemma pipealloc_mild (hsb : sb.WellFormed) (hE : E (.panic "fileclose")) (hfree : a.Free)
    (mem : Bool) :
    Triple E (Inv sb a [] []) (pipealloc mem) fun _ => Mild sb a.node (cwds a.proc) := by
  refine filealloc_spec.bind fun r => .or_pre (.assume fun hr => .assume fun _ => ?_)
    (.exists_pre fun f0 => .assume fun hr => .assume fun hf0 => ?_)
  · subst hr
    exact .pure fun _ h => h.mild
  subst hr
  obtain ⟨b, hb⟩ : ∃ b, b = a.setFile f0 { a.ftable f0 with ref := 1 } := ⟨_, rfl⟩
  have hbf : b.ftable f0 = { a.ftable f0 with ref := 1 } := by
    rw [hb]
    exact a.setFile_self ..
  have hmild : ∀ {c : Abs} {s : State}, c.node = a.node → c.proc = a.proc → Inv sb c [] [] s →
      Mild sb a.node (cwds a.proc) s := fun hn hp h => ⟨_, hn ▸ .refl _, by rw [hp], h⟩
  rw [← hb]
  refine filealloc_spec.bind fun r => .or_pre (.assume fun hr => .assume fun _ => ?_)
    (.exists_pre fun f1 => .assume fun hr => .assume fun hf1 => ?_)
  · subst hr
    refine .pre ?_ fun _ h => hmild (by rw [hb]; rfl) (by rw [hb]; rfl) h
    exact (fileclose_mild hsb hE f0).bind fun _ => .skip
  subst hr
  refine .ite (fun _ => ?_) fun _ => ?_
  · -- both files are new, so neither refers to an inode
    have hne : f0 ≠ f1 := by
      rintro rfl
      rw [hbf] at hf1
      cases hf1
    obtain ⟨c, hc⟩ : ∃ c, c = b.setFile f1 { b.ftable f1 with ref := 1 } := ⟨_, rfl⟩
    have h0 : (c.ftable f0).target = none := by
      rw [hc, Abs.setFile_of_ne _ hne, hbf, File.target, hfree f0 hf0]
    have h1 : (c.ftable f1).target = none := by
      rw [hb, Abs.setFile_of_ne _ hne.symm] at hf1
      rw [hc, Abs.setFile_self, hb, Abs.setFile_of_ne _ hne.symm, File.target, hfree f1 hf1]
    rw [← hc]
    refine (pipeEnd_spec h0 true false).bind fun _ => (pipeEnd_spec ?_ false true).bind fun _ =>
      .pure fun _ h => hmild (by rw [hc, hb]; rfl) (by rw [hc, hb]; rfl) h
    rwa [Abs.setFile_of_ne _ hne.symm]
  · refine .pre ?_ fun _ h => hmild (by rw [hb]; rfl) (by rw [hb]; rfl) h
    exact (fileclose_mild hsb hE f0).bind fun _ => (fileclose_mild hsb hE f1).bind fun _ =>
      .skip

/-- `pipe`, also where it gives the files back. -/
lemma sysPipe_mild (hsb : sb.WellFormed) (hE : E (.panic "fileclose")) (hfree : a.Free)
    (mem out : Bool) :
    Triple E (Inv sb a [] []) (sysPipe p mem out) fun _ => Mild sb a.node (cwds a.proc) := by
  have hset : ∀ fd, Triple E (Mild sb a.node (cwds a.proc)) (setOfile p fd none) fun _ =>
      Mild sb a.node (cwds a.proc) := fun fd => setOfile_mild p fd none
  have hclose : ∀ f, Triple E (Mild sb a.node (cwds a.proc)) (fileclose f) fun _ =>
      Mild sb a.node (cwds a.proc) := fileclose_mild hsb hE
  refine (pipealloc_mild hsb hE hfree mem).bind fun r => ?_
  cases r with
  | none => exact .skip
  | some r =>
    refine (fdalloc_mild p r.1).bind fun fd0 => ?_
    cases fd0 with
    | none => exact (hclose r.1).bind fun _ => (hclose r.2).bind fun _ => .skip
    | some fd0 =>
      refine (fdalloc_mild p r.2).bind fun fd1 => ?_
      cases fd1 with
      | none =>
        exact (hset fd0).bind fun _ => (hclose r.1).bind fun _ => (hclose r.2).bind fun _ =>
          .skip
      | some fd1 =>
        refine .ite (fun _ => .skip) fun _ => ?_
        exact (hset fd0).bind fun _ => (hset fd1).bind fun _ => (hclose r.1).bind fun _ =>
          (hclose r.2).bind fun _ => .skip

/-! ## Processes -/

/-- `fork` duplicates what its parent has open. -/
lemma forkFs_mild (hE : E (.panic "filedup")) (hdis : E .disabled) {np : Slot} (mem : Bool) :
    Triple E (Inv sb a [] []) (forkFs p np mem) fun _ s => ∃ C, Mild sb a.node C s := by
  refine .read_bind fun s h => .ite (fun _ => .throw_bind hdis) fun hcwd => .ite
    (fun _ => .pure fun _ h => ⟨_, h.mild⟩) fun _ => ?_
  rw [h.proc, Bool.not_eq_true, Option.isSome_eq_false_iff, Option.isNone_iff_eq_none] at hcwd
  have hfile : ∀ fd, Triple E (Mild sb a.node (cwds a.proc)) (forkFile p np fd) fun _ =>
      Mild sb a.node (cwds a.proc) := by
    intro fd
    refine mild_of_spec fun b hshed hC => .read_bind fun s _ => ?_
    refine .pre (P := Mild sb a.node (cwds a.proc)) ?_ fun _ h => ⟨b, hshed, hC, h⟩
    split
    · exact (filedup_mild hE _).bind fun _ => setOfile_mild np fd _
    · exact .skip
  refine (Triple.pre (.forM_inv hfile) fun _ h => h.mild).bind fun _ =>
    mild_of_spec fun b hshed hC => .read_bind fun s h => ?_
  rw [h.proc]
  cases hb : (b.proc p).cwd with
  | none => exact .throw_bind hdis
  | some e =>
    have hpin := Abs.pinned_of_cwd hb
    refine (idup_spec hpin).bind fun e' => .assume fun he => ?_
    subst he
    have hnp : (b.proc np).cwd = none := by
      rw [show (b.proc np).cwd = (a.proc np).cwd from congrFun hC np, hcwd]
    refine .bind (Q := fun _ => Inv sb ((b.setInum e' (b.inum e')).setCwd np (some e')) [] [])
      (.modify fun s h => h.giveCwd (h.alive e' hpin) hnp) fun _ => .pure fun s h => ?_
    exact ⟨_, (b.setInum e' (b.inum e')).setCwd np (some e'), hshed, rfl, h⟩

/-- `exit` closes all files and leaves the current directory. -/
lemma exitFs_mild (hsb : sb.WellFormed) (hE : E (.panic "fileclose")) (hdis : E .disabled) :
    Triple E (Inv sb a [] []) (exitFs p) fun _ s => ∃ C, Mild sb a.node C s := by
  have hfile : ∀ fd, Triple E (Mild sb a.node (cwds a.proc)) (exitFile p fd) fun _ =>
      Mild sb a.node (cwds a.proc) := by
    intro fd
    refine mild_of_spec fun b hshed hC => .read_bind fun s _ => ?_
    refine .pre (P := Mild sb a.node (cwds a.proc)) ?_ fun _ h => ⟨b, hshed, hC, h⟩
    split
    · exact (fileclose_mild hsb hE _).bind fun _ => setOfile_mild p fd none
    · exact .skip
  refine (Triple.pre (.forM_inv hfile) fun _ h => h.mild).bind fun _ =>
    mild_of_spec fun b hshed hC => .read_bind fun s h => ?_
  rw [h.proc]
  cases hb : (b.proc p).cwd with
  | none => exact .throw_bind hdis
  | some e =>
    exact iput_cwd_bind hsb hb (.pure fun _ h =>
      ⟨_, _, hshed.trans ((b.setCwd p none).put_sheds _ _ _), rfl, h⟩)

/-- `chdir` gives the old directory back and keeps the new one. -/
lemma sysChdir_mild (hsb : sb.WellFormed) (hstop : Stops E a) (hp : (a.proc p).cwd ≠ none)
    (path : ℕ → Option UInt8) :
    Triple E (Inv sb a [] []) (sysChdir p path) fun _ s => ∃ C, Mild sb a.node C s := by
  unfold sysChdir
  cases argstr path with
  | none => exact .pure fun _ h => ⟨_, h.mild⟩
  | some path =>
    refine (namei_spec hsb hstop (Nat.zero_le _) hp path).bind fun r =>
      .or_pre (.assume fun hr => .assume fun _ => ?_) (.exists_pre fun e => .exists_pre fun i =>
        .assume fun hr => .assume fun hi => .assume fun hkeep => ?_)
    · subst hr
      exact .pure fun _ h => ⟨_, h.mild⟩
    subst hr
    refine .of_pre fun s h => (ilock_spec .head List.not_mem_nil
      (hstop.of_follow h hp hi)).bind fun _ => .of_pre fun s h => ?_
    obtain ⟨n, hn⟩ := h.node_of_lock .head (List.mem_cons_self ..)
    refine inode_spec .head (List.mem_cons_self ..) hn fun x hx => .ite (fun _ => ?_) fun hd => ?_
    · exact (iunlockput_keep hsb List.not_mem_nil hkeep).bind fun _ => .pure fun _ h => ⟨_, h.mild⟩
    refine (iunlock_spec .head List.not_mem_nil).bind fun _ => .read_bind fun s h => ?_
    obtain ⟨old, hold⟩ := Option.ne_none_iff_exists'.1 hp
    have hpin := Abs.pinned_of_cwd hold
    obtain ⟨b, hb⟩ : ∃ b, b = (a.setCwd p none).put [(e, i)] old (a.inum old) := ⟨_, rfl⟩
    -- the new directory is in hand, so it is not the one that is freed
    have hnode : b.node i = a.node i := by
      rw [hb]
      unfold Abs.put
      split
      case isFalse => rfl
      case isTrue hfree =>
        refine update_of_ne (fun hio => ?_) ..
        have hee : old = e := h.table.inj old e (h.table.ref_ne_zero (.inr ⟨hpin, rfl⟩))
          (h.table.ref_ne_zero .head) (by rw [h.table.pin old hpin, h.table.inum_eq .head, hio])
        exact inHand_ne_zero (List.mem_singleton_self (old, i)) (hee ▸ hfree.2.1)
    have hcwd : (b.proc p).cwd = none := by
      rw [hb]
      unfold Abs.put
      split <;> simp [Abs.set, Abs.setCwd, withCwd]
    rw [h.proc, hold, ← setCwd_setCwd]
    simp only [bind_assoc]
    refine iput_cwd_bind hsb hold ?_
    rw [← hb]
    refine .bind (Q := fun _ => Inv sb ((b.setInum e i).setCwd p (some e)) [] [])
      (.modify fun s h => h.giveCwd ?_ hcwd) fun _ => .pure fun s h => ?_
    · rw [hnode, hn]
      exact Option.some_ne_none n
    · refine ⟨_, (b.setInum e i).setCwd p (some e), ?_, rfl, h⟩
      show Sheds a.node b.node
      rw [hb]
      exact (a.setCwd p none).put_sheds _ _ _

/-- `exec` reads the file it is given and changes none. -/
lemma execFs_spec (hsb : sb.WellFormed) (hstop : Stops E a) (hp : (a.proc p).cwd ≠ none)
    (path : ℕ → Option UInt8) (reads : List (BitVec 32 × BitVec 32)) (r : ℤ) :
    Triple E (Inv sb a [] []) (execFs p path reads r) fun _ => Inv sb a [] [] := by
  unfold execFs
  cases argstr path with
  | none => exact .skip
  | some path =>
    refine (namei_spec hsb hstop (Nat.zero_le _) hp path).bind fun r =>
      .or_pre (.assume fun hr => .assume fun _ => ?_) (.exists_pre fun e => .exists_pre fun i =>
        .assume fun hr => .assume fun hi => .assume fun hkeep => ?_)
    · subst hr
      exact .skip
    subst hr
    refine .of_pre fun s h => (ilock_spec .head List.not_mem_nil
      (hstop.of_follow h hp hi)).bind fun _ => .of_pre fun s h => ?_
    obtain ⟨n, hn⟩ := h.node_of_lock .head (List.mem_cons_self ..)
    refine .bind (Q := fun _ => Inv sb a [(e, i)] [e]) (.forM_inv fun x => ?_) fun _ =>
      (iunlockput_keep hsb List.not_mem_nil hkeep).bind fun _ => .skip
    exact (read_spec .head (List.mem_cons_self ..) hn _ x.2.isLt).bind fun _ =>
      .pure fun _ h => h.2

end Mild

/-! ## `sys_read` and `sys_write` -/

/-- A read of any file, whatever it is open for. -/
lemma fileread_any (hE : E (.panic "fileread")) (dst : ℕ → Bool) (len : BitVec 32) (ext : ℤ) :
    Triple E (Inv sb a [] []) (fileread f dst len ext) fun _ s =>
      ∃ off, Inv sb (a.setOff f off) [] [] s := by
  have hsame : ∀ {r : ℤ × List UInt8}, Triple E (Inv sb a [] []) (pure r) fun _ s =>
      ∃ off, Inv sb (a.setOff f off) [] [] s := fun {r} =>
    .pure fun s h => ⟨(a.ftable f).off, by rwa [Abs.setOff_self]⟩
  by_cases hc : (a.ftable f).readable = true ∧ (a.ftable f).type = .inode
  · refine .of_pre fun s h => ?_
    obtain ⟨-, n, hn⟩ := h.exists_node hc.2
    exact (fileread_spec hc.2 hc.1 hn dst len ext).post fun _ _ ⟨off, h, _⟩ => ⟨off, h⟩
  · refine file_spec (.ite (fun _ => hsame) fun hread => ?_)
    cases htype : (a.ftable f).type with
    | none => exact .throw hE
    | pipe => exact hsame
    | device => exact hsame
    | inode => exact absurd ⟨by simpa using hread, htype⟩ hc

/-- A write to file `f` changes the offset and the contents of one file that is no directory. -/
inductive Abs.WriteFile (a : Abs) (f : FileNo) : Abs → Prop
  | same : Abs.WriteFile a f a
  | write {i : ℕ} {n n' : Node} {off : BitVec 32} (hn : a.node i = some n)
    (hdir : n.type ≠ T_DIR) (htype : n'.type = n.type) (hnlink : n'.nlink = n.nlink) :
    Abs.WriteFile a f ((a.set i (some n')).setOff f off)

/-- A write to any file: to an inode it stores bytes, otherwise it changes nothing. -/
lemma filewrite_any (hsb : sb.WellFormed) (hE : E (.panic "filewrite")) (src : ℕ → Option UInt8)
    (len : BitVec 32) (ext : ℤ) (past : List Tx) :
    Triple E (InvTx sb past a []) (filewrite f src len ext) fun _ s =>
      ∃ a', a.WriteFile f a' ∧ InvTx sb past a' [] s := by
  have hsame : ∀ {r : ℤ}, Triple E (InvTx sb past a []) (pure r) fun _ s =>
      ∃ a', a.WriteFile f a' ∧ InvTx sb past a' [] s := fun {r} => .pure fun s h => ⟨a, .same, h⟩
  by_cases hc : (a.ftable f).writable = true ∧ (a.ftable f).type = .inode
  · refine .of_pre fun s h => ?_
    obtain ⟨hp, n, hn⟩ := h.1.exists_node hc.2
    have hdir : n.type ≠ T_DIR := h.1.files f (a.ftable f).ip (by rw [File.target, hc.2]) hc.2 hc.1
      n hn
    refine (filewrite_spec hsb ⟨hc.2, rfl, hp, rfl, hn, hdir⟩ hc.1 src len ext past).post ?_
    rintro r s ⟨n', off, htype, hnlink, -, h⟩
    exact ⟨_, .write hn hdir htype hnlink, h⟩
  · refine file_bind_of (fun _ hs => hs.1.ftable) (.ite (fun _ => hsame) fun hwrite => ?_)
    cases htype : (a.ftable f).type with
    | none => exact .throw hE
    | pipe => exact hsame
    | device => exact hsame
    | inode => exact absurd ⟨by simpa using hwrite, htype⟩ hc

/-! ## Every call -/

/-- A path element: not empty, without slashes and null characters, and not too long. -/
structure IsName (name : Name) : Prop where
  ne_nil : name ≠ []
  no_slash : slash ∉ name
  no_null : 0 ∉ name
  length_le : name.length ≤ DIRSIZ

/-- The ways in which calls change the files. -/
inductive Change (node : ℕ → Option Node) : (ℕ → Option Node) → Prop
  | link {i d : ℕ} {n m : Node} {name : Name} (hn : node i = some n) (hfile : n.type ≠ T_DIR)
    (hm : node d = some m) (hdir : m.type = T_DIR) (hname : IsName name)
    (hnone : m.lookup name = none) :
    Change node (update (update node i (some n.incLink)) d
      (some (m.link name i)))
  | unlink {d j k : ℕ} {m n : Node} {name : Name} (hm : node d = some m) (hdir : m.type = T_DIR)
    (hname : ¬(namecmp name dot = true ∨ namecmp name dotdot = true))
    (hk : m.lookup name = some k) (hj : j = (m.entry k).inum.toNat) (hne : j ≠ d)
    (hn : node j = some n) (hlink : 1 ≤ n.nlink.toInt)
    (hempty : n.type = T_DIR → n.find (·.inum ≠ 0) 2 = none) :
    Change node (update (update node d (some (m.unlink k n.type))) j
      (some n.decLink))
  | create {d j : ℕ} {m : Node} {name : Name} {type major minor : BitVec 16}
    (htype : type = T_DIR ∨ type = T_FILE ∨ type = T_DEVICE) (hm : node d = some m)
    (hdir : m.type = T_DIR) (hname : IsName name) (hnone : m.lookup name = none) (hj : j ≠ 0)
    (hfree : node j = none) :
    Change node (update (update node j (some (newFile type major minor j d))) d
      (some (m.enter name j type)))
  | write {i : ℕ} {n n' : Node} (hn : node i = some n) (hdir : n.type ≠ T_DIR)
    (htype : n'.type = n.type) (hnlink : n'.nlink = n.nlink) :
    Change node (update node i (some n'))
  | shed {node' : ℕ → Option Node} (h : Sheds node node') : Change node node'

/-- One change after the other. -/
abbrev Changes : (ℕ → Option Node) → (ℕ → Option Node) → Prop := Relation.ReflTransGen Change

/-- What `skipelem` finds in a string. -/
lemma skipelem_isName {path rest : List UInt8} (hpath : 0 ∉ path)
    (h : skipelem path = some (name, rest)) : IsName name ∧ 0 ∉ rest := by
  have hdrop : ∀ x ∈ path.dropWhile (· = slash), x ∈ path := fun x hx =>
    (List.dropWhile_sublist _).subset hx
  have hhead : ∀ c rest, path.dropWhile (· = slash) = c :: rest → c ≠ slash := by
    intro c rest hc
    have hnot := List.head?_dropWhile_not (· = slash) path
    rw [hc] at hnot
    simpa using hnot
  unfold skipelem at h
  split at h
  case h_1 => cases h
  case h_2 c tail heq =>
    rw [heq] at hdrop
    obtain ⟨rfl, rfl⟩ := Prod.mk.inj (Option.some.inj h)
    have hmem : ∀ x ∈ ((c :: tail).takeWhile (· ≠ slash)).take DIRSIZ,
        x ∈ (c :: tail).takeWhile (· ≠ slash) := fun x hx => List.mem_of_mem_take hx
    refine ⟨⟨?_, fun hx => ?_, fun hx => ?_, ?_⟩, fun hx => ?_⟩
    · have hc := hhead c tail heq
      simp [hc, DIRSIZ]
    · have hne := List.mem_takeWhile_imp (hmem _ hx)
      simp at hne
    · exact hpath (hdrop _ ((List.takeWhile_sublist _).subset (hmem _ hx)))
    · rw [List.length_take]
      exact min_le_left ..
    · exact hpath (hdrop _ ((List.dropWhile_sublist _).subset
        ((List.dropWhile_sublist _).subset hx)))

/-- The elements of a path are names. -/
lemma isName_of_mem {path : List UInt8} (hpath : 0 ∉ path) (h : name ∈ elems path) :
    IsName name := by
  have hloop : ∀ fuel path, 0 ∉ path → name ∈ elemsLoop fuel path → IsName name := by
    intro fuel
    induction fuel with
    | zero => exact fun _ _ h => absurd h List.not_mem_nil
    | succ fuel ih =>
      intro path hpath h
      unfold elemsLoop at h
      split at h
      case h_1 => exact absurd h List.not_mem_nil
      case h_2 name' rest heq =>
        obtain ⟨hname, hrest⟩ := skipelem_isName hpath heq
        rcases List.mem_cons.1 h with rfl | h
        · exact hname
        · exact ih rest hrest h
  exact hloop _ path hpath h

lemma null_not_mem_argstr {str : ℕ → Option UInt8} {path : List UInt8}
    (h : argstr str = some path) : 0 ∉ path := by
  unfold argstr at h
  dsimp only at h
  split at h
  case isFalse => cases h
  case isTrue =>
    obtain rfl := Option.some.inj h
    intro hmem
    simpa using List.mem_takeWhile_imp hmem

lemma mem_of_followParent {node : ℕ → Option Node} {names : List Name}
    (h : followParent node i names = some (j, name)) : name ∈ names := by
  unfold followParent at h
  obtain ⟨name', hlast, h⟩ := Option.bind_eq_some_iff.1 h
  obtain ⟨j', -, h⟩ := Option.bind_eq_some_iff.1 h
  split at h
  case isFalse => cases h
  case isTrue =>
    obtain ⟨-, rfl⟩ := Prod.mk.inj (Option.some.inj h)
    exact List.mem_of_getLast? hlast

section Changes

variable {a' : Abs} {path : List UInt8}

lemma Abs.Link.changes {old new : List UInt8} (h : a.Link p old new a') (hnew : 0 ∉ new) :
    Changes a.node a'.node := by
  obtain ⟨-, hn, hfile, hpath, hm, hdir, hnone⟩ := h
  exact (Relation.ReflTransGen.single (.link hn hfile hm hdir
    (isName_of_mem hnew (mem_of_followParent hpath)) hnone)).tail (.shed (Abs.drop_sheds _ _))

lemma Abs.Unlink.changes (h : a.Unlink p path a') : Changes a.node a'.node := by
  obtain ⟨-, hname, hm, hdir, hk, hj, hne, hn, hlink, hempty⟩ := h
  refine (Relation.ReflTransGen.single (.unlink hm hdir hname hk hj hne hn hlink hempty)).tail
    (.shed (Sheds.trans ?_ (Abs.drop_sheds _ _)))
  -- the directory may be freed before the link count of the file is adjusted
  exact (Abs.drop_sheds _ _).update _ _

/-- A new file is a new inode and a new name. -/
lemma Abs.Create.changes {type : BitVec 16} (h : a.Create p path type major minor j a')
    (htype : type = T_DIR ∨ type = T_FILE ∨ type = T_DEVICE) (hpath : 0 ∉ path) :
    Changes a.node a'.node := by
  cases h with
  | found => exact .refl
  | new hd hm hdir hnone hj hfree =>
    exact (Relation.ReflTransGen.single (.create htype hm hdir
      (isName_of_mem hpath (mem_of_followParent hd)) hnone hj hfree)).tail
        (.shed (Abs.drop_sheds _ _))

lemma Abs.Opened.changes (h : a.Opened p path omode i a') (hpath : 0 ∉ path) :
    Changes a.node a'.node := by
  unfold Abs.Opened at h
  split at h
  case isTrue => exact h.changes (.inr (.inl rfl)) hpath
  case isFalse =>
    rw [h.2]

lemma Abs.OpenFile.changes (h : a.OpenFile p path omode fd a') (hpath : 0 ∉ path) :
    Changes a.node a'.node := by
  obtain ⟨hopen, -, hn, -, -, -, -⟩ := h
  refine (hopen.changes hpath).trans ?_
  unfold Abs.openAt
  dsimp only
  split
  case isFalse => exact .refl
  case isTrue htrunc =>
    refine .single (.write hn ?_ rfl rfl)
    rw [htrunc.2]
    decide

lemma Abs.WriteFile.changes (h : a.WriteFile f a') : Changes a.node a'.node := by
  cases h with
  | same => exact .refl
  | write hn hdir htype hnlink => exact .single (.write hn hdir htype hnlink)

end Changes

/-- What may stop a call between consistent states. -/
def Risk (err : Stop) : Prop :=
  err ∈ [.disabled, .panic "iget: no inodes", .panic "ilock: no type", .panic "unlink: nlink < 1",
    .panic "fileread", .panic "filewrite", .panic "filedup", .panic "fileclose"]

/-- Every call keeps the invariant, composes changes, and stops only for the reasons of `Risk`. -/
lemma code_spec (hsb : sb.WellFormed) (hstop : Stops E a) (hfree : a.Free)
    (hE : ∀ err, Risk err → err ≠ .panic "iget: no inodes" → E err)
    (hp : (a.proc p).cwd ≠ none) (c : Call) :
    Triple E (Inv sb a [] []) (c.code p) fun _ s =>
      ∃ a', Changes a.node a'.node ∧ Inv sb a' [] [] s := by
  have hdis : E .disabled := hE _ (by simp [Risk]) (by simp)
  have hclose : E (.panic "fileclose") := hE _ (by simp [Risk]) (by simp)
  have hdup : E (.panic "filedup") := hE _ (by simp [Risk]) (by simp)
  have hmild : ∀ C s, Mild sb a.node C s → ∃ a', Changes a.node a'.node ∧ Inv sb a' [] [] s :=
    fun C s ⟨a', hshed, _, h⟩ => ⟨a', .single (.shed hshed), h⟩
  have hmild' : ∀ s, (∃ C, Mild sb a.node C s) →
      ∃ a', Changes a.node a'.node ∧ Inv sb a' [] [] s := fun s ⟨C, h⟩ => hmild C s h
  cases c with
  | dup fd => exact ((sysDup_mild hdup fd).pre fun _ h => h.mild).post fun _ s h => hmild _ s h
  | read fd len dst ext =>
    refine argfd_spec (.pure fun s h => ⟨a, .refl, h⟩) fun fd f _ => ?_
    exact .map ((fileread_any (hE _ (by simp [Risk]) (by simp)) dst len ext).post
      fun _ s ⟨off, h⟩ => ⟨a.setOff f off, .refl, h⟩)
  | write fd len src ext =>
    refine argfd_spec (.pure fun s h => ⟨a, .refl, h⟩) fun fd f _ => ?_
    refine .of_run fun s h => ((filewrite_any hsb (hE _ (by simp [Risk]) (by simp)) src len ext
      s.hist).run ⟨h, .refl _ _⟩).mono ?_
    rintro r ⟨a', hw, h, -⟩
    exact ⟨a', hw.changes, h⟩
  | close fd =>
    exact ((sysClose_mild hsb hclose fd).pre fun _ h => h.mild).post fun _ s h => hmild _ s h
  | link old new =>
    refine (sysLink_spec hsb hstop hp old new).post fun r s h => ?_
    obtain ⟨-, h⟩ | ⟨-, old', new', a', -, hnew, hlink, h⟩ := h
    · exact ⟨a, .refl, h⟩
    · exact ⟨a', hlink.changes (null_not_mem_argstr hnew), h⟩
  | unlink path =>
    refine (sysUnlink_spec hsb hstop (fun _ => hdis) (fun _ => hE _ (by simp [Risk]) (by simp)) hp
      path).post
      fun r s h => ?_
    obtain ⟨-, h⟩ | ⟨-, path', a', -, hunlink, h⟩ := h
    · exact ⟨a, .refl, h⟩
    · exact ⟨a', hunlink.changes, h⟩
  | «open» path omode =>
    refine (sysOpen_spec hsb hstop hfree hp path omode).post fun r s h => ?_
    obtain ⟨-, -, a', hfail, h⟩ | ⟨path', fd, a', -, hpath, hopen, h⟩ := h
    · obtain rfl | ⟨path', i, hpath, hopen⟩ := hfail
      · exact ⟨a', .refl, h⟩
      · exact ⟨a', hopen.changes (null_not_mem_argstr hpath), h⟩
    · exact ⟨a', hopen.changes (null_not_mem_argstr hpath), h⟩
  | mkdir path =>
    refine (sysMkdir_spec hsb hstop hp path).post fun r s h => ?_
    obtain ⟨-, h⟩ | ⟨-, path', j, a', hpath, hmade, h⟩ := h
    · exact ⟨a, .refl, h⟩
    · exact ⟨a', hmade.changes (.inl rfl) (null_not_mem_argstr hpath), h⟩
  | mknod path major minor =>
    refine (sysMknod_spec hsb hstop hp path major minor).post fun r s h => ?_
    obtain ⟨-, h⟩ | ⟨-, path', j, a', hpath, hmade, h⟩ := h
    · exact ⟨a, .refl, h⟩
    · exact ⟨a', hmade.changes (.inr (.inr rfl)) (null_not_mem_argstr hpath), h⟩
  | chdir path => exact (sysChdir_mild hsb hstop hp path).post fun _ s h => hmild' s h
  | pipe mem out => exact (sysPipe_mild hsb hclose hfree mem out).post fun _ s h => hmild _ s h
  | fork child mem => exact (forkFs_mild hdup hdis mem).post fun _ s h => hmild' s h
  | exec path reads r =>
    exact (execFs_spec hsb hstop hp path reads r).post fun _ s h => ⟨a, .refl, h⟩
  | exit => exact (exitFs_mild hsb hclose hdis).post fun _ s h => hmild' s h

/-- A free file structure has no type. -/
lemma Quiet.free (h : Quiet s) : s.abs.Free := by
  obtain ⟨P, -, hbal⟩ := h
  exact hbal.free

/-- What one call does: it leads from a settled state to a settled one by a composition of
changes, unless it stops. It stops for want of a free entry of the inode table only if at most
two are free when it starts. -/
lemma call_spec (hs : Settled s) (hq : Quiet s)
    (hfull : NINODE ≤ inUse s + 2 → E (.panic "iget: no inodes"))
    (hE : ∀ err, Risk err → err ≠ .panic "iget: no inodes" → E err) (p : Slot) (c : Call) :
    Post E (fun r => Settled r.2 ∧ r.2.sb = s.sb ∧
      Changes (view s.sb s.disk) (view s.sb r.2.disk)) (call p c s) := by
  have hstop : Stops E s.abs := ⟨by rw [hs.used_eq]; exact hfull, fun _ => hE _ (by simp [Risk])
    (by simp),
    fun _ => hE _ (by simp [Risk]) (by simp)⟩
  refine Post.ite (fun hp => ?_) fun _ => hE _ (by simp [Risk]) (by simp)
  refine ((code_spec hs.wf hstop hq.free hE (Option.isSome_iff_ne_none.1 hp) c).run hs.inv).mono ?_
  rintro ⟨r, s'⟩ ⟨a', hchanges, h⟩
  refine ⟨h.settled hs.wf, h.sb_eq, ?_⟩
  rw [h.view_eq]
  exact hchanges

/-! ## Runs -/

variable {d : Disk} {s' : State} {cs : List (Slot × Call)}

/-- A call leads from a settled state to a settled one. -/
lemma next_settled (hs : Settled s) (hq : Quiet s) (h : Next s s') :
    Settled s' ∧ Quiet s' ∧ s'.sb = s.sb ∧ Changes (view s.sb s.disk) (view s.sb s'.disk) := by
  obtain ⟨p, c, r, hcall⟩ := h
  obtain ⟨hs', hsb, hchanges⟩ := (call_spec (E := fun _ => True) hs hq (fun _ => trivial)
    (fun _ _ _ => trivial) p c).of_ok hcall
  exact ⟨hs', (call_quiet hq p c).of_ok hcall, hsb, hchanges⟩

/-- All states between two calls of a system that was booted from a consistent image are
consistent. -/
lemma reachable_settled (hd : Formatted d) (hs : Reachable d s) :
    Settled s ∧ Quiet s ∧ s.sb = readsb d ∧
      Changes (view (readsb d) d) (view (readsb d) s.disk) := by
  refine preserved (I := fun s => Settled s ∧ Quiet s ∧ s.sb = readsb d ∧ Changes _
    (view (readsb d) s.disk)) (fun s s' h hnext => ?_) ⟨hd.settled, boot_quiet d, rfl, .refl⟩ hs
  obtain ⟨hs, hq, hsb, hchanges⟩ := h
  obtain ⟨hs', hq', hsb', hchanges'⟩ := next_settled hs hq hnext
  rw [hsb] at hchanges'
  exact ⟨hs', hq', hsb'.trans hsb, hchanges.trans hchanges'⟩

/-- The calls one after the other, each by a process. -/
def calls (cs : List (Slot × Call)) (s : State) : Except Stop State :=
  cs.foldlM (fun s x => (call x.1 x.2 s).map Prod.snd) s

lemma calls_append (cs cs' : List (Slot × Call)) (s : State) :
    calls (cs ++ cs') s = calls cs s >>= calls cs' := List.foldlM_append ..

/-- What calls reach is reachable. -/
lemma calls_reachable (hs : Reachable d s) (h : calls cs s = .ok s') : Reachable d s' := by
  refine (Post.foldlM (E := fun _ => True) (I := Reachable d) cs hs fun s x hs => ?_).of_ok h
  cases hcall : call x.1 x.2 s with
  | error err => trivial
  | ok r => exact hs.tail ⟨x.1, x.2, r.1, hcall⟩

/-- Calls that stop have reached a state from which one of them stops. -/
lemma calls_error {err : Stop} (hs : Reachable d s) (h : calls cs s = .error err) :
    ∃ s', Reachable d s' ∧ ∃ x ∈ cs, call x.1 x.2 s' = .error err := by
  induction cs generalizing s with
  | nil => cases h
  | cons x cs ih =>
    rw [calls, List.foldlM_cons] at h
    cases hcall : call x.1 x.2 s with
    | error e =>
      rw [hcall] at h
      obtain rfl : e = err := Except.error.inj h
      exact ⟨s, hs, x, List.mem_cons_self, hcall⟩
    | ok r =>
      rw [hcall] at h
      obtain ⟨s', hs', y, hy, hstop⟩ := ih (hs.tail ⟨x.1, x.2, r.1, hcall⟩) h
      exact ⟨s', hs', y, List.mem_cons_of_mem _ hy, hstop⟩

end Xv6.Fs
