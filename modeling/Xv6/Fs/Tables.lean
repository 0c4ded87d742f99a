import Xv6.Fs.Files
import Xv6.Fs.Names
import Xv6.Fs.ReadWrite

/-!
# References that move between the tables

A reference to an inode is in the hands of the running call, in an open file or in a process.
Opening a file, closing it, changing the directory, forking and exiting move references from one
place to another; the inode table is not concerned, and neither are the files on disk, until the
last reference to an inode without links is given up.
-/

namespace Xv6.Fs

open Xv6.Lib
open Xv6.Process (Slot Stop)
open Function (update update_of_ne update_self update_idem)

variable {sb : Superblock} {a b : Abs} {H : Hands} {L : List Ino} {s : State} {e : Ino} {i : ℕ}
  {n : Node} {E : Stop → Prop} {α β : Type} {p : Slot} {f : FileNo} {fd : Fin NOFILE}
  {Q : β → State → Prop}

/-! ## The tables of the abstract state -/

namespace Abs

/-- Entry `f` of the file table is `x`. -/
def setFile (a : Abs) (f : FileNo) (x : File) : Abs :=
  { a with ftable := update a.ftable f x }

/-- Descriptor `fd` of process `p` is `o`. -/
def setOfile (a : Abs) (p : Slot) (fd : Fin NOFILE) (o : Option FileNo) : Abs :=
  { a with proc := withOfile a.proc p fd o }

/-- The current directory of process `p` is `o`. -/
def setCwd (a : Abs) (p : Slot) (o : Option Ino) : Abs := { a with proc := withCwd a.proc p o }

/-- Entry `e` of the inode table is that of inode `i`. -/
def setInum (a : Abs) (e : Ino) (i : ℕ) : Abs := { a with inum := update a.inum e i }

/-- A file structure that changes its target moves one reference. -/
lemma setFile_pinned (a : Abs) (f : FileNo) (x : File) (e : Ino) :
    ((a.setFile f x).pinned e : ℤ) =
      a.pinned e + tally x.target e - tally (a.ftable f).target e := by
  have hup := refs_update (targets a.ftable) f x.target e
  rw [← targets_update] at hup
  unfold pinned setFile
  dsimp only
  push_cast
  rw [hup]
  unfold targets
  omega

/-- A process that changes its directory moves one reference. -/
lemma setCwd_pinned (a : Abs) (p : Slot) (o : Option Ino) (e : Ino) :
    ((a.setCwd p o).pinned e : ℤ) = a.pinned e + tally o e - tally (a.proc p).cwd e := by
  have hup := refs_update (cwds a.proc) p o e
  rw [← cwds_withCwd] at hup
  unfold pinned setCwd
  dsimp only
  push_cast
  rw [hup]
  unfold cwds
  omega

@[simp] lemma setOfile_pinned (a : Abs) (p : Slot) (fd : Fin NOFILE) (o : Option FileNo) :
    (a.setOfile p fd o).pinned = a.pinned := by
  funext e
  unfold pinned setOfile
  rw [cwds_withOfile]

lemma setFile_self (a : Abs) (f : FileNo) (x : File) : (a.setFile f x).ftable f = x :=
  update_self ..

lemma setFile_of_ne (a : Abs) {f' : FileNo} (h : f' ≠ f) (x : File) :
    (a.setFile f x).ftable f' = a.ftable f' := update_of_ne h ..

end Abs

/-- What a file or process refers to newly was in hand before, and the other way round. -/
lemma Inv.retable (h : Inv sb a H L s) {H' : Hands} (hnode : b.node = a.node)
    (hcount : ∀ e, b.pinned e + inHand H' e = a.pinned e + inHand H e)
    (hhand : ∀ e i, (e, i) ∈ H' → (s.itable e).inum = i)
    (hpin : ∀ e, b.pinned e ≠ 0 → (s.itable e).inum = b.inum e ∧ a.node (b.inum e) ≠ none)
    (hfiles : ∀ f e, (b.ftable f).target = some e → (b.ftable f).type = .inode →
      (b.ftable f).writable = true → ∀ n, a.node (b.inum e) = some n → n.type ≠ T_DIR) :
    Inv sb b H' L { s with proc := b.proc, ftable := b.ftable } := by
  have ht := h.table
  refine ⟨h.sb_eq, rfl, rfl, h.view_eq.trans hnode.symm, h.sound, by rw [hnode]; exact h.dirs,
    ⟨fun e => ?_, hhand, fun e hp => (hpin e hp).1, ht.inj, ht.lt, ht.cached, ht.locked, ht.lock,
      by rw [hnode]; exact ht.held⟩, by rw [hnode]; exact fun e hp => (hpin e hp).2,
    by rw [hnode]; exact hfiles⟩
  exact (ht.ref e).trans (hcount e).symm

/-- The tables change, and no reference with them. -/
lemma Inv.tables (h : Inv sb a H L s) (hnode : b.node = a.node) (hinum : b.inum = a.inum)
    (hpinned : b.pinned = a.pinned)
    (hfile : ∀ f, (b.ftable f).type = .inode → (b.ftable f).writable = true →
      (a.ftable f).type = .inode ∧ (a.ftable f).writable = true ∧
      (b.ftable f).ip = (a.ftable f).ip) :
    Inv sb b H L { s with proc := b.proc, ftable := b.ftable } := by
  refine h.retable hnode (fun e => by rw [hpinned]) h.table.hand (fun e hp => ?_)
    fun f e htarget htype hw m hm => ?_
  · rw [hpinned] at hp
    rw [hinum]
    exact ⟨h.table.pin e hp, h.alive e hp⟩
  · obtain ⟨htype', hw', hip⟩ := hfile f htype hw
    rw [File.target, htype, Option.some.injEq] at htarget
    rw [hinum, ← htarget, hip] at hm
    exact h.files f _ (by rw [File.target, htype']) htype' hw' m hm

lemma inHand_cons (H : Hands) (e e' : Ino) (i : ℕ) :
    (inHand ((e, i) :: H) e' : ℤ) = inHand H e' + tally (some e) e' := by
  by_cases he : e' = e
  · subst he
    rw [inHand_cons_self, tally_self]
    rfl
  · rw [inHand_cons_of_ne H he]
    simp [tally, Ne.symm he]

/-- A file or process gives its reference to entry `e` to the running call. -/
lemma Inv.take (h : Inv sb a H L s) (hnode : b.node = a.node) (hinum : b.inum = a.inum)
    (hp : a.pinned e ≠ 0) (hpinned : ∀ e', (b.pinned e' : ℤ) = a.pinned e' - tally (some e) e')
    (hfile : ∀ f, (b.ftable f).type = .inode → b.ftable f = a.ftable f) :
    Inv sb b ((e, a.inum e) :: H) L { s with proc := b.proc, ftable := b.ftable } := by
  refine h.retable hnode (fun e' => ?_) (fun e' i' hmem => ?_) (fun e' hp' => ?_)
    fun f e' ht htype hw => ?_
  · have hcount := inHand_cons H e e' (a.inum e)
    have hset := hpinned e'
    omega
  · rcases List.mem_cons.1 hmem with heq | hmem
    · obtain ⟨rfl, rfl⟩ := Prod.mk.inj heq
      exact h.table.pin e' hp
    · exact h.table.hand e' i' hmem
  · have hset := hpinned e'
    have hnonneg : 0 ≤ tally (some e) e' := tally_nonneg _ _
    have hp' : a.pinned e' ≠ 0 := by omega
    rw [hinum]
    exact ⟨h.table.pin e' hp', h.alive e' hp'⟩
  · have hsame := hfile f htype
    rw [hsame] at ht htype hw
    rw [hinum]
    exact h.files f e' ht htype hw

/-- The running call gives its reference to inode `i` to a file or process. -/
lemma Inv.give (h : Inv sb a ((e, i) :: H) L s) (hnode : b.node = a.node)
    (hinum : b.inum = update a.inum e i) (hn : a.node i ≠ none)
    (hpinned : ∀ e', (b.pinned e' : ℤ) = a.pinned e' + tally (some e) e')
    (hfile : ∀ f, (b.ftable f).type = .inode → (b.ftable f).writable = true →
      b.ftable f = a.ftable f ∨ ((b.ftable f).ip = e ∧ ∀ n, a.node i = some n → n.type ≠ T_DIR)) :
    Inv sb b H L { s with proc := b.proc, ftable := b.ftable } := by
  have hself := h.table.hand e i (List.mem_cons_self ..)
  -- the entries that were referred to before are those of the same inodes
  have hsame : ∀ e', a.pinned e' ≠ 0 → b.inum e' = a.inum e' := by
    intro e' hp
    rw [hinum]
    by_cases he : e' = e
    · subst he
      rw [update_self, ← h.table.pin e' hp, hself]
    · exact update_of_ne he ..
  refine h.retable hnode (fun e' => ?_)
    (fun e' i' hmem => h.table.hand e' i' (List.mem_cons_of_mem _ hmem)) (fun e' hp' => ?_)
    fun f e' ht htype hw n hn' => ?_
  · have hcount := inHand_cons H e e' i
    have hset := hpinned e'
    omega
  · by_cases he : e' = e
    · subst he
      rw [hinum, update_self]
      exact ⟨hself, hn⟩
    · have hset := hpinned e'
      rw [show tally (some e) e' = 0 by simp [tally, Ne.symm he]] at hset
      have hp : a.pinned e' ≠ 0 := by omega
      rw [hsame e' hp]
      exact ⟨h.table.pin e' hp, h.alive e' hp⟩
  · obtain hf | ⟨hip, hdir⟩ := hfile f htype hw
    · rw [hf] at ht htype hw
      rw [hsame e' (Abs.pinned_of_target ht)] at hn'
      exact h.files f e' ht htype hw n hn'
    · rw [File.target, htype, Option.some.injEq] at ht
      obtain rfl : e = e' := hip.symm.trans ht
      rw [hinum, update_self] at hn'
      exact hdir n hn'

/-! ## Descriptors -/

lemma setOfile_spec (p : Slot) (fd : Fin NOFILE) (o : Option FileNo) :
    Triple E (Inv sb a H L) (setOfile p fd o) fun _ => Inv sb (a.setOfile p fd o) H L := by
  refine .modify fun s h => ?_
  have hnew := h.tables (b := a.setOfile p fd o) rfl rfl (by simp) fun _ htype hw =>
    ⟨htype, hw, rfl⟩
  have hs : s.setProc p (fun x => { x with ofile := update x.ofile fd o }) =
      { s with proc := (a.setOfile p fd o).proc, ftable := (a.setOfile p fd o).ftable } := by
    simp only [State.setProc, Abs.setOfile, withOfile, ← h.proc, ← h.ftable]
  rw [hs]
  exact hnew

/-- `argfd` finds an open file of the process, or fails. -/
lemma argfd_spec {k : Option (Fin NOFILE × FileNo) → FsM β} {fd : BitVec 32}
    (hnone : Triple E (Inv sb a H L) (k none) Q)
    (hsome : ∀ fd f, (a.proc p).ofile fd = some f → Triple E (Inv sb a H L) (k (some (fd, f))) Q) :
    Triple E (Inv sb a H L) (argfd p fd >>= k) Q := by
  refine .of_run fun s hs => ?_
  obtain ⟨r, hr, hfd⟩ : ∃ r, (argfd p fd).run s = .ok (r, s) ∧
      ∀ fd f, r = some (fd, f) → (a.proc p).ofile fd = some f := by
    refine ⟨_, rfl, fun fd' f' heq => ?_⟩
    split at heq
    case isFalse => cases heq
    case isTrue hlt =>
      obtain ⟨g, hg, hpair⟩ := Option.map_eq_some_iff.1 heq
      obtain ⟨rfl, rfl⟩ := Prod.mk.inj hpair
      rwa [← hs.proc]
  rw [run_bind_of_ok hr]
  cases r with
  | none => exact hnone.run hs
  | some x => exact (hsome x.1 x.2 (hfd _ _ rfl)).run hs

/-- `fdalloc` takes a free descriptor, and fails only if there is none. -/
lemma fdalloc_spec (p : Slot) (f : FileNo) :
    Triple E (Inv sb a H L) (fdalloc p f) fun r s =>
      (r = none ∧ (∀ fd, (a.proc p).ofile fd ≠ none) ∧ Inv sb a H L s) ∨
      ∃ fd, r = some fd ∧ (a.proc p).ofile fd = none ∧ Inv sb (a.setOfile p fd (some f)) H L s := by
  refine .read_bind fun s h => ?_
  rw [h.proc]
  cases hfind : (List.finRange NOFILE).find? fun fd => (a.proc p).ofile fd = none with
  | none =>
    refine .pure fun _ h => .inl ⟨rfl, fun fd hfd => ?_, h⟩
    exact List.find?_eq_none.1 hfind fd (List.mem_finRange fd) (decide_eq_true hfd)
  | some fd =>
    have hfd : (a.proc p).ofile fd = none := by simpa using List.find?_some hfind
    exact (setOfile_spec p fd (some f)).bind fun _ => .pure fun _ h => .inr ⟨fd, rfl, hfd, h⟩

/-! ## Open files -/

/-- Assignments to a file that do not concern what it refers to. -/
lemma modifyFile_spec {g : File → File} (htarget : (g (a.ftable f)).target = (a.ftable f).target)
    (hfile : (g (a.ftable f)).type = .inode → (g (a.ftable f)).writable = true →
      (a.ftable f).type = .inode ∧ (a.ftable f).writable = true ∧
      (g (a.ftable f)).ip = (a.ftable f).ip) :
    Triple E (Inv sb a H L) (modifyFile f g) fun _ =>
      Inv sb (a.setFile f (g (a.ftable f))) H L := by
  refine .modify fun s h => ?_
  have hnew := h.tables (b := a.setFile f (g (a.ftable f))) rfl rfl ?_ fun f' htype hw => ?_
  · rwa [show s.setFile f g = { s with
      proc := (a.setFile f (g (a.ftable f))).proc
      ftable := (a.setFile f (g (a.ftable f))).ftable } by
        simp only [State.setFile, Abs.setFile, ← h.proc, ← h.ftable]]
  · funext e
    have hpinned := a.setFile_pinned f (g (a.ftable f)) e
    rw [htarget] at hpinned
    omega
  · by_cases hf : f' = f
    · subst hf
      rw [Abs.setFile_self] at htype hw ⊢
      exact hfile htype hw
    · rw [Abs.setFile_of_ne a hf] at htype hw ⊢
      exact ⟨htype, hw, rfl⟩

/-- `filealloc` takes a free structure, and fails only if there is none. -/
lemma filealloc_spec :
    Triple E (Inv sb a H L) filealloc fun r s =>
      (r = none ∧ (∀ f, (a.ftable f).ref ≠ 0) ∧ Inv sb a H L s) ∨
      ∃ f, r = some f ∧ (a.ftable f).ref = 0 ∧
        Inv sb (a.setFile f { a.ftable f with ref := 1 }) H L s := by
  refine .read_bind fun s h => ?_
  rw [h.ftable]
  cases hfind : (List.finRange NFILE).find? fun f => (a.ftable f).ref = 0 with
  | none =>
    refine .pure fun _ h => .inl ⟨rfl, fun f hf => ?_, h⟩
    exact List.find?_eq_none.1 hfind f (List.mem_finRange f) (decide_eq_true hf)
  | some f =>
    have hf : (a.ftable f).ref = 0 := by simpa using List.find?_some hfind
    exact (modifyFile_spec rfl fun htype hw => ⟨htype, hw, rfl⟩).bind fun _ =>
      .pure fun _ h => .inr ⟨f, rfl, hf, h⟩

/-- `filedup` counts one more reference to an open file. -/
lemma filedup_spec (hE : (a.ftable f).ref < 1 → E (.panic "filedup")) :
    Triple E (Inv sb a H L) (filedup f) fun _ =>
      Inv sb (a.setFile f { a.ftable f with ref := (a.ftable f).ref + 1 }) H L :=
  file_spec (.ite (fun h => .throw_bind (hE h)) fun _ =>
    modifyFile_spec rfl fun htype hw => ⟨htype, hw, rfl⟩)

/-- The entry of a file after its last reference is gone. -/
def File.closed (x : File) : File := { x with ref := 0, type := .none }

/-- `fileclose` on the abstract state. -/
def Abs.closeFile (a : Abs) (f : FileNo) : Abs :=
  if 1 < (a.ftable f).ref then a.setFile f { a.ftable f with ref := (a.ftable f).ref - 1 }
  else
    match (a.ftable f).target with
    | some e => (a.setFile f (a.ftable f).closed).drop (a.inum e)
    | none => a.setFile f (a.ftable f).closed

/-- The reference of a file that is closed goes to the running call. -/
lemma Inv.takeFile (h : Inv sb a H L s) (htarget : (a.ftable f).target = some e) :
    Inv sb (a.setFile f (a.ftable f).closed) ((e, a.inum e) :: H) L (s.setFile f File.closed) := by
  have hnew := h.take (b := a.setFile f (a.ftable f).closed) rfl rfl
    (Abs.pinned_of_target htarget) (fun e' => ?_) fun f' htype => ?_
  · rwa [show s.setFile f File.closed = { s with
      proc := (a.setFile f (a.ftable f).closed).proc
      ftable := (a.setFile f (a.ftable f).closed).ftable } by
        simp only [State.setFile, Abs.setFile, ← h.proc, ← h.ftable]]
  · rw [Abs.setFile_pinned, htarget, show (a.ftable f).closed.target = none from rfl, tally_none,
      Pi.zero_apply, add_zero]
  · by_cases hf : f' = f
    · subst hf
      rw [Abs.setFile_self] at htype
      cases htype
    · exact Abs.setFile_of_ne a hf _

/-- `fileclose` counts one reference less, and the last one gives the inode back. -/
lemma fileclose_spec (hsb : sb.WellFormed) (hE : (a.ftable f).ref < 1 → E (.panic "fileclose"))
    (hlast : ∀ e, (a.ftable f).target = some e → e ∉ L ∧ inHand H e = 0) :
    Triple E (Inv sb a H L) (fileclose f) fun _ => Inv sb (a.closeFile f) H L := by
  refine file_spec (.ite (fun h => .throw_bind (hE h)) fun _ => .ite (fun hmore => ?_)
    fun hone => ?_)
  · rw [Abs.closeFile, if_pos hmore]
    exact modifyFile_spec rfl fun htype hw => ⟨htype, hw, rfl⟩
  · rw [Abs.closeFile, if_neg hone]
    have hclose : (a.ftable f).target = none → Triple E (Inv sb a H L) (modifyFile f File.closed)
        fun _ => Inv sb (a.setFile f (a.ftable f).closed) H L := fun htarget =>
      modifyFile_spec htarget.symm fun htype => by cases htype
    have hput : (a.ftable f).target = some (a.ftable f).ip → Triple E (Inv sb a H L) (do
        modifyFile f File.closed
        iput (a.ftable f).ip) fun _ =>
          Inv sb ((a.setFile f (a.ftable f).closed).drop (a.inum (a.ftable f).ip)) H L := by
      intro htarget
      refine .bind (Q := fun _ => Inv sb (a.setFile f (a.ftable f).closed)
        (((a.ftable f).ip, a.inum (a.ftable f).ip) :: H) L)
        (.modify fun s h => h.takeFile htarget) fun _ => ?_
      obtain ⟨heL, hhand⟩ := hlast _ htarget
      exact iput_drop hsb heL hhand
    cases htype : (a.ftable f).type with
    | inode | device =>
      have htarget : (a.ftable f).target = some (a.ftable f).ip := by rw [File.target, htype]
      rw [htarget]
      exact hput htarget
    | pipe | none =>
      have htarget : (a.ftable f).target = none := by rw [File.target, htype]
      rw [htarget]
      exact (hclose htarget).bind fun _ => .skip

/-- A reference in hand goes to the file `x`. -/
lemma Inv.giveFile (h : Inv sb a ((e, i) :: H) L s) (hn : a.node i ≠ none) {x : File}
    (hfree : (a.ftable f).target = none) (htarget : x.target = some e)
    (hdir : x.writable = true → ∀ n, a.node i = some n → n.type ≠ T_DIR) :
    Inv sb ((a.setInum e i).setFile f x) H L (s.setFile f fun _ => x) := by
  have hnew := h.give (b := (a.setInum e i).setFile f x) rfl rfl hn (fun e' => ?_)
    fun f' htype hw => ?_
  · rwa [show s.setFile f (fun _ => x) = { s with
      proc := ((a.setInum e i).setFile f x).proc
      ftable := ((a.setInum e i).setFile f x).ftable } by
        simp only [State.setFile, Abs.setFile, Abs.setInum, ← h.proc, ← h.ftable]]
  · rw [Abs.setFile_pinned, htarget, show ((a.setInum e i).ftable f).target = none from hfree,
      tally_none, Pi.zero_apply, sub_zero]
    rfl
  · by_cases hf : f' = f
    · subst hf
      rw [Abs.setFile_self] at htype hw ⊢
      rw [File.target, htype, Option.some.injEq] at htarget
      exact .inr ⟨htarget, hdir hw⟩
    · exact .inl (Abs.setFile_of_ne _ hf _)

/-! ## Current directories -/

/-- The reference of a current directory goes to the running call. -/
lemma Inv.takeCwd (h : Inv sb a H L s) (hcwd : (a.proc p).cwd = some e) :
    Inv sb (a.setCwd p none) ((e, a.inum e) :: H) L
      (s.setProc p fun x => { x with cwd := none }) := by
  have hnew := h.take (b := a.setCwd p none) rfl rfl (Abs.pinned_of_cwd hcwd) (fun e' => ?_)
    fun _ _ => rfl
  · rwa [show s.setProc p (fun x => { x with cwd := none }) = { s with
      proc := (a.setCwd p none).proc
      ftable := (a.setCwd p none).ftable } by
        simp only [State.setProc, Abs.setCwd, withCwd, ← h.proc, ← h.ftable]]
  · rw [Abs.setCwd_pinned, hcwd, tally_none, Pi.zero_apply, add_zero]

/-- A reference in hand goes to a process without current directory. -/
lemma Inv.giveCwd (h : Inv sb a ((e, i) :: H) L s) (hn : a.node i ≠ none)
    (hcwd : (a.proc p).cwd = none) :
    Inv sb ((a.setInum e i).setCwd p (some e)) H L
      (s.setProc p fun x => { x with cwd := some e }) := by
  have hnew := h.give (b := (a.setInum e i).setCwd p (some e)) rfl rfl hn (fun e' => ?_)
    fun _ _ _ => .inl rfl
  · rwa [show s.setProc p (fun x => { x with cwd := some e }) = { s with
      proc := ((a.setInum e i).setCwd p (some e)).proc
      ftable := ((a.setInum e i).setCwd p (some e)).ftable } by
        simp only [State.setProc, Abs.setCwd, Abs.setInum, withCwd, ← h.proc, ← h.ftable]]
  · rw [Abs.setCwd_pinned, show ((a.setInum e i).proc p).cwd = none from hcwd, tally_none,
      Pi.zero_apply, sub_zero]
    rfl

/-- The program neither reads nor writes the process table. -/
def Frames (m : FsM α) : Prop := ∀ (P : Slot → Proc) (s : State),
  m.run { s with proc := P } = (m.run s).map fun r => (r.1, { r.2 with proc := P })

namespace Frames

lemma bind {m : FsM α} {k : α → FsM β} (hm : Frames m) (hk : ∀ x, Frames (k x)) :
    Frames (m >>= k) := by
  intro P s
  rw [StateT.run_bind, StateT.run_bind, hm P s]
  cases hrun : m.run s with
  | error err => rfl
  | ok r => exact hk r.1 P r.2

lemma ite {c : Prop} [Decidable c] {m m' : FsM α} (hm : Frames m) (hm' : Frames m') :
    Frames (if c then m else m') := by
  split
  · exact hm
  · exact hm'

lemma throw (err : Stop) : Frames (throw err : FsM α) := fun _ _ => rfl

lemma inode (e : Ino) : Frames (inode e) := fun _ _ => rfl

lemma modify {g : State → State} (hg : ∀ (P : Slot → Proc) s,
    g { s with proc := P } = { g s with proc := P }) :
    Frames (modify g) := fun P s => congrArg (fun t => Except.ok (PUnit.unit, t)) (hg P s)

lemma onInode {g : Superblock → ℕ → Dinode → Disk → Except Stop (α × Dinode × Disk)} :
    Frames (onInode e g) := by
  intro P s
  rw [onInode_run, onInode_run]
  dsimp only
  cases g s.sb (s.itable e).inum (s.itable e).din s.disk with
  | error err => rfl
  | ok r => rfl

lemma iput (e : Ino) : Frames (iput e) := by
  have hacquire : Frames (acquiresleep e) :=
    (inode e).bind fun _ => .ite ((throw _).bind fun _ => .modify fun _ _ => rfl)
      (.modify fun _ _ => rfl)
  have hfree : Frames (ifree e) :=
    hacquire.bind fun _ => onInode.bind fun _ =>
      .bind (.modify fun _ _ => rfl) fun _ => .bind (.modify fun _ _ => rfl) fun _ =>
      .bind (.modify fun _ _ => rfl) fun _ => .modify fun _ _ => rfl
  exact (inode e).bind fun _ => .ite (hfree.bind fun _ => .modify fun _ _ => rfl)
    (.modify fun _ _ => rfl)

end Frames

/-- A current directory is given up. The process keeps it until the `iput` is over. -/
lemma iput_cwd_spec (hsb : sb.WellFormed) (hcwd : (a.proc p).cwd = some e) :
    Triple E (Inv sb a H []) (do iput e; setCwd p none) fun _ =>
      Inv sb ((a.setCwd p none).put H e (a.inum e)) H [] := by
  refine .of_run fun s h => ?_
  have hput := (iput_spec (E := E) hsb (absurd · List.not_mem_nil)).run (h.takeCwd hcwd)
  have hs : s.setProc p (fun x => { x with cwd := none }) =
      { s with proc := withCwd a.proc p none } := by
    simp only [State.setProc, withCwd, ← h.proc]
  rw [hs, Frames.iput e] at hput
  rw [StateT.run_bind]
  cases hrun : (iput e).run s with
  | error err =>
    rw [hrun] at hput
    exact hput
  | ok r =>
    obtain ⟨u, s'⟩ := r
    rw [hrun] at hput
    -- `iput` left the process table alone
    have hproc : s'.proc = s.proc := by
      have hself := Frames.iput e s.proc s
      rw [show ({ s with proc := s.proc } : State) = s from rfl, hrun] at hself
      have hs' := (Prod.mk.inj (Except.ok.inj hself)).2
      rw [hs']
    have hend : s'.setProc p (fun x => { x with cwd := none }) =
        { s' with proc := withCwd a.proc p none } := by
      simp only [State.setProc, withCwd, hproc, ← h.proc]
    show Inv sb _ H [] (s'.setProc p fun x => { x with cwd := none })
    rw [hend]
    exact hput

/-- `iput` of the directory that a process leaves. -/
lemma iput_cwd_bind (hsb : sb.WellFormed) (hcwd : (a.proc p).cwd = some e) {k : FsM β}
    (hk : Triple E (Inv sb ((a.setCwd p none).put H e (a.inum e)) H []) k Q) :
    Triple E (Inv sb a H []) (do iput e; setCwd p none; k) Q := by
  have h := (iput_cwd_spec (E := E) hsb hcwd).bind fun _ => hk
  rwa [bind_assoc] at h

lemma setCwd_setCwd (p : Slot) (o : Option Ino) :
    (do setCwd p none; setCwd p o) = setCwd p o := by
  funext s
  show Except.ok ((), (s.setProc p _).setProc p _) = Except.ok ((), s.setProc p _)
  simp only [State.setProc, update_self, update_idem]

end Xv6.Fs
