import Xv6.Fs.Refs
import Xv6.Fs.View

/-!
# The file system between two steps of a call

`Abs` is the abstract state: the files, and who refers to them. `Inv sb a H L s` says that the
state `s` of the code stands for `a`, while the running call has the references `H` in hand and
holds the locks `L`. In particular an entry of the inode table that is in use agrees with the
inode on disk, and an inode without links is in the table as long as it is allocated.

Then there is one specification for each function on inodes: how it changes `a`, `H` and `L`.
-/

namespace Xv6.Fs

open Xv6.Lib
open Xv6.Process (Slot Stop)
open Function (update update_of_ne update_self update_eq_self update_idem)

/-! ## The abstract state -/

/-- The files, the tables that refer to inodes, and the numbers of the inodes they refer to. -/
structure Abs where
  node : ℕ → Option Node
  proc : Slot → Proc
  ftable : FileNo → File
  inum : Ino → ℕ

namespace Abs

/-- The number of current directories and files that refer to entry `e` of the inode table. -/
def pinned (a : Abs) (e : Ino) : ℕ := refs (cwds a.proc) e + refs (targets a.ftable) e

/-- The number of entries that current directories and files refer to. -/
def used (a : Abs) : ℕ := (Finset.univ.filter fun e => a.pinned e ≠ 0).card

/-- Inode `i` is changed, or freed. -/
def set (a : Abs) (i : ℕ) (n : Option Node) : Abs := { a with node := update a.node i n }

@[simp] lemma set_node (a : Abs) (i : ℕ) (n : Option Node) :
    (a.set i n).node = update a.node i n := rfl

@[simp] lemma set_pinned (a : Abs) (i : ℕ) (n : Option Node) : (a.set i n).pinned = a.pinned := rfl

@[simp] lemma set_inum (a : Abs) (i : ℕ) (n : Option Node) : (a.set i n).inum = a.inum := rfl

lemma set_set (a : Abs) (i : ℕ) (n n' : Option Node) : (a.set i n).set i n' = a.set i n' := by
  simp only [set, update_idem]

lemma set_eq_self {a : Abs} {i : ℕ} {n : Option Node} (h : a.node i = n) : a.set i n = a := by
  simp only [set, ← h, update_eq_self]

end Abs

/-- The references in the hands of the running call: entries of the inode table, with the numbers
of the inodes in them. -/
abbrev Hands := List (Ino × ℕ)

/-- The number of references in hand to entry `e`. -/
def inHand (H : Hands) (e : Ino) : ℕ := H.countP fun h => h.1 = e

@[simp] lemma inHand_nil (e : Ino) : inHand [] e = 0 := rfl

@[simp] lemma inHand_cons_self (H : Hands) (e : Ino) (i : ℕ) :
    inHand ((e, i) :: H) e = inHand H e + 1 := by simp [inHand]

lemma inHand_cons_of_ne (H : Hands) {e e' : Ino} (h : e' ≠ e) (i : ℕ) :
    inHand ((e, i) :: H) e' = inHand H e' := by simp [inHand, Ne.symm h]

lemma inHand_ne_zero {H : Hands} {e : Ino} {i : ℕ} (h : (e, i) ∈ H) : inHand H e ≠ 0 := by
  have hpos : 0 < inHand H e := List.countP_pos_iff.2 ⟨(e, i), h, by simp⟩
  omega

lemma mem_of_inHand_ne_zero {H : Hands} {e : Ino} (h : inHand H e ≠ 0) : ∃ i, (e, i) ∈ H := by
  obtain ⟨⟨e', i⟩, hmem, heq⟩ := List.countP_pos_iff.1 (Nat.pos_of_ne_zero h)
  have he : e' = e := by simpa using heq
  exact ⟨i, he ▸ hmem⟩

/-- The references in hand are to at most as many entries. -/
lemma inHand_pos_card (H : Hands) :
    (Finset.univ.filter fun e => inHand H e ≠ 0).card ≤ H.length := by
  calc _ ≤ (H.map Prod.fst).toFinset.card := by
        refine Finset.card_le_card fun e he => ?_
        obtain ⟨i, hi⟩ := mem_of_inHand_ne_zero (Finset.mem_filter.1 he).2
        exact List.mem_toFinset.2 (List.mem_map.2 ⟨(e, i), hi, rfl⟩)
    _ ≤ (H.map Prod.fst).length := List.toFinset_card_le _
    _ = H.length := List.length_map _

/-! ## The invariant -/

/-- A directory consists of whole entries, which name inodes in range. -/
structure Node.Proper (sb : Superblock) (n : Node) : Prop where
  whole : n.Whole
  lt : ∀ k < n.slots, (n.entry k).inum.toNat < sb.ninodes

/-- The inode table `t` stands for `a` with the references `H` and the locks `L`, where the inodes
on disk are `din`. -/
structure Table (sb : Superblock) (a : Abs) (H : Hands) (L : List Ino) (din : ℕ → Dinode)
    (t : Ino → Inode) : Prop where
  ref : ∀ e, (t e).ref = a.pinned e + inHand H e
  hand : ∀ e i, (e, i) ∈ H → (t e).inum = i
  pin : ∀ e, a.pinned e ≠ 0 → (t e).inum = a.inum e
  inj : ∀ e e', (t e).ref ≠ 0 → (t e').ref ≠ 0 → (t e).inum = (t e').inum → e = e'
  lt : ∀ e, (t e).ref ≠ 0 → (t e).inum < sb.ninodes
  /-- An entry that was read agrees with the inode on disk. -/
  cached : ∀ e, (t e).ref ≠ 0 → (t e).valid = true →
    (t e).din = din (t e).inum ∧ (t e).din.type ≠ 0
  locked : ∀ e, (t e).locked = true ↔ e ∈ L
  lock : ∀ e ∈ L, (t e).valid = true ∧ (t e).ref ≠ 0
  /-- An allocated inode without links is in the table. -/
  held : ∀ i n, a.node i = some n → n.nlink = 0 →
    ∃ e, (t e).ref ≠ 0 ∧ (t e).inum = i ∧ (t e).valid = true

/-- The state `s` stands for `a`, with the references `H` and the locks `L`. -/
structure Inv (sb : Superblock) (a : Abs) (H : Hands) (L : List Ino) (s : State) : Prop where
  sb_eq : s.sb = sb
  proc : s.proc = a.proc
  ftable : s.ftable = a.ftable
  view_eq : view sb s.disk = a.node
  sound : Sound sb s.disk (dinode sb s.disk)
  dirs : ∀ i n, a.node i = some n → n.type = T_DIR → n.Proper sb
  table : Table sb a H L (dinode sb s.disk) s.itable
  /-- What processes and files refer to is allocated. -/
  alive : ∀ e, a.pinned e ≠ 0 → a.node (a.inum e) ≠ none
  /-- No file is open for writing that is a directory. -/
  files : ∀ f e, (a.ftable f).target = some e → (a.ftable f).type = .inode →
    (a.ftable f).writable = true → ∀ n, a.node (a.inum e) = some n → n.type ≠ T_DIR

variable {sb : Superblock} {a : Abs} {H H' : Hands} {L L' : List Ino} {s : State} {e : Ino} {i : ℕ}
  {n : Node} {E : Stop → Prop} {α β : Type} {x : Inode} {Q : β → State → Prop} {f : Inode → Inode}
  {d' d : Disk} {ip' : Dinode}

/-- Someone has a reference to entry `e`, which is that of inode `i`: the running call, a process
or a file. -/
def Abs.Holds (a : Abs) (H : Hands) (e : Ino) (i : ℕ) : Prop :=
  (e, i) ∈ H ∨ (a.pinned e ≠ 0 ∧ a.inum e = i)

lemma Abs.Holds.head : a.Holds ((e, i) :: H) e i := .inl (List.mem_cons_self ..)

lemma Abs.Holds.cons (h : a.Holds H e i) (x : Ino × ℕ) : a.Holds (x :: H) e i :=
  h.imp_left (List.mem_cons_of_mem x)

section Table

variable {din : ℕ → Dinode} {t : Ino → Inode}

/-- An entry that someone refers to has a reference count. -/
lemma Table.ref_ne_zero (h : Table sb a H L din t) (hei : a.Holds H e i) : (t e).ref ≠ 0 := by
  have href := h.ref e
  rcases hei with hmem | ⟨hp, -⟩
  · have hne := inHand_ne_zero hmem
    omega
  · omega

/-- An entry that someone refers to is that of its inode. -/
lemma Table.inum_eq (h : Table sb a H L din t) (hei : a.Holds H e i) : (t e).inum = i := by
  rcases hei with hmem | ⟨hp, rfl⟩
  · exact h.hand e i hmem
  · exact h.pin e hp

end Table

/-- The entry of an inode that is locked. -/
lemma Inv.entry (h : Inv sb a H L s) (hei : a.Holds H e i) (he : e ∈ L) :
    i < sb.ninodes ∧ (s.itable e).inum = i ∧ (s.itable e).din = dinode sb s.disk i ∧
      (dinode sb s.disk i).type ≠ 0 ∧ a.node i = some ((dinode sb s.disk i).node s.disk) := by
  have href := h.table.ref_ne_zero hei
  have hinum := h.table.inum_eq hei
  obtain ⟨hdin, htype⟩ := h.table.cached e href (h.table.lock e he).1
  have hlt := h.table.lt e href
  rw [hinum] at hdin hlt
  rw [hdin] at htype
  refine ⟨hlt, hinum, hdin, htype, ?_⟩
  rw [← h.view_eq]
  exact view_eq_some.2 ⟨hlt, htype, rfl⟩

/-- A reference in hand to an entry that processes or files refer to. -/
lemma Inv.inum_of_hand (h : Inv sb a H L s) (hei : (e, i) ∈ H) (hp : a.pinned e ≠ 0) :
    a.inum e = i := (h.table.pin e hp).symm.trans (h.table.hand e i hei)

/-- An inode that is locked is allocated. -/
lemma Inv.node_of_lock (h : Inv sb a H L s) (hei : a.Holds H e i) (he : e ∈ L) :
    ∃ n, a.node i = some n := ⟨_, (h.entry hei he).2.2.2.2⟩

/-- An entry of the inode table that holds file `n` with inode number `i`. -/
def Shows (x : Inode) (i : ℕ) (n : Node) : Prop := x.inum = i ∧ ∃ d, x.din.node d = n

lemma Shows.type (h : Shows x i n) : x.din.type = n.type := by
  obtain ⟨-, d, hd⟩ := h
  rw [← hd]
  rfl

lemma Shows.nlink (h : Shows x i n) : x.din.nlink = n.nlink := by
  obtain ⟨-, d, hd⟩ := h
  rw [← hd]
  rfl

lemma Shows.major (h : Shows x i n) : x.din.major = n.major := by
  obtain ⟨-, d, hd⟩ := h
  rw [← hd]
  rfl

/-- The order of the references in hand does not matter. -/
lemma Inv.perm (h : Inv sb a H L s) (hp : H.Perm H') : Inv sb a H' L s := by
  have hcount : ∀ e, inHand H' e = inHand H e := fun e => (hp.countP_eq _).symm
  have ht := h.table
  refine ⟨h.sb_eq, h.proc, h.ftable, h.view_eq, h.sound, h.dirs, ?_, h.alive, h.files⟩
  refine ⟨fun e => ?_, fun e i hmem => ht.hand e i (hp.mem_iff.2 hmem), ht.pin, ht.inj, ht.lt,
    ht.cached, ht.locked, ht.lock, ht.held⟩
  rw [hcount, ht.ref e]

/-- Neither does that of the locks. -/
lemma Inv.perm_lock (h : Inv sb a H L s) (hp : L.Perm L') : Inv sb a H L' s := by
  have ht := h.table
  refine ⟨h.sb_eq, h.proc, h.ftable, h.view_eq, h.sound, h.dirs, ?_, h.alive, h.files⟩
  exact ⟨ht.ref, ht.hand, ht.pin, ht.inj, ht.lt, ht.cached,
    fun e => (ht.locked e).trans hp.mem_iff, fun e he => ht.lock e (hp.mem_iff.2 he), ht.held⟩

/-- Reading the entry of an inode that is locked. -/
lemma inode_spec {f : Inode → FsM β} (hei : a.Holds H e i) (he : e ∈ L) (hn : a.node i = some n)
    (h : ∀ x, Shows x i n → Triple E (Inv sb a H L) (f x) Q) :
    Triple E (Inv sb a H L) (inode e >>= f) Q := by
  refine .of_run fun s hs => (h (s.itable e) ?_).run hs
  obtain ⟨-, hinum, hdin, -, hnode⟩ := hs.entry hei he
  rw [hn] at hnode
  exact ⟨hinum, s.disk, by rw [hdin, Option.some.inj hnode]⟩

/-! ## References -/

/-- A reference more or less to an entry in use. -/
lemma Table.setRef {din : ℕ → Dinode} {t : Ino → Inode} (h : Table sb a H L din t) {k : ℕ}
    (hlive : (t e).ref ≠ 0) (hk : k = a.pinned e + inHand H' e)
    (hother : ∀ e', e' ≠ e → inHand H' e' = inHand H e')
    (hhand : ∀ e' i', (e', i') ∈ H' → (t e').inum = i') (hlock : e ∈ L → k ≠ 0)
    (hlast : k = 0 → (t e).valid = true → ∀ n, a.node (t e).inum = some n → n.nlink ≠ 0) :
    Table sb a H' L din (update t e { t e with ref := k }) := by
  have hsame : ∀ e', update t e { t e with ref := k } e' =
      { t e' with ref := if e' = e then k else (t e').ref } := by
    intro e'
    by_cases he : e' = e
    · subst he
      simp
    · simp [he]
  have href : ∀ e', (update t e { t e with ref := k } e').ref ≠ 0 → (t e').ref ≠ 0 := by
    intro e' hne
    by_cases he : e' = e
    · rwa [he]
    · rwa [hsame, if_neg he] at hne
  refine ⟨fun e' => ?_, fun e' i' hmem => ?_, fun e' hp => ?_, fun e₁ e₂ h₁ h₂ heq => ?_,
    fun e' hne => ?_, fun e' hne hv => ?_, fun e' => ?_, fun e' hmem => ?_, fun i n hn h0 => ?_⟩
  · rw [hsame]
    by_cases he : e' = e
    · rw [if_pos he, he, hk]
    · rw [if_neg he, hother e' he]
      exact h.ref e'
  · rw [hsame]
    exact hhand e' i' hmem
  · rw [hsame]
    exact h.pin e' hp
  · rw [hsame, hsame] at heq
    exact h.inj e₁ e₂ (href e₁ h₁) (href e₂ h₂) heq
  · have hlt := h.lt e' (href e' hne)
    rwa [hsame]
  · rw [hsame] at hv ⊢
    exact h.cached e' (href e' hne) hv
  · rw [hsame]
    exact h.locked e'
  · rw [hsame]
    refine ⟨(h.lock e' hmem).1, ?_⟩
    by_cases he : e' = e
    · rw [if_pos he]
      exact hlock (he ▸ hmem)
    · rw [if_neg he]
      exact (h.lock e' hmem).2
  · obtain ⟨e', hne, hinum, hv⟩ := h.held i n hn h0
    refine ⟨e', ?_, by rwa [hsame], by rwa [hsame]⟩
    rw [hsame]
    by_cases he : e' = e
    · subst he
      rw [if_pos rfl]
      exact fun hk0 => hlast hk0 hv n (hinum ▸ hn) h0
    · rwa [if_neg he]

/-- Only the reference count of entry `e` changes, with the references in hand. -/
lemma Inv.setRef (h : Inv sb a H L s) {k : ℕ} (hf : f (s.itable e) = { s.itable e with ref := k })
    (hlive : (s.itable e).ref ≠ 0) (hk : k = a.pinned e + inHand H' e)
    (hother : ∀ e', e' ≠ e → inHand H' e' = inHand H e')
    (hhand : ∀ e' i', (e', i') ∈ H' → (s.itable e').inum = i') (hlock : e ∈ L → k ≠ 0)
    (hlast : k = 0 → (s.itable e).valid = true →
      ∀ n, a.node (s.itable e).inum = some n → n.nlink ≠ 0) : Inv sb a H' L (s.setInode e f) := by
  refine ⟨h.sb_eq, h.proc, h.ftable, h.view_eq, h.sound, h.dirs, ?_, h.alive, h.files⟩
  show Table sb a H' L (dinode sb s.disk) (update s.itable e (f (s.itable e)))
  rw [hf]
  exact h.table.setRef hlive hk hother hhand hlock hlast

/-- One more reference to an entry in use. -/
lemma Inv.addRef (h : Inv sb a H L s) (hlive : (s.itable e).ref ≠ 0)
    (hinum : (s.itable e).inum = i) :
    Inv sb a ((e, i) :: H) L (s.setInode e fun ip => { ip with ref := ip.ref + 1 }) := by
  refine h.setRef rfl hlive ?_ (fun e' he => inHand_cons_of_ne H he i) (fun e' i' hmem => ?_) ?_ ?_
  · rw [h.table.ref e, inHand_cons_self, Nat.add_assoc]
  · rcases List.mem_cons.1 hmem with heq | hmem
    · obtain ⟨rfl, rfl⟩ := Prod.mk.inj heq
      exact hinum
    · exact h.table.hand e' i' hmem
  · exact fun _ => Nat.succ_ne_zero _
  · intro h0
    omega

/-- The condition of `iget` for its panic: every entry is in use. -/
lemma Inv.full (h : Inv sb a H L s) (hall : ∀ e, (s.itable e).ref ≠ 0) :
    NINODE ≤ a.used + H.length := by
  have hsub : (Finset.univ : Finset Ino) ⊆ (Finset.univ.filter fun e => a.pinned e ≠ 0) ∪
      Finset.univ.filter fun e => inHand H e ≠ 0 := by
    intro e _
    have href := h.table.ref e
    have hne := hall e
    simp only [Finset.mem_union, Finset.mem_filter, Finset.mem_univ, true_and]
    omega
  have hcard := Finset.card_le_card hsub
  have hunion := Finset.card_union_le (Finset.univ.filter fun e => a.pinned e ≠ 0)
    (Finset.univ.filter fun e => inHand H e ≠ 0)
  have hhand := inHand_pos_card H
  rw [Finset.card_univ, Fintype.card_fin] at hcard
  unfold Abs.used
  omega

/-- If inode `i` has no links, then entry `e` has other references. -/
def Abs.Keeps (a : Abs) (H : Hands) (e : Ino) (i : ℕ) : Prop :=
  ∀ n, a.node i = some n → n.nlink = 0 → a.pinned e ≠ 0 ∨ inHand H e ≠ 0

lemma Abs.Keeps.mono (h : a.Keeps H e i) (hle : inHand H e ≤ inHand H' e) :
    a.Keeps H' e i := fun n hn h0 => (h n hn h0).imp_right fun hne => by omega

lemma Abs.Keeps.cons (h : a.Keeps H e i) (x : Ino × ℕ) : a.Keeps (x :: H) e i :=
  h.mono (List.Sublist.countP_le (List.sublist_cons_self ..))

/-- A free entry is taken for an inode that is not in the table. -/
lemma Inv.takeEntry (h : Inv sb a H L s) (hi : i < sb.ninodes) (hfree : (s.itable e).ref = 0)
    (hnone : ∀ e', (s.itable e').ref ≠ 0 → (s.itable e').inum ≠ i) :
    Inv sb a ((e, i) :: H) L
      (s.setInode e fun ip => { ip with inum := i, ref := 1, valid := false }) := by
  have ht := h.table
  have hzero := ht.ref e
  rw [hfree] at hzero
  obtain ⟨x, hx⟩ : ∃ x : Inode, x = ⟨i, 1, (s.itable e).locked, false, (s.itable e).din⟩ :=
    ⟨_, rfl⟩
  have hself : update s.itable e x e = x := update_self ..
  have hother : ∀ e', e' ≠ e → update s.itable e x e' = s.itable e' :=
    fun e' he => update_of_ne he ..
  -- only the entry that was free changes
  have hlive : ∀ e', (s.itable e').ref ≠ 0 → e' ≠ e := fun e' hne heq => hne (heq ▸ hfree)
  refine ⟨h.sb_eq, h.proc, h.ftable, h.view_eq, h.sound, h.dirs, ?_, h.alive, h.files⟩
  show Table sb a ((e, i) :: H) L (dinode sb s.disk)
    (update s.itable e ⟨i, 1, (s.itable e).locked, false, (s.itable e).din⟩)
  rw [← hx]
  refine ⟨fun e' => ?_, fun e' i' hmem => ?_, fun e' hp => ?_, fun e₁ e₂ h₁ h₂ heq => ?_,
    fun e' hne => ?_, fun e' hne hv => ?_, fun e' => ?_, fun e' hmem => ?_, fun j n hn h0 => ?_⟩
  · by_cases he : e' = e
    · subst he
      rw [hself, hx, inHand_cons_self]
      dsimp only
      omega
    · rw [hother e' he, inHand_cons_of_ne H he]
      exact ht.ref e'
  · rcases List.mem_cons.1 hmem with heq | hmem
    · obtain ⟨rfl, rfl⟩ := Prod.mk.inj heq
      rw [hself, hx]
    · rw [hother e' (hlive e' (ht.ref_ne_zero (.inl hmem)))]
      exact ht.hand e' i' hmem
  · rw [hother e' (hlive e' (by rw [ht.ref e']; omega))]
    exact ht.pin e' hp
  · by_cases he₁ : e₁ = e <;> by_cases he₂ : e₂ = e
    · rw [he₁, he₂]
    · subst he₁
      rw [hself, hother e₂ he₂, hx] at heq
      rw [hother e₂ he₂] at h₂
      exact absurd heq.symm (hnone e₂ h₂)
    · subst he₂
      rw [hself, hother e₁ he₁, hx] at heq
      rw [hother e₁ he₁] at h₁
      exact absurd heq (hnone e₁ h₁)
    · rw [hother e₁ he₁, hother e₂ he₂] at heq
      rw [hother e₁ he₁] at h₁
      rw [hother e₂ he₂] at h₂
      exact ht.inj e₁ e₂ h₁ h₂ heq
  · by_cases he : e' = e
    · subst he
      rwa [hself, hx]
    · rw [hother e' he] at hne ⊢
      exact ht.lt e' hne
  · by_cases he : e' = e
    · subst he
      rw [hself, hx] at hv
      cases hv
    · rw [hother e' he] at hne hv ⊢
      exact ht.cached e' hne hv
  · by_cases he : e' = e
    · subst he
      rw [hself, hx]
      exact ht.locked e'
    · rw [hother e' he]
      exact ht.locked e'
  · rw [hother e' (hlive e' (ht.lock e' hmem).2)]
    exact ht.lock e' hmem
  · obtain ⟨e', hne, hinum, hv⟩ := ht.held j n hn h0
    refine ⟨e', ?_⟩
    rw [hother e' (hlive e' hne)]
    exact ⟨hne, hinum, hv⟩

/-- `iget` returns an entry of inode `i` with one more reference to it. -/
lemma iget_spec (hi : i < sb.ninodes)
    (hfull : NINODE ≤ a.used + H.length → E (.panic "iget: no inodes")) :
    Triple E (Inv sb a H L) (iget i) fun e s => Inv sb a ((e, i) :: H) L s ∧ a.Keeps H e i := by
  refine .get_bind fun s h => ?_
  split
  case h_1 e hfind =>
    have hp : 0 < (s.itable e).ref ∧ (s.itable e).inum = i := by simpa using List.find?_some hfind
    refine .bind (Q := fun _ s => Inv sb a ((e, i) :: H) L s ∧ a.Keeps H e i) (.modify ?_)
      fun _ => .pure fun _ h => h
    rintro _ rfl
    refine ⟨h.addRef (by omega) hp.2, fun n _ _ => ?_⟩
    have href := h.table.ref e
    omega
  case h_2 hnone =>
    have hnone : ∀ e', (s.itable e').ref ≠ 0 → (s.itable e').inum ≠ i := by
      intro e' hne heq
      have := List.find?_eq_none.1 hnone e' (List.mem_finRange e')
      exact this (decide_eq_true ⟨Nat.pos_of_ne_zero hne, heq⟩)
    split
    case h_1 e hfind =>
      have hfree : (s.itable e).ref = 0 := by simpa using List.find?_some hfind
      refine .bind (Q := fun _ s => Inv sb a ((e, i) :: H) L s ∧ a.Keeps H e i) (.modify ?_)
        fun _ => .pure fun _ h => h
      rintro _ rfl
      refine ⟨h.takeEntry hi hfree hnone, fun n hn h0 => ?_⟩
      obtain ⟨e', hne, hinum, -⟩ := h.table.held i n hn h0
      exact absurd hinum (hnone e' hne)
    case h_2 hall =>
      refine .throw (hfull (h.full fun e h0 => ?_))
      have := List.find?_eq_none.1 hall e (List.mem_finRange e)
      exact this (decide_eq_true h0)

/-- `idup` of an entry that a process refers to. -/
lemma idup_spec (hp : a.pinned e ≠ 0) :
    Triple E (Inv sb a H L) (idup e) fun e' s => e' = e ∧ Inv sb a ((e, a.inum e) :: H) L s := by
  refine .bind (Q := fun _ => Inv sb a ((e, a.inum e) :: H) L) (.modify fun s h => ?_) fun _ =>
    .pure fun _ h => ⟨rfl, h⟩
  exact h.addRef (by rw [h.table.ref e]; omega) (h.table.pin e hp)

/-! ## Locks -/

/-- The entry of an inode without links was read. -/
lemma Table.valid_of_orphan {din : ℕ → Dinode} {t : Ino → Inode} (h : Table sb a H L din t)
    (hlive : (t e).ref ≠ 0) (hn : a.node (t e).inum = some n) (h0 : n.nlink = 0) :
    (t e).valid = true := by
  obtain ⟨e', hne, hinum, hv⟩ := h.held _ n hn h0
  rwa [← h.inj e' e hne hlive hinum]

/-- The entry of an inode in use changes, and the inode on disk with it. -/
lemma Table.setEntry {din din' : ℕ → Dinode} {t : Ino → Inode} {a' : Abs} (h : Table sb a H L din t)
    (hlive : (t e).ref ≠ 0) (hpinned : a'.pinned = a.pinned) (ha : a'.inum = a.inum)
    (href : x.ref = (t e).ref) (hinum : x.inum = (t e).inum)
    (hnode : ∀ j, j ≠ (t e).inum → a'.node j = a.node j)
    (hheld : ∀ n, a'.node (t e).inum = some n → n.nlink = 0 → x.valid = true)
    (hdin : ∀ j < sb.ninodes, j ≠ (t e).inum → din' j = din j)
    (hcached : x.valid = true → x.din = din' x.inum ∧ x.din.type ≠ 0)
    (hlocked : x.locked = true ↔ e ∈ L') (hL : ∀ e', e' ≠ e → (e' ∈ L' ↔ e' ∈ L))
    (hlock : e ∈ L' → x.valid = true) : Table sb a' H L' din' (update t e x) := by
  have hself : update t e x e = x := update_self ..
  have hother : ∀ e', e' ≠ e → update t e x e' = t e' :=
    fun e' he => update_of_ne he ..
  have hsame : ∀ e', (update t e x e').ref = (t e').ref ∧
      (update t e x e').inum = (t e').inum := by
    intro e'
    by_cases he : e' = e
    · subst he
      rw [hself]
      exact ⟨href, hinum⟩
    · rw [hother e' he]
      exact ⟨rfl, rfl⟩
  refine ⟨fun e' => ?_, fun e' i' hmem => ?_, fun e' hp => ?_, fun e₁ e₂ h₁ h₂ heq => ?_,
    fun e' hne => ?_, fun e' hne hv => ?_, fun e' => ?_, fun e' hmem => ?_, fun j n hn h0 => ?_⟩
  · rw [(hsame e').1, h.ref e', hpinned]
  · rw [(hsame e').2, h.hand e' i' hmem]
  · rw [(hsame e').2, ha, h.pin e' (hpinned ▸ hp)]
  · rw [(hsame e₁).2, (hsame e₂).2] at heq
    rw [(hsame e₁).1] at h₁
    rw [(hsame e₂).1] at h₂
    exact h.inj e₁ e₂ h₁ h₂ heq
  · rw [(hsame e').1] at hne
    rw [(hsame e').2]
    exact h.lt e' hne
  · by_cases he : e' = e
    · subst he
      rw [hself] at hv ⊢
      exact hcached hv
    · rw [hother e' he] at hne hv ⊢
      rw [hdin _ (h.lt e' hne) fun heq => he (h.inj e' e hne hlive heq)]
      exact h.cached e' hne hv
  · by_cases he : e' = e
    · subst he
      rw [hself]
      exact hlocked
    · rw [hother e' he, h.locked e', hL e' he]
  · by_cases he : e' = e
    · subst he
      rw [hself]
      exact ⟨hlock hmem, href ▸ hlive⟩
    · rw [hother e' he]
      exact h.lock e' ((hL e' he).1 hmem)
  · by_cases hj : j = (t e).inum
    · subst hj
      refine ⟨e, ?_⟩
      rw [hself, href, hinum]
      exact ⟨hlive, rfl, hheld n hn h0⟩
    · obtain ⟨e', hne, hinum', hv⟩ := h.held j n (hnode j hj ▸ hn) h0
      refine ⟨e', ?_⟩
      rw [hother e' fun he => hj (he ▸ hinum'.symm)]
      exact ⟨hne, hinum', hv⟩

/-- The copy of the inode is read from disk, and the entry is locked. -/
lemma Inv.lock (h : Inv sb a H L s) (hei : a.Holds H e i) (hn : a.node i ≠ none)
    (hf : f (s.itable e) = ⟨(s.itable e).inum, (s.itable e).ref, true, true, dinode sb s.disk i⟩) :
    Inv sb a H (e :: L) (s.setInode e f) := by
  have hinum := h.table.inum_eq hei
  have htype : (dinode sb s.disk i).type ≠ 0 := by
    obtain ⟨n, hn⟩ := Option.ne_none_iff_exists'.1 hn
    rw [← h.view_eq] at hn
    exact (view_eq_some.1 hn).2.1
  refine ⟨h.sb_eq, h.proc, h.ftable, h.view_eq, h.sound, h.dirs, ?_, h.alive, h.files⟩
  show Table sb a H (e :: L) (dinode sb s.disk) (update s.itable e (f (s.itable e)))
  rw [hf]
  exact h.table.setEntry (h.table.ref_ne_zero hei) rfl rfl rfl rfl (fun _ _ => rfl)
    (fun _ _ _ => rfl) (fun _ _ _ => rfl) (fun _ => ⟨by rw [hinum], htype⟩) (by simp)
    (fun e' he => by simp [he]) fun _ => rfl

/-- `ilock` locks the entry, and panics only if the inode is free. -/
lemma ilock_spec (hei : a.Holds H e i) (he : e ∉ L)
    (hnone : a.node i = none → E (.panic "ilock: no type")) :
    Triple E (Inv sb a H L) (ilock e) fun _ => Inv sb a H (e :: L) := by
  refine .of_run fun s h => ?_
  have href := h.table.ref_ne_zero hei
  have hinum := h.table.inum_eq hei
  have hlt := h.table.lt e href
  have hunlocked : (s.itable e).locked = false :=
    Bool.eq_false_iff.2 fun hl => he ((h.table.locked e).1 hl)
  rw [hinum] at hlt
  by_cases hv : (s.itable e).valid = true
  · obtain ⟨hdin, htype⟩ := h.table.cached e href hv
    rw [hinum] at hdin
    have hn : a.node i ≠ none := by
      rw [← h.view_eq]
      intro hnone
      exact htype (hdin ▸ view_eq_none.1 hnone hlt)
    rw [ilock_run_eq (by omega) hunlocked, if_pos hv]
    exact h.lock (f := fun ip => { ip with locked := true }) hei hn (by rw [hv, hdin])
  · have hv : (s.itable e).valid = false := Bool.eq_false_iff.2 hv
    by_cases htype : (dinode sb s.disk i).type = 0
    · rw [ilock_run_eq (by omega) hunlocked, hv, if_neg Bool.false_ne_true,
        if_pos (by rw [h.sb_eq, hinum]; exact htype)]
      refine hnone ?_
      rw [← h.view_eq]
      exact view_eq_none.2 fun _ => htype
    · rw [ilock_run (by omega) hunlocked hv (by rw [h.sb_eq, hinum]; exact htype)]
      have hn : a.node i ≠ none := by
        rw [← h.view_eq]
        exact fun hnone => htype (view_eq_none.1 hnone hlt)
      rw [h.sb_eq, hinum]
      exact h.lock (f := fun ip => { ip with
        locked := true, din := dinode sb s.disk i, valid := true }) hei hn rfl

/-- A lock that the call holds itself is never released. -/
lemma ilock_held {Q : Unit → State → Prop} (he : e ∈ L) (hE : E .disabled) :
    Triple E (Inv sb a H L) (ilock e) Q := by
  refine .of_run fun s h => ?_
  have hlive := (h.table.lock e he).2
  have hlocked := (h.table.locked e).2 he
  have hacquire : (acquiresleep e).run s = .error .disabled := by
    unfold acquiresleep
    rw [run_bind_of_ok (show (inode e).run s = .ok (s.itable e, s) from rfl), hlocked]
    rfl
  unfold ilock
  rw [run_bind_of_ok (show (inode e).run s = .ok (s.itable e, s) from rfl), if_neg (by omega),
    StateT.run_bind, hacquire]
  exact hE

/-- `iunlock` unlocks the entry. -/
lemma iunlock_spec (hei : a.Holds H e i) (he : e ∉ L) :
    Triple E (Inv sb a H (e :: L)) (iunlock e) fun _ => Inv sb a H L := by
  refine .of_run fun s h => ?_
  have hlive := h.table.ref_ne_zero hei
  have hlocked : (s.itable e).locked = true := (h.table.locked e).2 (List.mem_cons_self ..)
  have hrun : (iunlock e).run s = .ok ((), { s with
      itable := update s.itable e { s.itable e with locked := false } }) := by
    unfold iunlock
    rw [run_bind_of_ok (show (inode e).run s = .ok (s.itable e, s) from rfl), hlocked,
      if_neg (by simp; omega)]
    rfl
  rw [hrun]
  refine ⟨h.sb_eq, h.proc, h.ftable, h.view_eq, h.sound, h.dirs, ?_, h.alive, h.files⟩
  exact h.table.setEntry hlive rfl rfl rfl rfl (fun _ _ => rfl)
    (fun n hn h0 => h.table.valid_of_orphan hlive hn h0) (fun _ _ _ => rfl)
    (h.table.cached e hlive) (by simp [he]) (fun e' hne => by simp [hne]) fun hmem => absurd hmem he

/-! ## Changes of an inode -/

/-- The inode of a locked entry is written, in memory and on disk. -/
lemma Inv.write (h : Inv sb a H L s) (hei : a.Holds H e i) (he : e ∈ L) (hn : a.node i = some n)
    {t' : Ino → Inode} (hup : Updates sb i s.disk ip' d')
    (ht' : t' = update s.itable e { s.itable e with din := ip' }) (htype : ip'.type = n.type)
    (hdir : n.type = T_DIR → (ip'.node d').Proper sb) :
    Inv sb (a.set i (some (ip'.node d'))) H L { s with disk := d', itable := t' } := by
  obtain ⟨hlt, hinum, hdin, hne, hnode⟩ := h.entry hei he
  have hlive := h.table.ref_ne_zero hei
  have hvalid := (h.table.lock e he).1
  rw [hn] at hnode
  have hne' : ip'.type ≠ 0 := by
    rw [htype, Option.some.inj hnode]
    exact hne
  have hset : (a.set i (some (ip'.node d'))).node i = some (ip'.node d') :=
    update_self ..
  have hother : ∀ j, j ≠ i → (a.set i (some (ip'.node d'))).node j = a.node j :=
    fun j hj => update_of_ne hj ..
  refine ⟨h.sb_eq, h.proc, h.ftable, ?_, hup.sound, fun j m hm hmt => ?_, ?_, fun e' hp => ?_,
    fun f e' hf hft hw m hm => ?_⟩
  · show view sb d' = _
    rw [hup.view_eq hlt, if_pos hne', h.view_eq]
    rfl
  · by_cases hj : j = i
    · subst hj
      rw [hset] at hm
      obtain rfl := Option.some.inj hm
      exact hdir (htype ▸ hmt)
    · rw [hother j hj] at hm
      exact h.dirs j m hm hmt
  · show Table sb _ H L (dinode sb d') t'
    rw [ht']
    refine h.table.setEntry hlive rfl rfl rfl rfl (fun j hj => hother j (hinum ▸ hj))
      (fun _ _ _ => hvalid) (fun j hj hji => hup.others j hj (hinum ▸ hji))
      (fun _ => ⟨?_, hne'⟩) (h.table.locked e) (fun _ _ => Iff.rfl) fun _ => hvalid
    show ip' = dinode sb d' (s.itable e).inum
    rw [hinum, hup.self]
  · by_cases hj : a.inum e' = i
    · rw [Abs.set_inum, hj, hset]
      exact Option.some_ne_none _
    · rw [Abs.set_inum, hother _ hj]
      exact h.alive e' hp
  · by_cases hj : a.inum e' = i
    · rw [Abs.set_inum, hj, hset] at hm
      obtain rfl := Option.some.inj hm
      show ip'.type ≠ T_DIR
      rw [htype]
      exact h.files f e' hf hft hw n (hj ▸ hn)
    · rw [Abs.set_inum, hother _ hj] at hm
      exact h.files f e' hf hft hw m hm

/-- Code on the contents of a locked inode. -/
lemma Inv.onInode_run (h : Inv sb a H L s) (hei : a.Holds H e i) (he : e ∈ L)
    {f : Superblock → ℕ → Dinode → Disk → Except Stop (α × Dinode × Disk)} {r : α}
    (hf : f sb i (dinode sb s.disk i) s.disk = .ok (r, ip', d')) :
    (onInode e f).run s = .ok (r, { s with
      disk := d'
      itable := update s.itable e { s.itable e with din := ip' } }) := by
  obtain ⟨-, hinum, hdin, -⟩ := h.entry hei he
  rw [Fs.onInode_run, h.sb_eq, hinum, hdin, hf]
  rfl

/-- An inode is written to the disk with other values of the fields that do not concern its
contents. -/
lemma Sound.updates_meta (h : Sound sb d (dinode sb d)) (hsb : sb.WellFormed) (hi : i < sb.ninodes)
    (hne : (dinode sb d i).type ≠ 0) (htype : ip'.type = (dinode sb d i).type)
    (hsize : ip'.size = (dinode sb d i).size) (haddrs : ip'.addrs = (dinode sb d i).addrs) :
    Updates sb i d ip' (setDinode sb i ip' d) ∧
      (ip'.node (setDinode sb i ip' d)).data = ((dinode sb d i).node d).data := by
  obtain ⟨hsound, hcell⟩ := h.resize htype haddrs (hsize ▸ h.size_le i hi hne)
    fun bn hbn => h.mapped i hi hne bn (hsize ▸ hbn)
  obtain ⟨hup, hbyte⟩ := h.updates hsb hi hsound
    (by rw [hcell]; exact SameData.refl _ _ _) (SameFront.refl _ _)
  refine ⟨hup, ext_getD (by simp [hsize]) fun o ho => ?_⟩
  rw [Dinode.length_node_data] at ho
  rw [Dinode.getD_node_data _ _ ho, Dinode.getD_node_data _ _ (hsize ▸ ho),
    hbyte (htype ▸ hne) o ho, fileByte, Dinode.at_congr haddrs, fileByte]

/-- Assignments to fields of a locked inode that do not concern its contents, and `iupdate`. -/
lemma update_bind (hsb : sb.WellFormed) (hei : a.Holds H e i) (he : e ∈ L) (hn : a.node i = some n)
    (n' : Node) {f : Dinode → Dinode} {k : FsM β}
    (hf : ∀ ip, (f ip).type = ip.type ∧ (f ip).size = ip.size ∧ (f ip).addrs = ip.addrs)
    (hn' : ∀ ip d, ip.node d = n → (f ip).major = n'.major ∧ (f ip).minor = n'.minor ∧
      (f ip).nlink = n'.nlink) (htype : n'.type = n.type) (hdata : n'.data = n.data)
    (hk : Triple E (Inv sb (a.set i (some n')) H L) k Q) :
    Triple E (Inv sb a H L) (do modifyDin e f; iupdate e; k) Q := by
  refine .of_run fun s h => ?_
  obtain ⟨hlt, hinum, hdin, hne, hnode⟩ := h.entry hei he
  rw [hn] at hnode
  have hnode := Option.some.inj hnode
  obtain ⟨hft, hfs, hfa⟩ := hf (dinode sb s.disk i)
  obtain ⟨hmajor, hminor, hnlink⟩ := hn' (dinode sb s.disk i) s.disk hnode.symm
  obtain ⟨hup, hbytes⟩ := h.sound.updates_meta hsb hlt hne hft hfs hfa
  have hnew : (f (dinode sb s.disk i)).node
      (setDinode sb i (f (dinode sb s.disk i)) s.disk) = n' := by
    refine Node.ext ?_ hmajor hminor hnlink ?_
    · rw [htype, hnode]
      exact hft
    · rw [hbytes, hdata, hnode]
  have hrun : (modifyDin e f).run s = .ok ((), s.setInode e fun ip =>
    { ip with din := f ip.din }) :=
    rfl
  rw [run_bind_of_ok hrun]
  generalize hs' : s.setInode e (fun ip => { ip with din := f ip.din }) = s'
  have hiupdate : (iupdate e).run s' = .ok ((), { s' with
      disk := setDinode s'.sb (s'.itable e).inum (s'.itable e).din s'.disk }) := rfl
  rw [run_bind_of_ok hiupdate]
  refine hk.run ?_
  have hentry : s'.itable e = { s.itable e with din := f (s.itable e).din } := by
    rw [← hs', setInode_itable]
  have hdisk : setDinode s'.sb (s'.itable e).inum (s'.itable e).din s'.disk =
      setDinode sb i (f (dinode sb s.disk i)) s.disk := by
    rw [hentry, ← hs']
    show setDinode s.sb (s.itable e).inum (f (s.itable e).din) s.disk = _
    rw [h.sb_eq, hinum, hdin]
  rw [hdisk, ← hs', ← hnew]
  refine h.write hei he hn hup ?_ ?_ fun hd => ?_
  · rw [← hdin]
    rfl
  · rw [hft, hnode]
    rfl
  · rw [hnew]
    have hproper := h.dirs i n hn hd
    refine ⟨?_, ?_⟩
    · show DIRENT ∣ n'.data.length
      rw [hdata]
      exact hproper.whole
    · unfold Node.slots Node.entry
      rw [hdata]
      exact hproper.lt

/-- A change of the inode in memory with `iupdate` changes the inode and not its contents. -/
lemma update_spec (hsb : sb.WellFormed) (hei : a.Holds H e i) (he : e ∈ L) (hn : a.node i = some n)
    {f : Dinode → Dinode} {n' : Node}
    (hf : ∀ ip, (f ip).type = ip.type ∧ (f ip).size = ip.size ∧ (f ip).addrs = ip.addrs)
    (hn' : ∀ ip d, ip.node d = n → (f ip).major = n'.major ∧ (f ip).minor = n'.minor ∧
      (f ip).nlink = n'.nlink) (htype : n'.type = n.type) (hdata : n'.data = n.data) :
    Triple E (Inv sb a H L) (do modifyDin e f; iupdate e)
      fun _ => Inv sb (a.set i (some n')) H L := by
  have h := update_bind (E := E) hsb hei he hn _ hf hn' htype hdata (k := pure PUnit.unit)
    (Q := fun _ => Inv sb (a.set i (some n')) H L) (.skip)
  simpa only [bind_pure_unit] using h

/-- `ip->nlink++`. -/
def Node.incLink (n : Node) : Node := { n with nlink := n.nlink + 1 }

/-- `ip->nlink--`. -/
def Node.decLink (n : Node) : Node := { n with nlink := n.nlink - 1 }

lemma Node.nlink_of_node {ip : Dinode} (h : ip.node d = n) :
    ip.major = n.major ∧ ip.minor = n.minor ∧ ip.nlink = n.nlink := by
  subst h
  exact ⟨rfl, rfl, rfl⟩

/-- `ip->nlink++; iupdate(ip);` -/
lemma incLink_spec (hsb : sb.WellFormed) (hei : a.Holds H e i) (he : e ∈ L)
    (hn : a.node i = some n) :
    Triple E (Inv sb a H L) (incLink e) fun _ => Inv sb (a.set i (some n.incLink)) H L := by
  refine update_spec hsb hei he hn (fun _ => ⟨rfl, rfl, rfl⟩) (fun ip d h => ?_) rfl rfl
  obtain ⟨hmajor, hminor, hnlink⟩ := Node.nlink_of_node h
  exact ⟨hmajor, hminor, congrArg (· + 1) hnlink⟩

/-- `ip->nlink--; iupdate(ip);` -/
lemma decLink_spec (hsb : sb.WellFormed) (hei : a.Holds H e i) (he : e ∈ L)
    (hn : a.node i = some n) :
    Triple E (Inv sb a H L) (decLink e) fun _ => Inv sb (a.set i (some n.decLink)) H L := by
  refine update_spec hsb hei he hn (fun _ => ⟨rfl, rfl, rfl⟩) (fun ip d h => ?_) rfl rfl
  obtain ⟨hmajor, hminor, hnlink⟩ := Node.nlink_of_node h
  exact ⟨hmajor, hminor, congrArg (· - 1) hnlink⟩

/-! ## Giving up a reference -/

/-- The last reference to an inode without links is given up: the inode is freed. -/
def Abs.put (a : Abs) (H : Hands) (e : Ino) (i : ℕ) : Abs :=
  if a.pinned e = 0 ∧ inHand H e = 0 ∧ (a.node i).map Node.nlink = some 0 then a.set i none else a

lemma Abs.Keeps.put_eq (h : a.Keeps H e i) : a.put H e i = a := by
  unfold Abs.put
  split
  case isFalse => rfl
  case isTrue hc =>
    obtain ⟨hp, hh, hn⟩ := hc
    obtain ⟨n, hn, h0⟩ := Option.map_eq_some_iff.1 hn
    rcases h n hn h0 with hne | hne
    · exact absurd hp hne
    · exact absurd hh hne

/-- Inode `i` is gone, and its entry is free. -/
lemma Inv.free (h : Inv sb a ((e, i) :: H) L s) (hp : a.pinned e = 0) (hh : inHand H e = 0)
    (hL : e ∉ L) (hsound : Sound sb d' (dinode sb d'))
    (hview : view sb d' = update (view sb s.disk) i none)
    (hothers : ∀ j < sb.ninodes, j ≠ i → dinode sb d' j = dinode sb s.disk j) (href : x.ref = 0)
    (hlocked : x.locked = false) :
    Inv sb (a.set i none) H L { s with disk := d', itable := update s.itable e x } := by
  have ht := h.table
  have hmem : (e, i) ∈ (e, i) :: H := List.mem_cons_self ..
  have hlive := ht.ref_ne_zero (.inl hmem)
  have hinum := ht.hand e i hmem
  have hself : update s.itable e x e = x := update_self ..
  have hother : ∀ e', e' ≠ e → update s.itable e x e' = s.itable e' :=
    fun e' he => update_of_ne he ..
  have hne : ∀ e', (update s.itable e x e').ref ≠ 0 → e' ≠ e := by
    rintro e' hne rfl
    exact hne (by rw [hself, href])
  -- no other entry is that of inode `i`
  have hapart : ∀ e', e' ≠ e → (s.itable e').ref ≠ 0 → (s.itable e').inum ≠ i :=
    fun e' he hne heq => he (ht.inj e' e hne hlive (heq.trans hinum.symm))
  have hset : ∀ j, j ≠ i → (a.set i none).node j = a.node j := fun j hj =>
    update_of_ne hj ..
  have hgone : (a.set i none).node i = none := update_self ..
  have hpin : ∀ e', a.pinned e' ≠ 0 → a.inum e' ≠ i := by
    intro e' hp'
    have he : e' ≠ e := fun he => hp' (he ▸ hp)
    rw [← ht.pin e' hp']
    exact hapart e' he (by rw [ht.ref e']; omega)
  have hnode : ∀ j n, (a.set i none).node j = some n → a.node j = some n := by
    intro j n hn
    by_cases hj : j = i
    · rw [hj, hgone] at hn
      cases hn
    · rwa [hset j hj] at hn
  refine ⟨h.sb_eq, h.proc, h.ftable, ?_, hsound, fun j n hn => h.dirs j n (hnode j n hn), ?_,
    fun e' hp' => ?_, fun f e' hf hft hw n hn => h.files f e' hf hft hw n (hnode _ n hn)⟩
  · show view sb d' = _
    rw [hview, h.view_eq]
    rfl
  · show Table sb _ H L (dinode sb d') (update s.itable e x)
    refine ⟨fun e' => ?_, fun e' i' hmem' => ?_, fun e' hp' => ?_, fun e₁ e₂ h₁ h₂ heq => ?_,
      fun e' hr => ?_, fun e' hr hv => ?_, fun e' => ?_, fun e' hl => ?_, fun j n hn h0 => ?_⟩
    · by_cases he : e' = e
      · subst he
        rw [hself, href, Abs.set_pinned, hp, hh]
      · rw [hother e' he, ht.ref e', inHand_cons_of_ne H he]
        rfl
    · have he : e' ≠ e := fun he => inHand_ne_zero hmem' (he ▸ hh)
      rw [hother e' he]
      exact ht.hand e' i' (List.mem_cons_of_mem _ hmem')
    · have he : e' ≠ e := fun he => hp' (he ▸ hp)
      rw [hother e' he]
      exact ht.pin e' hp'
    · have he₁ := hne e₁ h₁
      have he₂ := hne e₂ h₂
      rw [hother e₁ he₁] at h₁ heq
      rw [hother e₂ he₂] at h₂ heq
      exact ht.inj e₁ e₂ h₁ h₂ heq
    · have he := hne e' hr
      rw [hother e' he] at hr ⊢
      exact ht.lt e' hr
    · have he := hne e' hr
      rw [hother e' he] at hr hv ⊢
      rw [hothers _ (ht.lt e' hr) (hapart e' he hr)]
      exact ht.cached e' hr hv
    · by_cases he : e' = e
      · subst he
        rw [hself, hlocked]
        exact ⟨(nomatch ·), fun hl => absurd hl hL⟩
      · rw [hother e' he]
        exact ht.locked e'
    · have he : e' ≠ e := fun he => hL (he ▸ hl)
      rw [hother e' he]
      exact ht.lock e' hl
    · obtain ⟨e', hr, hinum', hv⟩ := ht.held j n (hnode j n hn) h0
      have he : e' ≠ e := by
        rintro rfl
        rw [← hinum', hinum, hgone] at hn
        cases hn
      refine ⟨e', ?_⟩
      rw [hother e' he]
      exact ⟨hr, hinum', hv⟩
  · rw [Abs.set_inum, hset _ (hpin e' hp')]
    exact h.alive e' hp'

/-- The disk after an inode was truncated and its type set to `0`. -/
lemma Sound.free_post (hsb : sb.WellFormed) (h : Sound sb d (dinode sb d)) (hi : i < sb.ninodes)
    (hne : (dinode sb d i).type ≠ 0) :
    ∃ d₁, itrunc sb i (dinode sb d i) d = .ok ((dinode sb d i).emptied, d₁) ∧
      Sound sb (setDinode sb i { (dinode sb d i).emptied with type := 0 } d₁)
        (dinode sb (setDinode sb i { (dinode sb d i).emptied with type := 0 } d₁)) ∧
      view sb (setDinode sb i { (dinode sb d i).emptied with type := 0 } d₁) =
        update (view sb d) i none ∧
      ∀ j < sb.ninodes, j ≠ i →
        dinode sb (setDinode sb i { (dinode sb d i).emptied with type := 0 } d₁) j =
          dinode sb d j := by
  have htrunc : Post (fun _ => False) _ (itrunc sb i (dinode sb d i) d) := h.itrunc_post hsb hi hne
  obtain ⟨⟨ip, d₁⟩, hrun, hip, hup⟩ := htrunc.exists_ok
  dsimp only at hip hup
  subst hip
  have hcell : ∀ r, cell sb d₁ (dinode sb d₁) (i, r) = 0 := by
    intro r
    have hat : (dinode sb d i).emptied.at d₁ r = 0 := by
      cases r with
      | addr k => rfl
      | entry j => exact Dinode.at_entry_of_none rfl d₁ j
    unfold cell
    rw [hup.self, hat, ite_self]
  obtain hup' := hup.sound.updates_empty hsb hi hcell
    { (dinode sb d i).emptied with type := 0 } rfl rfl
  refine ⟨d₁, hrun, hup'.sound, ?_, fun j hj hji => ?_⟩
  · rw [hup'.view_eq hi, hup.view_eq hi, update_idem]
    rfl
  · rw [hup'.others j hj hji, hup.others j hj hji]

lemma modifyInode_run (e : Ino) (f : Inode → Inode) (s : State) :
    (modifyInode e f).run s = .ok ((), s.setInode e f) := rfl

/-- The branch of `iput` that frees the inode. -/
lemma ifree_run {d₁ : Disk} (hunlocked : (s.itable e).locked = false) (hsb : s.sb = sb)
    (hi : (s.itable e).inum = i) (htrunc : itrunc sb i (s.itable e).din s.disk = .ok (ip', d₁)) :
    (ifree e).run s = .ok ((), { s with
      disk := setDinode sb i { ip' with type := 0 } d₁
      itable := update s.itable e
        ⟨i, (s.itable e).ref, false, false, { ip' with type := 0 }⟩ }) := by
  subst hsb hi
  have hlock : (acquiresleep e).run s = .ok ((), _) := acquiresleep_run hunlocked
  have htrunc' : (onInode e fun sb inum ip d => do
      let x ← itrunc sb inum ip d
      return ((), x.1, x.2)).run (s.setInode e fun ip => { ip with locked := true }) =
        .ok ((), { s with
          disk := d₁
          itable := update s.itable e { s.itable e with locked := true, din := ip' } }) := by
    rw [onInode_run, setInode_itable]
    show ((itrunc s.sb (s.itable e).inum (s.itable e).din s.disk >>= _) >>= _) = _
    rw [htrunc]
    show Except.ok ((), State.setInode _ _ _) = _
    unfold State.setInode
    simp only [update_self, update_idem]
  unfold ifree
  rw [run_bind_of_ok hlock, run_bind_of_ok htrunc']
  show Except.ok ((), _) = _
  unfold State.setInode
  simp only [update_self, update_idem]

/-- `iput` gives a reference back; with the last one it frees an inode without links. -/
lemma iput_spec (hsb : sb.WellFormed) (hL : e ∈ L → a.pinned e + inHand H e ≠ 0) :
    Triple E (Inv sb a ((e, i) :: H) L) (iput e) fun _ => Inv sb (a.put H e i) H L := by
  refine .of_run fun s h => ?_
  have hmem : (e, i) ∈ (e, i) :: H := List.mem_cons_self ..
  have hlive := h.table.ref_ne_zero (.inl hmem)
  have hinum := h.table.hand e i hmem
  have hlt := h.table.lt e hlive
  have href := h.table.ref e
  rw [inHand_cons_self] at href
  rw [hinum] at hlt
  have hdrop : ∀ e', e' ≠ e → inHand H e' = inHand ((e, i) :: H) e' := fun e' he =>
    (inHand_cons_of_ne H he i).symm
  have hhand : ∀ e' i', (e', i') ∈ H → (s.itable e').inum = i' := fun e' i' hm =>
    h.table.hand e' i' (List.mem_cons_of_mem _ hm)
  unfold iput
  rw [run_bind_of_ok (show (inode e).run s = .ok (s.itable e, s) from rfl)]
  by_cases hfree : a.pinned e = 0 ∧ inHand H e = 0 ∧ (a.node i).map Node.nlink = some 0
  · -- the inode is freed
    obtain ⟨hp, hh, hn⟩ := hfree
    have hput : a.put H e i = a.set i none := if_pos ⟨hp, hh, hn⟩
    obtain ⟨n, hn, h0⟩ := Option.map_eq_some_iff.1 hn
    have heL : e ∉ L := fun he => hL he (by omega)
    have hvalid := h.table.valid_of_orphan hlive (hinum ▸ hn) h0
    obtain ⟨hdin, htype⟩ := h.table.cached e hlive hvalid
    rw [hinum] at hdin
    rw [hdin] at htype
    have hnode := hn
    rw [← h.view_eq] at hnode
    have hnlink : (dinode sb s.disk i).nlink = 0 := by
      rw [← h0, ← (view_eq_some.1 hnode).2.2]
      rfl
    have hunlocked : (s.itable e).locked = false :=
      Bool.eq_false_iff.2 fun hl => heL ((h.table.locked e).1 hl)
    obtain ⟨d₁, htrunc, hsound, hview, hothers⟩ := h.sound.free_post hsb hlt htype
    have hrun := ifree_run hunlocked h.sb_eq hinum (by rw [hdin]; exact htrunc)
    rw [if_pos ⟨by omega, hvalid, by rw [hdin]; exact hnlink⟩, hput, run_bind_of_ok hrun]
    dsimp only
    rw [modifyInode_run, Post.ok_iff, State.setInode]
    dsimp only
    rw [update_self, update_idem]
    exact h.free hp hh heL hsound hview hothers (by dsimp only; omega) rfl
  · have hput : a.put H e i = a := if_neg hfree
    -- others refer to the inode, or it has links
    have hlast : ∀ n, a.node i = some n → n.nlink = 0 → (s.itable e).ref ≠ 1 := by
      intro n hn h0 hone
      exact hfree ⟨by omega, by omega, by rw [hn, Option.map_some, h0]⟩
    have hkeep : ¬((s.itable e).ref = 1 ∧ (s.itable e).valid = true ∧
        (s.itable e).din.nlink = 0) := by
      rintro ⟨hone, hv, h0⟩
      obtain ⟨hdin, htype⟩ := h.table.cached e hlive hv
      rw [hinum] at hdin
      rw [hdin] at htype h0
      refine hlast ((dinode sb s.disk i).node s.disk) ?_ h0 hone
      rw [← h.view_eq]
      exact view_eq_some.2 ⟨hlt, htype, rfl⟩
    rw [if_neg hkeep, hput]
    refine h.setRef (f := fun ip => { ip with ref := ip.ref - 1 }) rfl hlive (by omega) hdrop hhand
      (fun he => by have := hL he; omega) fun hzero _ n hn h0 => ?_
    rw [hinum] at hn
    exact hlast n hn h0 (by omega)

/-- `iunlockput` unlocks the entry and gives the reference back. -/
lemma iunlockput_spec (hsb : sb.WellFormed) (he : e ∉ L) :
    Triple E (Inv sb a ((e, i) :: H) (e :: L)) (iunlockput e) fun _ => Inv sb (a.put H e i) H L :=
  (iunlock_spec .head he).bind fun _ => iput_spec hsb fun hmem => absurd hmem he

/-- Giving up a reference to an inode that has others. -/
lemma iunlockput_keep (hsb : sb.WellFormed) (he : e ∉ L) (hkeep : a.Keeps H e i) :
    Triple E (Inv sb a ((e, i) :: H) (e :: L)) (iunlockput e) fun _ => Inv sb a H L := by
  have h := iunlockput_spec (E := E) (a := a) (H := H) (i := i) hsb he
  rwa [hkeep.put_eq] at h

/-- An `iput` that frees no inode. -/
lemma iput_keep (hsb : sb.WellFormed) (hL : e ∈ L → a.pinned e + inHand H e ≠ 0)
    (hkeep : a.Keeps H e i) :
    Triple E (Inv sb a ((e, i) :: H) L) (iput e) fun _ => Inv sb a H L := by
  have h := iput_spec (E := E) (a := a) (i := i) hsb hL
  rwa [hkeep.put_eq] at h

/-! ## Allocating an inode -/

/-- The state would stand for `a` if inode `j` were read into its entry `e`. -/
structure Loading (sb : Superblock) (a : Abs) (H : Hands) (L : List Ino) (e : Ino) (j : ℕ)
    (s : State) : Prop where
  valid : (s.itable e).valid = false
  inv : Inv sb a H L (s.setInode e fun ip => { ip with valid := true, din := dinode sb s.disk j })

/-- A free entry is taken for an inode that was just allocated. -/
lemma Inv.alloc (h : Inv sb a H L s) {j : ℕ} (hj : j < sb.ninodes) (hnode : a.node j = none)
    (hfree : (s.itable e).ref = 0) (hnone : ∀ e', (s.itable e').ref ≠ 0 → (s.itable e').inum ≠ j)
    {n' : Node} (hup : Updates sb j s.disk ip' d') (htype : ip'.type ≠ 0) (hn' : ip'.node d' = n')
    (hdir : n'.type = T_DIR → n'.Proper sb) :
    Inv sb (a.set j (some n')) ((e, j) :: H) L { s with
      disk := d'
      itable := update s.itable e ⟨j, 1, (s.itable e).locked, true, ip'⟩ } := by
  have htake := (h.takeEntry hj hfree hnone).table
  have href := h.table.ref e
  have heL : e ∉ L := fun he => by
    have := (h.table.lock e he).2
    omega
  have hset : (a.set j (some n')).node j = some n' := update_self ..
  have hother : ∀ i, i ≠ j → (a.set j (some n')).node i = a.node i := fun i hi =>
    update_of_ne hi ..
  obtain ⟨t, ht⟩ : ∃ t, t = update s.itable e
    ⟨j, 1, (s.itable e).locked, false, (s.itable e).din⟩ := ⟨_, rfl⟩
  have hte : t e = ⟨j, 1, (s.itable e).locked, false, (s.itable e).din⟩ := by
    rw [ht, update_self]
  have htable : Table sb a ((e, j) :: H) L (dinode sb s.disk) t := by
    rw [ht]
    exact htake
  have hpin : ∀ e', a.pinned e' ≠ 0 → a.inum e' ≠ j := fun e' hp heq =>
    h.alive e' hp (heq ▸ hnode)
  refine ⟨h.sb_eq, h.proc, h.ftable, ?_, hup.sound, fun i m hm hmt => ?_, ?_, fun e' hp => ?_,
    fun f e' hf hft hw m hm => ?_⟩
  · show view sb d' = _
    rw [hup.view_eq hj, if_pos htype, hn', h.view_eq]
    rfl
  · by_cases hi : i = j
    · subst hi
      rw [hset] at hm
      obtain rfl := Option.some.inj hm
      exact hdir hmt
    · rw [hother i hi] at hm
      exact h.dirs i m hm hmt
  · have hnew : Table sb (a.set j (some n')) ((e, j) :: H) L (dinode sb d')
        (update t e ⟨j, 1, (s.itable e).locked, true, ip'⟩) := by
      refine htable.setEntry (by rw [hte]; exact one_ne_zero) rfl rfl (by rw [hte]) (by rw [hte])
        (fun i hi => hother i (by rwa [hte] at hi)) (fun _ _ _ => rfl)
        (fun i hi hij => hup.others i hi (by rwa [hte] at hij)) (fun _ => ⟨hup.self.symm, htype⟩)
        (h.table.locked e) (fun _ _ => Iff.rfl) fun he => absurd he heL
    rwa [ht, update_idem] at hnew
  · rw [Abs.set_inum, hother _ (hpin e' hp)]
    exact h.alive e' hp
  · have hp : a.pinned e' ≠ 0 := by
      have hpos := refs_pos (f := targets a.ftable) (a := f) hf
      unfold Abs.pinned
      omega
    rw [Abs.set_inum, hother _ (hpin e' hp)] at hm
    exact h.files f e' hf hft hw m hm

/-- A file without contents. -/
def newNode (type major minor nlink : BitVec 16) : Node := ⟨type, major, minor, nlink, []⟩

lemma newNode_proper (type major minor nlink : BitVec 16) :
    (newNode type major minor nlink).Proper sb := by
  refine ⟨dvd_zero _, fun k hk => ?_⟩
  rw [show (newNode type major minor nlink).slots = 0 from Nat.zero_div _] at hk
  exact absurd hk (Nat.not_lt_zero k)

/-- `ialloc` finds no free inode, or returns the entry of a new one, which is not yet loaded. -/
lemma ialloc_spec (hsb : sb.WellFormed) {type : BitVec 16} (htype : type ≠ 0)
    (hH : ∀ e i, (e, i) ∈ H → a.node i ≠ none)
    (hfull : NINODE ≤ a.used + H.length → E (.panic "iget: no inodes")) :
    Triple E (Inv sb a H L) (ialloc type) fun r s =>
      (r = none ∧ (∀ j, 0 < j → j < sb.ninodes → a.node j ≠ none) ∧ Inv sb a H L s) ∨
      ∃ e j, r = some e ∧ j ≠ 0 ∧ a.node j = none ∧ a.pinned e = 0 ∧ inHand H e = 0 ∧
        Loading sb (a.set j (some (newNode type 0 0 0))) ((e, j) :: H) L e j s := by
  obtain ⟨ip', hip⟩ : ∃ ip' : Dinode, ip' = ⟨type, 0, 0, 0, 0, Dinode.zero.addrs⟩ := ⟨_, rfl⟩
  refine .get_bind fun s h => ?_
  split
  case h_2 hall =>
    refine .pure fun _ hs => .inl ⟨rfl, fun j hpos hj hnone => ?_, hs ▸ h⟩
    rw [← h.view_eq, view_eq_none] at hnone
    rw [h.sb_eq] at hall
    have htype : (dinode sb s.disk j).type ≠ 0 := by
      simpa [show 1 ≤ j from hpos] using List.find?_eq_none.1 hall j (List.mem_range.2 hj)
    exact htype (hnone hj)
  case h_1 j hfind =>
    have hmem := List.mem_range.1 (List.mem_of_find?_eq_some hfind)
    have hj : 1 ≤ j ∧ (dinode s.sb s.disk j).type = 0 := by simpa using List.find?_some hfind
    rw [h.sb_eq] at hmem hj
    have hnode : a.node j = none := by
      rw [← h.view_eq]
      exact view_eq_none.2 fun _ => hj.2
    have hup : Updates sb j s.disk ip' (setDinode sb j ip' s.disk) :=
      h.sound.updates_empty hsb hmem (fun r => if_neg fun hc => hc.2 hj.2) _
        (by rw [hip]; rfl) (by rw [hip])
    -- no entry in use is that of inode `j`
    have hnone : ∀ e', (s.itable e').ref ≠ 0 → (s.itable e').inum ≠ j := by
      intro e' hne heq
      have href := h.table.ref e'
      by_cases hp : a.pinned e' = 0
      · obtain ⟨i, hi⟩ := mem_of_inHand_ne_zero (H := H) (e := e') (by omega)
        rw [h.table.hand e' i hi] at heq
        exact hH e' i hi (heq ▸ hnode)
      · rw [h.table.pin e' hp] at heq
        exact h.alive e' hp (heq ▸ hnode)
    refine .bind (Q := fun _ t => t = { s with disk := setDinode sb j ip' s.disk })
      (.set fun _ _ => by rw [hip, h.sb_eq]; rfl) fun _ => ?_
    refine .bind (Q := fun e t => (s.itable e).ref = 0 ∧
      t = { s with
        disk := setDinode sb j ip' s.disk
        itable := update s.itable e
          ⟨j, 1, (s.itable e).locked, false, (s.itable e).din⟩ }) (.get_bind ?_) fun e =>
        .pure ?_
    · rintro _ rfl
      dsimp only
      split
      case h_1 e hlive =>
        have hp : 0 < (s.itable e).ref ∧ (s.itable e).inum = j := by
          simpa using List.find?_some hlive
        exact absurd hp.2 (hnone e (by omega))
      split
      case h_1 e hfree =>
        have hzero : (s.itable e).ref = 0 := by simpa using List.find?_some hfree
        refine .bind (Q := fun _ t => t = _) (.modify ?_) fun _ => .pure fun _ ht => ⟨hzero, ht⟩
        rintro _ rfl
        rfl
      case h_2 hall =>
        refine .throw (hfull (h.full fun e h0 => ?_))
        exact List.find?_eq_none.1 hall e (List.mem_finRange e) (decide_eq_true h0)
    · rintro t ⟨hzero, rfl⟩
      have href := h.table.ref e
      have hnew : ip'.node (setDinode sb j ip' s.disk) = newNode type 0 0 0 := by
        rw [hip]
        rfl
      refine .inr ⟨e, j, rfl, by omega, hnode, by omega, by omega, ?_, ?_⟩
      · dsimp only
        rw [update_self]
      · have hload := h.alloc hmem hnode hzero hnone hup (by rw [hip]; exact htype) hnew
          fun _ => newNode_proper ..
        unfold State.setInode
        dsimp only
        rw [update_self, update_idem, hup.self]
        exact hload

/-- `ilock` of an inode that was just allocated. -/
lemma ilock_loading {j : ℕ} (hei : a.Holds H e j) (he : e ∉ L) :
    Triple E (Loading sb a H L e j) (ilock e) fun _ => Inv sb a H (e :: L) := by
  refine .of_run fun s h => ?_
  have hentry := setInode_itable s e fun ip => { ip with valid := true, din := dinode sb s.disk j }
  have hlive := h.inv.table.ref_ne_zero hei
  have hinum := h.inv.table.inum_eq hei
  have hlocked := h.inv.table.locked e
  have hsb : s.sb = sb := h.inv.sb_eq
  obtain ⟨-, htype⟩ := h.inv.table.cached e hlive (by rw [hentry])
  have hlt := h.inv.table.lt e hlive
  have hn : a.node j ≠ none := by
    rw [← h.inv.view_eq]
    intro hnone
    rw [hinum] at hlt
    rw [hentry] at htype
    exact htype (view_eq_none.1 hnone hlt)
  rw [hentry] at hlive hinum hlocked htype
  dsimp only at hlive hinum hlocked htype
  have hfree : (s.itable e).locked = false := Bool.eq_false_iff.2 fun hl => he (hlocked.1 hl)
  rw [ilock_run (by omega) hfree h.valid (by rw [hsb, hinum]; exact htype), hsb, hinum,
    Post.ok_iff]
  have hlock := h.inv.lock (f := fun ip => { ip with locked := true }) hei hn (by rw [hentry]; rfl)
  rwa [setInode_setInode] at hlock

/-! ## Between two calls -/

/-- What a state stands for. -/
def State.abs (s : State) : Abs where
  node := view s.sb s.disk
  proc := s.proc
  ftable := s.ftable
  inum := fun e => (s.itable e).inum

/-- The state is consistent and no call is in progress. -/
structure Settled (s : State) : Prop where
  wf : s.sb.WellFormed
  inv : Inv s.sb s.abs [] [] s

/-- Between two calls nothing is in hand and nothing is locked. -/
lemma Inv.settled (h : Inv sb a [] [] s) (hsb : sb.WellFormed) : Settled s := by
  obtain ⟨rfl, hproc, hft, hview, hsound, hdirs, ht, halive, hfiles⟩ := h
  have hpinned : s.abs.pinned = a.pinned := by
    unfold Abs.pinned State.abs
    rw [hproc, hft]
  have hpin : ∀ e, a.pinned e ≠ 0 → s.abs.inum e = a.inum e := fun e hp => ht.pin e hp
  have htarget : ∀ f e, (s.ftable f).target = some e → a.pinned e ≠ 0 := by
    intro f e hf
    have hpos := refs_pos (f := targets a.ftable) (a := f) (hft ▸ hf)
    unfold Abs.pinned
    omega
  refine ⟨hsb, rfl, rfl, rfl, rfl, hsound, fun i n hn => hdirs i n (hview ▸ hn), ?_,
    fun e hp => ?_, fun f e hf hft' hw n hn => ?_⟩
  · exact ⟨fun e => by rw [ht.ref e, hpinned], fun e i hmem => ht.hand e i hmem, fun e _ => rfl,
      ht.inj, ht.lt, ht.cached, ht.locked, ht.lock, fun i n hn => ht.held i n (hview ▸ hn)⟩
  · rw [hpinned] at hp
    rw [hpin e hp, show s.abs.node = a.node from hview]
    exact halive e hp
  · have hf' : (s.ftable f).target = some e := hf
    rw [hpin e (htarget f e hf'), show s.abs.node = a.node from hview] at hn
    exact hfiles f e (hft ▸ hf) (hft ▸ hft') (hft ▸ hw) n hn

/-- The number of references to inode `i`. -/
def refCount (s : State) (i : ℕ) : ℕ := ∑ e, if (s.itable e).inum = i then (s.itable e).ref else 0

/-- The number of entries of the inode table that are in use. -/
def inUse (s : State) : ℕ := (Finset.univ.filter fun e => (s.itable e).ref ≠ 0).card

lemma Settled.used_eq (h : Settled s) : s.abs.used = inUse s := by
  unfold Abs.used inUse
  congr 1
  refine Finset.filter_congr fun e _ => ?_
  rw [h.inv.table.ref e, inHand_nil, Nat.add_zero]

/-- Each reference in hand counts once for its inode. -/
lemma sum_inHand {t : Ino → Inode} (hand : ∀ e i, (e, i) ∈ H → (t e).inum = i) (i : ℕ) :
    ∑ e, (if (t e).inum = i then inHand H e else 0) = H.countP fun h => h.2 = i := by
  induction H with
  | nil => simp
  | cons x H ih =>
    obtain ⟨e, j⟩ := x
    have hj := hand e j (List.mem_cons_self ..)
    have hsplit : ∀ e', (if (t e').inum = i then inHand ((e, j) :: H) e' else 0) =
        (if (t e').inum = i then inHand H e' else 0) +
          if e' = e then if j = i then 1 else 0 else 0 := by
      intro e'
      by_cases he : e' = e
      · subst he
        rw [hj, inHand_cons_self]
        by_cases hji : j = i
        · simp [hji]
        · simp [hji]
      · rw [inHand_cons_of_ne H he]
        simp [he]
    rw [Finset.sum_congr rfl fun e' _ => hsplit e', Finset.sum_add_distrib,
      ih fun e' i' hmem => hand e' i' (List.mem_cons_of_mem _ hmem)]
    simp [List.countP_cons]

/-- The counts of inode `i` add up to the references in the tables and those in hand. -/
lemma Inv.refCount_eq (h : Inv sb a H L s) (i : ℕ) : refCount s i =
    (∑ e, if a.inum e = i then a.pinned e else 0) + H.countP fun h => h.2 = i := by
  have hterm : ∀ e, (if (s.itable e).inum = i then (s.itable e).ref else 0) =
      (if a.inum e = i then a.pinned e else 0) +
        if (s.itable e).inum = i then inHand H e else 0 := by
    intro e
    rw [h.table.ref e]
    by_cases hp : a.pinned e = 0
    · rw [hp]
      simp
    · rw [h.table.pin e hp]
      split <;> rfl
  rw [refCount, Finset.sum_congr rfl fun e _ => hterm e, Finset.sum_add_distrib,
    sum_inHand h.table.hand]

/-! ## The start -/

/-- The references when the first process is in the root directory and nothing is open. -/
lemma boot_pinned (hproc : a.proc = (boot d).proc) (hft : a.ftable = (boot d).ftable) (e : Ino) :
    a.pinned e = if e = 0 then 1 else 0 := by
  have hcwds : cwds (boot d).proc = update (fun _ => none) 0 (some 0) := by
    funext p
    by_cases hp : p = 0
    · subst hp
      rfl
    · simp [cwds, boot, hp]
  have hrefs := refs_update (fun _ : Slot => (none : Option Ino)) 0 (some 0) e
  have htargets : refs (targets (boot d).ftable) e = 0 := refs_none e
  unfold Abs.pinned
  rw [hproc, hft, hcwds, htargets]
  by_cases he : e = 0
  · subst he
    simp at hrefs
    simp [hrefs]
  · simp [tally, Ne.symm he] at hrefs
    simp [hrefs, he]

/-- An image that the kernel can use: it is consistent and every inode has links. -/
structure Formatted (d : Disk) : Prop where
  wf : (readsb d).WellFormed
  sound : Sound (readsb d) d (dinode (readsb d) d)
  dirs : ∀ i n, view (readsb d) d i = some n → n.type = T_DIR → n.Proper (readsb d)
  root : view (readsb d) d ROOTINO ≠ none
  links : ∀ i n, view (readsb d) d i = some n → n.nlink ≠ 0

/-- A system that was booted from such an image. -/
lemma Formatted.settled (h : Formatted d) : Settled (boot d) := by
  have hpinned : ∀ e, (boot d).abs.pinned e = if e = 0 then 1 else 0 :=
    boot_pinned (d := d) rfl rfl
  have hentry : ∀ e, (boot d).itable e = if e = 0 then ⟨ROOTINO, 1, false, false, .zero⟩
      else Inode.zero := by
    intro e
    by_cases he : e = 0
    · subst he
      rfl
    · rw [if_neg he, boot]
      dsimp only
      rw [update_of_ne he]
  have hlive : ∀ e, ((boot d).itable e).ref ≠ 0 → e = 0 := by
    intro e hne
    by_contra he
    rw [hentry, if_neg he] at hne
    exact hne rfl
  refine ⟨h.wf, rfl, rfl, rfl, rfl, h.sound, h.dirs, ⟨fun e => ?_, fun _ _ => (nomatch ·),
    fun _ _ => rfl, fun e e' he he' _ => ?_, fun e he => ?_, fun e he hv => ?_, fun e => ?_,
    fun _ => (nomatch ·), fun i n hn h0 => absurd h0 (h.links i n hn)⟩, fun e hp => ?_,
    fun f e => (nomatch ·)⟩
  · rw [hpinned]
    show ((boot d).itable e).ref = _
    rw [hentry]
    split <;> rfl
  · rw [hlive e he, hlive e' he']
  · rw [hlive e he]
    exact h.wf.root_lt
  · rw [hlive e he] at hv
    cases hv
  · show ((boot d).itable e).locked = true ↔ _
    rw [hentry]
    split <;> simp [Inode.zero]
  · rw [hpinned] at hp
    have he : e = 0 := by
      by_contra he
      exact hp (if_neg he)
    subst he
    exact h.root

end Xv6.Fs
