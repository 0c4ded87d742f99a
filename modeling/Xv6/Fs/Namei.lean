import Mathlib.Data.List.Find
import Xv6.Fs.Images

/-!
# Directories and paths

`dirlookup` finds the entry of a directory with a given name, `dirlink` adds one, and `namex`
follows a path from directory to directory. On the abstract state a path is followed by looking
up one name after the other; the code does the same, and in the end it has one reference more, to
the inode it returns.
-/

namespace Xv6.Fs

open Xv6.Lib
open Xv6.Process (Slot Stop)

variable {sb : Superblock} {a : Abs} {H : Hands} {L : List Ino} {s : State} {e : Ino} {i : ℕ}
  {n : Node} {E : Stop → Prop} {α β : Type} {p : Slot} {path : List UInt8}

/-! ## Reading a directory -/

/-- A locked directory has its entries, and their blocks. -/
lemma Inv.hasEntry (h : Inv sb a H L s) (hei : a.Holds H e i) (he : e ∈ L) (hn : a.node i = some n)
    (htype : n.type = T_DIR) {k : ℕ} (hk : k < n.slots) :
    HasEntry (s.itable e).din s.disk k ∧ direntAt (s.itable e).din s.disk k = n.entry k := by
  obtain ⟨hlt, -, hdin, hne, hnode⟩ := h.entry hei he
  rw [hn] at hnode
  have hnode := Option.some.inj hnode
  have hwhole := (h.dirs i n hn htype).whole.length_eq
  have hsize : n.data.length = (dinode sb s.disk i).size.toNat := by
    rw [hnode, Dinode.length_node_data]
  have hle : DIRENT * k + DIRENT ≤ (dinode sb s.disk i).size.toNat := by
    rw [← hsize, hwhole, ← Nat.mul_succ]
    exact Nat.mul_le_mul_left _ hk
  obtain ⟨hbn, hmap⟩ := h.sound.at_ne_zero hlt hne (o := DIRENT * k) (by unfold DIRENT at *; omega)
  rw [hdin]
  refine ⟨⟨hle, hbn, hmap⟩, ?_⟩
  rw [hnode, Dinode.node_entry hle]

lemma Shows.slots_eq {x : Inode} (h : Shows x i n) (hwhole : n.Whole) :
    slots x.din.size = n.slots := by
  obtain ⟨-, d, rfl⟩ := h
  exact Dinode.slots_node hwhole

/-- The loop over the entries of a locked directory. -/
lemma findDirent_spec (hei : a.Holds H e i) (he : e ∈ L) (hn : a.node i = some n)
    (htype : n.type = T_DIR) (msg : String) (p : Dirent → Bool) {size : BitVec 32}
    (hsize : slots size = n.slots) (k : ℕ) :
    Triple E (Inv sb a H L) (findDirent msg e p (offsets size k)) fun r s =>
      r = (n.find p k).map (fun j => (DIRENT * j, n.entry j)) ∧ Inv sb a H L s := by
  refine .of_run fun s h => ?_
  have hent : ∀ j ∈ (List.range n.slots).drop k, HasEntry (s.itable e).din s.disk j ∧
      direntAt (s.itable e).din s.disk j = n.entry j := fun j hj =>
    h.hasEntry hei he hn htype (Node.mem_drop_range.1 hj).2
  have hrun := findDirent_run (s := s) (e := e) (p := p) msg ((List.range n.slots).drop k) []
    fun j hj => (hent j hj).1
  have hfind : ((List.range n.slots).drop k).find?
      (fun j => p (direntAt (s.itable e).din s.disk j)) = n.find p k :=
    List.find?_congr fun j hj => by rw [(hent j hj).2]
  rw [List.append_nil, hfind] at hrun
  rw [offsets, hsize, hrun]
  cases hf : n.find p k with
  | none => exact ⟨rfl, h⟩
  | some j =>
    have hmem : j ∈ (List.range n.slots).drop k := List.mem_of_find?_eq_some hf
    dsimp only
    rw [(hent j hmem).2]
    exact ⟨rfl, h⟩

/-- `dirlookup` of a name that is not there. -/
lemma dirlookup_none (hei : a.Holds H e i) (he : e ∈ L) (hn : a.node i = some n)
    (htype : n.type = T_DIR) {name : Name} (hl : n.lookup name = none) :
    Triple E (Inv sb a H L) (dirlookup e name) fun r s => r = none ∧ Inv sb a H L s := by
  refine .of_pre fun s h => inode_spec hei he hn fun x hx => ?_
  refine .ite (fun hne => absurd (hx.type.trans htype) hne) fun _ => ?_
  have hsize := hx.slots_eq (h.dirs i n hn htype).whole
  refine .bind (findDirent_spec hei he hn htype _ _ hsize 0) fun r => .assume fun hr => ?_
  rw [show n.find _ 0 = none from hl] at hr
  subst hr
  exact .pure fun _ h => ⟨rfl, h⟩

/-- `dirlookup` returns the inode of the first entry with the name. -/
lemma dirlookup_some (hei : a.Holds H e i) (he : e ∈ L) (hn : a.node i = some n)
    (htype : n.type = T_DIR) {name : Name} {k : ℕ} (hl : n.lookup name = some k)
    (hfull : NINODE ≤ a.used + H.length → E (.panic "iget: no inodes")) :
    Triple E (Inv sb a H L) (dirlookup e name) fun r s => ∃ e', r = some (e', DIRENT * k) ∧
      a.Keeps H e' (n.entry k).inum.toNat ∧ Inv sb a ((e', (n.entry k).inum.toNat) :: H) L s := by
  refine .of_pre fun s h => inode_spec hei he hn fun x hx => ?_
  refine .ite (fun hne => absurd (hx.type.trans htype) hne) fun _ => ?_
  have hproper := h.dirs i n hn htype
  have hlt := hproper.lt k (Node.lookup_some hl).1
  refine .bind (findDirent_spec hei he hn htype _ _ (hx.slots_eq hproper.whole) 0) fun r =>
    .assume fun hr => ?_
  rw [show n.find _ 0 = some k from hl] at hr
  subst hr
  exact (iget_spec hlt hfull).bind fun e' => .pure fun _ h => ⟨e', rfl, h.2, h.1⟩

/-- `isdirempty` skips the entries `.` and `..`. -/
lemma isdirempty_spec (hei : a.Holds H e i) (he : e ∈ L) (hn : a.node i = some n)
    (htype : n.type = T_DIR) :
    Triple E (Inv sb a H L) (isdirempty e) fun r s =>
      (r = true ↔ n.find (·.inum ≠ 0) 2 = none) ∧ Inv sb a H L s := by
  refine .of_pre fun s h => inode_spec hei he hn fun x hx => ?_
  have hsize := hx.slots_eq (h.dirs i n hn htype).whole
  refine .bind (findDirent_spec hei he hn htype _ _ hsize 2) fun r => .assume fun hr => ?_
  cases hf : n.find (fun de => decide (de.inum ≠ 0)) 2 with
  | none =>
    rw [hf] at hr
    subst hr
    exact .pure fun _ h => ⟨by simp, h⟩
  | some j =>
    rw [hf] at hr
    subst hr
    exact .pure fun _ h => ⟨by simp, h⟩

/-! ## Following a path -/

/-- `namex` on the files: the inode at the end of the path `names` from inode `i` on, or that of
the last directory with the last name. -/
def walk (node : ℕ → Option Node) (nameiparent : Bool) : ℕ → List Name → Option (ℕ × Name)
  | i, [] => if nameiparent then none else some (i, [])
  | i, name :: names =>
    match node i with
    | none => none
    | some n =>
      if n.type ≠ T_DIR then none
      else if nameiparent ∧ names = [] then some (i, name)
      else
        match n.lookup name with
        | none => none
        | some k => walk node nameiparent (n.entry k).inum.toNat names

/-- What `namex` returns when `o` is what the path leads to. -/
def Walked (sb : Superblock) (a : Abs) (H : Hands) (o : Option (ℕ × Name))
    (r : Option (Ino × Name)) (s : State) : Prop :=
  match o with
  | none => r = none ∧ Inv sb a H [] s
  | some (j, name) => ∃ e, r = some (e, name) ∧ a.Keeps H e j ∧ Inv sb a ((e, j) :: H) [] s

/-- When the second reference is given up, the first one still is none to an inode without links
that nothing else refers to. -/
lemma Inv.keeps_tail {e' : Ino} {i' : ℕ} (h : Inv sb a ((e', i') :: (e, i) :: H) L s)
    (hkeep' : a.Keeps ((e, i) :: H) e' i') (hkeep : a.Keeps H e i) : a.Keeps H e' i' := by
  by_cases hee : e' = e
  · subst hee
    have hi' := h.table.hand e' i' (List.mem_cons_self ..)
    have hi := h.table.hand e' i (List.mem_cons_of_mem _ (List.mem_cons_self ..))
    rwa [← hi', hi]
  · exact hkeep'.mono (inHand_cons_of_ne H hee i).le

/-- The loop of `namex` walks along the elements and holds one reference. -/
lemma namexLoop_spec (hsb : sb.WellFormed) (np : Bool) (names : List Name)
    (hfull : NINODE ≤ a.used + (H.length + 1) → E (.panic "iget: no inodes"))
    (hclosed : ¬Closed a.node → E (.panic "ilock: no type")) :
    ∀ e i, a.Keeps H e i → (a.node i = none → E (.panic "ilock: no type")) →
    Triple E (Inv sb a ((e, i) :: H) []) (namexLoop np e names)
      (Walked sb a H (walk a.node np i names)) := by
  induction names with
  | nil =>
    intro e i hkeep hi
    unfold namexLoop walk
    cases np with
    | false => exact .pure fun _ h => ⟨e, rfl, hkeep, h⟩
    | true =>
      exact (iput_keep hsb (absurd · List.not_mem_nil) hkeep).bind fun _ =>
        .pure fun _ h => ⟨rfl, h⟩
  | cons name names ih =>
    intro e i hkeep hi
    have hmem : a.Holds ((e, i) :: H) e i := .head
    have he : e ∈ [e] := List.mem_cons_self ..
    unfold namexLoop
    refine (ilock_spec hmem List.not_mem_nil hi).bind fun _ => ?_
    -- the inode is locked, so it is allocated
    refine .of_pre fun s h => ?_
    obtain ⟨n, hn⟩ := h.node_of_lock hmem he
    have hwalk : walk a.node np i (name :: names) = if n.type ≠ T_DIR then none
        else if np ∧ names = [] then some (i, name)
        else match n.lookup name with
          | none => none
          | some k => walk a.node np (n.entry k).inum.toNat names := by
      rw [walk, hn]
    have hfail : Triple E (Inv sb a ((e, i) :: H) [e]) (do iunlockput e; return none)
        (Walked sb a H none) :=
      (iunlockput_keep hsb List.not_mem_nil hkeep).bind fun _ => .pure fun _ h => ⟨rfl, h⟩
    refine inode_spec hmem he hn fun x hx => .ite (fun hne => ?_) fun hdir => ?_
    · rw [hwalk, if_pos (hx.type ▸ hne)]
      exact hfail
    have htype : n.type = T_DIR := hx.type ▸ not_not.1 hdir
    rw [hwalk, if_neg (not_not.2 htype)]
    refine .ite (fun hlast => ?_) fun hmore => ?_
    · rw [if_pos hlast]
      exact (iunlock_spec hmem List.not_mem_nil).bind fun _ => .pure fun _ h => ⟨e, rfl, hkeep, h⟩
    rw [if_neg hmore]
    cases hl : n.lookup name with
    | none =>
      refine (dirlookup_none hmem he hn htype hl).bind fun r => .assume fun hr => ?_
      subst hr
      exact hfail
    | some k =>
      have hfull' : NINODE ≤ a.used + ((e, i) :: H).length → E (.panic "iget: no inodes") := hfull
      refine (dirlookup_some hmem he hn htype hl hfull').bind fun r => .exists_pre fun e' =>
        .assume fun hr => .assume fun hkeep' => ?_
      subst hr
      dsimp only
      refine .of_pre fun s h => .pre ?_ fun _ h => h.perm (.swap ..)
      refine (iunlockput_keep hsb List.not_mem_nil (hkeep.cons _)).bind fun _ => ih e' _
        (h.keeps_tail hkeep' hkeep) ?_
      intro hnone
      exact hclosed fun hc => hc i n k hn htype (Node.lookup_some hl).1 (Node.lookup_some hl).2.1
        hnone

/-- The inode where process `p` starts to follow a path. -/
def Abs.start (a : Abs) (p : Slot) (path : List UInt8) : ℕ :=
  if path.head? = some slash then ROOTINO else ((a.proc p).cwd.map a.inum).getD 0

lemma Abs.pinned_of_cwd (h : (a.proc p).cwd = some e) : a.pinned e ≠ 0 := by
  have hpos := refs_pos (f := cwds a.proc) (a := p) h
  unfold Abs.pinned
  omega

/-- `namex` starts at the root or at the current directory. -/
lemma namex_spec (hsb : sb.WellFormed) (hp : (a.proc p).cwd ≠ none) (path : List UInt8) (np : Bool)
    (hfull : NINODE ≤ a.used + (H.length + 1) → E (.panic "iget: no inodes"))
    (hclosed : ¬Closed a.node → E (.panic "ilock: no type"))
    (hroot : a.node ROOTINO = none → E (.panic "ilock: no type")) :
    Triple E (Inv sb a H []) (namex p path np)
      (Walked sb a H (walk a.node np (a.start p path) (elems path))) := by
  have hloop := namexLoop_spec hsb np (elems path) hfull hclosed
  have hfull' : NINODE ≤ a.used + H.length → E (.panic "iget: no inodes") := fun h =>
    hfull (by omega)
  unfold namex
  refine .ite (fun habs => ?_) fun hrel => ?_
  · rw [show a.start p path = ROOTINO from if_pos habs]
    refine (iget_spec hsb.root_lt hfull').bind fun e => ?_
    exact .of_pre fun s h => (hloop e ROOTINO h.2 hroot).pre fun _ h => h.1
  · obtain ⟨e, he⟩ := Option.ne_none_iff_exists'.1 hp
    have hpin := Abs.pinned_of_cwd he
    have hstart : a.start p path = a.inum e := by
      rw [Abs.start, if_neg hrel, he]
      rfl
    refine .read_bind fun s h => ?_
    rw [h.proc, he, hstart]
    refine (idup_spec hpin).bind fun e' => .assume fun hee => ?_
    subst hee
    exact hloop e' (a.inum e') (fun _ _ _ => .inl hpin) fun hnone => absurd hnone (h.alive e' hpin)

/-! ## The elements of a path -/

/-- The maximal runs of characters other than `'/'`, each cut to `DIRSIZ` characters. -/
def runs (path : List UInt8) : List Name :=
  ((path.splitOnP (· = slash)).filter (· ≠ [])).map (List.take DIRSIZ)

/-- A leading slash ends no element. -/
lemma runs_slash (path : List UInt8) : runs (slash :: path) = runs path := by
  rw [runs, List.splitOnP_cons_eq_if_modifyHead, if_pos (by simp)]
  simp [runs]

lemma runs_dropWhile (path : List UInt8) : runs (path.dropWhile (· = slash)) = runs path := by
  induction path with
  | nil => rfl
  | cons c path ih =>
    by_cases hc : c = slash
    · rw [List.dropWhile_cons_of_pos (by simpa using hc), ih, hc, runs_slash]
    · rw [List.dropWhile_cons_of_neg (by simpa using hc)]

/-- The first run of a path that does not start with a slash. -/
lemma runs_cons {c : UInt8} (hc : c ≠ slash) :
    runs (c :: path) = ((c :: path).takeWhile (· ≠ slash)).take DIRSIZ ::
      runs ((c :: path).dropWhile (· ≠ slash)) := by
  have hfirst : ∀ x ∈ (c :: path).takeWhile (· ≠ slash), decide (x = slash) = false := by
    intro x hx
    simpa using List.mem_takeWhile_imp hx
  have hne : (c :: path).takeWhile (· ≠ slash) ≠ [] := by simp [hc]
  have hsplit := List.takeWhile_append_dropWhile (p := (· ≠ slash)) (l := c :: path)
  generalize (c :: path).takeWhile (· ≠ slash) = first at hfirst hne hsplit ⊢
  have hrest : ∀ x rest, (c :: path).dropWhile (· ≠ slash) = x :: rest → x = slash := by
    intro x rest hx
    have hnot := List.head?_dropWhile_not (· ≠ slash) (c :: path)
    rw [hx] at hnot
    simpa using hnot
  generalize (c :: path).dropWhile (· ≠ slash) = rest at hrest hsplit ⊢
  rw [← hsplit]
  cases rest with
  | nil =>
    rw [List.append_nil, runs, List.splitOnP_eq_singleton hfirst]
    simp [hne, runs]
  | cons x rest =>
    obtain rfl := hrest x rest rfl
    rw [runs, List.splitOnP_append_cons_of_forall_mem hfirst _ (by simp), runs_slash]
    simp [hne, runs]

/-- `skipelem` finds the first run. -/
lemma skipelem_runs (path : List UInt8) :
    match skipelem path with
    | none => runs path = []
    | some (name, rest) => runs path = name :: runs rest ∧ rest.length < path.length := by
  have hdrop := runs_dropWhile path
  have hle := (List.dropWhile_sublist (l := path) (· = slash)).length_le
  have hhead : ∀ c rest, path.dropWhile (· = slash) = c :: rest → c ≠ slash := by
    intro c rest hc
    have hnot := List.head?_dropWhile_not (· = slash) path
    rw [hc] at hnot
    simpa using hnot
  unfold skipelem
  cases hpath : path.dropWhile (· = slash) with
  | nil =>
    rw [hpath] at hdrop
    exact hdrop.symm
  | cons c rest =>
    rw [hpath] at hdrop hle
    have hc := hhead c rest hpath
    refine ⟨?_, ?_⟩
    · rw [← hdrop, runs_cons hc, runs_dropWhile]
    · have h₁ := (List.dropWhile_sublist (l := rest) (· ≠ slash)).length_le
      have h₂ := (List.dropWhile_sublist (l := rest.dropWhile (· ≠ slash)) (· = slash)).length_le
      rw [List.dropWhile_cons_of_pos (by simpa using hc)]
      rw [List.length_cons] at hle
      omega

/-- Calling `skipelem` again and again finds all runs. -/
lemma elems_eq_runs (path : List UInt8) : elems path = runs path := by
  have hloop : ∀ fuel path, List.length path ≤ fuel → elemsLoop fuel path = runs path := by
    intro fuel
    induction fuel with
    | zero =>
      intro path hle
      obtain rfl := List.length_eq_zero_iff.1 (Nat.le_zero.1 hle)
      rfl
    | succ fuel ih =>
      intro path hle
      have hskip := skipelem_runs path
      unfold elemsLoop
      cases hs : skipelem path with
      | none =>
        rw [hs] at hskip
        exact hskip.symm
      | some x =>
        obtain ⟨name, rest⟩ := x
        rw [hs] at hskip
        obtain ⟨hruns, hlt⟩ := hskip
        dsimp only
        rw [ih rest (by omega), hruns]
  exact hloop _ path le_rfl

/-! ## `namei` and `nameiparent` -/

/-- Inode `i` is a directory. -/
def IsDir (node : ℕ → Option Node) (i : ℕ) : Prop := (node i).map Node.type = some T_DIR

instance (node : ℕ → Option Node) (i : ℕ) : Decidable (IsDir node i) :=
  inferInstanceAs (Decidable (_ = _))

/-- The inode that `name` names in directory `i`. -/
def child (node : ℕ → Option Node) (i : ℕ) (name : Name) : Option ℕ := do
  let n ← node i
  if n.type = T_DIR then (n.lookup name).map fun k => (n.entry k).inum.toNat else none

/-- Look up one name after the other, from inode `i` on. -/
def follow (node : ℕ → Option Node) (i : ℕ) (names : List Name) : Option ℕ :=
  names.foldlM (child node) i

/-- The directory that all names but the last lead to, with the last name. -/
def followParent (node : ℕ → Option Node) (i : ℕ) (names : List Name) : Option (ℕ × Name) := do
  let name ← names.getLast?
  let j ← follow node i names.dropLast
  if IsDir node j then some (j, name) else none

variable {node : ℕ → Option Node} {names : List Name}

lemma isDir_iff : IsDir node i ↔ ∃ n, node i = some n ∧ n.type = T_DIR := by
  unfold IsDir
  rw [Option.map_eq_some_iff]

lemma follow_nil (i : ℕ) : follow node i [] = some i := rfl

lemma follow_cons (i : ℕ) (name : Name) (names : List Name) :
    follow node i (name :: names) = (child node i name).bind fun j => follow node j names :=
  List.foldlM_cons ..

lemma child_of_lookup {name : Name} {k : ℕ} (hn : node i = some n) (hd : n.type = T_DIR)
    (hk : n.lookup name = some k) : child node i name = some (n.entry k).inum.toNat := by
  simp [child, hn, hd, hk]

/-- Following a path fails where the next name cannot be looked up. -/
lemma follow_eq_none (names : List Name) : ∀ i, follow node i names = none ↔
    ∃ k, ∃ h : k < names.length, ∃ j, follow node i (names.take k) = some j ∧
      child node j names[k] = none := by
  induction names with
  | nil => simp [follow]
  | cons name names ih =>
    intro i
    cases hc : child node i name with
    | none =>
      refine iff_of_true (by simp [follow, hc]) ⟨0, Nat.succ_pos _, i, rfl, hc⟩
    | some j =>
      have hstep : ∀ l, follow node i (name :: l) = follow node j l := by
        intro l
        simp [follow, hc]
      rw [hstep, ih j]
      constructor
      · rintro ⟨k, hk, j', hj, hnone⟩
        refine ⟨k + 1, Nat.succ_lt_succ hk, j', ?_, hnone⟩
        rw [List.take_succ_cons, hstep, hj]
      · rintro ⟨k, hk, j', hj, hnone⟩
        cases k with
        | zero =>
          obtain rfl : i = j' := Option.some.inj hj
          exact absurd hnone (by rw [List.getElem_cons_zero, hc]; exact Option.some_ne_none _)
        | succ k =>
          rw [List.take_succ_cons, hstep] at hj
          exact ⟨k, Nat.lt_of_succ_lt_succ hk, j', hj, hnone⟩

/-- `namei` follows all the elements. -/
lemma walk_false (names : List Name) : ∀ i,
    walk node false i names = (follow node i names).map fun j => (j, []) := by
  induction names with
  | nil => exact fun i => rfl
  | cons name names ih =>
    intro i
    rw [walk, follow, List.foldlM_cons]
    cases hn : node i with
    | none => simp [child, hn]
    | some n =>
      dsimp only
      by_cases hd : n.type = T_DIR
      · rw [if_neg (not_not.2 hd), if_neg (by simp)]
        cases hl : n.lookup name with
        | none => simp [child, hn, hd, hl]
        | some k =>
          dsimp only
          rw [ih]
          simp [child, hn, hd, hl, follow]
      · rw [if_pos hd]
        simp [child, hn, hd]

/-- `nameiparent` follows all but the last one. -/
lemma walk_true (names : List Name) : ∀ i,
    walk node true i names = followParent node i names := by
  induction names with
  | nil => exact fun i => rfl
  | cons name names ih =>
    intro i
    rw [walk]
    cases names with
    | nil =>
      cases hn : node i with
      | none => simp [followParent, follow, IsDir, hn]
      | some n =>
        by_cases hd : n.type = T_DIR
        · simp [followParent, follow, IsDir, hn, hd]
        · simp [followParent, follow, IsDir, hn, hd]
    | cons name' names =>
      have hstep : followParent node i (name :: name' :: names) =
          (child node i name).bind fun j => followParent node j (name' :: names) := by
        unfold followParent follow
        rw [List.getLast?_cons_cons, List.dropLast_cons_cons, List.foldlM_cons]
        cases hc : child node i name with
        | none =>
          rw [List.getLast?_cons]
          rfl
        | some j => rfl
      rw [hstep]
      cases hn : node i with
      | none => simp [child, hn]
      | some n =>
        dsimp only
        by_cases hd : n.type = T_DIR
        · rw [if_neg (not_not.2 hd), if_neg (by simp)]
          cases hl : n.lookup name with
          | none => simp [child, hn, hd, hl]
          | some k =>
            dsimp only
            rw [ih]
            simp [child, hn, hd, hl]
        · rw [if_pos hd]
          simp [child, hn, hd]

lemma child_eq_none {name : Name} : child node i name = none ↔
    ¬IsDir node i ∨ ∀ n, node i = some n → n.lookup name = none := by
  unfold child IsDir
  cases hn : node i with
  | none => simp
  | some n =>
    by_cases hd : n.type = T_DIR
    · simp [hd]
    · simp [hd]

/-- What may stop a call that has at most two references in hand when it looks up a name. -/
structure Stops (E : Stop → Prop) (a : Abs) : Prop where
  full : NINODE ≤ a.used + 2 → E (.panic "iget: no inodes")
  closed : ¬Closed a.node → E (.panic "ilock: no type")
  root : a.node ROOTINO = none → E (.panic "ilock: no type")

/-- `namei` returns the inode that the path leads to, with a reference. -/
lemma namei_spec (hsb : sb.WellFormed) (hstop : Stops E a) (hH : H.length ≤ 1)
    (hp : (a.proc p).cwd ≠ none) (path : List UInt8) :
    Triple E (Inv sb a H []) (namei p path) fun r s =>
      (r = none ∧ follow a.node (a.start p path) (elems path) = none ∧ Inv sb a H [] s) ∨
      ∃ e j, r = some e ∧ follow a.node (a.start p path) (elems path) = some j ∧ a.Keeps H e j ∧
        Inv sb a ((e, j) :: H) [] s := by
  refine (namex_spec hsb hp path false (fun hfull => hstop.full (by omega)) hstop.closed
    hstop.root).bind fun r => .pure fun s h => ?_
  rw [walk_false] at h
  cases hf : follow a.node (a.start p path) (elems path) with
  | none =>
    rw [hf] at h
    obtain ⟨rfl, h⟩ := h
    exact .inl ⟨rfl, rfl, h⟩
  | some j =>
    rw [hf] at h
    obtain ⟨e, rfl, hkeep, h⟩ := h
    exact .inr ⟨e, j, rfl, rfl, hkeep, h⟩

/-- `nameiparent` returns the directory of the last element, and that element. -/
lemma nameiparent_spec (hsb : sb.WellFormed) (hstop : Stops E a) (hH : H.length ≤ 1)
    (hp : (a.proc p).cwd ≠ none) (path : List UInt8) :
    Triple E (Inv sb a H []) (nameiparent p path) fun r s =>
      (r = none ∧ followParent a.node (a.start p path) (elems path) = none ∧ Inv sb a H [] s) ∨
      ∃ e j name, r = some (e, name) ∧
        followParent a.node (a.start p path) (elems path) = some (j, name) ∧ a.Keeps H e j ∧
        Inv sb a ((e, j) :: H) [] s := by
  refine (namex_spec hsb hp path true (fun hfull => hstop.full (by omega)) hstop.closed
    hstop.root).post fun r s h => ?_
  rw [walk_true] at h
  cases hf : followParent a.node (a.start p path) (elems path) with
  | none =>
    rw [hf] at h
    obtain ⟨rfl, h⟩ := h
    exact .inl ⟨rfl, rfl, h⟩
  | some x =>
    rw [hf] at h
    obtain ⟨e, rfl, hkeep, h⟩ := h
    exact .inr ⟨e, x.1, x.2, rfl, rfl, hkeep, h⟩

/-- Paths lead to allocated inodes only. -/
lemma follow_ne_none (hc : Closed node) (names : List Name) : ∀ i, node i ≠ none → ∀ j,
    follow node i names = some j → node j ≠ none := by
  induction names with
  | nil =>
    intro i hi j hj
    obtain rfl : i = j := Option.some.inj hj
    exact hi
  | cons name names ih =>
    intro i _ j hj
    obtain ⟨i', hi', hj⟩ := Option.bind_eq_some_iff.1 hj
    refine ih i' ?_ j hj
    obtain ⟨n, hn, hi'⟩ := Option.bind_eq_some_iff.1 hi'
    split at hi'
    case isFalse => cases hi'
    case isTrue hd =>
      obtain ⟨k, hk, rfl⟩ := Option.map_eq_some_iff.1 hi'
      obtain ⟨hlt, h0, -⟩ := Node.lookup_some hk
      exact hc i n k hn hd hlt h0

/-- What a path leads to can be locked. -/
lemma Stops.of_follow (hstop : Stops E a) (h : Inv sb a H L s) (hp : (a.proc p).cwd ≠ none)
    (hi : follow a.node (a.start p path) names = some i) (hnone : a.node i = none) :
    E (.panic "ilock: no type") := by
  by_cases hc : Closed a.node
  · by_cases hstart : a.node (a.start p path) = none
    · obtain ⟨e, he⟩ := Option.ne_none_iff_exists'.1 hp
      unfold Abs.start at hstart
      split at hstart
      case isTrue => exact hstop.root hstart
      case isFalse =>
        rw [he] at hstart
        exact absurd hstart (h.alive e (Abs.pinned_of_cwd he))
    · exact absurd hnone (follow_ne_none hc names _ hstart i hi)
  · exact hstop.closed hc

/-- What a path leads to but for its last element is a directory. -/
lemma isDir_of_followParent {j : ℕ} {name : Name} (h : followParent node i names = some (j, name)) :
    ∃ n, node j = some n ∧ n.type = T_DIR := by
  unfold followParent at h
  obtain ⟨name', -, h⟩ := Option.bind_eq_some_iff.1 h
  obtain ⟨j', -, h⟩ := Option.bind_eq_some_iff.1 h
  split at h
  case isFalse => cases h
  case isTrue hd =>
    obtain ⟨rfl, -⟩ := Prod.mk.inj (Option.some.inj h)
    exact isDir_iff.1 hd

/-- The references to inode `j`, if there is one, are one more; those to the others are the same. -/
def Gains (s s' : State) (j : Option ℕ) : Prop :=
  ∀ i, refCount s' i = refCount s i + if j = some i then 1 else 0

lemma Walked.gains {o : Option (ℕ × Name)} {r : Option (Ino × Name)} {s' : State}
    (h : Walked sb a [] o r s') (hs : Inv sb a [] [] s) :
    r.map (fun x => ((s'.itable x.1).inum, x.2)) = o ∧ Gains s s' (o.map Prod.fst) := by
  have hbase := fun i => hs.refCount_eq i
  cases o with
  | none =>
    obtain ⟨rfl, h⟩ := h
    refine ⟨rfl, fun i => ?_⟩
    rw [h.refCount_eq, hbase]
    simp
  | some x =>
    obtain ⟨j, name⟩ := x
    obtain ⟨e, rfl, -, h⟩ := h
    refine ⟨?_, fun i => ?_⟩
    · rw [Option.map_some, h.table.hand e j (List.mem_cons_self ..)]
    · rw [h.refCount_eq, hbase]
      simp [List.countP_cons]

/-- `iget` finds no entry, because at most one is free. -/
def Exhausted (s : State) (e : Stop) : Prop :=
  e = .panic "iget: no inodes" ∧ NINODE ≤ inUse s + 1

/-- What the path lookups of process `p` do. -/
structure PathLookup (s : State) (p : Slot) (path : List UInt8) : Prop where
  /-- The elements of the path are its runs. -/
  elems : elems path = runs path
  /-- `namei` returns the inode that the runs lead to. -/
  namei : Post (Exhausted s) (fun (r, s') =>
    r.map (fun e => (s'.itable e).inum) =
      follow (view s.sb s.disk) (s.abs.start p path) (runs path) ∧
    Gains s s' (r.map fun e => (s'.itable e).inum)) ((namei p path).run s)
  /-- The lookup fails where a prefix is not a directory or lacks the next name. -/
  fails : follow (view s.sb s.disk) (s.abs.start p path) (runs path) = none ↔
    ∃ k, ∃ h : k < (runs path).length, ∃ j,
      follow (view s.sb s.disk) (s.abs.start p path) ((runs path).take k) = some j ∧
      (¬IsDir (view s.sb s.disk) j ∨
        ∀ n, view s.sb s.disk j = some n → n.lookup (runs path)[k] = none)
  /-- `nameiparent` returns the directory that all runs but the last lead to, and the last. -/
  nameiparent : Post (Exhausted s) (fun (r, s') =>
    r.map (fun x => ((s'.itable x.1).inum, x.2)) =
      followParent (view s.sb s.disk) (s.abs.start p path) (runs path) ∧
    Gains s s' (r.map fun x => (s'.itable x.1).inum)) ((nameiparent p path).run s)

/-- Path lookup is component-wise lookup. -/
theorem path_lookup (hs : Settled s) (hclosed : Closed (view s.sb s.disk))
    (hroot : view s.sb s.disk ROOTINO ≠ none) {p : Slot} (hp : (s.proc p).cwd ≠ none)
    (path : List UInt8) : PathLookup s p path := by
  have hrun : ∀ np, Post (Exhausted s) (fun r => Walked s.sb s.abs []
      (walk (view s.sb s.disk) np (s.abs.start p path) (runs path)) r.1 r.2)
      ((namex p path np).run s) := by
    intro np
    rw [← elems_eq_runs]
    refine (namex_spec (E := Exhausted s) hs.wf hp path np (fun hfull => ⟨rfl, ?_⟩)
      (fun h => absurd hclosed h) fun h => absurd h hroot).run hs.inv
    rwa [hs.used_eq, List.length_nil, Nat.zero_add] at hfull
  refine ⟨elems_eq_runs path, ?_, ?_, ?_⟩
  · have hfalse := hrun false
    rw [walk_false] at hfalse
    unfold Fs.namei
    rw [StateT.run_bind]
    refine Post.bind (hfalse.mono ?_)
    rintro ⟨r, s'⟩ hw
    obtain ⟨hr, hgains⟩ := hw.gains hs.inv
    have hinum : (r.map Prod.fst).map (fun e => (s'.itable e).inum) =
        follow (view s.sb s.disk) (s.abs.start p path) (runs path) := by
      have hfst := congrArg (Option.map Prod.fst) hr
      simpa [Function.comp_def] using hfst
    refine ⟨hinum, ?_⟩
    rw [hinum]
    simpa [Function.comp_def] using hgains
  · rw [follow_eq_none]
    simp only [child_eq_none]
  · have htrue := hrun true
    rw [walk_true] at htrue
    refine htrue.mono ?_
    rintro ⟨r, s'⟩ hw
    obtain ⟨hr, hgains⟩ := hw.gains hs.inv
    refine ⟨hr, ?_⟩
    rw [← hr] at hgains
    simpa [Function.comp_def] using hgains

/-- The path `"//a/"` leads to the file of the small image. -/
theorem path_lookup_sample : PathLookup sampleBoot 0 [slash, slash, 97, slash] ∧
    follow (view sampleBoot.sb sampleBoot.disk) (sampleBoot.abs.start 0 [slash, slash, 97, slash])
      (runs [slash, slash, 97, slash]) = some 2 := by
  have hclosed : Closed (view sampleBoot.sb sampleBoot.disk) := by
    rw [sampleBoot_sb]
    exact sample_closed
  have hcwd : (sampleBoot.proc 0).cwd ≠ none := Option.some_ne_none 0
  exact ⟨path_lookup sampleBoot_settled hclosed sample_drawable.formatted.root hcwd _,
    by decide +kernel⟩

end Xv6.Fs
