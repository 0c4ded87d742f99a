import Xv6.Fs.Namei

/-!
# Creating and removing names

`sys_link`, `sys_unlink`, and `create` with `sys_mkdir` and `sys_mknod`. On the abstract state a
call that succeeds writes one directory entry and adjusts link counts, and a call that fails does
nothing: whatever it did before it failed is undone.
-/

namespace Xv6.Fs

open Xv6.Lib
open Xv6.Process (Slot Stop)
open Function (update update_of_ne update_self)

variable {sb : Superblock} {a : Abs} {H : Hands} {L : List Ino} {s : State} {e dp : Ino}
  {i k j d : ℕ} {n m : Node} {E : Stop → Prop} {α β : Type} {de : Dirent} {p : Slot} {name : Name}
  {path : List UInt8} {type major minor : BitVec 16}

/-! ## Writing a directory entry -/

/-- A write within a block that is there, to memory that can be read, is complete. -/
lemma writei_of_mapped (sb : Superblock) (ip : Dinode) (d : Disk) (src : ℕ → Option UInt8)
    {off len : ℕ} (inum : ℕ) (hlen : 0 < len) (hfit : off % BSIZE + len ≤ BSIZE)
    (hend : off + len ≤ ip.size.toNat)
    (hsize : ip.size.toNat ≤ MAXFILE * BSIZE) (hmap : ip.at d (blockRef (off / BSIZE)) ≠ 0)
    (hsrc : ∀ k < len, (src k).isSome) :
    ∃ x, writei sb inum ip src off len d = .ok ((len : ℤ), x) := by
  have hlt := ip.size.isLt
  have hsum : (off + len) % 2 ^ 32 = off + len := Nat.mod_eq_of_lt (by omega)
  have hbn : off / BSIZE < MAXFILE := Nat.div_lt_of_lt_mul (by rw [Nat.mul_comm]; omega)
  have hmin : min (len - 0) (BSIZE - off % BSIZE) = len := by omega
  have hcopied : (copied src 0 len).length = len := by
    rw [copied_eq fun k hk => by simpa using hsrc k hk]
    simp
  obtain ⟨fuel, rfl⟩ : ∃ fuel, len = fuel + 1 := ⟨len - 1, by omega⟩
  have hloop : ∃ ip' d', writeLoop sb src (fuel + 1) (fuel + 1) 0 off ip d =
      .ok ((fuel + 1, off + (fuel + 1)), ip', d') := by
    refine ⟨ip, update d (ip.at d (blockRef (off / BSIZE)))
      ((d (ip.at d (blockRef (off / BSIZE)))).put (off % BSIZE) (copied src 0 (fuel + 1))), ?_⟩
    rw [writeLoop, if_pos hlen, bmap_of_mapped (d := d) hbn hmap]
    show (if ip.at d (blockRef (off / BSIZE)) = 0 then _ else _) = _
    rw [if_neg hmap, hmin, if_neg (by omega), Nat.zero_add]
    cases fuel with
    | zero => rfl
    | succ fuel =>
      rw [writeLoop, if_neg (Nat.lt_irrefl _)]
      rfl
  obtain ⟨ip', d', hloop⟩ := hloop
  unfold writei
  rw [hsum, if_neg (by omega), if_neg (by omega), hloop]
  exact ⟨_, rfl⟩

/-- A new entry keeps a directory proper. -/
lemma Node.Proper.setEntry (h : n.Proper sb) (hk : k ≤ n.slots) (hname : de.name.length = DIRSIZ)
    (hinum : de.inum.toNat < sb.ninodes) : (n.setEntry k de).Proper sb := by
  obtain ⟨hwhole, hslots⟩ := h.whole.setEntry hk hname
  refine ⟨hwhole, fun j hj => ?_⟩
  rw [Node.entry_setEntry (by rw [h.whole.length_eq]; exact Nat.mul_le_mul_left _ hk) hname]
  split
  case isTrue => exact hinum
  case isFalse hne =>
    rw [hslots] at hj
    exact h.lt j (by omega)

/-- An entry of a directory is written, or at its end there is no block for it. -/
lemma writeDirent_spec (hsb : sb.WellFormed) (hei : a.Holds H e i) (he : e ∈ L)
    (hn : a.node i = some n) (htype : n.type = T_DIR) (hk : k ≤ n.slots)
    (hname : de.name.length = DIRSIZ) (hinum : de.inum.toNat < sb.ninodes) :
    Triple E (Inv sb a H L) (writeDirent e (DIRENT * k) de) fun r s =>
      (r = DIRENT ∧ Inv sb (a.set i (some (n.setEntry k de))) H L s) ∨
      (r ≠ DIRENT ∧ n.slots ≤ k ∧ Inv sb a H L s) := by
  refine .of_run fun s h => ?_
  obtain ⟨hlt, -, -, hne, hnode⟩ := h.entry hei he
  rw [hn] at hnode
  have hnode := Option.some.inj hnode
  have hproper := h.dirs i n hn htype
  have hlen := Dirent.length_encode hname
  have hsrc : ∀ j < DIRENT, (de.encode[j]?).isSome := fun j hj => by simp [hlen, hj]
  have hwrite : Post (fun _ => False) _
      (writei sb i (dinode sb s.disk i) (fun j => de.encode[j]?) (DIRENT * k) DIRENT s.disk) :=
    h.sound.writei_post hsb hlt hne _ (by decide)
  obtain ⟨⟨r, ip', d'⟩, hrun, hup, hrew⟩ := hwrite.exists_ok
  dsimp only at hup hrew
  have htype' : ip'.type = n.type := by
    rw [hrew.type, hnode]
    rfl
  rw [writeDirent, h.onInode_run hei he hrun, Post.ok_iff]
  dsimp only
  have hsame : ip'.node d' = n → Inv sb a H L { s with
      disk := d'
      itable := update s.itable e { s.itable e with din := ip' } } := by
    intro hnew
    have hw := h.write hei he hn hup rfl htype' fun _ => hnew ▸ hproper
    rwa [hnew, Abs.set_eq_self hn] at hw
  -- where there is an entry already, its block is there
  have hold : k < n.slots → r = DIRENT := by
    intro hlt'
    obtain ⟨hent, -⟩ := h.hasEntry hei he hn htype hlt'
    rw [(h.entry hei he).2.2.1] at hent
    obtain ⟨x, hx⟩ := writei_of_mapped sb (dinode sb s.disk i) s.disk (fun j => de.encode[j]?) i
      (show 0 < DIRENT by decide)
      (by unfold DIRENT BSIZE; omega) hent.size (h.sound.size_le i hlt hne) hent.mapped hsrc
    rw [hrun] at hx
    exact (Prod.mk.inj (Except.ok.inj hx)).1
  obtain ⟨rfl, hnew⟩ | ⟨m, hm, rfl, hoff, hone, hnew⟩ := hrew.node_eq hsrc
  · refine .inr ⟨by decide, ?_, hsame (hnew.trans hnode.symm)⟩
    by_contra hlt'
    exact absurd (hold (by omega)) (by decide)
  · obtain rfl | rfl := hone (by unfold DIRENT BSIZE; omega)
    · refine .inr ⟨by decide, ?_, hsame ?_⟩
      · by_contra hlt'
        exact absurd (hold (by omega)) (by decide)
      · rw [hnew, hnode]
        simp [sourceBytes]
    · have hbytes : sourceBytes (fun j => de.encode[j]?) DIRENT = de.encode := by
        have hmap := Node.map_getD_encode hname
        simpa [sourceBytes, List.getD_eq_getElem?_getD] using hmap
      have hset : ip'.node d' = n.setEntry k de := by
        rw [hnew, hbytes, hnode]
        rfl
      refine .inl ⟨rfl, ?_⟩
      rw [← hset]
      exact h.write hei he hn hup rfl htype' fun _ => hset ▸ hproper.setEntry hk hname hinum

/-! ## Adding an entry -/

namespace Node

/-- The entry that `dirlink` writes: the first free one, or a new one at the end. -/
def freeSlot (n : Node) : ℕ := (n.find (·.inum = 0) 0).getD n.slots

/-- The directory with an entry more, which gives inode `j` the name `name`. -/
def link (n : Node) (name : Name) (j : ℕ) : Node :=
  n.setEntry n.freeSlot ⟨.ofNat 16 j, strncpy name⟩

lemma freeSlot_le (n : Node) : n.freeSlot ≤ n.slots := by
  unfold freeSlot
  cases hf : n.find (fun de => decide (de.inum = 0)) 0 with
  | none => exact le_rfl
  | some k => exact (find_some hf).2.1.le

/-- Why `dirlink` refuses the name: it is in use, or the directory has to grow. -/
def Full (n : Node) (name : Name) : Prop := n.lookup name ≠ none ∨ n.slots ≤ n.freeSlot

end Node

/-- `dirlink` enters the name in the first free slot, unless it is there or the directory is full.
-/
lemma dirlink_spec (hsb : sb.WellFormed) (hei : a.Holds H e i) (he : e ∈ L) (hn : a.node i = some n)
    (htype : n.type = T_DIR) (name : Name) (hj : j < sb.ninodes)
    (hfull : NINODE ≤ a.used + H.length → E (.panic "iget: no inodes")) :
    Triple E (Inv sb a H L) (dirlink e name j) fun r s =>
      (r = -1 ∧ n.Full name ∧ Inv sb a H L s) ∨
      (r = 0 ∧ n.lookup name = none ∧ Inv sb (a.set i (some (n.link name j))) H L s) := by
  refine .of_pre fun s h => ?_
  unfold dirlink
  cases hl : n.lookup name with
  | some k =>
    refine (dirlookup_some hei he hn htype hl hfull).bind fun r => .exists_pre fun e' =>
      .assume fun hr => .assume fun hkeep => ?_
    subst hr
    exact (iput_keep hsb (fun he' => h.table.ref e' ▸ (h.table.lock e' he').2) hkeep).bind fun _ =>
      .pure fun _ h => .inl ⟨rfl, .inl (by rw [hl]; exact Option.some_ne_none k), h⟩
  | none =>
    refine (dirlookup_none hei he hn htype hl).bind fun r => .assume fun hr => ?_
    subst hr
    refine inode_spec hei he hn fun x hx => ?_
    have hsize := hx.slots_eq (h.dirs i n hn htype).whole
    have hinum : (BitVec.ofNat 16 j).toNat < sb.ninodes := by
      rw [BitVec.toNat_ofNat]
      exact lt_of_le_of_lt (Nat.mod_le ..) hj
    have hwrite : Triple E (Inv sb a H L) (do
        let r ← writeDirent e (DIRENT * n.freeSlot) ⟨.ofNat 16 j, strncpy name⟩
        return if r ≠ DIRENT then -1 else 0) fun r s =>
          (r = -1 ∧ n.Full name ∧ Inv sb a H L s) ∨ (r = 0 ∧ (none : Option ℕ) = none ∧
            Inv sb (a.set i (some (n.link name j))) H L s) := by
      refine (writeDirent_spec hsb hei he hn htype n.freeSlot_le (length_strncpy name) hinum).bind
        fun r => .pure fun s h => ?_
      obtain ⟨hr, h⟩ | ⟨hr, hslot, h⟩ := h
      · exact .inr ⟨if_neg (not_not.2 hr), rfl, h⟩
      · exact .inl ⟨if_pos hr, .inr hslot, h⟩
    refine (findDirent_spec hei he hn htype _ _ hsize 0).bind fun r => .assume fun hr => ?_
    unfold Node.freeSlot at hwrite
    cases hf : n.find (fun de => decide (de.inum = 0)) 0 with
    | none =>
      rw [hf] at hr hwrite
      subst hr
      rw [← hsize] at hwrite
      exact hwrite
    | some k =>
      rw [hf] at hr hwrite
      subst hr
      exact hwrite

/-! ## Freeing an inode -/

/-- Inode `i` is freed if it has no links and nothing refers to it. -/
def Abs.drop (a : Abs) (i : ℕ) : Abs :=
  if (∀ e, a.pinned e ≠ 0 → a.inum e ≠ i) ∧ (a.node i).map Node.nlink = some 0 then a.set i none
  else a

lemma Abs.drop_node_of_ne (hj : j ≠ i) : (a.drop i).node j = a.node j := by
  unfold Abs.drop
  split
  case isTrue => exact update_of_ne hj ..
  case isFalse => rfl

/-- The last reference in hand to inode `i` is given up. -/
lemma Inv.put_eq_drop (h : Inv sb a ((e, i) :: H) L s) (hH : inHand H e = 0) :
    a.put H e i = a.drop i := by
  have hmem : (e, i) ∈ (e, i) :: H := List.mem_cons_self ..
  have hinum := h.table.hand e i hmem
  have hiff : a.pinned e = 0 ↔ ∀ e', a.pinned e' ≠ 0 → a.inum e' ≠ i := by
    constructor
    · intro hp e' hp' heq
      have href := h.table.ref e'
      have hpin := h.table.pin e' hp'
      have hee : e' = e := h.table.inj e' e (by omega) (h.table.ref_ne_zero (.inl hmem))
        (by rw [hpin, hinum, heq])
      exact hp' (hee ▸ hp)
    · intro hall
      by_contra hp
      exact hall e hp (by rw [← h.table.pin e hp, hinum])
  unfold Abs.put Abs.drop
  simp only [hH, hiff, true_and]

/-- The last reference of a call: `iput` frees the inode if nothing else refers to it. -/
lemma iput_drop (hsb : sb.WellFormed) (he : e ∉ L) (hH : inHand H e = 0) :
    Triple E (Inv sb a ((e, i) :: H) L) (iput e) fun _ => Inv sb (a.drop i) H L := by
  refine .of_pre fun s h => ?_
  have hput := iput_spec (E := E) (a := a) (H := H) (i := i) hsb fun hmem => absurd hmem he
  rwa [h.put_eq_drop hH] at hput

lemma iunlockput_drop (hsb : sb.WellFormed) (he : e ∉ L) (hH : inHand H e = 0) :
    Triple E (Inv sb a ((e, i) :: H) (e :: L)) (iunlockput e) fun _ => Inv sb (a.drop i) H L :=
  (iunlock_spec .head he).bind fun _ => iput_drop hsb he hH

/-- An inode that has links or is referred to is not freed. -/
lemma Abs.Keeps.set {m' : Node} (h : a.Keeps H e i) (hm : a.node j = some m)
    (hl : m'.nlink = 0 → m.nlink = 0) : (a.set j (some m')).Keeps H e i := by
  intro n hn h0
  by_cases hij : i = j
  · subst hij
    rw [Abs.set_node, update_self] at hn
    obtain rfl := Option.some.inj hn
    exact h m hm (hl h0)
  · rw [Abs.set_node, update_of_ne hij] at hn
    exact h n hn h0

/-- Changes of the link count do not concern the directories. -/
lemma Stops.set {n' : Node} (h : Stops E a) (hn : a.node i = some n) (htype : n'.type = n.type)
    (hdata : n'.data = n.data) : Stops E (a.set i (some n')) := by
  have hsome : ∀ j, a.node j ≠ none → (a.set i (some n')).node j ≠ none := by
    intro j hj
    by_cases hji : j = i
    · rw [hji, Abs.set_node, update_self]
      exact Option.some_ne_none _
    · rwa [Abs.set_node, update_of_ne hji]
  refine ⟨h.full, fun hnot => h.closed fun hc => hnot fun j m k hm hd hk h0 => hsome _ ?_,
    fun hnone => h.root (by_contra fun hr => hsome _ hr hnone)⟩
  by_cases hji : j = i
  · subst hji
    rw [Abs.set_node, update_self] at hm
    obtain rfl := Option.some.inj hm
    unfold Node.slots Node.entry at *
    rw [hdata] at hk h0 ⊢
    exact hc j n k hn (htype ▸ hd) hk h0
  · rw [Abs.set_node, update_of_ne hji] at hm
    exact hc j m k hm hd hk h0

/-- Reading the number of an inode in hand. -/
lemma inode_hand {Q : β → State → Prop} {f : Inode → FsM β} (hei : a.Holds H e i)
    (h : ∀ x, x.inum = i → Triple E (Inv sb a H L) (f x) Q) :
    Triple E (Inv sb a H L) (inode e >>= f) Q :=
  .of_run fun s hs => (h (s.itable e) (hs.table.inum_eq hei)).run hs

/-! ## `sys_link` -/

/-- What `sys_link` does if it succeeds. -/
inductive Abs.Link (a : Abs) (p : Slot) (old new : List UInt8) : Abs → Prop
  | intro {i d : ℕ} {n m : Node} {name : Name}
    (hold : follow a.node (a.start p old) (elems old) = some i) (hn : a.node i = some n)
    (hfile : n.type ≠ T_DIR)
    (hnew : followParent (a.set i (some n.incLink)).node (a.start p new) (elems new) =
      some (d, name))
    (hm : a.node d = some m) (hdir : m.type = T_DIR) (hnone : m.lookup name = none) :
    Abs.Link a p old new
      (((a.set i (some n.incLink)).set d (some (m.link name i))).drop i)

lemma Node.decLink_incLink (n : Node) : n.incLink.decLink = n :=
  Node.ext rfl rfl rfl (add_sub_cancel_right ..) rfl

/-- The label `bad` of `sys_link` takes the link back. -/
lemma linkBad_spec (hsb : sb.WellFormed) (hn : a.node i = some n) (hkeep : a.Keeps [] e i) :
    Triple E (Inv sb (a.set i (some n.incLink)) [(e, i)] []) (linkBad e) fun r s =>
      r = -1 ∧ Inv sb a [] [] s := by
  have hset : (a.set i (some n.incLink)).node i = some n.incLink := update_self ..
  have hback : (a.set i (some n.incLink)).set i (some n.incLink.decLink) = a := by
    rw [Abs.set_set, Node.decLink_incLink, Abs.set_eq_self hn]
  refine (ilock_spec .head List.not_mem_nil fun hnone => ?_).bind fun _ =>
    (decLink_spec hsb .head (List.mem_cons_self ..) hset).bind fun _ => ?_
  · rw [hset] at hnone
    cases hnone
  · rw [hback]
    exact (iunlockput_keep hsb List.not_mem_nil hkeep).bind fun _ => .pure fun _ h => ⟨rfl, h⟩

/-- The second half of `sys_link`: the name is entered, or the link count restored. -/
lemma linkNew_spec (hsb : sb.WellFormed) (hstop : Stops E a) (hp : (a.proc p).cwd ≠ none)
    (hn : a.node i = some n) (hfile : n.type ≠ T_DIR) (hkeep : a.Keeps [] e i)
    {old new : List UInt8} (hold : follow a.node (a.start p old) (elems old) = some i) :
    Triple E (Inv sb (a.set i (some n.incLink)) [(e, i)] []) (linkNew p e new) fun r s =>
      (r = -1 ∧ Inv sb a [] [] s) ∨ (r = 0 ∧ ∃ a', a.Link p old new a' ∧ Inv sb a' [] [] s) := by
  have hbad : Triple E (Inv sb (a.set i (some n.incLink)) [(e, i)] []) (linkBad e) fun r s =>
      (r = -1 ∧ Inv sb a [] [] s) ∨ (r = 0 ∧ ∃ a', a.Link p old new a' ∧ Inv sb a' [] [] s) :=
    (linkBad_spec hsb hn hkeep).post fun _ _ h => .inl h
  have hstop' : Stops E (a.set i (some n.incLink)) := hstop.set hn rfl rfl
  refine (nameiparent_spec (H := [(e, i)]) hsb hstop' le_rfl hp new).bind fun r =>
    .or_pre (.assume fun hr => .assume fun _ => ?_) (.exists_pre fun dp => .exists_pre fun d =>
      .exists_pre fun name => .assume fun hr => .assume fun hnew => .assume fun hkeep' => ?_)
  · subst hr
    exact hbad
  · subst hr
    obtain ⟨m, hm, hdir⟩ := isDir_of_followParent hnew
    have hdi : d ≠ i := by
      rintro rfl
      rw [Abs.set_node, update_self] at hm
      obtain rfl := Option.some.inj hm
      exact hfile hdir
    have hm₀ : a.node d = some m := by rwa [Abs.set_node, update_of_ne hdi] at hm
    have hlt : ∀ s, Inv sb (a.set i (some n.incLink)) [(dp, d), (e, i)] [] s → i < sb.ninodes := by
      intro s h
      have hlt := h.table.lt e (h.table.ref_ne_zero (.cons .head _))
      rwa [h.table.inum_eq (.cons .head _)] at hlt
    refine .of_pre fun s h => ?_
    refine (ilock_spec .head List.not_mem_nil fun hnone => ?_).bind fun _ => ?_
    · rw [hm] at hnone
      cases hnone
    refine inode_hand (.cons .head _) fun x hx => ?_
    rw [hx]
    refine (dirlink_spec (H := [(dp, d), (e, i)]) hsb .head (List.mem_cons_self ..) hm hdir
      name (hlt s h)
      hstop.full).bind fun r => .or_pre (.assume fun hr => .assume fun _ => ?_)
        (.assume fun hr => .assume fun hnone => ?_)
    · subst hr
      exact (iunlockput_keep hsb List.not_mem_nil hkeep').bind fun _ => hbad
    · subst hr
      have hkeep'' : Abs.Keeps (Abs.set _ d (some (m.link name i))) [(e, i)] dp d :=
        hkeep'.set hm fun h0 => h0
      refine (iunlockput_keep hsb List.not_mem_nil hkeep'').bind fun _ => ?_
      exact (iput_drop hsb List.not_mem_nil rfl).bind fun _ => .pure fun s h =>
        .inr ⟨rfl, _, .intro hold hn hfile hnew hm₀ hdir hnone, h⟩

/-- `link` enters a second name of a file, or returns `-1` and changes nothing. -/
lemma sysLink_spec (hsb : sb.WellFormed) (hstop : Stops E a) (hp : (a.proc p).cwd ≠ none)
    (old new : ℕ → Option UInt8) :
    Triple E (Inv sb a [] []) (sysLink p old new) fun r s => (r = -1 ∧ Inv sb a [] [] s) ∨
      (r = 0 ∧ ∃ old' new' a', argstr old = some old' ∧ argstr new = some new' ∧
        a.Link p old' new' a' ∧ Inv sb a' [] [] s) := by
  unfold sysLink
  cases hold : argstr old with
  | none => exact .pure fun _ h => .inl ⟨rfl, h⟩
  | some old =>
    cases hnew : argstr new with
    | none => exact .pure fun _ h => .inl ⟨rfl, h⟩
    | some new =>
      refine (namei_spec hsb hstop (Nat.zero_le _) hp old).bind fun r =>
        .or_pre (.assume fun hr => .assume fun _ => ?_) (.exists_pre fun e => .exists_pre fun i =>
          .assume fun hr => .assume fun hi => .assume fun hkeep => ?_)
      · subst hr
        exact .pure fun _ h => .inl ⟨rfl, h⟩
      · subst hr
        have he : e ∈ [e] := List.mem_cons_self ..
        refine .of_pre fun s h => (ilock_spec .head List.not_mem_nil
          (hstop.of_follow h hp hi)).bind fun _ => .of_pre fun s h => ?_
        obtain ⟨n, hn⟩ := h.node_of_lock .head he
        refine inode_spec .head he hn fun x hx => .ite (fun _ => ?_) fun hfile => ?_
        · exact (iunlockput_keep hsb List.not_mem_nil hkeep).bind fun _ =>
            .pure fun _ h => .inl ⟨rfl, h⟩
        · refine (incLink_spec hsb .head he hn).bind fun _ => (iunlock_spec .head
            List.not_mem_nil).bind fun _ => ?_
          refine (linkNew_spec hsb hstop hp hn (hx.type ▸ hfile) hkeep hi).post fun r s h => ?_
          exact h.imp_right fun ⟨hr, a', hlink, h⟩ => ⟨hr, old, new, a', rfl, rfl, hlink, h⟩

/-! ## `sys_unlink` -/

/-- Entry number `k`, of an inode of type `t`, is removed from a directory. -/
def Node.unlink (n : Node) (k : ℕ) (t : BitVec 16) : Node :=
  if t = T_DIR then (n.setEntry k .zero).decLink else n.setEntry k .zero

/-- What `sys_unlink` does if it succeeds. -/
inductive Abs.Unlink (a : Abs) (p : Slot) (path : List UInt8) : Abs → Prop
  | intro {d j k : ℕ} {m n : Node} {name : Name}
    (hpath : followParent a.node (a.start p path) (elems path) = some (d, name))
    (hname : ¬(namecmp name dot = true ∨ namecmp name dotdot = true))
    (hm : a.node d = some m) (hdir : m.type = T_DIR) (hk : m.lookup name = some k)
    (hj : j = (m.entry k).inum.toNat) (hne : j ≠ d) (hn : a.node j = some n)
    (hlink : 1 ≤ n.nlink.toInt) (hempty : n.type = T_DIR → n.find (·.inum ≠ 0) 2 = none) :
    Abs.Unlink a p path
      ((((a.set d (some (m.unlink k n.type))).drop d).set j (some n.decLink)).drop j)

/-- A directory names itself as `"."` and `".."` only. -/
def NoLoop (node : ℕ → Option Node) : Prop :=
  ∀ i n name k, node i = some n → n.type = T_DIR → n.lookup name = some k →
    (n.entry k).inum.toNat = i → namecmp name dot = true ∨ namecmp name dotdot = true

/-- What a directory names has links. -/
def Linked (node : ℕ → Option Node) : Prop :=
  ∀ i n k m, node i = some n → n.type = T_DIR → k < n.slots → (n.entry k).inum ≠ 0 →
    node (n.entry k).inum.toNat = some m → 1 ≤ m.nlink.toInt

/-- The references in hand are in the other order, and the locks are, too. -/
lemma Inv.swap {x y : Ino × ℕ} {f g : Ino} (h : Inv sb a (x :: y :: H) (f :: g :: L) s) :
    Inv sb a (y :: x :: H) (g :: f :: L) s := (h.perm (.swap ..)).perm_lock (.swap ..)

/-- The end of `sys_unlink` clears the entry and counts one link less. -/
lemma unlinkEntry_spec (hsb : sb.WellFormed) {ip : Ino} (hm : a.node d = some m)
    (hdir : m.type = T_DIR) (hk : k < m.slots) (hn : a.node j = some n) (hne : j ≠ d)
    (hep : ip ≠ dp) :
    Triple E (Inv sb a [(ip, j), (dp, d)] [ip, dp]) (unlinkEntry dp ip (DIRENT * k)) fun r s =>
      r = 0 ∧ Inv sb
        ((((a.set d (some (m.unlink k n.type))).drop d).set j (some n.decLink)).drop j)
        [] [] s := by
  have hdpL : dp ∈ [ip, dp] := List.mem_cons_of_mem _ (List.mem_cons_self ..)
  have hzero : (Dirent.zero.inum).toNat < sb.ninodes := lt_of_le_of_lt (Nat.zero_le _) hsb.root_lt
  unfold unlinkEntry
  refine (writeDirent_spec hsb (.cons .head _) hdpL hm hdir hk.le (List.length_replicate ..)
    hzero).bind
    fun r => .or_pre (.assume fun hr => ?_) (.assume fun _ => .assume fun hle => absurd hk
    (by omega))
  subst hr
  rw [if_neg (by simp)]
  -- the rest, once `dp` has its new link count
  have hrest : ∀ m', Triple E (Inv sb (a.set d (some m')) [(ip, j), (dp, d)] [ip, dp]) (do
      iunlockput dp
      decLink ip
      iunlockput ip
      return (0 : ℤ)) fun r s => r = 0 ∧ Inv sb
        ((((a.set d (some m')).drop d).set j (some n.decLink)).drop j) [] [] s := by
    intro m'
    refine .pre ?_ fun _ h => h.swap
    have hnode : ((a.set d (some m')).drop d).node j = some n := by
      rw [Abs.drop_node_of_ne hne, Abs.set_node, update_of_ne hne, hn]
    refine (iunlockput_drop hsb (by simpa using hep.symm) ?_).bind fun _ => (decLink_spec hsb
      .head (List.mem_cons_self ..) hnode).bind fun _ =>
      (iunlockput_drop hsb List.not_mem_nil rfl).bind fun _ => .pure fun _ h => ⟨rfl, h⟩
    rw [inHand_cons_of_ne [] hep.symm, inHand_nil]
  have hset : ∀ m', (a.set d (some m')).node d = some m' := fun m' => update_self ..
  have hn' : ∀ m', (a.set d (some m')).node j = some n := fun m' => by
    rw [Abs.set_node, update_of_ne hne, hn]
  refine inode_spec .head (List.mem_cons_self ..) (hn' _) fun x hx => .ite (fun ht => ?_)
    fun ht => ?_
  · have htype : n.type = T_DIR := hx.type ▸ ht
    refine (decLink_spec hsb (.cons .head _) hdpL (hset _)).bind fun _ => ?_
    rw [Abs.set_set, Node.unlink, if_pos htype]
    exact hrest _
  · have htype : n.type ≠ T_DIR := hx.type ▸ ht
    rw [Node.unlink, if_neg htype]
    exact hrest _

/-- `unlink` removes a name, or returns `-1` and changes nothing. -/
lemma sysUnlink_spec (hsb : sb.WellFormed) (hstop : Stops E a)
    (hself : ¬NoLoop a.node → E .disabled)
    (hnlink : ¬Linked a.node → E (.panic "unlink: nlink < 1")) (hp : (a.proc p).cwd ≠ none)
    (path : ℕ → Option UInt8) :
    Triple E (Inv sb a [] []) (sysUnlink p path) fun r s => (r = -1 ∧ Inv sb a [] [] s) ∨
      (r = 0 ∧ ∃ path' a', argstr path = some path' ∧ a.Unlink p path' a' ∧
        Inv sb a' [] [] s) := by
  unfold sysUnlink
  cases hpath : argstr path with
  | none => exact .pure fun _ h => .inl ⟨rfl, h⟩
  | some path =>
    refine (nameiparent_spec hsb hstop (Nat.zero_le _) hp path).bind fun r =>
      .or_pre (.assume fun hr => .assume fun _ => ?_) (.exists_pre fun dp => .exists_pre fun d =>
        .exists_pre fun name => .assume fun hr => .assume fun hd => .assume fun hkeep => ?_)
    · subst hr
      exact .pure fun _ h => .inl ⟨rfl, h⟩
    subst hr
    obtain ⟨m, hm, hdir⟩ := isDir_of_followParent hd
    have hdpL : dp ∈ [dp] := List.mem_cons_self ..
    -- the label `bad`, before the inode is locked
    have hfail : Triple E (Inv sb a [(dp, d)] [dp]) (do iunlockput dp; return (-1 : ℤ)) fun r s =>
        (r = -1 ∧ Inv sb a [] [] s) ∨ (r = 0 ∧ ∃ path' a', some path = some path' ∧
          a.Unlink p path' a' ∧ Inv sb a' [] [] s) :=
      (iunlockput_keep hsb List.not_mem_nil hkeep).bind fun _ => .pure fun _ h => .inl ⟨rfl, h⟩
    refine (ilock_spec .head List.not_mem_nil fun hnone => ?_).bind fun _ =>
      .ite (fun _ => hfail) fun hname => ?_
    · rw [hm] at hnone
      cases hnone
    cases hl : m.lookup name with
    | none =>
      refine (dirlookup_none .head hdpL hm hdir hl).bind fun r => .assume fun hr => ?_
      subst hr
      exact hfail
    | some k =>
      obtain ⟨hk, h0, -⟩ := Node.lookup_some hl
      refine (dirlookup_some .head hdpL hm hdir hl fun hfull => hstop.full (by
        rw [List.length_singleton] at hfull; omega)).bind fun r => .exists_pre fun ip =>
          .assume fun hr => .assume fun hkeep' => ?_
      subst hr
      dsimp only
      generalize hj : (m.entry k).inum.toNat = j at hkeep'
      have hipL : ip ∈ [ip, dp] := List.mem_cons_self ..
      by_cases hep : ip = dp
      · -- the entry names the directory itself, which is locked
        refine .of_pre fun s h => (ilock_held (by simp [hep]) (hself fun hloop => ?_)).bind fun _ =>
          .of_pre (P := fun _ => False) fun _ h => h.elim
        subst hep
        have hjd : j = d := by
          rw [← h.table.inum_eq .head]
          exact h.table.inum_eq (.cons .head _)
        exact hname (hloop d m name k hm hdir hl (hj.trans hjd))
      refine .of_pre fun s h => ?_
      have hne : j ≠ d := by
        intro hjd
        refine hep (h.table.inj ip dp (h.table.ref_ne_zero .head)
          (h.table.ref_ne_zero (.cons .head _)) ?_)
        rw [h.table.inum_eq .head, h.table.inum_eq (.cons .head _), hjd]
      refine (ilock_spec .head (by simpa using hep) fun hnone => ?_).bind fun _ =>
        .of_pre fun s h => ?_
      · exact hstop.closed fun hc => hc d m k hm hdir hk h0 (hj ▸ hnone)
      obtain ⟨n, hn⟩ := h.node_of_lock .head hipL
      refine inode_spec .head hipL hn fun x hx => .ite (fun hlow => .throw_bind ?_) fun hlink => ?_
      · refine hnlink fun hall => ?_
        have hpos := hall d m k n hm hdir hk h0 (hj ▸ hn)
        rw [hx.nlink] at hlow
        omega
      rw [hx.nlink, not_lt] at hlink
      -- what follows when the inode is no directory or an empty one
      have hdone : (n.type = T_DIR → n.find (·.inum ≠ 0) 2 = none) →
          Triple E (Inv sb a [(ip, j), (dp, d)] [ip, dp]) (unlinkEntry dp ip (DIRENT * k))
            fun r s => (r = -1 ∧ Inv sb a [] [] s) ∨ (r = 0 ∧ ∃ path' a', some path = some path' ∧
              a.Unlink p path' a' ∧ Inv sb a' [] [] s) := fun hempty =>
        (unlinkEntry_spec hsb hm hdir hk hn hne hep).post fun r s h => .inr ⟨h.1, path, _, rfl,
          .intro hd hname hm hdir hl hj.symm hne hn hlink hempty, h.2⟩
      refine inode_spec .head hipL hn fun y hy => .ite (fun ht => ?_) fun ht => ?_
      · refine .bind (Q := fun full s => (full = false → n.find (·.inum ≠ 0) 2 = none) ∧
          Inv sb a [(ip, j), (dp, d)] [ip, dp] s) (.map ?_) fun full => .assume fun hfull =>
            .ite (fun _ => ?_) fun hf => hdone fun _ => hfull (by simpa using hf)
        · exact (isdirempty_spec .head hipL hn (hy.type ▸ ht)).post fun r s h =>
            ⟨fun hr => h.1.1 (by simpa using hr), h.2⟩
        · exact (iunlockput_keep hsb (by simpa using hep) hkeep').bind fun _ => hfail
      · refine .bind (Q := fun full s => full = false ∧ Inv sb a [(ip, j), (dp, d)] [ip, dp] s)
          (.pure fun _ h => ⟨rfl, h⟩) fun full => .assume fun hf =>
            .ite (fun hc => absurd (hf ▸ hc) Bool.false_ne_true) fun _ => ?_
        exact hdone fun hd => absurd (hy.type.trans hd) ht

/-! ## `create` -/

/-- The new file `j` in directory `d`. -/
def newFile (type major minor : BitVec 16) (j d : ℕ) : Node :=
  if type = T_DIR then ((newNode type major minor 1).link dot j).link dotdot d
  else newNode type major minor 1

/-- A directory with the new file `j` of type `t`. -/
def Node.enter (n : Node) (name : Name) (j : ℕ) (t : BitVec 16) : Node :=
  if t = T_DIR then (n.link name j).incLink else n.link name j

/-- What `create` does if it succeeds, and the inode it returns. -/
inductive Abs.Create (a : Abs) (p : Slot) (path : List UInt8) (type major minor : BitVec 16)
    (j : ℕ) : Abs → Prop
  /-- The path names a file already. -/
  | found {d k : ℕ} {m n : Node} {name : Name}
    (hpath : followParent a.node (a.start p path) (elems path) = some (d, name))
    (hm : a.node d = some m) (hdir : m.type = T_DIR) (hk : m.lookup name = some k)
    (hj : j = (m.entry k).inum.toNat) (hn : a.node j = some n) (htype : type = T_FILE)
    (hfile : n.type = T_FILE ∨ n.type = T_DEVICE) : Abs.Create a p path type major minor j a
  | new {d : ℕ} {m : Node} {name : Name}
    (hpath : followParent a.node (a.start p path) (elems path) = some (d, name))
    (hm : a.node d = some m) (hdir : m.type = T_DIR) (hnone : m.lookup name = none)
    (hj : j ≠ 0) (hfree : a.node j = none) : Abs.Create a p path type major minor j
      (((a.set j (some (newFile type major minor j d))).set d (some (m.enter name j type))).drop d)

/-- Why `create` fails: the path has no parent, it names something, no inode is free, or the
directory has to grow. -/
def Abs.Uncreated (sb : Superblock) (a : Abs) (p : Slot) (path : List UInt8) (type : BitVec 16) :
    Prop :=
  ∀ d m name, followParent a.node (a.start p path) (elems path) = some (d, name) →
    a.node d = some m → m.Full name ∨ type = T_DIR ∨ ∀ j, 0 < j → j < sb.ninodes → a.node j ≠ none

lemma Abs.Uncreated.intro
    (hpath : followParent a.node (a.start p path) (elems path) = some (d, name))
    (hm : a.node d = some m)
    (hwhy : m.Full name ∨ type = T_DIR ∨ ∀ j, 0 < j → j < sb.ninodes → a.node j ≠ none) :
    Abs.Uncreated sb a p path type := by
  intro d' m' name' hpath' hm'
  rw [hpath] at hpath'
  obtain ⟨rfl, rfl⟩ := Prod.mk.inj (Option.some.inj hpath')
  rw [hm] at hm'
  obtain rfl := Option.some.inj hm'
  exact hwhy

/-- The inode that `create` returns is allocated. -/
lemma Abs.Create.exists_node {a' : Abs} (h : a.Create p path type major minor j a') :
    ∃ n, a'.node j = some n := by
  cases h with
  | found _ _ _ _ _ hn => exact ⟨_, hn⟩
  | @new d m name _ hm _ _ _ hfree =>
    have hne : j ≠ d := by
      rintro rfl
      rw [hfree] at hm
      cases hm
    refine ⟨newFile type major minor j d, ?_⟩
    rw [Abs.drop_node_of_ne hne, Abs.set_node, update_of_ne hne, Abs.set_node,
      update_self]

/-- The label `fail` of `create` frees the new inode again. -/
lemma createFail_spec (hsb : sb.WellFormed) {ip : Ino} (hfree : a.node j = none)
    (hpin : a.pinned ip = 0) (hep : ip ≠ dp) (hkeep : a.Keeps [] dp d) :
    Triple E (Inv sb (a.set j (some n)) [(ip, j), (dp, d)] [ip, dp]) (createFail dp ip)
      fun r s => r = none ∧ Inv sb a [] [] s := by
  have hset : (a.set j (some n)).node j = some n := update_self ..
  have hput : (a.set j (some { n with nlink := 0 })).put [(dp, d)] ip j = a := by
    rw [Abs.put, if_pos, Abs.set_set, Abs.set_eq_self hfree]
    refine ⟨hpin, ?_, ?_⟩
    · rw [inHand_cons_of_ne [] hep, inHand_nil]
    · rw [Abs.set_node, update_self, Option.map_some]
  unfold createFail
  refine update_bind hsb .head (List.mem_cons_self ..) hset
    { n with nlink := 0 } (fun _ => ⟨rfl, rfl, rfl⟩) (fun ip d h => ?_) rfl rfl ?_
  · obtain ⟨hmajor, hminor, -⟩ := Node.nlink_of_node h
    exact ⟨hmajor, hminor, rfl⟩
  · rw [Abs.set_set]
    refine (iunlockput_spec hsb (by simpa using hep)).bind fun _ => ?_
    rw [hput]
    exact (iunlockput_keep hsb List.not_mem_nil hkeep).bind fun _ => .pure fun _ h => ⟨rfl, h⟩

/-- The end of `create`: the new inode gets its name, or is freed. -/
lemma createLink_spec (hsb : sb.WellFormed) {ip : Ino} (hfree : a.node j = none)
    (hpin : a.pinned ip = 0) (hep : ip ≠ dp) (hkeep : a.Keeps [] dp d) (hm : a.node d = some m)
    (hdir : m.type = T_DIR) (hfull : NINODE ≤ a.used + 2 → E (.panic "iget: no inodes")) :
    Triple E (Inv sb (a.set j (some (newNode type major minor 1))) [(ip, j), (dp, d)] [ip, dp])
      (createLink dp ip name type) fun r s =>
        (r = none ∧ (m.Full name ∨ type = T_DIR) ∧ Inv sb a [] [] s) ∨
          (r = some ip ∧ m.lookup name = none ∧ Inv sb (((a.set j (some
          (newFile type major minor j d))).set d (some (m.enter name j type))).drop d) [(ip, j)]
            [ip] s) := by
  have hipL : ip ∈ [ip, dp] := List.mem_cons_self ..
  have hdpL : dp ∈ [ip, dp] := List.mem_cons_of_mem _ (List.mem_cons_self ..)
  have hne : d ≠ j := by
    rintro rfl
    rw [hfree] at hm
    cases hm
  have hset : ∀ n, (a.set j (some n)).node j = some n := fun n => update_self ..
  have hm' : ∀ n, (a.set j (some n)).node d = some m := fun n => by
    rw [Abs.set_node, update_of_ne hne, hm]
  refine .of_pre fun s h => ?_
  have hlt : ∀ e i, Abs.Holds _ [(ip, j), (dp, d)] e i → i < sb.ninodes := fun e i hei => by
    have hlt := h.table.lt e (h.table.ref_ne_zero hei)
    rwa [h.table.inum_eq hei] at hlt
  have hfail : ∀ n (R P : Prop) (Q : State → Prop), R →
      Triple E (Inv sb (a.set j (some n)) [(ip, j), (dp, d)] [ip, dp]) (createFail dp ip)
        fun r s => (r = none ∧ R ∧ Inv sb a [] [] s) ∨ (r = some ip ∧ P ∧ Q s) := fun n R P Q hR =>
    (createFail_spec hsb hfree hpin hep hkeep).post fun _ _ h => .inl ⟨h.1, hR, h.2⟩
  -- the entry in `dp`, when the new file is `n`
  have hfinish : ∀ n, Triple E (Inv sb (a.set j (some n)) [(ip, j), (dp, d)] [ip, dp]) (do
      if (← dirlink dp name (← inode ip).inum) < 0 then return ← createFail dp ip
      if type = T_DIR then incLink dp
      iunlockput dp
      return some ip) fun r s =>
        (r = none ∧ (m.Full name ∨ type = T_DIR) ∧ Inv sb a [] [] s) ∨
          (r = some ip ∧ m.lookup name = none ∧ Inv sb (((a.set j (some n)).set d
          (some (m.enter name j type))).drop d) [(ip, j)] [ip] s) := by
    intro n
    refine inode_hand .head fun x hx => ?_
    rw [hx]
    refine (dirlink_spec (H := [(ip, j), (dp, d)]) hsb (.cons .head _) hdpL (hm' n) hdir name
      (hlt ip j .head) hfull).bind fun r =>
      .or_pre (.assume fun hr => .assume fun hwhy => ?_) (.assume fun hr => .assume fun hnone => ?_)
    · subst hr
      exact hfail n _ _ _ (.inl hwhy)
    subst hr
    have hput : ∀ b, Triple E (Inv sb b [(ip, j), (dp, d)] [ip, dp])
        (do iunlockput dp; return some ip) fun r s => r = some ip ∧
          Inv sb (b.drop d) [(ip, j)] [ip] s := fun b => by
      refine .pre ?_ fun _ h => h.swap
      refine (iunlockput_drop hsb (by simpa using hep.symm) ?_).bind fun _ =>
        .pure fun _ h => ⟨rfl, h⟩
      rw [inHand_cons_of_ne [] hep.symm, inHand_nil]
    rw [if_neg (lt_irrefl _)]
    refine .ite (fun ht => ?_) fun ht => ?_
    · refine (incLink_spec hsb (.cons .head _) hdpL (update_self ..)).bind fun _ => ?_
      rw [Abs.set_set, Node.enter, if_pos ht]
      exact (hput _).post fun _ _ h => .inr ⟨h.1, hnone, h.2⟩
    · rw [Node.enter, if_neg ht]
      exact (hput _).post fun _ _ h => .inr ⟨h.1, hnone, h.2⟩
  unfold createLink
  refine .ite (fun ht => ?_) fun ht => ?_
  · rw [show newFile type major minor j d = _ from if_pos ht]
    refine inode_hand .head fun x hx => ?_
    rw [hx]
    refine (dirlink_spec (H := [(ip, j), (dp, d)]) hsb .head hipL (hset _) ht dot (hlt ip j .head)
      hfull).bind fun r =>
      .or_pre (.assume fun hr => .assume fun _ => ?_) (.assume fun hr => .assume fun _ => ?_)
    · subst hr
      exact hfail _ _ _ _ (.inr ht)
    subst hr
    rw [Abs.set_set, if_neg (lt_irrefl _)]
    refine inode_hand (.cons .head _) fun x hx => ?_
    rw [hx]
    refine (dirlink_spec (H := [(ip, j), (dp, d)]) hsb .head hipL (hset _) ht dotdot
      (hlt dp d (.cons .head _)) hfull).bind fun r =>
      .or_pre (.assume fun hr => .assume fun _ => ?_) (.assume fun hr => .assume fun _ => ?_)
    · subst hr
      exact hfail _ _ _ _ (.inr ht)
    subst hr
    rw [Abs.set_set, if_neg (lt_irrefl _)]
    exact hfinish _
  · rw [show newFile type major minor j d = _ from if_neg ht]
    exact hfinish _

/-- `create` finds the name: it returns a file or a device if it is to make a file. -/
lemma createExists_spec (hsb : sb.WellFormed) (hstop : Stops E a) {ip : Ino}
    (hpath : followParent a.node (a.start p path) (elems path) = some (d, name))
    (hm : a.node d = some m) (hdir : m.type = T_DIR) (hk : m.lookup name = some k)
    (hj : j = (m.entry k).inum.toNat) (hkeep : a.Keeps [] dp d) (hkeep' : a.Keeps [(dp, d)] ip j) :
    Triple E (Inv sb a [(ip, j), (dp, d)] [dp]) (createExists dp ip type) fun r s =>
      (r = none ∧ Abs.Uncreated sb a p path type ∧ Inv sb a [] [] s) ∨ ∃ e j a', r = some e ∧
        a.Create p path type major minor j a' ∧ a'.Keeps [] e j ∧ Inv sb a' [(e, j)] [e] s := by
  obtain ⟨hlt, h0, -⟩ := Node.lookup_some hk
  refine .of_pre fun s h => ?_
  have hkeep₁ := h.keeps_tail hkeep' hkeep
  unfold createExists
  refine .pre ?_ fun _ h => h.perm (.swap ..)
  refine (iunlockput_keep hsb List.not_mem_nil (hkeep.cons _)).bind fun _ =>
    (ilock_spec .head List.not_mem_nil fun hnone => hstop.closed fun hc =>
      hc d m k hm hdir hlt h0 (hj ▸ hnone)).bind fun _ => .of_pre fun s h => ?_
  have hipL : ip ∈ [ip] := List.mem_cons_self ..
  obtain ⟨n, hn⟩ := h.node_of_lock .head hipL
  refine inode_spec .head hipL hn fun x hx => .ite (fun hc => ?_) fun _ => ?_
  · rw [hx.type] at hc
    exact .pure fun _ h => .inr ⟨ip, j, a, rfl, .found hpath hm hdir hk hj hn hc.1 hc.2, hkeep₁, h⟩
  · exact (iunlockput_keep hsb List.not_mem_nil hkeep₁).bind fun _ =>
      .pure fun _ h => .inl ⟨rfl, .intro hpath hm (.inl (.inl
        (by rw [hk]; exact Option.some_ne_none k))), h⟩

lemma newFile_type (type major minor : BitVec 16) (j d : ℕ) :
    (newFile type major minor j d).type = type := by
  unfold newFile
  split <;> rfl

lemma newFile_nlink (type major minor : BitVec 16) (j d : ℕ) :
    (newFile type major minor j d).nlink = 1 := by
  unfold newFile
  split <;> rfl

/-- `create` returns a file that is there or a new one, locked, or it changes nothing. -/
lemma create_spec (hsb : sb.WellFormed) (hstop : Stops E a) (hp : (a.proc p).cwd ≠ none)
    (path : List UInt8) (htype : type ≠ 0) (major minor : BitVec 16) :
    Triple E (Inv sb a [] []) (create p path type major minor) fun r s =>
      (r = none ∧ Abs.Uncreated sb a p path type ∧ Inv sb a [] [] s) ∨ ∃ e j a', r = some e ∧
        a.Create p path type major minor j a' ∧ a'.Keeps [] e j ∧ Inv sb a' [(e, j)] [e] s := by
  unfold create
  refine (nameiparent_spec hsb hstop (Nat.zero_le _) hp path).bind fun r =>
    .or_pre (.assume fun hr => .assume fun hnone => ?_) (.exists_pre fun dp => .exists_pre fun d =>
      .exists_pre fun name => .assume fun hr => .assume fun hd => .assume fun hkeep => ?_)
  · subst hr
    refine .pure fun _ h => .inl ⟨rfl, fun d m name hd => ?_, h⟩
    rw [hnone] at hd
    cases hd
  subst hr
  obtain ⟨m, hm, hdir⟩ := isDir_of_followParent hd
  have hdpL : dp ∈ [dp] := List.mem_cons_self ..
  have hfull : NINODE ≤ a.used + [(dp, d)].length → E (.panic "iget: no inodes") := fun h =>
    hstop.full (by rw [List.length_singleton] at h; omega)
  refine (ilock_spec .head List.not_mem_nil fun hnone => ?_).bind fun _ => ?_
  · rw [hm] at hnone
    cases hnone
  cases hl : m.lookup name with
  | some k =>
    refine (dirlookup_some .head hdpL hm hdir hl hfull).bind fun r => .exists_pre fun ip =>
      .assume fun hr => .assume fun hkeep' => ?_
    subst hr
    exact createExists_spec hsb hstop hd hm hdir hl rfl hkeep hkeep'
  | none =>
    refine (dirlookup_none .head hdpL hm hdir hl).bind fun r => .assume fun hr => ?_
    subst hr
    have hH : ∀ e i, (e, i) ∈ [(dp, d)] → a.node i ≠ none := by
      intro e i hmem
      obtain ⟨rfl, rfl⟩ := Prod.mk.inj (List.mem_singleton.1 hmem)
      rw [hm]
      exact Option.some_ne_none m
    -- the name is new: an inode is allocated before the name is entered
    refine (ialloc_spec hsb htype hH hfull).bind fun r => .or_pre
      (.assume fun hr => .assume fun hall => ?_)
      (.exists_pre fun ip => .exists_pre fun j => .assume fun hr => .assume fun hj =>
        .assume fun hfree => .assume fun hpin => .assume fun hhand => ?_)
    · subst hr
      exact (iunlockput_keep hsb List.not_mem_nil hkeep).bind fun _ =>
        .pure fun _ h => .inl ⟨rfl, .intro hd hm (.inr (.inr hall)), h⟩
    subst hr
    have hep : ip ≠ dp := by
      rintro rfl
      exact inHand_ne_zero (List.mem_singleton_self (ip, d)) hhand
    have hne : j ≠ d := by
      rintro rfl
      rw [hfree] at hm
      cases hm
    refine (ilock_loading .head (by simpa using hep)).bind fun _ => ?_
    have hset : (a.set j (some (newNode type 0 0 0))).node j = some (newNode type 0 0 0) :=
      update_self ..
    refine update_bind hsb .head (List.mem_cons_self ..) hset
      (newNode type major minor 1) (fun _ => ⟨rfl, rfl, rfl⟩)
      (fun _ _ _ => ⟨rfl, rfl, rfl⟩) rfl rfl ?_
    rw [Abs.set_set]
    refine (createLink_spec hsb hfree hpin hep hkeep hm hdir hstop.full).post fun r s h => ?_
    refine h.imp (fun ⟨hr, hwhy, h⟩ => ⟨hr, .intro hd hm (hwhy.imp_right .inl), h⟩)
      fun ⟨hr, hnone, h⟩ => ⟨ip, j, _, hr, .new hd hm hdir hnone hj hfree, ?_, h⟩
    intro n hn h0
    rw [Abs.drop_node_of_ne hne, Abs.set_node, update_of_ne hne, Abs.set_node,
      update_self] at hn
    obtain rfl := Option.some.inj hn
    rw [newFile_nlink] at h0
    exact absurd h0 (by decide)

/-! ## `sys_mkdir` and `sys_mknod` -/

/-- The two calls: `create`, and then the reference to the new inode is given up. -/
lemma createPut_spec (hsb : sb.WellFormed) (hstop : Stops E a) (hp : (a.proc p).cwd ≠ none)
    (path : List UInt8) (htype : type ≠ 0) (major minor : BitVec 16) :
    Triple E (Inv sb a [] []) (do
      match ← create p path type major minor with
      | none => return -1
      | some ip =>
        iunlockput ip
        return 0) fun r s => (r = -1 ∧ Inv sb a [] [] s) ∨ (r = 0 ∧ ∃ j a',
          a.Create p path type major minor j a' ∧ Inv sb a' [] [] s) := by
  refine (create_spec hsb hstop hp path htype major minor).bind fun r =>
    .or_pre (.assume fun hr => .assume fun _ => ?_) (.exists_pre fun e => .exists_pre fun j =>
      .exists_pre fun a' =>
      .assume fun hr => .assume fun hmade => .assume fun hkeep => ?_)
  · subst hr
    exact .pure fun _ h => .inl ⟨rfl, h⟩
  · subst hr
    exact (iunlockput_keep hsb List.not_mem_nil hkeep).bind fun _ =>
      .pure fun _ h => .inr ⟨rfl, j, a', hmade, h⟩

lemma sysMkdir_spec (hsb : sb.WellFormed) (hstop : Stops E a) (hp : (a.proc p).cwd ≠ none)
    (path : ℕ → Option UInt8) :
    Triple E (Inv sb a [] []) (sysMkdir p path) fun r s => (r = -1 ∧ Inv sb a [] [] s) ∨
      (r = 0 ∧ ∃ path' j a', argstr path = some path' ∧ a.Create p path' T_DIR 0 0 j a' ∧
        Inv sb a' [] [] s) := by
  unfold sysMkdir
  cases hpath : argstr path with
  | none => exact .pure fun _ h => .inl ⟨rfl, h⟩
  | some path =>
    refine (createPut_spec hsb hstop hp path (by decide) 0 0).post fun r s h => ?_
    exact h.imp_right fun ⟨hr, j, a', hmade, h⟩ => ⟨hr, path, j, a', rfl, hmade, h⟩

lemma sysMknod_spec (hsb : sb.WellFormed) (hstop : Stops E a) (hp : (a.proc p).cwd ≠ none)
    (path : ℕ → Option UInt8) (major minor : BitVec 32) :
    Triple E (Inv sb a [] []) (sysMknod p path major minor) fun r s =>
      (r = -1 ∧ Inv sb a [] [] s) ∨ (r = 0 ∧ ∃ path' j a', argstr path = some path' ∧
        a.Create p path' T_DEVICE (major.setWidth 16) (minor.setWidth 16) j a' ∧
        Inv sb a' [] [] s) := by
  unfold sysMknod
  cases hpath : argstr path with
  | none => exact .pure fun _ h => .inl ⟨rfl, h⟩
  | some path =>
    refine (createPut_spec hsb hstop hp path (by decide) _ _).post fun r s h => ?_
    exact h.imp_right fun ⟨hr, j, a', hmade, h⟩ => ⟨hr, path, j, a', rfl, hmade, h⟩

/-! ## Calls that fail -/

/-- The calls that add or remove a name. -/
def Call.names : Call → Bool
  | .link .. | .unlink .. | .mkdir .. | .mknod .. => true
  | _ => false

/-- Such a call returns `-1` and has no effect, or it returns `0`. -/
lemma names_spec (hsb : sb.WellFormed) (hstop : Stops E a) (hself : ¬NoLoop a.node → E .disabled)
    (hnlink : ¬Linked a.node → E (.panic "unlink: nlink < 1")) (hp : (a.proc p).cwd ≠ none)
    {c : Call} (hc : c.names = true) :
    Triple E (Inv sb a [] []) (c.code p) fun r s => (r = -1 ∧ Inv sb a [] [] s) ∨
      (r = 0 ∧ ∃ a', Inv sb a' [] [] s) := by
  cases c with
  | link old new =>
    refine (sysLink_spec hsb hstop hp old new).post fun r s h => ?_
    exact h.imp_right fun ⟨hr, _, _, a', _, _, _, h⟩ => ⟨hr, a', h⟩
  | unlink path =>
    refine (sysUnlink_spec hsb hstop hself hnlink hp path).post fun r s h => ?_
    exact h.imp_right fun ⟨hr, _, a', _, _, h⟩ => ⟨hr, a', h⟩
  | mkdir path =>
    refine (sysMkdir_spec hsb hstop hp path).post fun r s h => ?_
    exact h.imp_right fun ⟨hr, _, _, a', _, _, h⟩ => ⟨hr, a', h⟩
  | mknod path major minor =>
    refine (sysMknod_spec hsb hstop hp path major minor).post fun r s h => ?_
    exact h.imp_right fun ⟨hr, _, _, a', _, _, h⟩ => ⟨hr, a', h⟩
  | _ => cases hc

/-- A call that adds or removes a name and fails changes no file: neither which inodes are
allocated, nor their types, link counts, sizes and contents, and so no directory entry. -/
theorem failed_names_unchanged (hs : Settled s) {p : Slot} {c : Call} (hc : c.names = true)
    {s' : State} (hrun : call p c s = .ok (-1, s')) :
    s'.sb = s.sb ∧ view s.sb s'.disk = view s.sb s.disk := by
  unfold call at hrun
  split at hrun
  case isFalse => cases hrun
  case isTrue hp =>
    have hspec := (names_spec (E := fun _ => True) hs.wf ⟨fun _ => trivial, fun _ => trivial,
      fun _ => trivial⟩ (fun _ => trivial) (fun _ => trivial)
      (Option.isSome_iff_ne_none.1 hp) hc).run hs.inv
    rw [hrun, Post.ok_iff] at hspec
    obtain ⟨-, h⟩ | ⟨hr, -⟩ := hspec
    · exact ⟨h.sb_eq, h.view_eq⟩
    · exact absurd hr (show (-1 : ℤ) ≠ 0 by decide)

/-- `link("/a", "/a")`: the link count of the file is increased before the name is found to be
in use. -/
theorem failed_names_unchanged_sample : Settled sampleBoot ∧ ∃ s',
    call 0 (.link (userPath samplePath) (userPath samplePath)) sampleBoot = .ok (-1, s') ∧
      s'.sb = sampleBoot.sb ∧ view sampleBoot.sb s'.disk = view sampleBoot.sb sampleBoot.disk := by
  obtain ⟨⟨r, s'⟩, hcall, rfl⟩ := Post.exists_ok (Q := (·.1 = -1))
    (x := call 0 (.link (userPath samplePath) (userPath samplePath)) sampleBoot)
    (by decide +kernel)
  exact ⟨sampleBoot_settled, s', hcall, failed_names_unchanged sampleBoot_settled rfl hcall⟩

end Xv6.Fs
