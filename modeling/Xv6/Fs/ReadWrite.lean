import Xv6.Fs.Abstract
import Xv6.Fs.Logged

/-!
# Reading and writing files

`readi` and `writei` on a locked inode, and `fileread` and `filewrite` on an open file. On the
abstract state a file is an array of bytes: reading returns a part of it, and writing replaces
one, however the bytes are spread over blocks and over the transactions of `filewrite`.
-/

namespace Xv6.Fs

open Xv6.Lib
open Xv6.Process (Slot Stop)
open Function (update update_of_ne update_self update_eq_self update_idem comp_def)

variable {sb : Superblock} {a : Abs} {H : Hands} {L : List Ino} {s : State} {e : Ino} {i len : ℕ}
  {n : Node} {E : Stop → Prop} {α β : Type} {Q : β → State → Prop} {k : File → FsM β}

/-! ## Arrays -/

/-- Two adjacent parts are replaced one after the other. -/
lemma splice_splice {data : List UInt8} (bs bs' : List UInt8) {off : ℕ} (h : off ≤ data.length) :
    splice (splice data off bs) (off + bs.length) bs' = splice data off (bs ++ bs') := by
  have hlen : (splice data off bs).length = _ := length_splice h
  have hlen' : off + bs.length ≤ (splice data off bs).length := by omega
  refine ext_getD ?_ fun o _ => ?_
  · rw [length_splice hlen', hlen, length_splice h, List.length_append]
    omega
  · rw [getD_splice hlen', getD_splice h, getD_splice h, List.length_append]
    by_cases h₁ : off ≤ o ∧ o < off + bs.length
    · rw [if_neg (by omega), if_pos h₁, if_pos (by omega),
        List.getD_append _ _ _ _ (by omega)]
    · by_cases h₂ : off + bs.length ≤ o ∧ o < off + bs.length + bs'.length
      · rw [if_pos h₂, if_pos (by omega), List.getD_append_right _ _ _ _ (by omega), Nat.sub_add_eq]
      · rw [if_neg h₂, if_neg h₁, if_neg (by omega)]

lemma sourceBytes_add (src : ℕ → Option UInt8) (m m' : ℕ) :
    sourceBytes src m ++ sourceBytes (fun k => src (m + k)) m' = sourceBytes src (m + m') := by
  simp [sourceBytes, List.range_add, comp_def]

/-! ## `readi` and `writei` -/

/-- File `n'` is `n` after `m` of `len` bytes were written at `off`. -/
structure Node.Writes (n : Node) (src : ℕ → Option UInt8) (len off m : ℕ) (n' : Node) : Prop where
  le : m ≤ len
  off_le : off ≤ n.data.length
  type : n'.type = n.type
  nlink : n'.nlink = n.nlink
  data : (∀ k < len, (src k).isSome) →
    n' = { n with data := splice n.data off (sourceBytes src m) }

/-- `writei` fails, or writes the bytes it counts and nothing else. -/
lemma write_spec (hsb : sb.WellFormed) (hei : a.Holds H e i) (he : e ∈ L) (hn : a.node i = some n)
    (htype : n.type ≠ T_DIR) (src : ℕ → Option UInt8) {off : ℕ} (hlen : len < 2 ^ 32) :
    Triple E (Inv sb a H L) (onInode e fun sb inum ip d => writei sb inum ip src off len d)
      fun r s => (r = -1 ∧ Inv sb a H L s) ∨ ∃ (m : ℕ) (n' : Node), r = m ∧
        n.Writes src len off m n' ∧ Inv sb (a.set i (some n')) H L s := by
  refine .of_run fun s h => ?_
  obtain ⟨hlt, -, hdin, hne, hnode⟩ := h.entry hei he
  rw [hn] at hnode
  have hnode := Option.some.inj hnode
  have hwrite : Post (fun _ => False) _ (writei sb i (dinode sb s.disk i) src off len s.disk) :=
    h.sound.writei_post hsb hlt hne src hlen
  obtain ⟨⟨r, ip', d'⟩, hrun, hup, hrew⟩ := hwrite.exists_ok
  dsimp only at hup hrew
  have htype' : ip'.type = n.type := by
    rw [hrew.type, hnode]
    rfl
  rw [h.onInode_run hei he hrun, Post.ok_iff]
  have hnew := h.write hei he hn hup rfl htype' fun hd => absurd hd htype
  obtain ⟨rfl, rfl, rfl⟩ | ⟨m, hm, rfl, hoff, -⟩ := hrew.cases
  · refine .inl ⟨rfl, ?_⟩
    rwa [← hnode, Abs.set_eq_self hn] at hnew
  · refine .inr ⟨m, ip'.node d', rfl, ⟨hm, ?_, htype', ?_, fun hsrc => ?_⟩, hnew⟩
    · rw [hnode, Dinode.length_node_data]
      exact hoff
    · rw [hnode]
      exact hrew.nlink
    · obtain ⟨hr, -⟩ | ⟨m', -, hr, -, -, hdata⟩ := hrew.node_eq hsrc
      · exact absurd hr (by omega)
      · obtain rfl : m = m' := by exact_mod_cast hr
        rw [hdata, hnode]

/-- The bytes of a file from `off` on, at most `len` of them. -/
def Node.bytes (n : Node) (off len : ℕ) : List UInt8 := (n.data.drop off).take len

lemma Node.length_bytes (n : Node) (off len : ℕ) :
    (n.bytes off len).length = min len (n.data.length - off) := by
  rw [Node.bytes, List.length_take, List.length_drop]

/-- How many bytes `readi` reads when the sum does not overflow. -/
lemma readCount_eq {size off : ℕ} (h : off + len < 2 ^ 32) :
    readCount size off len = min len (size - off) := by
  unfold readCount
  rw [Nat.mod_eq_of_lt h]
  split
  · omega
  · split <;> omega

lemma Dinode.fileBytes_node (ip : Dinode) (d : Disk) (off len : ℕ) :
    fileBytes ip d off ((ip.node d).bytes off len).length = (ip.node d).bytes off len := by
  have hlen := (ip.node d).length_bytes off len
  rw [length_node_data] at hlen
  refine ext_getD (length_fileBytes ..) fun o ho => ?_
  rw [length_fileBytes] at ho
  have hleft : (fileBytes ip d off ((ip.node d).bytes off len).length).getD o 0 =
      fileByte ip d (off + o) := by
    simp [fileBytes, List.getD_eq_getElem?_getD, ho]
  rw [hleft, ← ip.getD_node_data d (by omega)]
  have hlt : o < len := by omega
  simp [Node.bytes, List.getD_eq_getElem?_getD, List.getElem?_take_of_lt hlt]

/-- `readi` reads the bytes of the file, and changes nothing. -/
lemma read_spec (hei : a.Holds H e i) (he : e ∈ L) (hn : a.node i = some n) (dst : ℕ → Bool)
    {off : ℕ} (hlen : len < 2 ^ 32) :
    Triple E (Inv sb a H L) (onInode e fun sb _ ip d => readi sb ip dst off len d) fun r s =>
      (off + len < 2 ^ 32 → (∀ k < (n.bytes off len).length, dst k = true) →
        r = (((n.bytes off len).length : ℤ), n.bytes off len)) ∧ Inv sb a H L s := by
  refine .of_run fun s h => ?_
  obtain ⟨hlt, -, hdin, hne, hnode⟩ := h.entry hei he
  rw [hn] at hnode
  have hnode := Option.some.inj hnode
  have hread : Post (fun _ => False) _ (readi sb (dinode sb s.disk i) dst off len s.disk) :=
    h.sound.readi_post hlt hne dst hlen
  obtain ⟨⟨r, ip', d'⟩, hrun, hsame, hbytes⟩ := hread.exists_ok
  dsimp only at hsame hbytes
  obtain ⟨rfl, rfl⟩ := Prod.mk.inj hsame
  rw [h.onInode_run hei he hrun, Post.ok_iff]
  refine ⟨fun hsum hdst => ?_, ?_⟩
  · have hsize : (dinode sb s.disk i).size.toNat = n.data.length := by
      rw [hnode, Dinode.length_node_data]
    have hcount : readCount (dinode sb s.disk i).size.toNat off len = (n.bytes off len).length := by
      rw [readCount_eq hsum, hsize, Node.length_bytes]
    rw [hcount] at hbytes
    rw [hbytes hdst, hnode, Dinode.fileBytes_node]
  · have hupdate : update s.itable e { s.itable e with din := dinode sb s.disk i } =
        s.itable := by
      rw [← hdin]
      exact update_eq_self ..
    dsimp only
    rw [hupdate]
    exact h

/-! ## The offset of a file -/

/-- File `f` has another offset. -/
def Abs.setOff (a : Abs) (f : FileNo) (off : BitVec 32) : Abs :=
  { a with ftable := update a.ftable f { a.ftable f with off := off } }

section SetOff

variable {f : FileNo} {off : BitVec 32}

lemma Abs.setOff_ftable : (a.setOff f off).ftable f = { a.ftable f with off := off } :=
  update_self ..

lemma Abs.setOff_file (a : Abs) (f : FileNo) (off : BitVec 32) (f' : FileNo) :
    ((a.setOff f off).ftable f').target = (a.ftable f').target ∧
    ((a.setOff f off).ftable f').type = (a.ftable f').type ∧
    ((a.setOff f off).ftable f').writable = (a.ftable f').writable := by
  by_cases hf : f' = f
  · subst hf
    rw [Abs.setOff_ftable]
    exact ⟨rfl, rfl, rfl⟩
  · rw [show (a.setOff f off).ftable f' = a.ftable f' from update_of_ne hf ..]
    exact ⟨rfl, rfl, rfl⟩

lemma Abs.setOff_pinned : (a.setOff f off).pinned = a.pinned := by
  funext e
  have htargets : targets (a.setOff f off).ftable = targets a.ftable :=
    funext fun f' => (Abs.setOff_file _ _ _ f').1
  unfold Abs.pinned
  rw [htargets]
  rfl

lemma Abs.setOff_self : a.setOff f (a.ftable f).off = a := by
  unfold Abs.setOff
  rw [show ({ a.ftable f with off := (a.ftable f).off } : File) = a.ftable f from rfl,
    update_eq_self]

/-- The offset of an open file is no reference. -/
lemma Inv.setOff (h : Inv sb a H L s) (f : FileNo) (off : BitVec 32) :
    Inv sb (a.setOff f off) H L (s.setFile f fun x => { x with off := off }) := by
  have ht := h.table
  refine ⟨h.sb_eq, h.proc, ?_, h.view_eq, h.sound, h.dirs, ?_, ?_, fun f' e' htarget htype hw => ?_⟩
  · show update s.ftable f _ = _
    rw [h.ftable]
    rfl
  · exact ⟨by rw [Abs.setOff_pinned]; exact ht.ref, ht.hand,
      by rw [Abs.setOff_pinned]; exact ht.pin,
      ht.inj, ht.lt, ht.cached, ht.locked, ht.lock, ht.held⟩
  · rw [Abs.setOff_pinned]
    exact h.alive
  · obtain ⟨h₁, h₂, h₃⟩ := Abs.setOff_file a f off f'
    exact h.files f' e' (h₁ ▸ htarget) (h₂ ▸ htype) (h₃ ▸ hw)

end SetOff

lemma advance_spec (f : FileNo) (r : ℤ) :
    Triple E (Inv sb a H L) (modifyFile f fun x => { x with off := x.off + .ofInt 32 r })
      fun _ => Inv sb (a.setOff f ((a.ftable f).off + .ofInt 32 r)) H L := by
  refine .modify fun s h => ?_
  have hoff := h.setOff f ((a.ftable f).off + .ofInt 32 r)
  rw [← h.ftable] at hoff
  rw [← h.ftable]
  exact hoff

lemma file_bind_of {R : State → Prop} {f : FileNo} (hR : ∀ s, R s → s.ftable = a.ftable)
    (h : Triple E R (k (a.ftable f)) Q) : Triple E R (file f >>= k) Q := by
  refine .of_run fun s hs => ?_
  rw [run_bind_of_ok (show (file f).run s = .ok (s.ftable f, s) from rfl), hR s hs]
  exact h.run hs

lemma file_spec {f : FileNo} (h : Triple E (Inv sb a H L) (k (a.ftable f)) Q) :
    Triple E (Inv sb a H L) (file f >>= k) Q :=
  file_bind_of (fun _ hs => hs.ftable) h

/-! ## `fileread` -/

/-- An open file keeps a reference to its inode. -/
lemma Abs.pinned_of_target {f : FileNo} (h : (a.ftable f).target = some e) : a.pinned e ≠ 0 := by
  have hpos := refs_pos (f := targets a.ftable) (a := f) h
  unfold Abs.pinned
  omega

/-- A file that is open refers to an allocated inode. -/
lemma Inv.exists_node (h : Inv sb a H L s) {f : FileNo} (htype : (a.ftable f).type = .inode) :
    a.pinned (a.ftable f).ip ≠ 0 ∧ ∃ n, a.node (a.inum (a.ftable f).ip) = some n := by
  have htarget : (a.ftable f).target = some (a.ftable f).ip := by rw [File.target, htype]
  have hp := Abs.pinned_of_target htarget
  exact ⟨hp, Option.ne_none_iff_exists'.1 (h.alive _ hp)⟩

/-- The size of a file fits into 32 bits. -/
lemma Inv.length_lt (h : Inv sb a H L s) (hn : a.node i = some n) : n.data.length < 2 ^ 32 := by
  rw [← h.view_eq] at hn
  obtain ⟨-, -, rfl⟩ := view_eq_some.1 hn
  rw [Dinode.length_node_data]
  exact (dinode sb s.disk i).size.isLt

lemma toNat_advance {off : BitVec 32} {m : ℕ} (h : off.toNat + m < 2 ^ 32) :
    (off + .ofInt 32 m).toNat = off.toNat + m := by
  rw [BitVec.ofInt_natCast, BitVec.toNat_add, BitVec.toNat_ofNat, Nat.mod_eq_of_lt (a := m)
    (by omega),
    Nat.mod_eq_of_lt h]

/-- `fileread` returns the bytes at the offset and advances it. -/
lemma fileread_spec {f : FileNo} (htype : (a.ftable f).type = .inode)
    (hread : (a.ftable f).readable = true) (hn : a.node (a.inum (a.ftable f).ip) = some n)
    (dst : ℕ → Bool) (len : BitVec 32) (ext : ℤ) :
    Triple E (Inv sb a [] []) (fileread f dst len ext) fun r s => ∃ off,
      Inv sb (a.setOff f off) [] [] s ∧
      ((a.ftable f).off.toNat + len.toNat < 2 ^ 32 →
        (∀ k < (n.bytes (a.ftable f).off.toNat len.toNat).length, dst k = true) →
        r = (((n.bytes (a.ftable f).off.toNat len.toNat).length : ℤ),
          n.bytes (a.ftable f).off.toNat len.toNat) ∧
        off.toNat = (a.ftable f).off.toNat +
          (n.bytes (a.ftable f).off.toNat len.toNat).length) := by
  refine .of_pre fun s h => ?_
  obtain ⟨hp, -⟩ := h.exists_node htype
  have hnlt := h.length_lt hn
  have hlength := n.length_bytes (a.ftable f).off.toNat len.toNat
  refine file_spec ?_
  rw [hread, htype]
  refine (ilock_spec (.inr ⟨hp, rfl⟩) List.not_mem_nil fun hnone => ?_).bind fun _ => ?_
  · rw [hn] at hnone
    cases hnone
  refine (read_spec (.inr ⟨hp, rfl⟩) (List.mem_cons_self ..) hn dst len.isLt).bind fun r =>
    .assume fun hr => .ite (fun hpos => ?_) fun hzero => ?_
  · have hholds : ∀ off, (a.setOff f off).Holds [] (a.ftable f).ip (a.inum (a.ftable f).ip) :=
      fun off => .inr ⟨by rwa [Abs.setOff_pinned], rfl⟩
    refine (advance_spec f r.1).bind fun _ => (iunlock_spec (hholds _) List.not_mem_nil).bind
      fun _ => .pure fun s h => ⟨_, h, fun hsum hdst => ⟨hr hsum hdst, ?_⟩⟩
    rw [hr hsum hdst, toNat_advance]
    omega
  · refine (iunlock_spec (.inr ⟨hp, rfl⟩) List.not_mem_nil).bind fun _ => .pure fun s h =>
      ⟨_, by rwa [Abs.setOff_self], fun hsum hdst => ⟨hr hsum hdst, ?_⟩⟩
    rw [hr hsum hdst] at hzero
    dsimp only at hzero
    omega

/-! ## `filewrite` -/

/-- The loop of `filewrite` from byte `k` on leaves the file `n'` and its offset `off`, and
returns `r`. -/
structure Node.Stores (n : Node) (src : ℕ → Option UInt8) (len k o : ℕ) (r : ℕ) (n' : Node)
    (off : BitVec 32) : Prop where
  type : n'.type = n.type
  nlink : n'.nlink = n.nlink
  data : (∀ j < len, (src j).isSome) → r = len → k ≤ len →
    n' = { n with data := splice n.data o (sourceBytes (fun j => src (k + j)) (len - k)) } ∧
    off.toNat = o + (len - k)

lemma Node.Stores.refl (n : Node) (src : ℕ → Option UInt8) {k r : ℕ} (off : BitVec 32)
    (h : r = len → len ≤ k) : n.Stores src len k off.toNat r n off where
  type := rfl
  nlink := rfl
  data := fun _ hr _ => by
    have hle := h hr
    rw [Nat.sub_eq_zero_of_le hle]
    simp [sourceBytes]

/-- A chunk, and then the rest. -/
lemma Node.Writes.stores {src : ℕ → Option UInt8} {k m r o : ℕ} {n' n'' : Node}
    {off off' : BitVec 32} (h : n.Writes (fun j => src (k + j)) m o m n')
    (hoff : (∀ j < m, (src (k + j)).isSome) → off.toNat = o + m) (hm : k + m ≤ len)
    (h' : n'.Stores src len (k + m) off.toNat r n'' off') : n.Stores src len k o r n'' off' where
  type := h'.type.trans h.type
  nlink := h'.nlink.trans h.nlink
  data := fun hsrc hr hk => by
    have hchunk : ∀ j < m, (src (k + j)).isSome := fun j hj => hsrc _ (by omega)
    have hn' := h.data hchunk
    obtain ⟨hn'', hoff'⟩ := h'.data hsrc hr hm
    have hbytes := sourceBytes_add (fun j => src (k + j)) m (len - (k + m))
    simp only [← Nat.add_assoc] at hbytes
    have hsum : m + (len - (k + m)) = len - k := by omega
    rw [hsum] at hbytes
    refine ⟨?_, by rw [hoff', hoff hchunk]; omega⟩
    rw [hn'', hn', hoff hchunk, ← hbytes]
    have hsplice := splice_splice (sourceBytes (fun j => src (k + j)) m)
      (sourceBytes (fun j => src (k + m + j)) (len - (k + m))) h.off_le
    rw [length_sourceBytes] at hsplice
    rw [← hsplice]

lemma Abs.setOff_set (f : FileNo) (off off' : BitVec 32) (i : ℕ) (n n' : Option Node) :
    (((a.set i n).setOff f off).set i n').setOff f off' = (a.set i n').setOff f off' := by
  simp only [Abs.set, Abs.setOff, update_idem, update_self]

/-- What is known of a file that is open for writing. -/
structure Abs.Open (a : Abs) (f : FileNo) (e : Ino) (i : ℕ) (n : Node) : Prop where
  type : (a.ftable f).type = .inode
  ip : (a.ftable f).ip = e
  pinned : a.pinned e ≠ 0
  inum : a.inum e = i
  node : a.node i = some n
  notDir : n.type ≠ T_DIR

/-- The transactions of `filewrite` since `past` started with files without holes. -/
abbrev NoHoles (past hist : List Tx) : Prop := Added past (fun tx => HoleFree tx.ip tx.disk) hist

/-- `Inv`, and what is known of the transactions. -/
def InvTx (sb : Superblock) (past : List Tx) (a : Abs) (L : List Ino) (s : State) : Prop :=
  Inv sb a [] L s ∧ NoHoles past s.hist

/-- Code that writes no transaction. -/
lemma InvTx.of_keeps {past : List Tx} {b : Abs} {L' : List Ino} {x : FsM α}
    (h : Triple E (Inv sb a [] L) x fun _ => Inv sb b [] L') (hx : ∀ P, Keeps P x) :
    Triple E (InvTx sb past a L) x fun _ => InvTx sb past b L' :=
  h.and (hx fun _ => NoHoles past)

/-- A locked inode has no hole. -/
lemma Inv.holeFree (h : Inv sb a H L s) (hei : a.Holds H e i) (he : e ∈ L) :
    HoleFree (s.itable e).din s.disk := by
  obtain ⟨hi, -, hdin, htype, -⟩ := h.entry hei he
  intro bn hbn
  rw [hdin] at hbn ⊢
  have hcell := h.sound.mapped i hi htype bn hbn
  rwa [cell, if_pos ⟨hi, htype⟩] at hcell

/-- One transaction of `filewrite` writes what it counts, to an inode without holes. -/
lemma writeTx_spec {past : List Tx} (hsb : sb.WellFormed) (hei : a.Holds [] e i) (he : e ∈ L)
    (hn : a.node i = some n) (htype : n.type ≠ T_DIR) (src : ℕ → Option UInt8) {off : ℕ}
    (hlen : len < 2 ^ 32) :
    Triple E (InvTx sb past a L) (writeTx e src off len)
      fun r s => (r = -1 ∧ InvTx sb past a L s) ∨ ∃ (m : ℕ) (n' : Node), r = m ∧
        n.Writes src len off m n' ∧ InvTx sb past (a.set i (some n')) L s := by
  refine .bind (.modify fun s h => ?_) fun _ => ((write_spec hsb hei he hn htype src hlen).and
    (Keeps.onInode (P := fun _ => NoHoles past) e _)).post fun r s hr => ?_
  · exact ⟨⟨h.1.sb_eq, h.1.proc, h.1.ftable, h.1.view_eq, h.1.sound, h.1.dirs, h.1.table, h.1.alive,
      h.1.files⟩, h.2.snoc (h.1.holeFree hei he)⟩
  · obtain ⟨⟨hr, h⟩ | ⟨m, n', hr, hw, h⟩, hpast⟩ := hr
    · exact .inl ⟨hr, h, hpast⟩
    · exact .inr ⟨m, n', hr, hw, h, hpast⟩

/-- The loop of `filewrite`, with `k` bytes written before: each round stores a chunk at the offset
and advances it. -/
lemma filewriteLoop_spec (hsb : sb.WellFormed) {f : FileNo} (src : ℕ → Option UInt8)
    (hlen : len < 2 ^ 32) (fuel : ℕ) (past : List Tx) : ∀ k a n, a.Open f e i n → len ≤ k + fuel →
    Triple E (InvTx sb past a []) (filewriteLoop f src len fuel k) fun r s => ∃ n' off,
      n.Stores src len k (a.ftable f).off.toNat r n' off ∧
      InvTx sb past ((a.set i (some n')).setOff f off) [] s := by
  induction fuel with
  | zero =>
    intro k a n hopen hk
    refine .pure fun s h => ⟨n, (a.ftable f).off, .refl n src _ fun _ => hk, ?_⟩
    rwa [Abs.set_eq_self hopen.node, Abs.setOff_self]
  | succ fuel ih =>
    intro k a n hopen hk
    obtain ⟨htype, hip, hp, hinum, hn, hdir⟩ := hopen
    have hholds : a.Holds [] e i := .inr ⟨hp, hinum⟩
    unfold filewriteLoop
    refine .ite (fun hlt => ?_) fun hge => ?_
    · have hmax : 0 < maxWrite := by decide
      obtain ⟨c, hc⟩ : ∃ c, c = min (len - k) maxWrite := ⟨_, rfl⟩
      dsimp only
      rw [← hc]
      -- the loop is left before all bytes are written
      have hshort : ∀ n' off, n'.type = n.type → n'.nlink = n.nlink →
          n.Stores src len k (a.ftable f).off.toNat k n' off := fun n' off ht hl =>
        ⟨ht, hl, fun _ hr => absurd hr (by omega)⟩
      refine file_bind_of (fun _ hs => hs.1.ftable) ?_
      rw [hip]
      refine (InvTx.of_keeps (ilock_spec hholds List.not_mem_nil fun hnone => ?_)
        fun _ => Keeps.ilock e).bind fun _ => ?_
      · rw [hn] at hnone
        cases hnone
      have hunlock : ∀ {b : Abs}, b.Holds [] e i → Triple E (InvTx sb past b [e]) (iunlock e)
          fun _ => InvTx sb past b [] := fun hb =>
        InvTx.of_keeps (iunlock_spec hb List.not_mem_nil) fun _ => Keeps.iunlock e
      refine (writeTx_spec hsb hholds (List.mem_cons_self ..) hn hdir _ (by omega)).bind fun r =>
        .or_pre (.assume fun hr => ?_) (.exists_pre fun m => .exists_pre fun n' =>
          .assume fun hr => .assume fun hw => ?_)
      · subst hr
        rw [if_neg (by decide)]
        refine (hunlock hholds).bind fun _ => .ite (fun _ => ?_) fun hr =>
          absurd (not_not.1 hr) (by omega)
        refine .pure fun s h => ⟨n, (a.ftable f).off, hshort n _ rfl rfl, ?_⟩
        rwa [Abs.set_eq_self hn, Abs.setOff_self]
      subst hr
      have hholds' : (a.set i (some n')).Holds [] e i := .inr ⟨hp, hinum⟩
      by_cases hm : m = 0
      · subst hm
        rw [if_neg (by decide)]
        refine (hunlock hholds').bind fun _ => .ite (fun _ => ?_) fun hr =>
          absurd (not_not.1 hr) (by omega)
        refine .pure fun s h => ⟨n', (a.ftable f).off, hshort n' _ hw.type hw.nlink, ?_⟩
        rwa [show (a.ftable f).off = ((a.set i (some n')).ftable f).off from rfl, Abs.setOff_self]
      rw [if_pos (by omega)]
      refine (InvTx.of_keeps (advance_spec f m) fun _ => Keeps.modifyFile f _).bind fun _ => ?_
      obtain ⟨off, hoff⟩ : ∃ off, off = (a.ftable f).off + .ofInt 32 m := ⟨_, rfl⟩
      obtain ⟨b, hb⟩ : ∃ b, b = (a.set i (some n')).setOff f off := ⟨_, rfl⟩
      have hopen : b.Open f e i n' := by
        rw [hb]
        refine ⟨?_, ?_, ?_, hinum, update_self .., hw.type ▸ hdir⟩
        · rw [Abs.setOff_ftable]
          exact htype
        · rw [Abs.setOff_ftable]
          exact hip
        · rwa [Abs.setOff_pinned]
      show Triple E (InvTx sb past ((a.set i (some n')).setOff f ((a.ftable f).off + .ofInt 32 m))
        [e]) _ _
      rw [← hoff, ← hb]
      refine (hunlock (.inr ⟨hopen.pinned, hopen.inum⟩)).bind fun _ =>
        .ite (fun _ => ?_) fun hr => ?_
      · exact .pure fun s h => ⟨n', off, hshort n' _ hw.type hw.nlink, hb ▸ h⟩
      obtain rfl : m = c := by exact_mod_cast not_not.1 hr
      refine .of_pre fun s h => (ih (k + m) b n' hopen (by omega)).post fun r s' h' => ?_
      obtain ⟨n'', off', hstores, h'⟩ := h'
      rw [hb, Abs.setOff_set] at h'
      rw [show (b.ftable f).off = off by rw [hb, Abs.setOff_ftable]] at hstores
      refine ⟨n'', off', hw.stores (fun hsrc => ?_) (by omega) hstores, h'⟩
      have hlength := h.1.length_lt hopen.node
      rw [hw.data hsrc, length_splice hw.off_le, length_sourceBytes] at hlength
      rw [hoff, toNat_advance (by omega)]
    · refine .pure fun s h => ⟨n, (a.ftable f).off, .refl n src _ fun _ => by omega, ?_⟩
      rwa [Abs.set_eq_self hn, Abs.setOff_self]

/-- `filewrite` stores the bytes at the offset, or a part of them if it returns `-1`. -/
lemma filewrite_spec (hsb : sb.WellFormed) {f : FileNo} (hopen : a.Open f e i n)
    (hwrite : (a.ftable f).writable = true) (src : ℕ → Option UInt8) (len : BitVec 32) (ext : ℤ)
    (past : List Tx) :
    Triple E (InvTx sb past a []) (filewrite f src len ext) fun r s => ∃ n' off,
      n'.type = n.type ∧ n'.nlink = n.nlink ∧
      ((∀ k < len.toInt.toNat, (src k).isSome) → 0 ≤ r → r = len.toInt ∧
        n' = { n with
          data := splice n.data (a.ftable f).off.toNat (sourceBytes src len.toInt.toNat) } ∧
        off.toNat = (a.ftable f).off.toNat + len.toInt.toNat) ∧
      InvTx sb past ((a.set i (some n')).setOff f off) [] s := by
  have hlen : len.toInt.toNat < 2 ^ 32 := by
    have hlt := len.toInt_lt
    omega
  refine file_bind_of (fun _ hs => hs.1.ftable) ?_
  rw [hwrite, hopen.type]
  refine (filewriteLoop_spec hsb src hlen _ past 0 a n hopen (by omega)).bind fun r =>
    .pure fun s h => ?_
  obtain ⟨n', off, hstores, h⟩ := h
  refine ⟨n', off, hstores.type, hstores.nlink, fun hsrc hpos => ?_, h⟩
  split at hpos
  case isFalse => exact absurd hpos (by decide)
  case isTrue hr =>
    obtain ⟨hdata, hoff⟩ := hstores.data hsrc (by omega) (Nat.zero_le _)
    simp only [Nat.zero_add, Nat.sub_zero] at hdata hoff
    exact ⟨if_pos hr, hdata, hoff⟩

/-! ## Byte arrays -/

/-- `readi` and `writei` work on the contents of the inodes of a disk as on arrays of bytes. -/
structure ContentBytes (sb : Superblock) (d : Disk) : Prop where
  /-- A write that reports `m` bytes replaces `m` bytes. No other file changes. -/
  writei : ∀ i n, view sb d i = some n → ∀ src off len, len < 2 ^ 32 →
    (∀ k < len, (src k).isSome) →
    Post (fun _ => False) (fun (r, ip', d') => ip' = dinode sb d' i ∧
        ((r = -1 ∧ d' = d) ∨ ∃ m : ℕ, r = m ∧ m ≤ len ∧ off ≤ n.data.length ∧
          view sb d' = update (view sb d) i
            (some { n with data := splice n.data off (sourceBytes src m) })))
      (writei sb i (dinode sb d i) src off len d)
  /-- A write past the limits changes nothing. -/
  limits : ∀ i n, view sb d i = some n → ∀ src off len, off < 2 ^ 32 → len < 2 ^ 32 →
    2 ^ 32 ≤ off + len ∨ MAXFILE * BSIZE < off + len ∨ n.data.length < off →
    Fs.writei sb i (dinode sb d i) src off len d = .ok (-1, dinode sb d i, d)
  /-- A read returns a part of the array. -/
  readi : ∀ i n, view sb d i = some n → ∀ dst off len, off + len < 2 ^ 32 →
    (∀ k < (n.bytes off len).length, dst k = true) →
    readi sb (dinode sb d i) dst off len d =
      .ok ((((n.bytes off len).length : ℤ), n.bytes off len), dinode sb d i, d)

/-- `fileread` and `filewrite` work on the contents of an open file as on an array of bytes. -/
structure FileBytes (s : State) (f : FileNo) (n : Node) : Prop where
  filewrite : (s.ftable f).writable = true → ∀ src len ext r s',
    (filewrite f src len ext).run s = .ok (r, s') → 0 ≤ r →
    (∀ k < len.toInt.toNat, (src k).isSome) →
    r = len.toInt ∧
    view s.sb s'.disk = update (view s.sb s.disk) (s.itable (s.ftable f).ip).inum
      (some { n with
        data := splice n.data (s.ftable f).off.toNat (sourceBytes src len.toInt.toNat) }) ∧
    (s'.ftable f).off.toNat = (s.ftable f).off.toNat + len.toInt.toNat
  fileread : (s.ftable f).readable = true → ∀ dst len ext,
    (s.ftable f).off.toNat + len.toNat < 2 ^ 32 →
    (∀ k < (n.bytes (s.ftable f).off.toNat len.toNat).length, dst k = true) →
    ∃ s', (fileread f dst len ext).run s =
        .ok ((((n.bytes (s.ftable f).off.toNat len.toNat).length : ℤ),
          n.bytes (s.ftable f).off.toNat len.toNat), s') ∧
      view s.sb s'.disk = view s.sb s.disk ∧
      (s'.ftable f).off.toNat =
        (s.ftable f).off.toNat + (n.bytes (s.ftable f).off.toNat len.toNat).length

/-- `readi` and `writei` on a sound disk. -/
lemma Sound.contentBytes (hsb : sb.WellFormed) {d : Disk} (h : Sound sb d (dinode sb d)) :
    ContentBytes sb d := by
  refine ⟨fun i n hn src off len hlen hsrc => ?_, fun i n hn src off len hoff hlen hbad => ?_,
    fun i n hn dst off len hsum hdst => ?_⟩
  · obtain ⟨hi, ht, rfl⟩ := view_eq_some.1 hn
    refine (h.writei_post hsb hi ht src hlen).mono ?_
    rintro ⟨r, ip', d'⟩ ⟨hup, hrew⟩
    refine ⟨hup.self.symm, ?_⟩
    have hview := hup.view_eq hi
    have htype : ip'.type ≠ 0 := hrew.type ▸ ht
    rw [if_pos htype] at hview
    obtain ⟨hr, hip, hd⟩ | hwrote := hrew.cases
    · exact .inl ⟨hr, hd⟩
    obtain ⟨hr, -⟩ | ⟨m, hm, hr, hoff, -, hnew⟩ := hrew.node_eq hsrc
    · obtain ⟨m, -, hr', -⟩ := hwrote
      exact absurd (hr.symm.trans hr') (by omega)
    · exact .inr ⟨m, hr, hm, hoff, by rw [hview, hnew]⟩
  · obtain ⟨hi, ht, rfl⟩ := view_eq_some.1 hn
    rw [Dinode.length_node_data] at hbad
    unfold Fs.writei
    by_cases hover : 2 ^ 32 ≤ off + len
    · rw [if_pos (.inr (by omega))]
      rfl
    · rw [Nat.mod_eq_of_lt (by omega)]
      by_cases hpast : (dinode sb d i).size.toNat < off
      · rw [if_pos (.inl hpast)]
        rfl
      · rw [if_neg (by omega), if_pos (by omega)]
        rfl
  · obtain ⟨hi, ht, rfl⟩ := view_eq_some.1 hn
    have hread : Post (fun _ => False) _ (Fs.readi sb (dinode sb d i) dst off len d) :=
      h.readi_post hi ht dst (by omega)
    obtain ⟨⟨r, x⟩, hrun, hsame, hbytes⟩ := hread.exists_ok
    have hcount : readCount (dinode sb d i).size.toNat off len =
        (((dinode sb d i).node d).bytes off len).length := by
      rw [readCount_eq hsum, Node.length_bytes, Dinode.length_node_data]
    dsimp only at hsame hbytes
    rw [hcount, Dinode.fileBytes_node] at hbytes
    rw [hrun, hsame, hbytes hdst]

/-- `fileread` and `filewrite` between two calls. -/
lemma Settled.fileBytes (h : Settled s) {f : FileNo} (htype : (s.ftable f).type = .inode)
    (hn : view s.sb s.disk (s.itable (s.ftable f).ip).inum = some n) : FileBytes s f n := by
  obtain ⟨hp, -⟩ := h.inv.exists_node htype
  refine ⟨fun hw src len ext r s' hrun hr hsrc => ?_, fun hread dst len ext hsum hdst => ?_⟩
  · have hdir : n.type ≠ T_DIR := h.inv.files f (s.ftable f).ip
      (show (s.ftable f).target = _ by rw [File.target, htype]) htype hw n hn
    have hspec := (filewrite_spec (E := fun _ => True) h.wf ⟨htype, rfl, hp, rfl, hn, hdir⟩ hw src
      len ext s.hist).run ⟨h.inv, .refl _ _⟩
    rw [hrun, Post.ok_iff] at hspec
    obtain ⟨n', off, -, -, hdata, hinv, -⟩ := hspec
    obtain ⟨hlen, rfl, hoff⟩ := hdata hsrc hr
    refine ⟨hlen, hinv.view_eq, ?_⟩
    rw [show s'.ftable = _ from hinv.ftable, Abs.setOff_ftable]
    exact hoff
  · have hspec := (fileread_spec (E := fun _ => False) htype hread hn dst len ext).run h.inv
    obtain ⟨⟨r, s'⟩, hrun, off, hinv, hbytes⟩ := hspec.exists_ok
    obtain ⟨hr, hoff⟩ := hbytes hsum hdst
    dsimp only at hr
    subst hr
    refine ⟨s', hrun, hinv.view_eq, ?_⟩
    rw [show s'.ftable = _ from hinv.ftable, Abs.setOff_ftable]
    exact hoff

end Xv6.Fs
