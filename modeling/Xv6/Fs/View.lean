import Mathlib.Data.List.GetD
import Xv6.Fs.Dirs

/-!
# Files as the calls see them

`view sb d` is what the file system on disk `d` is for: a map from the numbers of the allocated
inodes to files, each with its type, its link count and its contents. Where its blocks are does
not matter any more. A directory is a file whose contents are entries.

An operation on the disk that updates one inode updates the view at that inode.
-/

namespace Xv6.Fs

open Xv6.Lib
open Xv6.Disk (Block)
open Xv6.Process (Stop)

/-! ## Byte arrays -/

/-- The array `data` with `bs` in place of what was at `off`. -/
def splice (data : List UInt8) (off : ℕ) (bs : List UInt8) : List UInt8 :=
  data.take off ++ bs ++ data.drop (off + bs.length)

section Splice

variable {data bs : List UInt8} {off : ℕ}

lemma length_splice (h : off ≤ data.length) :
    (splice data off bs).length = max data.length (off + bs.length) := by
  simp only [splice, List.length_append, List.length_take, List.length_drop]
  omega

/-- The bytes of the array, with `0` past its end. -/
lemma getD_splice (h : off ≤ data.length) (o : ℕ) : (splice data off bs).getD o 0 =
    if off ≤ o ∧ o < off + bs.length then bs.getD (o - off) 0 else data.getD o 0 := by
  have htake : (data.take off).length = off := by
    rw [List.length_take]
    omega
  simp only [splice, List.append_assoc, List.getD_eq_getElem?_getD, List.getElem?_append, htake]
  by_cases hlow : o < off
  · rw [if_pos hlow, if_neg (by omega), List.getElem?_take_of_lt hlow]
  · rw [if_neg hlow]
    by_cases hin : o - off < bs.length
    · rw [if_pos hin, if_pos (by omega)]
    · rw [if_neg hin, if_neg (by omega), List.getElem?_drop]
      congr 2
      omega

@[simp] lemma splice_nil (data : List UInt8) (off : ℕ) : splice data off [] = data := by
  simp [splice]

end Splice

/-- Arrays with the same bytes. -/
lemma ext_getD {xs ys : List UInt8} (hlen : xs.length = ys.length)
    (h : ∀ o < xs.length, xs.getD o 0 = ys.getD o 0) : xs = ys := by
  refine List.ext_getElem hlen fun o ho ho' => ?_
  have hget := h o ho
  rwa [List.getD_eq_getElem _ _ ho, List.getD_eq_getElem _ _ ho'] at hget

/-! ## Files -/

/-- A file. -/
@[ext]
structure Node where
  type : BitVec 16
  major : BitVec 16
  minor : BitVec 16
  nlink : BitVec 16
  data : List UInt8
deriving DecidableEq

/-- The file with inode `ip`. -/
def Dinode.node (ip : Dinode) (d : Disk) : Node where
  type := ip.type
  major := ip.major
  minor := ip.minor
  nlink := ip.nlink
  data := fileBytes ip d 0 ip.size.toNat

/-- The files of the file system, by their inode numbers. -/
def view (sb : Superblock) (d : Disk) (i : ℕ) : Option Node :=
  if i < sb.ninodes ∧ (dinode sb d i).type ≠ 0 then some ((dinode sb d i).node d) else none

variable {sb : Superblock} {d d' : Disk} {i : ℕ} {ip ip' : Dinode}

@[simp] lemma Dinode.length_node_data (ip : Dinode) (d : Disk) :
    (ip.node d).data.length = ip.size.toNat := length_fileBytes ..

lemma Dinode.getD_node_data (ip : Dinode) (d : Disk) {o : ℕ} (h : o < ip.size.toNat) :
    (ip.node d).data.getD o 0 = fileByte ip d o := by
  have hlen : o < (fileBytes ip d 0 ip.size.toNat).length := by rwa [length_fileBytes]
  show (fileBytes ip d 0 ip.size.toNat).getD o 0 = _
  rw [List.getD_eq_getElem _ _ hlen]
  simp [fileBytes]

lemma view_eq_some {n : Node} : view sb d i = some n ↔
    i < sb.ninodes ∧ (dinode sb d i).type ≠ 0 ∧ (dinode sb d i).node d = n := by
  unfold view
  split
  case isTrue h => exact ⟨fun hn => ⟨h.1, h.2, Option.some.inj hn⟩, fun hn => congrArg some hn.2.2⟩
  case isFalse h => exact ⟨(nomatch ·), fun hn => absurd ⟨hn.1, hn.2.1⟩ h⟩

lemma view_eq_none : view sb d i = none ↔ i < sb.ninodes → (dinode sb d i).type = 0 := by
  unfold view
  split
  case isTrue h => exact ⟨(nomatch ·), fun hn => absurd (hn h.1) h.2⟩
  case isFalse h => exact ⟨fun _ hi => by_contra fun ht => h ⟨hi, ht⟩, fun _ => rfl⟩

/-- A node is determined by the fields of the inode and the bytes below its size. -/
lemma Dinode.node_congr (htype : ip'.type = ip.type) (hmajor : ip'.major = ip.major)
    (hminor : ip'.minor = ip.minor) (hnlink : ip'.nlink = ip.nlink) (hsize : ip'.size = ip.size)
    (hbytes : ∀ o < ip.size.toNat, fileByte ip' d' o = fileByte ip d o) :
    ip'.node d' = ip.node d := by
  refine Node.ext htype hmajor hminor hnlink (ext_getD ?_ fun o ho => ?_)
  · simp [hsize]
  · rw [length_node_data, hsize] at ho
    rw [getD_node_data _ _ (hsize ▸ ho), getD_node_data _ _ ho, hbytes o ho]

/-- An operation that updates inode `i`. -/
lemma Updates.view_eq (h : Updates sb i d ip' d') (hi : i < sb.ninodes) :
    view sb d' =
      Function.update (view sb d) i (if ip'.type ≠ 0 then some (ip'.node d') else none) := by
  funext j
  by_cases hj : j = i
  · subst hj
    rw [Function.update_self, view, h.self]
    simp [hi]
  · rw [Function.update_of_ne hj]
    unfold view
    by_cases hlt : j < sb.ninodes
    · rw [h.others j hlt hj]
      by_cases ht : (dinode sb d j).type = 0
      · simp [ht]
      · rw [if_pos ⟨hlt, ht⟩, if_pos ⟨hlt, ht⟩,
          Dinode.node_congr rfl rfl rfl rfl rfl (h.data j hlt hj ht)]
    · simp [hlt]

/-- The first `m` bytes of a buffer. -/
def sourceBytes (src : ℕ → Option UInt8) (m : ℕ) : List UInt8 :=
  (List.range m).map fun k => (src k).getD 0

@[simp] lemma length_sourceBytes (src : ℕ → Option UInt8) (m : ℕ) :
    (sourceBytes src m).length = m := by simp [sourceBytes]

lemma getD_sourceBytes (src : ℕ → Option UInt8) {m k : ℕ} (h : k < m) :
    (sourceBytes src m).getD k 0 = (src k).getD 0 := by
  simp [sourceBytes, List.getD_eq_getElem?_getD, h]

/-- A write from a buffer that can be read replaces a part of the contents. -/
lemma Rewrites.node_eq {src : ℕ → Option UInt8} {n off : ℕ} {r : ℤ}
    (h : Rewrites ip d src n off r ip' d') (hsrc : ∀ k < n, (src k).isSome) :
    (r = -1 ∧ ip'.node d' = ip.node d) ∨ ∃ m ≤ n, r = m ∧ off ≤ (ip.node d).data.length ∧
      (off % BSIZE + n ≤ BSIZE → m = 0 ∨ m = n) ∧
      ip'.node d' =
        { ip.node d with data := splice (ip.node d).data off (sourceBytes src m) } := by
  obtain ⟨htype, hnlink, hdevice, hcases⟩ := h
  obtain ⟨hr, rfl, rfl⟩ | ⟨m, hm, hr, hoff, hsize, hone, hbytes⟩ := hcases
  · exact .inl ⟨hr, rfl⟩
  · obtain ⟨hkept, hnew⟩ := hbytes hsrc
    have hoff' : off ≤ (ip.node d).data.length := by rwa [Dinode.length_node_data]
    refine .inr ⟨m, hm, hr, hoff', hone, ?_⟩
    refine Node.ext htype hdevice.1 hdevice.2 hnlink (ext_getD ?_ fun o ho => ?_)
    · show (ip'.node d').data.length = _
      rw [Dinode.length_node_data, length_splice hoff', length_sourceBytes,
        Dinode.length_node_data, hsize]
    · rw [Dinode.length_node_data] at ho
      rw [Dinode.getD_node_data _ _ ho, getD_splice hoff', length_sourceBytes]
      by_cases hin : off ≤ o ∧ o < off + m
      · obtain ⟨v, hv⟩ := Option.isSome_iff_exists.1 (hsrc (o - off) (by omega))
        rw [if_pos hin, getD_sourceBytes _ (by omega), hv, Option.getD_some,
          ← hnew (o - off) (by omega) v hv, Nat.add_sub_cancel' hin.1]
      · rw [if_neg hin, Dinode.getD_node_data _ _ (by omega), hkept o (by omega) (by omega)]

/-! ## Directories -/

/-- Pieces of one length, one after the other. -/
lemma drop_flatMap {α β : Type} {f : α → List β} {n : ℕ} {l : List α}
    (h : ∀ a ∈ l, (f a).length = n) (k : ℕ) :
    (l.flatMap f).drop (n * k) = (l.drop k).flatMap f := by
  induction l generalizing k with
  | nil => simp
  | cons a l ih =>
    cases k with
    | zero => rfl
    | succ k =>
      have ha : (f a).length = n := h a (List.mem_cons_self ..)
      rw [List.flatMap_cons, List.drop_succ_cons,
        ← ih (fun b hb => h b (List.mem_cons_of_mem a hb)) k, Nat.mul_succ, Nat.add_comm,
        ← List.drop_drop, ← ha, List.drop_left]

namespace Node

/-- The number of entries of a directory. -/
def slots (n : Node) : ℕ := n.data.length / DIRENT

/-- Entry number `k` of a directory. -/
def entry (n : Node) (k : ℕ) : Dirent :=
  .decode ((List.range DIRENT).map fun j => n.data.getD (DIRENT * k + j) 0)

/-- The first entry from number `k` on that satisfies `p`. -/
def find (n : Node) (p : Dirent → Bool) (k : ℕ) : Option ℕ :=
  ((List.range n.slots).drop k).find? fun j => p (n.entry j)

/-- The entry in use with the given name. -/
def lookup (n : Node) (name : Name) : Option ℕ :=
  n.find (fun de => de.inum ≠ 0 ∧ namecmp name de.name) 0

/-- Write entry number `k`. -/
def setEntry (n : Node) (k : ℕ) (de : Dirent) : Node :=
  { n with data := splice n.data (DIRENT * k) de.encode }

/-- The directory consists of whole entries. -/
def Whole (n : Node) : Prop := DIRENT ∣ n.data.length

variable {n : Node} {k j : ℕ} {de : Dirent}

lemma Whole.length_eq (h : n.Whole) : n.data.length = DIRENT * n.slots :=
  (Nat.mul_div_cancel' h).symm

lemma mem_drop_range {m : ℕ} : j ∈ (List.range m).drop k ↔ k ≤ j ∧ j < m := by
  rw [List.mem_drop_iff_getElem]
  constructor
  · rintro ⟨o, ho, rfl⟩
    rw [List.length_range] at ho
    rw [List.getElem_range]
    omega
  · rintro ⟨hk, hj⟩
    refine ⟨j - k, by rw [List.length_range]; omega, ?_⟩
    rw [List.getElem_range]
    omega

lemma find_some {p : Dirent → Bool} (h : n.find p k = some j) :
    k ≤ j ∧ j < n.slots ∧ p (n.entry j) = true := by
  obtain ⟨hk, hj⟩ := mem_drop_range.1 (List.mem_of_find?_eq_some h)
  exact ⟨hk, hj, List.find?_some (p := fun j => p (n.entry j)) h⟩

lemma lookup_some {name : Name} (h : n.lookup name = some j) :
    j < n.slots ∧ (n.entry j).inum ≠ 0 ∧ namecmp name (n.entry j).name = true := by
  obtain ⟨-, hj, hp⟩ := find_some h
  exact ⟨hj, by simpa using hp⟩

lemma map_getD_encode (hname : de.name.length = DIRSIZ) :
    ((List.range DIRENT).map fun j => de.encode.getD j 0) = de.encode := by
  have hlen := Dirent.length_encode hname
  refine List.ext_getElem (by simp [hlen]) fun j hj hj' => ?_
  simp [hj']

/-- What the entries are after one of them was written. -/
lemma entry_setEntry (hk : DIRENT * k ≤ n.data.length) (hname : de.name.length = DIRSIZ) (j : ℕ) :
    (n.setEntry k de).entry j = if j = k then de else n.entry j := by
  have hlen := Dirent.length_encode hname
  have hbyte : ∀ o, (n.setEntry k de).data.getD o 0 = if DIRENT * k ≤ o ∧ o < DIRENT * k + DIRENT
      then de.encode.getD (o - DIRENT * k) 0 else n.data.getD o 0 := by
    intro o
    have hget : (splice n.data (DIRENT * k) de.encode).getD o 0 = _ := getD_splice hk o
    rwa [hlen] at hget
  unfold entry
  by_cases hj : j = k
  · subst hj
    rw [if_pos rfl]
    calc _ = Dirent.decode ((List.range DIRENT).map fun b => de.encode.getD b 0) := by
          congr 1
          refine List.map_congr_left fun b hb => ?_
          rw [List.mem_range] at hb
          rw [hbyte, if_pos (by omega), Nat.add_sub_cancel_left]
      _ = de := by rw [map_getD_encode hname, Dirent.decode_encode]
  · rw [if_neg hj]
    congr 1
    refine List.map_congr_left fun b hb => ?_
    rw [List.mem_range] at hb
    rw [hbyte, if_neg]
    unfold DIRENT at *
    omega

lemma length_setEntry (hk : DIRENT * k ≤ n.data.length) (hname : de.name.length = DIRSIZ) :
    (n.setEntry k de).data.length = max n.data.length (DIRENT * k + DIRENT) := by
  have hlen : (splice n.data (DIRENT * k) de.encode).length = _ := length_splice hk
  rwa [Dirent.length_encode hname] at hlen

/-- An entry is written in place of another or at the end. -/
lemma Whole.setEntry (h : n.Whole) (hk : k ≤ n.slots) (hname : de.name.length = DIRSIZ) :
    (n.setEntry k de).Whole ∧ (n.setEntry k de).slots = max n.slots (k + 1) := by
  have hlen := h.length_eq
  have hle : DIRENT * k ≤ n.data.length := hlen ▸ Nat.mul_le_mul_left _ hk
  have hnew := length_setEntry hle hname
  have hmul : (n.setEntry k de).data.length = DIRENT * max n.slots (k + 1) := by
    rw [hnew, hlen, ← Nat.mul_succ, Nat.mul_max_mul_left]
  refine ⟨⟨_, hmul⟩, ?_⟩
  rw [slots, hmul, Nat.mul_div_cancel_left _ (by decide)]

/-- A directory with the given entries. -/
def ofEntries (nlink : BitVec 16) (es : List Dirent) : Node :=
  ⟨T_DIR, 0, 0, nlink, es.flatMap Dirent.encode⟩

variable {es : List Dirent} {nlink : BitVec 16}

lemma length_ofEntries (h : ∀ de ∈ es, de.name.length = DIRSIZ) :
    (ofEntries nlink es).data.length = DIRENT * es.length := by
  show (es.flatMap Dirent.encode).length = _
  rw [List.length_flatMap, List.map_congr_left fun de hde => Dirent.length_encode (h de hde),
    List.map_const', List.sum_replicate_nat, Nat.mul_comm]

lemma slots_ofEntries (h : ∀ de ∈ es, de.name.length = DIRSIZ) :
    (ofEntries nlink es).slots = es.length := by
  rw [slots, length_ofEntries h, Nat.mul_div_cancel_left _ (by decide)]

lemma entry_ofEntries (h : ∀ de ∈ es, de.name.length = DIRSIZ) (hk : k < es.length) :
    (ofEntries nlink es).entry k = es[k] := by
  have hlen := Dirent.length_encode (h _ (List.getElem_mem hk))
  have hdrop : (ofEntries nlink es).data.drop (DIRENT * k) =
      es[k].encode ++ (es.drop (k + 1)).flatMap Dirent.encode := by
    show (es.flatMap Dirent.encode).drop _ = _
    rw [drop_flatMap fun de hde => Dirent.length_encode (h de hde), List.drop_eq_getElem_cons hk,
      List.flatMap_cons]
  have hbytes : ((List.range DIRENT).map fun j =>
      (ofEntries nlink es).data.getD (DIRENT * k + j) 0) = es[k].encode := by
    rw [← map_getD_encode (h _ (List.getElem_mem hk))]
    refine List.map_congr_left fun j hj => ?_
    rw [List.mem_range] at hj
    rw [List.getD_eq_getElem?_getD, ← List.getElem?_drop, hdrop,
      List.getElem?_append_left (by omega), List.getD_eq_getElem?_getD]
  rw [entry, hbytes, Dirent.decode_encode]

end Node

/-- An entry as it is read from the blocks. -/
lemma Dinode.node_entry {k : ℕ} (h : DIRENT * k + DIRENT ≤ ip.size.toNat) :
    (ip.node d).entry k = direntAt ip d k := by
  unfold Node.entry direntAt fileBytes
  congr 1
  refine List.map_congr_left fun j hj => ?_
  rw [List.mem_range] at hj
  exact ip.getD_node_data d (by omega)

lemma Dinode.slots_node (h : (ip.node d).Whole) : slots ip.size = (ip.node d).slots := by
  have hlen := h.length_eq
  rw [length_node_data] at hlen
  unfold Fs.slots
  unfold DIRENT at *
  omega

/-- The entries in use of every directory name allocated inodes. -/
def Closed (node : ℕ → Option Node) : Prop :=
  ∀ i n k, node i = some n → n.type = T_DIR → k < n.slots → (n.entry k).inum ≠ 0 →
    node (n.entry k).inum.toNat ≠ none

end Xv6.Fs
