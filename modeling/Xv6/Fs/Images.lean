import Xv6.Fs.Abstract

/-!
# Images with given files

`image nodes` is a disk with the given files, which have the inode numbers `1`, `2`, and so on.
Each file has all the blocks that a file can have, in a row, so no block is free and the free map
is full. There is one more inode, which is free.
-/

namespace Xv6.Fs

open Xv6.Lib
open Xv6.Disk (Block)

/-! ## Layout -/

/-- The number of blocks of a file, the indirect block among them. -/
def SPAN : ℕ := MAXFILE + 1

/-- The layout for `m` files. -/
def imageSb (m : ℕ) : Superblock where
  magic := FSMAGIC
  size := 34 + (m + 2) / IPB + m + SPAN * m
  nblocks := SPAN * m
  ninodes := m + 2
  nlog := 30
  logstart := 2
  inodestart := 32
  bmapstart := 33 + (m + 2) / IPB

lemma imageSb_dataStart (m : ℕ) : (imageSb m).dataStart = 34 + (m + 2) / IPB + m :=
  Nat.add_sub_cancel ..

lemma imageSb_bmapstart (m : ℕ) :
    33 ≤ (imageSb m).bmapstart ∧ (imageSb m).bmapstart < (imageSb m).dataStart := by
  rw [imageSb_dataStart]
  show 33 ≤ 33 + (m + 2) / IPB ∧ 33 + (m + 2) / IPB < 34 + (m + 2) / IPB + m
  generalize (m + 2) / IPB = q
  omega

lemma imageSb_iblock_lt {m i : ℕ} (hi : i < m + 2) :
    (imageSb m).iblock i < (imageSb m).bmapstart := by
  show i / IPB + 32 < 33 + (m + 2) / IPB
  have hle : i / IPB ≤ (m + 2) / IPB := Nat.div_le_div_right hi.le
  omega

lemma imageSb_wf {m : ℕ} (h : 0 < m) (hm : m ≤ 1000) : (imageSb m).WellFormed where
  log_le := by simp [imageSb]
  inode_lt _ hi := imageSb_iblock_lt hi
  bmap_lt b hb := by
    have hb : b < 34 + (m + 2) / IPB + m + 269 * m := hb
    have hle : (m + 2) / IPB ≤ m + 2 := Nat.div_le_self ..
    have hdiv : b / 8192 ≤ m := by omega
    rw [imageSb_dataStart]
    show b / 8192 + (33 + (m + 2) / IPB) < _
    omega
  ninodes_le := by
    show m + 2 ≤ _
    omega
  size_lt := by
    show 34 + (m + 2) / IPB + m + 269 * m < _
    have hle : (m + 2) / IPB ≤ m + 2 := Nat.div_le_self ..
    omega
  root_lt := by
    show 1 < m + 2
    omega

/-! ## The disk -/

section

variable (nodes : List Node)

/-- The number of the file at place `k`. -/
def fileAt (k : ℕ) : Node := nodes.getD k ⟨0, 0, 0, 0, []⟩

/-- The first block of file `k`. -/
def imageStart (k : ℕ) : ℕ := (imageSb nodes.length).dataStart + SPAN * k

/-- The inode of file `k`. -/
def imageInode (k : ℕ) : Dinode where
  type := (fileAt nodes k).type
  major := (fileAt nodes k).major
  minor := (fileAt nodes k).minor
  nlink := (fileAt nodes k).nlink
  size := .ofNat 32 (fileAt nodes k).data.length
  addrs := fun j => .ofNat 32 (imageStart nodes k + j)

/-- Block number `r` of file `k`: the direct blocks, the indirect block and the other blocks. -/
def imageData (k r : ℕ) : Block :=
  if r = NDIRECT then
    (Bytes.fill BSIZE 0).stWords 0 NINDIRECT fun j => imageStart nodes k + (NDIRECT + 1 + j)
  else fun x =>
    (fileAt nodes k).data.getD ((if r < NDIRECT then r else r - 1) * BSIZE + x) 0

/-- The disk without the inodes. -/
def imageBase (b : ℕ) : Block :=
  let sb := imageSb nodes.length
  if b = 1 then
    (Bytes.fill BSIZE 0).stWords 0 8 fun j => [sb.magic, sb.size, sb.nblocks, sb.ninodes, sb.nlog,
      sb.logstart, sb.inodestart, sb.bmapstart].getD j 0
  else if b < sb.bmapstart then Bytes.fill BSIZE 0
  else if b < sb.dataStart then Bytes.fill BSIZE 255
  else imageData nodes ((b - sb.dataStart) / SPAN) ((b - sb.dataStart) % SPAN)

/-- The disk with these files. -/
def image : Disk :=
  (List.range nodes.length).foldl
    (fun d k => setDinode (imageSb nodes.length) (k + 1) (imageInode nodes k) d) (imageBase nodes)

end

variable {nodes : List Node} {k : ℕ}

lemma fileAt_eq (hk : k < nodes.length) : fileAt nodes k = nodes[k] :=
  List.getD_eq_getElem nodes _ hk

/-- What the inodes written first leave of the disk. -/
lemma image_step (m : ℕ) (hm : m ≤ nodes.length) :
    let d := (List.range m).foldl
      (fun d k => setDinode (imageSb nodes.length) (k + 1) (imageInode nodes k) d) (imageBase nodes)
    (∀ i, dinode (imageSb nodes.length) d i = if 1 ≤ i ∧ i ≤ m then imageInode nodes (i - 1)
      else dinode (imageSb nodes.length) (imageBase nodes) i) ∧
    ∀ b, b < 32 ∨ (imageSb nodes.length).bmapstart ≤ b → d b = imageBase nodes b := by
  induction m with
  | zero => exact ⟨fun i => (if_neg (by omega)).symm, fun _ _ => rfl⟩
  | succ m ih =>
    obtain ⟨hinode, hblock⟩ := ih (by omega)
    simp only [List.range_succ, List.foldl_append, List.foldl_cons, List.foldl_nil]
    refine ⟨fun i => ?_, fun b hb => ?_⟩
    · rw [dinode_setDinode]
      by_cases hi : i = m + 1
      · rw [hi, Function.update_self, if_pos (by omega), Nat.add_sub_cancel]
      · rw [Function.update_of_ne hi, hinode]
        by_cases hle : 1 ≤ i ∧ i ≤ m
        · rw [if_pos hle, if_pos (by omega)]
        · rw [if_neg hle, if_neg (by omega)]
    · have hlt := imageSb_iblock_lt (m := nodes.length) (i := m + 1) (by omega)
      have hge : 32 ≤ (imageSb nodes.length).iblock (m + 1) := Nat.le_add_left ..
      rw [setDinode_of_ne (by omega), hblock b hb]

lemma image_block {b : ℕ} (hb : b < 32 ∨ (imageSb nodes.length).bmapstart ≤ b) :
    image nodes b = imageBase nodes b := (image_step _ le_rfl).2 b hb

/-- The inodes of the image are those of the files. -/
lemma image_dinode {i : ℕ} (hi : i < nodes.length + 2) :
    dinode (imageSb nodes.length) (image nodes) i =
      if 1 ≤ i ∧ i ≤ nodes.length then imageInode nodes (i - 1) else .zero := by
  have hstep := (image_step nodes.length le_rfl).1 i
  have hlt := imageSb_iblock_lt hi
  have hge : 32 ≤ (imageSb nodes.length).iblock i := Nat.le_add_left ..
  have hbase : dinode (imageSb nodes.length) (imageBase nodes) i = .zero := by
    rw [dinode, imageBase, if_neg (by omega), if_pos hlt]
    exact Dinode.load_fill _
  rw [hbase] at hstep
  exact hstep

lemma image_data {r : ℕ} (hr : r < SPAN) :
    image nodes (imageStart nodes k + r) = imageData nodes k r := by
  have hstart := imageSb_bmapstart nodes.length
  have hle : (imageSb nodes.length).dataStart ≤ imageStart nodes k := Nat.le_add_right ..
  have hsub : imageStart nodes k + r - (imageSb nodes.length).dataStart = r + SPAN * k := by
    unfold imageStart
    omega
  rw [image_block (.inr (by omega)), imageBase, if_neg (by omega), if_neg (by omega),
    if_neg (by omega), hsub, Nat.add_mul_div_left _ _ (by decide), Nat.div_eq_of_lt hr,
    Nat.zero_add, Nat.add_mul_mod_self_left, Nat.mod_eq_of_lt hr]

/-- The block at a place, counted from the first block of the file. -/
def Ref.offset : Ref → ℕ
  | .addr j => j
  | .entry j => NDIRECT + 1 + j

lemma Ref.offset_lt (r : Ref) : r.offset < SPAN := by
  have hspan : SPAN = NDIRECT + 1 + NINDIRECT := by decide
  cases r with
  | addr j =>
    have := j.isLt
    show j.val < SPAN
    omega
  | entry j =>
    have := j.isLt
    show NDIRECT + 1 + j.val < SPAN
    omega

/-- Each place of a file has its own block. -/
lemma Ref.offset_inj {r r' : Ref} (h : r.offset = r'.offset) : r = r' := by
  cases r with
  | addr j =>
    cases r' with
    | addr j' => rw [Fin.ext h]
    | entry j' =>
      have h : j.val = NDIRECT + 1 + j'.val := h
      have := j.isLt
      omega
  | entry j =>
    cases r' with
    | addr j' =>
      have h : NDIRECT + 1 + j.val = j'.val := h
      have := j'.isLt
      omega
    | entry j' =>
      have h : NDIRECT + 1 + j.val = NDIRECT + 1 + j'.val := h
      rw [Fin.ext (by omega : j.val = j'.val)]

lemma Ref.exists_offset {o : ℕ} (h : o < SPAN) : ∃ r : Ref, r.offset = o := by
  have hspan : SPAN = NDIRECT + 1 + NINDIRECT := by decide
  by_cases ho : o < NDIRECT + 1
  · exact ⟨.addr ⟨o, ho⟩, rfl⟩
  · exact ⟨.entry ⟨o - (NDIRECT + 1), by omega⟩, Nat.add_sub_cancel' (by omega)⟩

/-- The blocks of a file stand in order, with the indirect block after the direct ones. -/
lemma blockRef_offset {bn : ℕ} (h : bn < MAXFILE) : (blockRef bn).offset ≠ NDIRECT ∧
    (if (blockRef bn).offset < NDIRECT then (blockRef bn).offset
      else (blockRef bn).offset - 1) = bn := by
  by_cases hbn : bn < NDIRECT
  · have hval : (blockRef bn).offset = bn := by
      rw [blockRef, if_pos hbn]
      exact Nat.mod_eq_of_lt (by omega)
    rw [hval, if_pos hbn]
    exact ⟨hbn.ne, rfl⟩
  · have hval : (blockRef bn).offset = NDIRECT + 1 + (bn - NDIRECT) := by
      rw [blockRef, if_neg hbn]
      refine congrArg (NDIRECT + 1 + ·) (Nat.mod_eq_of_lt ?_)
      have : MAXFILE = NDIRECT + NINDIRECT := rfl
      omega
    rw [hval, if_neg (by omega)]
    omega

section Files

variable (hlen : nodes.length ≤ 1000) (hk : k < nodes.length)
include hlen hk

lemma imageStart_lt {r : ℕ} (hr : r < SPAN) :
    imageStart nodes k + r < (imageSb nodes.length).size ∧ imageStart nodes k + r < 2 ^ 32 := by
  have hstart := imageSb_dataStart nodes.length
  have hsize : (imageSb nodes.length).size =
      34 + (nodes.length + 2) / IPB + nodes.length + 269 * nodes.length := rfl
  have hr : r < 269 := hr
  have hbase : imageStart nodes k = (imageSb nodes.length).dataStart + 269 * k := rfl
  have hle : (nodes.length + 2) / IPB ≤ nodes.length + 2 := Nat.div_le_self ..
  omega

lemma imageInode_at (r : Ref) :
    (imageInode nodes k).at (image nodes) r = imageStart nodes k + r.offset := by
  have haddr : ∀ j : Fin (NDIRECT + 1), ((imageInode nodes k).addrs j).toNat =
      imageStart nodes k + j := fun j =>
    (BitVec.toNat_ofNat ..).trans
      (Nat.mod_eq_of_lt (imageStart_lt hlen hk (j.isLt.trans (by decide))).2)
  cases r with
  | addr j => exact haddr j
  | entry j =>
    have hpos : 0 < imageStart nodes k := by
      have hstart := imageSb_bmapstart nodes.length
      unfold imageStart
      omega
    have hne : (imageInode nodes k).addrs (Fin.last NDIRECT) ≠ 0 := by
      intro h0
      have hlast := haddr (Fin.last NDIRECT)
      rw [h0] at hlast
      simp at hlast
      omega
    have hdata : image nodes (imageStart nodes k + (Fin.last NDIRECT).val) = _ :=
      image_data (r := NDIRECT) (by decide)
    have hword := Bytes.ld_stWords (b := Bytes.fill BSIZE 0) (f := fun j => imageStart nodes k +
      (NDIRECT + 1 + j)) j.isLt (show 0 + 4 * NINDIRECT ≤ BSIZE by decide)
    rw [Nat.zero_add] at hword
    rw [Dinode.at_entry hne, haddr, hdata, imageData, if_pos rfl, entry, hword]
    exact Nat.mod_eq_of_lt (imageStart_lt hlen hk (Ref.offset_lt (.entry j))).2

/-- An inode of the image stands for its file. -/
lemma imageInode_node (hdata : (fileAt nodes k).data.length ≤ MAXFILE * BSIZE) :
    (imageInode nodes k).node (image nodes) = fileAt nodes k := by
  have hmax : MAXFILE * BSIZE = 274432 := by decide
  have hsize : (imageInode nodes k).size.toNat = (fileAt nodes k).data.length := by
    show (BitVec.ofNat 32 _).toNat = _
    rw [BitVec.toNat_ofNat, Nat.mod_eq_of_lt (by omega)]
  refine Node.ext rfl rfl rfl rfl (ext_getD ?_ fun o ho => ?_)
  · rw [Dinode.length_node_data, hsize]
  · rw [Dinode.length_node_data] at ho
    rw [Dinode.getD_node_data _ _ ho, fileByte, imageInode_at hlen hk, image_data (Ref.offset_lt _),
      imageData]
    have hbn : o / BSIZE < MAXFILE := Nat.div_lt_of_lt_mul (by rw [Nat.mul_comm]; omega)
    have hmod : o % BSIZE < BSIZE := Nat.mod_lt _ (by decide)
    have hget : ∀ f : Block, f.get (o % BSIZE) = f ⟨o % BSIZE, hmod⟩ := fun f => dif_pos hmod
    have hoff : (blockRef (o / BSIZE)).offset ≠ NDIRECT ∧
        (if (blockRef (o / BSIZE)).offset < NDIRECT then (blockRef (o / BSIZE)).offset
          else (blockRef (o / BSIZE)).offset - 1) = o / BSIZE := blockRef_offset hbn
    rw [if_neg hoff.1, hget, hoff.2, Nat.mul_comm, Nat.div_add_mod]

end Files

/-! ## What the kernel makes of it -/

/-- Files of which there can be an image. -/
structure Drawable (nodes : List Node) : Prop where
  pos : 0 < nodes.length
  le : nodes.length ≤ 1000
  type : ∀ n ∈ nodes, n.type ≠ 0
  nlink : ∀ n ∈ nodes, n.nlink ≠ 0
  data : ∀ n ∈ nodes, n.data.length ≤ MAXFILE * BSIZE
  dirs : ∀ n ∈ nodes, n.type = T_DIR → n.Proper (imageSb nodes.length)

lemma fileAt_mem (hk : k < nodes.length) : fileAt nodes k ∈ nodes :=
  fileAt_eq hk ▸ List.getElem_mem hk

lemma image_readsb (hlen : nodes.length ≤ 1000) : readsb (image nodes) = imageSb nodes.length := by
  have hblock : image nodes 1 = imageBase nodes 1 := image_block (.inl (by decide))
  refine readsb_stWords (b := Bytes.fill BSIZE 0) (by rw [hblock, imageBase, if_pos rfl]) ?_
  have hle : (nodes.length + 2) / IPB ≤ nodes.length + 2 := Nat.div_le_self ..
  have hspan : SPAN = 269 := by decide
  have hmagic : FSMAGIC < 2 ^ 32 := by decide
  simp only [imageSb, List.forall_mem_cons, hspan]
  generalize (nodes.length + 2) / IPB = q at *
  refine ⟨hmagic, ?_, ?_, ?_, ?_, ?_, ?_, ?_, by simp⟩
  all_goals omega

lemma image_dinode_succ (hk : k < nodes.length) :
    dinode (imageSb nodes.length) (image nodes) (k + 1) = imageInode nodes k := by
  rw [image_dinode (by omega), if_pos (by omega), Nat.add_sub_cancel]

lemma image_view_zero : view (imageSb nodes.length) (image nodes) 0 = none := by
  rw [view_eq_none]
  intro hlt
  rw [image_dinode hlt, if_neg (by omega)]
  rfl

lemma image_cell_eq_zero {i : ℕ} (hi : ∀ k < nodes.length, i ≠ k + 1) (r : Ref) :
    cell (imageSb nodes.length) (image nodes) (dinode (imageSb nodes.length) (image nodes))
      (i, r) = 0 := by
  unfold cell
  by_cases hlt : i < nodes.length + 2
  · dsimp only
    rw [image_dinode hlt, if_neg (c := 1 ≤ i ∧ i ≤ nodes.length), if_neg]
    · exact fun hc => hc.2 rfl
    · intro hc
      exact hi (i - 1) (by omega) (by omega)
  · exact if_neg fun hc => hlt hc.1

lemma exists_of_image_cell {x : ℕ × Ref} (hx : cell (imageSb nodes.length) (image nodes)
    (dinode (imageSb nodes.length) (image nodes)) x ≠ 0) :
    ∃ k < nodes.length, x.1 = k + 1 := by
  by_contra hnone
  push Not at hnone
  exact hx (image_cell_eq_zero hnone x.2)

namespace Drawable

variable (h : Drawable nodes)
include h

/-- The image holds the files it was drawn from. -/
lemma view_succ (k : ℕ) : view (imageSb nodes.length) (image nodes) (k + 1) = nodes[k]? := by
  by_cases hk : k < nodes.length
  · rw [List.getElem?_eq_getElem hk, view_eq_some, image_dinode_succ hk, ← fileAt_eq hk]
    exact ⟨show k + 1 < nodes.length + 2 by omega, h.type _ (fileAt_mem hk),
      imageInode_node h.le hk (h.data _ (fileAt_mem hk))⟩
  · rw [List.getElem?_eq_none (Nat.le_of_not_lt hk), view_eq_none]
    intro hlt
    rw [image_dinode hlt, if_neg (by omega)]
    rfl

lemma exists_of_view {i : ℕ} {n : Node}
    (hn : view (imageSb nodes.length) (image nodes) i = some n) : n ∈ nodes := by
  cases i with
  | zero =>
    rw [image_view_zero] at hn
    cases hn
  | succ k =>
    rw [h.view_succ] at hn
    exact List.mem_of_getElem? hn

lemma cell_succ (hk : k < nodes.length) (r : Ref) :
    cell (imageSb nodes.length) (image nodes) (dinode (imageSb nodes.length) (image nodes))
      (k + 1, r) = imageStart nodes k + r.offset := by
  unfold cell
  dsimp only
  rw [image_dinode_succ hk, if_pos ⟨show k + 1 < nodes.length + 2 by omega, h.type _
    (fileAt_mem hk)⟩,
    imageInode_at h.le hk]

lemma marked_eq {b : ℕ} (hb : b < (imageSb nodes.length).size) :
    marked (imageSb nodes.length) (image nodes) b = true := by
  have hwf := imageSb_wf h.pos h.le
  have hlt := hwf.bmap_lt b hb
  have hge := (imageSb nodes.length).bmapstart_le_bblock b
  have hstart := imageSb_bmapstart nodes.length
  have hmod : b % BPB / 8 < BSIZE := by
    have := Nat.mod_lt b (show 0 < BPB by decide)
    unfold BPB BSIZE at *
    omega
  rw [marked, image_block (.inr hge), imageBase, if_neg (by omega), if_neg (by omega), if_pos hlt,
    Bytes.testBit, Bytes.get_fill hmod]
  have hlow := Nat.mod_lt (b % BPB) (show 0 < 8 by decide)
  generalize b % BPB % 8 = j at hlow
  interval_cases j <;> rfl

/-- The image is sound. -/
lemma sound : Sound (imageSb nodes.length) (image nodes)
    (dinode (imageSb nodes.length) (image nodes)) := by
  have hstart := imageSb_bmapstart nodes.length
  have hsize : (imageSb nodes.length).size = (imageSb nodes.length).dataStart +
      SPAN * nodes.length := by
    rw [imageSb_dataStart]
    rfl
  refine ⟨⟨fun h0 => ?_, fun x hx => ?_, fun x y hx hxy => ?_, fun b hb => ?_⟩, fun b hb => ?_,
    fun i hi ht => ?_, fun i hi ht bn hbn => ?_⟩
  · have h0 : (imageSb nodes.length).dataStart ≤ 0 := h0.1
    omega
  · obtain ⟨k, hk, hxk⟩ := exists_of_image_cell hx
    obtain ⟨i, r⟩ := x
    obtain rfl : i = k + 1 := hxk
    rw [h.cell_succ hk]
    refine ⟨?_, (imageStart_lt h.le hk r.offset_lt).1⟩
    unfold imageStart
    omega
  · obtain ⟨k, hk, hxk⟩ := exists_of_image_cell hx
    obtain ⟨k', hk', hyk⟩ := exists_of_image_cell (hxy ▸ hx)
    obtain ⟨i, r⟩ := x
    obtain ⟨i', r'⟩ := y
    obtain rfl : i = k + 1 := hxk
    obtain rfl : i' = k' + 1 := hyk
    rw [h.cell_succ hk, h.cell_succ hk'] at hxy
    unfold imageStart at hxy
    have hr := r.offset_lt
    have hr' := r'.offset_lt
    obtain rfl : k = k' := by
      have hdiv : (r.offset + SPAN * k) / SPAN = (r'.offset + SPAN * k') / SPAN := by
        congr 1
        omega
      rwa [Nat.add_mul_div_left _ _ (by decide), Nat.add_mul_div_left _ _ (by decide),
        Nat.div_eq_of_lt hr, Nat.div_eq_of_lt hr', Nat.zero_add, Nat.zero_add] at hdiv
    rw [Ref.offset_inj (show r.offset = r'.offset by omega)]
  · refine iff_of_true (h.marked_eq hb.2) ?_
    have hb₁ : (imageSb nodes.length).dataStart ≤ b := hb.1
    have hb₂ : b < (imageSb nodes.length).size := hb.2
    obtain ⟨r, hr⟩ := Ref.exists_offset (Nat.mod_lt (b - (imageSb nodes.length).dataStart)
      (show 0 < SPAN by decide))
    have hk : (b - (imageSb nodes.length).dataStart) / SPAN < nodes.length :=
      Nat.div_lt_of_lt_mul (by omega)
    refine ⟨(_ + 1, r), (h.cell_succ hk r).trans ?_⟩
    rw [hr, imageStart, Nat.add_assoc, Nat.div_add_mod]
    omega
  · exact h.marked_eq (by omega)
  all_goals
    obtain ⟨k, hk, rfl⟩ : ∃ k < nodes.length, i = k + 1 := by
      by_contra hnone
      push Not at hnone
      rw [image_dinode hi, if_neg fun hc => hnone (i - 1) (by omega) (by omega)] at ht
      exact ht rfl
  · have hnode := imageInode_node h.le hk (h.data _ (fileAt_mem hk))
    have hle := h.data _ (fileAt_mem hk)
    rw [image_dinode_succ hk, ← Dinode.length_node_data _ (image nodes), hnode]
    exact hle
  · rw [h.cell_succ hk]
    unfold imageStart
    omega

/-- The kernel can be booted from the image. -/
lemma formatted : Formatted (image nodes) := by
  have hsb := image_readsb h.le
  refine ⟨?_, ?_, ?_, ?_, ?_⟩
  all_goals rw [hsb]
  · exact imageSb_wf h.pos h.le
  · exact h.sound
  · exact fun i n hn => h.dirs n (h.exists_of_view hn)
  · rw [show ROOTINO = 0 + 1 from rfl, h.view_succ, List.getElem?_eq_getElem h.pos]
    exact Option.some_ne_none _
  · exact fun i n hn => h.nlink n (h.exists_of_view hn)

end Drawable

/-! ## Directories with given entries -/

section Entries

variable {nlink : BitVec 16} {es : List Dirent} {sb : Superblock}

section Named

variable (hname : ∀ de ∈ es, de.name.length = DIRSIZ)

include hname

lemma proper_ofEntries (hinum : ∀ de ∈ es, de.inum.toNat < sb.ninodes) :
    (Node.ofEntries nlink es).Proper sb := by
  refine ⟨⟨_, Node.length_ofEntries hname⟩, fun k hk => ?_⟩
  rw [Node.slots_ofEntries hname] at hk
  rw [Node.entry_ofEntries hname hk]
  exact hinum _ (List.getElem_mem hk)

lemma find_ofEntries (p : Dirent → Bool) : (Node.ofEntries nlink es).find p 0 = es.findIdx? p := by
  unfold Node.find
  rw [Node.slots_ofEntries hname, List.drop_zero]
  cases hfind : es.findIdx? p with
  | none =>
    rw [List.find?_eq_none]
    intro j hj
    rw [List.mem_range] at hj
    rw [Node.entry_ofEntries hname hj]
    exact Bool.not_eq_true _ ▸ List.findIdx?_eq_none_iff.1 hfind _ (List.getElem_mem hj)
  | some j =>
    obtain ⟨hj, hmatch, hfirst⟩ := List.findIdx?_eq_some_iff_getElem.1 hfind
    rw [List.find?_range_eq_some]
    refine ⟨?_, List.mem_range.2 hj, fun i hi => ?_⟩
    · rw [Node.entry_ofEntries hname hj]
      exact hmatch
    · rw [Node.entry_ofEntries hname (hi.trans hj)]
      exact congrArg not (Bool.eq_false_iff.2 (hfirst i hi))

lemma lookup_ofEntries (name : Name) :
    (Node.ofEntries nlink es).lookup name =
      es.findIdx? fun de => decide (de.inum ≠ 0 ∧ namecmp name de.name) :=
  find_ofEntries hname _

end Named

/-- If the entries of all directories are numbers of files, every name leads to a file. -/
lemma Drawable.closed (h : Drawable nodes)
    (hdirs : ∀ n ∈ nodes, n.type = T_DIR → ∃ nlink es, n = .ofEntries nlink es ∧
      ∀ de ∈ es, de.name.length = DIRSIZ ∧ de.inum.toNat ≤ nodes.length) :
    Closed (view (imageSb nodes.length) (image nodes)) := by
  intro i n k hn hd hk hne
  obtain ⟨nlink, es, rfl, hes⟩ := hdirs n (h.exists_of_view hn) hd
  have hname : ∀ de ∈ es, de.name.length = DIRSIZ := fun de hde => (hes de hde).1
  rw [Node.slots_ofEntries hname] at hk
  rw [Node.entry_ofEntries hname hk] at hne ⊢
  have hle := (hes _ (List.getElem_mem hk)).2
  obtain ⟨j, hj⟩ : ∃ j, es[k].inum.toNat = j + 1 :=
    Nat.exists_eq_succ_of_ne_zero fun h0 => hne (BitVec.eq_of_toNat_eq h0)
  rw [hj, h.view_succ, List.getElem?_eq_getElem (by omega)]
  exact Option.some_ne_none _

end Entries

/-! ## A small image -/

/-- The entries of its root directory: the last one is not in use. -/
def sampleEntries : List Dirent :=
  [⟨1, strncpy dot⟩, ⟨1, strncpy dotdot⟩, ⟨2, strncpy [97]⟩, ⟨0, strncpy []⟩]

/-- The root directory and the file `/a`. -/
def sample : List Node := [.ofEntries 1 sampleEntries, ⟨T_FILE, 0, 0, 1, [104, 105]⟩]

lemma sampleEntries_ok : ∀ de ∈ sampleEntries, de.name.length = DIRSIZ ∧ de.inum.toNat ≤ 2 := by
  decide

lemma sample_drawable : Drawable sample where
  pos := by decide
  le := by decide
  type := by decide
  nlink := by decide
  data := by decide
  dirs n hn hd := by
    obtain rfl | rfl := List.mem_pair.1 hn
    · exact proper_ofEntries (fun de h => (sampleEntries_ok de h).1) fun de h =>
        (sampleEntries_ok de h).2.trans_lt (by decide)
    · exact absurd hd (by decide)

lemma sample_closed : Closed (view (imageSb 2) (image sample)) := by
  refine sample_drawable.closed fun n hn hd => ?_
  obtain rfl | rfl := List.mem_pair.1 hn
  · exact ⟨1, sampleEntries, rfl, sampleEntries_ok⟩
  · exact absurd hd (by decide)

/-- The system booted from it. -/
def sampleBoot : State := boot (image sample)

lemma sampleBoot_sb : sampleBoot.sb = imageSb 2 := image_readsb sample_drawable.le

lemma sampleBoot_settled : Settled sampleBoot := sample_drawable.formatted.settled

/-- A path as it is in user memory. -/
def userPath (path : List UInt8) (j : ℕ) : Option UInt8 := (path ++ [0])[j]?

/-- The path `/a`. -/
def samplePath : List UInt8 := [slash, 97]

end Xv6.Fs
