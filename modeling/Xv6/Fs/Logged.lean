import Mathlib.Data.Finset.Card
import Xv6.Fs.Content
import Xv6.Fs.Kernel
import Xv6.Lib.Triple

/-!
# The blocks that a write logs

`filewrite` cuts a write into transactions of at most `maxWrite` bytes, and each of them has to
fit into `MAXOPBLOCKS` blocks of the log. Run on a disk that notes which blocks are passed to
`log_write`, `writei` tells what a transaction logs.

A transaction touches at most four blocks of the file. Each may be new, which takes a bitmap
block as well, and so may the indirect block. The bound is met since four blocks are touched only
if the first one is written from its middle on, and that block is there already.
-/

namespace Xv6.Fs

open Xv6.Lib
open Xv6.Disk (Block)
open Xv6.Process (Stop)
open Function (update)

/-! ## A disk that notes what is logged -/

/-- A disk, and the blocks passed to `log_write`. -/
structure Recorder where
  disk : Disk
  logged : Finset ℕ

instance : Store Recorder where
  blocks := Recorder.disk
  modify r b a := { r with disk := update r.disk b a }
  log r b := { r with logged := insert b r.logged }

/-- The blocks that a transaction logs. -/
def Tx.logged (tx : Tx) : Finset ℕ :=
  match writei tx.sb tx.inum tx.ip tx.src tx.off tx.n (⟨tx.disk, ∅⟩ : Recorder) with
  | .ok r => r.2.2.logged
  | .error _ => ∅

/-- From `r` to `r'` no blocks are logged but `u`. -/
def Recorder.Logs (r r' : Recorder) (u : Finset ℕ) : Prop := r'.logged ⊆ u ∪ r.logged

section Logs

variable {r r' r'' : Recorder} {u v : Finset ℕ}

lemma Recorder.Logs.refl (r : Recorder) (u : Finset ℕ) : r.Logs r u := Finset.subset_union_right

lemma Recorder.Logs.mono (h : r.Logs r' u) (hu : u ⊆ v) : r.Logs r' v :=
  Finset.Subset.trans h (Finset.union_subset_union_left hu)

lemma Recorder.Logs.trans (h : r.Logs r' u) (h' : r'.Logs r'' v) : r.Logs r'' (u ∪ v) := by
  intro b hb
  have hb' := h' hb
  rw [Finset.mem_union] at hb'
  rcases hb' with hv | hr'
  · simp [hv]
  · have hr := h hr'
    simp only [Finset.mem_union] at hr ⊢
    tauto

lemma Recorder.logs_log (r : Recorder) (b : ℕ) : r.Logs (Store.log r b) {b} :=
  (Finset.insert_eq b r.logged).subset

lemma Recorder.logs_put (r : Recorder) (b : ℕ) (a : Block) : r.Logs (Store.put r b a) {b} :=
  (Finset.insert_eq b r.logged).subset

end Logs

/-! ## How many blocks are logged -/

section Count

variable {sb : Superblock} {d : Disk} {r r' : Recorder} {ip ip' : Dinode} {t : Finset ℕ}

/-- The number of the indirect block. -/
def Dinode.ind (ip : Dinode) : ℕ := (ip.addrs (Fin.last NDIRECT)).toNat

lemma Dinode.ind_ne_zero (h : ip.addrs (Fin.last NDIRECT) ≠ 0) : ip.ind ≠ 0 := fun h0 =>
  h (BitVec.eq_of_toNat_eq h0)

/-- The blocks `t` are all that is logged for the indirect block when the inode goes from `ip` to
`ip'`: the block, and its bitmap block if it is new. -/
def Indirect (ip ip' : Dinode) (t : Finset ℕ) : Prop :=
  (ip.ind ≠ 0 ∧ ip'.ind = ip.ind ∧ t ⊆ {ip.ind}) ∨ (ip.ind = 0 ∧ ip'.ind = 0 ∧ t = ∅) ∨
    (ip.ind = 0 ∧ ip'.ind ≠ 0 ∧ ∃ b, t ⊆ {b, ip'.ind})

lemma Indirect.refl (ip : Dinode) : Indirect ip ip ∅ := by
  by_cases h : ip.ind = 0
  · exact .inr (.inl ⟨h, h, rfl⟩)
  · exact .inl ⟨h, rfl, Finset.empty_subset _⟩

lemma Indirect.trans {ip'' : Dinode} {t' : Finset ℕ} (h : Indirect ip ip' t)
    (h' : Indirect ip' ip'' t') : Indirect ip ip'' (t ∪ t') := by
  rcases h with ⟨h0, heq, ht⟩ | ⟨h0, h0', rfl⟩ | ⟨h0, hne, b, ht⟩
  · rcases h' with ⟨-, heq', ht'⟩ | ⟨hz, -⟩ | ⟨hz, -⟩
    · rw [heq] at heq' ht'
      exact .inl ⟨h0, heq', Finset.union_subset ht ht'⟩
    · exact absurd (heq.symm.trans hz) h0
    · exact absurd (heq.symm.trans hz) h0
  · rw [Finset.empty_union]
    rcases h' with ⟨hne, -⟩ | ⟨-, hz, rfl⟩ | ⟨-, hne, b, ht'⟩
    · exact absurd h0' hne
    · exact .inr (.inl ⟨h0, hz, rfl⟩)
    · exact .inr (.inr ⟨h0, hne, b, ht'⟩)
  · rcases h' with ⟨-, heq', ht'⟩ | ⟨hz, -⟩ | ⟨hz, -⟩
    · refine .inr (.inr ⟨h0, by rwa [heq'], b, ?_⟩)
      rw [heq']
      exact Finset.union_subset ht (ht'.trans (by simp))
    · exact absurd hz hne
    · exact absurd hz hne

/-- At most two blocks are logged for the indirect block. -/
lemma Indirect.card_le (h : Indirect ip ip' t) : t.card ≤ 2 := by
  rcases h with ⟨-, -, ht⟩ | ⟨-, -, rfl⟩ | ⟨-, -, b, ht⟩
  · exact (Finset.card_le_card ht).trans (by simp)
  · simp
  · exact (Finset.card_le_card ht).trans Finset.card_le_two

/-- `balloc` logs a bitmap block and the block it returns. -/
lemma balloc_logs (sb : Superblock) (r : Recorder) :
    (∃ bit, r.Logs (balloc sb r).2 {bit, (balloc sb r).1}) ∧
      ((balloc sb r).1 = 0 ∨ (balloc sb r).1 < sb.size) := by
  unfold balloc
  split
  case h_1 b hb =>
    have hmem := List.mem_of_find?_eq_some hb
    exact ⟨⟨sb.bblock b, (r.logs_put ..).trans (Recorder.logs_put ..)⟩,
      .inr (List.mem_range.1 hmem)⟩
  case h_2 => exact ⟨⟨0, .refl ..⟩, .inl rfl⟩

/-- What `bmap` logs: a bitmap block and the block it returns, besides the indirect block. -/
def Maplog (r : Recorder) (ip : Dinode) (x : ℕ × Dinode × Recorder) : Prop :=
  ∃ bit t, r.Logs x.2.2 ({bit, x.1} ∪ t) ∧ Indirect ip x.2.1 t

lemma Indirect.of_ind_eq (h : ip'.ind = ip.ind) : Indirect ip ip' ∅ := by
  by_cases h0 : ip.ind = 0
  · exact .inr (.inl ⟨h0, h.trans h0, rfl⟩)
  · exact .inl ⟨h0, h, Finset.empty_subset _⟩

lemma Maplog.of_logs {b addr : ℕ} (hlogs : r.Logs r' {b, addr}) (h : ip'.ind = ip.ind) :
    Maplog r ip (addr, ip', r') :=
  ⟨b, ∅, hlogs.mono Finset.subset_union_left, .of_ind_eq h⟩

/-- The number of a direct block. -/
lemma bmapAddr_logs_direct {k : Fin (NDIRECT + 1)} (hk : k ≠ Fin.last NDIRECT) :
    Maplog r ip (bmapAddr sb ip k r) := by
  obtain ⟨⟨bit, hlogs⟩, -⟩ := balloc_logs sb r
  unfold bmapAddr
  split
  case isFalse => exact .of_logs (b := 0) (.refl ..) rfl
  case isTrue =>
  dsimp only
  split
  case isTrue haddr =>
    rw [haddr] at hlogs
    exact .of_logs hlogs rfl
  case isFalse =>
    refine .of_logs hlogs ?_
    rw [Dinode.ind, ip.setAddr_addrs_of_ne hk.symm, Dinode.ind]

/-- The number of the indirect block. -/
lemma bmapAddr_logs_indirect (hsize : sb.size < 2 ^ 32) {x : ℕ × Dinode × Recorder}
    (hx : bmapAddr sb ip (Fin.last NDIRECT) r = x) :
    (x.1 = 0 ∧ Maplog r ip x) ∨
      (x.1 ≠ 0 ∧ x.2.1.ind = x.1 ∧ ∃ t, r.Logs x.2.2 t ∧ Indirect ip x.2.1 t) := by
  subst hx
  obtain ⟨⟨bit, hlogs⟩, hlt⟩ := balloc_logs sb r
  unfold bmapAddr
  split
  case isFalse hne => exact .inr ⟨Dinode.ind_ne_zero hne, rfl, ∅, .refl .., .refl ip⟩
  case isTrue h0 =>
  dsimp only
  split
  case isTrue haddr =>
    rw [haddr] at hlogs
    exact .inl ⟨rfl, .of_logs hlogs rfl⟩
  case isFalse haddr =>
    have hind : (ip.setAddr (Fin.last NDIRECT) (balloc sb r).1).ind = (balloc sb r).1 := by
      rw [Dinode.ind, ip.setAddr_addrs, BitVec.toNat_ofNat, Nat.mod_eq_of_lt]
      exact (hlt.resolve_left haddr).trans hsize
    refine .inr ⟨haddr, hind, _, hlogs, .inr (.inr ⟨?_, by rwa [hind], bit, ?_⟩)⟩
    · rw [Dinode.ind, h0]
      rfl
    · rw [hind]

lemma bmapEntry_logs (sb : Superblock) (r : Recorder) (ind j : ℕ) :
    ∃ bit, r.Logs (bmapEntry sb ind j r).2 ({bit, (bmapEntry sb ind j r).1} ∪ {ind}) := by
  obtain ⟨⟨bit, hlogs⟩, -⟩ := balloc_logs sb r
  refine ⟨bit, ?_⟩
  unfold bmapEntry
  split
  case isFalse => exact .refl ..
  case isTrue =>
  dsimp only
  split
  case isTrue haddr =>
    rw [haddr] at hlogs
    exact hlogs.mono Finset.subset_union_left
  case isFalse => exact hlogs.trans (Recorder.logs_put ..)

/-- `bmap` logs a bitmap block, the new block, and those for the indirect block. -/
lemma bmap_logs (hsize : sb.size < 2 ^ 32) (ip : Dinode) {bn : ℕ} (hbn : bn < MAXFILE)
    (r : Recorder) : Post (fun _ => False) (Maplog r ip) (bmap sb ip bn r) := by
  unfold bmap
  by_cases hdir : bn < NDIRECT
  · rw [if_pos hdir, Post.pure_iff]
    refine bmapAddr_logs_direct fun hlast => ?_
    have hval := congrArg Fin.val hlast
    rw [Fin.val_ofNat, Nat.mod_eq_of_lt (by omega), Fin.val_last] at hval
    omega
  have hlt : bn - NDIRECT < NINDIRECT := by
    unfold MAXFILE at hbn
    omega
  rw [if_neg hdir, if_pos hlt]
  generalize hx : bmapAddr sb ip (Fin.last NDIRECT) r = x
  have hspec := bmapAddr_logs_indirect hsize hx
  obtain ⟨ind, ip', r'⟩ := x
  dsimp only at hspec ⊢
  rcases hspec with ⟨rfl, hmap⟩ | ⟨hne, hind, t, hlogs, ht⟩
  · rw [if_pos rfl, Post.pure_iff]
    exact hmap
  obtain ⟨bit, hlogs'⟩ := bmapEntry_logs sb r' ind (bn - NDIRECT)
  rw [if_neg hne, Post.pure_iff]
  refine ⟨bit, t ∪ {ind}, (hlogs.trans hlogs').mono ?_, ht.trans (.inl ⟨by rwa [hind], rfl, ?_⟩)⟩
  · rw [Finset.union_left_comm]
  · rw [hind]

/-! ## The loop -/

/-- The number of blocks that hold the `n` bytes from offset `off` on. -/
def spanned (off n : ℕ) : ℕ := if n = 0 then 0 else (off % BSIZE + n + (BSIZE - 1)) / BSIZE

/-- A round of the loop of `writei` takes one of the blocks. -/
lemma spanned_step {off n m : ℕ} (hn : 0 < n) (hm : m = min n (BSIZE - off % BSIZE)) :
    1 + spanned (off + m) (n - m) ≤ spanned off n := by
  have hcases : m = n ∧ n ≤ BSIZE - off % BSIZE ∨ m = BSIZE - off % BSIZE ∧ m ≤ n := by omega
  unfold spanned BSIZE at *
  rw [if_neg (show ¬n = 0 by omega)]
  rcases hcases with ⟨rfl, hle⟩ | ⟨hm', hle⟩
  · rw [Nat.sub_self, if_pos rfl]
    omega
  · split
    · omega
    · have hmod : (off + m) % 1024 = 0 := by omega
      omega

/-- What the loop of `writei` logs: two blocks for each block of the file, besides the indirect
block. -/
lemma writeLoop_logs (hsize : sb.size < 2 ^ 32) (src : ℕ → Option UInt8) (n fuel : ℕ) :
    ∀ tot off ip (r : Recorder), off + (n - tot) ≤ MAXFILE * BSIZE →
    Post (fun _ => False) (fun x => ∃ u t : Finset ℕ, r.Logs x.2.2 (u ∪ t) ∧
      u.card ≤ 2 * spanned off (n - tot) ∧ Indirect ip x.2.1 t)
      (writeLoop sb src n fuel tot off ip r) := by
  induction fuel with
  | zero => exact fun _ _ ip _ _ => ⟨∅, ∅, .refl .., Nat.zero_le _, .refl ip⟩
  | succ fuel ih =>
    intro tot off ip r hoff
    unfold writeLoop
    refine Post.ite (fun htot => ?_) fun _ => ?_
    case refine_2 => exact ⟨∅, ∅, .refl .., Nat.zero_le _, .refl ip⟩
    have hbn : off / BSIZE < MAXFILE := Nat.div_lt_of_lt_mul (by rw [Nat.mul_comm]; omega)
    refine Post.bind ((bmap_logs hsize ip hbn r).mono ?_)
    rintro ⟨addr, ip', r'⟩ ⟨bit, t, hlogs, hind⟩
    dsimp only at hlogs hind ⊢
    generalize hm : min (n - tot) (BSIZE - off % BSIZE) = m
    have hspan := spanned_step (show 0 < n - tot by omega) hm.symm
    have htwo : ({bit, addr} : Finset ℕ).card ≤ 2 := Finset.card_le_two
    refine Post.ite (fun _ => ⟨{bit, addr}, t, hlogs, by omega, hind⟩) fun _ =>
      Post.ite (fun _ => ⟨{bit, addr}, t, hlogs, by omega, hind⟩) fun _ => ?_
    refine (ih (tot + m) (off + m) ip' _ (by omega)).mono ?_
    rintro x ⟨u', t', hlogs', hcard, hind'⟩
    refine ⟨{bit, addr} ∪ u', t ∪ t', ?_, ?_, hind.trans hind'⟩
    · refine ((hlogs.trans (Recorder.logs_log ..)).trans hlogs').mono fun x hx => ?_
      simp only [Finset.mem_union, Finset.mem_insert, Finset.mem_singleton] at hx ⊢
      tauto
    · have hunion := Finset.card_union_le {bit, addr} u'
      rw [show n - (tot + m) = n - tot - m by omega] at hcard
      omega

/-- The inode has no holes. -/
def HoleFree (ip : Dinode) (d : Disk) : Prop :=
  ∀ bn, bn * BSIZE < ip.size.toNat → ip.at d (blockRef bn) ≠ 0

lemma Recorder.Logs.card_le {u : Finset ℕ} (h : r.Logs r' (u ∪ t)) (hind : Indirect ip ip' t) :
    r'.logged.card ≤ u.card + 2 + r.logged.card := by
  have hle := Finset.card_le_card h
  have hunion := Finset.card_union_le (u ∪ t) r.logged
  have hunion' := Finset.card_union_le u t
  have htwo := hind.card_le
  omega

/-- The loop, if the first block is there. -/
lemma writeLoop_logs_mapped (hsize : sb.size < 2 ^ 32) (src : ℕ → Option UInt8) {n off fuel : ℕ}
    (hoff : off + n ≤ MAXFILE * BSIZE) (hn : n ≤ maxWrite)
    (hmap : ip.at d (blockRef (off / BSIZE)) ≠ 0) :
    Post (fun _ => False) (fun x => x.2.2.logged.card ≤ 9)
      (writeLoop sb src n fuel 0 off ip (⟨d, ∅⟩ : Recorder)) := by
  cases fuel with
  | zero => exact Nat.zero_le _
  | succ fuel =>
    unfold writeLoop
    refine Post.ite (fun hpos => ?_) fun _ => Nat.zero_le _
    have hbn : off / BSIZE < MAXFILE := Nat.div_lt_of_lt_mul (by rw [Nat.mul_comm]; omega)
    refine Post.bind_of_eq (bmap_of_mapped (d := (⟨d, ∅⟩ : Recorder)) hbn hmap) ?_
    dsimp only
    generalize hm : min (n - 0) (BSIZE - off % BSIZE) = m
    refine Post.ite (fun _ => Nat.zero_le _) fun _ => Post.ite (fun _ => Nat.zero_le _) fun _ => ?_
    refine (writeLoop_logs hsize src n fuel (0 + m) (off + m) ip _ (by omega)).mono ?_
    rintro x ⟨u, t, hlogs, hcard, hind⟩
    have hspan : spanned (off + m) (n - (0 + m)) ≤ 3 := by
      unfold spanned maxWrite MAXOPBLOCKS BSIZE at *
      split
      · omega
      · have hmod : (off + m) % 1024 = 0 := by omega
        omega
    -- besides the blocks of the rest, one block is logged
    have hle : x.2.2.logged.card ≤ u.card + 2 + 1 := hlogs.card_le hind
    omega

/-- A write of at most `maxWrite` bytes to a file without holes returns, and logs at most
`MAXOPBLOCKS` blocks. -/
lemma writei_logs (hsize : sb.size < 2 ^ 32) (inum : ℕ) (hip : HoleFree ip d)
    (src : ℕ → Option UInt8) {off n : ℕ} (hoff : off < 2 ^ 32) (hn : n ≤ maxWrite) :
    Post (fun _ => False) (fun x => x.2.2.logged.card ≤ MAXOPBLOCKS)
      (writei sb inum ip src off n (⟨d, ∅⟩ : Recorder)) := by
  unfold writei
  refine Post.ite (fun _ => Nat.zero_le _) fun hle => ?_
  refine Post.ite (fun _ => Nat.zero_le _) fun hmax => ?_
  have hroom : off + n ≤ MAXFILE * BSIZE := by
    unfold maxWrite MAXOPBLOCKS BSIZE at *
    omega
  have hloop : Post (fun _ => False) (fun x => x.2.2.logged.card ≤ 9)
      (writeLoop sb src n n 0 off ip (⟨d, ∅⟩ : Recorder)) := by
    by_cases hmid : off % BSIZE = 0
    · refine (writeLoop_logs hsize src n n 0 off ip _ hroom).mono ?_
      rintro x ⟨u, t, hlogs, hcard, hind⟩
      have hspan : spanned off (n - 0) ≤ 3 := by
        unfold spanned maxWrite MAXOPBLOCKS BSIZE at *
        split
        · omega
        · omega
      have hle := hlogs.card_le hind
      rw [Finset.card_empty] at hle
      omega
    · refine writeLoop_logs_mapped hsize src hroom hn (hip _ ?_)
      have hdiv := Nat.div_add_mod off BSIZE
      rw [Nat.mul_comm] at hdiv
      omega
  refine Post.bind (hloop.mono ?_)
  rintro ⟨⟨tot, off'⟩, ip', r'⟩ hnine
  rw [Post.pure_iff]
  have hone := Finset.card_insert_le (sb.iblock inum) r'.logged
  show (insert (sb.iblock inum) r'.logged).card ≤ MAXOPBLOCKS
  unfold MAXOPBLOCKS
  dsimp only at hnine
  omega

end Count

/-! ## Writes return -/

section Return

variable {D : Type} [Store D] {sb : Superblock} {ip : Dinode}

lemma bmap_returns {bn : ℕ} (hbn : bn < MAXFILE) (ip : Dinode) (d : D) :
    Post (fun _ => False) (fun _ => True) (bmap sb ip bn d) := by
  unfold bmap
  refine Post.ite (fun _ => trivial) fun hdir => Post.ite (fun _ => ?_) fun hfar => ?_
  · exact Post.ite (fun _ => trivial) fun _ => trivial
  · unfold MAXFILE at hbn
    omega

lemma writeLoop_returns (src : ℕ → Option UInt8) (n fuel : ℕ) :
    ∀ tot off ip (d : D), off + (n - tot) ≤ MAXFILE * BSIZE →
    Post (fun _ => False) (fun _ => True) (writeLoop sb src n fuel tot off ip d) := by
  induction fuel with
  | zero => exact fun _ _ _ _ _ => trivial
  | succ fuel ih =>
    intro tot off ip d hoff
    unfold writeLoop
    refine Post.ite (fun htot => ?_) fun _ => trivial
    have hbn : off / BSIZE < MAXFILE := Nat.div_lt_of_lt_mul (by rw [Nat.mul_comm]; omega)
    refine Post.bind ((bmap_returns hbn ip d).mono fun x _ => ?_)
    refine Post.ite (fun _ => trivial) fun _ => Post.ite (fun _ => trivial) fun _ => ?_
    exact ih _ _ _ _ (by omega)

/-- On every kind of disk. -/
lemma writei_returns (inum : ℕ) (ip : Dinode) (src : ℕ → Option UInt8) {off n : ℕ}
    (hoff : off < 2 ^ 32) (hn : n ≤ maxWrite) (d : D) :
    ∃ x, writei sb inum ip src off n d = .ok x := by
  have hpost : Post (fun _ => False) (fun _ => True) (writei sb inum ip src off n d) := by
    unfold writei
    refine Post.ite (fun _ => trivial) fun hle => Post.ite (fun _ => trivial) fun hmax => ?_
    have hroom : off + n ≤ MAXFILE * BSIZE := by
      unfold maxWrite MAXOPBLOCKS BSIZE at *
      omega
    exact Post.bind ((writeLoop_returns src n n 0 off ip d hroom).mono fun _ _ => trivial)
  obtain ⟨x, hx, -⟩ := hpost.exists_ok
  exact ⟨x, hx⟩

end Return

/-! ## The transactions of `filewrite` -/

section Keeps

variable {α : Type} {P : Superblock → List Tx → Prop}

/-- `x` keeps what is known of the superblock and of the transactions. -/
abbrev Keeps (P : Superblock → List Tx → Prop) (x : FsM α) : Prop :=
  Triple (fun _ => True) (fun s => P s.sb s.hist) x fun _ s => P s.sb s.hist

lemma Keeps.modifyInode (e : Ino) (g : Inode → Inode) : Keeps P (modifyInode e g) :=
  .modify fun _ hs => hs

lemma Keeps.inode_bind {e : Ino} {x : Inode → FsM α} (h : ∀ ip, Keeps P (x ip)) :
    Keeps P (inode e >>= x) :=
  .of_run fun s hs => (h (s.itable e)).run hs

lemma Keeps.ilock (e : Ino) : Keeps P (ilock e) := by
  refine Keeps.inode_bind fun ip => .ite (fun _ => .throw_bind trivial) fun _ => ?_
  refine .bind (Q := fun _ s => P s.sb s.hist) ?_ fun _ => .read_bind fun s _ => ?_
  · exact Keeps.inode_bind fun ip => .ite (fun _ => .throw_bind trivial) fun _ =>
      Keeps.modifyInode ..
  · refine .ite (fun _ => ?_) fun _ => .skip
    refine (Keeps.modifyInode e _).bind fun _ => ?_
    exact .ite (fun _ => .throw trivial) fun _ => .skip

lemma Keeps.iunlock (e : Ino) : Keeps P (iunlock e) :=
  Keeps.inode_bind fun _ => .ite (fun _ => .throw_bind trivial) fun _ => Keeps.modifyInode ..

lemma Keeps.modifyFile (f : FileNo) (g : File → File) : Keeps P (modifyFile f g) :=
  .modify fun _ hs => hs

lemma Keeps.onInode (e : Ino)
    (g : Superblock → ℕ → Dinode → Disk → Except Stop (α × Dinode × Disk)) :
    Keeps P (onInode e g) := by
  refine .get_bind fun s hs => .lift_bind fun t _ => ?_
  cases g s.sb (s.itable e).inum (s.itable e).din s.disk with
  | error err => trivial
  | ok x => exact Triple.bind (Q := fun _ s => P s.sb s.hist) (.set fun _ _ => hs) fun _ => .skip

end Keeps

/-- The history is that of `past` and then transactions that satisfy `C`. -/
def Added (past : List Tx) (C : Tx → Prop) (hist : List Tx) : Prop :=
  ∃ txs, hist = past ++ txs ∧ ∀ tx ∈ txs, C tx

section Added

variable {past hist : List Tx} {C C' : Tx → Prop} {tx : Tx}

lemma Added.refl (hist : List Tx) (C : Tx → Prop) : Added hist C hist :=
  ⟨[], (List.append_nil hist).symm, by simp⟩

lemma Added.snoc (h : Added past C hist) (htx : C tx) : Added past C (hist ++ [tx]) := by
  obtain ⟨txs, rfl, htxs⟩ := h
  refine ⟨txs ++ [tx], List.append_assoc .., fun x hx => ?_⟩
  rcases List.mem_append.1 hx with hx | hx
  · exact htxs x hx
  · exact List.mem_singleton.1 hx ▸ htx

lemma Added.and (h : Added past C hist) (h' : Added past C' hist) :
    Added past (fun tx => C tx ∧ C' tx) hist := by
  obtain ⟨txs, rfl, htxs⟩ := h
  obtain ⟨txs', heq, htxs'⟩ := h'
  obtain rfl := List.append_cancel_left heq
  exact ⟨txs, rfl, fun tx htx => ⟨htxs tx htx, htxs' tx htx⟩⟩

lemma Added.mono (h : Added past C hist) (hC : ∀ tx, C tx → C' tx) : Added past C' hist := by
  obtain ⟨txs, rfl, htxs⟩ := h
  exact ⟨txs, rfl, fun tx htx => hC tx (htxs tx htx)⟩

end Added

/-- The transaction writes at most `maxWrite` bytes. -/
def Tx.Chunk (sb : Superblock) (tx : Tx) : Prop :=
  tx.sb = sb ∧ tx.off < 2 ^ 32 ∧ tx.n ≤ maxWrite

/-- The superblock is `sb`, and the transactions since `past` write at most `maxWrite` bytes. -/
def Chunked (sb : Superblock) (past : List Tx) (sb' : Superblock) (hist : List Tx) : Prop :=
  sb' = sb ∧ Added past (Tx.Chunk sb) hist

/-- A transaction of a chunk fits into the log. -/
lemma Tx.Chunk.fits {sb : Superblock} {tx : Tx} (h : tx.Chunk sb) (hsize : sb.size < 2 ^ 32)
    (hip : HoleFree tx.ip tx.disk) : tx.logged.card ≤ MAXOPBLOCKS := by
  obtain ⟨rfl, hoff, hn⟩ := h
  obtain ⟨x, hx, hcard⟩ := (writei_logs hsize tx.inum hip tx.src hoff hn).exists_ok
  unfold Tx.logged
  rw [hx]
  exact hcard

section Loop

variable {sb : Superblock} {past : List Tx}

/-- Each round of `filewrite` is one chunk. -/
lemma filewriteLoop_chunks (f : FileNo) (src : ℕ → Option UInt8) (n fuel : ℕ) : ∀ i,
    Keeps (Chunked sb past) (filewriteLoop f src n fuel i) := by
  induction fuel with
  | zero => exact fun _ => .skip
  | succ fuel ih =>
    intro i
    unfold filewriteLoop
    refine .ite (fun _ => ?_) fun _ => .skip
    refine .read_bind fun s _ => ?_
    generalize s.ftable f = ff
    refine (Keeps.ilock ff.ip).bind fun _ => ?_
    have hend : ∀ r : ℤ, Keeps (Chunked sb past) (do
        iunlock ff.ip
        if r ≠ ((min (n - i) maxWrite : ℕ) : ℤ) then return i
        filewriteLoop f src n fuel (i + min (n - i) maxWrite)) := fun r =>
      (Keeps.iunlock ff.ip).bind fun _ => .ite (fun _ => .skip) fun _ => ih _
    refine .bind (Q := fun _ s => Chunked sb past s.sb s.hist) ?_ fun r =>
      .ite (fun _ => (Keeps.modifyFile f _).bind fun _ => hend r) fun _ => hend r
    refine .bind (.modify fun s hs => ?_) fun _ => Keeps.onInode ..
    exact ⟨hs.1, hs.2.snoc ⟨hs.1, ff.off.isLt, Nat.min_le_right ..⟩⟩

lemma filewrite_chunks (f : FileNo) (src : ℕ → Option UInt8) (n : BitVec 32) (ext : ℤ) :
    Keeps (Chunked sb past) (filewrite f src n ext) := by
  refine .read_bind fun s _ => ?_
  generalize s.ftable f = ff
  refine .ite (fun _ => .skip) fun _ => ?_
  cases ff.type with
  | pipe => exact .skip
  | device => exact .skip
  | none => exact .throw trivial
  | inode => exact (filewriteLoop_chunks f src _ _ 0).bind fun _ => .skip

end Loop

end Xv6.Fs
