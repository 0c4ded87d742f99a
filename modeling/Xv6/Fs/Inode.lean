import Xv6.Fs.Layout

/-!
# Blocks and inode contents (`kernel/fs.c`)

The block allocator and the functions that map, read, write and truncate the contents of
one inode. They get the fields `type, …, addrs` of the in-memory inode `*ip` and the disk,
and return both as they leave them.

The disk is anything with blocks. Calls of `log_write` leave no trace on a plain one: a block
that is modified stays in the buffer cache until its transaction commits.
-/

namespace Xv6.Fs

open Xv6.Lib
open Xv6.Disk (Block)
open Xv6.Process (Stop)
open Function (update)

/-- What has blocks that can be modified and logged. -/
class Store (D : Type) where
  blocks : D → Disk
  /-- Assign to `bp->data`. -/
  modify : D → ℕ → Block → D
  /-- `log_write`. -/
  log : D → ℕ → D

instance : Store Disk := ⟨id, update, fun d _ => d⟩

section Code

variable {D : Type} [Store D]

/-- Modify a block and log it. -/
def Store.put (d : D) (b : ℕ) (a : Block) : D := log (modify d b a) b

/-! ## Blocks -/

/-- `bzero`. -/
def bzero (b : ℕ) (d : D) : D := Store.put d b (Bytes.fill BSIZE 0)

/-- `balloc`. The two nested loops visit the blocks in order. -/
def balloc (sb : Superblock) (d : D) : ℕ × D :=
  match (List.range sb.size).find? fun b => !marked sb (Store.blocks d) b with
  | some b =>
    (b, bzero b (Store.put d (sb.bblock b) ((Store.blocks d (sb.bblock b)).setBit (b % BPB))))
  | none => (0, d)

/-- `bfree`. -/
def bfree (sb : Superblock) (b : ℕ) (d : Disk) : Except Stop Disk :=
  if marked sb d b then
    pure (update d (sb.bblock b) ((d (sb.bblock b)).clearBit (b % BPB)))
  else throw (.panic "freeing free block")

/-! ## Inode content -/

/-- `ip->addrs[k] = addr`. -/
def Dinode.setAddr (ip : Dinode) (k : Fin (NDIRECT + 1)) (addr : ℕ) : Dinode :=
  { ip with addrs := update ip.addrs k (.ofNat 32 addr) }

/-- The entry `a[j]` of an indirect block. -/
def entry (a : Block) (j : ℕ) : ℕ := a.ld 4 (4 * j)

/-- The block number in `ip->addrs[k]`, allocating a block if there is none. -/
def bmapAddr (sb : Superblock) (ip : Dinode) (k : Fin (NDIRECT + 1)) (d : D) :
    ℕ × Dinode × D :=
  if ip.addrs k = 0 then
    let (addr, d) := balloc sb d
    if addr = 0 then (0, ip, d) else (addr, ip.setAddr k addr, d)
  else ((ip.addrs k).toNat, ip, d)

/-- The block number in `a[j]` of the indirect block `ind`, allocating a block if there is
none. -/
def bmapEntry (sb : Superblock) (ind j : ℕ) (d : D) : ℕ × D :=
  if entry (Store.blocks d ind) j = 0 then
    let (addr, d) := balloc sb d
    if addr = 0 then (0, d)
    else (addr, Store.put d ind ((Store.blocks d ind).st 4 (4 * j) addr))
  else (entry (Store.blocks d ind) j, d)

/-- `bmap`: the disk block address of the `bn`th block of inode `ip`. -/
def bmap (sb : Superblock) (ip : Dinode) (bn : ℕ) (d : D) :
    Except Stop (ℕ × Dinode × D) :=
  if bn < NDIRECT then pure (bmapAddr sb ip (Fin.ofNat _ bn) d)
  else if bn - NDIRECT < NINDIRECT then
    let (ind, ip, d) := bmapAddr sb ip (Fin.last NDIRECT) d
    if ind = 0 then pure (0, ip, d)
    else
      let (addr, d) := bmapEntry sb ind (bn - NDIRECT) d
      pure (addr, ip, d)
  else throw (.panic "bmap: out of range")

/-- The loop body over the direct blocks in `itrunc`. -/
def truncDirect (sb : Superblock) (x : Dinode × Disk) (i : ℕ) : Except Stop (Dinode × Disk) := do
  let (ip, d) := x
  if ip.addrs (Fin.ofNat _ i) ≠ 0 then
    let d ← bfree sb (ip.addrs (Fin.ofNat _ i)).toNat d
    pure (ip.setAddr (Fin.ofNat _ i) 0, d)
  else pure (ip, d)

/-- The loop body over the entries `a[j]` of the indirect block in `itrunc`. -/
def truncEntry (sb : Superblock) (a : Block) (d : Disk) (j : ℕ) : Except Stop Disk :=
  if entry a j ≠ 0 then bfree sb (entry a j) d else pure d

/-- The branch of `itrunc` that frees the indirect block. -/
def truncIndirect (sb : Superblock) (ip : Dinode) (d : Disk) : Except Stop (Dinode × Disk) := do
  let ind := ip.addrs (Fin.last NDIRECT)
  if ind ≠ 0 then
    let d ← (List.range NINDIRECT).foldlM (truncEntry sb (d ind.toNat)) d
    let d ← bfree sb ind.toNat d
    pure (ip.setAddr (Fin.last NDIRECT) 0, d)
  else pure (ip, d)

/-- `itrunc`: discard the contents of inode `ip`, whose number is `inum`. -/
def itrunc (sb : Superblock) (inum : ℕ) (ip : Dinode) (d : Disk) :
    Except Stop (Dinode × Disk) := do
  let (ip, d) ← (List.range NDIRECT).foldlM (truncDirect sb) (ip, d)
  let (ip, d) ← truncIndirect sb ip d
  let ip := { ip with size := 0 }
  pure (ip, setDinode sb inum ip d)

/-! ## Reading and writing

The memory at the other side of a copy, user or kernel, is given by what each byte from
the address `src` or `dst` on holds, if it can be accessed. -/

/-- The bytes `either_copyin` copies from `src + tot`, up to the first that cannot be read. -/
def copied (src : ℕ → Option UInt8) (tot m : ℕ) : List UInt8 :=
  (((List.range m).map fun k => src (tot + k)).takeWhile Option.isSome).reduceOption

/-- What a loop over the blocks of a file returns: the values of `tot` and `off` after it,
the bytes copied, and whether it was left by a failed copy. -/
structure Copy where
  tot : ℕ
  off : ℕ
  bytes : List UInt8
  failed : Bool

/-- The loop of `readi`. It copies at least one byte a round, so `n` rounds are enough. -/
def readLoop (sb : Superblock) (dst : ℕ → Bool) (n : ℕ) :
    ℕ → Copy → Dinode → Disk → Except Stop (Copy × Dinode × Disk)
  | 0, c, ip, d => pure (c, ip, d)
  | fuel + 1, c, ip, d => do
    if c.tot < n then
      let (addr, ip, d) ← bmap sb ip (c.off / BSIZE) d
      if addr = 0 then pure (c, ip, d)
      else
        let m := min (n - c.tot) (BSIZE - c.off % BSIZE)
        if (List.range m).all fun k => dst (c.tot + k) then
          readLoop sb dst n fuel
            { c with
              tot := c.tot + m
              off := c.off + m
              bytes := c.bytes ++ (d addr).slice (c.off % BSIZE) m } ip d
        else pure ({ c with failed := true }, ip, d)
    else pure (c, ip, d)

/-- `readi`: the result and the bytes copied to `dst`. -/
def readi (sb : Superblock) (ip : Dinode) (dst : ℕ → Bool) (off n : ℕ) (d : Disk) :
    Except Stop ((ℤ × List UInt8) × Dinode × Disk) := do
  if ip.size.toNat < off ∨ (off + n) % 2 ^ 32 < off then pure ((0, []), ip, d)
  else
    let n := if ip.size.toNat < (off + n) % 2 ^ 32 then ip.size.toNat - off else n
    let (c, ip, d) ← readLoop sb dst n n ⟨0, off, [], false⟩ ip d
    pure ((if c.failed then -1 else c.tot, c.bytes), ip, d)

/-- The loop of `writei`. It copies at least one byte a round, so `n` rounds are enough. A
copy that fails leaves the bytes before the bad address in the buffer. -/
def writeLoop (sb : Superblock) (src : ℕ → Option UInt8) (n : ℕ) :
    ℕ → ℕ → ℕ → Dinode → D → Except Stop ((ℕ × ℕ) × Dinode × D)
  | 0, tot, off, ip, d => pure ((tot, off), ip, d)
  | fuel + 1, tot, off, ip, d => do
    if tot < n then
      let (addr, ip, d) ← bmap sb ip (off / BSIZE) d
      if addr = 0 then pure ((tot, off), ip, d)
      else
        let m := min (n - tot) (BSIZE - off % BSIZE)
        let bs := copied src tot m
        let d := Store.modify d addr ((Store.blocks d addr).put (off % BSIZE) bs)
        if bs.length < m then pure ((tot, off), ip, d)
        else writeLoop sb src n fuel (tot + m) (off + m) ip (Store.log d addr)
    else pure ((tot, off), ip, d)

/-- `writei` on inode `ip`, whose number is `inum`. At last it calls `iupdate`. -/
def writei (sb : Superblock) (inum : ℕ) (ip : Dinode) (src : ℕ → Option UInt8) (off n : ℕ)
    (d : D) : Except Stop (ℤ × Dinode × D) := do
  if ip.size.toNat < off ∨ (off + n) % 2 ^ 32 < off then pure (-1, ip, d)
  else if MAXFILE * BSIZE < (off + n) % 2 ^ 32 then pure (-1, ip, d)
  else
    let ((tot, off), ip, d) ← writeLoop sb src n n 0 off ip d
    let ip := if ip.size.toNat < off then { ip with size := .ofNat 32 off } else ip
    let inodes := Store.blocks d (sb.iblock inum)
    pure (tot, ip, Store.put d (sb.iblock inum) (ip.store (inum % IPB) inodes))

end Code

@[simp] lemma Store.blocks_disk (d : Disk) : Store.blocks d = d := rfl

@[simp] lemma Store.put_disk (d : Disk) (b : ℕ) (a : Block) : Store.put d b a = update d b a := rfl

lemma Store.put_dinode (sb : Superblock) (i : ℕ) (di : Dinode) (d : Disk) :
    Store.put d (sb.iblock i) (di.store (i % IPB) (Store.blocks d (sb.iblock i))) =
      setDinode sb i di d := rfl

lemma bzero_disk (b : ℕ) (d : Disk) : bzero b d = update d b (Bytes.fill BSIZE 0) := rfl

/-! ## The changes of single blocks -/

/-- A change that `fs.c` makes to the data of a buffer between `bread` and `brelse`. -/
inductive Use where
  | bzero
  | balloc (bi : ℕ)
  | bfree (bi : ℕ)
  /-- `ialloc` and `iupdate` assign the inode structure number `k`. -/
  | dinode (k : ℕ) (di : Dinode)
  /-- `bmap` sets the entry `a[j]` of an indirect block. -/
  | bmap (j addr : ℕ)
  /-- `writei` copies `m` bytes to `bp->data + off`. -/
  | writei (off m : ℕ) (src : ℕ → Option UInt8)

/-- The data of the buffer after the change. -/
def Use.data : Use → Block → Block
  | .bzero, _ => Bytes.fill BSIZE 0
  | .balloc bi, a => a.setBit bi
  | .bfree bi, a => a.clearBit bi
  | .dinode k di, a => di.store k a
  | .bmap j addr, a => a.st 4 (4 * j) addr
  | .writei off m src, a => a.put off (copied src 0 m)

/-- Whether `log_write` follows. -/
def Use.logged : Use → Bool
  | .writei _ m src => (copied src 0 m).length = m
  | _ => true

/-- `d'` comes from `d` by changes of single blocks that `fs.c` makes. -/
def Uses : Disk → Disk → Prop :=
  Relation.ReflTransGen fun d d' => ∃ b u, d' = update d b (Use.data u (d b))

/-- The panics of the code above. -/
def DiskPanic (e : Stop) : Prop :=
  e = .panic "freeing free block" ∨ e = .panic "bmap: out of range"

section Uses

variable {sb : Superblock} {d : Disk}

lemma Uses.one (b : ℕ) (u : Use) : Uses d (update d b (u.data (d b))) :=
  .single ⟨b, u, rfl⟩

lemma balloc_uses (sb : Superblock) (d : Disk) : Uses d (balloc sb d).2 := by
  unfold balloc
  split
  case h_1 b _ => exact (Uses.one (sb.bblock b) (.balloc (b % BPB))).trans (Uses.one b .bzero)
  case h_2 => exact .refl

lemma bfree_uses (b : ℕ) : Post DiskPanic (Uses d) (bfree sb b d) := by
  unfold bfree
  split
  case isTrue => exact Uses.one (sb.bblock b) (.bfree (b % BPB))
  case isFalse => exact .inl rfl

lemma setDinode_uses (i : ℕ) (di : Dinode) : Uses d (setDinode sb i di d) :=
  .one (sb.iblock i) (.dinode (i % IPB) di)

lemma bmapAddr_uses (ip : Dinode) (k : Fin (NDIRECT + 1)) :
    Uses d (bmapAddr sb ip k d).2.2 := by
  have hb := balloc_uses sb d
  unfold bmapAddr
  split
  case isTrue =>
    dsimp only
    split
    · exact hb
    · exact hb
  case isFalse => exact .refl

lemma bmapEntry_uses (ind j : ℕ) : Uses d (bmapEntry sb ind j d).2 := by
  have hb := balloc_uses sb d
  unfold bmapEntry
  split
  case isTrue =>
    dsimp only
    split
    · exact hb
    · exact hb.trans (Uses.one ind (.bmap j _))
  case isFalse => exact .refl

/-- `bmap` changes blocks in the ways that `Use` lists. -/
lemma bmap_uses (ip : Dinode) (bn : ℕ) :
    Post DiskPanic (fun r => Uses d r.2.2) (bmap sb ip bn d) := by
  unfold bmap
  by_cases hdir : bn < NDIRECT
  · rw [if_pos hdir, Post.pure_iff]
    exact bmapAddr_uses ip _
  by_cases hind : bn - NDIRECT < NINDIRECT
  · rw [if_neg hdir, if_pos hind]
    have ha : Uses d (bmapAddr sb ip (Fin.last NDIRECT) d).2.2 := bmapAddr_uses ip _
    generalize bmapAddr sb ip (Fin.last NDIRECT) d = r at ha
    obtain ⟨ind, ip', d'⟩ := r
    dsimp only at ha ⊢
    refine Post.ite (fun _ => ha) fun _ => ?_
    have he : Uses d' (bmapEntry sb ind (bn - NDIRECT) d').2 := bmapEntry_uses ind _
    generalize bmapEntry sb ind (bn - NDIRECT) d' = r at he
    exact ha.trans he
  · rw [if_neg hdir, if_neg hind]
    exact .inr rfl

lemma itrunc_uses (inum : ℕ) (ip : Dinode) :
    Post DiskPanic (fun r => Uses d r.2) (itrunc sb inum ip d) := by
  have hdirect : ∀ (x : Dinode × Disk) (i : ℕ), Uses d x.2 →
      Post DiskPanic (fun r => Uses d r.2) (truncDirect sb x i) := by
    intro x i hx
    refine Post.ite (fun _ => ?_) fun _ => hx
    exact Post.bind ((bfree_uses _).mono fun d' hd => hx.trans hd)
  have hentry : ∀ (a : Block) (d' : Disk) (j : ℕ), Uses d d' →
      Post DiskPanic (Uses d) (truncEntry sb a d' j) := by
    intro a d' j hd
    exact Post.ite (fun _ => (bfree_uses _).mono fun d'' => hd.trans) fun _ => hd
  have hindirect : ∀ (ip : Dinode) (d' : Disk), Uses d d' →
      Post DiskPanic (fun r => Uses d r.2) (truncIndirect sb ip d') := by
    intro ip d' hd
    refine Post.ite (fun _ => ?_) fun _ => hd
    refine Post.bind ((Post.foldlM _ hd (hentry _)).mono fun d'' hd'' => ?_)
    exact Post.bind ((bfree_uses _).mono fun d₃ h₃ => hd''.trans h₃)
  unfold itrunc
  refine Post.bind ((Post.foldlM _ .refl hdirect).mono ?_)
  rintro ⟨ip', d'⟩ hd
  refine Post.bind ((hindirect ip' d' hd).mono ?_)
  rintro ⟨ip'', d''⟩ hd''
  exact hd''.trans (setDinode_uses ..)

lemma readLoop_uses (dst : ℕ → Bool) (n fuel : ℕ) :
    ∀ c ip d, Post DiskPanic (fun r => Uses d r.2.2) (readLoop sb dst n fuel c ip d) := by
  induction fuel with
  | zero => exact fun _ _ _ => .refl
  | succ fuel ih =>
    intro c ip d
    unfold readLoop
    refine Post.ite (fun _ => ?_) fun _ => .refl
    refine Post.bind ((bmap_uses ip _).mono ?_)
    rintro ⟨addr, ip, d₁⟩ (h₁ : Uses d d₁)
    refine Post.ite (fun _ => h₁) fun _ => Post.ite (fun _ => ?_) fun _ => h₁
    exact (ih _ _ _).mono fun r hr => h₁.trans hr

lemma readi_uses (ip : Dinode) (dst : ℕ → Bool) (off n : ℕ) :
    Post DiskPanic (fun r => Uses d r.2.2) (readi sb ip dst off n d) := by
  refine Post.ite (fun _ => .refl) fun _ => ?_
  exact Post.bind ((readLoop_uses dst _ _ _ ip d).mono fun r hr => hr)

lemma writeLoop_uses (src : ℕ → Option UInt8) (n fuel : ℕ) :
    ∀ tot off ip d, Post DiskPanic (fun r => Uses d r.2.2)
      (writeLoop sb src n fuel tot off ip d) := by
  induction fuel with
  | zero => exact fun _ _ _ _ => .refl
  | succ fuel ih =>
    intro tot off ip d
    unfold writeLoop
    refine Post.ite (fun _ => ?_) fun _ => .refl
    refine Post.bind ((bmap_uses ip _).mono ?_)
    rintro ⟨addr, ip, d₁⟩ (h₁ : Uses d d₁)
    refine Post.ite (fun _ => h₁) fun _ => ?_
    have hcopy : ∀ m, Uses d₁ (update d₁ addr
        ((d₁ addr).put (off % BSIZE) (copied src tot m))) := by
      intro m
      have h := @Uses.one d₁ addr (.writei (off % BSIZE) m fun k => src (tot + k))
      simpa [Use.data, copied] using h
    refine Post.ite (fun _ => h₁.trans (hcopy _)) fun _ => ?_
    exact (ih _ _ _ _).mono fun r hr => (h₁.trans (hcopy _)).trans hr

/-- `writei` changes blocks only in the ways of `Use`. -/
lemma writei_uses (inum : ℕ) (ip : Dinode) (src : ℕ → Option UInt8) (off n : ℕ) :
    Post DiskPanic (fun r => Uses d r.2.2) (writei sb inum ip src off n d) := by
  unfold writei
  refine Post.ite (fun _ => .refl) fun _ => Post.ite (fun _ => .refl) fun _ => ?_
  refine Post.bind ((writeLoop_uses src n n 0 off ip d).mono ?_)
  rintro ⟨⟨tot, off⟩, ip, d₁⟩ (h₁ : Uses d d₁)
  exact h₁.trans (setDinode_uses ..)

end Uses

end Xv6.Fs
