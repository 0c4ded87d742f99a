import Xv6.Lib.Bytes
import Xv6.Lib.Spec
import Xv6.Params
import Xv6.Process.Machine

/-!
# The buffer cache (`kernel/bio.c`) and the disk behind it

The disk is an array of blocks; a transfer of one block is atomic. A call of `bread`
runs to the end or, where `acquiresleep` would sleep, is not taken now.

`Coherent C pins s` is the invariant of the cache: `C` says what each block holds as far
as the kernel is concerned, `pins` lists the blocks held in the cache by `bpin`. A block
that is not pinned may be recycled, so the disk holds it too.
-/

namespace Xv6.Disk

open Xv6.Lib
open Xv6.Process (Slot Stop)

/-- The contents of a disk block. -/
abbrev Block := Bytes BSIZE

/-- Size of the block cache (`kernel/param.h`). -/
def NBUF : ℕ := 30

instance : NeZero NBUF := ⟨by decide⟩

instance : Nontrivial (Fin NBUF) := ⟨0, 1, by decide⟩

/-- Device number of the file system root disk (`kernel/param.h`). -/
def ROOTDEV : ℕ := 1

/-- `struct buf`. Its sleep-lock is given by the process that holds it. `modified` is a
history variable: the data was changed and neither written to disk nor logged since. -/
structure Buf where
  valid : Bool
  dev : ℕ
  blockno : ℕ
  lock : Option Slot
  refcnt : ℕ
  data : Block
  modified : Bool

/-- The disk and the cache. `lru` is the list through `bcache.head`, most recently used
buffer first. -/
structure Bio where
  disk : ℕ → Block
  buf : Fin NBUF → Buf
  lru : List (Fin NBUF)

/-- Update buffer `i`. -/
def Bio.setBuf (s : Bio) (i : Fin NBUF) (f : Buf → Buf) : Bio :=
  { s with buf := Function.update s.buf i (f (s.buf i)) }

@[simp]
lemma Bio.setBuf_buf (s : Bio) (i j : Fin NBUF) (f : Buf → Buf) :
    (s.setBuf i f).buf j = if j = i then f (s.buf i) else s.buf j := by
  simp [Bio.setBuf, Function.update_apply]

@[simp] lemma Bio.setBuf_disk (s : Bio) (i : Fin NBUF) (f : Buf → Buf) :
    (s.setBuf i f).disk = s.disk := rfl

@[simp] lemma Bio.setBuf_lru (s : Bio) (i : Fin NBUF) (f : Buf → Buf) :
    (s.setBuf i f).lru = s.lru := rfl

@[simp]
lemma Bio.setBuf_setBuf (s : Bio) (i : Fin NBUF) (f g : Buf → Buf) :
    (s.setBuf i f).setBuf i g = s.setBuf i fun b => g (f b) := by
  simp [Bio.setBuf]

/-- A buffer of the zero-initialised `bcache`. -/
def Buf.zero : Buf where
  valid := false
  dev := 0
  blockno := 0
  lock := none
  refcnt := 0
  data := Bytes.fill BSIZE 0
  modified := false

/-- `binit`, over the given disk. Each buffer is inserted at the head of the list. -/
def binit (disk : ℕ → Block) : Bio where
  disk := disk
  buf := fun _ => Buf.zero
  lru := (List.finRange NBUF).reverse

/-- `acquiresleep(&b->lock)` by process `p`. -/
def acquiresleep (p : Slot) (i : Fin NBUF) (s : Bio) : Except Stop Bio :=
  if (s.buf i).lock = none then pure (s.setBuf i fun b => { b with lock := some p })
  else throw .disabled

/-- `bget`, called by process `p`. -/
def bget (p : Slot) (dev blockno : ℕ) (s : Bio) : Except Stop (Fin NBUF × Bio) :=
  match s.lru.find? fun i => (s.buf i).dev = dev && (s.buf i).blockno = blockno with
  | some i => do
    let s := s.setBuf i fun b => { b with refcnt := b.refcnt + 1 }
    let s ← acquiresleep p i s
    pure (i, s)
  | none =>
    match s.lru.reverse.find? fun i => (s.buf i).refcnt = 0 with
    | some i => do
      let s := s.setBuf i fun b =>
        { b with dev := dev, blockno := blockno, valid := false, refcnt := 1 }
      let s ← acquiresleep p i s
      pure (i, s)
    | none => throw (.panic "bget: no buffers")

/-- `bread`, called by process `p`. -/
def bread (p : Slot) (dev blockno : ℕ) (s : Bio) : Except Stop (Fin NBUF × Bio) := do
  let (i, s) ← bget p dev blockno s
  if (s.buf i).valid then pure (i, s)
  else pure (i, s.setBuf i fun b => { b with data := s.disk b.blockno, valid := true })

/-- Change the data of buffer `i`. -/
def setData (i : Fin NBUF) (data : Block) (s : Bio) : Bio :=
  s.setBuf i fun b => { b with data := data, modified := true }

/-- `bwrite`, called by process `p`. -/
def bwrite (p : Slot) (i : Fin NBUF) (s : Bio) : Except Stop Bio :=
  if (s.buf i).lock ≠ some p then throw (.panic "bwrite")
  else
    let s := { s with disk := Function.update s.disk (s.buf i).blockno (s.buf i).data }
    pure (s.setBuf i fun b => { b with modified := false })

/-- `brelse`, called by process `p`. -/
def brelse (p : Slot) (i : Fin NBUF) (s : Bio) : Except Stop Bio :=
  if (s.buf i).lock ≠ some p then throw (.panic "brelse")
  else
    let s := s.setBuf i fun b => { b with lock := none, refcnt := b.refcnt - 1 }
    pure (if (s.buf i).refcnt = 0 then { s with lru := i :: s.lru.erase i } else s)

/-- `bpin`. -/
def bpin (i : Fin NBUF) (s : Bio) : Bio := s.setBuf i fun b => { b with refcnt := b.refcnt + 1 }

/-- `bunpin`. -/
def bunpin (i : Fin NBUF) (s : Bio) : Bio := s.setBuf i fun b => { b with refcnt := b.refcnt - 1 }

/-- The history variable of buffer `i` once `log_write` has recorded it. -/
def markLogged (i : Fin NBUF) (s : Bio) : Bio := s.setBuf i fun b => { b with modified := false }

/-! ## The invariant -/

/-- Buffer `i` caches block `b` of the root disk. -/
def Bio.Caches (s : Bio) (i : Fin NBUF) (b : ℕ) : Prop :=
  (s.buf i).dev = ROOTDEV ∧ (s.buf i).blockno = b

/-- The buffers that are locked are the same, with the same contents. -/
def Bio.SameHeld (s s' : Bio) : Prop :=
  ∀ j, (s'.buf j).lock = (s.buf j).lock ∧ ((s.buf j).lock ≠ none → s'.buf j = s.buf j)

/-- The cache and the disk agree with the contents `C`, with the blocks `pins` pinned. -/
structure Coherent (C : ℕ → Block) (pins : List ℕ) (s : Bio) : Prop where
  /-- Every buffer is on the list. -/
  listed : ∀ i, i ∈ s.lru
  /-- A block has at most one buffer. -/
  unique : ∀ {i j b}, s.Caches i b → s.Caches j b → i = j
  /-- A buffer of the root disk is counted once for its lock and once for each pin. -/
  refs : ∀ {i b}, s.Caches i b →
    (s.buf i).refcnt = (if (s.buf i).lock = none then 0 else 1) + pins.count b
  /-- Buffers that were never used are free. -/
  spare : ∀ i, (s.buf i).dev ≠ ROOTDEV → (s.buf i).lock = none ∧ (s.buf i).refcnt = 0
  /-- A buffer that nobody is changing holds the contents of its block. -/
  data : ∀ {i b}, s.Caches i b → (s.buf i).modified = false →
    (s.buf i).valid = true ∧ (s.buf i).data = C b
  /-- Only the holder of a buffer changes it. -/
  dirty : ∀ i, (s.buf i).modified = true → (s.buf i).valid = true ∧ (s.buf i).lock ≠ none
  /-- A pinned block has a buffer. -/
  pinned : ∀ b ∈ pins, ∃ i, s.Caches i b
  /-- The disk holds every block that is not pinned. -/
  disk : ∀ b ∉ pins, s.disk b = C b

/-- Right after `binit` nothing is cached. -/
theorem binit_coherent (d : ℕ → Block) : Coherent d [] (binit d) := by
  constructor <;> simp [binit, Buf.zero, Bio.Caches, ROOTDEV]

namespace Coherent

variable {C : ℕ → Block} {pins : List ℕ} {s s' : Bio} {p : Slot} {i : Fin NBUF} {b : ℕ}
  {E : Stop → Prop}

/-- Only buffer `i` and what concerns block `b` change: `i` caches `b` afterwards, no other
buffer did, and the block `i` cached before is not pinned unless it was `b` too. -/
theorem replace {C' : ℕ → Block} {pins' : List ℕ} (h : Coherent C pins s)
    (hframe : ∀ j, j ≠ i → s'.buf j = s.buf j) (hlisted : ∀ j, j ∈ s'.lru) (hi : s'.Caches i b)
    (hother : ∀ j, s.Caches j b → j = i) (hold : ∀ c ∈ pins, s.Caches i c → c = b)
    (hrefs : (s'.buf i).refcnt = (if (s'.buf i).lock = none then 0 else 1) + pins'.count b)
    (hvalid : (s'.buf i).valid = true)
    (hdata : (s'.buf i).modified = false → (s'.buf i).data = C' b)
    (hdirty : (s'.buf i).modified = true → (s'.buf i).lock ≠ none)
    (hC : ∀ c, c ≠ b → C' c = C c) (hpins : ∀ c, c ≠ b → pins'.count c = pins.count c)
    (hdisk : ∀ c ∉ pins', s'.disk c = C' c) : Coherent C' pins' s' := by
  have hcaches : ∀ j c, s'.Caches j c ↔ if j = i then c = b else s.Caches j c := by
    intro j c
    unfold Bio.Caches at hi ⊢
    grind
  constructor
  case listed => exact hlisted
  case unique =>
    intro j k c hj hk
    have := @h.unique j k c
    grind
  case refs =>
    intro j c hj
    have := @h.refs j c
    grind
  case spare =>
    intro j
    have := h.spare j
    have := hi.1
    grind
  case data =>
    intro j c hj
    have := @h.data j c
    grind
  case dirty =>
    intro j
    have := h.dirty j
    grind
  case pinned =>
    intro c hc
    by_cases hcb : c = b
    · exact ⟨i, by grind⟩
    · have hcount := hpins c hcb
      have hmem : c ∈ pins := by
        rw [← List.count_pos_iff] at hc ⊢
        omega
      obtain ⟨j, hj⟩ := h.pinned c hmem
      exact ⟨j, by grind⟩
  case disk => exact hdisk

/-- Buffer `i` goes on caching block `b`; its contents, the pins of `b` and the disk's copy
of `b` may change. -/
theorem update {C' : ℕ → Block} {pins' : List ℕ} (h : Coherent C pins s) (hi : s.Caches i b)
    (hframe : ∀ j, j ≠ i → s'.buf j = s.buf j) (hlisted : ∀ j, j ∈ s'.lru) (hi' : s'.Caches i b)
    (hrefs : (s'.buf i).refcnt = (if (s'.buf i).lock = none then 0 else 1) + pins'.count b)
    (hvalid : (s'.buf i).valid = true)
    (hdata : (s'.buf i).modified = false → (s'.buf i).data = C' b)
    (hdirty : (s'.buf i).modified = true → (s'.buf i).lock ≠ none)
    (hC : ∀ c, c ≠ b → C' c = C c) (hpins : ∀ c, c ≠ b → pins'.count c = pins.count c)
    (hdisk : ∀ c ∉ pins', s'.disk c = C' c) : Coherent C' pins' s' :=
  h.replace hframe hlisted hi' (fun _ hj => h.unique hj hi) (fun _ _ hc => hc.2.symm.trans hi.2)
    hrefs hvalid hdata hdirty hC hpins hdisk

/-- A buffer of the root disk holds data. -/
theorem valid (h : Coherent C pins s) (hi : s.Caches i b) : (s.buf i).valid = true := by
  have := h.data hi
  have := h.dirty i
  grind

/-- What `bread` of block `b` by process `p` returns in state `s`. -/
structure Got (C : ℕ → Block) (pins : List ℕ) (p : Slot) (b : ℕ) (s : Bio) (i : Fin NBUF)
    (s' : Bio) : Prop where
  coherent : Coherent C pins s'
  caches : s'.Caches i b
  locked : (s'.buf i).lock = some p
  modified : (s'.buf i).modified = false
  data : (s'.buf i).data = C b
  disk_eq : s'.disk = s.disk
  unlocked : (s.buf i).lock = none
  frame : ∀ j, j ≠ i → s'.buf j = s.buf j

/-- A buffer is not modified while it is unlocked. -/
theorem clean (h : Coherent C pins s) (hi : (s.buf i).lock = none) :
    (s.buf i).modified = false := by
  have := h.dirty i
  grind

/-- A buffer without references is unlocked and its block is not pinned. -/
theorem unused (h : Coherent C pins s) (hi : (s.buf i).refcnt = 0) :
    (s.buf i).lock = none ∧ ∀ c, s.Caches i c → c ∉ pins := by
  by_cases hdev : (s.buf i).dev = ROOTDEV
  · have hrefs := h.refs (i := i) ⟨hdev, rfl⟩
    have hcount : pins.count (s.buf i).blockno = 0 := by omega
    refine ⟨by grind, fun c hc => ?_⟩
    rw [← hc.2]
    exact List.count_eq_zero.1 hcount
  · exact ⟨(h.spare i hdev).1, fun c hc => absurd hc.1 hdev⟩

/-- `bread` returns the block, locked. It sleeps while another process holds the block,
and panics when every buffer is in use. -/
theorem bread_got (h : Coherent C pins s)
    (hlock : ∀ i, s.Caches i b → (s.buf i).lock ≠ none → E .disabled)
    (hfull : (∀ i, (s.buf i).refcnt ≠ 0) → E (.panic "bget: no buffers")) :
    Post E (fun r => Got C pins p b s r.1 r.2) (bread p ROOTDEV b s) := by
  unfold bread bget
  split
  case h_1 i hfind =>
    have hi : s.Caches i b := by simpa [Bio.Caches] using List.find?_some hfind
    by_cases hfree : (s.buf i).lock = none
    · obtain ⟨hvalid, hdata⟩ := h.data hi (h.clean hfree)
      have hrefs := h.refs hi
      have hgot : Got C pins p b s i (s.setBuf i fun _ =>
          { s.buf i with refcnt := (s.buf i).refcnt + 1, lock := some p }) := by
        refine ⟨h.update hi ?_ h.listed ?_ ?_ ?_ ?_ ?_ (fun _ _ => rfl) (fun _ _ => rfl) h.disk,
          ?_, ?_, ?_, ?_, ?_, ?_, ?_⟩
        all_goals simp_all [Bio.Caches, h.clean hfree]
        omega
      simpa [acquiresleep, hfree, hvalid, Bio.setBuf] using hgot
    · simp only [acquiresleep, Bio.setBuf_buf, if_true, hfree, if_false]
      exact hlock i hi hfree
  case h_2 hmiss =>
    have hnone : ∀ j, ¬ s.Caches j b := by
      intro j hj
      have := List.find?_eq_none.1 hmiss j (h.listed j)
      simp_all [Bio.Caches]
    split
    case h_1 i hfind =>
      have hi : (s.buf i).refcnt = 0 := by simpa using List.find?_some hfind
      obtain ⟨hfree, hunpinned⟩ := h.unused hi
      have hb : b ∉ pins := fun hb => (h.pinned b hb).elim hnone
      have hgot : Got C pins p b s i (s.setBuf i fun _ =>
          { s.buf i with
            dev := ROOTDEV, blockno := b, valid := true, refcnt := 1, lock := some p
            data := s.disk b }) := by
        have hcount : pins.count b = 0 := List.count_eq_zero.2 hb
        refine ⟨h.replace ?_ h.listed ?_ (fun j hj => (hnone j hj).elim)
          (fun c hc hic => (hunpinned c hic hc).elim) ?_ ?_ ?_ ?_ (fun _ _ => rfl) (fun _ _ => rfl)
          h.disk, ?_, ?_, ?_, ?_, ?_, ?_, ?_⟩
        all_goals simp_all [Bio.Caches, h.clean hfree, h.disk b hb]
      simpa [acquiresleep, hfree, Bio.setBuf] using hgot
    case h_2 hfound =>
      refine hfull fun i hi => ?_
      have := List.find?_eq_none.1 hfound i (by simpa using h.listed i)
      simp_all

/-- Either any stop is acceptable, or nothing is in the way of a `bread`: no block is pinned
and no buffer is locked. -/
def Tolerates (E : Stop → Prop) (pins : List ℕ) (s : Bio) : Prop :=
  (∀ e, E e) ∨ pins = [] ∧ ∀ j, (s.buf j).lock = none

/-- With no pins, an unlocked buffer is free. -/
theorem free (h : Coherent C [] s) (hi : (s.buf i).lock = none) : (s.buf i).refcnt = 0 := by
  by_cases hdev : (s.buf i).dev = ROOTDEV
  · simpa [hi] using h.refs (i := i) ⟨hdev, rfl⟩
  · exact (h.spare i hdev).2

/-- `bread` when nothing is in the way. -/
theorem bread_first (h : Coherent C pins s) (hE : Tolerates E pins s) :
    Post E (fun r => Got C pins p b s r.1 r.2) (bread p ROOTDEV b s) := by
  rcases hE with hE | ⟨rfl, hlocks⟩
  · exact h.bread_got (fun _ _ _ => hE _) fun _ => hE _
  · apply h.bread_got
    · exact fun j _ hj => absurd (hlocks j) hj
    · exact fun hfull => absurd (h.free (hlocks 0)) (hfull 0)

/-- `bread` of another block right after a first one. -/
theorem bread_second {a : ℕ} (hi : Got C pins p a s i s') (hE : Tolerates E pins s)
    (hab : a ≠ b) : Post E (fun r => Got C pins p b s' r.1 r.2) (bread p ROOTDEV b s') := by
  have h := hi.coherent
  rcases hE with hE | ⟨rfl, hlocks⟩
  · exact h.bread_got (fun _ _ _ => hE _) fun _ => hE _
  · have hfree : ∀ j, j ≠ i → (s'.buf j).lock = none := by
      intro j hj
      rw [hi.frame j hj, hlocks j]
    apply h.bread_got
    · intro j hj hlock
      have hji : j = i := by
        by_contra hne
        exact hlock (hfree j hne)
      exact absurd (hi.caches.2.symm.trans (hji ▸ hj.2)) hab
    · intro hfull
      obtain ⟨j, hj⟩ := exists_ne i
      exact absurd (h.free (hfree j hj)) (hfull j)

/-- The order of the list does not matter. -/
theorem relist (h : Coherent C pins s) {l : List (Fin NBUF)} (hl : ∀ j, j ∈ l) :
    Coherent C pins { s with lru := l } :=
  ⟨hl, h.unique, h.refs, h.spare, h.data, h.dirty, h.pinned, h.disk⟩

section Holder

variable (h : Coherent C pins s) (hi : s.Caches i b)

include h hi

/-- The holder of a buffer may change its data. -/
theorem setData (hp : (s.buf i).lock = some p) (v : Block) : Coherent C pins (setData i v s) := by
  have hvalid := h.valid hi
  have hrefs := h.refs hi
  unfold Disk.setData
  apply h.update hi
  all_goals simp_all [Bio.Caches]
  · exact h.listed
  · exact h.disk

/-- `bwrite` makes the data of the buffer the contents of its block, also on disk. -/
theorem bwrite_ok (hp : (s.buf i).lock = some p) :
    ∃ s', bwrite p i s = .ok s' ∧ Coherent (Function.update C b (s.buf i).data) pins s' ∧
      s'.disk = Function.update s.disk b (s.buf i).data ∧
      ∀ j, s'.buf j = if j = i then { s.buf i with modified := false } else s.buf j := by
  have hvalid := h.valid hi
  have hrefs := h.refs hi
  refine ⟨_, if_neg (not_not.2 hp), ?_, by rw [← hi.2]; rfl, fun j => by simp⟩
  apply h.update hi
  all_goals simp_all [Bio.Caches]
  · exact h.listed
  · intro c hc
    by_cases hcb : c = b
    · simp [hcb]
    · simpa [hcb] using h.disk c hc

/-- Changing the data of a buffer one holds and writing it to disk. -/
theorem store_ok (hp : (s.buf i).lock = some p) (v : Block) :
    ∃ s', bwrite p i (Disk.setData i v s) = .ok s' ∧ Coherent (Function.update C b v) pins s' ∧
      s'.disk = Function.update s.disk b v ∧
      ∀ j, s'.buf j = if j = i then { s.buf i with data := v, modified := false } else s.buf j := by
  have hi' : (Disk.setData i v s).Caches i b := by simpa [Disk.setData, Bio.Caches] using hi
  obtain ⟨s', hw, hc, hd, hbuf⟩ :=
    (h.setData hi hp v).bwrite_ok hi' (p := p) (by simpa [Disk.setData] using hp)
  refine ⟨s', hw, by simpa [Disk.setData] using hc, by simpa [Disk.setData] using hd, fun j => ?_⟩
  rw [hbuf]
  simp only [Disk.setData, Bio.setBuf_buf]
  split <;> rfl

/-- `brelse` of a buffer whose changes were written or logged. -/
theorem brelse_ok (hp : (s.buf i).lock = some p) (hm : (s.buf i).modified = false) :
    ∃ s', brelse p i s = .ok s' ∧ Coherent C pins s' ∧ s'.disk = s.disk ∧
      ∀ j, s'.buf j =
        if j = i then { s.buf i with lock := none, refcnt := (s.buf i).refcnt - 1 }
        else s.buf j := by
  obtain ⟨hvalid, hdata⟩ := h.data hi hm
  have hrefs := h.refs hi
  have hreleased : Coherent C pins
      (s.setBuf i fun b => { b with lock := none, refcnt := b.refcnt - 1 }) := by
    apply h.update hi
    all_goals simp_all [Bio.Caches]
    · exact h.listed
    · exact h.disk
  refine ⟨_, if_neg (not_not.2 hp), ?_, by split <;> rfl, fun j => by split <;> simp⟩
  split
  · apply hreleased.relist
    intro j
    by_cases hji : j = i
    · exact hji ▸ List.mem_cons_self
    · exact List.mem_cons_of_mem _ ((List.mem_erase_of_ne hji).2 (h.listed j))
  · exact hreleased

/-- `bunpin` of a block that the disk holds. -/
theorem bunpin (hb : b ∈ pins) (hd : s.disk b = C b) : Coherent C (pins.erase b) (bunpin i s) := by
  have hvalid := h.valid hi
  have hrefs := h.refs hi
  have hpos := List.count_pos_iff.2 hb
  unfold Disk.bunpin
  apply h.update hi
  case hdata => simpa using fun hm => (h.data hi hm).2
  case hdirty => simpa using fun hm => (h.dirty i hm).2
  case hdisk =>
    intro c hc
    by_cases hcb : c = b
    · simpa [hcb] using hd
    · exact h.disk c fun hmem => hc ((List.mem_erase_of_ne hcb).2 hmem)
  case hrefs =>
    simp only [Bio.setBuf_buf, if_true, List.count_erase_self]
    omega
  case hpins => exact fun c hc => List.count_erase_of_ne hc
  all_goals simp_all [Bio.Caches]
  exact h.listed

/-- Logging a block for the first time pins it, with its new contents. -/
theorem bpin :
    Coherent (Function.update C b (s.buf i).data) (pins ++ [b]) (markLogged i (bpin i s)) := by
  have hvalid := h.valid hi
  have hrefs := h.refs hi
  unfold Disk.bpin markLogged
  apply h.update hi
  case hdisk =>
    intro c hc
    simp only [List.mem_append, List.mem_singleton, not_or] at hc
    simpa [hc.2] using h.disk c hc.1
  case hrefs =>
    simp only [Bio.setBuf_buf, if_true, List.count_append, List.count_singleton_self]
    omega
  case hpins =>
    intro c hc
    simp [List.count_append, hc.symm]
  all_goals simp_all [Bio.Caches]
  exact h.listed

/-- Logging a pinned block again changes its contents. -/
theorem absorb (hb : b ∈ pins) :
    Coherent (Function.update C b (s.buf i).data) pins (markLogged i s) := by
  have hvalid := h.valid hi
  have hrefs := h.refs hi
  unfold markLogged
  apply h.update hi
  case hdisk =>
    intro c hc
    have hcb : c ≠ b := fun hcb => hc (hcb ▸ hb)
    simpa [hcb] using h.disk c hc
  all_goals simp_all [Bio.Caches]
  exact h.listed

end Holder

end Coherent

end Xv6.Disk
