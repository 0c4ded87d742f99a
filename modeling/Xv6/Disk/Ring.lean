import Mathlib.Algebra.Order.BigOperators.Group.Finset
import Xv6.Disk.Bcache
import Xv6.Lib.Count
import Xv6.Lib.Links

/-!
# The list of buffers through `bcache.head`

The code of `kernel/bio.c` with its pointers. A buffer is `some i` and `bcache.head` is `none`.
`Cache.bget` and `Cache.brelse` are the parts of these functions that run under `bcache.lock`;
the machine below interleaves them with the parts that use the buffers' sleep-locks, by any
number of processes.

The functions here and those of `Xv6.Disk.Bcache`, which has a list for the pointers, compute
the same.
-/

namespace Xv6.Disk

open Xv6.Lib
open Xv6.Process (Slot Stop)
open Function (update update_of_ne update_self)

/-- The disk and the cache, with the list of buffers as `next` and `prev` pointers. -/
structure Cache where
  disk : ℕ → Block
  buf : Fin NBUF → Buf
  links : Links (Option (Fin NBUF))

namespace Cache

/-- Update buffer `i`. -/
def setBuf (c : Cache) (i : Fin NBUF) (f : Buf → Buf) : Cache :=
  { c with buf := update c.buf i (f (c.buf i)) }

/-- `binit`, over the given disk. The pointers of the buffers are set by the loop. -/
def binit (disk : ℕ → Block) : Cache where
  disk := disk
  buf := fun _ => Buf.zero
  links := ((List.finRange NBUF).map some).foldl (fun L b => L.pushFront none b)
    ⟨fun _ => none, fun _ => none⟩

/-- The loop of `bget` that looks for a cached block, from `head.next` on. -/
def lookup (dev blockno : ℕ) (c : Cache) : Option (Fin NBUF) :=
  (Links.scan c.links.next none
    (fun x => x.any fun i => (c.buf i).dev = dev && (c.buf i).blockno = blockno)
    (NBUF + 1) (c.links.next none)).join

/-- The loop of `bget` that looks for an unused buffer, from `head.prev` on. -/
def victim (c : Cache) : Option (Fin NBUF) :=
  (Links.scan c.links.prev none (fun x => x.any fun i => (c.buf i).refcnt = 0)
    (NBUF + 1) (c.links.prev none)).join

/-- `bget` up to `release(&bcache.lock)`. -/
def bget (dev blockno : ℕ) (c : Cache) : Except Stop (Fin NBUF × Cache) :=
  match c.lookup dev blockno with
  | some i => pure (i, c.setBuf i fun b => { b with refcnt := b.refcnt + 1 })
  | none =>
    match c.victim with
    | some i =>
      pure (i, c.setBuf i fun b =>
        { b with dev := dev, blockno := blockno, valid := false, refcnt := 1 })
    | none => throw (.panic "bget: no buffers")

/-- `brelse` from `acquire(&bcache.lock)` on. -/
def brelse (i : Fin NBUF) (c : Cache) : Cache :=
  let c := c.setBuf i fun b => { b with refcnt := b.refcnt - 1 }
  if (c.buf i).refcnt = 0 then
    { c with links := (c.links.unlink (some i)).pushFront none (some i) }
  else c

@[simp] lemma setBuf_self (c : Cache) (i : Fin NBUF) (f : Buf → Buf) :
    (c.setBuf i f).buf i = f (c.buf i) := update_self ..

lemma setBuf_of_ne (c : Cache) {i j : Fin NBUF} (f : Buf → Buf) (h : j ≠ i) :
    (c.setBuf i f).buf j = c.buf j := update_of_ne h ..

/-- The buffers in the order of the list, most recently used first. -/
def Lists (c : Cache) (l : List (Fin NBUF)) : Prop :=
  c.links.Represents none (l.map some) ∧ ∀ i, i ∈ l

variable {c : Cache} {l : List (Fin NBUF)} {i j : Fin NBUF}

/-! ## The pointers and the list -/

lemma Lists.nodup (h : c.Lists l) : l.Nodup :=
  (List.nodup_cons.1 h.1.nodup).2.of_map

lemma Lists.perm (h : c.Lists l) : l.Perm (List.finRange NBUF) :=
  (List.perm_ext_iff_of_nodup h.nodup (List.nodup_finRange NBUF)).2 fun i => by simp [h.2 i]

lemma Lists.length (h : c.Lists l) : l.length = NBUF := by
  rw [h.perm.length_eq, List.length_finRange]

lemma join_find (l : List (Fin NBUF)) (p : Fin NBUF → Bool) :
    ((l.map some).find? fun x => x.any p).join = l.find? p := by
  rw [List.find?_map]
  show ((l.find? p).map some).join = l.find? p
  cases l.find? p <;> rfl

/-- The loop of `bget` over `next` goes through the list. -/
lemma Lists.lookup_eq (h : c.Lists l) (dev blockno : ℕ) :
    c.lookup dev blockno =
      l.find? fun i => (c.buf i).dev = dev && (c.buf i).blockno = blockno := by
  unfold lookup
  rw [h.1.scan_next _ (by rw [List.length_map, h.length]; omega), join_find]

/-- The loop of `bget` over `prev` goes through it backwards. -/
lemma Lists.victim_eq (h : c.Lists l) :
    c.victim = l.reverse.find? fun i => (c.buf i).refcnt = 0 := by
  unfold victim
  rw [h.1.scan_prev _ (by rw [List.length_map, h.length]; omega), ← List.map_reverse, join_find]

lemma binit_lists (disk : ℕ → Block) : (binit disk).Lists (List.finRange NBUF).reverse := by
  refine ⟨?_, by simp⟩
  have hempty : (⟨fun _ => none, fun _ => none⟩ : Links (Option (Fin NBUF))).Represents none [] :=
    ⟨by simp, List.isChain_cons_cons.2 ⟨⟨rfl, rfl⟩, List.isChain_singleton none⟩⟩
  have hnodup : ((List.finRange NBUF).map some).Nodup :=
    (List.nodup_finRange NBUF).map (Option.some_injective _)
  have h := hempty.foldl_pushFront hnodup (by simp)
  rwa [List.append_nil, ← List.map_reverse] at h

/-- `bget` leaves the list as it is. -/
lemma Lists.bget (h : c.Lists l) {dev blockno : ℕ} {r : Fin NBUF × Cache}
    (hr : c.bget dev blockno = .ok r) : r.2.Lists l := by
  unfold Cache.bget at hr
  split at hr
  · cases hr
    exact h
  · split at hr
    · cases hr
      exact h
    · cases hr

/-- `brelse` of the last reference moves the buffer to the front of the list. -/
lemma Lists.brelse (h : c.Lists l) (i : Fin NBUF) :
    (c.brelse i).Lists (if (c.buf i).refcnt - 1 = 0 then i :: l.erase i else l) := by
  have hcount : ((c.setBuf i fun b => { b with refcnt := b.refcnt - 1 }).buf i).refcnt =
      (c.buf i).refcnt - 1 := by
    rw [setBuf_self]
  unfold Cache.brelse
  dsimp only
  rw [hcount]
  split
  case isTrue =>
    constructor
    · obtain ⟨l₁, l₂, -, rfl, herase⟩ := List.exists_erase_eq (h.2 i)
      have hring := h.1
      rw [List.map_append, List.map_cons] at hring
      rw [herase, List.map_cons, List.map_append]
      exact hring.moveToFront
    · intro j
      by_cases hji : j = i
      · exact hji ▸ List.mem_cons_self ..
      · exact List.mem_cons_of_mem i ((List.mem_erase_of_ne hji).2 (h.2 j))
  case isFalse => exact h

/-! ## Agreement with the list model -/

/-- The cache with the list `l` for the pointers. -/
def toBio (c : Cache) (l : List (Fin NBUF)) : Bio := ⟨c.disk, c.buf, l⟩

/-- `bget` with pointers, followed by `acquiresleep`, is `bget` with a list. -/
theorem Lists.bget_toBio (h : c.Lists l) (p : Slot) (dev blockno : ℕ) :
    Disk.bget p dev blockno (c.toBio l) =
      (c.bget dev blockno >>= fun r =>
        acquiresleep p r.1 (r.2.toBio l) >>= fun s => pure (r.1, s)) := by
  unfold Disk.bget Cache.bget
  rw [h.lookup_eq, h.victim_eq]
  unfold toBio
  dsimp only
  cases l.find? fun i => (c.buf i).dev = dev && (c.buf i).blockno = blockno with
  | some i => rfl
  | none =>
    dsimp only
    cases l.reverse.find? fun i => (c.buf i).refcnt = 0 with
    | some i => rfl
    | none => rfl

/-- `releasesleep`, followed by the rest of `brelse` with pointers, is `brelse` with a list. -/
theorem brelse_toBio (c : Cache) (l : List (Fin NBUF)) {p : Slot} (hp : (c.buf i).lock = some p) :
    Disk.brelse p i (c.toBio l) =
      pure (((c.setBuf i fun b => { b with lock := none }).brelse i).toBio
        (if (c.buf i).refcnt - 1 = 0 then i :: l.erase i else l)) := by
  unfold Disk.brelse Cache.brelse toBio
  by_cases hlast : (c.buf i).refcnt - 1 = 0
  · simp [hp, hlast, setBuf, Bio.setBuf]
  · simp [hp, hlast, setBuf, Bio.setBuf]

end Cache

/-! ## The machine -/

namespace Ring

/-- Where a process is in `bio.c`. -/
inductive Task where
  | idle
  /-- In `bget`, in or before `acquiresleep(&b->lock)`. -/
  | waiting (i : Fin NBUF)
  /-- In `bread`, after `bget`. -/
  | reading (i : Fin NBUF)
  /-- In `brelse`, after `releasesleep(&b->lock)`. -/
  | releasing (i : Fin NBUF)
deriving DecidableEq, Repr

/-- The cache, the processes that use it, and the pins of each buffer that `bpin` made and
`bunpin` has not taken back. -/
structure System where
  cache : Cache
  task : Slot → Task
  pins : Fin NBUF → ℕ

/-- What can happen. -/
inductive Act where
  | bread (p : Slot) (dev blockno : ℕ)
  | acquiresleep (p : Slot)
  | read (p : Slot)
  | bwrite (p : Slot) (i : Fin NBUF)
  | brelse (p : Slot) (i : Fin NBUF)
  | unref (p : Slot)
  | bpin (i : Fin NBUF)
  | bunpin (i : Fin NBUF)

/-- Process `p` goes on at `t`. -/
def System.goto (s : System) (p : Slot) (t : Task) (c : Cache) : System :=
  { s with cache := c, task := update s.task p t }

@[simp] lemma System.goto_cache (s : System) (p : Slot) (t : Task) (c : Cache) :
    (s.goto p t c).cache = c := rfl

/-- One step. A process calls `bread`, gets the sleep-lock of its buffer, reads the block if
need be, and later calls `brelse`, which gives the sleep-lock back first. A `bunpin` belongs to
an earlier `bpin`. -/
def step (a : Act) (s : System) : Except Stop System :=
  match a with
  | .bread p dev blockno =>
    if s.task p = .idle then do
      let (i, c) ← s.cache.bget dev blockno
      pure (s.goto p (.waiting i) c)
    else throw .disabled
  | .acquiresleep p =>
    match s.task p with
    | .waiting i =>
      if (s.cache.buf i).lock = none then
        pure (s.goto p (.reading i) (s.cache.setBuf i fun b => { b with lock := some p }))
      else throw .disabled
    | _ => throw .disabled
  | .read p =>
    match s.task p with
    | .reading i =>
      pure (s.goto p .idle (s.cache.setBuf i fun b =>
        if b.valid then b else { b with data := s.cache.disk b.blockno, valid := true }))
    | _ => throw .disabled
  | .bwrite p i =>
    if s.task p = .idle then
      if (s.cache.buf i).lock ≠ some p then throw (.panic "bwrite")
      else pure { s with cache := { s.cache with
        disk := update s.cache.disk (s.cache.buf i).blockno (s.cache.buf i).data } }
    else throw .disabled
  | .brelse p i =>
    if s.task p = .idle then
      if (s.cache.buf i).lock ≠ some p then throw (.panic "brelse")
      else
        pure (s.goto p (.releasing i) (s.cache.setBuf i fun b => { b with lock := none }))
    else throw .disabled
  | .unref p =>
    match s.task p with
    | .releasing i => pure (s.goto p .idle (s.cache.brelse i))
    | _ => throw .disabled
  | .bpin i =>
    pure { s with
      cache := s.cache.setBuf i fun b => { b with refcnt := b.refcnt + 1 }
      pins := update s.pins i (s.pins i + 1) }
  | .bunpin i =>
    if 0 < s.pins i then
      pure { s with
        cache := s.cache.setBuf i fun b => { b with refcnt := b.refcnt - 1 }
        pins := update s.pins i (s.pins i - 1) }
    else throw .disabled

/-- Some action leads from `s` to `s'`. -/
def Next (s s' : System) : Prop := ∃ a, step a s = .ok s'

/-- The cache after `binit`. -/
def boot (disk : ℕ → Block) : System := ⟨Cache.binit disk, fun _ => .idle, fun _ => 0⟩

/-- The states the cache can reach. -/
def Reachable (disk : ℕ → Block) (s : System) : Prop := Relation.ReflTransGen Next (boot disk) s

/-- The references of a process to buffer `i` while it does not hold the sleep-lock. -/
def Task.refs (i : Fin NBUF) (t : Task) : ℕ :=
  if t = .waiting i ∨ t = .releasing i then 1 else 0

/-- `1` if somebody holds the sleep-lock of the buffer. -/
def owners (b : Buf) : ℕ := if b.lock = none then 0 else 1

/-- The number of processes that hold buffer `i`: the owner of its sleep-lock, and those in
`bget` or `brelse` of it. -/
def System.holders (s : System) (i : Fin NBUF) : ℕ :=
  owners (s.cache.buf i) + ∑ p, (s.task p).refs i

/-- The buffer whose last reference the step `a` drops. -/
def dropped (a : Act) (s : System) : Option (Fin NBUF) :=
  match a with
  | .unref p =>
    match s.task p with
    | .releasing i => if (s.cache.buf i).refcnt = 1 then some i else none
    | _ => none
  | _ => none

/-- The order of the list after the step `a`. -/
def order (a : Act) (s : System) (l : List (Fin NBUF)) : List (Fin NBUF) :=
  match dropped a s with
  | some i => i :: l.erase i
  | none => l

/-! ## The invariant -/

/-- The buffers are listed in the order `l`, cache different blocks, and are counted right. -/
structure Inv (s : System) (l : List (Fin NBUF)) : Prop where
  lists : s.cache.Lists l
  unique : ∀ i j, (s.cache.buf i).dev ≠ 0 → (s.cache.buf i).dev = (s.cache.buf j).dev →
    (s.cache.buf i).blockno = (s.cache.buf j).blockno → i = j
  refs : ∀ i, (s.cache.buf i).refcnt = s.holders i + s.pins i

/-- The blocks of all buffers in use are the same as before. -/
def Keeps (s s' : System) : Prop :=
  ∀ i, 0 < (s.cache.buf i).refcnt →
    (s'.cache.buf i).dev = (s.cache.buf i).dev ∧ (s'.cache.buf i).blockno = (s.cache.buf i).blockno

variable {s s' : System} {l : List (Fin NBUF)} {p : Slot} {i j : Fin NBUF} {t : Task} {c : Cache}
  {f : Buf → Buf}

lemma refs_waiting (i j : Fin NBUF) : (Task.waiting i).refs j = if i = j then 1 else 0 := by
  simp [Task.refs]

lemma refs_releasing (i j : Fin NBUF) : (Task.releasing i).refs j = if i = j then 1 else 0 := by
  simp [Task.refs]

/-- Process `p` goes from one task to another: what it takes is added to the count of the
buffer, and what it gives back is subtracted. -/
lemma Inv.refs_goto (h : Inv s l)
    (hj : (c.buf j).refcnt + (s.task p).refs j + owners (s.cache.buf j) =
      (s.cache.buf j).refcnt + t.refs j + owners (c.buf j)) :
    (c.buf j).refcnt = (s.goto p t c).holders j + s.pins j := by
  have hcount := h.refs j
  have hsum := sum_update s.task (Task.refs j) p t
  unfold System.holders System.goto at *
  dsimp only
  omega

/-- Process `p` goes on at `t` after a change to buffer `i` that leaves it its block. -/
lemma Inv.setBuf (h : Inv s l) (hf : ∀ b, (f b).dev = b.dev ∧ (f b).blockno = b.blockno)
    (hi : (f (s.cache.buf i)).refcnt + (s.task p).refs i + owners (s.cache.buf i) =
      (s.cache.buf i).refcnt + t.refs i + owners (f (s.cache.buf i)))
    (hother : ∀ j, j ≠ i → (s.task p).refs j = t.refs j) :
    Inv (s.goto p t (s.cache.setBuf i f)) l ∧ Keeps s (s.goto p t (s.cache.setBuf i f)) := by
  have hsame : ∀ j, ((s.cache.setBuf i f).buf j).dev = (s.cache.buf j).dev ∧
      ((s.cache.setBuf i f).buf j).blockno = (s.cache.buf j).blockno := by
    intro j
    by_cases hji : j = i
    · rw [hji, Cache.setBuf_self]
      exact hf _
    · rw [Cache.setBuf_of_ne _ _ hji]
      exact ⟨rfl, rfl⟩
  refine ⟨⟨h.lists, fun j k => ?_, fun j => h.refs_goto ?_⟩, fun j _ => hsame j⟩
  · rw [System.goto_cache, (hsame j).1, (hsame j).2, (hsame k).1, (hsame k).2]
    exact h.unique j k
  · rw [System.goto_cache]
    by_cases hji : j = i
    · rw [hji, Cache.setBuf_self]
      exact hi
    · rw [Cache.setBuf_of_ne _ _ hji, hother j hji]

lemma Inv.bget (h : Inv s l) (hp : s.task p = .idle) {dev blockno : ℕ}
    (hs : s.cache.bget dev blockno = .ok (i, c)) :
    Inv (s.goto p (.waiting i) c) l ∧ Keeps s (s.goto p (.waiting i) c) := by
  have hidle : ∀ j, (s.task p).refs j = 0 := fun j => by rw [hp]; rfl
  have hother : ∀ j, j ≠ i → (s.task p).refs j = (Task.waiting i).refs j := by
    intro j hji
    rw [hidle, refs_waiting, if_neg (Ne.symm hji)]
  unfold Cache.bget at hs
  split at hs
  case h_1 =>
    cases hs
    refine h.setBuf (fun b => ⟨rfl, rfl⟩) ?_ hother
    rw [hidle, refs_waiting, if_pos rfl]
    rfl
  case h_2 hmiss =>
  split at hs
  case h_2 => cases hs
  case h_1 i' hi =>
    cases hs
    have hfree : (s.cache.buf i).refcnt = 0 := by
      rw [h.lists.victim_eq] at hi
      simpa using List.find?_some hi
    -- no buffer caches the block
    have hnone : ∀ j, ¬((s.cache.buf j).dev = dev ∧ (s.cache.buf j).blockno = blockno) := by
      intro j hj
      rw [h.lists.lookup_eq] at hmiss
      have := List.find?_eq_none.1 hmiss j (h.lists.2 j)
      simp [hj.1, hj.2] at this
    refine ⟨⟨h.lists, fun j k hdev hjk hjk' => ?_, fun j => h.refs_goto ?_⟩, fun j hj => ?_⟩
    · rw [System.goto_cache] at hdev hjk hjk'
      by_cases hji : j = i <;> by_cases hki : k = i
      · rw [hji, hki]
      · rw [hji, Cache.setBuf_self, Cache.setBuf_of_ne _ _ hki] at hjk hjk'
        exact absurd ⟨hjk.symm, hjk'.symm⟩ (hnone k)
      · rw [hki, Cache.setBuf_self, Cache.setBuf_of_ne _ _ hji] at hjk hjk'
        exact absurd ⟨hjk, hjk'⟩ (hnone j)
      · rw [Cache.setBuf_of_ne _ _ hji] at hdev hjk hjk'
        rw [Cache.setBuf_of_ne _ _ hki] at hjk hjk'
        exact h.unique j k hdev hjk hjk'
    · rw [System.goto_cache]
      by_cases hji : j = i
      · rw [hji, Cache.setBuf_self, hidle, refs_waiting, if_pos rfl, hfree]
        rfl
      · rw [Cache.setBuf_of_ne _ _ hji, hother j hji]
    · have hji : j ≠ i := by
        rintro rfl
        omega
      rw [System.goto_cache, Cache.setBuf_of_ne _ _ hji]
      exact ⟨rfl, rfl⟩

/-- The second half of `brelse`. -/
lemma Inv.brelse (h : Inv s l) (hp : s.task p = .releasing i) :
    Inv (s.goto p .idle (s.cache.brelse i))
        (if (s.cache.buf i).refcnt = 1 then i :: l.erase i else l) ∧
      Keeps s (s.goto p .idle (s.cache.brelse i)) := by
  have hrefs : ∀ j, (s.task p).refs j = if i = j then 1 else 0 := fun j => by
    rw [hp, refs_releasing]
  -- the process itself is one of the holders
  have hpos : 0 < (s.cache.buf i).refcnt := by
    have hle : (s.task p).refs i ≤ ∑ q, (s.task q).refs i :=
      Finset.single_le_sum (f := fun q => (s.task q).refs i) (fun _ _ => Nat.zero_le _)
        (Finset.mem_univ p)
    have hcount := h.refs i
    rw [hrefs, if_pos rfl] at hle
    unfold System.holders at hcount
    omega
  obtain ⟨hinv, hkeeps⟩ : Inv (s.goto p .idle (s.cache.setBuf i fun b =>
      { b with refcnt := b.refcnt - 1 })) l ∧ Keeps s (s.goto p .idle (s.cache.setBuf i fun b =>
      { b with refcnt := b.refcnt - 1 })) := by
    refine h.setBuf (fun b => ⟨rfl, rfl⟩) ?_ fun j hji => ?_
    · rw [hrefs, if_pos rfl]
      have hnone : Task.idle.refs i = 0 := rfl
      have howners : owners { s.cache.buf i with refcnt := (s.cache.buf i).refcnt - 1 } =
          owners (s.cache.buf i) := rfl
      rw [hnone, howners]
      dsimp only
      omega
    · rw [hrefs, if_neg (Ne.symm hji)]
      rfl
  have hbuf : (s.cache.brelse i).buf =
      (s.cache.setBuf i fun b => { b with refcnt := b.refcnt - 1 }).buf := by
    unfold Cache.brelse
    dsimp only
    split <;> rfl
  have hlists := h.lists.brelse i
  have hiff : (s.cache.buf i).refcnt - 1 = 0 ↔ (s.cache.buf i).refcnt = 1 := by omega
  rw [if_congr hiff rfl rfl] at hlists
  refine ⟨⟨hlists, ?_, fun j => ?_⟩, ?_⟩
  · rw [System.goto_cache, hbuf]
    exact hinv.unique
  · have := hinv.refs j
    unfold System.holders at this ⊢
    rw [System.goto_cache, hbuf]
    exact this
  · unfold Keeps
    rw [System.goto_cache, hbuf]
    exact hkeeps

/-- A change to the count of buffer `i` and to its pins. -/
lemma Inv.pin (h : Inv s l) {n : ℕ}
    (hf : ∀ b, (f b).dev = b.dev ∧ (f b).blockno = b.blockno ∧ owners (f b) = owners b)
    (hi : (f (s.cache.buf i)).refcnt + s.pins i = (s.cache.buf i).refcnt + n) :
    Inv { s with cache := s.cache.setBuf i f, pins := update s.pins i n } l ∧
      Keeps s { s with cache := s.cache.setBuf i f, pins := update s.pins i n } := by
  have hsame : ∀ j, ((s.cache.setBuf i f).buf j).dev = (s.cache.buf j).dev ∧
      ((s.cache.setBuf i f).buf j).blockno = (s.cache.buf j).blockno ∧
      owners ((s.cache.setBuf i f).buf j) = owners (s.cache.buf j) := by
    intro j
    by_cases hji : j = i
    · rw [hji, Cache.setBuf_self]
      exact hf _
    · rw [Cache.setBuf_of_ne _ _ hji]
      exact ⟨rfl, rfl, rfl⟩
  refine ⟨⟨h.lists, fun j k => ?_, fun j => ?_⟩, fun j _ => ⟨(hsame j).1, (hsame j).2.1⟩⟩
  · dsimp only
    rw [(hsame j).1, (hsame j).2.1, (hsame k).1, (hsame k).2.1]
    exact h.unique j k
  · have hcount := h.refs j
    unfold System.holders at hcount ⊢
    dsimp only
    rw [(hsame j).2.2]
    by_cases hji : j = i
    · rw [hji] at hcount ⊢
      rw [Cache.setBuf_self, update_self]
      omega
    · rw [Cache.setBuf_of_ne _ _ hji, update_of_ne hji]
      exact hcount

/-- Every step keeps the list and the counts. -/
lemma Inv.step (h : Inv s l) {a : Act} (hs : step a s = .ok s') :
    Inv s' (order a s l) ∧ Keeps s s' := by
  unfold Ring.step at hs
  cases a with
  | bread p dev blockno =>
    dsimp only at hs
    split at hs
    case isFalse => cases hs
    case isTrue hp =>
      obtain ⟨⟨i, c⟩, hget, hs⟩ := bind_eq_ok hs
      cases hs
      exact h.bget hp hget
  | acquiresleep p =>
    dsimp only at hs
    split at hs
    case h_2 => cases hs
    case h_1 i hp =>
      split at hs
      case isFalse => cases hs
      case isTrue hlock =>
        cases hs
        refine h.setBuf (fun b => ⟨rfl, rfl⟩) ?_ fun j hji => ?_
        · rw [hp, refs_waiting, if_pos rfl]
          simp [owners, hlock, Task.refs]
        · rw [hp, refs_waiting, if_neg (Ne.symm hji)]
          rfl
  | read p =>
    dsimp only at hs
    split at hs
    case h_2 => cases hs
    case h_1 i hp =>
      cases hs
      refine h.setBuf (fun b => ?_) ?_ fun j _ => ?_
      · split <;> exact ⟨rfl, rfl⟩
      · rw [hp]
        split <;> rfl
      · rw [hp]
        rfl
  | bwrite p i =>
    dsimp only at hs
    split at hs
    case isFalse => cases hs
    case isTrue =>
      split at hs
      · cases hs
      · cases hs
        exact ⟨⟨h.lists, h.unique, h.refs⟩, fun _ _ => ⟨rfl, rfl⟩⟩
  | brelse p i =>
    dsimp only at hs
    split at hs
    case isFalse => cases hs
    case isTrue hp =>
      split at hs
      case isTrue => cases hs
      case isFalse hlock =>
        cases hs
        refine h.setBuf (fun b => ⟨rfl, rfl⟩) ?_ fun j hji => ?_
        · rw [hp, refs_releasing, if_pos rfl]
          have hlock : (s.cache.buf i).lock = some p := by simpa using hlock
          simp [owners, hlock, Task.refs]
        · rw [hp, refs_releasing, if_neg (Ne.symm hji)]
          rfl
  | unref p =>
    dsimp only at hs
    split at hs
    case h_2 => cases hs
    case h_1 i hp =>
      cases hs
      have horder : order (.unref p) s l =
          if (s.cache.buf i).refcnt = 1 then i :: l.erase i else l := by
        unfold order dropped
        by_cases hlast : (s.cache.buf i).refcnt = 1
        · simp [hp, hlast]
        · simp [hp, hlast]
      rw [horder]
      exact h.brelse hp
  | bpin i =>
    cases hs
    exact h.pin (fun b => ⟨rfl, rfl, rfl⟩) (by dsimp only; omega)
  | bunpin i =>
    dsimp only at hs
    split at hs
    case isFalse => cases hs
    case isTrue hpos =>
      cases hs
      have hcount := h.refs i
      exact h.pin (fun b => ⟨rfl, rfl, rfl⟩) (by dsimp only; omega)

/-! ## Whole runs -/

lemma reachable_inv {disk : ℕ → Block} (hs : Reachable disk s) : ∃ l, Inv s l := by
  refine preserved (I := fun s => ∃ l, Inv s l) ?_ ?_ hs
  · rintro s s' ⟨l, h⟩ ⟨a, ha⟩
    exact ⟨_, (h.step ha).1⟩
  · refine ⟨_, Cache.binit_lists disk, ?_, ?_⟩
    · intro i j hdev
      exact absurd rfl hdev
    · intro i
      simp [boot, Cache.binit, Buf.zero, System.holders, owners, Task.refs]

/-- In every state of the cache, the list through `head.next` and `head.prev` goes round all
buffers, each of them once; no two buffers cache the same block; a buffer is counted once for
each process that holds it and each pin. A step leaves the buffers in use their blocks, and the
list its order, except that a buffer whose last reference goes comes to the front. -/
theorem bcache_list {disk : ℕ → Block} (hs : Reachable disk s) :
    ∃ l : List (Fin NBUF), l.Perm (List.finRange NBUF) ∧
      s.cache.links.Represents none (l.map some) ∧
      (∀ i j, (s.cache.buf i).dev ≠ 0 → (s.cache.buf i).dev = (s.cache.buf j).dev →
        (s.cache.buf i).blockno = (s.cache.buf j).blockno → i = j) ∧
      (∀ i, (s.cache.buf i).refcnt = s.holders i + s.pins i) ∧
      ∀ a s', step a s = .ok s' →
        s'.cache.links.Represents none ((order a s l).map some) ∧
        ∀ i, 0 < (s.cache.buf i).refcnt →
          (s'.cache.buf i).dev = (s.cache.buf i).dev ∧
            (s'.cache.buf i).blockno = (s.cache.buf i).blockno := by
  obtain ⟨l, h⟩ := reachable_inv hs
  refine ⟨l, h.lists.perm, h.lists.1, h.unique, h.refs, fun a s' ha => ?_⟩
  obtain ⟨h', hkeeps⟩ := h.step ha
  exact ⟨h'.lists.1, hkeeps⟩

/-- Take the given actions from `s` on, up to the first one that is not possible. -/
def runActs : System → List Act → System := Lib.runActs fun s a => (step a s).toOption

lemma runActs_run (s : System) (acts : List Act) :
    Relation.ReflTransGen Next s (runActs s acts) :=
  runActs_of_mem (fun a _ _ _ hs => ⟨a, eq_ok_of_toOption hs⟩) s

/-- Process 0 reads blocks 5 and 6 and pins the first one; process 1 waits for it. -/
def sharedRun : System :=
  runActs (boot fun _ => Bytes.fill BSIZE 0)
    [.bread 0 ROOTDEV 5, .acquiresleep 0, .read 0, .bpin 0, .bread 0 ROOTDEV 6, .acquiresleep 0,
      .read 0, .bread 1 ROOTDEV 5, .brelse 0 1]

theorem bcache_list_sharedRun :
    ((sharedRun.cache.buf 0).refcnt, sharedRun.holders 0, sharedRun.pins 0) = (3, 2, 1) ∧
    ∃ l : List (Fin NBUF), l.Perm (List.finRange NBUF) ∧
      sharedRun.cache.links.Represents none (l.map some) ∧
      (∀ i j, (sharedRun.cache.buf i).dev ≠ 0 →
        (sharedRun.cache.buf i).dev = (sharedRun.cache.buf j).dev →
        (sharedRun.cache.buf i).blockno = (sharedRun.cache.buf j).blockno → i = j) ∧
      (∀ i, (sharedRun.cache.buf i).refcnt = sharedRun.holders i + sharedRun.pins i) ∧
      ∀ a s', step a sharedRun = .ok s' →
        s'.cache.links.Represents none ((order a sharedRun l).map some) ∧
        ∀ i, 0 < (sharedRun.cache.buf i).refcnt →
          (s'.cache.buf i).dev = (sharedRun.cache.buf i).dev ∧
            (s'.cache.buf i).blockno = (sharedRun.cache.buf i).blockno :=
  ⟨by decide +kernel, bcache_list (runActs_run ..)⟩

/-- In every state, `bget` and `brelse` do with the pointers what they do with a list that has the
least recently used buffer last: the same result, and the list of the pointers is the same. -/
theorem bcache_refines {disk : ℕ → Block} (hs : Reachable disk s) :
    ∃ l, s.cache.Lists l ∧
      (∀ p dev blockno, Disk.bget p dev blockno (s.cache.toBio l) =
        s.cache.bget dev blockno >>= fun r =>
          acquiresleep p r.1 (r.2.toBio l) >>= fun b => pure (r.1, b)) ∧
      (∀ dev blockno r, s.cache.bget dev blockno = .ok r → r.2.Lists l) ∧
      ∀ p i, (s.cache.buf i).lock = some p → ∃ c' l', c'.Lists l' ∧
        c' = (s.cache.setBuf i fun b => { b with lock := none }).brelse i ∧
        Disk.brelse p i (s.cache.toBio l) = pure (c'.toBio l') := by
  obtain ⟨l, h⟩ := reachable_inv hs
  refine ⟨l, h.lists, h.lists.bget_toBio, fun _ _ _ hr => h.lists.bget hr,
    fun p i hp => ⟨_, _, ?_, rfl, Cache.brelse_toBio _ l hp⟩⟩
  have hunlocked : (s.cache.setBuf i fun b => { b with lock := none }).Lists l := h.lists
  have hlists := hunlocked.brelse i
  rwa [Cache.setBuf_self] at hlists

theorem bcache_refines_sharedRun : (sharedRun.cache.buf 0).lock = some 0 ∧
    ∃ c' l l', Disk.brelse 0 0 (sharedRun.cache.toBio l) = .ok (Cache.toBio c' l') := by
  obtain ⟨l, -, -, -, hbrelse⟩ := bcache_refines (s := sharedRun) (runActs_run ..)
  obtain ⟨c', l', -, -, h⟩ := hbrelse 0 0 (by decide +kernel)
  exact ⟨by decide +kernel, c', l, l', h⟩

end Ring

end Xv6.Disk
