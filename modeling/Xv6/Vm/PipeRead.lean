import Xv6.Lib.Fifo
import Xv6.Vm.Safety
import Xv6.Vm.UserCopy

/-!
# What `piperead` takes and what it delivers

`piperead` advances `nread` before it copies the byte out. When the destination of a byte is
not mapped, the byte is gone: it was taken from the ring, but it is neither in user memory
nor counted in the result. The call takes exactly the bytes that it delivers if and only if
user code can access the destination of all bytes that it takes.
-/

namespace Xv6.Vm

open Xv6.Lib
open Xv6.Process (Slot Stop)

/-- Offset of `data` in `struct pipe`. -/
def PIPEDATA : ℕ := 24

/-- Offset of `nread` in `struct pipe`. -/
def NREAD : ℕ := 536

/-- Offset of `nwrite` in `struct pipe`. -/
def NWRITE : ℕ := 540

/-- The loop of `piperead`, at byte `i`, with `n` bytes to go. -/
def pipereadLoop (pagetable pi addr : ℕ) : ℕ → ℕ → VmM ℤ
  | 0, i => return i
  | n + 1, i => do
    let page := (← get).mem pi
    let nread := page.ld 4 NREAD
    if nread = page.ld 4 NWRITE then return i
    else
      let ch := page.get (PIPEDATA + nread % PIPESIZE)
      modify fun s => s.setPage pi ((s.mem pi).st 4 NREAD ((nread + 1) % 2 ^ 32))
      if (← copyout pagetable ((addr + i) % 2 ^ 64) [ch]) = -1 then return i
      else pipereadLoop pagetable pi addr n (i + 1)

/-- `piperead`. The caller sleeps while the pipe is empty and has a writer. -/
def piperead (pagetable pi addr : ℕ) (n : BitVec 32) : VmM ℤ := do
  let page := (← get).mem pi
  if page.ld 4 NREAD = page.ld 4 NWRITE ∧ page.ld 4 WRITEOPEN ≠ 0 then throw .disabled
  else pipereadLoop pagetable pi addr n.toInt.toNat 0

variable {t : Table} {s : Ram} {pi : ℕ}

/-- The ring buffer in the page of a pipe. -/
def ring (page : Page) : Fifo UInt8 32 PIPESIZE where
  data i := page.get (PIPEDATA + i)
  nread := .ofNat 32 (page.ld 4 NREAD)
  nwrite := .ofNat 32 (page.ld 4 NWRITE)

/-- What `pi->nread++` does to the page. -/
def advance (page : Page) : Page := page.st 4 NREAD ((page.ld 4 NREAD + 1) % 2 ^ 32)

lemma ring_empty_iff (page : Page) : (ring page).Empty ↔ page.ld 4 NREAD = page.ld 4 NWRITE := by
  have h₁ := page.ld_lt 4 NREAD
  have h₂ := page.ld_lt 4 NWRITE
  unfold Fifo.Empty ring
  dsimp only
  rw [← BitVec.toNat_inj, BitVec.toNat_ofNat, BitVec.toNat_ofNat, Nat.mod_eq_of_lt (by omega),
    Nat.mod_eq_of_lt (by omega)]

lemma ring_front (page : Page) :
    (ring page).front = page.get (PIPEDATA + page.ld 4 NREAD % PIPESIZE) := by
  have hlt := page.ld_lt 4 NREAD
  have hnat : (BitVec.ofNat 32 (page.ld 4 NREAD)).toNat = page.ld 4 NREAD := by
    rw [BitVec.toNat_ofNat, Nat.mod_eq_of_lt (by omega)]
  unfold Fifo.front Fifo.index ring
  dsimp only
  rw [hnat]

/-- Only the counter changes. -/
lemma ring_advance (page : Page) : ∀ k < PIPESIZE,
    (ring (advance page)).data k = (ring page).pop.data k := by
  intro k hk
  refine Bytes.get_put_of_disjoint (.inl ?_)
  unfold PIPEDATA NREAD
  unfold PIPESIZE at hk
  omega

lemma ring_advance_nread (page : Page) : (ring (advance page)).nread = (ring page).pop.nread := by
  have h := page.ld_lt 4 NREAD
  unfold ring Fifo.pop
  dsimp only
  rw [advance, Bytes.ld_st (by decide), ← BitVec.ofNat_add]
  refine BitVec.eq_of_toNat_eq ?_
  simp only [BitVec.toNat_ofNat]
  omega

lemma ring_advance_nwrite (page : Page) :
    (ring (advance page)).nwrite = (ring page).pop.nwrite := by
  unfold ring Fifo.pop
  dsimp only
  rw [advance, Bytes.ld_st_of_disjoint (.inr (by decide))]

/-- `pi->nread++` takes the first byte. -/
lemma contents_advance {page : Page} (h : ¬(ring page).Empty) :
    (ring page).contents = (ring page).front :: (ring (advance page)).contents := by
  have hpos : 0 < (ring page).count := by
    rw [Fifo.empty_iff] at h
    omega
  rw [Fifo.contents_eq_cons hpos, Fifo.contents_congr (by decide) (ring_advance_nread page)
    (ring_advance_nwrite page) (ring_advance page)]

/-- The page of a pipe is no page of the page table, and user code cannot access it. -/
structure Apart (t : Table) (pi : ℕ) : Prop where
  node : ∀ l k, t.node l k ≠ pi
  user : ∀ va, t.Accessible va → t.addr va ≠ pi

/-- What the loop of `piperead` does: it delivers `k` bytes and takes `k` from the ring, or
stops at a byte that it has taken but cannot deliver. -/
structure Delivers (t : Table) (pi addr n : ℕ) (s : Ram) (k : ℕ) (s' : Ram) : Prop where
  access : ∀ i < k, t.Accessible (addr + i)
  mem : ∀ pa ≠ pi, s'.mem pa = t.write s.mem addr ((ring (s.mem pi)).contents.take k) pa
  free : s'.free = s.free
  result : (k = min n (ring (s.mem pi)).contents.length ∧
      (ring (s'.mem pi)).contents = (ring (s.mem pi)).contents.drop k) ∨
    (k < min n (ring (s.mem pi)).contents.length ∧ ¬t.Accessible (addr + k) ∧
      (ring (s'.mem pi)).contents = (ring (s.mem pi)).contents.drop (k + 1))

namespace Delivers

variable {addr n k : ℕ} {s' s₁ : Ram}

/-- There is nothing to deliver, or no room for it. -/
lemma nothing (h : n = 0 ∨ (ring (s.mem pi)).Empty) : Delivers t pi addr n s 0 s := by
  refine ⟨fun _ hi => by omega, fun _ _ => rfl, rfl, .inl ⟨?_, rfl⟩⟩
  rw [Fifo.length_contents]
  obtain rfl | h := h
  · simp
  · rw [(Fifo.empty_iff _).1 h]
    simp

/-- The first byte was taken and cannot be delivered. -/
lemma lost (hne : ¬(ring (s.mem pi)).Empty) (hacc : ¬t.Accessible addr) :
    Delivers t pi addr (n + 1) s 0 (s.setPage pi (advance (s.mem pi))) := by
  refine ⟨fun _ hi => by omega, fun pa hpa => s.setPage_of_ne hpa _, rfl, .inr ⟨?_, hacc, ?_⟩⟩
  · rw [contents_advance hne, List.length_cons]
    omega
  · rw [s.setPage_self, contents_advance hne]
    rfl

/-- The first byte was delivered, and the loop goes on. -/
lemma cons (happ : Apart t pi) (hne : ¬(ring (s.mem pi)).Empty) (hacc : t.Accessible addr)
    (hs₁ : s₁ = { s with
      mem := t.write (s.setPage pi (advance (s.mem pi))).mem addr [(ring (s.mem pi)).front] })
    (hrest : Delivers t pi (addr + 1) n s₁ k s') : Delivers t pi addr (n + 1) s (k + 1) s' := by
  have hpi : s₁.mem pi = advance (s.mem pi) := by
    rw [hs₁]
    refine (t.write_of_ne _ fun i hi => ?_).trans (s.setPage_self ..)
    obtain rfl : i = 0 := by simpa using hi
    exact happ.user addr hacc
  have hcons : (ring (s.mem pi)).contents =
      (ring (s.mem pi)).front :: (ring (s₁.mem pi)).contents := by
    rw [hpi]
    exact contents_advance hne
  refine ⟨fun i hi => ?_, fun pa hpa => ?_, by rw [hrest.free, hs₁], ?_⟩
  · cases i with
    | zero => exact hacc
    | succ i =>
      have := hrest.access i (by omega)
      rwa [Nat.add_assoc, Nat.add_comm 1] at this
  · -- the counter is in another page
    rw [hrest.mem pa hpa, hcons, List.take_succ_cons, Table.write]
    refine t.write_congr _ ?_
    rw [hs₁]
    exact t.write_congr [_] (s.setPage_of_ne hpa _)
  · rw [hcons, List.length_cons, List.drop_succ_cons, List.drop_succ_cons]
    obtain ⟨hk, hc⟩ | ⟨hk, hstop, hc⟩ := hrest.result
    · exact .inl ⟨by omega, hc⟩
    · rw [Nat.add_assoc, Nat.add_comm 1] at hstop
      exact .inr ⟨by omega, hstop, hc⟩

section Whole

variable (h : Delivers t pi addr n s k s')

include h

lemma le : k ≤ min n (ring (s.mem pi)).contents.length := by
  obtain ⟨hk, -⟩ | ⟨hk, -⟩ := h.result
  · exact hk.le
  · exact hk.le

/-- What user code reads afterwards. -/
lemma byte (hspace : UserSpace s.mem t) (happ : Apart t pi) {a : ℕ} (ha : t.Accessible a) :
    t.byte s'.mem a = if addr ≤ a ∧ a < addr + k then (ring (s.mem pi)).contents.getD (a - addr) 0
      else t.byte s.mem a := by
  have hk := h.le
  have hlen : ((ring (s.mem pi)).contents.take k).length = k := by
    rw [List.length_take]
    omega
  have hacc : ∀ i < ((ring (s.mem pi)).contents.take k).length, t.Accessible (addr + i) :=
    fun i hi => h.access i (hlen ▸ hi)
  have hwrite := hspace.byte_write hacc ha
  rw [Table.byte, h.mem _ (happ.user a ha), ← Table.byte, hwrite, hlen]
  by_cases hin : addr ≤ a ∧ a < addr + k
  · rw [if_pos hin, if_pos hin, List.getD_eq_getElem?_getD, List.getElem?_take_of_lt (by omega),
      ← List.getD_eq_getElem?_getD]
  · rw [if_neg hin, if_neg hin]

/-- Every byte that was taken has arrived exactly if user code can access its destination. -/
lemma whole_iff : (ring (s'.mem pi)).contents = (ring (s.mem pi)).contents.drop k ↔
    ∀ i < min n (ring (s.mem pi)).contents.length, t.Accessible (addr + i) := by
  obtain ⟨hk, hcontents⟩ | ⟨hk, hstop, hcontents⟩ := h.result
  · exact ⟨fun _ i hi => h.access i (hk ▸ hi), fun _ => hcontents⟩
  · refine ⟨fun hdrop => ?_, fun hall => absurd (hall k hk) hstop⟩
    have hlen := congrArg List.length (hcontents.symm.trans hdrop)
    rw [List.length_drop, List.length_drop] at hlen
    omega

/-- The bytes that arrive. -/
lemma reach_eq : t.reach addr ((ring (s.mem pi)).contents.take n) =
    (ring (s.mem pi)).contents.take k := by
  have hk := h.le
  rw [Table.reach_eq_take h.access, List.take_take, Nat.min_eq_left (by omega)]
  obtain ⟨hk, -⟩ | ⟨-, hstop, -⟩ := h.result
  · exact .inl (by rw [List.length_take, hk])
  · exact .inr hstop

end Whole

end Delivers

lemma pipereadLoop_run (happ : Apart t pi) (addr n : ℕ) : ∀ i s, UserSpace s.mem t →
    addr + i < 2 ^ 64 → ∃ k s', (pipereadLoop t.root pi addr n i).run s =
      .ok (((i + k : ℕ) : ℤ), s') ∧ Delivers t pi (addr + i) n s k s' := by
  induction n with
  | zero => exact fun i s _ _ => ⟨0, s, rfl, .nothing (.inl rfl)⟩
  | succ n ih =>
    intro i s h hlt
    by_cases hempty : (ring (s.mem pi)).Empty
    · refine ⟨0, s, ?_, .nothing (.inr hempty)⟩
      rw [pipereadLoop, run_get_bind]
      dsimp only
      rw [if_pos ((ring_empty_iff _).1 hempty)]
      rfl
    let s₁ := s.setPage pi (advance (s.mem pi))
    have hspace : UserSpace s₁.mem t := h.congr fun l k _ => s.setPage_of_ne (happ.node l k) _
    obtain ⟨r, k, hreach, hcopy⟩ := hspace.copyout_run (addr + i) [(ring (s.mem pi)).front]
    have hround : (pipereadLoop t.root pi addr (n + 1) i).run s =
        ((do
          if (← copyout t.root (addr + i) [(ring (s.mem pi)).front]) = -1 then return (i : ℤ)
          else pipereadLoop t.root pi addr n (i + 1)) : VmM ℤ).run s₁ := by
      rw [pipereadLoop, run_get_bind]
      dsimp only
      rw [if_neg fun hc => hempty ((ring_empty_iff _).2 hc), run_modify_bind,
        Nat.mod_eq_of_lt hlt, ring_front]
      rfl
    rw [hround, run_bind_of_ok hcopy]
    obtain ⟨rfl, rfl⟩ | ⟨rfl, hk, hstop⟩ := hreach.result
    · have hacc : t.Accessible (addr + i) := hreach.before 0 (by simp)
      have hmax := hacc.1
      unfold MAXVA at hmax
      rw [if_neg (by decide), List.take_length]
      obtain ⟨k, s', hrun, hrest⟩ := ih (i + 1)
        { s₁ with mem := t.write s₁.mem (addr + i) [(ring (s.mem pi)).front] }
        (hspace.write fun j hj => hreach.before j hj) (by omega)
      refine ⟨k + 1, s', ?_, .cons happ hempty hacc rfl hrest⟩
      rw [hrun, Nat.add_right_comm, Nat.add_assoc]
    · obtain rfl : k = 0 := by simpa using hk
      rw [if_pos rfl]
      exact ⟨0, s₁, rfl, .lost hempty hstop⟩

/-! ## Results -/

/-- The address space of every process is one of those that the copies are specified for. -/
lemma Inv.userSpace {lk : Link} {s : State} {p : Slot} (h : Inv lk s)
    (hp : (s.sys.proc p).state ≠ .unused) :
    UserSpace s.ram.mem (s.owners.table (some p)) := by
  obtain ⟨hslots, hg⟩ := h.owners
  obtain ⟨g, hshape⟩ := (hslots.live hp).shape
  exact (hg.core (some p)).userSpace (fun b hb => hb.1) hshape

lemma Owners.pipe_of_ends {G : Owners} {w : Bool} (h : G.ends pi w = true) : G.pipe pi = true := by
  unfold Owners.pipe
  cases w with
  | false => simp [h]
  | true => simp [h]

/-- The pages of pipes are apart from the address space of every process. -/
lemma Inv.apart {lk : Link} {s : State} {p : Slot} (h : Inv lk s)
    (hp : (s.sys.proc p).state ≠ .unused) (hpi : s.owners.pipe pi = true) :
    Apart (s.owners.table (some p)) pi := by
  obtain ⟨hslots, hg⟩ := h.owners
  obtain ⟨g, hshape⟩ := (hslots.live hp).shape
  have hpage : s.owners.page (.pipe pi) = pi := by rw [Owners.page, if_pos hpi]
  have hne : s.owners.page (.pipe pi) ≠ 0 := by
    rw [hpage]
    exact hg.pipe_ne pi hpi
  refine ⟨fun l k heq => ?_, fun va ha heq => ?_⟩
  · cases hg.owned.inj (.pipe pi) (.node (some p) l k) hne (hpage.trans heq.symm)
  · have hv : vpn va < UPAGES := by
      have hlt := (hshape.addr_eq (((h.userSpace hp).accessible_iff).2 ha)).1
      exact hlt.trans_le hshape.le
    have hleaf : s.owners.page (.leaf (some p) (vpn va)) = pi := by
      rw [Owners.page, if_pos hv, ← heq, ha.addr_eq]
    cases hg.owned.inj (.pipe pi) (.leaf (some p) (vpn va)) hne (hpage.trans hleaf.symm)

lemma piperead_run (h : UserSpace s.mem t) (happ : Apart t pi) (addr : BitVec 64) (n : BitVec 32)
    (hready : ¬((ring (s.mem pi)).Empty ∧ (s.mem pi).ld 4 WRITEOPEN ≠ 0)) :
    ∃ (k : ℕ) (s' : Ram), (piperead t.root pi addr.toNat n).run s = .ok ((k : ℤ), s') ∧
      Delivers t pi addr.toNat n.toInt.toNat s k s' := by
  obtain ⟨k, s', hrun, hdel⟩ := pipereadLoop_run happ addr.toNat n.toInt.toNat 0 s h addr.isLt
  rw [Nat.zero_add] at hrun
  refine ⟨k, s', ?_, hdel⟩
  rw [piperead, run_get_bind]
  dsimp only
  rw [if_neg fun hc => hready ⟨(ring_empty_iff _).2 hc.1, hc.2⟩, hrun]

/-- A `piperead` that does not have to sleep takes from the ring what it stores in user memory
and counts in its result if and only if user code can access the destination of every byte
that there is to take. Then it takes all of these. -/
theorem piperead_takes_what_it_delivers (h : UserSpace s.mem t) (happ : Apart t pi)
    (addr : BitVec 64) (n : BitVec 32)
    (hready : ¬((ring (s.mem pi)).Empty ∧ (s.mem pi).ld 4 WRITEOPEN ≠ 0)) :
    ∃ (k : ℕ) (s' : Ram), (piperead t.root pi addr.toNat n).run s = .ok ((k : ℤ), s') ∧
      (∀ a, t.Accessible a → t.byte s'.mem a = if addr.toNat ≤ a ∧ a < addr.toNat + k
        then (ring (s.mem pi)).contents.getD (a - addr.toNat) 0 else t.byte s.mem a) ∧
      ((ring (s'.mem pi)).contents = (ring (s.mem pi)).contents.drop k ↔
        ∀ i < min n.toInt.toNat (ring (s.mem pi)).contents.length,
          t.Accessible (addr.toNat + i)) ∧
      (k = min n.toInt.toNat (ring (s.mem pi)).contents.length ↔
        ∀ i < min n.toInt.toNat (ring (s.mem pi)).contents.length,
          t.Accessible (addr.toNat + i)) := by
  obtain ⟨k, s', hrun, hdel⟩ := piperead_run h happ addr n hready
  refine ⟨k, s', hrun, fun a ha => hdel.byte h happ ha, hdel.whole_iff, ?_, fun hall => ?_⟩
  · rintro rfl
    exact hdel.access
  · obtain ⟨hk, -⟩ | ⟨hk, hstop, -⟩ := hdel.result
    · exact hk
    · exact absurd (hall k hk) hstop

/-- A pipe with one byte, open at both ends. -/
def onePipe : Page :=
  ((((Bytes.fill PGSIZE 0).put PIPEDATA [65]).st 4 NWRITE 1).st 4 READOPEN 1).st 4 WRITEOPEN 1

/-- One page of user memory, and a pipe. -/
def onePipeRam : Ram := ⟨Function.update onePageMem (5 * PGSIZE) onePipe, [], fun _ => false⟩

lemma onePipe_contents : (ring (onePipeRam.mem (5 * PGSIZE))).contents = [65] := by
  have hpage : onePipeRam.mem (5 * PGSIZE) = onePipe := by simp [onePipeRam]
  rw [hpage]
  decide +kernel

lemma onePipe_ready : ¬((ring (onePipeRam.mem (5 * PGSIZE))).Empty ∧
    (onePipeRam.mem (5 * PGSIZE)).ld 4 WRITEOPEN ≠ 0) := by
  rintro ⟨hempty, -⟩
  have hlen := congrArg List.length onePipe_contents
  rw [Fifo.length_contents, (Fifo.empty_iff _).1 hempty] at hlen
  exact absurd hlen (by decide)

lemma onePage_node_lt (l k : ℕ) : onePage.node l k < 4 * PGSIZE := by
  unfold onePage PGSIZE
  dsimp only
  split <;> omega

lemma onePage_accessible_iff (va : ℕ) : onePage.Accessible va ↔ va < PGSIZE := by
  have hiff : onePage.Accessible va ↔ va < MAXVA ∧ vpn va = 0 := by
    refine and_congr_right fun _ => ⟨fun h => ?_, fun h => by rw [h]; decide⟩
    by_contra hv
    rw [show onePage.leaf (vpn va) = 0 from if_neg hv] at h
    exact absurd h.1 (by decide)
  rw [hiff]
  unfold vpn MAXVA PGSIZE
  omega

lemma onePipe_apart : Apart onePage (5 * PGSIZE) := by
  refine ⟨fun l k h => ?_, fun va ha h => ?_⟩
  · have := onePage_node_lt l k
    rw [h] at this
    exact absurd this (by decide)
  · have hv : vpn va = 0 := Nat.div_eq_of_lt ((onePage_accessible_iff va).1 ha)
    rw [ha.addr_eq, hv] at h
    exact absurd h (by decide)

lemma onePipe_userSpace : UserSpace onePipeRam.mem onePage :=
  onePage_userSpace.congr fun l k _ => Function.update_of_ne (onePipe_apart.node l k) ..

/-- A read of the byte into the only page of the user. -/
theorem piperead_takes_what_it_delivers_one : ∃ s', (piperead onePage.root (5 * PGSIZE) 16 1).run
    onePipeRam = .ok (1, s') ∧ (ring (s'.mem (5 * PGSIZE))).contents = [] ∧
      onePage.byte s'.mem 16 = 65 := by
  obtain ⟨k, s', hrun, hbyte, hwhole, hall⟩ := piperead_takes_what_it_delivers onePipe_userSpace
    onePipe_apart 16 1 onePipe_ready
  have hdest : ∀ i < min (1 : BitVec 32).toInt.toNat (ring (onePipeRam.mem
      (5 * PGSIZE))).contents.length, onePage.Accessible ((16 : BitVec 64).toNat + i) := by
    rw [onePipe_contents]
    intro i hi
    refine (onePage_accessible_iff _).2 ?_
    unfold PGSIZE
    simp at hi
    simp [hi]
  have hk := hall.2 hdest
  have hcontents := hwhole.2 hdest
  rw [onePipe_contents] at hk hcontents hbyte
  obtain rfl : k = 1 := hk
  refine ⟨s', hrun, hcontents, ?_⟩
  rw [hbyte 16 ((onePage_accessible_iff _).2 (by decide)), if_pos (by decide)]
  rfl

/-- A read of the byte into memory that is not mapped: the call returns 0, and the byte is no
longer in the pipe. -/
theorem piperead_loses_byte : ∃ s', UserSpace onePipeRam.mem onePage ∧ Apart onePage (5 * PGSIZE) ∧
    (piperead onePage.root (5 * PGSIZE) PGSIZE 1).run onePipeRam = .ok (0, s') ∧
    (ring (onePipeRam.mem (5 * PGSIZE))).contents = [65] ∧
    (ring (s'.mem (5 * PGSIZE))).contents = [] := by
  obtain ⟨k, s', hrun, hdel⟩ :=
    piperead_run onePipe_userSpace onePipe_apart (.ofNat 64 PGSIZE) 1 onePipe_ready
  have haddr : (BitVec.ofNat 64 PGSIZE).toNat = PGSIZE := by decide
  have hbad : ¬onePage.Accessible PGSIZE := fun h =>
    absurd ((onePage_accessible_iff _).1 h) (lt_irrefl _)
  rw [haddr] at hrun hdel
  have hk : k = 0 := by
    by_contra hne
    exact hbad (hdel.access 0 (by omega))
  subst hk
  refine ⟨s', onePipe_userSpace, onePipe_apart, hrun, onePipe_contents, ?_⟩
  have hresult := hdel.result
  rw [onePipe_contents] at hresult
  obtain ⟨h, -⟩ | ⟨-, -, h⟩ := hresult
  · exact absurd h (by decide)
  · exact h

end Xv6.Vm
