import Xv6.Vm.Copies

/-!
# What `fork` and `sbrk` do to the contents of memory

`uvmcopy` gives the child pages of its own with the flags and the contents of those of the
parent. `sbrk` maps zeroed pages or takes the last ones away, and leaves the contents of the
others alone. Either of them takes everything back when memory runs out, except for pages of
the page table.
-/

namespace Xv6.Vm

open Xv6.Lib
open Xv6.Process (Slot ProcState Stop)
open Function (update update_of_ne update_self)

variable {lk : Link} {D : Set ℕ} {m : ℕ → Page} {t t' : Table} {h : ℕ → ℕ} {r r' : Ram} {G : Owners}
  {K : Set ℕ} {s : State} {p : Slot} {o o' : Option Slot}

/-! ## Free pages and private pages -/

/-- The same pages are free as before, except for those of the page table `t`. -/
def SameFree (t : Table) (r r' : Ram) : Prop :=
  ∀ b, (∀ l k, t.node l k ≠ b) → (b ∈ r'.free ↔ b ∈ r.free)

/-- With the entries for the user as before, only page-table pages can have been allocated. -/
lemma Core.sameFree (hc : Core D m t h r) (hc' : Core D m t' h r')
    (hnode : ∀ l k, t.node l k ≠ 0 → t'.node l k = t.node l k)
    (hleaf : ∀ v < UPAGES, t'.leaf v = t.leaf v) : SameFree t' r r' := by
  intro b hb
  by_cases hD : b ∈ D
  · have hb0 : b ≠ 0 := hc.owned.ne_zero_of_mem hD
    have hcell : (∃ x, t'.cell h x = b) ↔ ∃ x, t.cell h x = b := by
      refine exists_congr fun x => ?_
      cases x with
      | node l k =>
        refine iff_of_false (hb l k) fun heq => hb l k ?_
        have hcur : t.node l k = b := heq
        rw [hnode l k (by rwa [hcur]), hcur]
      | leaf v =>
        by_cases hv : v < UPAGES
        · rw [Core.leaf_cell hv, Core.leaf_cell hv, hleaf v hv]
        · simp [Table.cell, hv]
      | hand j => rfl
    rw [← not_iff_not, hc.owned.used_iff b hD, hc'.owned.used_iff b hD, hcell]
  · exact iff_of_false (fun hin => hD (hc'.sub b hin)) fun hin => hD (hc.sub b hin)

/-- An address space is left alone: its page table and the contents of its pages. -/
structure Untouched (t : Table) (mem mem' : ℕ → Page) : Prop where
  table : readTable mem' t.root = t
  page : ∀ v < UPAGES, mem' (pte2pa (t.leaf v)) = mem (pte2pa (t.leaf v))

/-- The table that memory holds for an owner. -/
lemma Global.readTable_eq (hg : Global lk K m G r) (o : Option Slot) :
    readTable r.mem (G.table o).root = G.table o := by
  obtain ⟨o', ho⟩ : ∃ o' : Option Slot, o ≠ o' := by
    cases o with
    | none => exact ⟨some 0, by simp⟩
    | some p => exact ⟨none, by simp⟩
  exact Vm.readTable_eq (hg.rep o) (hg.aside ho).aligned

/-- A store to a page of one address space does not show in another. -/
lemma Global.untouched (hg : Global lk ∅ m G r) (ho : o ≠ o') {v : ℕ} (hv : v < UPAGES)
    (hl : (G.table o).leaf v ≠ 0) (page : Page) :
    Untouched (G.table o') r.mem (update r.mem (pte2pa ((G.table o).leaf v)) page) := by
  have hplace : G.page (.leaf o v) = pte2pa ((G.table o).leaf v) := by rw [Owners.page, if_pos hv]
  have hne : pte2pa ((G.table o).leaf v) ≠ 0 := (hg.leaves o v hl).page
  refine ⟨?_, fun w hw => update_of_ne (fun heq => ?_) ..⟩
  · exact (hg.touch hplace hne (by simp) (by simp) (by simp) page).readTable_eq o'
  · have hplace' : G.page (.leaf o' w) = pte2pa ((G.table o).leaf v) := by
      rw [Owners.page, if_pos hw, heq]
    have := hg.owned.inj (.leaf o' w) (.leaf o v) (by rwa [hplace']) (hplace'.trans hplace.symm)
    simp only [Place.leaf.injEq] at this
    exact ho this.1.symm

/-! ## `fork` -/

/-- The first `n` pages of the address space `t` are a copy of those of `told`: they are
mapped with the same flags and have the same contents, on pages of their own, so that stores
to one of the two do not show in the other. -/
structure CopyOf (told : Table) (mem : ℕ → Page) (n : ℕ) (t : Table) (mem' : ℕ → Page) :
    Prop where
  mapped : ∀ v < n, t.leaf v ≠ 0
  flags : ∀ v < n, pteFlags (t.leaf v) = pteFlags (told.leaf v)
  page : ∀ v < n, mem' (pte2pa (t.leaf v)) = mem (pte2pa (told.leaf v))
  inj : ∀ v < n, ∀ w < n, pte2pa (t.leaf v) = pte2pa (t.leaf w) → v = w
  apart : ∀ v < n, ∀ w < n, pte2pa (t.leaf v) ≠ pte2pa (told.leaf w)
  store_new : ∀ v < n, ∀ page,
    Untouched told mem' (update mem' (pte2pa (t.leaf v)) page)
  store_old : ∀ v < n, ∀ page,
    Untouched t mem' (update mem' (pte2pa (told.leaf v)) page)

lemma Global.copyOf (hg : Global lk ∅ m G r) (mem : ℕ → Page) (ho : o ≠ o') {tf tf' n : ℕ}
    {g g' : Option ℕ} (hold : Shape lk tf n g (G.table o)) (hnew : Shape lk tf' n g' (G.table o'))
    (hflags : SameFlags (G.table o) n (G.table o'))
    (hpage : ∀ v < n, r.mem (pte2pa ((G.table o').leaf v)) = mem (pte2pa ((G.table o).leaf v))) :
    CopyOf (G.table o) mem n (G.table o') r.mem := by
  have hle : ∀ {v}, v < n → v < UPAGES := fun hv => hv.trans_le hold.le
  have huser : ∀ {o v}, v < n → G.page (.leaf o v) = pte2pa ((G.table o).leaf v) := by
    intro o v hv
    rw [Owners.page, if_pos (hle hv)]
  have hne : ∀ {v}, v < n → pte2pa ((G.table o').leaf v) ≠ 0 := fun hv =>
    (hg.leaves o' _ (hnew.ne_zero hv)).page
  refine ⟨fun v hv => hnew.ne_zero hv, hflags, hpage, fun v hv w hw heq => ?_,
    fun v hv w hw heq => ?_, fun v hv page => ?_, fun v hv page => ?_⟩
  · rw [← huser hv, ← huser hw] at heq
    have := hg.owned.inj _ _ (by rw [huser hv]; exact hne hv) heq
    simpa using this
  · rw [← huser hv, ← huser hw] at heq
    have := hg.owned.inj _ _ (by rw [huser hv]; exact hne hv) heq
    simp only [Place.leaf.injEq] at this
    exact ho this.1.symm
  · exact hg.untouched ho.symm (hle hv) (hnew.ne_zero hv) page
  · exact hg.untouched ho (hle hv) (hold.ne_zero hv) page

/-- `uvmcopy` from a process to one without user memory: it copies all pages, or leaves no
page mapped and gives all pages back, except for those of the page table. In both cases it
leaves the parent alone. -/
theorem uvmcopy_copies {np : Slot} (h : Inv lk s) (hp : (s.sys.proc p).state ≠ .unused)
    (hnp : (s.sys.proc np).state ≠ .unused) (hne : p ≠ np) (hsz : (s.sys.proc np).sz = 0) :
    ∃ x r', (uvmcopy lk (s.sys.proc p).pagetable (s.sys.proc np).pagetable (s.sys.proc p).sz).run
        s.ram = .ok (x, r') ∧
      Untouched (s.owners.table (some p)) s.ram.mem r'.mem ∧
      r'.mem (s.sys.proc p).trapframe = s.ram.mem (s.sys.proc p).trapframe ∧
      (x = 0 ∧ CopyOf (s.owners.table (some p)) s.ram.mem (pages (s.sys.proc p).sz)
          (readTable r'.mem (s.sys.proc np).pagetable) r'.mem ∨
        x = -1 ∧ (∀ v < UPAGES, (readTable r'.mem (s.sys.proc np).pagetable).leaf v = 0) ∧
          SameFree (readTable r'.mem (s.sys.proc np).pagetable) s.ram r') := by
  obtain ⟨hslots, hg⟩ := h.owners
  obtain ⟨htf, htf0, hroot, g, hold⟩ := hslots.live hp
  obtain ⟨-, -, hroot', g', hnew⟩ := hslots.live hnp
  rw [hsz] at hnew
  have ho : some p ≠ some np := by simpa using hne
  have hc := hg.core (some np)
  have hspec := (uvmcopy_filled (fun b hb => hb.1) (hslots.hand 0) (hslots.hand 1) (hg.aside ho)
    hold (hnew.any_guard (g := g))).run hc
  rw [hroot, hroot'] at hspec
  obtain ⟨⟨x, r'⟩, hrun, t', hkeep, hf, hx⟩ := hspec.exists_ok
  have hg' := hg.back (by simp) hf.core
  -- the tables after the call
  obtain ⟨G', hG'⟩ : ∃ G', G' = s.owners.set (some np) t' s.owners.hand := ⟨_, rfl⟩
  rw [← hG'] at hg'
  have htable : G'.table (some p) = s.owners.table (some p) := by simp [hG', Owners.set, ho]
  have htable' : G'.table (some np) = t' := by simp [hG', Owners.set]
  have hread := hg'.readTable_eq (some p)
  have hread' := hg'.readTable_eq (some np)
  rw [htable] at hread
  rw [htable', hkeep.root, hroot'] at hread'
  refine ⟨x, r', hrun, ⟨hread, fun v hv => hf.core.frame _ ?_⟩, hf.core.frame _ ?_, ?_⟩
  · refine Global.notMem_focus (.leaf (some p) v) (fun c hc => ?_) (by rw [Owners.page, if_pos hv])
    cases c <;> simp_all [embed]
  · rw [← htf]
    exact Global.notMem_focus (.trapframe p) (fun c hc => by cases c <;> simp [embed] at hc) rfl
  rw [hread']
  obtain ⟨hx, hs'⟩ | ⟨hx, hs', hflags⟩ := hx
  · have hleaf : ∀ v < UPAGES, t'.leaf v = 0 := fun v hv => hs'.eq_zero (Nat.zero_le v) hv
    refine .inr ⟨hx, hleaf, hc.sameFree hf.core hkeep.node fun v hv => ?_⟩
    rw [hleaf v hv, hnew.eq_zero (Nat.zero_le v) hv]
  · refine .inl ⟨hx, ?_⟩
    rw [← htable, ← htable'] at hflags ⊢
    have hcopy := hg'.copyOf s.ram.mem ho (by rwa [htable]) (by rwa [htable']) hflags
      fun v hv => ?_
    · exact hcopy
    · rw [htable, htable']
      exact hf.page v (hv.trans_le hs'.le) (hs'.ne_zero hv)

/-- The child that `allocproc` gives `fork` is one as above. -/
lemma allocproc_child {np : Slot} {s' : State} (h : Inv lk s)
    (hrun : (allocproc lk).run s = .ok (some np, s')) :
    Inv lk s' ∧ (s.sys.proc np).state = .unused ∧ (s'.sys.proc np).state = .used ∧
      (s'.sys.proc np).sz = 0 ∧ ∀ q ≠ np, s'.sys.proc q = s.sys.proc q := by
  obtain ⟨m, P, G, hslots, hs⟩ := h
  have hproc := hs.proc
  subst hproc
  obtain ⟨hr, -⟩ | ⟨q, t, tf, hr, hunused, -, htf, hshape, hs'⟩ :=
    ((allocproc_spec hslots).run hs).of_ok hrun
  · cases hr
  obtain rfl : np = q := Option.some.inj hr
  obtain ⟨-, hsz, -⟩ := hslots.bare hunused
  rw [hs'.proc, update_self]
  refine ⟨⟨_, _, _, hslots.update ?_, hs'⟩, hunused, rfl, hsz, fun q hq => ?_⟩
  · refine .of_shape (g := none) (by simp [Proc.fresh]) (by simp [Proc.fresh]) rfl htf rfl ?_
    rw [show ((s.sys.proc np).fresh t.root tf).sz = 0 from hsz]
    exact hshape
  · exact update_of_ne hq ..

/-- The first process is ready to run, there is a child for it, and memory for a copy. -/
def State.forks (s : State) : Bool :=
  decide ((s.sys.proc initproc).state = .runnable) &&
    match (allocproc smallLink).run s with
    | .ok (some np, s') =>
      match (uvmcopy smallLink (s'.sys.proc initproc).pagetable (s'.sys.proc np).pagetable
        (s'.sys.proc initproc).sz).run s'.ram with
      | .ok (x, _) => x = 0
      | .error _ => false
    | _ => false

lemma smallStart_forks : ∃ s, Reachable smallLink s ∧ s.forks = true := by
  obtain ⟨s, hs, hforks⟩ := exists_outcome (x := smallStart) (f := State.forks) (by decide +kernel)
  exact ⟨s, smallStart_reachable hs, hforks⟩

theorem uvmcopy_copies_init : ∃ s np s' r', Reachable smallLink s ∧
    (allocproc smallLink).run s = .ok (some np, s') ∧
    (uvmcopy smallLink (s'.sys.proc initproc).pagetable (s'.sys.proc np).pagetable
      (s'.sys.proc initproc).sz).run s'.ram = .ok (0, r') ∧
    CopyOf (s'.owners.table (some initproc)) s'.ram.mem (pages (s'.sys.proc initproc).sz)
      (readTable r'.mem (s'.sys.proc np).pagetable) r'.mem := by
  obtain ⟨s, hs, hforks⟩ := smallStart_forks
  obtain ⟨hp, hforks⟩ := Bool.and_eq_true_iff.1 hforks
  replace hp : (s.sys.proc initproc).state = .runnable := by simpa using hp
  split at hforks
  case h_2 => cases hforks
  case h_1 np s' halloc =>
    obtain ⟨hinv, hunused, hused, hsz, hsame⟩ := allocproc_child hs.inv halloc
    have hne : initproc ≠ np := by
      rintro rfl
      simp [hp] at hunused
    have hp' : (s'.sys.proc initproc).state ≠ .unused := by
      rw [hsame _ hne, hp]
      simp
    obtain ⟨x, r', hrun, -, -, hx⟩ := uvmcopy_copies hinv hp' (by simp [hused]) hne hsz
    rw [hrun] at hforks
    have hzero : x = 0 := by simpa using hforks
    rw [hzero] at hrun hx
    obtain ⟨-, hcopy⟩ | ⟨hx, -⟩ := hx
    · exact ⟨s, np, s', r', hs, halloc, hrun, hcopy⟩
    · omega

/-! ## `sbrk` -/

/-- Pages that both sizes have keep their entry and their contents, and the pages that only
the new size has are zeroed. -/
structure Resized (t : Table) (mem : ℕ → Page) (sz sz' : ℕ) (t' : Table) (mem' : ℕ → Page) :
    Prop where
  kept : ∀ v < pages (min sz sz'), t'.leaf v = t.leaf v ∧
    mem' (pte2pa (t.leaf v)) = mem (pte2pa (t.leaf v))
  mapped : ∀ v < UPAGES, t'.leaf v ≠ 0 ↔ v < pages sz'
  fresh : ∀ v, pages sz ≤ v → v < pages sz' → mem' (pte2pa (t'.leaf v)) = Bytes.fill PGSIZE 0

section Runs

variable {α β : Type}

lemma run_proc (f : Proc → M β) : (proc p >>= f).run s = (f (s.sys.proc p)).run s := rfl

lemma run_vm {x : VmM α} {a : α} (f : α → M β) (hx : x.run s.ram = .ok (a, r)) :
    (vm x >>= f).run s = (f a).run { s with ram := r } := by
  rw [StateT.run_bind, vm_run hx]
  rfl

end Runs

section Sizes

variable (hi : Inv lk s) (hp : (s.sys.proc p).state ≠ .unused)

include hi hp

/-- The memory of a process is small, so that its size plus an `int` does not wrap. -/
lemma Inv.sz_le : (s.sys.proc p).sz ≤ 2 ^ 27 := by
  obtain ⟨hslots, hg⟩ := hi.owners
  obtain ⟨g, hshape⟩ := (hslots.live hp).shape
  have hpages := (hg.core (some p)).pages_le (fun b hb => hb.1) hshape.le fun v hv =>
    hshape.ne_zero hv
  unfold pages PGSIZE at hpages
  omega

/-- The table of a process after code that works on it. -/
lemma Inv.readTable_after (hc : Core (s.owners.focus lk (some p)) s.ram.mem t' s.owners.hand r')
    (hroot : t'.root = (s.owners.table (some p)).root) :
    readTable r'.mem (s.sys.proc p).pagetable = t' := by
  obtain ⟨hslots, hg⟩ := hi.owners
  have hread := (hg.back (by simp) hc).readTable_eq (some p)
  rwa [show (s.owners.set (some p) t' s.owners.hand).table (some p) = t' by simp [Owners.set],
    hroot, (hslots.live hp).root] at hread

/-- What user code sees is the same, and the free pages are, except for page-table pages. -/
structure Restored (t : Table) (r : Ram) (t' : Table) (r' : Ram) : Prop where
  leaf : ∀ v, t'.leaf v = t.leaf v
  page : ∀ v < UPAGES, t.leaf v ≠ 0 → r'.mem (pte2pa (t.leaf v)) = r.mem (pte2pa (t.leaf v))
  free : SameFree t' r r'

/-- What `uvmalloc` does for `growproc`. -/
lemma uvmalloc_resizes (newsz : ℕ) (hnew : (s.sys.proc p).sz < newsz) :
    ∃ x r', (uvmalloc lk (s.sys.proc p).pagetable (s.sys.proc p).sz newsz PTE_W).run s.ram =
        .ok (x, r') ∧
      (x = newsz ∧ Resized (s.owners.table (some p)) s.ram.mem (s.sys.proc p).sz newsz
          (readTable r'.mem (s.sys.proc p).pagetable) r'.mem ∨
        x = 0 ∧ Restored (s.owners.table (some p)) s.ram
          (readTable r'.mem (s.sys.proc p).pagetable) r') := by
  obtain ⟨hslots, hg⟩ := hi.owners
  obtain ⟨-, -, hroot, g, hshape⟩ := hslots.live hp
  have hc := hg.core (some p)
  have hspec := (uvmalloc_filled newsz PTE_W (fun b hb => hb.1)
    (hslots.hand 0) (hslots.hand 1) (by decide) hshape).run
    ⟨hc, fun _ _ _ => rfl⟩
  rw [hroot] at hspec
  obtain ⟨⟨x, r'⟩, hrun, t', hkeep, hx⟩ := hspec.exists_ok
  refine ⟨x, r', hrun, ?_⟩
  obtain ⟨hx, hs', hf⟩ | ⟨hx, hs', hf⟩ := hx
  · -- all is taken back
    rw [hi.readTable_after hp hf.core hkeep.root]
    have hleaf : ∀ v, t'.leaf v = (s.owners.table (some p)).leaf v := by
      intro v
      by_cases hv : v < pages (s.sys.proc p).sz ∨ UPAGES ≤ v
      · exact hkeep.leaf v hv
      · rw [hs'.eq_zero (by omega) (by omega), hshape.eq_zero (by omega) (by omega)]
    refine .inr ⟨hx, hleaf, fun v hv hl => ?_, hc.sameFree hf.core hkeep.node fun v _ => hleaf v⟩
    have hpage := hf.page v hv (by rwa [hleaf])
    rwa [hleaf] at hpage
  · rw [max_eq_right hnew.le] at hx hs'
    rw [hi.readTable_after hp hf.core hkeep.root]
    have hmono : pages (s.sys.proc p).sz ≤ pages newsz := pages_mono hnew.le
    refine .inl ⟨hx, fun v hv => ?_, hs'.mapped, fun v hge hv => ?_⟩
    · rw [min_eq_left hnew.le] at hv
      have hleaf := hkeep.leaf v (.inl hv)
      have hpage := hf.page v (hv.trans_le hshape.le) (hs'.ne_zero (by omega))
      rw [zeroed_of_lt _ _ hv, hleaf] at hpage
      exact ⟨hleaf, hpage⟩
    · rw [hf.page v (hv.trans_le hs'.le) (hs'.ne_zero hv)]
      exact if_pos (by omega)

/-- What `uvmdealloc` does for `growproc`. -/
lemma uvmdealloc_resizes (newsz : ℕ) (hnew : newsz ≤ (s.sys.proc p).sz) :
    ∃ r', (uvmdealloc lk (s.sys.proc p).pagetable (s.sys.proc p).sz newsz).run s.ram =
        .ok (newsz, r') ∧
      Resized (s.owners.table (some p)) s.ram.mem (s.sys.proc p).sz newsz
        (readTable r'.mem (s.sys.proc p).pagetable) r'.mem := by
  obtain ⟨hslots, hg⟩ := hi.owners
  obtain ⟨-, -, hroot, g, hshape⟩ := hslots.live hp
  have hc := hg.core (some p)
  have hspec := (uvmdealloc_filled (fun b hb => hb.1) (hslots.hand 0) hshape newsz).run
    ⟨hc, fun _ _ _ => rfl⟩
  rw [hroot] at hspec
  obtain ⟨⟨x, r'⟩, hrun, hx, hf⟩ := hspec.exists_ok
  dsimp only at hx hf
  rw [min_eq_right hnew] at hx
  subst hx
  have hmono : pages x ≤ pages (s.sys.proc p).sz := pages_mono hnew
  have hkeep := (s.owners.table (some p)).unmap_keeps (pages x)
    (pages (s.sys.proc p).sz - pages x) (by have := hshape.le; omega)
  have hs' := hshape.unmap hmono
  refine ⟨r', hrun, ?_⟩
  rw [hi.readTable_after hp hf.core hkeep.root]
  refine ⟨fun v hv => ?_, hs'.mapped, fun v hge hv => absurd hv (by omega)⟩
  rw [min_eq_right hnew] at hv
  have hleaf := hkeep.leaf v (.inl hv)
  have hpage := hf.page v (hv.trans_le hs'.le) (hs'.ne_zero hv)
  rw [hleaf] at hpage
  exact ⟨hleaf, hpage⟩

/-- `growproc` resizes the memory of a process, or returns `-1` with nothing changed but the
pages of the page table. -/
lemma growproc_resizes (n : BitVec 32) (hn : -((s.sys.proc p).sz : ℤ) ≤ n.toInt) :
    ∃ x s', (growproc lk p n).run s = .ok (x, s') ∧
      (x = 0 ∧ (s'.sys.proc p).state = (s.sys.proc p).state ∧
          ((s'.sys.proc p).sz : ℤ) = (s.sys.proc p).sz + n.toInt ∧
          Resized (s.owners.table (some p)) s.ram.mem (s.sys.proc p).sz (s'.sys.proc p).sz
            (s'.owners.table (some p)) s'.ram.mem ∨
        x = -1 ∧ 0 < n.toInt ∧ s'.sys = s.sys ∧
          Restored (s.owners.table (some p)) s.ram (s'.owners.table (some p)) s'.ram) := by
  have hsz := hi.sz_le hp
  have hlt := n.toInt_lt
  -- the process after its size was assigned
  have hset : ∀ sz r', (s.sys.setProc p fun x => { x with sz := sz }).proc p =
      { s.sys.proc p with sz := sz } ∧
      ({ ram := r', sys := s.sys.setProc p fun x => { x with sz := sz } } : State).owners.table
        (some p) = readTable r'.mem (s.sys.proc p).pagetable := by
    intro sz r'
    simp [Sys.setProc, State.owners]
  rw [growproc, run_proc]
  by_cases hpos : 0 < n.toInt
  · have hnat : (n.toNat : ℤ) = n.toInt := by
      rw [BitVec.toInt_eq_toNat_of_msb]
      rw [BitVec.msb_eq_false_iff_two_mul_lt]
      rw [BitVec.toInt_eq_toNat_cond] at hpos
      split at hpos <;> omega
    rw [if_pos hpos, Nat.mod_eq_of_lt (by omega)]
    obtain ⟨x, r', hrun, ⟨hx, hres⟩ | ⟨hx, hres⟩⟩ :=
      uvmalloc_resizes hi hp ((s.sys.proc p).sz + n.toNat) (by omega)
    · subst hx
      rw [run_vm _ hrun, if_neg (by omega)]
      refine ⟨0, _, rfl, .inl ⟨rfl, ?_⟩⟩
      obtain ⟨hproc, htable⟩ := hset ((s.sys.proc p).sz + n.toNat) r'
      dsimp only
      rw [htable, hproc]
      refine ⟨rfl, ?_, hres⟩
      push_cast
      rw [hnat]
    · rw [run_vm _ hrun, if_pos hx]
      exact ⟨-1, _, rfl, .inr ⟨rfl, hpos, rfl, hres⟩⟩
  rw [if_neg hpos]
  by_cases hneg : n.toInt < 0
  · rw [if_pos hneg, Int.emod_eq_of_lt (by omega) (by omega)]
    obtain ⟨r', hrun, hres⟩ := uvmdealloc_resizes hi hp
      ((s.sys.proc p).sz + n.toInt).toNat (by omega)
    rw [run_vm _ hrun]
    refine ⟨0, _, rfl, .inl ⟨rfl, ?_⟩⟩
    obtain ⟨hproc, htable⟩ := hset ((s.sys.proc p).sz + n.toInt).toNat r'
    dsimp only
    rw [htable, hproc]
    exact ⟨rfl, Int.toNat_of_nonneg (by omega), hres⟩
  · rw [if_neg hneg]
    obtain ⟨hslots, hg⟩ := hi.owners
    obtain ⟨g, hshape⟩ := (hslots.live hp).shape
    exact ⟨0, s, rfl, .inl ⟨rfl, rfl, by omega, fun v hv => ⟨rfl, rfl⟩, hshape.mapped,
      fun v hge hv => absurd hv (by omega)⟩⟩

end Sizes

/-- `sbrk(n)` with `n` below minus the size of the process does nothing and returns the size. -/
lemma sbrk_below (h : Inv lk s) (hp : (s.sys.proc p).state ≠ .unused) {n : BitVec 32}
    (hn : n.toInt < -((s.sys.proc p).sz : ℤ)) :
    (sysSbrk lk p n).run s = .ok (((s.sys.proc p).sz : ℤ), s) := by
  have hsz := h.sz_le hp
  have hge := n.le_toInt
  have hwrap : (((s.sys.proc p).sz : ℤ) + n.toInt) % 2 ^ 64 =
      (s.sys.proc p).sz + n.toInt + 2 ^ 64 := by
    rw [← Int.add_emod_right]
    exact Int.emod_eq_of_lt (by omega) (by omega)
  have hdealloc : (uvmdealloc lk (s.sys.proc p).pagetable (s.sys.proc p).sz
      (((s.sys.proc p).sz + n.toInt) % 2 ^ 64).toNat).run s.ram = .ok
      ((s.sys.proc p).sz, s.ram) := by
    rw [uvmdealloc, hwrap, if_pos (by omega)]
    rfl
  have hgrow : (growproc lk p n).run s = .ok (0, s) := by
    rw [growproc, run_proc, if_neg (by omega), if_pos (by omega), run_vm _ hdealloc]
    have hset : s.sys.setProc p (fun x => { x with sz := (s.sys.proc p).sz }) = s.sys := by
      simp [Sys.setProc]
    refine congrArg (fun k => Except.ok ((0 : ℤ), { s with sys := k })) hset
  rw [sysSbrk, run_proc, StateT.run_bind, hgrow]
  rfl

/-- What `sbrk(n)` should do when it returns `x`: return the size before, with the size `n` more
afterwards, or return `-1` and change nothing but the pages of the page table. -/
def Sbrk (p : Slot) (n : BitVec 32) (s : State) (x : ℤ) (s' : State) : Prop :=
  x ≠ -1 ∧ (sysMemsize p).run s = .ok (x, s) ∧ (sysMemsize p).run s' = .ok (x + n.toInt, s') ∧
      Resized (s.owners.table (some p)) s.ram.mem (s.sys.proc p).sz (s'.sys.proc p).sz
        (s'.owners.table (some p)) s'.ram.mem ∨
    x = -1 ∧ (sysMemsize p).run s' = .ok (((s.sys.proc p).sz : ℤ), s') ∧
      Restored (s.owners.table (some p)) s.ram (s'.owners.table (some p)) s'.ram

/-- `sbrk(n)` returns, and it does this exactly if `n` is not below minus the size of the
process. -/
theorem sbrk_memsize (h : Inv lk s) (hp : (s.sys.proc p).state ≠ .unused) (n : BitVec 32) :
    ∃ x s', (sysSbrk lk p n).run s = .ok (x, s') ∧
      (Sbrk p n s x s' ↔ -((s.sys.proc p).sz : ℤ) ≤ n.toInt) := by
  by_cases hn : -((s.sys.proc p).sz : ℤ) ≤ n.toInt
  · obtain ⟨x, s', hrun, hx⟩ := growproc_resizes h hp n hn
    rw [sysSbrk, run_proc, StateT.run_bind, hrun]
    obtain ⟨rfl, -, hsz, hres⟩ | ⟨rfl, -, hsys, hres⟩ := hx
    · refine ⟨_, s', rfl, iff_of_true (.inl ⟨by omega, rfl, ?_, hres⟩) hn⟩
      rw [← hsz]
      rfl
    · refine ⟨-1, s', rfl, iff_of_true (.inr ⟨rfl, ?_, hres⟩) hn⟩
      show Except.ok (((s'.sys.proc p).sz : ℤ), s') = .ok (((s.sys.proc p).sz : ℤ), s')
      rw [hsys]
  · refine ⟨_, s, sbrk_below h hp (by omega), iff_of_false ?_ hn⟩
    rintro (⟨-, -, hsize, -⟩ | ⟨hx, -⟩)
    · have hsz : ((s.sys.proc p).sz : ℤ) = (s.sys.proc p).sz + n.toInt :=
        congrArg Prod.fst (Except.ok.inj hsize)
      omega
    · omega

/-- In the small machine the first process can have one more page. -/
def State.grows (s : State) : Bool :=
  decide ((s.sys.proc initproc).state = .runnable) &&
    match (sysSbrk smallLink initproc 1).run s with
    | .ok (x, _) => x = PGSIZE
    | .error _ => false

lemma smallStart_grows : ∃ s, Reachable smallLink s ∧ s.grows = true := by
  obtain ⟨s, hs, hgrows⟩ := exists_outcome (x := smallStart) (f := State.grows) (by decide +kernel)
  exact ⟨s, smallStart_reachable hs, hgrows⟩

theorem sbrk_memsize_one : ∃ s s', Reachable smallLink s ∧
    (sysSbrk smallLink initproc 1).run s = .ok ((PGSIZE : ℤ), s') ∧
    (sysMemsize initproc).run s' = .ok (PGSIZE + 1, s') ∧
    Resized (s.owners.table (some initproc)) s.ram.mem (s.sys.proc initproc).sz
      (s'.sys.proc initproc).sz (s'.owners.table (some initproc)) s'.ram.mem := by
  obtain ⟨s, hs, hgrows⟩ := smallStart_grows
  obtain ⟨hp, hgrows⟩ := Bool.and_eq_true_iff.1 hgrows
  replace hp : (s.sys.proc initproc).state = .runnable := by simpa using hp
  have hone : (1 : BitVec 32).toInt = 1 := by decide
  obtain ⟨x, s', hrun, hx⟩ := sbrk_memsize hs.inv (p := initproc) (by simp [hp]) 1
  rw [hrun] at hgrows
  obtain rfl : x = PGSIZE := by simpa using hgrows
  obtain ⟨-, -, hsize, hres⟩ | ⟨hx, -⟩ := hx.2 (by rw [hone]; omega)
  · rw [hone] at hsize
    exact ⟨s, s', hs, hrun, hsize, hres⟩
  · omega

/-- `sbrk(INT_MIN)` returns the size of the process and leaves it as it is. -/
theorem sbrk_below_zero : ∃ s sz, Reachable smallLink s ∧
    (sysMemsize initproc).run s = .ok (sz, s) ∧ sz ≠ -1 ∧
    (sysSbrk smallLink initproc (BitVec.intMin 32)).run s = .ok (sz, s) ∧
    (sysMemsize initproc).run s ≠ .ok (sz + (BitVec.intMin 32).toInt, s) := by
  obtain ⟨s, h⟩ := exists_called
  have hs := h.reachable
  have hused : (s.sys.proc initproc).state ≠ .unused := by simp [h.init.1]
  have hsz := hs.inv.sz_le hused
  have hmin : (BitVec.intMin 32).toInt = -(2 ^ 31) := by decide
  refine ⟨s, (s.sys.proc initproc).sz, hs, rfl, by omega, sbrk_below hs.inv hused ?_, ?_⟩
  · omega
  · show Except.ok (((s.sys.proc initproc).sz : ℤ), s) ≠ _
    rw [hmin]
    simp

end Xv6.Vm
