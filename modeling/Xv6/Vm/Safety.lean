import Xv6.Vm.Programs

/-!
# Memory safety of all runs

From the start of the machine on, every call of every process keeps the invariant `Inv`,
whatever `kalloc` does. What the invariant says about page tables is restated here in terms
of the words in memory: `readTable` follows the entries from the root down, and
`State.owners` collects who has which page.
-/

namespace Xv6.Vm

open Xv6.Lib
open Xv6.Process (Slot ProcState Stop)

variable {lk : Link} {m : ℕ → Page} {G : Owners} {P : Slot → Proc} {p : Slot} {s s' : State}
  {mem : ℕ → Page} {t : Table} {x : Place} {argv : List ℕ} {b : ℕ}

/-! ## Reading page tables -/

/-- The page-table page that entry `i` of the one at `pt` points to. -/
def child (mem : ℕ → Page) (pt i : ℕ) : ℕ :=
  if pt ≠ 0 ∧ pteV (word mem pt i) then pte2pa (word mem pt i) else 0

/-- The page-table page at a depth below the root, for the index `k`. -/
def nodeAt (mem : ℕ → Page) (root : ℕ) : ℕ → ℕ → ℕ
  | 0, k => if k = 0 then root else 0
  | depth + 1, k => child mem (nodeAt mem root depth (k / 512)) (k % 512)

/-- The page table that starts at `root`. -/
def readTable (mem : ℕ → Page) (root : ℕ) : Table where
  node l k := if l ≤ 2 then nodeAt mem root (2 - l) k else 0
  leaf v :=
    let pt := nodeAt mem root 2 (v / 512)
    if pt = 0 then 0 else word mem pt (v % 512)

lemma nodeAt_eq (hrep : Rep mem t) (halign : ∀ l k, t.node l k % PGSIZE = 0) (depth : ℕ) :
    ∀ l k, l + depth = 2 → nodeAt mem t.root depth k = t.node l k := by
  induction depth with
  | zero =>
    rintro l k rfl
    by_cases hk : k = 0
    · rw [hk]
      rfl
    · rw [nodeAt, if_neg hk]
      by_contra hne
      exact hk ((hrep.top (Ne.symm hne)).2 rfl)
  | succ depth ih =>
    intro l k hl
    rw [nodeAt, ih (l + 1) (k / 512) (by omega), child]
    by_cases hup : t.node (l + 1) (k / 512) = 0
    · rw [if_neg fun h => h.1 hup]
      by_contra hne
      exact hrep.up (by omega) (Ne.symm hne) hup
    · rw [hrep.dir hup (by omega), show 512 * (k / 512) + k % 512 = k by omega, pteV_dirPte,
        pte2pa_dirPte (halign l k)]
      by_cases hk : t.node l k = 0
      · simp [hk]
      · simp [hk, hup]

/-- The words in memory determine the table. -/
lemma readTable_eq (hrep : Rep mem t) (halign : ∀ l k, t.node l k % PGSIZE = 0) :
    readTable mem t.root = t := by
  have hnode : (readTable mem t.root).node = t.node := by
    funext l k
    by_cases hl : l ≤ 2
    · exact (if_pos hl).trans (nodeAt_eq hrep halign (2 - l) l k (by omega))
    · refine (if_neg hl).trans ?_
      by_contra hne
      exact hl (hrep.top (Ne.symm hne)).1
  have hleaf : (readTable mem t.root).leaf = t.leaf := by
    funext v
    show (if nodeAt mem t.root 2 (v / 512) = 0 then 0
      else word mem (nodeAt mem t.root 2 (v / 512)) (v % 512)) = t.leaf v
    rw [nodeAt_eq hrep halign 2 0 (v / 512) rfl]
    by_cases hn : t.node 0 (v / 512) = 0
    · rw [if_pos hn]
      by_contra hne
      exact hrep.up_leaf (Ne.symm hne) hn
    · rw [if_neg hn, hrep.low hn (by omega), Nat.div_add_mod]
  cases t
  exact Table.mk.injEq .. ▸ ⟨hnode, hleaf⟩

/-! ## Owners -/

/-- A descriptor of some process refers to this end of the pipe in page `b`. -/
def Sys.hasEnd (k : Sys) (b : ℕ) (w : Bool) : Bool :=
  decide (∃ p fd f, (k.proc p).ofile fd = some f ∧ (k.file f).pipe = some b ∧
    (k.file f).writable = w)

/-- Who has which page, as far as one can see from the state. -/
def State.owners (s : State) : Owners where
  table
    | none => Table.empty
    | some p => readTable s.ram.mem (s.sys.proc p).pagetable
  hand _ := 0
  trapframe p := (s.sys.proc p).trapframe
  ends := s.sys.hasEnd
  kernel := s.sys.kernel

lemma Files.ends_eq {ft : FileNo → File} {e : ℕ → Bool → Bool} (h : Files P ft 0 e)
    {k : Sys} (hproc : k.proc = P) (hfile : k.file = ft) : e = k.hasEnd := by
  subst hproc hfile
  funext b w
  rw [Bool.eq_iff_iff, h.ends]
  unfold Sys.hasEnd
  rw [decide_eq_true_eq]
  constructor
  · rintro ⟨f, hpipe, hw⟩
    have hpos : 0 < refs (ofiles k.proc) f := by
      have hcount := h.count f
      by_contra hzero
      have href : (k.file f).ref = 0 := by
        simp only [Pi.zero_apply] at hcount
        omega
      rw [h.idle href] at hpipe
      cases hpipe
    obtain ⟨x, hx⟩ := exists_of_refs_pos hpos
    exact ⟨x.1, x.2, f, hx, hpipe, hw⟩
  · rintro ⟨-, -, f, -, hpipe, hw⟩
    exact ⟨f, hpipe, hw⟩

/-- What the invariant says about the owners that one can see. -/
lemma Inv.owners (h : Inv lk s) :
    Slots lk s.sys.proc s.owners ∧ Global lk ∅ s.ram.mem s.owners s.ram := by
  obtain ⟨m, P, G, hslots, hproc, hkernel, e, hfiles, hglobal⟩ := h
  have htable : G.table = s.owners.table := by
    funext o
    cases o with
    | none => exact hslots.spare
    | some p =>
      have halign := (hglobal.aside (show some p ≠ none by simp)).aligned
      have hroot := (hslots.slot p).space.root
      show _ = readTable s.ram.mem (s.sys.proc p).pagetable
      rw [hproc, ← hroot]
      exact (readTable_eq (hglobal.rep (some p)) halign).symm
  have htf : G.trapframe = s.owners.trapframe := by
    funext p
    rw [(hslots.slot p).space.trapframe, ← hproc]
    rfl
  have hG : { G with ends := e } = s.owners := by
    unfold State.owners at *
    rw [htable, htf, hfiles.ends_eq hproc rfl, ← hkernel, show G.hand = fun _ => 0 from
      funext hslots.hand]
  subst hproc
  refine ⟨?_, ?_⟩
  · rw [← hG]
    exact ⟨hslots.slot, hslots.spare, hslots.hand⟩
  · rw [← hG]
    exact hglobal.rebase ∅

/-! ## Runs -/

/-- How a call can stop without returning: the first process must not exit, `wait` can
sleep, and a store of user code can fault. -/
def Call.Stops (p : Slot) : Call → Stop → Prop
  | .exit _, e => p = initproc ∧ e = .panic "init exiting"
  | .wait _, e => e = .disabled
  | .store _ _, e => e = .disabled
  | _, _ => False

lemma code_spec (hs : Slots lk P G) (hp : (P p).state = .runnable) (c : Call) :
    Triple (c.Stops p) (Run lk m P G 0) (c.code lk p) fun _ => Inv lk := by
  have hlive := hs.live (p := p) (by simp [hp])
  obtain ⟨g, hshape⟩ := hlive.shape
  have hquiet : ∀ {c : Call} {α : Type} {x : M α},
      Triple NoStop (Run lk m P G 0) x (fun _ => Inv lk) →
      Triple (c.Stops p) (Run lk m P G 0) (discard x) fun _ => Inv lk := fun h =>
    .map (h.weaken fun e he => absurd he id)
  cases c with
  | fork => exact hquiet (fork_spec hs (by simp [hp]))
  | exec upath uargv files => exact hquiet (sysExec_spec hs hp upath uargv files)
  | sbrk n =>
    refine hquiet (run_proc_bind ((growproc_spec hs hp n).bind fun r => ?_))
    exact .ite (fun _ => .skip) fun _ => .skip
  | exit status =>
    by_cases hinit : p = initproc
    · show Triple _ _ (exit lk p status) _
      unfold exit
      rw [if_pos hinit]
      exact .throw ⟨hinit, rfl⟩
    · exact (exit_spec hs hp hinit status).weaken fun e he => absurd he id
  | wait addr => exact .map (wait_spec hs hp addr)
  | pipe fdarray =>
    refine hquiet ((sysPipe_spec (hs.hand 0) hlive.root hshape fdarray).post fun _ s h => ?_)
    obtain ⟨o, h⟩ := h
    exact ⟨_, _, _, hs.ofile hp o, h⟩
  | close fd =>
    refine hquiet ((sysClose_spec (hs.hand 0) fd).post fun _ s h => ?_)
    obtain ⟨o, h⟩ := h
    exact ⟨_, _, _, hs.ofile hp o, h⟩
  | store va page => exact userStore_spec hs hp va page

/-- The outcomes of `kalloc` during a call do not matter before it. -/
lemma Run.deny {F : FileNo → ℤ} (h : Run lk m P G F s) (deny : ℕ → Bool) :
    Run lk m P G F { s with ram := { s.ram with deny := deny } } := by
  obtain ⟨e, hfiles, hg⟩ := h.rest
  exact ⟨h.proc, h.kernel, e, hfiles, hg.deny deny⟩

/-- A call returns to a state that satisfies the invariant, or stops as `Call.Stops` says. -/
lemma call_spec (h : Inv lk s) (hp : (s.sys.proc p).state = .runnable) (c : Call)
    (deny : ℕ → Bool) :
    Post (c.Stops p) (fun r => Inv lk r.2) ((call lk p c deny).run s) := by
  obtain ⟨m, P, G, hs, hrun⟩ := h
  have hproc := hrun.proc
  subst hproc
  have hcall : Triple (c.Stops p) (Run lk m s.sys.proc G 0) (call lk p c deny)
      fun _ => Inv lk := by
    refine .bind (Q := fun _ => Run lk m s.sys.proc G 0) (.modify fun s h => h.deny deny)
      fun _ => run_proc_bind ?_
    rw [if_pos hp]
    exact code_spec hs hp c
  exact hcall.run hrun

/-- A process that is not runnable does nothing. -/
lemma call_of_not_runnable {c : Call} {deny : ℕ → Bool} (hp : (s.sys.proc p).state ≠ .runnable) :
    (call lk p c deny).run s = .error .disabled := by
  let s₁ : State := { s with ram := { s.ram with deny := deny } }
  show (if (s₁.sys.proc p).state = .runnable then c.code lk p else throw .disabled : M Unit) s₁ = _
  rw [if_neg hp]
  rfl

lemma Inv.next (h : Inv lk s) (hnext : Next lk s s') : Inv lk s' := by
  obtain ⟨p, c, deny, hrun⟩ := hnext
  by_cases hp : (s.sys.proc p).state = .runnable
  · exact (call_spec h hp c deny).of_ok hrun
  · rw [call_of_not_runnable hp] at hrun
    cases hrun

/-- Before the first process nobody but the kernel has a page. -/
def bareOwners (kernel : List ℕ) : Owners where
  table _ := Table.empty
  hand _ := 0
  trapframe _ := 0
  ends _ _ := false
  kernel := kernel

lemma bareOwners_page {kernel : List ℕ} (h : (bareOwners kernel).page x ≠ 0) :
    ∃ b ∈ kernel, x = .kernel b ∧ (bareOwners kernel).page x = b := by
  cases x with
  | node o l k => exact absurd rfl h
  | leaf o v =>
    refine absurd ?_ h
    show (if v < UPAGES then pte2pa 0 else 0) = 0
    split <;> rfl
  | hand j => exact absurd rfl h
  | trapframe p => exact absurd rfl h
  | pipe b => exact absurd rfl h
  | kernel b =>
    by_cases hb : b ∈ kernel
    · exact ⟨b, hb, rfl, if_pos hb⟩
    · exact absurd (if_neg hb) h

lemma zero_notMem_pool (lk : Link) : 0 ∉ lk.pool := by
  intro h
  have h₁ := h.2.1
  have h₂ := lk.trampoline_lt
  unfold PGSIZE at h₂
  omega

lemma blank_global {free kernel : List ℕ} (hnodup : (free ++ kernel).Nodup)
    (hpool : ∀ b, b ∈ free ++ kernel ↔ b ∈ lk.pool) :
    Global lk ∅ mem (bareOwners kernel) (blank mem free kernel).ram := by
  obtain ⟨hfree, -, hdisj⟩ := List.nodup_append.1 hnodup
  have hsub : ∀ b ∈ free, b ∈ lk.pool := fun b hb => (hpool b).1 (List.mem_append_left _ hb)
  refine ⟨hfree, hsub, ⟨zero_notMem_pool lk, fun x hx => ?_, fun x y hx hxy => ?_, fun b hb => ?_⟩,
    fun _ => .empty _, fun _ _ h => absurd rfl h, fun b h => absurd h
    (by simp [bareOwners, Owners.pipe]),
    fun b h => absurd h (by simp [bareOwners, Owners.pipe]), by simp, freed_linked _ hfree hsub⟩
  · obtain ⟨b, hb, -, hpage⟩ := bareOwners_page hx
    rw [hpage]
    exact (hpool b).1 (List.mem_append_right _ hb)
  · obtain ⟨b, -, rfl, hb⟩ := bareOwners_page hx
    obtain ⟨c, -, rfl, hc⟩ := bareOwners_page (hxy ▸ hx)
    rw [← hb, ← hc, hxy]
  · constructor
    · intro hused
      have hkernel : b ∈ kernel :=
        (List.mem_append.1 ((hpool b).2 hb)).resolve_left hused
      exact ⟨.kernel b, if_pos hkernel⟩
    · rintro ⟨x, rfl⟩ hin
      obtain ⟨b, hkernel, -, hpage⟩ := bareOwners_page (ne_of_mem_of_not_mem hb
        (zero_notMem_pool lk))
      rw [hpage] at hin
      exact hdisj b hin b hkernel rfl

lemma blank_run (mem : ℕ → Page) {free kernel : List ℕ} (hnodup : (free ++ kernel).Nodup)
    (hpool : ∀ b, b ∈ free ++ kernel ↔ b ∈ lk.pool) :
    Run lk mem (fun _ => Proc.free) (bareOwners kernel) 0 (blank mem free kernel) := by
  refine ⟨rfl, rfl, fun _ _ => false, ⟨fun f => ?_, ?_, ?_, fun _ => rfl⟩,
    blank_global hnodup hpool⟩
  · rw [show ofiles (fun _ => Proc.free) = fun _ => none from rfl, refs_none]
    rfl
  · simp [blank]
  · simp [blank]

lemma Boot.inv (h : Boot lk s) : Inv lk s := by
  obtain ⟨mem, free, kernel, initcode, hnodup, hpool, hrun⟩ := h
  have hslots : Slots lk (fun _ => Proc.free) (bareOwners kernel) := by
    refine ⟨fun p => ⟨⟨rfl, rfl, fun _ => ⟨rfl, rfl⟩, fun h => absurd rfl h⟩, ?_, fun _ => rfl,
      fun _ _ => rfl⟩, rfl, fun _ => rfl⟩
    simp [Proc.free]
  have hpost := (userinit_spec hslots initcode).run (blank_run mem hnodup hpool)
  rw [hrun] at hpost
  exact hpost

/-- The states that the machine can get into. -/
def Reachable (lk : Link) (s : State) : Prop :=
  ∃ s₀, Boot lk s₀ ∧ Relation.ReflTransGen (Next lk) s₀ s

lemma Reachable.inv (h : Reachable lk s) : Inv lk s := by
  obtain ⟨s₀, hboot, hrun⟩ := h
  exact preserved (fun _ _ h hnext => h.next hnext) hboot.inv hrun

/-- The free list is the one that starts at `kmem.freelist`. -/
lemma Reachable.linked (h : Reachable lk s) : s.ram.Linked := h.inv.owners.2.linked

/-! ## A small machine -/

/-- A machine with seventeen pages of memory. -/
def smallLink : Link := .small 17 (by decide)

/-- The start of the machine. -/
def smallStart : Except Stop (Unit × State) :=
  (userinit smallLink []).run (blank (fun _ => Bytes.fill PGSIZE 0) (smallLink.pages 17) [])

lemma smallStart_reachable (h : smallStart = .ok ((), s)) : Reachable smallLink s := by
  refine ⟨s, ⟨_, smallLink.pages 17, [], [], by decide, fun b => ?_, h⟩, .refl⟩
  rw [List.append_nil]
  exact mem_pages_small _

/-- Code returns in a state that satisfies `f`. -/
def outcome (x : Except Stop (Unit × State)) (f : State → Bool) : Bool :=
  match x with
  | .ok (_, s) => f s
  | .error _ => false

lemma exists_outcome {x : Except Stop (Unit × State)} {f : State → Bool}
    (h : outcome x f = true) : ∃ s, x = .ok ((), s) ∧ f s = true := by
  cases x with
  | error e => cases h
  | ok r => exact ⟨r.2, rfl, h⟩

/-- The first process grows and forks, and the child exits. -/
def smallCalls : List (Slot × Call) := [(initproc, .sbrk 1), (initproc, .fork), (1, .exit 0)]

/-- The state after these calls. -/
def State.called (s : State) : State :=
  runActs (fun s x => ((call smallLink x.1 x.2 fun _ => false).run s).toOption.map Prod.snd) s
    smallCalls

/-- What the calls have done: one page of memory is left. -/
structure State.Called (s : State) : Prop where
  reachable : Reachable smallLink s
  init : (s.sys.proc initproc).state = .runnable ∧ (s.sys.proc initproc).sz = PGSIZE + 1
  child : (s.sys.proc 1).state = .zombie
  free : s.ram.free.length = 1

lemma exists_called : ∃ s : State, s.Called := by
  obtain ⟨s, hs, hcalled⟩ := exists_outcome (x := smallStart) (f := fun s =>
    decide (((s.called.sys.proc initproc).state = .runnable ∧
      (s.called.sys.proc initproc).sz = PGSIZE + 1) ∧ (s.called.sys.proc 1).state = .zombie ∧
      s.called.ram.free.length = 1)) (by decide +kernel)
  obtain ⟨hinit, hchild, hfree⟩ := of_decide_eq_true hcalled
  obtain ⟨s₀, hboot, hrun⟩ := smallStart_reachable hs
  refine ⟨s.called, ⟨s₀, hboot, hrun.trans (runActs_of_mem (fun x _ s s' hs => ?_) s)⟩, hinit,
    hchild, hfree⟩
  obtain ⟨r, hr, rfl⟩ := Option.map_eq_some_iff.1 hs
  exact ⟨x.1, x.2, _, eq_ok_of_toOption hr⟩

/-! ## Page ownership -/

/-- After any calls, every page that `kalloc` manages is on the free list once, or it is in
exactly one place of one owner, and a slot that is not in use owns nothing. -/
theorem page_ownership (h : Reachable lk s) :
    s.ram.free.Nodup ∧ (∀ b ∈ s.ram.free, b ∈ lk.pool) ∧
    (∀ b ∈ lk.pool, b ∉ s.ram.free ↔ ∃! x, s.owners.page x = b) ∧
    (∀ x, s.owners.page x ≠ 0 → s.owners.page x ∈ lk.pool ∧ s.owners.page x ∉ s.ram.free) ∧
    ∀ p, (s.sys.proc p).state = .unused →
      s.owners.table (some p) = Table.empty ∧ s.owners.trapframe p = 0 := by
  obtain ⟨hslots, hg⟩ := h.inv.owners
  refine ⟨hg.nodup, hg.sub, fun b hb => hg.owned.used_iff_existsUnique hb, fun x hx => ?_,
    fun p hp => ?_⟩
  · exact ⟨hg.owned.mem x hx, hg.owned.used_cell hx⟩
  · obtain ⟨htable, -, -, -, htf⟩ := hslots.bare hp
    exact ⟨htable, htf⟩

/-- Of the pages of the small machine all but one are in one place. -/
theorem page_ownership_small : ∃ s : State, s.Called ∧
    ∀ b ∈ smallLink.pool, b ∉ s.ram.free ↔ ∃! x, s.owners.page x = b := by
  obtain ⟨s, h⟩ := exists_called
  exact ⟨s, h, (page_ownership h.reachable).2.2.1⟩

/-! ## The shape of address spaces -/

/-- The address space of a process: all pages below its size, the trapframe and the
trampoline, and nothing else. The process can access its pages except perhaps for one, the
guard page below its stack. -/
structure WellShaped (lk : Link) (pr : Proc) (t : Table) : Prop where
  user : ∀ v < TRAPFRAME / PGSIZE, t.leaf v ≠ 0 ↔ v * PGSIZE < pgroundup pr.sz
  rights : ∃ guard : Option ℕ, ∀ v, v * PGSIZE < pgroundup pr.sz →
    pteV (t.leaf v) ∧ pteR (t.leaf v) ∧ (some v ≠ guard → pteU (t.leaf v))
  trapframe : t.leaf (TRAPFRAME / PGSIZE) = mkPte pr.trapframe (PTE_R ||| PTE_W)
  trampoline : t.leaf (TRAMPOLINE / PGSIZE) = mkPte lk.trampoline (PTE_R ||| PTE_X)
  rest : ∀ v, TRAMPOLINE / PGSIZE < v → t.leaf v = 0

lemma WellShaped.of_shape {pr : Proc} {g : Option ℕ}
    (hs : Shape lk pr.trapframe (pages pr.sz) g t)
    (hleaves : ∀ v, t.leaf v ≠ 0 → IsLeaf (t.leaf v)) : WellShaped lk pr t := by
  have hlt : ∀ v, v * PGSIZE < pgroundup pr.sz ↔ v < pages pr.sz := by
    intro v
    rw [pgroundup_eq hs.le]
    unfold PGSIZE
    omega
  refine ⟨fun v hv => ?_, ⟨g, fun v hv => ?_⟩, hs.trapframe, hs.trampoline, hs.above⟩
  · rw [hlt]
    exact hs.mapped v hv
  · rw [hlt] at hv
    have hleaf := hleaves v (hs.ne_zero hv)
    exact ⟨hleaf.valid, hleaf.readable, hs.user v hv⟩

/-- After any calls, every page table has its shape, and no call panics, except that the
first process must not exit. -/
theorem address_space_shape (h : Reachable lk s) :
    (∀ p, (s.sys.proc p).state ≠ .unused →
      WellShaped lk (s.sys.proc p) (readTable s.ram.mem (s.sys.proc p).pagetable)) ∧
    ∀ p c deny msg, (call lk p c deny).run s = .error (.panic msg) →
      p = initproc ∧ msg = "init exiting" := by
  obtain ⟨hslots, hg⟩ := h.inv.owners
  refine ⟨fun p hp => ?_, fun p c deny msg hrun => ?_⟩
  · obtain ⟨-, -, -, g, hshape⟩ := hslots.live hp
    exact .of_shape hshape (hg.leaves (some p))
  · by_cases hp : (s.sys.proc p).state = .runnable
    · have hstop := (call_spec h.inv hp c deny).of_error hrun
      cases c with
      | exit status =>
        obtain ⟨hinit, hmsg⟩ := hstop
        exact ⟨hinit, by simpa using hmsg⟩
      | wait addr => cases hstop
      | store va page => cases hstop
      | _ => exact absurd hstop id
    · rw [call_of_not_runnable hp] at hrun
      cases hrun

/-- In the small machine the first process and the child that exited have address spaces. -/
theorem address_space_shape_small : ∃ s : State, s.Called ∧
    WellShaped smallLink (s.sys.proc initproc)
      (readTable s.ram.mem (s.sys.proc initproc).pagetable) ∧
    WellShaped smallLink (s.sys.proc 1) (readTable s.ram.mem (s.sys.proc 1).pagetable) := by
  obtain ⟨s, h⟩ := exists_called
  have hshape := (address_space_shape h.reachable).1
  exact ⟨s, h, hshape initproc (by simp [h.init.1]), hshape 1 (by simp [h.child])⟩

/-! ## `exec` on any file -/

/-- The places that belong to process `p`. -/
def Place.belongs (p : Slot) : Place → Prop
  | .node o _ _ => o = some p
  | .leaf o _ => o = some p
  | .trapframe q => q = p
  | _ => False

/-- The argument pages are put aside: the kernel keeps them. -/
def Owners.stash (G : Owners) (argv : List ℕ) : Owners := { G with kernel := G.kernel ++ argv }

lemma mem_of_argHands {j : ℕ} (h : argHands argv j = b) (hb : b ≠ 0) : b ∈ argv := by
  unfold argHands at h
  by_cases hj : j < 2
  · rw [if_pos hj] at h
    exact absurd h.symm hb
  · rw [if_neg hj, List.getD_eq_getElem?_getD] at h
    cases hget : argv[j - 2]? with
    | none => simp_all
    | some a =>
      rw [hget, Option.getD_some] at h
      exact h ▸ List.mem_of_getElem? hget

lemma exists_argHands (h : b ∈ argv) : ∃ j, argHands argv j = b := by
  obtain ⟨i, hi⟩ := List.mem_iff_getElem?.1 h
  refine ⟨i + 2, ?_⟩
  rw [argHands, if_neg (by omega), Nat.add_sub_cancel, List.getD_eq_getElem?_getD, hi]
  rfl

/-- Where the page of a place was before the argument pages were put aside. -/
lemma Owners.stash_page (hhand : ∀ j, G.hand j = 0) (hx : (G.stash argv).page x ≠ 0) :
    ((G.hold argv).page x = (G.stash argv).page x ∧ ∀ j, x ≠ .hand j) ∨
    ∃ b ∈ argv, x = .kernel b ∧ (G.stash argv).page x = b := by
  cases x with
  | hand j => exact absurd (hhand j) hx
  | kernel b =>
    by_cases hb : b ∈ argv
    · exact .inr ⟨b, hb, rfl, if_pos (List.mem_append_right _ hb)⟩
    · refine .inl ⟨?_, by simp⟩
      by_cases hk : b ∈ G.kernel
      · exact (if_pos hk).trans (if_pos (List.mem_append_left _ hk)).symm
      · exact (if_neg hk).trans (if_neg fun h => (List.mem_append.1 h).elim hk hb).symm
  | _ => exact .inl ⟨rfl, by simp⟩

lemma Owners.hold_page (hx : (G.hold argv).page x = b) (hb : b ≠ 0) :
    ∃ y, (G.stash argv).page y = b := by
  cases x with
  | hand j => exact ⟨.kernel b, if_pos (List.mem_append_right _ (mem_of_argHands hx hb))⟩
  | kernel c =>
    refine ⟨.kernel c, ?_⟩
    by_cases hc : c ∈ G.kernel
    · exact (if_pos (List.mem_append_left _ hc)).trans ((if_pos hc).symm.trans hx)
    · exact absurd ((if_neg hc).symm.trans hx).symm hb
  | node o l k => exact ⟨.node o l k, hx⟩
  | leaf o v => exact ⟨.leaf o v, hx⟩
  | trapframe p => exact ⟨.trapframe p, hx⟩
  | pipe c => exact ⟨.pipe c, hx⟩

lemma owned_stash {D : Set ℕ} {used : ℕ → Prop} (hhand : ∀ j, G.hand j = 0)
    (h : Owned D used (G.hold argv).page) : Owned D used (G.stash argv).page := by
  have hback : ∀ b ∈ argv, ∃ j, (G.hold argv).page (.hand j) = b := fun b hb => exists_argHands hb
  refine ⟨h.zero_notMem, fun x hx => ?_, fun x y hx hxy => ?_, fun b hb => ?_⟩
  · obtain ⟨heq, -⟩ | ⟨b, hb, -, heq⟩ := Owners.stash_page hhand hx
    · rw [← heq] at hx ⊢
      exact h.mem x hx
    · obtain ⟨j, hj⟩ := hback b hb
      rw [heq, ← hj] at hx ⊢
      exact h.mem (.hand j) hx
  · obtain ⟨hx', hxh⟩ | ⟨b, hb, rfl, hx'⟩ := Owners.stash_page hhand hx <;>
      obtain ⟨hy', hyh⟩ | ⟨c, hc, rfl, hy'⟩ := Owners.stash_page hhand (hxy ▸ hx)
    · exact h.inj x y (hx' ▸ hx) (hx'.trans (hxy.trans hy'.symm))
    · obtain ⟨j, hj⟩ := hback c hc
      exact absurd (h.inj x (.hand j) (hx' ▸ hx) (by rw [hx', hxy, hy', hj])) (hxh j)
    · obtain ⟨j, hj⟩ := hback b hb
      rw [hxy] at hx
      exact absurd (h.inj y (.hand j) (hy' ▸ hx) (by rw [hy', ← hxy, hx', hj])) (hyh j)
    · rw [hx', hy'] at hxy
      rw [hxy]
  · rw [h.used_iff b hb]
    have hb0 : b ≠ 0 := h.ne_zero_of_mem hb
    constructor
    · rintro ⟨x, hx⟩
      exact Owners.hold_page hx hb0
    · rintro ⟨x, hx⟩
      obtain ⟨heq, -⟩ | ⟨c, hc, -, heq⟩ := Owners.stash_page hhand (hx ▸ hb0)
      · exact ⟨x, heq.trans hx⟩
      · obtain ⟨j, hj⟩ := hback c hc
        exact ⟨.hand j, hj.trans (heq.symm.trans hx)⟩

lemma Owners.stash_page_eq (G : Owners) (argv : List ℕ) (hx : ∀ b, x ≠ .kernel b) :
    (G.stash argv).page x = G.page x := by
  cases x with
  | kernel b => exact absurd rfl (hx b)
  | _ => rfl

/-- Between calls the running code has nothing. -/
lemma State.owners_none (s : State) (argv : List ℕ) (c : Cell) :
    (s.owners.stash argv).page (embed none c) = 0 := by
  cases c with
  | leaf v =>
    show (if v < UPAGES then pte2pa 0 else 0) = 0
    split <;> rfl
  | _ => rfl

/-- A page in use that does not belong to process `p` is out of its way. -/
lemma away_of_page (hx : (s.owners.stash argv).page x = b) (hb : b ≠ 0)
    (hother : ∀ x, x.belongs p → s.owners.page x ≠ b) : Away p x := by
  cases x with
  | node o l k =>
    refine ⟨?_, ?_⟩
    · rintro rfl
      exact hb (hx.symm.trans (s.owners_none argv (.node l k)))
    · rintro rfl
      rw [Owners.stash_page_eq _ _ (by simp)] at hx
      exact hother (.node (some p) l k) rfl hx
  | leaf o v =>
    refine ⟨?_, ?_⟩
    · rintro rfl
      exact hb (hx.symm.trans (s.owners_none argv (.leaf v)))
    · rintro rfl
      rw [Owners.stash_page_eq _ _ (by simp)] at hx
      exact hother (.leaf (some p) v) rfl hx
  | hand j => exact hb hx.symm
  | trapframe q =>
    rintro rfl
    rw [Owners.stash_page_eq _ _ (by simp)] at hx
    exact hother (.trapframe q) rfl hx
  | pipe c => trivial
  | kernel c => trivial

lemma Owners.setSlot_page_of_away (hx : Away p x) (tf : ℕ) :
    (G.setSlot p t tf).page x = G.page x := by
  cases x with
  | node o l k => simp [Owners.page, Owners.setSlot, hx.2]
  | leaf o v => simp [Owners.page, Owners.setSlot, hx.2]
  | trapframe q =>
    have hq : q ≠ p := hx
    simp [Owners.page, Owners.setSlot, hq]
  | _ => rfl

/-- The machine when `sys_exec` has fetched the arguments. -/
lemma fetchArgs_global {uargv : ℕ} {deny : ℕ → Bool} {ram : Ram} {ok : Bool} (h : Inv lk s)
    (hp : (s.sys.proc p).state = .runnable)
    (hargs : (fetchArgs (s.sys.proc p).pagetable (s.sys.proc p).sz uargv MAXARG []).run
      { s.ram with deny := deny } = .ok ((ok, argv), ram)) :
    Global lk ∅ ram.mem (s.owners.stash argv) ram := by
  obtain ⟨hslots, hg⟩ := h.owners
  have hlive := hslots.live (p := p) (by simp [hp])
  obtain ⟨g, hshape⟩ := hlive.shape
  have hpre : Global lk ∅ s.ram.mem (s.owners.hold []) { s.ram with deny := deny } := by
    rw [hslots.hold_nil]
    exact hg.deny deny
  have hspec : Triple NoStop (Global lk ∅ s.ram.mem (s.owners.hold []))
      (fetchArgs (s.sys.proc p).pagetable (s.sys.proc p).sz uargv MAXARG []) fun r s' =>
        ∃ t h, (t = s.owners.table none ∧ h = argHands r.2) ∧
          Global lk ∅ s.ram.mem ((s.owners.hold []).set none t h) s' := by
    refine focus_spec none (by simp) fun D m hD haside => ?_
    have ha := haside (some p) (by simp)
    rw [← hlive.root]
    exact (fetchArgs_spec ha hshape.root _ _ _ [] (by simp)).post
      fun r s hc => ⟨_, _, ⟨rfl, rfl⟩, hc.2⟩
  obtain ⟨t, h, ⟨rfl, rfl⟩, hg'⟩ := (hspec.run hpre).of_ok hargs
  have hhold : (s.owners.hold []).set none (s.owners.table none) (argHands argv) =
      s.owners.hold argv := by
    simp [Owners.set, Owners.hold]
  rw [hhold] at hg'
  have hstash := hg'.congr (owned_stash hslots.hand hg'.owned) (fun o => .inr ⟨o, rfl⟩)
    fun b hb => ⟨hb, rfl⟩
  exact hstash.rebase ∅

/-- What `exec` leaves once the new image is loaded. -/
lemma exec_image (h₀ : G.hand 0 = 0) (h₁ : G.hand 1 = 0) (hspare : G.table none = Table.empty)
    (hlive : Live lk (k.proc p) (G.table (some p)) (G.trapframe p)) (hat : At lk ∅ m k G s)
    {content : List UInt8} {img : Image} {r : Ram} (path : List UInt8)
    (hload : (execLoad lk (k.proc p).trapframe content argv).run s.ram = .ok (some img, r)) :
    ∃ s', (exec lk p path (some content) argv).run s = .ok ((img.argc : ℤ), s') ∧
      s'.sys = k.setProc p (·.become img (execName path)) ∧
      readTable s'.ram.mem img.pagetable = readTable r.mem img.pagetable := by
  have hpool : (k.proc p).trapframe ∈ lk.pool :=
    hat.2.trapframe_mem hlive.trapframe hlive.trapframe_ne
  have hvm : Triple NoStop (At lk ∅ m k G) (vm (execLoad lk (k.proc p).trapframe content argv))
      fun o s => ∃ t h, (h = G.hand ∧ ∀ img, o = some img → t.root = img.pagetable) ∧
        At lk ∅ m k (G.set none t h) s := by
    refine vm_focus none (by simp) fun D m hD _ => ?_
    rw [hspare]
    refine (execLoad_spec hD h₀ h₁ hpool hlive.trapframe_ne content argv).post fun o s ho => ?_
    obtain ⟨rfl, hc⟩ | ⟨img, t, g, rfl, hroot, -, hc⟩ := ho
    · exact ⟨_, _, ⟨rfl, by simp⟩, hc⟩
    · exact ⟨_, _, ⟨rfl, fun img' himg => Option.some.inj himg ▸ hroot⟩, hc⟩
  let s₁ : State := { s with ram := r }
  have hrun : (vm (execLoad lk (k.proc p).trapframe content argv)).run s = .ok (some img, s₁) := by
    show ((execLoad lk (k.proc p).trapframe content argv).run s.ram >>= fun a =>
      Except.ok (a.1, { s with ram := a.2 })) = _
    rw [hload]
    rfl
  obtain ⟨t, -, ⟨rfl, hroot⟩, hat₁⟩ := (hvm.run hat).of_ok hrun
  replace hroot := hroot img rfl
  have hcommit : Triple NoStop (At lk ∅ m k (G.set none t G.hand)) (execCommit lk p path img)
    fun r s =>
      r = img.argc ∧ At lk ∅ m (k.setProc p (·.become img (execName path)))
        (G.setSlot p t (G.trapframe p)) s :=
    execCommit_spec h₀ hspare hlive fun b hb => absurd hb (by simp)
  obtain ⟨⟨a, s'⟩, hdone, ha, hat'⟩ := (hcommit.run hat₁).exists_ok
  dsimp only at ha hat' hat₁
  refine ⟨s', ?_, hat'.1, ?_⟩
  · have hproc : (proc p).run s = .ok (k.proc p, s) := by
      rw [← hat.1]
      rfl
    unfold exec
    dsimp only
    rw [run_bind_of_ok hproc, run_bind_of_ok hrun]
    exact hdone.trans (by rw [ha])
  · have hnew := readTable_eq (hat'.2.rep (some p)) (hat'.2.aside (o := none) (by simp)).aligned
    have hold := readTable_eq (hat₁.2.rep none) (hat₁.2.aside (o := some p) (by simp)).aligned
    rw [Owners.setSlot_table, hroot] at hnew
    rw [show (G.set none t G.hand).table none = t by simp [Owners.set], hroot] at hold
    rw [hnew, hold]

/-- For every file, all arguments that `sys_exec` accepts and every amount of memory, `exec`
returns. If it fails, the state of the kernel and all pages in use are as before. If it
succeeds, the process has a well-shaped address space, and the pages in use that do not
belong to the process are as before. -/
theorem exec_safe {uargv : ℕ} {deny : ℕ → Bool} {argv : List ℕ} {ram : Ram}
    (h : Reachable lk s) (hp : (s.sys.proc p).state = .runnable)
    (hargs : (fetchArgs (s.sys.proc p).pagetable (s.sys.proc p).sz uargv MAXARG []).run
      { s.ram with deny := deny } = .ok ((true, argv), ram)) (path content : List UInt8) :
    ∃ r s', (exec lk p path (some content) argv).run { s with ram := ram } = .ok (r, s') ∧
      ((r = -1 ∧ s'.sys = s.sys ∧
          ∀ b ∉ ram.free, b ∉ s'.ram.free ∧ s'.ram.mem b = ram.mem b) ∨
        (0 ≤ r ∧ (∃ img : Image, s'.sys = s.sys.setProc p (·.become img (execName path))) ∧
          WellShaped lk (s'.sys.proc p) (readTable s'.ram.mem (s'.sys.proc p).pagetable) ∧
          ∀ b ∉ ram.free, (∀ x, x.belongs p → s.owners.page x ≠ b) →
            b ∉ s'.ram.free ∧ s'.ram.mem b = ram.mem b)) := by
  have hg := fetchArgs_global h.inv hp hargs
  obtain ⟨hslots, -⟩ := h.inv.owners
  have hlive := hslots.live (p := p) (by simp [hp])
  let G := s.owners.stash argv
  -- the pages that must not change if `exec` fails, and if it succeeds
  let K : Set ℕ := {b | b ∉ ram.free}
  let K' : Set ℕ := {b | b ∉ ram.free ∧ ∀ x, x.belongs p → s.owners.page x ≠ b}
  have hK : ∀ b ∈ K, b ∉ G.focus lk none := by
    intro b hb hfocus
    obtain ⟨x, hx⟩ := (hg.owned.used_iff b hfocus.1).1 hb
    refine hfocus.2 x (fun c hc => ?_) hx
    subst hc
    exact hg.owned.ne_zero_of_mem hfocus.1 (hx.symm.trans (State.owners_none s argv c))
  have hK' : Frozen lk G p K' := by
    intro b hb hpool
    obtain ⟨x, hx⟩ := (hg.owned.used_iff b hpool).1 hb.1
    exact ⟨x, away_of_page hx (hg.owned.ne_zero_of_mem hpool) hb.2, hx⟩
  have hat : At lk K ram.mem s.sys G { s with ram := ram } :=
    ⟨rfl, hg.rebase K⟩
  have hexec := exec_spec (m := ram.mem) (k := s.sys) (G := G) (hslots.hand 0)
    (hslots.hand 1) rfl hlive hK (fun b hb => hb.1) hK' path (some content) argv
  obtain ⟨⟨r, s'⟩, hrun, hpost⟩ := (hexec.run hat).exists_ok
  refine ⟨r, s', hrun, ?_⟩
  dsimp only at hpost
  obtain ⟨hr, hsys, hg'⟩ | ⟨img, t, g, hr, hroot, hshape, hsys, hg'⟩ := hpost
  · refine .inl ⟨hr, hsys, fun b hb => ⟨fun hfree => ?_, hg'.frozen b hb⟩⟩
    have hpool := hg'.sub b hfree
    obtain ⟨x, hx⟩ := (hg.owned.used_iff b hpool).1 hb
    exact (hg'.owned.used_iff b hpool).2 ⟨x, hx⟩ hfree
  · refine .inr ⟨by simp [hr], ⟨img, hsys⟩, ?_, fun b hb hother =>
      ⟨fun hfree => ?_, hg'.frozen b ⟨hb, hother⟩⟩⟩
    · have hpr : s'.sys.proc p = (s.sys.proc p).become img (execName path) := by
        simp [hsys, Sys.setProc]
      have halign := (hg'.aside (show some p ≠ none by simp)).aligned
      have hread := readTable_eq (hg'.rep (some p)) halign
      have hleaves := hg'.leaves (some p)
      rw [Owners.setSlot_table] at hread hleaves
      rw [hpr, show ((s.sys.proc p).become img (execName path)).pagetable = t.root from
        hroot.symm, hread]
      exact .of_shape hshape hleaves
    · have hpool := hg'.sub b hfree
      obtain ⟨x, hx⟩ := (hg.owned.used_iff b hpool).1 hb
      have haway := away_of_page hx (hg.owned.ne_zero_of_mem hpool) hother
      refine (hg'.owned.used_iff b hpool).2 ⟨x, ?_⟩ hfree
      rw [Owners.setSlot_page_of_away haway, hx]

/-- A program with one segment of one page at address `0`, which it can read and not write. -/
def roElf : List UInt8 :=
  leBytes 4 ELF_MAGIC ++ List.replicate 20 0 ++ leBytes 8 0 ++ leBytes 8 64 ++
    List.replicate 16 0 ++ leBytes 2 1 ++ List.replicate 6 0 ++
    leBytes 4 1 ++ leBytes 4 4 ++ leBytes 8 0 ++ leBytes 8 0 ++ leBytes 8 0 ++ leBytes 8 0 ++
    leBytes 8 4096 ++ leBytes 8 0

/-- The first process can call `exec` on that program, and gets its page at `0` with `PTE_V`
and `PTE_U` and without `PTE_W`. -/
def State.loads (s : State) : Bool :=
  let pr := s.sys.proc initproc
  let ram := { s.ram with deny := fun _ => false }
  decide (pr.state = .runnable) &&
    match (copyinstr pr.pagetable 0 MAXPATH).run ram,
      (fetchArgs pr.pagetable pr.sz 0 MAXARG []).run ram with
    | .ok ((_, r), _), .ok (args, ram) =>
      decide (0 ≤ r ∧ args = (true, [])) &&
        match (execLoad smallLink pr.trapframe roElf []).run ram with
        | .ok (some img, ram) =>
          let pte := (readTable ram.mem img.pagetable).leaf 0
          pteV pte && pteU pte && !pteW pte
        | _ => false
    | _, _ => false

lemma exists_loading : ∃ s, Reachable smallLink s ∧ ∃ path c r₁ r₂ r₃, ∃ img : Image,
    (s.sys.proc initproc).state = .runnable ∧
    (copyinstr (s.sys.proc initproc).pagetable 0 MAXPATH).run
      { s.ram with deny := fun _ => false } = .ok ((path, c), r₁) ∧ 0 ≤ c ∧
    (fetchArgs (s.sys.proc initproc).pagetable (s.sys.proc initproc).sz 0 MAXARG []).run
      { s.ram with deny := fun _ => false } = .ok ((true, []), r₂) ∧
    (execLoad smallLink (s.sys.proc initproc).trapframe roElf []).run r₂ = .ok (some img, r₃) ∧
    pteV ((readTable r₃.mem img.pagetable).leaf 0) = true ∧
    pteU ((readTable r₃.mem img.pagetable).leaf 0) = true ∧
    pteW ((readTable r₃.mem img.pagetable).leaf 0) = false := by
  obtain ⟨s, hs, hloads⟩ := exists_outcome (x := smallStart) (f := State.loads) (by decide +kernel)
  refine ⟨s, smallStart_reachable hs, ?_⟩
  obtain ⟨hp, hloads⟩ := Bool.and_eq_true_iff.1 hloads
  dsimp only at hloads
  split at hloads
  case h_2 => cases hloads
  case h_1 path c r₁ args r₂ hpath hargs =>
    obtain ⟨hcargs, himg⟩ := Bool.and_eq_true_iff.1 hloads
    obtain ⟨hc, rfl⟩ := of_decide_eq_true hcargs
    split at himg
    case h_2 => cases himg
    case h_1 img r₃ hload =>
      simp only [Bool.and_eq_true, Bool.not_eq_true'] at himg
      exact ⟨path, c, r₁, r₂, r₃, img, by simpa using hp, hpath, hc, hargs, hload, himg.1.1,
        himg.1.2, himg.2⟩

lemma Owners.stash_nil (G : Owners) : G.stash [] = G := by
  simp [Owners.stash]

/-- In the small machine `exec` of this program loads its segment and succeeds. -/
theorem exec_safe_small : ∃ s ram r s', Reachable smallLink s ∧
    (exec smallLink initproc [] (some roElf) []).run { s with ram := ram } = .ok (r, s') ∧
    0 ≤ r ∧ WellShaped smallLink (s'.sys.proc initproc)
      (readTable s'.ram.mem (s'.sys.proc initproc).pagetable) := by
  obtain ⟨s, hs, path, c, r₁, ram, r₃, img, hp, -, -, hargs, hload, -⟩ := exists_loading
  obtain ⟨hslots, -⟩ := hs.inv.owners
  have hg := fetchArgs_global hs.inv hp hargs
  rw [Owners.stash_nil] at hg
  obtain ⟨s₁, hrun₁, -⟩ := exec_image (hslots.hand 0) (hslots.hand 1) hslots.spare
    (hslots.live (p := initproc) (by simp [hp])) (s := { s with ram := ram }) ⟨rfl, hg⟩ [] hload
  obtain ⟨r, s', hrun, hend⟩ := exec_safe hs hp hargs [] roElf
  obtain ⟨rfl, -⟩ := Prod.mk.inj (Except.ok.inj (hrun₁.symm.trans hrun))
  obtain ⟨hr, -⟩ | ⟨hr, -, hshape, -⟩ := hend
  · omega
  · exact ⟨s, ram, _, s', hs, hrun, hr, hshape⟩

end Xv6.Vm
