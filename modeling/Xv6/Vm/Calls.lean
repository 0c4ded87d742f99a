import Xv6.Vm.Pipes

/-!
# Processes and their memory

`Inv` is the invariant between calls. Every call keeps it, for every outcome of `kalloc`,
and none of them panics except for `exit` of the first process.
-/

namespace Xv6.Vm

open Xv6.Lib
open Xv6.Process (Slot ProcState Stop)
open Function (update update_of_ne update_self update_eq_self update_idem)

variable {lk : Link} {m : ℕ → Page} {G : Owners} {P : Slot → Proc} {F : FileNo → ℤ} {α : Type}
  {p : Slot} {pr : Proc} {t : Table} {tf b : ℕ} {g : Option ℕ}

/-! ## The invariant -/

/-- The memory of a process, complete or as far as `allocproc` has got. -/
structure Space (lk : Link) (pr : Proc) (t : Table) (tf : ℕ) : Prop where
  trapframe : tf = pr.trapframe
  root : t.root = pr.pagetable
  bare : pr.pagetable = 0 → t = Table.empty ∧ pr.sz = 0
  shape : pr.pagetable ≠ 0 → pr.trapframe ≠ 0 ∧ ∃ g, Shape lk pr.trapframe (pages pr.sz) g t

/-- The memory of a slot of the process table between calls. -/
structure Settled (lk : Link) (pr : Proc) (t : Table) (tf : ℕ) : Prop where
  space : Space lk pr t tf
  unused : pr.state = .unused ↔ pr.pagetable = 0
  free : pr.state = .unused → pr.trapframe = 0
  closed : pr.state = .unused ∨ pr.state = .zombie → ∀ fd, pr.ofile fd = none

/-- All slots are settled, and the running code has nothing in hand. -/
structure Slots (lk : Link) (P : Slot → Proc) (G : Owners) : Prop where
  slot : ∀ p, Settled lk (P p) (G.table (some p)) (G.trapframe p)
  spare : G.table none = Table.empty
  hand : ∀ j, G.hand j = 0

/-- The invariant of the machine. -/
def Inv (lk : Link) (s : State) : Prop := ∃ m P G, Slots lk P G ∧ Run lk m P G 0 s

/-- The process `p` has another table and trapframe. -/
def Owners.setSlot (G : Owners) (p : Slot) (t : Table) (tf : ℕ) : Owners :=
  { G with table := update G.table (some p) t,
           trapframe := update G.trapframe p tf }

lemma Slots.update (hs : Slots lk P G) (hslot : Settled lk pr t tf) :
    Slots lk (update P p pr) (G.setSlot p t tf) := by
  refine ⟨fun q => ?_, hs.spare, hs.hand⟩
  by_cases hq : q = p
  · subst hq
    simpa [Owners.setSlot] using hslot
  · simpa [Owners.setSlot, hq] using hs.slot q

namespace Owners

variable (G : Owners) (p : Slot) (t t' : Table) (tf tf' : ℕ)

lemma setSlot_self : G.setSlot p (G.table (some p)) (G.trapframe p) = G := by
  simp [setSlot]

@[simp] lemma setSlot_setSlot : (G.setSlot p t tf).setSlot p t' tf' = G.setSlot p t' tf' := by
  simp [setSlot]

@[simp] lemma setSlot_table : (G.setSlot p t tf).table (some p) = t := by
  simp [setSlot]

@[simp] lemma setSlot_trapframe : (G.setSlot p t tf).trapframe p = tf := by
  simp [setSlot]

@[simp] lemma setSlot_hand : (G.setSlot p t tf).hand = G.hand := rfl

lemma set_setSlot : (G.setSlot p t tf).set (some p) t' G.hand = G.setSlot p t' tf := by
  simp [set, setSlot]

/-- The table of `p` changes, its trapframe does not. -/
lemma set_eq_setSlot : G.set (some p) t G.hand = G.setSlot p t (G.trapframe p) := by
  simp [set, setSlot]

end Owners

/-- A process with memory. -/
lemma Settled.of_shape (hstate : pr.state ≠ .unused)
    (hclosed : pr.state = .zombie → ∀ fd, pr.ofile fd = none) (htf : tf = pr.trapframe)
    (htf0 : pr.trapframe ≠ 0) (hroot : t.root = pr.pagetable)
    (hshape : Shape lk pr.trapframe (pages pr.sz) g t) : Settled lk pr t tf := by
  have hpt : pr.pagetable ≠ 0 := hroot ▸ hshape.root
  refine ⟨⟨htf, hroot, fun h => absurd h hpt, fun _ => ⟨htf0, g, hshape⟩⟩, ?_, ?_, ?_⟩
  · exact ⟨fun h => absurd h hstate, fun h => absurd h hpt⟩
  · exact fun h => absurd h hstate
  · exact fun h => hclosed (h.resolve_left hstate)

/-- What a slot in use has. -/
structure Live (lk : Link) (pr : Proc) (t : Table) (tf : ℕ) : Prop where
  trapframe : tf = pr.trapframe
  trapframe_ne : pr.trapframe ≠ 0
  root : t.root = pr.pagetable
  shape : ∃ g, Shape lk pr.trapframe (pages pr.sz) g t

lemma Slots.live (hs : Slots lk P G) (hp : (P p).state ≠ .unused) :
    Live lk (P p) (G.table (some p)) (G.trapframe p) := by
  obtain ⟨hspace, hunused, -, -⟩ := hs.slot p
  obtain ⟨htf, hshape⟩ := hspace.shape fun h => hp (hunused.2 h)
  exact ⟨hspace.trapframe, htf, hspace.root, hshape⟩

/-! ## Freeing a process -/

/-- The slot after `freeproc`. -/
def Proc.released (pr : Proc) : Proc :=
  { pr with trapframe := 0, pagetable := 0, sz := 0, parent := none, name := [], xstate := 0,
            state := .unused }

lemma Proc.released_settled (pr : Proc) (hof : ∀ fd, pr.ofile fd = none) :
    Settled lk pr.released Table.empty 0 :=
  ⟨⟨rfl, rfl, fun _ => ⟨rfl, rfl⟩, fun h => absurd rfl h⟩, ⟨fun _ => rfl, fun _ => rfl⟩,
    fun _ => rfl, fun _ => hof⟩

lemma run_kfree (hj : G.hand 0 = b) (hb : b ≠ 0) :
    Triple NoStop (Run lk m P G F) (vm (kfree lk b)) fun _ =>
      Run lk m P { G with hand := update G.hand 0 0 } F := by
  refine (run_focus none (R := fun _ t h => t = G.table none ∧ h = update G.hand 0 0)
    fun D m hD _ => (kfree_hand hD hj hb).post fun _ s hc => ⟨_, _, ⟨rfl, rfl⟩, hc⟩).post
      fun _ s hs => ?_
  obtain ⟨t, h, ⟨rfl, rfl⟩, hs⟩ := hs
  simpa [Owners.set] using hs

lemma run_kalloc (hj : G.hand 0 = 0) :
    Triple NoStop (Run lk m P G F) (vm kalloc) fun q s => (q = 0 ∧ Run lk m P G F s) ∨
      (q ≠ 0 ∧ Run lk m P { G with hand := update G.hand 0 q } F s) := by
  refine (run_focus none (R := fun q t h => t = G.table none ∧
    (q = 0 ∧ h = G.hand ∨ q ≠ 0 ∧ h = update G.hand 0 q)) fun D m _ _ =>
      (kalloc_spec 0 hj).post fun q s hq => ?_).post fun q s hq => ?_
  · obtain ⟨hq, hc⟩ | ⟨hq, hc⟩ := hq
    · exact ⟨_, _, ⟨rfl, .inl ⟨hq, rfl⟩⟩, hc⟩
    · exact ⟨_, _, ⟨rfl, .inr ⟨hq, rfl⟩⟩, hc⟩
  · obtain ⟨t, h, ⟨rfl, ⟨hq, rfl⟩ | ⟨hq, rfl⟩⟩, hs⟩ := hq
    · exact .inl ⟨hq, by simpa [Owners.set] using hs⟩
    · exact .inr ⟨hq, by simpa [Owners.set] using hs⟩

/-- The trapframe of a process is a page of the pool. -/
lemma Run.trapframe_mem {s : State} (hs : Run lk m P G F s) (htf : G.trapframe p ≠ 0) :
    G.trapframe p ∈ lk.pool := by
  obtain ⟨e, -, hg⟩ := hs.rest
  exact hg.owned.mem (.trapframe p) htf

/-- `freeproc` gives all memory of a process back. -/
lemma freeproc_spec (hs : Space lk (P p) (G.table (some p)) (G.trapframe p))
    (hhand : G.hand 0 = 0) :
    Triple NoStop (Run lk m P G F) (freeproc lk p) fun _ =>
      Run lk m (update P p (P p).released) (G.setSlot p Table.empty 0) F := by
  refine .of_pre fun s₀ h₀ => run_proc_bind ?_
  have hpool : (P p).trapframe ≠ 0 → (P p).trapframe ∈ lk.pool := by
    rw [← hs.trapframe]
    exact h₀.trapframe_mem
  let G₁ : Owners := { G with trapframe := update G.trapframe p 0 }
  -- the trapframe
  have htrap : Triple NoStop (Run lk m P G F)
      (if (P p).trapframe ≠ 0 then vm (kfree lk (P p).trapframe) else pure ())
      fun _ => Run lk m P G₁ F := by
    refine .ite (fun hne => ?_) fun heq => ?_
    · rw [← hs.trapframe] at hne ⊢
      refine .pre (P := Run lk m P (G.takeTrapframe p 0) F) ?_
        fun s h => h.owners rfl fun e r hg => hg.takeTrapframe (p := p) (j := 0) hhand hne
      refine (run_kfree (by simp [Owners.takeTrapframe]) hne).post fun _ s h => ?_
      simpa [Owners.takeTrapframe, hand_restore hhand, G₁] using h
    · have hzero : G.trapframe p = 0 := hs.trapframe.trans (by simpa using heq)
      refine .pure fun s h => ?_
      rwa [show G₁ = G by simp [G₁, ← hzero]]
  refine htrap.bind fun _ => (run_modifyProc rfl).bind fun _ => ?_
  -- the page table
  generalize hP₁ : update P p { P p with trapframe := 0 } = P₁
  have htable : Triple NoStop (Run lk m P₁ G₁ F)
      (if (P p).pagetable ≠ 0 then vm (procFreepagetable lk (P p).pagetable (P p).sz) else pure ())
      fun _ => Run lk m P₁ (G.setSlot p Table.empty 0) F := by
    refine .ite (fun hne => ?_) fun heq => ?_
    · obtain ⟨htf, g, hshape⟩ := hs.shape hne
      rw [← hs.root]
      refine (run_focus (some p) (G := G₁) (R := fun _ t h => t = Table.empty ∧ h = G.hand)
        fun D m hD _ => (procFreepagetable_spec hD hhand hshape (hpool htf) htf).post fun _ s hc =>
          ⟨_, _, ⟨rfl, rfl⟩, hc⟩).post fun _ s h => ?_
      obtain ⟨t, h, ⟨rfl, rfl⟩, h⟩ := h
      exact h
    · obtain ⟨hempty, -⟩ := hs.bare (by simpa using heq)
      refine .pure fun s h => ?_
      rwa [show G.setSlot p Table.empty 0 = G₁ by simp [G₁, Owners.setSlot, ← hempty]]
  refine htable.bind fun _ => (run_modifyProc rfl).post fun _ s h => ?_
  simpa [← hP₁, Proc.released] using h

/-! ## Creating a process -/

/-- Fields of `*p` other than the descriptors are assigned again. -/
lemma run_update {g : Proc → Proc} (hof : (g pr).ofile = pr.ofile) :
    Triple NoStop (Run lk m (update P p pr) G F) (modifyProc p g) fun _ =>
      Run lk m (update P p (g pr)) G F := by
  have hof' : (g (update P p pr p)).ofile = (update P p pr p).ofile := by
    simpa using hof
  refine (run_modifyProc hof').post fun _ s h => ?_
  simpa using h

/-- A slot that is not complete is freed again. -/
lemma freeproc_undo (hs : Slots lk P G) (hp : (P p).state = .unused)
    (hof : pr.ofile = (P p).ofile) {G' : Owners}
    (hspace : Space lk pr (G'.table (some p)) (G'.trapframe p))
    (hG' : G'.setSlot p Table.empty 0 = G.setSlot p Table.empty 0) :
    Triple NoStop (Run lk m (update P p pr) G' 0) (do
      freeproc lk p
      return (none : Option Slot)) fun r s => r = none ∧ Inv lk s := by
  have hhand : G'.hand 0 = 0 := by
    have := congrArg (fun G => Owners.hand G 0) hG'
    simpa [hs.hand] using this
  refine (freeproc_spec (by simpa using hspace) hhand).bind fun _ => .pure fun s h => ⟨rfl, ?_⟩
  rw [hG', update_self, update_idem] at h
  refine ⟨_, _, _, hs.update (pr.released_settled ?_), h⟩
  rw [hof]
  exact (hs.slot p).closed (.inl hp)

/-- What `allocproc` makes. -/
def Proc.fresh (pr : Proc) (pagetable trapframe : ℕ) : Proc :=
  { pr with state := .used, trapframe := trapframe, pagetable := pagetable }

/-- A slot that is not in use has no memory. -/
lemma Slots.bare (hs : Slots lk P G) (hp : (P p).state = .unused) :
    G.table (some p) = Table.empty ∧ (P p).sz = 0 ∧ (P p).pagetable = 0 ∧
      (P p).trapframe = 0 ∧ G.trapframe p = 0 := by
  obtain ⟨hspace, hunused, hfree, -⟩ := hs.slot p
  have hpt := hunused.1 hp
  obtain ⟨htable, hsz⟩ := hspace.bare hpt
  exact ⟨htable, hsz, hpt, hfree hp, hspace.trapframe.trans (hfree hp)⟩

/-- `allocproc` gives a slot a trapframe and a page table, or leaves nothing behind. -/
lemma allocproc_spec (hs : Slots lk P G) :
    Triple NoStop (Run lk m P G 0) (allocproc lk) fun r s =>
      (r = none ∧ Inv lk s) ∨
      ∃ p t tf, r = some p ∧ (P p).state = .unused ∧ tf ∈ lk.pool ∧ tf ≠ 0 ∧
        Shape lk tf 0 none t ∧
        Run lk m (update P p ((P p).fresh t.root tf)) (G.setSlot p t tf) 0 s := by
  refine run_sys_bind fun s₀ hproc => ?_
  dsimp only
  rw [hproc]
  cases hfind : (List.finRange Process.NPROC).find? fun p => decide ((P p).state = .unused) with
  | none => exact .pure fun s h => .inl ⟨rfl, _, _, _, hs, h⟩
  | some p =>
    have hp : (P p).state = .unused := by simpa using List.find?_some hfind
    obtain ⟨htable, hsz, hpt, htf, hGtf⟩ := hs.bare hp
    refine (run_modifyProc rfl).bind fun _ => (run_kalloc (hs.hand 0)).bind fun tf => ?_
    refine .or_pre (.assume fun hzero => ?_) (.assume fun hne => ?_)
    · refine (run_update rfl).bind fun _ => ?_
      rw [if_pos hzero]
      refine .post (freeproc_undo hs hp ?_ ⟨?_, ?_, ?_, ?_⟩ rfl) fun r s h => .inl h
      · rfl
      · rw [hGtf, hzero]
      · rw [htable, hpt]
        rfl
      · exact fun _ => ⟨htable, hsz⟩
      · exact fun hne => absurd hpt hne
    · -- the page becomes the trapframe of the slot
      refine .pre (P := Run lk m (update P p { P p with state := .used })
        (G.setSlot p Table.empty tf) 0) ?_ fun s h => h.owners rfl fun e r hg => ?_
      · refine .of_pre fun s₁ hs₁ => (run_update rfl).bind fun _ => ?_
        have hpool : tf ∈ lk.pool := by
          have := hs₁.trapframe_mem (p := p) (by simpa using hne)
          simpa using this
        rw [if_neg hne]
        refine (run_focus (some p) (R := fun r t h => h = G.hand ∧ (r = 0 ∧ t = Table.empty ∨
          r ≠ 0 ∧ t.root = r ∧ Shape lk tf 0 none t)) fun D m hD _ => ?_).bind fun pt => ?_
        · rw [Owners.setSlot_table]
          refine (procPagetable_spec hD (hs.hand 0) (hs.hand 1) hpool hne).post fun r s hr => ?_
          obtain ⟨hr, hc⟩ | ⟨hr, t, hroot, hshape, hc⟩ := hr
          · exact ⟨_, _, ⟨rfl, .inl ⟨hr, rfl⟩⟩, hc⟩
          · exact ⟨_, _, ⟨rfl, .inr ⟨hr, hroot, hshape⟩⟩, hc⟩
        refine .exists_pre fun t => .exists_pre fun h => .assume fun ht => ?_
        obtain ⟨rfl, ⟨hr, rfl⟩ | ⟨hr, hroot, hshape⟩⟩ := ht
        · rw [Owners.set_setSlot]
          refine (run_update rfl).bind fun _ => ?_
          rw [if_pos hr]
          refine .post (freeproc_undo hs hp ?_ ⟨?_, ?_, ?_, ?_⟩ (by simp)) fun r s h => .inl h
          · rfl
          · simp
          · simp [hr]
            rfl
          · exact fun _ => ⟨by simp, hsz⟩
          · exact fun hne => absurd hr hne
        · rw [Owners.set_setSlot]
          refine (run_update rfl).bind fun _ => ?_
          rw [if_neg hr]
          refine .pure fun s h => .inr ⟨p, t, tf, rfl, hp, hpool, hne, hshape, ?_⟩
          rw [hroot]
          exact h
      · have hgive := hg.giveTrapframe (p := p) (j := 0) (by simpa using hne) (by simpa using hGtf)
        have hG : (Owners.giveTrapframe { G with hand := update G.hand 0 tf, ends := e }
            p 0) = { G.setSlot p Table.empty tf with ends := e } := by
          simp [Owners.giveTrapframe, Owners.setSlot, hand_restore (hs.hand 0), ← htable]
        rwa [← hG]

/-! ## `fork` -/

/-- Code that writes to the trapframe of a process. -/
lemma run_touch {x : VmM α} (htf : G.trapframe p ≠ 0)
    (hx : ∀ G₁ : Owners, (∀ s page, Global lk ∅ m G₁ s →
        Global lk ∅ m G₁ (s.setPage (G.trapframe p) page)) →
      Triple NoStop (Global lk ∅ m G₁) x fun _ => Global lk ∅ m G₁) :
    Triple NoStop (Run lk m P G F) (vm x) fun _ => Run lk m P G F := by
  refine run_of_at fun k e hproc hkernel hfiles => ?_
  subst hproc
  refine (vm_spec (φ := (· = k)) (hx _ fun s page hg => ?_)).post fun _ s h =>
    At.run h hfiles hkernel
  exact hg.touch (x := .trapframe p) rfl htf (by simp) (by simp) (by simp) page

lemma Shape.any_guard {g' : Option ℕ} (hs : Shape lk tf 0 g' t) : Shape lk tf 0 g t :=
  ⟨hs.root, hs.le, hs.mapped, fun _ hv => absurd hv (by omega), hs.trapframe, hs.trampoline,
    hs.above⟩

/-- `fork` makes a complete process, or leaves nothing behind. -/
lemma fork_spec (hs : Slots lk P G) (hp : (P p).state ≠ .unused) :
    Triple NoStop (Run lk m P G 0) (fork lk p) fun _ => Inv lk := by
  refine (allocproc_spec hs).bind fun r => .or_pre (.assume fun hr => ?_)
    (.exists_pre fun np => .exists_pre fun t => .exists_pre fun tf => .assume fun hr =>
      .assume fun hnp => .assume fun hpool => .assume fun htf => .assume fun hshape => ?_)
  · rw [hr]
    exact .skip
  rw [hr]
  have hne : p ≠ np := by
    rintro rfl
    exact hp hnp
  obtain ⟨-, hsz, -⟩ := hs.bare hnp
  obtain ⟨-, -, hroot, g, hold⟩ := hs.live hp
  dsimp only
  refine run_proc_bind (run_proc_bind ?_)
  rw [update_of_ne hne, update_self, ← hroot]
  -- the memory of the parent is copied
  refine (run_focus (some np) (R := fun r t' h => h = G.hand ∧ t'.root = t.root ∧
    (r = -1 ∧ Shape lk tf 0 g t' ∨ r = 0 ∧ Shape lk tf (pages (P p).sz) g t'))
      fun D m hD haside => ?_).bind fun r => ?_
  · have ha := haside (some p) (by simpa using hne)
    have htable : (G.setSlot np t tf).table (some p) = G.table (some p) := by
      simp [Owners.setSlot, hne]
    rw [htable] at ha
    rw [Owners.setSlot_table]
    refine (uvmcopy_spec hD (hs.hand 0) (hs.hand 1) ha hold hshape.any_guard).post
      fun r s hr => ?_
    obtain ⟨t', hkeep, hc, hr⟩ := hr
    exact ⟨t', _, ⟨rfl, hkeep.root, hr⟩, hc⟩
  refine .exists_pre fun t' => .exists_pre fun h => .assume fun ht => ?_
  obtain ⟨rfl, hroot', ⟨hr, hs'⟩ | ⟨hr, hs'⟩⟩ := ht
  · rw [hr, if_pos (by decide), Owners.set_setSlot]
    refine .post (freeproc_undo hs hnp ?_ ⟨?_, ?_, ?_, ?_⟩ (by simp)) fun r s h => h.2
    · rfl
    · simp [Proc.fresh]
    · simp [Proc.fresh, hroot']
    · exact fun h => absurd h hshape.root
    · refine fun _ => ⟨htf, g, ?_⟩
      rw [Owners.setSlot_table, show ((P np).fresh t.root tf).sz = 0 from hsz]
      exact hs'
  · rw [hr, if_neg (by decide), Owners.set_setSlot]
    refine (run_update rfl).bind fun _ => ?_
    refine .bind (run_touch (p := np) ?_ fun G₁ htouch => ?_) fun _ => ?_
    · simpa using htf
    · rw [Owners.setSlot_trapframe] at htouch
      exact .bind (.modify fun s hg => htouch s _ hg) fun _ => .modify fun s hg => htouch s _ hg
    refine .bind (forkFiles_spec hne ?_) fun _ => .exists_pre fun o => ?_
    · rw [update_self]
      exact (hs.slot np).closed (.inl hnp)
    refine (run_modifyProc rfl).bind fun _ => .pure fun s h => ?_
    rw [withOfiles, update_self, update_idem, update_idem,
      update_self] at h
    refine ⟨_, _, _, hs.update (.of_shape ?_ ?_ ?_ ?_ ?_ hs'), h⟩
    · simp
    · simp
    · rfl
    · exact htf
    · exact hroot'

/-! ## Calls on one process -/

/-- The memory and the descriptors of a process in use change. -/
lemma Slots.change (hs : Slots lk P G) (sz : ℕ) (o : Fin NOFILE → Option FileNo)
    (hp : (P p).state = .runnable) (hroot : t.root = (P p).pagetable)
    (hshape : Shape lk (P p).trapframe (pages sz) g t) :
    Slots lk (Function.update P p { P p with sz := sz, ofile := o })
      (G.setSlot p t (G.trapframe p)) := by
  have hlive := hs.live (p := p) (by simp [hp])
  exact hs.update (.of_shape (by simp [hp]) (by simp [hp]) hlive.trapframe hlive.trapframe_ne
    hroot hshape)

/-- The size of a process changes with its memory. -/
lemma Slots.resize {sz : ℕ} (hs : Slots lk P G) (hp : (P p).state = .runnable)
    (hroot : t.root = (P p).pagetable) (hshape : Shape lk (P p).trapframe (pages sz) g t) :
    Slots lk (Function.update P p { P p with sz := sz }) (G.setSlot p t (G.trapframe p)) :=
  hs.change sz (P p).ofile hp hroot hshape

lemma Slots.ofile (hs : Slots lk P G) (hp : (P p).state = .runnable)
    (o : Fin NOFILE → Option FileNo) : Slots lk (withOfiles P p o) G := by
  obtain ⟨htf, -, hroot, g, hshape⟩ := hs.live (p := p) (by simp [hp])
  have h := hs.change (P p).sz o hp hroot hshape
  rwa [Owners.setSlot_self] at h

/-- The shape that `uvmdealloc` leaves. -/
lemma Shape.dealloc {oldsz : ℕ} (hs : Shape lk tf (pages oldsz) g t) (newsz : ℕ) :
    Shape lk tf (pages (min oldsz newsz)) g
      (t.unmap (pages newsz) (pages oldsz - pages newsz)) := by
  obtain hle | hle := le_total oldsz newsz
  · rw [min_eq_left hle, Nat.sub_eq_zero_of_le (pages_mono hle), Table.unmap_zero]
    exact hs
  · rw [min_eq_right hle]
    exact hs.unmap (pages_mono hle)

/-- `growproc` grows or shrinks the memory, or leaves it as it was. -/
lemma growproc_spec (hs : Slots lk P G) (hp : (P p).state = .runnable) (n : BitVec 32) :
    Triple NoStop (Run lk m P G 0) (growproc lk p n) fun _ => Inv lk := by
  obtain ⟨-, -, hroot, g, hshape⟩ := hs.live (p := p) (by simp [hp])
  refine run_proc_bind ?_
  rw [← hroot]
  refine .ite (fun _ => ?_) fun _ => .ite (fun _ => ?_) fun _ => ?_
  · refine (run_focus (some p) (R := fun r t h => h = G.hand ∧ t.root = (G.table (some p)).root ∧
      (r = 0 ∧ Shape lk (P p).trapframe (pages (P p).sz) g t ∨
        (P p).sz ≤ r ∧ Shape lk (P p).trapframe (pages r) g t)) fun D m hD _ => ?_).bind fun r => ?_
    · refine (uvmalloc_spec hD (hs.hand 0) (hs.hand 1) (by decide) hshape).post fun r s hr => ?_
      obtain ⟨t, hkeep, hc, hr | ⟨hr, hs'⟩⟩ := hr
      · exact ⟨t, _, ⟨rfl, hkeep.root, .inl hr⟩, hc⟩
      · rw [← hr] at hs'
        exact ⟨t, _, ⟨rfl, hkeep.root, .inr ⟨by omega, hs'⟩⟩, hc⟩
    refine .exists_pre fun t => .exists_pre fun h => .assume fun ht => ?_
    obtain ⟨rfl, hroot', ht⟩ := ht
    rw [Owners.set_eq_setSlot]
    refine .ite (fun hzero => .pure fun s h => ?_) fun hne => ?_
    · have hsame : Shape lk (P p).trapframe (pages (P p).sz) g t := by
        obtain ⟨-, ht⟩ | ⟨hle, ht⟩ := ht
        · exact ht
        · rwa [show (P p).sz = r by omega]
      have hslots := hs.resize hp (hroot'.trans hroot) hsame
      rw [update_eq_self] at hslots
      exact ⟨_, _, _, hslots, h⟩
    · obtain ⟨-, ht⟩ := ht.resolve_left fun ht => hne ht.1
      exact (run_modifyProc rfl).bind fun _ => .pure fun s h =>
        ⟨_, _, _, hs.resize hp (hroot'.trans hroot) ht, h⟩
  · refine (run_focus (some p) (R := fun r t h => h = G.hand ∧ t.root = (G.table (some p)).root ∧
      Shape lk (P p).trapframe (pages r) g t) fun D m hD _ => ?_).bind fun r => ?_
    · refine (uvmdealloc_spec hD (hs.hand 0) hshape _).post fun r s hr => ?_
      refine ⟨_, _, ⟨rfl, ?_, ?_⟩, hr.2⟩
      · rfl
      · rw [hr.1]
        exact hshape.dealloc _
    refine .exists_pre fun t => .exists_pre fun h => .assume fun ht => ?_
    obtain ⟨rfl, hroot', ht⟩ := ht
    rw [Owners.set_eq_setSlot]
    exact (run_modifyProc rfl).bind fun _ => .pure fun s h =>
      ⟨_, _, _, hs.resize hp (hroot'.trans hroot) ht, h⟩
  · exact .pure fun s h => ⟨_, _, _, hs, h⟩

/-! ## `exit` and `wait` -/

/-- The process table after `reparent`. -/
def reparented (P : Slot → Proc) (p : Slot) (q : Slot) : Proc :=
  if (P q).parent = some p then { P q with parent := some initproc } else P q

lemma reparented_ofile (q : Slot) : (reparented P p q).ofile = (P q).ofile := by
  unfold reparented
  split <;> rfl

lemma reparent_spec :
    Triple NoStop (Run lk m P G F) (reparent p) fun _ => Run lk m (reparented P p) G F := by
  refine .modify fun s hs => ?_
  obtain ⟨e, hfiles, hglobal⟩ := hs.rest
  have hofiles : ofiles (reparented P p) = ofiles P := by
    funext x
    simp [ofiles, reparented_ofile]
  refine ⟨?_, hs.kernel, e, hfiles.proc hofiles, hglobal⟩
  simp only [hs.proc]
  rfl

lemma Settled.parent (h : Settled lk pr t tf) (x : Option Slot) :
    Settled lk { pr with parent := x } t tf :=
  ⟨⟨h.space.trapframe, h.space.root, h.space.bare, h.space.shape⟩, h.unused, h.free, h.closed⟩

lemma Slots.reparented (hs : Slots lk P G) : Slots lk (reparented P p) G := by
  refine ⟨fun q => ?_, hs.spare, hs.hand⟩
  unfold Vm.reparented
  split
  · exact (hs.slot q).parent _
  · exact hs.slot q

/-- `exit` closes all descriptors. The memory stays until `wait`. -/
lemma exit_spec (hs : Slots lk P G) (hp : (P p).state = .runnable) (hinit : p ≠ initproc)
    (status : BitVec 32) :
    Triple NoStop (Run lk m P G 0) (exit lk p status) fun _ => Inv lk := by
  unfold exit
  rw [if_neg hinit]
  refine (exitFiles_spec (hs.hand 0)).bind fun _ => reparent_spec.bind fun _ =>
    (run_modifyProc rfl).post fun _ s h => ?_
  have hslots : Slots lk (reparented (withOfiles P p fun _ => none) p) G :=
    (hs.ofile hp _).reparented
  have hof : ∀ fd, (reparented (withOfiles P p fun _ => none) p p).ofile fd = none := by
    intro fd
    rw [reparented_ofile, withOfiles_ofile]
  have hstate : (reparented (withOfiles P p fun _ => none) p p).state = .runnable := by
    unfold reparented
    split <;> simpa [withOfiles] using hp
  generalize reparented (withOfiles P p fun _ => none) p = P' at *
  obtain ⟨htf, htf0, hroot, g, hshape⟩ := hslots.live (p := p) (by simp [hstate])
  have hset : Settled lk { P' p with xstate := status, state := .zombie } (G.table (some p))
      (G.trapframe p) := .of_shape (by simp) (fun _ => hof) htf htf0 hroot hshape
  have hupdate := hslots.update (p := p) hset
  rw [Owners.setSlot_self] at hupdate
  exact ⟨_, _, _, hupdate, h⟩

/-- `wait` frees a child that has exited. -/
lemma wait_spec (hs : Slots lk P G) (hp : (P p).state = .runnable) (addr : ℕ) :
    Triple (· = .disabled) (Run lk m P G 0) (wait lk p addr) fun _ => Inv lk := by
  obtain ⟨-, -, hroot, g, hshape⟩ := hs.live (p := p) (by simp [hp])
  refine run_sys_bind fun s₀ hproc => ?_
  dsimp only
  rw [hproc]
  cases hfind : s₀.sys.exited p with
  | none =>
    exact .ite (fun _ => .throw rfl) fun _ => .pure fun s h => ⟨_, _, _, hs, h⟩
  | some q =>
    have hq : (P q).state = .zombie := hproc ▸ Sys.zombie_of_exited hfind
    refine .weaken (E := NoStop) ?_ fun e he => absurd he id
    rw [← hroot]
    refine (run_focus (some p) (R := fun _ t h => t = G.table (some p) ∧ h = G.hand)
      fun D m hD _ => ?_).bind fun failed => ?_
    · refine .ite (fun _ => ?_) fun _ => .pure fun s hc => ⟨_, _, ⟨rfl, rfl⟩, hc⟩
      exact (copyout_spec hD hshape _ _).bind fun r => .pure fun s hc => ⟨_, _, ⟨rfl, rfl⟩, hc⟩
    refine .exists_pre fun t => .exists_pre fun h => .assume fun ht => ?_
    rw [ht.1, ht.2, G.set_self]
    refine .ite (fun _ => .pure fun s h => ⟨_, _, _, hs, h⟩) fun _ => ?_
    refine (freeproc_spec (hs.slot q).space (hs.hand 0)).bind fun _ => .pure fun s h => ?_
    exact ⟨_, _, _, hs.update ((P q).released_settled ((hs.slot q).closed (.inr hq))), h⟩

/-! ## User code -/

/-- User code can write to pages of its own process only. -/
lemma userStore_spec (hs : Slots lk P G) (hp : (P p).state = .runnable) (va : ℕ) (page : Page) :
    Triple (· = .disabled) (Run lk m P G 0) (userStore p va page) fun _ => Inv lk := by
  obtain ⟨-, -, hroot, g, hshape⟩ := hs.live (p := p) (by simp [hp])
  refine run_proc_bind ?_
  rw [← hroot]
  refine (run_focus (some p) (R := fun _ t h => t = G.table (some p) ∧ h = G.hand)
    fun D m hD _ => ?_).post fun _ s hr => ?_
  · refine .of_pre fun s₀ hc₀ => ?_
    refine .bind ((walkaddr_spec (fun s hc => hc.rep) (hc₀.aligned hD) hshape.root _).weaken
      fun e he => absurd he id) fun pa => .assume fun hpa => ?_
    refine .ite (fun _ => .throw rfl) fun hne => .modify fun s hc => ⟨_, _, ⟨rfl, rfl⟩, ?_⟩
    rw [hpa] at hne ⊢
    exact hc.touch_addr hshape hne page
  · obtain ⟨t, h, ⟨rfl, rfl⟩, hr⟩ := hr
    rw [G.set_self] at hr
    exact ⟨_, _, _, hs, hr⟩

/-! ## The first process -/

lemma uvmfirst_spec {D : Set ℕ} {h : ℕ → ℕ} (hD : D ⊆ lk.pool) (h₀ : h 0 = 0) (h₁ : h 1 = 0)
    (hs : Shape lk tf 0 none t) (src : List UInt8) :
    Triple (fun _ => True) (Core D m t h) (uvmfirst t.root src) fun _ s =>
      ∃ t', t'.root = t.root ∧ Shape lk tf 1 none t' ∧ Core D m t' h s := by
  refine .ite (fun _ => .throw trivial) fun _ => ?_
  refine ((kalloc_spec 0 h₀).weaken fun _ he => absurd he id).bind fun q => .or_pre
    (.assume fun hq => ?_) (.assume fun hq => ?_)
  · rw [if_pos hq]
    exact .throw trivial
  rw [if_neg hq]
  refine .bind ((memset_hand (update_self ..) hq 0).weaken fun _ he => absurd he id)
    fun _ => .pre (P := Core D m t (update h 0 q)) ?_ fun s hc => hc.1
  have hmap := mappages_next (m := m) (h := update h 0 q) hD
    ((update_of_ne (by decide) ..).trans h₁) hs (update_self ..) hq
    (by decide : PTE_R ||| PTE_U ||| (PTE_W ||| PTE_X) < 1024) (by decide) fun _ => by decide
  refine (hmap.weaken fun _ he => absurd he id).bind fun r => .or_pre (.assume fun hr => ?_)
    (.assume fun hr => ?_)
  · rw [hr, if_pos (by decide)]
    exact .throw trivial
  · rw [hr, if_neg (by decide), hand_restore h₀]
    refine .exists_pre fun t' => .assume fun hkeep => .assume fun hs' => .assume fun hpa => ?_
    refine .modify fun s hc => ⟨t', hkeep.root, hs', ?_⟩
    have hl := hs'.ne_zero (by omega : 0 < 1)
    rw [← hpa]
    exact hc.touch (Core.leaf_cell (by decide)) (hc.leaves _ hl).page (by simp) _

/-- `userinit` makes a complete process. -/
lemma userinit_spec (hs : Slots lk P G) (initcode : List UInt8) :
    Triple (fun _ => True) (Run lk m P G 0) (userinit lk initcode) fun _ => Inv lk := by
  refine ((allocproc_spec hs).weaken fun _ he => absurd he id).bind fun r => .or_pre
    (.assume fun hr => ?_) (.exists_pre fun p => .exists_pre fun t => .exists_pre fun tf =>
      .assume fun hr => .assume fun hp => .assume fun hpool => .assume fun htf =>
        .assume fun hshape => ?_)
  · rw [hr]
    exact .throw trivial
  rw [hr]
  dsimp only
  refine run_proc_bind ?_
  rw [update_self]
  refine (run_focus (some p) (R := fun _ t' h => h = G.hand ∧ t'.root = t.root ∧
    Shape lk tf 1 none t') fun D m hD _ => ?_).bind fun _ => ?_
  · rw [Owners.setSlot_table]
    refine (uvmfirst_spec hD (hs.hand 0) (hs.hand 1) hshape initcode).post fun _ s hr => ?_
    obtain ⟨t', hroot, hs', hc⟩ := hr
    exact ⟨t', _, ⟨rfl, hroot, hs'⟩, hc⟩
  refine .exists_pre fun t' => .exists_pre fun h => .assume fun ht => ?_
  obtain ⟨rfl, hroot, hs'⟩ := ht
  rw [show 1 = pages PGSIZE by decide] at hs'
  rw [Owners.set_setSlot]
  have htouch : ∀ P' off v, Triple NoStop (Run lk m P' (G.setSlot p t' tf) 0)
      (vm (setTrapframe tf off v)) fun _ => Run lk m P' (G.setSlot p t' tf) 0 := by
    intro P' off v
    refine run_touch (p := p) (by simpa using htf) fun G₁ htouch => ?_
    rw [Owners.setSlot_trapframe] at htouch
    exact .modify fun s hg => htouch s _ hg
  refine .weaken (E := NoStop) ?_ fun _ he => absurd he id
  refine (run_update rfl).bind fun _ => (htouch _ _ _).bind fun _ => (htouch _ _ _).bind fun _ =>
    (run_update rfl).post fun _ s h => ?_
  refine ⟨_, _, _, hs.update (.of_shape ?_ ?_ ?_ ?_ ?_ hs'), h⟩
  · simp
  · simp
  · rfl
  · exact htf
  · exact hroot

end Xv6.Vm
