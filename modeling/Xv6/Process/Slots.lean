import Xv6.Process.Peer

/-!
# Free slots of the process table

`allocproc` does not reset `p->killed`, `p->chan` or `p->parent`: it relies on every free slot
being as `freeproc` left it. The code keeps that, with one exception: `kill` compares pids
without a look at `p->state`, so `kill(0)` finds the first free slot.

The machine of `Kernel` leaves the memory of a process out; here `System` adds `p->sz`,
`p->pagetable` and `p->trapframe`, which change in `fork`, `wait` and in system calls that
resize the memory of their caller.
-/

namespace Xv6.Process

open Xv6.Lib

/-! ## The fields of the process machine -/

/-- Free slots are blank. -/
def Tidy (m : Machine) : Prop := ∀ q, (m.proc q).state = .unused → (m.proc q).Blank

/-- A step of `kill(0)` at a free slot. -/
def KillsFree (m : Machine) (a : Act) : Prop :=
  a = .run ∧ ∃ q : Slot, m.pc = .run (.kill 0 q) ∧ (m.proc q).state = .unused

section Code

variable {m m' : Machine}

@[grind →]
lemma Nudged.blank {x x' : Proc} (h : Nudged x x') (hx : x.state = .unused → x.Blank)
    (hx' : x'.state = .unused) : x'.Blank := by
  obtain ⟨st, pa, rfl, rfl | ⟨-, -, rfl⟩, hpa⟩ := h
  · have hb := hx hx'
    exact ⟨hb.pid, hb.killed, hb.chan, (hpa.resolve_right (not_not.2 hb.parent)).trans hb.parent⟩
  · cases hx'

/-- Only `kill` gives a free slot away: it marks a slot with its pid, whatever the state. -/
lemma Tidy.effect (h : Tidy m) (hwf : Wf m) (he : Effect m m')
    (hkill : ∀ q : Slot, m.pc = .run (.kill 0 q) → (m.proc q).state = .unused →
      m'.pc ≠ .run (.sysRet 0)) : Tidy m' := by
  intro q hq
  have hblank := h q
  have := hwf.atRun
  have := hwf.atSwtch
  cases he with
  | kill p r pid hpc hcpu hpid hpc' hcpu' htr hr ho =>
    by_cases hqr : q = r
    · subst hqr
      have hunused : (m.proc q).state = .unused := by grind
      have hzero : pid = 0 := hpid.symm.trans (hblank hunused).pid
      exact absurd hpc' (hkill q (hzero ▸ hpc) hunused)
    · rw [ho q hqr] at hq ⊢
      exact hblank hq
  | forkParent p np pid hpc hcpu =>
    have := (hwf.building hcpu).1 hpc
    grind
  | _ => grind

lemma acquire_proc {l : Lock} : Returns (fun m' => m'.proc = m.proc) (acquire l m) := by
  rw [acquire]
  exact Post.guard fun _ => rfl

/-- A step keeps free slots blank, unless it is one of `kill(0)` at a free slot. -/
lemma Tidy.step (h : Tidy m) (hwf : Wf m) {a : Act} (ha : ¬KillsFree m a)
    (hs : step m a = .ok m') : Tidy m' := by
  refine h.effect hwf (hwf.next ⟨a, hs⟩).2 fun q hpc hq hpc' => ?_
  obtain ⟨p, hcpu, hrun⟩ := hwf.atRun _ hpc
  have hhands := hwf.hands
  rw [Hands, hpc] at hhands
  simp only [Process.step, hpc, hcpu, stepProc] at hs
  cases a with
  | run => exact ha ⟨rfl, q, hpc, hq⟩
  | intr d =>
    dsimp only at hs
    split at hs
    · have hstays := ((kerneltrap_stays hhands.1 hhands.2 hcpu hpc hrun).of_ok hs).1
      simp [hpc'] at hstays
    · cases hs
  | _ => cases hs

end Code

/-! ## The memory of a process -/

/-- `p->sz`, and whether `p->pagetable` and `p->trapframe` are not null. -/
structure Memory where
  sz : BitVec 64
  pagetable : Bool
  trapframe : Bool
deriving DecidableEq, Repr

/-- The memory part of `freeproc`. -/
def Memory.freeproc (x : Memory) : Memory :=
  { x with trapframe := false, pagetable := false, sz := 0 }

/-- What `allocproc` and the rest of `fork` do to the memory `x` of the new process, when the
caller has the size `sz`. -/
def Memory.fork (o : AllocOutcome) (sz : BitVec 64) (x : Memory) : Memory :=
  match o with
  | .noTrapframe => { x with trapframe := false }.freeproc
  | .noPagetable => { x with trapframe := true, pagetable := false }.freeproc
  | .noCopy => { x with trapframe := true, pagetable := true }.freeproc
  | .ok => { x with trapframe := true, pagetable := true, sz := sz }

/-- The process machine, with the memory of the processes. -/
structure System where
  machine : Machine
  mem : Slot → Memory

/-- What happens next: an action of the process machine, or the current process gets another
size, in `sbrk` or `exec`. -/
inductive SystemAct where
  | hart (a : Act)
  | resize (sz : BitVec 64)
deriving DecidableEq, Repr

/-- The memory of slot `q` after the action `a` from `m` to `m'`: `wait` has called `freeproc`
for a ZOMBIE that is not there any more, and `fork` has run if slot `q` is its new process. -/
def stepMemory (m m' : Machine) (a : Act) (mem : Slot → Memory) (q : Slot) : Memory :=
  if (m.proc q).state = .zombie ∧ (m'.proc q).state = .unused then (mem q).freeproc
  else
    match m.pc, m.cpuProc, a with
    | .run (.allocproc i), some p, .alloc o =>
      if i = q.val ∧ (m.proc q).state = .unused then (mem q).fork o (mem p).sz else mem q
    | _, _, _ => mem q

/-- One step of the system. -/
def System.step (s : System) : SystemAct → Except Stop System
  | .hart a => do
    let m ← Process.step s.machine a
    pure ⟨m, stepMemory s.machine m a s.mem⟩
  | .resize sz =>
    match s.machine.pc, s.machine.cpuProc with
    | .run (.busy .sysRet), some p =>
      pure { s with mem := Function.update s.mem p { s.mem p with sz := sz } }
    | _, _ => throw .disabled

/-- The system after `userinit`. -/
def System.boot : System where
  machine := Process.boot
  mem p := if p = 0 then ⟨4096, true, true⟩ else ⟨0, false, false⟩

/-- A free slot as `allocproc` expects it. -/
structure System.Pristine (s : System) (q : Slot) : Prop where
  pid : (s.machine.proc q).pid = 0
  killed : (s.machine.proc q).killed = false
  chan : (s.machine.proc q).chan = .null
  parent : (s.machine.proc q).parent = none
  sz : (s.mem q).sz = 0
  pagetable : (s.mem q).pagetable = false
  trapframe : (s.mem q).trapframe = false

/-- Every free slot is pristine. -/
def System.Clean (s : System) : Prop :=
  ∀ q, (s.machine.proc q).state = .unused → s.Pristine q

/-- The step is one of `kill(0)` at a free slot. -/
def System.KillsFree (s : System) (a : SystemAct) : Prop :=
  ∃ b, a = .hart b ∧ Process.KillsFree s.machine b

/-- A step that is not one of `kill(0)` at a free slot. -/
def System.NextFair (s s' : System) : Prop := ∃ a, ¬s.KillsFree a ∧ s.step a = .ok s'

section Systems

variable {s s' : System} {m m' : Machine} {p q : Slot} {a : SystemAct}

/-- A free slot has no memory. -/
def Memory.Bare (x : Memory) : Prop := x = ⟨0, false, false⟩

lemma System.clean_iff :
    s.Clean ↔ Tidy s.machine ∧ ∀ q, (s.machine.proc q).state = .unused → (s.mem q).Bare := by
  constructor
  · intro h
    refine ⟨fun q hq => ?_, fun q hq => ?_⟩
    · obtain ⟨hpid, hkilled, hchan, hparent, -, -, -⟩ := h q hq
      exact ⟨hpid, hkilled, hchan, hparent⟩
    · obtain ⟨-, -, -, -, hsz, hpagetable, htrapframe⟩ := h q hq
      exact congrArg₂ (fun f b => f b) (congrArg₂ Memory.mk hsz hpagetable) htrapframe
  · rintro ⟨htidy, hbare⟩ q hq
    have hb := htidy q hq
    have hm : s.mem q = ⟨0, false, false⟩ := hbare q hq
    exact ⟨hb.pid, hb.killed, hb.chan, hb.parent, by rw [hm], by rw [hm], by rw [hm]⟩

/-- The slot of a `fork` that succeeds is in use. -/
lemma allocproc_used {i : ℕ} (hi : i < NPROC) (hunused : (m.proc ⟨i, hi⟩).state = .unused) :
    Returns (fun m' => (m'.proc ⟨i, hi⟩).state ≠ .unused) (allocproc p i .ok m) := by
  rw [allocproc, dif_pos hi]
  refine Post.bind (acquire_proc.mono fun m₁ hproc => ?_)
  rw [hproc, if_pos hunused, forkFound, allocpid]
  refine Post.bind (Post.bind_of_forall fun m₂ => ?_)
  refine Post.bind_of_forall fun m₃ => ?_
  refine Post.bind (release_proc.mono fun m₄ hproc₄ => ?_)
  simp [hproc₄]

/-- A free slot has no memory after a step. -/
lemma stepMemory_bare (hwf : Wf m) {mem : Slot → Memory} {a : Act}
    (hbare : ∀ q, (m.proc q).state = .unused → (mem q).Bare) (ha : step m a = .ok m')
    (hq : (m'.proc q).state = .unused) : (stepMemory m m' a mem q).Bare := by
  unfold stepMemory
  split
  case isTrue => rfl
  case isFalse hzombie =>
    have hunused : (m.proc q).state = .unused :=
      (unused_back hwf (hwf.next ⟨a, ha⟩).2 hq).resolve_right fun hz => hzombie ⟨hz, hq⟩
    split
    case h_2 => exact hbare q hunused
    case h_1 i p o hpc hcpu =>
      split
      case isFalse => exact hbare q hunused
      case isTrue hi =>
        cases o with
        | ok =>
          -- `fork` has taken the slot, so it is not free
          obtain ⟨rfl, -⟩ := hi
          have hstep : step m (.alloc .ok) = allocproc p q .ok m := by
            rw [step, hpc]
            dsimp only
            rw [hcpu]
            rfl
          rw [hstep] at ha
          exact absurd hq ((allocproc_used q.isLt hunused).of_ok ha)
        | _ => rfl

lemma step_kill {pid : BitVec 32} {i : ℕ} (hcpu : m.cpuProc = some p)
    (hpc : m.pc = .run (.kill pid i)) : step m .run = kill pid i m := by
  rw [step, hpc]
  dsimp only
  rw [hcpu]
  rfl

/-- What `kill` marks, and when it returns 0. -/
lemma kill_marks {pid : BitVec 32} {i : ℕ} :
    Returns (fun m' =>
      (∀ q, (m.proc q).killed = false → (m'.proc q).killed = true →
        q.val = i ∧ (m.proc q).pid = pid) ∧
      (m'.pc = .run (.sysRet 0) → ∃ q : Slot, q.val = i ∧ (m.proc q).pid = pid))
      (kill pid i m) := by
  rw [kill]
  split
  · rename_i hi
    refine Post.bind (acquire_proc.mono fun m₁ hproc => Post.ite (fun hpid => ?_) fun _ => ?_)
    · refine Post.bind (release_proc.mono fun m₂ hproc₂ => ?_)
      rw [hproc] at hpid
      refine ⟨fun q hq hq' => ?_, fun _ => ⟨⟨i, hi⟩, rfl, hpid⟩⟩
      by_cases hqi : q = ⟨i, hi⟩
      · rw [hqi]
        exact ⟨rfl, hpid⟩
      · simp [hproc₂, hproc, hqi, hq] at hq'
    · refine Post.bind (release_proc.mono fun m₂ hproc₂ => ⟨fun q hq hq' => ?_, fun hret => ?_⟩)
      · simp [hproc₂, hproc, hq] at hq'
      · simp at hret
  · refine ⟨fun q hq hq' => ?_, fun hret => ?_⟩
    · simp [hq] at hq'
    · simp [minusOne] at hret

/-- A slot is taken with the `killed` it had. -/
lemma killed_of_taken (hwf : Wf m) (he : Effect m m') (hq : (m.proc q).state = .unused)
    (hq' : (m'.proc q).state ≠ .unused) : (m'.proc q).killed = (m.proc q).killed := by
  have := hwf.atRun
  cases he <;> grind

/-- What one step that is not one of `kill(0)` at a free slot keeps. -/
lemma System.Clean.step (h : s.Clean) (hwf : Wf s.machine) (ha : ¬s.KillsFree a)
    (hs : s.step a = .ok s') : Wf s'.machine ∧ s'.Clean := by
  obtain ⟨htidy, hbare⟩ := System.clean_iff.1 h
  cases a with
  | hart b =>
    obtain ⟨m', hm', hs⟩ := bind_eq_ok hs
    cases hs
    refine ⟨hwf.step (hwf.next ⟨b, hm'⟩), System.clean_iff.2 ⟨?_, fun q hq => ?_⟩⟩
    · exact htidy.step hwf (fun hk => ha ⟨b, rfl, hk⟩) hm'
    · exact stepMemory_bare hwf hbare hm' hq
  | resize sz =>
    unfold System.step at hs
    dsimp only at hs
    split at hs
    case h_2 => cases hs
    case h_1 p hpc hcpu =>
      cases hs
      refine ⟨hwf, System.clean_iff.2 ⟨htidy, fun q hq => ?_⟩⟩
      -- the process that runs is not free
      have hqp : q ≠ p := by
        rintro rfl
        obtain ⟨r, hr, hrun⟩ := hwf.atRun _ hpc
        rw [hcpu, Option.some_inj] at hr
        rw [hr, hrun] at hq
        cases hq
      dsimp only
      rw [Function.update_of_ne hqp]
      exact hbare q hq

/-- `kill(0)` at a free slot marks it. -/
lemma System.KillsFree.marks (ha : s.KillsFree a) (hwf : Wf s.machine) (h : s.Clean)
    (hs : s.step a = .ok s') : ¬s'.Clean := by
  obtain ⟨b, rfl, rfl, q, hpc, hunused⟩ := ha
  obtain ⟨p, hcpu, -⟩ := hwf.atRun _ hpc
  obtain ⟨m', hm', hs⟩ := bind_eq_ok hs
  cases hs
  rw [step_kill hcpu hpc, kill, dif_pos q.isLt] at hm'
  have hmarked : (m'.proc q).state = .unused ∧ (m'.proc q).killed = true := by
    refine Post.of_ok (E := fun _ => True)
      (Q := fun m' => (m'.proc q).state = .unused ∧ (m'.proc q).killed = true) ?_ hm'
    refine Post.bind (acquire_proc.mono fun m₁ hproc => ?_)
    rw [if_pos (by rw [hproc]; exact (h q hunused).pid)]
    refine Post.bind (release_proc.mono fun m₂ hproc₂ => ?_)
    simp [hproc₂, hproc, hunused]
  intro hclean
  have := (hclean q hmarked.1).killed
  rw [hmarked.2] at this
  cases this

lemma System.boot_clean : System.boot.Clean := by
  intro q hq
  have hboot : ∀ q : Slot, System.boot.machine.proc q =
      (if q = 0 then { Proc.zero with state := .runnable, pid := 1, context := .forkret }
        else Proc.zero) := boot_proc
  by_cases h0 : q = 0
  · rw [hboot, if_pos h0] at hq
    cases hq
  · refine ⟨?_, ?_, ?_, ?_, ?_, ?_, ?_⟩
    · rw [hboot, if_neg h0]; rfl
    · rw [hboot, if_neg h0]; rfl
    · rw [hboot, if_neg h0]; rfl
    · rw [hboot, if_neg h0]; rfl
    · simp [System.boot, h0]
    · simp [System.boot, h0]
    · simp [System.boot, h0]

/-- Every free slot is pristine in every run without a step of `kill(0)` at a free slot, and
such a step leaves a free slot that is not. Without such a step a new process is not killed,
`kill` marks only a process with its pid, and returns 0 only if there is one. -/
theorem free_slots_pristine (s : System)
    (h : Relation.ReflTransGen System.NextFair System.boot s) :
    s.Clean ∧ ∀ a s', s.step a = .ok s' →
      (s'.Clean ↔ ¬s.KillsFree a) ∧
      (¬s.KillsFree a →
        (∀ q, (s.machine.proc q).state = .unused → (s'.machine.proc q).state ≠ .unused →
          (s'.machine.proc q).killed = false) ∧
        ∀ pid i, s.machine.pc = .run (.kill pid i) → a = .hart .run →
          (∀ q, (s.machine.proc q).killed = false → (s'.machine.proc q).killed = true →
            (s.machine.proc q).state ≠ .unused ∧ (s.machine.proc q).pid = pid) ∧
          (s'.machine.pc = .run (.sysRet 0) →
            ∃ q, (s.machine.proc q).state ≠ .unused ∧ (s.machine.proc q).pid = pid)) := by
  have hinv : Wf s.machine ∧ s.Clean := by
    refine preserved (I := fun s => Wf s.machine ∧ s.Clean) ?_ ⟨boot_wf, System.boot_clean⟩ h
    rintro s s' ⟨hwf, hclean⟩ ⟨a, ha, hs⟩
    exact hclean.step hwf ha hs
  obtain ⟨hwf, hclean⟩ := hinv
  refine ⟨hclean, fun a s' hs => ⟨⟨fun hc ha => ha.marks hwf hclean hs hc,
    fun ha => (hclean.step hwf ha hs).2⟩, fun ha => ⟨fun q hq hq' => ?_, ?_⟩⟩⟩
  · cases a with
    | hart b =>
      obtain ⟨m', hm', hs⟩ := bind_eq_ok hs
      cases hs
      rw [killed_of_taken hwf (hwf.next ⟨b, hm'⟩).2 hq hq']
      exact (hclean q hq).killed
    | resize sz =>
      unfold System.step at hs
      dsimp only at hs
      split at hs
      case h_2 => cases hs
      case h_1 =>
        cases hs
        exact absurd hq hq'
  · rintro pid i hpc rfl
    obtain ⟨p, hcpu, -⟩ := hwf.atRun _ hpc
    obtain ⟨m', hm', hs⟩ := bind_eq_ok hs
    cases hs
    rw [step_kill hcpu hpc] at hm'
    -- a slot that `kill` finds is in use: a free one has pid 0
    have hused : ∀ q : Slot, q.val = i → (s.machine.proc q).pid = pid →
        (s.machine.proc q).state ≠ .unused := by
      intro q hqi hpid hunused
      refine ha ⟨.run, rfl, rfl, q, ?_, hunused⟩
      rw [hpc, ← hpid, (hclean q hunused).pid, hqi]
    obtain ⟨hmarks, hret⟩ := kill_marks.of_ok hm'
    refine ⟨fun q hq hq' => ?_, fun hpc' => ?_⟩
    · obtain ⟨hqi, hpid⟩ := hmarks q hq hq'
      exact ⟨hused q hqi hpid, hpid⟩
    · obtain ⟨q, hqi, hpid⟩ := hret hpc'
      exact ⟨q, hused q hqi hpid, hpid⟩

end Systems

/-- Run a list of actions, up to the first one that stops. -/
def System.runActs : System → List SystemAct → System := Lib.runActs fun s a => (s.step a).toOption

/-- No process is in `kill(0)`. -/
def System.sparing (s : System) : Bool :=
  match s.machine.pc with
  | .run (.kill pid _) => pid ≠ 0
  | _ => true

/-- A run in which no process is in `kill(0)`. -/
lemma System.runActs_fair (as : List SystemAct) (s : System)
    (h : checkActs (fun s a => (s.step a).toOption) (fun s _ _ => s.sparing) s as) :
    Relation.ReflTransGen System.NextFair s (s.runActs as) := by
  refine runActs_of_check (fun s a s' hs hok => ⟨a, ?_, eq_ok_of_toOption hs⟩) h
  rintro ⟨b, -, -, q, hpc, -⟩
  simp [System.sparing, hpc] at hok

/-- The first process returns to user mode, forks, and calls `kill(2)`. -/
def forkKillActs : List SystemAct :=
  [.run, .run, .run, .finish 0, .ecall .fork 0 0, .alloc .ok, .alloc .ok, .run, .run, .run, .run,
    .ecall .kill 2 0, .run].map .hart

/-- `kill(2)` finds the child, which is in use. -/
theorem free_slots_pristine_forkKill :
    (System.boot.runActs forkKillActs).Pristine 2 ∧
      ∃ q, ((System.boot.runActs forkKillActs).machine.proc q).state ≠ .unused ∧
        ((System.boot.runActs forkKillActs).machine.proc q).pid = 2 := by
  have hrun : Relation.ReflTransGen System.NextFair System.boot
      (System.boot.runActs forkKillActs) :=
    System.runActs_fair _ _ (by decide +kernel)
  obtain ⟨hclean, hnext⟩ := free_slots_pristine _ hrun
  refine ⟨hclean 2 (by decide +kernel), ?_⟩
  have hpc : (System.boot.runActs forkKillActs).machine.pc = .run (.kill 2 1) := by decide +kernel
  have hfair : ¬(System.boot.runActs forkKillActs).KillsFree (.hart .run) := by
    rintro ⟨-, -, -, q, hpc', -⟩
    rw [hpc] at hpc'
    cases hpc'
  have hret : ((System.boot.runActs forkKillActs).step (.hart .run)).toOption.map
      (fun s => s.machine.pc) = some (.run (.sysRet 0)) := by decide +kernel
  cases hs : (System.boot.runActs forkKillActs).step (.hart .run) with
  | error e =>
    rw [hs] at hret
    cases hret
  | ok s' =>
    rw [hs] at hret
    exact (((hnext _ _ hs).2 hfair).2 2 1 hpc rfl).2 (Option.some.inj hret)

/-- The first process calls `kill(0)`, which returns 0, and then `fork`. -/
def killZeroActs : List SystemAct :=
  [.run, .run, .run, .finish 0, .ecall .kill 0 0, .run, .run].map .hart

/-- The child of the next `fork`. -/
def killZeroForkActs : List SystemAct :=
  killZeroActs ++ [.run, .run, .ecall .fork 0 0, .alloc .ok, .alloc .ok, .run, .run].map .hart

/-- `kill(0)` returns 0 and marks a free slot, and the next child is killed from the start. -/
theorem kill_zero_marks_free :
    let s := System.boot.runActs killZeroActs
    let s' := System.boot.runActs killZeroForkActs
    s.machine.pc = .run (.sysRet 0) ∧ (s.machine.proc 1).state = .unused ∧
      (s.machine.proc 1).killed = true ∧ (∀ q, (s.machine.proc q).state ≠ .unused →
        (s.machine.proc q).pid ≠ 0) ∧
      (s'.machine.proc 1).state = .runnable ∧ (s'.machine.proc 1).pid = 2 ∧
      (s'.machine.proc 1).killed = true := by
  decide +kernel

end Xv6.Process
