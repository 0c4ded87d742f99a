import Xv6.Table.Machine

/-!
# The life of a process

`Stage` is the abstract life of a slot: free, live under a pid, exited with a status. `stage c`
follows the events of slot `c` through these stages and is undefined for a history in which,
say, a process is reaped twice or under a wrong pid. The invariant says that the history of the
machine always has a stage, and that the table shows it.
-/

namespace Xv6.Table

open Xv6.Lib
open Xv6.Process (NPROC Slot ProcState Stop)
open Function (update update_of_ne update_self)

/-- The life of a slot. -/
inductive Stage where
  | free
  | live (pid : BitVec 32)
  | zombie (pid status : BitVec 32)
deriving DecidableEq, Repr

/-- The slot an event is about. -/
def Event.slot : Event → Slot
  | .alloc c _ => c
  | .fail c => c
  | .exit c _ _ => c
  | .reap _ c _ _ => c

/-- The stage after an event. -/
def Stage.next : Stage → Event → Option Stage
  | .free, .alloc _ pid => some (.live pid)
  | .live _, .fail _ => some .free
  | .live pid, .exit _ pid' status => if pid = pid' then some (.zombie pid status) else none
  | .zombie pid status, .reap _ _ pid' status' =>
    if pid = pid' ∧ status = status' then some .free else none
  | _, _ => none

/-- The stage of slot `c` after the events `es`. -/
def stage (c : Slot) (es : List Event) : Option Stage :=
  es.foldl (fun o e => if e.slot = c then o.bind fun t => t.next e else o) (some .free)

/-- The stage that the table shows. -/
def Proc.stage (x : Proc) : Stage :=
  match x.state with
  | .unused => .free
  | .zombie => .zombie x.pid x.xstate
  | _ => .live x.pid

/-- The process can run now or later. -/
def Proc.Alive (x : Proc) : Prop :=
  x.state = .sleeping ∨ x.state = .runnable ∨ x.state = .running

instance (x : Proc) : Decidable x.Alive := inferInstanceAs (Decidable (_ ∨ _))

lemma stage_record (c : Slot) (es : List Event) (e : Event) :
    stage c (es ++ [e]) =
      if e.slot = c then (stage c es).bind fun t => t.next e else stage c es := by
  unfold stage
  rw [List.foldl_append]
  rfl

/-! ## What a place in the code says -/

/-- The new process `fork` is working on. -/
def Pc.child : Pc → Option Slot
  | .setup np => some np
  | .forkParent np _ => some np
  | .forkRunnable np _ => some np
  | _ => none

/-- The process is in `exit`. -/
def Pc.exiting : Pc → Bool
  | .exit _ => true
  | .reparent _ _ => true
  | .wakeInit _ _ _ => true
  | .wakeParent _ _ _ => true
  | .exitLast _ => true
  | _ => false

/-- The process holds `wait_lock`. -/
def Pc.holds : Pc → Bool
  | .reparent _ _ => true
  | .wakeInit _ _ _ => true
  | .wakeParent _ _ _ => true
  | .exitLast _ => true
  | .waitScan _ _ _ => true
  | .waitSleep _ => true
  | _ => false

/-- The slots below this one are not children of the process any more. -/
def Pc.passed : Pc → ℕ
  | .reparent _ j => j
  | .wakeInit _ j _ => j + 1
  | .wakeParent _ _ _ => NPROC
  | .exitLast _ => NPROC
  | _ => 0

/-- A place that says nothing of the kind. -/
structure Pc.Plain (pc : Pc) : Prop where
  child : pc.child = none
  exiting : pc.exiting = false
  holds : pc.holds = false
  passed : pc.passed = 0

/-- A place where a process that is not alive may be. -/
def Pc.Idle (pc : Pc) : Prop := pc = .user ∨ pc = .dying ∨ pc = .dead

/-- The invariant. -/
structure Inv (s : State) : Prop where
  life : ∀ c, stage c s.hist = some (s.proc c).stage
  parents : ∀ q r, (s.proc q).parent = some r → (s.proc r).Alive
  idle : ∀ p, ¬(s.proc p).Alive → (s.pc p).Idle
  fork : ∀ p np, (s.pc p).child = some np → (s.proc np).state = .used
  apart : ∀ p q np, (s.pc p).child = some np → (s.pc q).child = some np → p = q
  init : (s.proc initproc).Alive
  exiting : ∀ p, (s.pc p).exiting → p ≠ initproc
  holds : ∀ p, (s.pc p).holds → s.waitLock = some p
  passed : ∀ p q, q.val < (s.pc p).passed → (s.proc q).parent ≠ some p

variable {s s' : State} {p q c np : Slot} {pc : Pc} {pid status : BitVec 32} {j : ℕ}

/-! ## One thread moves, or one slot changes -/

/-- The thread of `p` moves, and no record changes. -/
lemma Inv.goto (h : Inv s) (hproc : s'.proc = s.proc) (hhist : s'.hist = s.hist)
    (hpc : s'.pc = update s.pc p pc)
    (hlock : ∀ q, (update s.pc p pc q).holds → s'.waitLock = some q)
    (hidle : (s.proc p).Alive ∨ pc.Idle)
    (hchild : ∀ np, pc.child = some np →
      (s.proc np).state = .used ∧ ∀ q, q ≠ p → (s.pc q).child ≠ some np)
    (hexiting : pc.exiting → p ≠ initproc)
    (hpassed : ∀ q, q.val < pc.passed → (s.proc q).parent ≠ some p) : Inv s' := by
  have hself : s'.pc p = pc := by rw [hpc, update_self]
  rw [← hpc] at hlock
  rw [← hself] at hidle hchild hexiting hpassed
  replace hpc : ∀ q, q ≠ p → s'.pc q = s.pc q := fun q hq => by rw [hpc, update_of_ne hq]
  refine ⟨?_, ?_, fun q hq => ?_, fun q np hq => ?_, fun q r np hq hr => ?_, ?_, fun q hq => ?_,
    hlock, fun q r hr => ?_⟩
  · rw [hproc, hhist]
    exact h.life
  · rw [hproc]
    exact h.parents
  · rw [hproc] at hq
    by_cases hqp : q = p
    · rw [hqp] at hq ⊢
      exact hidle.resolve_left hq
    · rw [hpc q hqp]
      exact h.idle q hq
  · rw [hproc]
    by_cases hqp : q = p
    · exact (hchild np (hqp ▸ hq)).1
    · exact h.fork q np (hpc q hqp ▸ hq)
  · by_cases hqp : q = p <;> by_cases hrp : r = p
    · rw [hqp, hrp]
    · exact absurd (hpc r hrp ▸ hr) ((hchild np (hqp ▸ hq)).2 r hrp)
    · exact absurd (hpc q hqp ▸ hq) ((hchild np (hrp ▸ hr)).2 q hqp)
    · exact h.apart q r np (hpc q hqp ▸ hq) (hpc r hrp ▸ hr)
  · rw [hproc]
    exact h.init
  · by_cases hqp : q = p
    · rw [hqp] at hq ⊢
      exact hexiting hq
    · exact h.exiting q (hpc q hqp ▸ hq)
  · rw [hproc]
    by_cases hqp : q = p
    · rw [hqp] at hr ⊢
      exact hpassed r hr
    · exact h.passed q r (hpc q hqp ▸ hr)

/-- The record of slot `c` changes. -/
lemma Inv.table (h : Inv s) (c : Slot) (hpc : s'.pc = s.pc) (hlock : s'.waitLock = s.waitLock)
    (hproc : ∀ q, q ≠ c → s'.proc q = s.proc q)
    (hlife : ∀ d, stage d s'.hist = some (s'.proc d).stage)
    (hparent : ∀ r, (s'.proc c).parent = some r → (s'.proc r).Alive)
    (hchildren : (s'.proc c).Alive ∨ ∀ q, q ≠ c → (s.proc q).parent ≠ some c)
    (hidle : (s'.proc c).Alive ∨ (s.pc c).Idle)
    (hfork : ∀ p, (s.pc p).child = some c → (s'.proc c).state = .used)
    (hinit : c = initproc → (s'.proc c).Alive)
    (hpassed : ∀ p, c.val < (s.pc p).passed → (s'.proc c).parent ≠ some p) : Inv s' := by
  refine ⟨hlife, fun q r hq => ?_, fun q hq => ?_, fun q np hq => ?_, ?_, ?_, ?_, ?_,
    fun q r hr => ?_⟩
  · by_cases hqc : q = c
    · exact hparent r (hqc ▸ hq)
    · rw [hproc q hqc] at hq
      by_cases hrc : r = c
      · rw [hrc] at hq ⊢
        exact hchildren.resolve_right fun hnone => hnone q hqc hq
      · rw [hproc r hrc]
        exact h.parents q r hq
  · rw [hpc]
    by_cases hqc : q = c
    · rw [hqc] at hq ⊢
      exact hidle.resolve_left hq
    · rw [hproc q hqc] at hq
      exact h.idle q hq
  · rw [hpc] at hq
    by_cases hc : np = c
    · rw [hc] at hq ⊢
      exact hfork q hq
    · rw [hproc np hc]
      exact h.fork q np hq
  · rw [hpc]
    exact h.apart
  · by_cases hc : initproc = c
    · rw [hc]
      exact hinit hc.symm
    · rw [hproc _ hc]
      exact h.init
  · rw [hpc]
    exact h.exiting
  · rw [hpc, hlock]
    exact h.holds
  · rw [hpc] at hr
    by_cases hrc : r = c
    · rw [hrc] at hr ⊢
      exact hpassed q hr
    · rw [hproc r hrc]
      exact h.passed q r hr

/-- Nothing changes about a process that its life depends on. -/
structure Proc.Same (x y : Proc) : Prop where
  stage : y.stage = x.stage
  used : y.state = .used ↔ x.state = .used
  parent : y.parent = x.parent

lemma Proc.alive_iff (x : Proc) : x.Alive ↔ (∃ pid, x.stage = .live pid) ∧ x.state ≠ .used := by
  unfold Proc.Alive Proc.stage
  cases x.state <;> simp

lemma Proc.Same.alive {x y : Proc} (h : x.Same y) : y.Alive ↔ x.Alive := by
  rw [Proc.alive_iff, Proc.alive_iff, h.stage, ne_eq, h.used]

/-- The record of slot `c` changes in a way that does not matter for its life. -/
lemma Inv.same (h : Inv s) (c : Slot) (hpc : s'.pc = s.pc) (hlock : s'.waitLock = s.waitLock)
    (hhist : s'.hist = s.hist) (hproc : ∀ q, q ≠ c → s'.proc q = s.proc q)
    (hc : (s.proc c).Same (s'.proc c)) : Inv s' := by
  have hsame : ∀ q, (s.proc q).Same (s'.proc q) := by
    intro q
    by_cases hqc : q = c
    · exact hqc ▸ hc
    · rw [hproc q hqc]
      exact ⟨rfl, Iff.rfl, rfl⟩
  refine h.table c hpc hlock hproc (fun d => ?_) (fun r hr => ?_) ?_ ?_ (fun p hp => ?_)
    (fun hinit => ?_) fun p hp => ?_
  · rw [hhist, (hsame d).stage]
    exact h.life d
  · rw [hc.parent] at hr
    exact (hsame r).alive.2 (h.parents c r hr)
  · by_cases ha : (s.proc c).Alive
    · exact .inl (hc.alive.2 ha)
    · exact .inr fun q _ hq => ha (h.parents q c hq)
  · by_cases ha : (s.proc c).Alive
    · exact .inl (hc.alive.2 ha)
    · exact .inr (h.idle c ha)
  · exact hc.used.2 (h.fork p c hp)
  · exact hc.alive.2 (hinit ▸ h.init)
  · rw [hc.parent]
    exact h.passed p c hp

/-! ## `wait_lock` -/

/-- A process that does not move keeps its right to `wait_lock`. -/
lemma Inv.holds_same (h : Inv s) (hlock : s'.waitLock = s.waitLock)
    (hp : pc.holds → s.waitLock = some p) :
    ∀ q, (update s.pc p pc q).holds → s'.waitLock = some q := by
  intro q hq
  rw [hlock]
  by_cases hqp : q = p
  · rw [hqp, update_self] at hq
    rw [hqp, hp hq]
  · rw [update_of_ne hqp] at hq
    exact h.holds q hq

/-- Nobody holds `wait_lock` before `p` acquires it. -/
lemma Inv.holds_acquire (h : Inv s) (hfree : s.waitLock = none) (hlock : s'.waitLock = some p) :
    ∀ q, (update s.pc p pc q).holds → s'.waitLock = some q := by
  intro q hq
  by_cases hqp : q = p
  · rw [hqp, hlock]
  · rw [update_of_ne hqp] at hq
    have := h.holds q hq
    rw [hfree] at this
    cases this

/-- Nobody holds `wait_lock` after `p` releases it. -/
lemma Inv.holds_release (h : Inv s) (hp : (s.pc p).holds) (hp' : pc.holds = false) :
    ∀ q, (update s.pc p pc q).holds → s'.waitLock = some q := by
  intro q hq
  by_cases hqp : q = p
  · rw [hqp, update_self, hp'] at hq
    cases hq
  · rw [update_of_ne hqp] at hq
    exact absurd (Option.some.inj ((h.holds q hq).symm.trans (h.holds p hp))) hqp

/-! ## Moves -/

/-- The thread of `p` goes on at `pc`, and `wait_lock` stays as it is. -/
lemma Inv.move (h : Inv s) (halive : (s.proc p).Alive) (hproc : s'.proc = s.proc)
    (hhist : s'.hist = s.hist) (hlock : s'.waitLock = s.waitLock) (hpc : s'.pc = update s.pc p pc)
    (hholds : pc.holds → (s.pc p).holds) (hchild : pc.child = none ∨ pc.child = (s.pc p).child)
    (hexiting : pc.exiting → p ≠ initproc)
    (hpassed : ∀ q, q.val < pc.passed → (s.proc q).parent ≠ some p) : Inv s' := by
  refine h.goto hproc hhist hpc (h.holds_same hlock fun hp => h.holds p (hholds hp)) (.inl halive)
    (fun np hnp => ?_) hexiting hpassed
  have hold : (s.pc p).child = some np := by
    cases hchild with
    | inl hnone => rw [hnone] at hnp; cases hnp
    | inr hsame => rw [← hsame, hnp]
  exact ⟨h.fork p np hold, fun q hq hqnp => hq (h.apart q p np hqnp hold)⟩

/-- The thread of `p` goes on at a place that says nothing. -/
lemma Inv.movePlain (h : Inv s) (halive : (s.proc p).Alive) (hplain : pc.Plain)
    (hproc : s'.proc = s.proc) (hhist : s'.hist = s.hist) (hlock : s'.waitLock = s.waitLock)
    (hpc : s'.pc = update s.pc p pc) : Inv s' := by
  refine h.move halive hproc hhist hlock hpc ?_ (.inl hplain.child) ?_ ?_
  · simp [hplain.holds]
  · simp [hplain.exiting]
  · simp [hplain.passed]

/-- The thread of `p` takes `wait_lock`. -/
lemma Inv.acquire (h : Inv s) (halive : (s.proc p).Alive) (hproc : s'.proc = s.proc)
    (hhist : s'.hist = s.hist) (hfree : s.waitLock = none) (hlock : s'.waitLock = some p)
    (hpc : s'.pc = update s.pc p pc) (hchild : pc.child = none)
    (hexiting : pc.exiting → p ≠ initproc) (hpassed : pc.passed = 0) : Inv s' :=
  h.goto hproc hhist hpc (h.holds_acquire hfree hlock) (.inl halive) (by simp [hchild]) hexiting
    (by simp [hpassed])

/-- The thread of `p` gives `wait_lock` back. -/
lemma Inv.release (h : Inv s) (halive : (s.proc p).Alive ∨ pc.Idle) (hplain : pc.Plain)
    (hproc : s'.proc = s.proc) (hhist : s'.hist = s.hist) (hholds : (s.pc p).holds)
    (hpc : s'.pc = update s.pc p pc) : Inv s' :=
  h.goto hproc hhist hpc (h.holds_release hholds hplain.holds) halive (by simp [hplain.child])
    (by simp [hplain.exiting]) (by simp [hplain.passed])

/-- The history grows by an event of slot `c`. -/
lemma Inv.life_record (h : Inv s) {e : Event} (hhist : s'.hist = s.hist ++ [e]) (hc : e.slot = c)
    (hproc : ∀ q, q ≠ c → s'.proc q = s.proc q)
    (hnext : (s.proc c).stage.next e = some (s'.proc c).stage) (d : Slot) :
    stage d s'.hist = some (s'.proc d).stage := by
  rw [hhist, stage_record, hc, h.life d]
  by_cases hd : c = d
  · rw [if_pos hd, Option.bind_some, ← hd]
    exact hnext
  · rw [if_neg hd, hproc d (Ne.symm hd)]

/-! ## `fork` -/

lemma alive_of_running (h : (s.proc p).state = .running) : (s.proc p).Alive := .inr (.inr h)

lemma setProc_self (s : State) (p : Slot) (f : Proc → Proc) :
    (s.setProc p f).proc p = f (s.proc p) := update_self ..

lemma setProc_of_ne (s : State) (f : Proc → Proc) (hq : q ≠ p) :
    (s.setProc p f).proc q = s.proc q := update_of_ne hq ..

/-- A free slot is allocated. -/
lemma Inv.alloc (h : Inv s) (hunused : (s.proc c).state = .unused) (hpc : s'.pc = s.pc)
    (hlock : s'.waitLock = s.waitLock) (hproc : ∀ q, q ≠ c → s'.proc q = s.proc q)
    (hc : s'.proc c = { s.proc c with pid := pid, state := .used })
    (hhist : s'.hist = s.hist ++ [.alloc c pid]) : Inv s' := by
  have hdead : ¬(s.proc c).Alive := by simp [Proc.Alive, hunused]
  refine h.table c hpc hlock hproc (h.life_record (c := c) hhist rfl hproc ?_) (fun r hr => ?_)
    (.inr fun q _ hq => hdead (h.parents q c hq)) (.inr (h.idle c hdead)) (fun _ _ => by rw [hc])
    (fun hinit => absurd (hinit ▸ h.init) hdead) fun p hp => ?_
  · rw [hc]
    simp [Proc.stage, Stage.next, hunused]
  · rw [hc] at hr
    have halive := h.parents c r hr
    rw [hproc r fun hrc => hdead (hrc ▸ halive)]
    exact halive
  · rw [hc]
    exact h.passed p c hp

lemma Inv.allocproc (h : Inv s) (hrun : (s.proc p).state = .running) (hs : allocproc p j s = .ok s')
    : Inv s' := by
  have halive := alive_of_running hrun
  unfold Table.allocproc at hs
  split at hs
  case isFalse =>
    cases hs
    exact h.movePlain halive ⟨rfl, rfl, rfl, rfl⟩ rfl rfl rfl rfl
  case isTrue hj =>
  dsimp only at hs
  split at hs
  case isTrue => cases hs
  case isFalse =>
  split at hs
  case isFalse =>
    cases hs
    exact h.movePlain halive ⟨rfl, rfl, rfl, rfl⟩ rfl rfl rfl rfl
  case isTrue hunused =>
    have hs := Except.ok.inj hs
    have hproc : s'.proc = update s.proc ⟨j, hj⟩
        { s.proc ⟨j, hj⟩ with pid := s.nextpid, state := .used } := by rw [← hs]; rfl
    have hpc : s'.pc = update s.pc p (.setup ⟨j, hj⟩) := by rw [← hs]; rfl
    have hhist : s'.hist = s.hist ++ [.alloc ⟨j, hj⟩ s.nextpid] := by rw [← hs]; rfl
    have hlock : s'.waitLock = s.waitLock := by rw [← hs]; rfl
    have hself : s'.proc ⟨j, hj⟩ = { s.proc ⟨j, hj⟩ with pid := s.nextpid, state := .used } := by
      rw [hproc, update_self]
    -- nobody works on a slot that is not USED
    have hnew : ∀ q, (s.pc q).child ≠ some ⟨j, hj⟩ := by
      intro q hq
      have := h.fork q _ hq
      rw [hunused] at this
      cases this
    have hne : p ≠ ⟨j, hj⟩ := by
      rintro rfl
      rw [hrun] at hunused
      cases hunused
    have h₁ : Inv { s with proc := s'.proc, hist := s'.hist } :=
      h.alloc hunused rfl rfl (fun q hq => by rw [hproc]; exact update_of_ne hq ..)
        hself hhist
    refine h₁.goto rfl rfl hpc (h₁.holds_same hlock (by simp [Pc.holds])) (.inl ?_)
      (fun np hnp => ?_) (by simp [Pc.exiting]) (by simp [Pc.passed])
    · show (s'.proc p).Alive
      rw [hproc, update_of_ne hne]
      exact halive
    · obtain rfl : ⟨j, hj⟩ = np := Option.some.inj hnp
      exact ⟨by rw [hself], fun q _ => hnew q⟩

/-- A slot that is not in use any more is freed. -/
lemma Inv.free (h : Inv s) (hdead : ¬(s.proc c).Alive) (hchild : ∀ q, (s.pc q).child ≠ some c)
    (hpc : s'.pc = s.pc) (hlock : s'.waitLock = s.waitLock)
    (hproc : s'.proc = update s.proc c Proc.free) {e : Event}
    (hhist : s'.hist = s.hist ++ [e]) (he : e.slot = c)
    (hnext : (s.proc c).stage.next e = some .free) : Inv s' := by
  have hc : s'.proc c = Proc.free := by rw [hproc, update_self]
  have hothers : ∀ q, q ≠ c → s'.proc q = s.proc q := fun q hq => by
    rw [hproc, update_of_ne hq]
  refine h.table c hpc hlock hothers (h.life_record hhist he hothers ?_) ?_
    (.inr fun q _ hq => hdead (h.parents q c hq)) (.inr (h.idle c hdead))
    (fun q hq => absurd hq (hchild q)) (fun hinit => absurd (hinit ▸ h.init) hdead) ?_
  · rw [hc, hnext]
    rfl
  · rw [hc]
    simp [Proc.free]
  · rw [hc]
    simp [Proc.free]

/-- A slot in use by `fork` is not the process itself. -/
lemma Inv.child_ne (h : Inv s) (halive : (s.proc p).Alive) (hchild : (s.pc q).child = some c) :
    c ≠ p := by
  rintro rfl
  have hused := h.fork q c hchild
  simp [Proc.Alive, hused] at halive

lemma Inv.setup (h : Inv s) (hrun : (s.proc p).state = .running) (hp : s.pc p = .setup c)
    (ok : Bool) : Inv (setup ok p c s) := by
  have halive := alive_of_running hrun
  have hchild : (s.pc p).child = some c := by rw [hp]; rfl
  have hused := h.fork p c hchild
  have hdead : ¬(s.proc c).Alive := by simp [Proc.Alive, hused]
  unfold Table.setup
  split
  case isTrue =>
    have hcp := h.child_ne halive hchild
    have h₁ : Inv { s with pc := update s.pc c .user } :=
      h.goto rfl rfl rfl (h.holds_same rfl (by simp [Pc.holds])) (.inr (.inl rfl))
        (by simp [Pc.child]) (by simp [Pc.exiting]) (by simp [Pc.passed])
    refine h₁.move halive rfl rfl rfl rfl (by simp [Pc.holds]) (.inr ?_) (by simp [Pc.exiting])
      (by simp [Pc.passed])
    dsimp only
    rw [update_of_ne (Ne.symm hcp), hchild]
    rfl
  case isFalse =>
    have h₁ : Inv { s with pc := update s.pc p .user } :=
      h.movePlain halive ⟨rfl, rfl, rfl, rfl⟩ rfl rfl rfl rfl
    refine h₁.free hdead (fun q hq => ?_) rfl rfl rfl rfl rfl ?_
    · by_cases hqp : q = p
      · rw [hqp] at hq
        simp [Pc.child] at hq
      · exact hqp (h.apart q p c (by simpa [update_of_ne hqp] using hq) hchild)
    · simp [Proc.stage, hused, Stage.next]

lemma Inv.forkParent (h : Inv s) (hrun : (s.proc p).state = .running)
    (hp : s.pc p = .forkParent c pid) (hs : forkParent p c pid s = .ok s') : Inv s' := by
  have halive := alive_of_running hrun
  have hchild : (s.pc p).child = some c := by rw [hp]; rfl
  have hused := h.fork p c hchild
  have hcp := h.child_ne halive hchild
  unfold Table.forkParent at hs
  split at hs
  case isFalse => cases hs
  case isTrue =>
    cases hs
    have hdead : ¬(s.proc c).Alive := by simp [Proc.Alive, hused]
    have h₁ : Inv (s.setProc c fun x => { x with parent := some p }) := by
      refine h.table c rfl rfl (fun q hq => setProc_of_ne _ _ hq) (fun d => ?_) (fun r hr => ?_)
        (.inr fun q _ hq => hdead (h.parents q c hq)) (.inr (h.idle c hdead)) ?_
        (fun hinit => absurd (hinit ▸ h.init) hdead) fun q hq => ?_
      · by_cases hd : d = c
        · rw [hd, setProc_self]
          exact h.life c
        · rw [setProc_of_ne _ _ hd]
          exact h.life d
      · rw [setProc_self] at hr
        obtain rfl : p = r := Option.some.inj hr
        rw [setProc_of_ne _ _ (Ne.symm hcp)]
        exact halive
      · intro q _
        rw [setProc_self]
        exact hused
      · rw [setProc_self]
        intro hqp
        obtain rfl : p = q := Option.some.inj hqp
        rw [hp] at hq
        simp [Pc.passed] at hq
    refine h₁.move ?_ rfl rfl rfl rfl (by simp [Pc.holds]) (.inr ?_) (by simp [Pc.exiting])
      (by simp [Pc.passed])
    · rw [setProc_of_ne _ _ (Ne.symm hcp)]
      exact halive
    · exact hchild.symm

lemma Inv.forkRunnable (h : Inv s) (hrun : (s.proc p).state = .running)
    (hp : s.pc p = .forkRunnable c pid) (hs : forkRunnable p c pid s = .ok s') : Inv s' := by
  have halive := alive_of_running hrun
  have hchild : (s.pc p).child = some c := by rw [hp]; rfl
  have hused := h.fork p c hchild
  unfold Table.forkRunnable at hs
  split at hs
  case isTrue => cases hs
  case isFalse =>
    have hs := Except.ok.inj hs
    have hproc : s'.proc = update s.proc c { s.proc c with state := .runnable } := by
      rw [← hs]; rfl
    have hc : s'.proc c = { s.proc c with state := .runnable } := by
      rw [hproc, update_self]
    have hothers : ∀ q, q ≠ c → s'.proc q = s.proc q := fun q hq => by
      rw [hproc, update_of_ne hq]
    have hpc : s'.pc = update s.pc p .user := by rw [← hs]; rfl
    have hhist : s'.hist = s.hist := by rw [← hs]; rfl
    have hlock : s'.waitLock = s.waitLock := by rw [← hs]; rfl
    have hnow : (s'.proc c).Alive := by rw [hc]; exact .inr (.inl rfl)
    have h₁ : Inv { s with pc := s'.pc } :=
      h.movePlain halive ⟨rfl, rfl, rfl, rfl⟩ rfl rfl rfl hpc
    refine h₁.table c rfl hlock hothers (fun d => ?_) (fun r hr => ?_) (.inl hnow) (.inl hnow)
      (fun q hq => ?_) (fun _ => hnow) fun q hq => ?_
    · rw [hhist]
      by_cases hd : d = c
      · rw [hd, hc, h.life c]
        simp [Proc.stage, hused]
      · rw [hothers d hd]
        exact h.life d
    · rw [hc] at hr
      have hr' := h.parents c r hr
      by_cases hrc : r = c
      · rw [hrc]
        exact hnow
      · rwa [hothers r hrc]
    · -- `p` was the only one to work on the new process
      exfalso
      change (s'.pc q).child = some c at hq
      by_cases hqp : q = p
      · rw [hqp, hpc, update_self] at hq
        cases hq
      · rw [hpc, update_of_ne hqp] at hq
        exact hqp (h.apart q p c hq hchild)
    · rw [hc]
      exact h₁.passed q c hq

/-! ## `exit` -/

/-- A wakeup keeps processes alive and moves no thread. -/
lemma Inv.wakeOne (h : Inv s) {ch : Chan} (hs : wakeOne ch p q s = .ok s') :
    Inv s' ∧ s'.pc = s.pc ∧ ((s.proc p).Alive → (s'.proc p).Alive) ∧
      ∀ r, (s'.proc r).parent = (s.proc r).parent := by
  unfold Table.wakeOne at hs
  split at hs
  case isTrue =>
    cases hs
    exact ⟨h, rfl, id, fun _ => rfl⟩
  case isFalse =>
  split at hs
  case isTrue => cases hs
  case isFalse =>
  split at hs
  case isFalse =>
    cases hs
    exact ⟨h, rfl, id, fun _ => rfl⟩
  case isTrue hsleep =>
    cases hs
    have hsame : (s.proc q).Same ((s.setProc q fun x => { x with state := .runnable }).proc q) := by
      rw [setProc_self]
      exact ⟨by simp [Proc.stage, hsleep.1], by simp [hsleep.1], rfl⟩
    have hall : ∀ r, (s.proc r).Same ((s.setProc q fun x =>
      { x with state := .runnable }).proc r) := by
      intro r
      by_cases hr : r = q
      · exact hr ▸ hsame
      · rw [setProc_of_ne _ _ hr]
        exact ⟨rfl, Iff.rfl, rfl⟩
    exact ⟨h.same q rfl rfl rfl (fun r hr => setProc_of_ne _ _ hr) hsame, rfl,
      (hall p).alive.2, fun r => (hall r).parent⟩

/-- A round of `wakeup`, or its end. -/
lemma Inv.wakeup (h : Inv s) (halive : (s.proc p).Alive) {ch : Chan} {k : ℕ} {next : ℕ → Pc}
    {after : Pc} (hs : wakeup ch p k next after s = .ok s')
    (hok : ∀ pc, (pc = next (k + 1) ∨ pc = after) → (pc.holds → (s.pc p).holds) ∧ pc.child = none ∧
      (pc.exiting → p ≠ initproc) ∧ ∀ q, q.val < pc.passed → (s.proc q).parent ≠ some p) :
    Inv s' := by
  unfold Table.wakeup at hs
  split at hs
  case isTrue =>
    obtain ⟨s₁, hs₁, hs⟩ := bind_eq_ok hs
    cases hs
    obtain ⟨h₁, hpc, halive₁, hparent⟩ := h.wakeOne hs₁
    obtain ⟨hholds, hchild, hexiting, hpassed⟩ := hok _ (.inl rfl)
    refine h₁.move (halive₁ halive) rfl rfl rfl rfl ?_ (.inl hchild) hexiting fun q hq => ?_
    · rw [hpc]
      exact hholds
    · rw [hparent]
      exact hpassed q hq
  case isFalse =>
    cases hs
    obtain ⟨hholds, hchild, hexiting, hpassed⟩ := hok _ (.inr rfl)
    exact h.move halive rfl rfl rfl rfl hholds (.inl hchild) hexiting hpassed

/-- Only a process in `exit` has passed slots. -/
lemma Pc.exiting_of_passed {k : ℕ} (h : k < pc.passed) : pc.exiting = true := by
  cases pc <;> first | rfl | simp [Pc.passed] at h

/-- One more slot is passed: it is no child of the exiting process any more. -/
lemma Inv.reparent (h : Inv s) (hrun : (s.proc p).state = .running)
    (hp : s.pc p = .reparent status j) : Inv (reparent p status j s) := by
  have halive := alive_of_running hrun
  have hholds : (s.pc p).holds := by rw [hp]; rfl
  have hinit : p ≠ initproc := h.exiting p (by rw [hp]; rfl)
  have hpassed : ∀ q : Slot, q.val < j → (s.proc q).parent ≠ some p := by
    intro q hq
    exact h.passed p q (by rw [hp]; exact hq)
  unfold Table.reparent
  split
  case isFalse hj =>
    refine h.move halive rfl rfl rfl rfl (fun _ => hholds) (.inl rfl) (fun _ => hinit) fun q _ => ?_
    exact hpassed q (by omega)
  case isTrue hj =>
  split
  case isFalse hnot =>
    refine h.move halive rfl rfl rfl rfl (fun _ => hholds) (.inl rfl) (fun _ => hinit)
      fun q hq => ?_
    by_cases hqj : q = ⟨j, hj⟩
    · rw [hqj]
      exact hnot
    · have hne : q.val ≠ j := fun h => hqj (Fin.ext h)
      simp only [Pc.passed] at hq
      exact hpassed q (by omega)
  case isTrue =>
    -- the child is given to the first process, which never exits
    have hfield : ∀ q, ((s.setProc ⟨j, hj⟩ fun x => { x with parent := some initproc }).proc q) =
        { s.proc q with parent := if q = ⟨j, hj⟩ then some initproc else (s.proc q).parent } := by
      intro q
      by_cases hq : q = ⟨j, hj⟩
      · rw [hq, setProc_self, if_pos rfl]
      · rw [setProc_of_ne _ _ hq, if_neg hq]
    have hlive : ∀ q,
        ((s.setProc ⟨j, hj⟩ fun x => { x with parent := some initproc }).proc q).Alive ↔
        (s.proc q).Alive := by
      intro q
      rw [hfield]
      rfl
    have h₁ : Inv (s.setProc ⟨j, hj⟩ fun x => { x with parent := some initproc }) := by
      refine h.table ⟨j, hj⟩ rfl rfl (fun q hq => setProc_of_ne _ _ hq) (fun d => ?_)
        (fun r hr => ?_) ?_ ?_ (fun q hq => ?_) (fun hc => ?_) fun q hq => ?_
      · rw [hfield]
        exact h.life d
      · rw [setProc_self] at hr
        obtain rfl : initproc = r := Option.some.inj hr
        exact (hlive _).2 h.init
      · rw [hlive]
        by_cases ha : (s.proc ⟨j, hj⟩).Alive
        · exact .inl ha
        · exact .inr fun q _ hq => ha (h.parents q _ hq)
      · rw [hlive]
        by_cases ha : (s.proc ⟨j, hj⟩).Alive
        · exact .inl ha
        · exact .inr (h.idle _ ha)
      · rw [hfield]
        exact h.fork q _ hq
      · rw [hlive, hc]
        exact h.init
      · rw [setProc_self]
        intro hqi
        exact h.exiting q (Pc.exiting_of_passed hq) (Option.some.inj hqi).symm
    refine h₁.move ((hlive p).2 halive) rfl rfl rfl rfl (fun _ => hholds) (.inl rfl)
      (fun _ => hinit) fun q hq => ?_
    rw [hfield]
    dsimp only
    split
    · exact fun h => hinit (Option.some.inj h).symm
    · rename_i hqj
      have hne : q.val ≠ j := fun h => hqj (Fin.ext h)
      simp only [Pc.passed] at hq
      exact hpassed q (by omega)

/-- The exiting process has no children left, so it may become a `ZOMBIE`. -/
lemma Inv.exitLast (h : Inv s) (hrun : (s.proc p).state = .running) (hp : s.pc p = .exitLast status)
    (hs : exitLast p status s = .ok s') : Inv s' := by
  have halive := alive_of_running hrun
  have hholds : (s.pc p).holds := by rw [hp]; rfl
  have hinit : p ≠ initproc := h.exiting p (by rw [hp]; rfl)
  -- all children have been given to init
  have hnone : ∀ q, (s.proc q).parent ≠ some p := by
    intro q
    refine h.passed p q ?_
    rw [hp]
    exact q.isLt
  unfold Table.exitLast at hs
  split at hs
  case isTrue => cases hs
  case isFalse =>
    have hs := Except.ok.inj hs
    have hproc : s'.proc = update s.proc p
        { s.proc p with xstate := status, state := .zombie } := by rw [← hs]; rfl
    have hc : s'.proc p = { s.proc p with xstate := status, state := .zombie } := by
      rw [hproc, update_self]
    have hothers : ∀ q, q ≠ p → s'.proc q = s.proc q := fun q hq => by
      rw [hproc, update_of_ne hq]
    have hpc : s'.pc = update s.pc p .dying := by rw [← hs]; rfl
    have hhist : s'.hist = s.hist ++ [.exit p (s.proc p).pid status] := by
      rw [← hs]
      simp [State.record, State.goto, State.setLocked, State.setProc]
    have h₁ : Inv { s with pc := s'.pc, waitLock := s'.waitLock } :=
      h.release (.inl halive) ⟨rfl, rfl, rfl, rfl⟩ rfl rfl hholds hpc
    refine h₁.table p rfl rfl hothers (h₁.life_record hhist rfl hothers ?_) (fun r hr => ?_)
      (.inr fun q _ => hnone q) (.inr ?_) (fun q hq => ?_) (fun hi => absurd hi hinit)
      fun q hq => ?_
    · show (s.proc p).stage.next _ = some (s'.proc p).stage
      rw [hc]
      simp [Proc.stage, hrun, Stage.next]
    · rw [hc] at hr
      have hrp : r ≠ p := by
        rintro rfl
        exact hnone r hr
      rw [hothers r hrp]
      exact h.parents p r hr
    · show (s'.pc p).Idle
      rw [hpc, update_self]
      exact .inr (.inl rfl)
    · have hused : (s.proc p).state = .used := h₁.fork q p hq
      rw [hrun] at hused
      cases hused
    · rw [hc]
      exact h₁.passed q p hq

/-! ## `wait`, `kill` and scheduling -/

/-- A `ZOMBIE` has no children, so its slot may be freed. -/
lemma Inv.reap (h : Inv s) (hrun : (s.proc p).state = .running) (hholds : (s.pc p).holds)
    (hzombie : (s.proc c).state = .zombie) (ok : Bool) (addr : BitVec 64) :
    Inv (reap ok p c addr s) := by
  have halive := alive_of_running hrun
  have hplain : Pc.user.Plain := ⟨rfl, rfl, rfl, rfl⟩
  unfold Table.reap
  dsimp only
  split
  case isTrue => exact h.release (.inl halive) hplain rfl rfl hholds rfl
  case isFalse =>
    have hdead : ¬(s.proc c).Alive := by simp [Proc.Alive, hzombie]
    have h₁ : Inv { s with pc := update s.pc p .user, waitLock := none } :=
      h.release (.inl halive) hplain rfl rfl hholds rfl
    have hnew : ∀ q, (update s.pc p Pc.user q).child ≠ some c := by
      intro q hq
      have hused : (s.proc c).state = .used := h₁.fork q c hq
      rw [hzombie] at hused
      cases hused
    have hnext : (s.proc c).stage.next (.reap p c (s.proc c).pid (s.proc c).xstate) =
        some .free := by
      simp [Proc.stage, hzombie, Stage.next]
    split
    · exact h₁.free hdead hnew rfl rfl rfl rfl rfl hnext
    · exact h₁.free hdead hnew rfl rfl rfl rfl rfl hnext

lemma Inv.waitScan (h : Inv s) (hrun : (s.proc p).state = .running) {addr : BitVec 64}
    {havekids ok : Bool} (hp : s.pc p = .waitScan addr j havekids)
    (hs : waitScan ok p addr j havekids s = .ok s') : Inv s' := by
  have halive := alive_of_running hrun
  have hholds : (s.pc p).holds := by rw [hp]; rfl
  -- all other outcomes are moves inside `wait`
  have hmove : ∀ pc, pc.child = none → pc.exiting = false → pc.passed = 0 →
      Inv (s.goto p pc) := by
    intro pc hchild hexiting hpassed
    refine h.move halive rfl rfl rfl rfl (fun _ => hholds) (.inl hchild) ?_ ?_
    · simp [hexiting]
    · simp [hpassed]
  unfold Table.waitScan at hs
  split at hs
  case isFalse =>
    split at hs
    case isTrue =>
      cases hs
      exact h.release (.inl halive) ⟨rfl, rfl, rfl, rfl⟩ rfl rfl hholds rfl
    case isFalse =>
      cases hs
      exact hmove _ rfl rfl rfl
  case isTrue hj =>
  dsimp only at hs
  split at hs
  case isFalse =>
    cases hs
    exact hmove _ rfl rfl rfl
  case isTrue =>
  split at hs
  case isTrue => cases hs
  case isFalse =>
  split at hs
  case isTrue hzombie =>
    cases hs
    exact h.reap hrun hholds hzombie ok addr
  case isFalse =>
    cases hs
    exact hmove _ rfl rfl rfl

/-- The record of `p` itself changes and its thread goes on. -/
lemma Inv.sameMove (h : Inv s) (halive : (s.proc p).Alive) {y : Proc}
    (hproc : s'.proc = update s.proc p y) (hpc : s'.pc = update s.pc p pc)
    (hhist : s'.hist = s.hist) (hlock : s'.waitLock = s.waitLock) (hsame : (s.proc p).Same y)
    (hplain : pc.Plain) : Inv s' := by
  have hself : s'.proc p = y := by rw [hproc, update_self]
  have h₁ : Inv { s with proc := s'.proc } := by
    refine h.same p rfl rfl rfl (fun q hq => ?_) (hself ▸ hsame)
    rw [hproc, update_of_ne hq]
  refine h₁.movePlain ?_ hplain rfl hhist hlock hpc
  rw [hself]
  exact hsame.alive.2 halive

lemma Proc.same_kill (x : Proc) : x.Same x.kill := by
  unfold Proc.kill
  by_cases hsleep : x.state = .sleeping
  · rw [if_pos hsleep]
    exact ⟨by simp [Proc.stage, hsleep], by simp [hsleep], rfl⟩
  · rw [if_neg hsleep]
    exact ⟨rfl, Iff.rfl, rfl⟩

lemma Inv.kill (h : Inv s) (hrun : (s.proc p).state = .running) (hs : kill p pid j s = .ok s') :
    Inv s' := by
  have halive := alive_of_running hrun
  unfold Table.kill at hs
  split at hs
  case isFalse =>
    cases hs
    exact h.movePlain halive ⟨rfl, rfl, rfl, rfl⟩ rfl rfl rfl rfl
  case isTrue hj =>
  split at hs
  case isTrue => cases hs
  case isFalse =>
  split at hs
  case isFalse =>
    cases hs
    exact h.movePlain halive ⟨rfl, rfl, rfl, rfl⟩ rfl rfl rfl rfl
  case isTrue =>
    cases hs
    have hsame : ∀ q, (s.proc q).Same ((s.setProc ⟨j, hj⟩ Proc.kill).proc q) := by
      intro q
      by_cases hq : q = ⟨j, hj⟩
      · rw [hq, setProc_self]
        exact Proc.same_kill _
      · rw [setProc_of_ne _ _ hq]
        exact ⟨rfl, Iff.rfl, rfl⟩
    have h₁ : Inv (s.setProc ⟨j, hj⟩ Proc.kill) :=
      h.same ⟨j, hj⟩ rfl rfl rfl (fun q hq => setProc_of_ne _ _ hq) (hsame _)
    exact h₁.movePlain ((hsame p).alive.2 halive) ⟨rfl, rfl, rfl, rfl⟩ rfl rfl rfl rfl

lemma Inv.run (h : Inv s) (hrun : (s.proc p).state = .running) {ok : Bool}
    (hs : run ok p s = .ok s') : Inv s' := by
  have halive := alive_of_running hrun
  unfold Table.run at hs
  cases hp : s.pc p with
  | user => rw [hp] at hs; cases hs
  | blocked =>
    rw [hp] at hs
    cases hs
    exact h.sameMove halive rfl rfl rfl rfl ⟨rfl, Iff.rfl, rfl⟩ ⟨rfl, rfl, rfl, rfl⟩
  | allocproc j => rw [hp] at hs; exact h.allocproc hrun hs
  | setup np =>
    rw [hp] at hs
    cases hs
    exact h.setup hrun hp ok
  | forkParent np pid => rw [hp] at hs; exact h.forkParent hrun hp hs
  | forkRunnable np pid => rw [hp] at hs; exact h.forkRunnable hrun hp hs
  | exit status =>
    rw [hp] at hs
    dsimp only at hs
    unfold exitLock at hs
    split at hs
    case isFalse => cases hs
    case isTrue hfree =>
      cases hs
      exact h.acquire halive rfl rfl hfree rfl rfl rfl
        (fun _ => h.exiting p (by rw [hp]; rfl)) rfl
  | reparent status j =>
    rw [hp] at hs
    cases hs
    exact h.reparent hrun hp
  | wakeInit status j k =>
    rw [hp] at hs
    refine h.wakeup halive hs fun pc hpc => ?_
    have hinit : p ≠ initproc := h.exiting p (by rw [hp]; rfl)
    have hpassed := h.passed p
    rw [hp] at hpassed ⊢
    rcases hpc with rfl | rfl
    · exact ⟨fun _ => rfl, rfl, fun _ => hinit, hpassed⟩
    · exact ⟨fun _ => rfl, rfl, fun _ => hinit, hpassed⟩
  | wakeParent status ch k =>
    rw [hp] at hs
    refine h.wakeup halive hs fun pc hpc => ?_
    have hinit : p ≠ initproc := h.exiting p (by rw [hp]; rfl)
    have hpassed := h.passed p
    rw [hp] at hpassed ⊢
    rcases hpc with rfl | rfl
    · exact ⟨fun _ => rfl, rfl, fun _ => hinit, hpassed⟩
    · exact ⟨fun _ => rfl, rfl, fun _ => hinit, hpassed⟩
  | exitLast status => rw [hp] at hs; exact h.exitLast hrun hp hs
  | dying => rw [hp] at hs; cases hs
  | dead => rw [hp] at hs; cases hs
  | wait addr =>
    rw [hp] at hs
    dsimp only at hs
    unfold Table.waitLock at hs
    split at hs
    case isFalse => cases hs
    case isTrue hfree =>
      cases hs
      exact h.acquire halive rfl rfl hfree rfl rfl rfl (by simp [Pc.exiting]) rfl
  | waitScan addr j havekids => rw [hp] at hs; exact h.waitScan hrun hp hs
  | waitSleep addr =>
    rw [hp] at hs
    dsimp only at hs
    unfold Table.waitSleep at hs
    split at hs
    case isTrue => cases hs
    case isFalse =>
      cases hs
      exact h.release (.inl halive) ⟨rfl, rfl, rfl, rfl⟩ rfl rfl (by rw [hp]; rfl) rfl
  | falling addr =>
    rw [hp] at hs
    cases hs
    exact h.sameMove halive rfl rfl rfl rfl ⟨by simp [Proc.stage, hrun], by simp [hrun], rfl⟩
      ⟨rfl, rfl, rfl, rfl⟩
  | sched addr =>
    rw [hp] at hs
    cases hs
    exact h.sameMove halive rfl rfl rfl rfl ⟨rfl, Iff.rfl, rfl⟩ ⟨rfl, rfl, rfl, rfl⟩
  | kill pid j => rw [hp] at hs; exact h.kill hrun hs

/-- The record of `p` changes, and nothing else. -/
lemma Inv.setProc (h : Inv s) {f : Proc → Proc} (hsame : (s.proc p).Same (f (s.proc p))) :
    Inv (s.setProc p f) := by
  refine h.same p rfl rfl rfl (fun q hq => setProc_of_ne _ _ hq) ?_
  rw [setProc_self]
  exact hsame

lemma Inv.step (h : Inv s) {a : Act} (hs : step a s = .ok s') : Inv s' := by
  unfold Table.step at hs
  cases a with
  | call p call =>
    dsimp only at hs
    split at hs
    case isFalse => cases hs
    case isTrue hp =>
      have halive := alive_of_running hp.1
      obtain ⟨pc, hpc, hs⟩ := bind_eq_ok hs
      cases hs
      cases call with
      | fork =>
        cases hpc
        exact h.movePlain halive ⟨rfl, rfl, rfl, rfl⟩ rfl rfl rfl rfl
      | exit status =>
        unfold enter at hpc
        dsimp only at hpc
        split at hpc
        case isTrue => cases hpc
        case isFalse hinit =>
          cases hpc
          exact h.move halive rfl rfl rfl rfl (by simp [Pc.holds]) (.inl rfl) (fun _ => hinit)
            (by simp [Pc.passed])
      | wait addr =>
        cases hpc
        exact h.movePlain halive ⟨rfl, rfl, rfl, rfl⟩ rfl rfl rfl rfl
      | kill pid =>
        cases hpc
        exact h.movePlain halive ⟨rfl, rfl, rfl, rfl⟩ rfl rfl rfl rfl
  | run p ok =>
    dsimp only at hs
    split at hs
    case isFalse => cases hs
    case isTrue hrun => exact h.run hrun hs
  | schedule p =>
    dsimp only at hs
    split at hs
    case isFalse => cases hs
    case isTrue hp =>
      cases hs
      exact h.setProc ⟨by simp [Proc.stage, hp.2], by simp [hp.2], rfl⟩
  | yield p =>
    dsimp only at hs
    split at hs
    case isFalse => cases hs
    case isTrue hp =>
      cases hs
      exact h.setProc ⟨by simp [Proc.stage, hp.1], by simp [hp.1], rfl⟩
  | block p =>
    dsimp only at hs
    split at hs
    case isFalse => cases hs
    case isTrue hp =>
      cases hs
      exact h.sameMove (alive_of_running hp.1) rfl rfl rfl rfl
        ⟨by simp [Proc.stage, hp.1], by simp [hp.1], rfl⟩ ⟨rfl, rfl, rfl, rfl⟩
  | unblock p =>
    dsimp only at hs
    split at hs
    case isFalse => cases hs
    case isTrue hp =>
      cases hs
      exact h.setProc ⟨by simp [Proc.stage, hp.2.1], by simp [hp.2.1], rfl⟩
  | setkilled p =>
    dsimp only at hs
    split at hs
    case isFalse => cases hs
    case isTrue hp =>
      cases hs
      exact h.setProc ⟨rfl, Iff.rfl, rfl⟩
  | finish p =>
    dsimp only at hs
    split at hs
    case isFalse => cases hs
    case isTrue hp =>
      cases hs
      exact h.goto rfl rfl rfl (h.holds_same rfl (by simp [Pc.holds])) (.inr (.inr (.inr rfl)))
        (by simp [Pc.child]) (by simp [Pc.exiting]) (by simp [Pc.passed])

lemma Inv.boot : Inv boot := by
  have hnone : ∀ q, (Table.boot.proc q).parent = none := by decide +kernel
  refine ⟨by decide +kernel, fun q r hq => ?_, fun _ _ => .inl rfl, ?_, ?_, by decide, ?_, ?_, ?_⟩
  · rw [hnone] at hq
    cases hq
  · simp [Table.boot, Pc.child]
  · simp [Table.boot, Pc.child]
  · simp [Table.boot, Pc.exiting]
  · simp [Table.boot, Pc.holds]
  · simp [Table.boot, Pc.passed]

lemma reachable_inv (hs : Reachable s) : Inv s :=
  preserved (fun _ _ h ⟨_, ha⟩ => h.step ha) .boot hs

end Xv6.Table
