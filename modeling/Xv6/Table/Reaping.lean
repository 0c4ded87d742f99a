import Xv6.Table.Lifecycle

/-!
# Every exited process is reaped once

What a step records in the history, and from that and the life of a slot: a ZOMBIE stays one
until its parent's `wait` returns its pid, and a slot becomes free only that way or by a failed
allocation.
-/

namespace Xv6.Table

open Xv6.Lib
open Xv6.Process (NPROC Slot ProcState Stop)
open Function (update update_of_ne update_self)

variable {s s' : State} {p q c np : Slot} {addr : BitVec 64} {havekids : Bool} {a : Act}

/-- With the step from `s` to `s'` the `wait` of `p` reaps `c`: `c` was a ZOMBIE child of `p`,
its slot is free now, `p` returns its pid and has stored its exit status. -/
structure Reaps (s s' : State) (p c : Slot) : Prop where
  zombie : (s.proc c).state = .zombie
  parent : (s.proc c).parent = some p
  free : (s'.proc c).state = .unused
  hist : s'.hist = s.hist ++ [.reap p c (s.proc c).pid (s.proc c).xstate]
  ret : s'.pc p = .user ∧ s'.ret p = (s.proc c).pid
  stored : ∃ addr havekids, s.pc p = .waitScan addr c.val havekids ∧
    (addr ≠ 0 → s'.copied p = some (addr, (s.proc c).xstate))

/-- The child and the pid that `fork` is going to return. -/
def Pc.forked : Pc → Option (Slot × BitVec 32)
  | .forkParent np pid => some (np, pid)
  | .forkRunnable np pid => some (np, pid)
  | _ => none

/-- What a step does when it records an event. -/
def Justified (s s' : State) : Event → Prop
  | .alloc _ pid => pid = s.nextpid ∧ s'.nextpid = s.nextpid + 1
  | .fail c => s'.nextpid = s.nextpid ∧ ∃ p, s.pc p = .setup c ∧ s'.ret p = -1
  | .exit _ _ _ => s'.nextpid = s.nextpid
  | .reap p c _ _ => s'.nextpid = s.nextpid ∧ Reaps s s' p c

/-- A step records at most one event, and `fork` returns the pid of its child. -/
structure Records (s s' : State) : Prop where
  event : (s'.hist = s.hist ∧ s'.nextpid = s.nextpid) ∨
    ∃ e, s'.hist = s.hist ++ [e] ∧ Justified s s' e
  forked : ∀ q np pid, (s'.pc q).forked = some (np, pid) →
    (s.pc q).forked = some (np, pid) ∨ (s.pc q = .setup np ∧ (s.proc np).pid = pid)

/-! ## What a step records -/

/-- A step of the thread of `p`. -/
lemma Records.moves {t : Pc}
    (hevent : (s'.hist = s.hist ∧ s'.nextpid = s.nextpid) ∨
      ∃ e, s'.hist = s.hist ++ [e] ∧ Justified s s' e)
    (hpc : s'.pc = update s.pc p t) (ht : t.forked = none ∨ t.forked = (s.pc p).forked) :
    Records s s' := by
  refine ⟨hevent, fun q np pid hq => .inl ?_⟩
  rw [hpc] at hq
  by_cases hqp : q = p
  · subst hqp
    rw [update_self] at hq
    rcases ht with ht | ht
    · rw [ht] at hq
      cases hq
    · rw [← ht, hq]
  · rwa [update_of_ne hqp] at hq

/-- A step of the thread of `p` that records nothing. -/
lemma Records.quiet {t : Pc} (hhist : s'.hist = s.hist) (hnext : s'.nextpid = s.nextpid)
    (hpc : s'.pc = update s.pc p t) (ht : t.forked = none ∨ t.forked = (s.pc p).forked) :
    Records s s' :=
  .moves (.inl ⟨hhist, hnext⟩) hpc ht

lemma allocproc_records {j : ℕ} (hs : allocproc p j s = .ok s') : Records s s' := by
  unfold allocproc at hs
  split at hs
  case isFalse => cases hs; exact .quiet rfl rfl rfl (.inl rfl)
  case isTrue =>
  dsimp only at hs
  split at hs
  case isTrue => cases hs
  case isFalse =>
  split at hs
  case isFalse => cases hs; exact .quiet rfl rfl rfl (.inl rfl)
  case isTrue => cases hs; exact .moves (.inr ⟨_, rfl, rfl, rfl⟩) rfl (.inl rfl)

/-- `fork` takes the pid of its child from the table. -/
lemma setup_records (hp : s.pc p = .setup c) (ok : Bool) : Records s (setup ok p c s) := by
  unfold setup
  split
  case isFalse => exact .moves (.inr ⟨_, rfl, rfl, p, hp, update_self ..⟩) rfl (.inl rfl)
  case isTrue =>
    refine ⟨.inl ⟨rfl, rfl⟩, fun q np pid hq => ?_⟩
    change (update (update s.pc c .user) p _ q).forked = _ at hq
    by_cases hqp : q = p
    · subst hqp
      rw [update_self] at hq
      cases hq
      exact .inr ⟨hp, rfl⟩
    · rw [update_of_ne hqp] at hq
      by_cases hqc : q = c
      · subst hqc
        rw [update_self] at hq
        cases hq
      · rw [update_of_ne hqc] at hq
        exact .inl hq

/-- `wait` with a `ZOMBIE` child reaps it, unless the status cannot be stored. -/
lemma reap_returns (ok : Bool) (hp : s.pc p = .waitScan addr c.val havekids)
    (hzombie : (s.proc c).state = .zombie) (hparent : (s.proc c).parent = some p) :
    Records s (reap ok p c addr s) ∧
      ((reap ok p c addr s).proc = s.proc ∧ (reap ok p c addr s).ret p = -1 ∨
        Reaps s (reap ok p c addr s) p c) := by
  by_cases hfail : addr ≠ 0 ∧ ok = false
  · simp only [reap, if_pos hfail]
    exact ⟨.quiet rfl rfl rfl (.inl rfl), .inl ⟨rfl, update_self ..⟩⟩
  · have hreaps : Reaps s (reap ok p c addr s) p c := by
      simp only [reap, if_neg hfail]
      refine ⟨hzombie, hparent, ?_, ?_, ⟨update_self .., update_self ..⟩,
        addr, havekids, hp, fun haddr => ?_⟩
      · split <;> simp [State.sysret, State.goto, State.record, State.setProc, Proc.free]
      · split <;> rfl
      · rw [if_pos haddr]
        exact update_self ..
    refine ⟨.moves (p := p) (t := .user) (.inr ⟨_, hreaps.hist, ?_, hreaps⟩) ?_ (.inl rfl),
      .inr hreaps⟩
    all_goals
      simp only [reap, if_neg hfail]
      split <;> rfl

/-- `wait` goes on, returns -1 and leaves the table alone, or reaps a child. -/
lemma waitScan_returns {ok : Bool} {j : ℕ} (hp : s.pc p = .waitScan addr j havekids)
    (hs : waitScan ok p addr j havekids s = .ok s') :
    Records s s' ∧ (s'.pc p ≠ .user ∨ (s'.proc = s.proc ∧ s'.ret p = -1) ∨
      ∃ c, Reaps s s' p c) := by
  have hgo : ∀ pc, pc.forked = none → pc ≠ .user →
      Records s (s.goto p pc) ∧ (s.goto p pc).pc p ≠ .user := by
    intro pc hforked hpc
    refine ⟨.quiet rfl rfl rfl (.inl hforked), ?_⟩
    show update s.pc p pc p ≠ .user
    rw [update_self]
    exact hpc
  unfold waitScan at hs
  split at hs
  case isFalse =>
    split at hs
    case isTrue =>
      cases hs
      exact ⟨.quiet rfl rfl rfl (.inl rfl), .inr (.inl ⟨rfl, update_self ..⟩)⟩
    case isFalse => cases hs; exact (hgo _ rfl (by simp)).imp_right .inl
  case isTrue hj =>
  dsimp only at hs
  split at hs
  case isFalse => cases hs; exact (hgo _ rfl (by simp)).imp_right .inl
  case isTrue hparent =>
  split at hs
  case isTrue => cases hs
  case isFalse =>
  split at hs
  case isFalse => cases hs; exact (hgo _ rfl (by simp)).imp_right .inl
  case isTrue hzombie =>
    cases hs
    obtain ⟨hrec, hreap⟩ := reap_returns ok hp hzombie hparent
    exact ⟨hrec, .inr (hreap.imp_right fun h => ⟨_, h⟩)⟩

lemma wakeup_records {ch : Chan} {k : ℕ} {next : ℕ → Pc} {after : Pc}
    (hnext : ∀ k, (next k).forked = none) (hafter : after.forked = none)
    (hs : wakeup ch p k next after s = .ok s') : Records s s' := by
  unfold wakeup at hs
  split at hs
  case isFalse => cases hs; exact .quiet rfl rfl rfl (.inl hafter)
  case isTrue =>
    obtain ⟨s₁, hs₁, hs⟩ := bind_eq_ok hs
    cases hs
    unfold wakeOne at hs₁
    split at hs₁
    · cases hs₁; exact .quiet rfl rfl rfl (.inl (hnext _))
    split at hs₁
    · cases hs₁
    split at hs₁
    · cases hs₁; exact .quiet rfl rfl rfl (.inl (hnext _))
    · cases hs₁; exact .quiet rfl rfl rfl (.inl (hnext _))

lemma run_records {ok : Bool} (hs : run ok p s = .ok s') : Records s s' := by
  unfold run at hs
  cases hp : s.pc p with
  | user => rw [hp] at hs; cases hs
  | blocked => rw [hp] at hs; cases hs; exact .quiet rfl rfl rfl (.inl rfl)
  | allocproc j => rw [hp] at hs; exact allocproc_records hs
  | setup np => rw [hp] at hs; cases hs; exact setup_records hp ok
  | forkParent np pid =>
    rw [hp] at hs
    dsimp only at hs
    unfold forkParent at hs
    split at hs
    · cases hs; exact .quiet rfl rfl rfl (.inr (by rw [hp]; rfl))
    · cases hs
  | forkRunnable np pid =>
    rw [hp] at hs
    dsimp only at hs
    unfold forkRunnable at hs
    split at hs
    · cases hs
    · cases hs; exact .quiet rfl rfl rfl (.inl rfl)
  | exit status =>
    rw [hp] at hs
    dsimp only at hs
    unfold exitLock at hs
    split at hs
    · cases hs; exact .quiet rfl rfl rfl (.inl rfl)
    · cases hs
  | reparent status j =>
    rw [hp] at hs
    cases hs
    unfold reparent
    split
    · split
      · exact .quiet rfl rfl rfl (.inl rfl)
      · exact .quiet rfl rfl rfl (.inl rfl)
    · exact .quiet rfl rfl rfl (.inl rfl)
  | wakeInit status j k => rw [hp] at hs; exact wakeup_records (fun _ => rfl) rfl hs
  | wakeParent status ch k => rw [hp] at hs; exact wakeup_records (fun _ => rfl) rfl hs
  | exitLast status =>
    rw [hp] at hs
    dsimp only at hs
    unfold exitLast at hs
    split at hs
    · cases hs
    · cases hs; exact .moves (.inr ⟨_, rfl, rfl⟩) rfl (.inl rfl)
  | dying => rw [hp] at hs; cases hs
  | dead => rw [hp] at hs; cases hs
  | wait addr =>
    rw [hp] at hs
    dsimp only at hs
    unfold waitLock at hs
    split at hs
    · cases hs; exact .quiet rfl rfl rfl (.inl rfl)
    · cases hs
  | waitScan addr j havekids =>
    rw [hp] at hs
    exact (waitScan_returns hp hs).1
  | waitSleep addr =>
    rw [hp] at hs
    dsimp only at hs
    unfold waitSleep at hs
    split at hs
    · cases hs
    · cases hs; exact .quiet rfl rfl rfl (.inl rfl)
  | falling addr => rw [hp] at hs; cases hs; exact .quiet rfl rfl rfl (.inl rfl)
  | sched addr => rw [hp] at hs; cases hs; exact .quiet rfl rfl rfl (.inl rfl)
  | kill pid j =>
    rw [hp] at hs
    dsimp only at hs
    unfold kill at hs
    split at hs
    · split at hs
      · cases hs
      split at hs
      · cases hs; exact .quiet rfl rfl rfl (.inl rfl)
      · cases hs; exact .quiet rfl rfl rfl (.inl rfl)
    · cases hs; exact .quiet rfl rfl rfl (.inl rfl)

/-- Every step of the machine. -/
lemma step_records (hs : step a s = .ok s') : Records s s' := by
  unfold step at hs
  cases a with
  | run p ok =>
    dsimp only at hs
    split at hs
    · exact run_records hs
    · cases hs
  | call p call =>
    dsimp only at hs
    split at hs
    case isFalse => cases hs
    case isTrue =>
      obtain ⟨pc, hpc, hs⟩ := bind_eq_ok hs
      cases hs
      refine .quiet rfl rfl rfl (.inl ?_)
      unfold enter at hpc
      split at hpc
      case h_2 =>
        split at hpc
        · cases hpc
        · cases hpc
          rfl
      all_goals cases hpc; rfl
  | schedule p | yield p | unblock p | setkilled p =>
    dsimp only at hs
    split at hs
    · cases hs
      exact ⟨.inl ⟨rfl, rfl⟩, fun _ _ _ hq => .inl hq⟩
    · cases hs
  | block p | finish p =>
    dsimp only at hs
    split at hs
    · cases hs
      exact .quiet rfl rfl rfl (.inl rfl)
    · cases hs

/-! ## The life of a slot, step by step -/

lemma Proc.stage_eq_zombie {x : Proc} {pid status : BitVec 32}
    (h : x.stage = .zombie pid status) : x.state = .zombie ∧ x.pid = pid ∧ x.xstate = status := by
  unfold Proc.stage at h
  cases hx : x.state <;> rw [hx] at h <;> simp_all

lemma Proc.stage_eq_free {x : Proc} : x.stage = .free ↔ x.state = .unused := by
  unfold Proc.stage
  cases hx : x.state <;> simp

/-- A slot keeps its stage, or takes the next one with an event that is justified. -/
lemma stage_step (h : Inv s) (hs : step a s = .ok s') (c : Slot) :
    (s'.proc c).stage = (s.proc c).stage ∨
      ∃ e, e.slot = c ∧ Justified s s' e ∧ (s.proc c).stage.next e = some (s'.proc c).stage := by
  have hlife := h.life c
  have hlife' := (h.step hs).life c
  rcases (step_records hs).event with ⟨hhist, -⟩ | ⟨e, hhist, he⟩
  · rw [hhist, hlife] at hlife'
    exact .inl (Option.some.inj hlife').symm
  · rw [hhist, stage_record, hlife] at hlife'
    by_cases hc : e.slot = c
    · rw [if_pos hc, Option.bind_some] at hlife'
      exact .inr ⟨e, hc, he, hlife'⟩
    · rw [if_neg hc] at hlife'
      exact .inl (Option.some.inj hlife').symm

/-- A ZOMBIE stays a ZOMBIE with its pid and status, or its parent reaps it. -/
lemma zombie_step (h : Inv s) (hs : step a s = .ok s') (hc : (s.proc c).state = .zombie) :
    ((s'.proc c).state = .zombie ∧ (s'.proc c).pid = (s.proc c).pid ∧
      (s'.proc c).xstate = (s.proc c).xstate) ∨ ∃ p, Reaps s s' p c := by
  have hstage : (s.proc c).stage = .zombie (s.proc c).pid (s.proc c).xstate := by
    simp [Proc.stage, hc]
  rcases stage_step h hs c with hsame | ⟨e, he, hjust, hnext⟩
  · exact .inl (Proc.stage_eq_zombie (hsame.trans hstage))
  · rw [hstage] at hnext
    cases e with
    | reap p c' pid status =>
      obtain rfl : c' = c := he
      exact .inr ⟨p, hjust.2⟩
    | alloc _ _ | fail _ | exit _ _ _ => cases hnext

/-- A slot becomes free when its process is reaped, or when its allocation fails. -/
lemma free_step (h : Inv s) (hs : step a s = .ok s') (hc : (s.proc c).state ≠ .unused)
    (hc' : (s'.proc c).state = .unused) :
    (∃ p, Reaps s s' p c) ∨ ∃ p, s.pc p = .setup c ∧ s'.ret p = -1 := by
  have hfree : (s'.proc c).stage = .free := Proc.stage_eq_free.2 hc'
  rcases stage_step h hs c with hsame | ⟨e, he, hjust, hnext⟩
  · exact absurd (Proc.stage_eq_free.1 (hsame.symm.trans hfree)) hc
  · rw [hfree] at hnext
    cases e with
    | reap p c' pid status =>
      obtain rfl : c' = c := he
      exact .inl ⟨p, hjust.2⟩
    | fail c' =>
      obtain rfl : c' = c := he
      exact .inr hjust.2
    | alloc _ _ =>
      cases hst : (s.proc c).stage <;> rw [hst] at hnext <;> simp [Stage.next] at hnext
    | exit _ _ _ =>
      cases hst : (s.proc c).stage <;> rw [hst] at hnext <;> simp [Stage.next] at hnext

/-- The event is an exit of `c`. -/
def Event.exits (c : Slot) : Event → Bool
  | .exit c' _ _ => c' = c
  | _ => false

/-- The event is a `wait` that reaps `c`. -/
def Event.reaps (c : Slot) : Event → Bool
  | .reap _ c' _ _ => c' = c
  | _ => false

/-- `1` for a process that has exited and is not reaped. -/
def Stage.unreaped : Stage → ℕ
  | .zombie _ _ => 1
  | _ => 0

/-- What one event of slot `c` does to the number of reaps and exits. -/
lemma Stage.unreaped_next {t t' : Stage} {e : Event} (he : e.slot = c) (h : t.next e = some t') :
    (if e.reaps c then 1 else 0) + t'.unreaped = t.unreaped + if e.exits c then 1 else 0 := by
  cases e with
  | alloc c' pid =>
    cases t with
    | free => cases h; rfl
    | live _ => cases h
    | zombie _ _ => cases h
  | fail c' =>
    cases t with
    | live _ => cases h; rfl
    | free => cases h
    | zombie _ _ => cases h
  | exit c' pid status =>
    obtain rfl : c' = c := he
    cases t with
    | live pid' =>
      simp only [Stage.next, Option.ite_none_right_eq_some] at h
      cases h.2
      simp [Stage.unreaped, Event.reaps, Event.exits]
    | free => cases h
    | zombie _ _ => cases h
  | reap p c' pid status =>
    obtain rfl : c' = c := he
    cases t with
    | zombie pid' status' =>
      simp only [Stage.next, Option.ite_none_right_eq_some] at h
      cases h.2
      simp [Stage.unreaped, Event.reaps, Event.exits]
    | free => cases h
    | live _ => cases h

/-- Events of other slots are neither. -/
lemma Event.counts_of_ne {e : Event} (he : e.slot ≠ c) : e.reaps c = false ∧ e.exits c = false := by
  cases e <;> simp_all [Event.slot, Event.reaps, Event.exits]

/-- A slot is reaped once for every exit, except for the one it has yet to be reaped for. -/
lemma countP_reaps {es : List Event} {t : Stage} (h : stage c es = some t) :
    es.countP (Event.reaps c) + t.unreaped = es.countP (Event.exits c) := by
  induction es using List.reverseRecOn generalizing t with
  | nil =>
    cases h
    rfl
  | append_singleton es e ih =>
    rw [List.countP_append, List.countP_append, List.countP_singleton, List.countP_singleton]
    rw [stage_record] at h
    by_cases hc : e.slot = c
    · rw [if_pos hc] at h
      obtain ⟨t₀, ht₀, hnext⟩ := Option.bind_eq_some_iff.1 h
      have hold := ih ht₀
      have hone := Stage.unreaped_next hc hnext
      omega
    · rw [if_neg hc] at h
      have hold := ih h
      obtain ⟨hreaps, hexits⟩ := Event.counts_of_ne hc
      rw [hreaps, hexits]
      simpa using hold

/-- Exit and wait, exactly once. -/
structure ExitWaitOnce (s : State) : Prop where
  /-- The history of every slot is a sequence of lives: allocated, exited with a status, reaped
  with that pid and status. The table shows where the last one stands. -/
  life : ∀ c, stage c s.hist = some (s.proc c).stage
  /-- Every exit is reaped at most once, and those of ZOMBIEs not yet. -/
  once : ∀ c, s.hist.countP (Event.reaps c) + (s.proc c).stage.unreaped =
    s.hist.countP (Event.exits c)
  /-- A ZOMBIE keeps its pid and status until its parent reaps it. -/
  stays : ∀ a s', step a s = .ok s' → ∀ c, (s.proc c).state = .zombie →
    ((s'.proc c).state = .zombie ∧ (s'.proc c).pid = (s.proc c).pid ∧
      (s'.proc c).xstate = (s.proc c).xstate) ∨ ∃ p, Reaps s s' p c
  /-- A slot is freed when it is reaped or when its allocation fails. -/
  freed : ∀ a s', step a s = .ok s' → ∀ c, (s.proc c).state ≠ .unused →
    (s'.proc c).state = .unused → (∃ p, Reaps s s' p c) ∨ ∃ p, s.pc p = .setup c ∧ s'.ret p = -1
  /-- A `wait` that returns has reaped a child, or returns -1 and changes no process. -/
  returns : ∀ p addr j havekids ok s', s.pc p = .waitScan addr j havekids →
    step (.run p ok) s = .ok s' → s'.pc p = .user →
    (∃ c, Reaps s s' p c) ∨ s'.ret p = -1 ∧ s'.proc = s.proc
  /-- Parents are neither UNUSED nor ZOMBIE. -/
  parents : s.waitLock = none → ∀ q r, (s.proc q).parent = some r →
    (s.proc r).state ≠ .unused ∧ (s.proc r).state ≠ .zombie

theorem exit_wait_once (hs : Reachable s) : ExitWaitOnce s := by
  have h := reachable_inv hs
  refine ⟨h.life, fun c => countP_reaps (h.life c), fun a s' ha c hc => zombie_step h ha hc,
    fun a s' ha c hc hc' => free_step h ha hc hc', ?_, fun _ q r hq => ?_⟩
  · intro p addr j havekids ok s' hp ha hret
    have hscan : waitScan ok p addr j havekids s = .ok s' := by
      unfold step at ha
      dsimp only at ha
      split at ha
      · unfold run at ha
        rwa [hp] at ha
      · cases ha
    rcases (waitScan_returns hp hscan).2 with hgo | hfail | hreaps
    · exact absurd hret hgo
    · exact .inr ⟨hfail.2, hfail.1⟩
    · exact .inl hreaps
  · rcases h.parents q r hq with hr | hr | hr <;> simp [hr]

/-- The first process forks a child, which exits with status 7. -/
def exitActs : List Act :=
  [.schedule 0, .call 0 .fork] ++ List.replicate 5 (.run 0 true) ++
    [.schedule 1, .call 1 (.exit 7)] ++ List.replicate 132 (.run 1 true) ++ [.finish 1]

/-- The table after `exitActs`. -/
def exitedRun : State := runActs boot exitActs

theorem exit_wait_once_exitedRun :
    ((exitedRun.proc 1).state, (exitedRun.proc 1).pid, (exitedRun.proc 1).xstate) =
      (.zombie, 2, 7) ∧ ExitWaitOnce exitedRun :=
  ⟨by decide +kernel, exit_wait_once (runActs_run ..)⟩

example :
    let s := runActs exitedRun ([.call 0 (.wait 4096)] ++ List.replicate 3 (.run 0 true))
    (s.hist, s.ret 0, s.copied 0) =
      ([.alloc 0 1, .alloc 1 2, .exit 1 2 7, .reap 0 1 2 7], 2, some (4096, 7)) := by
  decide +kernel

end Xv6.Table
