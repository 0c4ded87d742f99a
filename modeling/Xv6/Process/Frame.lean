import Xv6.Process.Invariant

/-!
# The frame of `co_yield`

When `co_yield` returns without a switch, and what a call changes: nothing if it returns -1, and
otherwise a few fields of the caller and of the target. A call is cut into blocks at the places
where `find_proc` holds no lock. One block is described for every interleaving, and from the
blocks a call that is not preempted.
-/

namespace Xv6.Process

open Xv6.Lib

variable {m m' m₀ : Machine} {p t : Slot} {pid value : BitVec 32} {i : ℕ}

/-! ## What decides about a call -/

/-- `find_proc(pid)` stops at slot `t`. -/
def Machine.Matches (m : Machine) (pid : BitVec 32) (t : Slot) : Prop :=
  (m.proc t).pid = pid ∧ (m.proc t).state ≠ .unused

/-- The process that `find_proc(pid)` returns. -/
def Machine.Target (m : Machine) (pid : BitVec 32) (t : Slot) : Prop :=
  m.Matches pid t ∧ ∀ j, j < t → ¬m.Matches pid j

/-- The target is killed or ZOMBIE, sleeps on another channel than `co_chan(p)`, or is USED or
RUNNING. -/
def Machine.Blocked (m : Machine) (p t : Slot) : Prop :=
  (m.proc t).killed = true ∨ (m.proc t).state = .zombie ∨
    ((m.proc t).state = .sleeping ∧ (m.proc t).chan ≠ .coChan p) ∨
    (m.proc t).state = .used ∨ (m.proc t).state = .running

/-- The target is parked on the caller. -/
def Machine.ParkedOn (m : Machine) (t p : Slot) : Prop :=
  (m.proc t).state = .sleeping ∧ (m.proc t).chan = .coChan p

/-- `co_yield(pid, _)` of process `p` is not possible. -/
def Refused (m : Machine) (p : Slot) (pid : BitVec 32) : Prop :=
  pid.toInt ≤ 0 ∨ pid = (m.proc p).pid ∨ (∀ t, ¬m.Matches pid t) ∨
    (∃ t, m.Target pid t ∧ m.Blocked p t) ∨ (m.proc p).killed = true

/-- Nothing has changed but the place in the code, the history, and `c->intena`, which says
nothing while no lock is held. -/
def Same (m m' : Machine) : Prop :=
  m' = { m with pc := m'.pc, trace := m'.trace, intena := m'.intena }

/-- The call returned -1. -/
structure Returned (m m' : Machine) : Prop where
  same : Same m m'
  pc : m'.pc = .run (.sysRet minusOne)

/-- The call of `p` is in `swtch`, on its way to `t`. -/
structure Switched (m m' : Machine) (p t : Slot) (pid value : BitVec 32) : Prop where
  /-- Only processes and `c->proc` have changed; the lock of `t` is held for the switch. -/
  rest : m' = { m with
    proc := m'.proc, cpuProc := some t, pc := .swtchProc t, locks := [.proc t], noff := 1
    sie := false, intena := m.sie, trace := m'.trace }
  /-- `swtch` has saved the context. -/
  caller : ∃ a0, m'.proc p = { m.proc p with
    state := .sleeping, chan := .coChan t, trapframe := ⟨a0, value.signExtend 64⟩
    context := .coYield t pid value }
  target : ∃ c a0, m'.proc t = { m.proc t with
    state := .running, chan := c, trapframe := { (m.proc t).trapframe with a0 := a0 } }
  /-- The trapframe of a target that is not parked on the caller is not touched. -/
  trapframe : ¬m.ParkedOn t p → (m'.proc t).trapframe = (m.proc t).trapframe
  others : ∀ r, r ≠ p → r ≠ t → m'.proc r = m.proc r

/-! ## One block -/

/-- What the block of `find_proc` at slot `i` does. -/
inductive Block (m : Machine) (p : Slot) (pid value : BitVec 32) (i : ℕ) (m' : Machine) : Prop where
  /-- It goes on with the next slot. -/
  | scan (t : Slot) (hi : t.val = i) (hno : ¬m.Matches pid t) (hsame : Same m m')
      (hpc : m'.pc = .run (.findProc pid value (i + 1)))
  /-- There is no slot left. -/
  | missing (hi : NPROC ≤ i) (h : Returned m m')
  /-- The process at `i` has the pid, but `co_yield` is not possible. -/
  | refused (t : Slot) (hi : t.val = i) (hmatch : m.Matches pid t)
      (hwhy : m.Blocked p t ∨ (m.proc p).killed = true) (h : Returned m m')
  /-- It switches to the process at `i`. -/
  | switched (t : Slot) (hi : t.val = i) (hmatch : m.Matches pid t) (hok : ¬m.Blocked p t)
      (hpk : (m.proc p).killed = false) (h : Switched m m' p t pid value)

/-- A critical section that changes nothing. -/
lemma Machine.section_same {l : Lock} (hn : m.noff = 0) :
    (m.locked l).unlocked l = { m with intena := m.sie } := by
  simp [Machine.unlocked, Machine.locked, hn]

/-- `x` returns, with a result that satisfies `Q`. -/
abbrev Runs (Q : Machine → Prop) (x : Exec) : Prop := Post (fun _ => False) Q x

section Exits

variable {Q : Machine → Prop} (hret : ∀ m', Returned m m' → Q m')
include hret

/-- The exits of `co_yield` that hold the target's lock. -/
lemma coYieldFail_runs (hn : m.noff = 0) :
    Runs Q (do
      let m ← release (.proc t) (m.locked (.proc t))
      pure (coYieldFail p pid value m)) := by
  refine Post.bind_of_eq (release_eq (by simp) (by simp) (by simp)) ?_
  rw [Machine.section_same hn]
  exact hret _ ⟨rfl, rfl⟩

/-- The exits of `co_yield` that find the caller killed. -/
lemma coYieldKilled_runs (hn : m.noff = 0) :
    Runs Q (do
      let m ← release (.proc p) ((m.locked (.proc t)).locked (.proc p))
      let m ← release (.proc t) m
      pure (coYieldFail p pid value m)) := by
  have hinner : ((m.locked (.proc t)).locked (.proc p)).unlocked (.proc p) =
      m.locked (.proc t) := by
    simp [Machine.unlocked, Machine.locked]
  refine Post.bind_of_eq (release_eq (by simp) (by simp) (by simp)) ?_
  rw [hinner]
  exact coYieldFail_runs hret hn

end Exits

lemma coYieldExchange_block (hl : m.locks = []) (hn : m.noff = 0) (hpt : p ≠ t)
    (hmatch : m.Matches pid t) (hst : (m.proc t).state = .sleeping)
    (htk : (m.proc t).killed = false) :
    Runs (Block m p pid value t) (coYieldExchange p t pid value (m.locked (.proc t))) := by
  rw [coYieldExchange]
  refine Post.ite (fun hch => ?_) fun hch => ?_
  · refine coYieldFail_runs (fun m' h' => ?_) hn
    exact .refused t rfl hmatch (.inl (.inr (.inr (.inl ⟨hst, hch⟩)))) h'
  rw [not_not] at hch
  refine Post.bind_of_eq (acquire_eq (by simp [hl, hpt])) (Post.ite (fun hpk => ?_) fun hpk => ?_)
  · exact coYieldKilled_runs (fun m' h' => .refused t rfl hmatch (.inr hpk) h') hn
  refine Post.bind_of_eq (release_eq (by simp) (by simp) (by simp)) ?_
  have hch' : (m.proc t).chan = .coChan p := hch
  have hok : ¬m.Blocked p t := by simp [Machine.Blocked, hst, htk, hch']
  refine .switched t rfl hmatch hok (by simpa using hpk) ⟨?_, ?_, ?_, fun hpark => ?_,
    fun r hrp hrt => ?_⟩
  · simp [Machine.unlocked, Machine.locked, Machine.setProc, Machine.record, hl, hn]
  · exact ⟨_, by simp [hpt]; rfl⟩
  · simp only [Machine.record_proc, Machine.setProc_proc, Machine.unlocked_proc,
      Machine.locked_proc, ne_eq, hpt, hpt.symm, not_false_eq_true, Function.update_of_ne,
      Function.update_self]
    split
    · exact ⟨_, _, rfl⟩
    · exact ⟨_, _, rfl⟩
  · exact absurd ⟨hst, hch⟩ hpark
  · simp [hrp, hrt]

lemma coYieldPark_block (hl : m.locks = []) (hn : m.noff = 0) (hpt : p ≠ t)
    (hmatch : m.Matches pid t) (hnz : (m.proc t).state ≠ .zombie)
    (hns : (m.proc t).state ≠ .sleeping) (htk : (m.proc t).killed = false) :
    Runs (Block m p pid value t) (coYieldPark p t pid value (m.locked (.proc t))) := by
  rw [coYieldPark]
  refine Post.ite (fun hst => ?_) fun hst => ?_
  · refine coYieldFail_runs (fun m' h' => .refused t rfl hmatch (.inl ?_) h') hn
    have hnu := hmatch.2
    unfold Machine.Blocked
    cases h : (m.proc t).state <;> simp_all
  rw [not_not] at hst
  refine Post.bind_of_eq (acquire_eq (by simp [hl, hpt])) (Post.ite (fun hpk => ?_) fun hpk => ?_)
  · exact coYieldKilled_runs (fun m' h' => .refused t rfl hmatch (.inr hpk) h') hn
  refine Post.bind_of_eq (release_eq (by simp) (by simp) (by simp)) ?_
  have hok : ¬m.Blocked p t := by
    have hst' : (m.proc t).state = .runnable := hst
    simp [Machine.Blocked, hst', htk]
  refine .switched t rfl hmatch hok (by simpa using hpk) ⟨?_, ?_, ?_, fun _ => ?_,
    fun r hrp hrt => ?_⟩
  · simp [Machine.unlocked, Machine.locked, Machine.setProc, Machine.record, hl, hn]
  · exact ⟨_, by simp [hpt]; rfl⟩
  · exact ⟨(m.proc t).chan, (m.proc t).trapframe.a0, by simp [hpt.symm]⟩
  · simp [hpt.symm]
  · simp [hrp, hrt]

lemma findProc_block (value : BitVec 32) (i : ℕ) (hl : m.locks = []) (hn : m.noff = 0)
    (hpid : pid ≠ (m.proc p).pid) :
    Runs (Block m p pid value i) (findProc p pid value i m) := by
  rw [findProc]
  split
  case isFalse hi => exact .missing (by omega) ⟨rfl, rfl⟩
  case isTrue hi =>
  refine Post.bind_of_eq (acquire_eq (by simp [hl])) (Post.ite (fun ht => ?_) fun ht => ?_)
  · have hpt : p ≠ ⟨i, hi⟩ := by
      rintro rfl
      exact hpid ht.1.symm
    rw [coYieldFound]
    refine Post.ite (fun hd => ?_) fun hd => ?_
    · refine coYieldFail_runs (fun m' h' => .refused ⟨i, hi⟩ rfl ht (.inl ?_) h') hn
      rcases hd with hd | hd | hd
      · exact .inl hd
      · exact absurd hd ht.2
      · exact .inr (.inl hd)
    · simp only [Machine.locked_proc, not_or, Bool.not_eq_true] at hd
      refine Post.ite (fun hs => ?_) fun hs => ?_
      · exact coYieldExchange_block hl hn hpt ht hs hd.1
      · exact coYieldPark_block hl hn hpt ht hd.2.2 hs hd.1
  · refine Post.bind_of_eq (release_eq (by simp) (by simp) (by simp)) ?_
    rw [Machine.section_same hn]
    exact .scan ⟨i, hi⟩ rfl ht rfl rfl

/-! ## A call that is not preempted -/

/-- The next block of a call of `co_yield`. -/
def CoStep (m m' : Machine) : Prop :=
  (∃ pid value, m.pc = .run (.coYield pid value) ∨ ∃ i, m.pc = .run (.findProc pid value i)) ∧
    step m .run = .ok m'

lemma Same.trans (h : Same m₀ m) (h' : Same m m') : Same m₀ m' := by
  unfold Same at *
  rw [h', h]

lemma Same.returned (h : Same m₀ m) (h' : Returned m m') : Returned m₀ m' :=
  ⟨h.trans h'.same, h'.pc⟩

lemma Same.proc (h : Same m m') : m'.proc = m.proc := by rw [h]

lemma Same.switched (h : Same m₀ m) (h' : Switched m m' p t pid value) :
    Switched m₀ m' p t pid value := by
  obtain ⟨hrest, hcaller, htarget, htf, hothers⟩ := h'
  refine ⟨?_, ?_, ?_, ?_, ?_⟩
  · rw [hrest, h]
  · rw [← h.proc]
    exact hcaller
  · rw [← h.proc]
    exact htarget
  · unfold Machine.ParkedOn
    rw [← h.proc]
    exact htf
  · rw [← h.proc]
    exact hothers

lemma step_findProc (hpc : m.pc = .run (.findProc pid value i)) (hcpu : m.cpuProc = some p) :
    step m .run = findProc p pid value i m := by
  simp only [step, hpc, hcpu, stepProc, stepPoint, onRun]

lemma step_coYield (hpc : m.pc = .run (.coYield pid value)) (hcpu : m.cpuProc = some p) :
    step m .run = coYieldEntry p pid value m := by
  simp only [step, hpc, hcpu, stepProc, stepPoint, onRun]

/-- How `find_proc` and the rest of the call end. -/
def Outcome (m : Machine) (p : Slot) (pid value : BitVec 32) (m' : Machine) : Prop :=
  (Refused m p pid ∧ Returned m m') ∨
    (¬Refused m p pid ∧ ∃ t, m.Target pid t ∧ Switched m m' p t pid value)

lemma Same.matches (h : Same m m') : m'.Matches = m.Matches := by
  unfold Machine.Matches
  rw [h.proc]

lemma Same.blocked (h : Same m m') : m'.Blocked = m.Blocked := by
  unfold Machine.Blocked
  rw [h.proc]

/-- The target is the only process that `find_proc` returns. -/
lemma Machine.Target.unique {t' : Slot} (h : m.Target pid t) (h' : m.Target pid t') : t = t' := by
  rcases lt_trichotomy t t' with hlt | heq | hgt
  · exact absurd h.1 (h'.2 t hlt)
  · exact heq
  · exact absurd h'.1 (h.2 t' hgt)

/-- The loop of `find_proc`, by induction on the number of slots that are left. -/
lemma findProc_run (hl : m.locks = []) (hn : m.noff = 0) (hcpu : m.cpuProc = some p)
    (hpos : 0 < pid.toInt) (hpid : pid ≠ (m.proc p).pid) (d : ℕ) : ∀ i m₁, NPROC < i + d →
    i ≤ NPROC → Same m m₁ → m₁.pc = .run (.findProc pid value i) →
    (∀ t : Slot, t.val < i → ¬m.Matches pid t) →
    ∃ m', Relation.ReflTransGen CoStep m₁ m' ∧ Outcome m p pid value m' := by
  induction d with
  | zero =>
    intro i m₁ hlt hle
    omega
  | succ d ih =>
    intro i m₁ hlt hle hsame hpc hno
    have hblock : Runs (Block m₁ p pid value i) (findProc p pid value i m₁) :=
      findProc_block value i (by rw [hsame]; exact hl) (by rw [hsame]; exact hn)
        (by rwa [hsame.proc])
    obtain ⟨m₂, hstep, hb⟩ := hblock.exists_ok
    rw [← step_findProc hpc (by rw [hsame]; exact hcpu)] at hstep
    have hco : CoStep m₁ m₂ := ⟨⟨pid, value, .inr ⟨i, hpc⟩⟩, hstep⟩
    have hfirst : ∀ t : Slot, t.val = i → m₁.Matches pid t → m.Target pid t := by
      intro t hi hmatch
      exact ⟨hsame.matches ▸ hmatch, fun j hj => hno j (by rw [← hi]; exact hj)⟩
    -- the slots below `i` do not match, so a match at `i` is the first one
    cases hb with
    | scan t hi hnot hsame' hpc' =>
      have hlast := t.isLt
      obtain ⟨m', hrun, hout⟩ := ih (i + 1) m₂ (by omega) (by omega) (hsame.trans hsame') hpc' (by
        intro t' ht'
        rcases Nat.lt_succ_iff_lt_or_eq.1 ht' with hlt' | heq
        · exact hno t' hlt'
        · rw [Fin.ext (heq.trans hi.symm), ← hsame.matches]
          exact hnot)
      exact ⟨m', .head hco hrun, hout⟩
    | missing hi hret =>
      refine ⟨m₂, .single hco, .inl ⟨.inr (.inr (.inl fun t => hno t ?_)), hsame.returned hret⟩⟩
      exact lt_of_lt_of_le t.isLt hi
    | refused t hi hmatch hwhy hret =>
      refine ⟨m₂, .single hco, .inl ⟨.inr (.inr (.inr ?_)), hsame.returned hret⟩⟩
      rw [hsame.blocked, hsame.proc] at hwhy
      exact hwhy.imp (fun hb => ⟨t, hfirst t hi hmatch, hb⟩) id
    | switched t hi hmatch hok hpk hsw =>
      have htarget := hfirst t hi hmatch
      refine ⟨m₂, .single hco, .inr ⟨fun href => ?_, t, htarget, hsame.switched hsw⟩⟩
      rw [hsame.blocked] at hok
      rw [hsame.proc] at hpk
      rcases href with h | h | h | ⟨t', ht', h⟩ | h
      · omega
      · exact hpid h
      · exact h t htarget.1
      · rw [← htarget.unique ht'] at h
        exact hok h
      · rw [hpk] at h
        cases h

/-- What a block of `co_yield` does in a reachable state, whatever happened before it, and how a
call that is not preempted ends. -/
structure CoYieldFrame (m : Machine) (p : Slot) : Prop where
  /-- The whole call. -/
  call : ∀ pid value, m.pc = .run (.coYield pid value) →
    ∃ m', Relation.ReflTransGen CoStep m m' ∧ Outcome m p pid value m'
  /-- The block before `find_proc`. -/
  entry : ∀ pid value, m.pc = .run (.coYield pid value) → ∃ m', step m .run = .ok m' ∧
    ((pid.toInt ≤ 0 ∨ pid = (m.proc p).pid) ∧ Returned m m' ∨
      0 < pid.toInt ∧ pid ≠ (m.proc p).pid ∧ Same m m' ∧ m'.pc = .run (.findProc pid value 0))
  /-- A block of `find_proc`. -/
  find : ∀ pid value i, m.pc = .run (.findProc pid value i) →
    ∃ m', step m .run = .ok m' ∧ Block m p pid value i m'

/-- `co_yield` returns -1 and changes nothing exactly if it is refused, and otherwise changes
nothing but what `Switched` says before it switches. -/
theorem coYield_frame (h : Reachable m) (hcpu : m.cpuProc = some p) : CoYieldFrame m p := by
  have hwf := reachable_wf h
  have hquiet : ∀ k, m.pc = .run k → m.locks = [] ∧ m.noff = 0 := by
    intro k hk
    have := hwf.hands
    unfold Hands at this
    rwa [hk] at this
  have hentry : ∀ pid value, m.pc = .run (.coYield pid value) → ∃ m', step m .run = .ok m' ∧
      ((pid.toInt ≤ 0 ∨ pid = (m.proc p).pid) ∧ Returned m m' ∨
        0 < pid.toInt ∧ pid ≠ (m.proc p).pid ∧ Same m m' ∧
          m'.pc = .run (.findProc pid value 0)) := by
    intro pid value hpc
    rw [step_coYield hpc hcpu, coYieldEntry]
    split
    case isTrue hbad => exact ⟨_, rfl, .inl ⟨hbad, rfl, rfl⟩⟩
    case isFalse hgood =>
      rw [not_or, not_le] at hgood
      exact ⟨_, rfl, .inr ⟨hgood.1, hgood.2, rfl, rfl⟩⟩
  refine ⟨fun pid value hpc => ?_, hentry, fun pid value i hpc => ?_⟩
  · obtain ⟨hl, hn⟩ := hquiet _ hpc
    obtain ⟨m₁, hstep, hm₁⟩ := hentry pid value hpc
    have hco : CoStep m m₁ := ⟨⟨pid, value, .inl hpc⟩, hstep⟩
    rcases hm₁ with ⟨hbad, hret⟩ | ⟨hpos, hpid, hsame, hpc₁⟩
    · exact ⟨m₁, .single hco, .inl ⟨hbad.imp id .inl, hret⟩⟩
    · obtain ⟨m', hrun, hout⟩ := findProc_run hl hn hcpu hpos hpid (NPROC + 1) 0 m₁ (by omega)
        (Nat.zero_le _) hsame hpc₁ fun t ht => absurd ht (Nat.not_lt_zero _)
      exact ⟨m', .head hco hrun, hout⟩
  · obtain ⟨hl, hn⟩ := hquiet _ hpc
    have hpid := (hwf.find p pid value i (.inl ⟨hcpu, hpc⟩)).2
    rw [step_findProc hpc hcpu]
    exact (findProc_block value i hl hn hpid).exists_ok

/-- The first process calls `co_yield(2, 10)` while its child is RUNNABLE. -/
theorem coYield_frame_fork :
    let acts : List Act := [.run, .run, .run, .finish 0, .ecall .fork 0 0, .alloc .ok, .alloc .ok,
      .run, .run, .run, .run, .ecall .coYield 2 10]
    (runActs boot acts).pc = .run (.coYield 2 10) ∧ CoYieldFrame (runActs boot acts) 0 :=
  ⟨by decide +kernel, coYield_frame (reachable_runActs _) (by decide +kernel)⟩

end Xv6.Process
