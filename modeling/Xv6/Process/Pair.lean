import Xv6.Process.Peer
import Xv6.Lib.Rendezvous

/-!
# Two processes that `co_yield` to each other

As long as neither of two processes is killed, exits, or yields to a third one, what they
do is a run of the rendezvous of `Xv6.Lib.Rendezvous`, whatever the scheduler, the timer
and the other processes do in between. The mailbox is `trapframe->a0`, the offer is
`trapframe->a1`, and the empty mailbox is `-1`.

* `pair_simulates`: one step of the machine is at most one step of the rendezvous;
* `pair_alternates`: after a first exchange the two processes take turns;
* `pair_streams`: which results each of them gets.
-/

namespace Xv6.Process

open Xv6.Lib
open Xv6.Lib.Rendezvous (Side Mode)

/-! ## Streams of a process -/

/-- The value passed by slot `p` in a handoff. -/
def Event.arg? (p : Slot) : Event → Option (BitVec 32)
  | .park q _ _ _ v => if q = p then some v else none
  | .exchange q _ _ _ v => if q = p then some v else none
  | _ => none

/-- The value returned to slot `p` from a handoff. -/
def Event.result? (p : Slot) : Event → Option (BitVec 32)
  | .ret q _ _ r _ => if q = p then some r else none
  | _ => none

/-- The side that makes a handoff, if it is slot `a` or slot `b`. -/
def Event.turn? (a b : Slot) : Event → Option Bool
  | .park q _ _ _ _ => if q = a then some true else if q = b then some false else none
  | .exchange q _ _ _ _ => if q = a then some true else if q = b then some false else none
  | _ => none

/-- The values that slot `p` passed in its handoffs. -/
def args (p : Slot) (tr : List Event) : List (BitVec 32) := tr.filterMap (Event.arg? p)

/-- The values that slot `p` got from its handoffs. -/
def results (p : Slot) (tr : List Event) : List (BitVec 32) := tr.filterMap (Event.result? p)

/-- Who makes the handoffs of slots `a` and `b`. -/
def turns (a b : Slot) (tr : List Event) : List Bool := tr.filterMap (Event.turn? a b)

/-! ## The run condition -/

/-- A step that does not disturb the pair: afterwards neither process is killed or a zombie,
and if one of them has found the target of a `co_yield`, it is the other one. -/
structure Undisturbed (a b : Slot) (m m' : Machine) : Prop where
  next : Next m m'
  killed : (m'.proc a).killed = false ∧ (m'.proc b).killed = false
  exited : (m'.proc a).state ≠ .zombie ∧ (m'.proc b).state ≠ .zombie
  third : ∀ t : Slot, ∀ pid v, (m.proc t).pid = pid → (m.proc t).state ≠ .unused →
    (m.Active a (.findProc pid v t) → t = b) ∧ (m.Active b (.findProc pid v t) → t = a)

/-- Slot `a` or slot `b`. -/
def pick (a b : Slot) (x : Bool) : Slot := if x then a else b

/-- Process `p` is not suspended in `co_yield`, and has not exited. -/
structure Free (m : Machine) (p : Slot) : Prop where
  context : ∀ t pid v, (m.proc p).context = .coYield t pid v → ∃ k, m.Active p k
  alive : (m.proc p).state ≠ .unused ∧ (m.proc p).state ≠ .zombie

/-- The state of process `p`, whose peer is in slot `q`, as a side of the rendezvous. -/
def SideOk (m : Machine) (p q : Slot) (sd : Side (BitVec 32)) : Prop :=
  match sd.mode with
  | .out => Free m p
  | .waiting => ∃ v, m.Parked p q (m.proc q).pid v ∧
      (m.proc p).trapframe = ⟨sd.box.signExtend 64, sd.offer.signExtend 64⟩
  | .returning => m.pc = .swtchProc p ∧ (∃ pid v, (m.proc p).context = .coYield q pid v) ∧
      (m.proc p).trapframe.a0 = sd.box.signExtend 64

/-- The pair of processes in slots `a` and `b` is in state `s` of the rendezvous, after the
events `new`. -/
structure Tracks (a b : Slot) (base : List Event) (m : Machine) (new : List Event)
    (s : Rendezvous.Pair (BitVec 32)) : Prop where
  trace : m.trace = base ++ new
  args : ∀ x, (s.side x).args = args (pick a b x) new
  results : ∀ x, (s.side x).results = results (pick a b x) new
  turns : s.turns = turns a b new
  side : ∀ x, SideOk m (pick a b x) (pick a b !x) (s.side x)

/-! ## Steps that do not concern a side -/

/-- The event is a handoff by slot `p`, resumes it, or returns to it. -/
def Event.Concerns (p : Slot) : Event → Prop
  | .fail _ _ _ _ => False
  | .park q _ _ _ _ => q = p
  | .exchange q t _ _ _ => q = p ∨ t = p
  | .ret q _ _ _ _ => q = p

/-- The step records no event that concerns slot `p`. -/
def Quiet (m m' : Machine) (p : Slot) : Prop :=
  ∀ e, m'.trace = m.trace ++ [e] → ¬ e.Concerns p

section Steps

variable {m m' : Machine} {p q : Slot} {sd : Side (BitVec 32)} {k : Point}

lemma SideOk.alive (hok : SideOk m p q sd) (h : Wf m) :
    (m.proc p).state ≠ .unused ∧ (m.proc p).state ≠ .zombie := by
  rw [SideOk] at hok
  split at hok
  · exact hok.alive
  · obtain ⟨v, hp, -⟩ := hok
    simp [hp.2.2.2.1]
  · simp [(h.atSwtch p hok.1).2]

/-- A process stays outside of `co_yield` as long as it does not call it. -/
lemma Free.step (hf : Free m p) (h : Wf m) (he : Effect m m') (hz : (m'.proc p).state ≠ .zombie)
    (hq : Quiet m m' p) : Free m' p := by
  have hu : (m'.proc p).state ≠ .unused := fun hu => by
    rcases unused_back h he hu with hu | hz
    · exact hf.alive.1 hu
    · exact hf.alive.2 hz
  refine ⟨fun t pid v hctx => ?_, hu, hz⟩
  have hold := hf.context t pid v
  have := h.atSwtch
  have := h.idle
  simp only [Machine.Active] at hold ⊢
  cases he with
  | park r _ _ _ _ hcpu _ _ _ _ _ _ _ htr _ ht ho =>
    have hpr : p ≠ r := fun hpr => hq _ htr hpr.symm
    grind
  | exchange r _ _ _ _ hcpu _ _ _ _ _ _ _ _ htr _ ht ho =>
    have hpr : p ≠ r := fun hpr => hq _ htr (Or.inl hpr.symm)
    grind
  | _ => grind [Machine.InScheduler]

lemma SideOk.frame (hok : SideOk m p q sd) (h : Wf m) (he : Effect m m')
    (hk : (m'.proc p).killed = false) (hz : (m'.proc p).state ≠ .zombie)
    (hpid : (m'.proc q).pid = (m.proc q).pid) (hq : Quiet m m' p) : SideOk m' p q sd := by
  rw [SideOk] at hok ⊢
  split at hok
  · exact hok.step h he hz hq
  · obtain ⟨v, hp, htf⟩ := hok
    rcases hp.step h he with ⟨hp', hn⟩ | ⟨-, -, -, w, htr⟩ | ⟨-, hkill, -⟩
    · exact ⟨v, hpid ▸ hp', hn.same.2.2.2.2.trans htf⟩
    · exact absurd (Or.inr rfl) (hq _ htr)
    · simp [hk] at hkill
  · -- the only step from here returns to `p`
    obtain ⟨hpc, ⟨pid, v, hctx⟩, -⟩ := hok
    cases he with
    | coResume r _ _ _ _ hpc' _ _ _ htr =>
      obtain rfl : p = r := by simpa [hpc] using hpc'
      exact absurd rfl (hq _ htr)
    | resume r _ _ hpc' _ _ _ hres =>
      obtain rfl : p = r := by simpa [hpc] using hpc'
      simp [hctx, Ctx.Resumes] at hres
    | _ => grind [Machine.InScheduler]

/-- A process that executes its code is in no handoff. -/
lemma SideOk.out_of_active (hok : SideOk m p q sd) (hact : m.Active p k) : sd.mode = .out := by
  rw [SideOk] at hok
  split at hok
  · assumption
  · obtain ⟨v, hp, -⟩ := hok
    exact absurd hact.1 hp.1
  · simp [hact.2] at hok

/-- Outside `swtch`, a process that does not sleep on a `co_chan` is in no handoff. -/
lemma SideOk.out_of_state (hok : SideOk m p q sd) (hpc : m.pc = .run k)
    (hst : (m.proc p).state ≠ .sleeping) : sd.mode = .out := by
  rw [SideOk] at hok
  split at hok
  · assumption
  · obtain ⟨v, hp, -⟩ := hok
    exact absurd hp.2.2.2.1 hst
  · simp [hpc] at hok

/-- A process that sleeps on a `co_chan` waits in a handoff with its peer. -/
lemma SideOk.waiting_of_chan (hok : SideOk m p q sd) (h : Wf m) {r : Slot} (hact : m.Active r k)
    (hrp : r ≠ p) (hst : (m.proc p).state = .sleeping) (hch : (m.proc p).chan = .coChan r)
    (hk : (m.proc p).killed = false) : sd.mode = .waiting ∧ r = q := by
  obtain ⟨x, v, hp⟩ := h.parked_of_chan hact.1 hrp hst hch hk
  rw [SideOk] at hok
  split at hok
  · obtain ⟨k', hk'⟩ := hok.context r x v hp.2.1
    exact absurd hk'.1 hp.1
  · obtain ⟨v', hp', -⟩ := hok
    refine ⟨by assumption, ?_⟩
    simpa [hch] using hp'.2.2.2.2
  · simp [hact.2] at hok

/-- A process that is resumed inside `co_yield` is about to return from a handoff. -/
lemma SideOk.returning_of_resumed (hok : SideOk m p q sd) (h : Wf m) {t : Slot}
    {pid v : BitVec 32} (hpc : m.pc = .swtchProc p)
    (hctx : (m.proc p).context = .coYield t pid v) : sd.mode = .returning := by
  rw [SideOk] at hok
  split at hok
  · obtain ⟨k, -, hk⟩ := hok.context t pid v hctx
    rw [hpc] at hk
    cases hk
  · obtain ⟨v', hp, -⟩ := hok
    exact absurd (h.atSwtch p hpc).1 hp.1
  · assumption

/-- A side that does not wait is not parked. -/
lemma SideOk.not_parked (hok : SideOk m p q sd) (h : Wf m) (hmode : sd.mode ≠ .waiting)
    (t : Slot) (pid v : BitVec 32) : ¬ m.Parked p t pid v := by
  intro hp
  rw [SideOk] at hok
  split at hok
  · obtain ⟨k, hk⟩ := hok.context t pid v hp.2.1
    exact hp.1 hk.1
  · exact hmode (by assumption)
  · exact hp.1 (h.atSwtch p hok.1).1

end Steps

/-! ## The simulation -/

section Simulation

variable {a b : Slot} {base new es : List Event} {m m' : Machine} {s : Rendezvous.Pair (BitVec 32)}

lemma signExtend_eq_minusOne (w : BitVec 32) : w.signExtend 64 = minusOne ↔ w = -1 := by
  constructor
  · intro h
    have := congrArg (BitVec.setWidth 32) h
    rwa [setWidth_signExtend] at this
  · rintro rfl
    decide

lemma pick_ne (hab : a ≠ b) (x : Bool) : pick a b x ≠ pick a b !x := by
  cases x <;> simp [pick, hab, hab.symm]

lemma pick_cases (a b p : Slot) : (∃ x, p = pick a b x) ∨ ∀ x, p ≠ pick a b x := by
  by_cases h : ∃ x, p = pick a b x
  · exact Or.inl h
  · exact Or.inr fun x hx => h ⟨x, hx⟩

lemma turn?_eq (hab : a ≠ b) (x : Bool) : (if pick a b x = a then some true else
    if pick a b x = b then some false else none) = some x := by
  cases x <;> simp [pick, hab.symm]

/-- What `Undisturbed` says of each side. -/
lemma Undisturbed.side (hu : Undisturbed a b m m') (x : Bool) :
    (m'.proc (pick a b x)).killed = false ∧ (m'.proc (pick a b x)).state ≠ .zombie ∧
      ∀ t : Slot, ∀ pid v, m.Active (pick a b x) (.findProc pid v t) → (m.proc t).pid = pid →
        (m.proc t).state ≠ .unused → t = pick a b !x := by
  cases x
  · exact ⟨hu.killed.2, hu.exited.2, fun t pid v hact hpid hst =>
      (hu.third t pid v hpid hst).2 hact⟩
  · exact ⟨hu.killed.1, hu.exited.1, fun t pid v hact hpid hst =>
      (hu.third t pid v hpid hst).1 hact⟩

/-- The pids of both processes stay the same. -/
lemma Tracks.pid_eq (hT : Tracks a b base m new s) (h : Wf m) (he : Effect m m') (x : Bool) :
    (m'.proc (pick a b x)).pid = (m.proc (pick a b x)).pid :=
  pid_stays h he ((hT.side x).alive h).1 ((hT.side x).alive h).2

/-- A side that the step does not concern. -/
lemma Tracks.side_frame (hT : Tracks a b base m new s) (h : Wf m) (hu : Undisturbed a b m m')
    (he : Effect m m') (x : Bool) (htr : m'.trace = m.trace ++ es)
    (hes : ∀ e ∈ es, ¬ e.Concerns (pick a b x)) :
    SideOk m' (pick a b x) (pick a b !x) (s.side x) := by
  obtain ⟨hk, hz, -⟩ := hu.side x
  refine (hT.side x).frame h he hk hz (hT.pid_eq h he !x) fun e htr' => ?_
  rw [htr, List.append_cancel_left_eq] at htr'
  exact hes e (by simp [htr'])

lemma Event.concerns_of_arg {e : Event} {p : Slot} (h : ¬ e.Concerns p) :
    e.arg? p = none ∧ e.result? p = none := by
  cases e <;> simp_all [Event.Concerns, Event.arg?, Event.result?]

lemma Event.turn?_none {e : Event} (h : ∀ x, ¬ e.Concerns (pick a b x)) : e.turn? a b = none := by
  have ha := h true
  have hb := h false
  cases e <;> simp_all [Event.Concerns, Event.turn?, pick]

/-- A step that concerns neither process. -/
lemma Tracks.stutter (hT : Tracks a b base m new s) (h : Wf m) (hu : Undisturbed a b m m')
    (he : Effect m m') (htr : m'.trace = m.trace ++ es)
    (hes : ∀ e ∈ es, ∀ x, ¬ e.Concerns (pick a b x)) : Tracks a b base m' (new ++ es) s where
  trace := by rw [htr, hT.trace, List.append_assoc]
  args x := by
    have : es.filterMap (Event.arg? (pick a b x)) = [] :=
      List.filterMap_eq_nil_iff.mpr fun e he => (Event.concerns_of_arg (hes e he x)).1
    simp [hT.args, Process.args, this]
  results x := by
    have : es.filterMap (Event.result? (pick a b x)) = [] :=
      List.filterMap_eq_nil_iff.mpr fun e he => (Event.concerns_of_arg (hes e he x)).2
    simp [hT.results, Process.results, this]
  turns := by
    have : es.filterMap (Event.turn? a b) = [] :=
      List.filterMap_eq_nil_iff.mpr fun e he => Event.turn?_none (hes e he)
    simp [hT.turns, Process.turns, this]
  side x := hT.side_frame h hu he x htr fun e he => hes e he x

/-- The streams after one more event. -/
lemma Tracks.lists (hT : Tracks a b base m new s) {e : Event} {s' : Rendezvous.Pair (BitVec 32)}
    (htr : m'.trace = m.trace ++ [e])
    (ha : ∀ x, (s'.side x).args = (s.side x).args ++ (e.arg? (pick a b x)).toList)
    (hr : ∀ x, (s'.side x).results = (s.side x).results ++ (e.result? (pick a b x)).toList)
    (ht : s'.turns = s.turns ++ (e.turn? a b).toList)
    (hside : ∀ x, SideOk m' (pick a b x) (pick a b !x) (s'.side x)) :
    Tracks a b base m' (new ++ [e]) s' where
  trace := by rw [htr, hT.trace, List.append_assoc]
  args x := by
    rw [ha, hT.args, Process.args, Process.args, List.filterMap_append]
    cases h : e.arg? (pick a b x) <;> simp [h]
  results x := by
    rw [hr, hT.results, Process.results, Process.results, List.filterMap_append]
    cases h : e.result? (pick a b x) <;> simp [h]
  turns := by
    rw [ht, hT.turns, Process.turns, Process.turns, List.filterMap_append]
    cases h : e.turn? a b <;> simp [h]
  side := hside

/-- The caller of `co_yield`, once it is parked on `t`. -/
lemma parked_of_eq {p t : Slot} {pid v : BitVec 32} {x : Proc} {tf : Trapframe} (hpt : p ≠ t)
    (hcpu : m.cpuProc = some t) (hk : x.killed = false) (hp : m.proc p = { x with
      state := .sleeping, chan := .coChan t, context := .coYield t pid v, trapframe := tf }) :
    m.Parked p t pid v := by
  refine ⟨?_, ?_, ?_, ?_, ?_⟩
  · simpa [hcpu] using hpt.symm
  all_goals rw [hp]
  exact hk

/-- One step of the machine that does not disturb the pair is a step of the rendezvous, or
none. -/
lemma pair_simulates (hab : a ≠ b) (hT : Tracks a b base m new s) (h : Wf m)
    (hu : Undisturbed a b m m') : ∃ new' s', Tracks a b base m' new' s' ∧
      (s' = s ∨ Rendezvous.Step (-1) s s') := by
  have he := (h.next hu.next).2
  have hquiet : ∀ es, m'.trace = m.trace ++ es → (∀ e ∈ es, ∀ x, ¬ e.Concerns (pick a b x)) →
      Tracks a b base m' (new ++ es) s := fun es => hT.stutter h hu he
  have he' := he
  cases he' with
  | park p t pid v hpc hcpu hpt hpid hst htk hpk hpc' hcpu' htr hp ht ho =>
    rcases pick_cases a b p with ⟨x, rfl⟩ | hno
    · have hne := pick_ne hab x
      obtain rfl : t = pick a b !x :=
        (hu.side x).2.2 t pid v ⟨hcpu, hpc⟩ hpid (by simp [hst])
      have hx : (s.side x).mode = .out := (hT.side x).out_of_active ⟨hcpu, hpc⟩
      have hy : (s.side !x).mode = .out := (hT.side !x).out_of_state hpc (by simp [hst])
      -- the peer is RUNNABLE: the caller parks, and no value passes yet
      refine ⟨_, s.park x v (-1), hT.lists htr ?_ ?_ ?_ ?_, Or.inr (.park x v hx hy)⟩
      · exact Rendezvous.both x (by simp [Event.arg?]) (by simp [Event.arg?, hne])
      · exact Rendezvous.both x (by simp [Event.result?]) (by simp [Event.result?])
      · simp [Rendezvous.Pair.park, Event.turn?, turn?_eq hab]
      · refine Rendezvous.both x ?_ ?_
        · rw [Rendezvous.park_self]
          refine ⟨v, ?_, by rw [hp]; rfl⟩
          rw [show (m'.proc (pick a b !x)).pid = pid by rw [ht, hpid]]
          exact parked_of_eq hne hcpu' hpk hp
        · rw [Rendezvous.park_peer]
          exact hT.side_frame h hu he (!x) htr (by simpa [Event.Concerns] using hne)
    · refine ⟨_, s, hquiet _ htr ?_, Or.inl rfl⟩
      simpa [Event.Concerns] using hno
  | exchange p t pid v hpc hcpu hpt hpid hst hch htk hpk hpc' hcpu' htr hp ht ho =>
    rcases pick_cases a b p with ⟨x, rfl⟩ | hno
    · have hne := pick_ne hab x
      obtain rfl : t = pick a b !x :=
        (hu.side x).2.2 t pid v ⟨hcpu, hpc⟩ hpid (by simp [hst])
      have hx : (s.side x).mode = .out := (hT.side x).out_of_active ⟨hcpu, hpc⟩
      have hy : (s.side !x).mode = .waiting :=
        ((hT.side !x).waiting_of_chan h ⟨hcpu, hpc⟩ hpt hst hch htk).1
      have hyok := hT.side !x
      simp only [SideOk, hy] at hyok
      obtain ⟨v', hyp, hytf⟩ := hyok
      -- the peer is parked on the caller, so the two values pass
      refine ⟨_, s.exchange x v (-1), hT.lists htr ?_ ?_ ?_ ?_, Or.inr (.exchange x v hx hy)⟩
      · exact Rendezvous.both x (by simp [Event.arg?]) (by simp [Event.arg?, hne])
      · exact Rendezvous.both x (by simp [Event.result?]) (by simp [Event.result?])
      · simp [Rendezvous.Pair.exchange, Event.turn?, turn?_eq hab]
      · refine Rendezvous.both x ?_ ?_
        · rw [Rendezvous.exchange_self]
          refine ⟨v, ?_, by rw [hp, hytf]⟩
          rw [show (m'.proc (pick a b !x)).pid = pid by rw [ht, hpid]]
          exact parked_of_eq hne hcpu' hpk hp
        · rw [Rendezvous.exchange_peer]
          refine ⟨hpc', ⟨(m.proc (pick a b !!x)).pid, v', ?_⟩, ?_⟩
          · rw [ht]
            exact hyp.2.1
          · rw [ht, hytf]
            simp only [signExtend_eq_minusOne]
            split <;> rfl
    · refine ⟨_, s, hquiet _ htr ?_, Or.inl rfl⟩
      have hnt : ∀ x, t ≠ pick a b x := by
        rintro x rfl
        exact hno (!x) ((hT.side x).waiting_of_chan h ⟨hcpu, hpc⟩ hpt hst hch htk).2
      simp [Event.Concerns, hno, hnt]
  | coResume p t pid v r hpc hctx hpc' hcpu htr hp ho =>
    rcases pick_cases a b p with ⟨x, rfl⟩ | hno
    · have hne := pick_ne hab x
      have hx : (s.side x).mode = .returning := (hT.side x).returning_of_resumed h hpc hctx
      have hxok := hT.side x
      simp only [SideOk, hx] at hxok
      refine ⟨_, s.ret x, hT.lists htr ?_ ?_ ?_ ?_, Or.inr (.ret x hx)⟩
      · exact Rendezvous.both x (by simp [Event.arg?]) (by simp [Event.arg?])
      · refine Rendezvous.both x ?_ (by simp [Event.result?, hne])
        simp [Event.result?, hxok.2.2, setWidth_signExtend]
      · simp [Rendezvous.Pair.ret, Event.turn?]
      · refine Rendezvous.both x ?_ ?_
        · rw [Rendezvous.ret_self]
          refine ⟨fun _ _ _ _ => ⟨_, hcpu.trans (h.atSwtch _ hpc).1, hpc'⟩, ?_⟩
          simp [hp, (h.atSwtch _ hpc).2]
        · rw [Rendezvous.ret_peer]
          exact hT.side_frame h hu he (!x) htr (by simpa [Event.Concerns] using hne)
    · refine ⟨_, s, hquiet _ htr ?_, Or.inl rfl⟩
      simpa [Event.Concerns] using hno
  | fail p _ pid v _ _ _ _ _ htr =>
    exact ⟨_, s, hquiet _ htr (by simp [Event.Concerns]), Or.inl rfl⟩
  | _ =>
    have hsame : m'.trace = m.trace := by assumption
    exact ⟨_, s, hquiet [] (by simpa using hsame) (by simp), Or.inl rfl⟩

/-- A run of the machine that does not disturb the pair is a run of the rendezvous. -/
lemma pair_runs (hab : a ≠ b) (hT : Tracks a b base m new s) (h : Wf m)
    (hrun : Relation.ReflTransGen (Undisturbed a b) m m') :
    ∃ new' s', Tracks a b base m' new' s' ∧ Relation.ReflTransGen (Rendezvous.Step (-1)) s s' := by
  have hboth : Wf m' ∧ ∃ new' s', Tracks a b base m' new' s' ∧
      Relation.ReflTransGen (Rendezvous.Step (-1)) s s' := by
    refine preserved (I := fun m' => Wf m' ∧ ∃ new' s', Tracks a b base m' new' s' ∧
      Relation.ReflTransGen (Rendezvous.Step (-1)) s s') ?_ ⟨h, new, s, hT, .refl⟩ hrun
    rintro m₁ m₂ ⟨h₁, new₁, s₁, hT₁, hs₁⟩ hu
    obtain ⟨new₂, s₂, hT₂, rfl | hs₂⟩ := pair_simulates hab hT₁ h₁ hu
    · exact ⟨h₁.step (h₁.next hu.next), new₂, s₂, hT₂, hs₁⟩
    · exact ⟨h₁.step (h₁.next hu.next), new₂, s₂, hT₂, hs₁.tail hs₂⟩
  exact hboth.2

end Simulation

/-! ## Alternation -/

/-- If `p` is in `find_proc` for the pid of slot `q`, it has not passed slot `q`. -/
def NotPast (m : Machine) (p q : Slot) : Prop :=
  ∀ v i, m.At p (.findProc (m.proc q).pid v i) → i ≤ q

lemma NotPast.step {m m' : Machine} {p q : Slot} (hn : NotPast m p q) (h : Wf m)
    (he : Effect m m') (hu : (m.proc q).state ≠ .unused) (hz : (m.proc q).state ≠ .zombie) :
    NotPast m' p q := by
  intro v i hat
  rw [pid_stays h he hu hz] at hat
  rcases at_back h he hat with hat | ⟨hcpu, hpc'⟩
  · exact hn v i hat
  · have hnv := hn v
    have := h.atSwtch
    simp only [Machine.At, Machine.Active] at hnv
    cases he with
    | scan p' t pid w hpc _ ht hpc'' =>
      -- the slot that `find_proc` passes is not the one it looks for
      rw [hpc''] at hpc'
      cases hpc'
      have hle : (t : ℕ) ≤ q := hnv t (Or.inl ⟨hcpu, hpc⟩)
      have hne : t ≠ q := by
        rintro rfl
        rcases ht with ht | ht
        · exact ht rfl
        · exact hu ht
      have : (t : ℕ) ≠ q := fun heq => hne (Fin.ext heq)
      omega
    | _ => grind [Machine.InScheduler, Point.fork?]

section Alternation

variable {a b : Slot} {m₀ m m' : Machine} {new : List Event}
  {s₀ s : Rendezvous.Pair (BitVec 32)}

/-- The pids of the pair are proper and different. -/
structure PidsOk (a b : Slot) (m : Machine) : Prop where
  pos : ∀ x, 0 < (m.proc (pick a b x)).pid.toInt
  ne : ∀ x, (m.proc (pick a b x)).pid ≠ (m.proc (pick a b !x)).pid

/-- While its peer waits for it, a call to the peer does not fail. -/
lemma call_succeeds (hT : Tracks a b m₀.trace m new s)
    (hu : Undisturbed a b m m') (he : Effect m m') {y : Bool} (hturn : Rendezvous.Turn s y)
    (hpast : ∀ x, NotPast m (pick a b x) (pick a b !x)) (hpids : PidsOk a b m) (x : Bool)
    (w : BitVec 32) : m'.trace ≠ m.trace ++ [.fail (pick a b x) (m.proc (pick a b x)).pid
      (m.proc (pick a b !x)).pid w] := by
  intro hev
  cases he with
  | fail p k pid v hpc hcpu why _ _ htr hproc =>
    rw [htr, List.append_cancel_left_eq, List.singleton_inj] at hev
    simp only [Event.fail.injEq] at hev
    obtain ⟨rfl, -, rfl, rfl⟩ := hev
    have hx : (s.side x).mode = .out := (hT.side x).out_of_active ⟨hcpu, hpc⟩
    -- the caller is outside a handoff, so the peer is the one that waits
    obtain rfl : y = !x := by
      rcases Rendezvous.eq_or_eq_not y x with rfl | rfl
      · simp [hturn.waits] at hx
      · rfl
    have hpeer := hT.side !x
    simp only [SideOk, hturn.waits, Bool.not_not] at hpeer
    obtain ⟨v', ⟨-, -, hk, hst, hch⟩, -⟩ := hpeer
    cases why with
    | badPid hbad =>
      rcases hbad with hneg | hself
      · exact absurd (hpids.pos !x) (by omega)
      · exact hpids.ne x hself.symm
    | notFound i hi =>
      have := hpast x v i (Or.inl ⟨hcpu, hpc⟩)
      exact hi (by omega)
    | found t hpid htu hbad =>
      obtain rfl : t = pick a b !x := (hu.side x).2.2 t _ _ ⟨hcpu, hpc⟩ hpid htu
      have hkx : (m.proc (pick a b x)).killed = false := by
        rw [← hproc]
        exact (hu.side x).1
      simp [hk, hst, hch, hkx] at hbad
  | park _ _ _ _ _ _ _ _ _ _ _ _ _ htr => simp [htr] at hev
  | exchange _ _ _ _ _ _ _ _ _ _ _ _ _ _ htr => simp [htr] at hev
  | coResume _ _ _ _ _ _ _ _ _ htr => simp [htr] at hev
  | _ =>
    have hsame : m'.trace = m.trace := by assumption
    simp [hsame] at hev

/-- What holds of a pair after a first exchange. -/
structure Engaged (a b : Slot) (m₀ : Machine) (s₀ : Rendezvous.Pair (BitVec 32)) (m : Machine)
    (new : List Event) (s : Rendezvous.Pair (BitVec 32)) : Prop where
  wf : Wf m
  tracks : Tracks a b m₀.trace m new s
  run : Relation.ReflTransGen (Rendezvous.Step (-1)) s₀ s
  turn : ∃ y, Rendezvous.Turn s y
  notPast : ∀ x, NotPast m (pick a b x) (pick a b !x)
  pid : ∀ x, (m.proc (pick a b x)).pid = (m₀.proc (pick a b x)).pid
  noFail : ∀ x w, .fail (pick a b x) (m₀.proc (pick a b x)).pid (m₀.proc (pick a b !x)).pid w ∉ new
  offered : ∀ x, ∀ v ∈ args (pick a b x) new,
    ∃ n, Offered m.trace (m₀.proc (pick a b x)).pid n v

/-- A step records at most one event. -/
lemma trace_step (he : Effect m m') : m'.trace = m.trace ∨ ∃ e, m'.trace = m.trace ++ [e] := by
  cases he <;> grind

/-- A handoff is recorded with the pid of its caller. -/
lemma offered_of_arg (he : Effect m m') {e : Event} (htr : m'.trace = m.trace ++ [e]) {p : Slot}
    {v : BitVec 32} (hv : e.arg? p = some v) : ∃ n, Offered m'.trace (m.proc p).pid n v := by
  have hev : ∀ e', m'.trace = m.trace ++ [e'] → e = e' := by
    intro e' htr'
    rw [htr, List.append_cancel_left_eq, List.singleton_inj] at htr'
    exact htr'
  cases he with
  | park q t pid w _ _ _ _ _ _ _ _ _ htr' =>
    obtain rfl := hev _ htr'
    obtain ⟨rfl, rfl⟩ : q = p ∧ w = v := by simpa [Event.arg?] using hv
    exact ⟨pid, q, t, Or.inl (by simp [htr'])⟩
  | exchange q t pid w _ _ _ _ _ _ _ _ _ _ htr' =>
    obtain rfl := hev _ htr'
    obtain ⟨rfl, rfl⟩ : q = p ∧ w = v := by simpa [Event.arg?] using hv
    exact ⟨pid, q, t, Or.inr (by simp [htr'])⟩
  | fail _ _ _ _ _ _ _ _ _ htr' =>
    obtain rfl := hev _ htr'
    cases hv
  | coResume _ _ _ _ _ _ _ _ _ htr' =>
    obtain rfl := hev _ htr'
    cases hv
  | _ =>
    have hsame : m'.trace = m.trace := by assumption
    simp [hsame] at htr

/-- The two processes go on exchanging values, as the rendezvous does. -/
lemma Engaged.step (hab : a ≠ b) (hpids : PidsOk a b m₀) (hE : Engaged a b m₀ s₀ m new s)
    (hu : Undisturbed a b m m') : ∃ new' s', Engaged a b m₀ s₀ m' new' s' := by
  obtain ⟨h, hT, hrun, ⟨y, hturn⟩, hpast, hpid, hno, hoff⟩ := hE
  have hd := h.next hu.next
  have hpids' : PidsOk a b m := ⟨fun x => hpid x ▸ hpids.pos x, fun x => by
    rw [hpid, hpid]
    exact hpids.ne x⟩
  have hcall := call_succeeds hT hu hd.2 hturn hpast hpids'
  obtain ⟨new', s', hT', hs'⟩ := pair_simulates hab hT h hu
  have hnew : new' = new ∨ ∃ e, new' = new ++ [e] ∧ m'.trace = m.trace ++ [e] := by
    rcases trace_step hd.2 with htr | ⟨e, htr⟩
    · rw [hT'.trace, hT.trace, List.append_cancel_left_eq] at htr
      exact Or.inl htr
    · refine Or.inr ⟨e, ?_, htr⟩
      rw [hT'.trace, hT.trace, List.append_assoc, List.append_cancel_left_eq] at htr
      exact htr
  refine ⟨new', s', h.step hd, hT', ?_, ?_, fun x => ?_, fun x => ?_, fun x w hmem => ?_,
    fun x v hv => ?_⟩
  · rcases hs' with rfl | hs'
    · exact hrun
    · exact hrun.tail hs'
  · rcases hs' with rfl | hs'
    · exact ⟨y, hturn⟩
    · exact hturn.step hs'
  · exact (hpast x).step h hd.2 ((hT.side !x).alive h).1 ((hT.side !x).alive h).2
  · rw [hT.pid_eq h hd.2, hpid]
  · rcases hnew with rfl | ⟨e, rfl, htr⟩
    · exact hno x w hmem
    · rw [List.mem_append, List.mem_singleton] at hmem
      rcases hmem with hmem | rfl
      · exact hno x w hmem
      · exact hcall x w (by rw [htr, hpid, hpid])
  · have hold : v ∈ args (pick a b x) new →
        ∃ n, Offered m'.trace (m₀.proc (pick a b x)).pid n v := by
      intro hv
      obtain ⟨n, ho⟩ := hoff x v hv
      exact ⟨n, ho.mono (trace_grows hd.2)⟩
    rcases hnew with rfl | ⟨e, rfl, htr⟩
    · exact hold hv
    · rw [args, List.filterMap_append, List.mem_append] at hv
      rcases hv with hv | hv
      · exact hold hv
      · rw [← hpid]
        exact offered_of_arg hd.2 htr (by simpa using hv)

/-- Process `b` has called `co_yield` on process `a` and is parked; process `a` calls it on
process `b` with `v`, which takes the machine from `m₀` to `m`. -/
structure Exchanged (a b : Slot) (m₀ m : Machine) (v : BitVec 32) : Prop where
  reachable : Reachable m₀
  next : Next m₀ m
  event : m.trace = m₀.trace ++ [.exchange a b (m₀.proc a).pid (m₀.proc b).pid v]
  call : ∃ v', (m₀.proc b).context = .coYield a (m₀.proc a).pid v'

/-- The values that the side has passed, by its pid. -/
def PassedBy (a b : Slot) (m₀ : Machine) (tr : List Event) (x : Bool) (v : BitVec 32) : Prop :=
  ∃ n, Offered tr (m₀.proc (pick a b x)).pid n v

lemma Exchanged.start {v : BitVec 32} (hx : Exchanged a b m₀ m v) :
    a ≠ b ∧ PidsOk a b m₀ ∧ ∃ s₀,
      Engaged a b m₀ s₀ m [.exchange a b (m₀.proc a).pid (m₀.proc b).pid v] s₀ ∧
      Rendezvous.Passed (PassedBy a b m₀ m.trace) (-1) s₀ := by
  obtain ⟨hreach, hnext, hev, v', hcall⟩ := hx
  have h := reachable_wf hreach
  have hd := h.next hnext
  have htr := trace_grows hd.2
  obtain ⟨hwf', he⟩ : Wf m ∧ Effect m₀ m := ⟨h.step hd, hd.2⟩
  have he' := he
  cases he' with
  | exchange p t pid w hpc hcpu hpt hpid hst hch htk hpk hpc' hcpu' htr' hp ht ho =>
    rw [htr', List.append_cancel_left_eq, List.singleton_inj] at hev
    obtain ⟨rfl, rfl, -, rfl, rfl⟩ := Event.exchange.inj hev
    obtain ⟨x', v'', hpark⟩ := h.parked_of_chan hcpu hpt hst hch htk
    obtain ⟨-, rfl, rfl⟩ := Ctx.coYield.inj (hpark.2.1.symm.trans hcall)
    obtain ⟨hpos, ha1, hoff, ha0⟩ := reachable_ledger hreach t p _ _ hpark
    obtain ⟨hpos', hne⟩ := h.find p _ _ _ (Or.inl ⟨hcpu, hpc⟩)
    -- the mailbox of the process that was parked
    obtain ⟨w₀, hw₀, hw₀V⟩ : ∃ w₀ : BitVec 32,
        (m₀.proc t).trapframe.a0 = w₀.signExtend 64 ∧
          (w₀ ≠ -1 → ∃ n, Offered m₀.trace (m₀.proc p).pid n w₀) := by
      rcases ha0 with ha0 | ⟨w₀, n, hw₀, ho⟩
      · exact ⟨-1, ha0.trans ((signExtend_eq_minusOne _).mpr rfl).symm, fun h => absurd rfl h⟩
      · exact ⟨w₀, hw₀, fun _ => ⟨n, ho⟩⟩
    have hpids : PidsOk p t m₀ :=
      ⟨Rendezvous.both true hpos hpos', Rendezvous.both true hne.symm hne⟩
    have hgive : Offered m.trace (m₀.proc p).pid (m₀.proc t).pid w :=
      ⟨p, t, Or.inr (by simp [htr'])⟩
    refine ⟨hpt, hpids, ⟨fun x => if x then ⟨.waiting, v'', w, [w], []⟩ else
      ⟨.returning, if w₀ = -1 then w else w₀, v'', [], []⟩, [true]⟩, ?_, ?_⟩
    · have hctxp : (m.proc p).context = .coYield t (m₀.proc t).pid w := by rw [hp]
      have hctxt : (m.proc t).context = .coYield p (m₀.proc p).pid v'' := by
        rw [ht]
        exact hcall
      have hargs : args t [.exchange p t (m₀.proc p).pid (m₀.proc t).pid w] = [] := by
        simp [args, Event.arg?, hpt]
      refine ⟨hwf', ⟨htr', ?_, Rendezvous.both true rfl rfl, ?_, Rendezvous.both true ?_ ?_⟩, .refl,
        ⟨true, rfl, by simp, rfl, by simp⟩, Rendezvous.both true ?_ ?_,
        Rendezvous.both true (by simp [pick, hp]) (by simp [pick, ht]), by simp,
        Rendezvous.both true ?_ ?_⟩
      · exact Rendezvous.both true (by simp [pick, args, Event.arg?])
          (by simpa [pick] using hargs.symm)
      · simp [turns, Event.turn?]
      · refine ⟨w, ?_, by simp [pick, hp, ha1]⟩
        rw [show (m.proc (pick p t !true)).pid = (m₀.proc t).pid by simp [pick, ht]]
        exact parked_of_eq hpt hcpu' hpk hp
      · refine ⟨hpc', ⟨_, _, hctxt⟩, ?_⟩
        simp only [pick, ht, hw₀, signExtend_eq_minusOne, Bool.not_true, Bool.false_eq_true,
          if_false]
        split <;> rfl
      · rintro u i (⟨hc, -⟩ | ⟨-, _, hc⟩)
        · exact absurd (Option.some_inj.mp (hcpu'.symm.trans hc)) hpt.symm
        · simp [pick, hctxp] at hc
      · rintro u i (⟨-, hc⟩ | ⟨-, _, hc⟩)
        · simp [hpc'] at hc
        · simp [pick, hctxt] at hc
      · intro u hu
        obtain rfl : u = w := by simpa [pick, args, Event.arg?] using hu
        exact ⟨_, hgive⟩
      · intro u hu
        simp [pick, hargs] at hu
    · refine ⟨Rendezvous.both true ?_ ?_, Rendezvous.both true ?_ ?_, by simp⟩
      · exact fun _ => ⟨_, hgive⟩
      · simp
      · exact fun _ => Or.inl ⟨_, hoff.mono htr⟩
      · intro _
        left
        change PassedBy p t m₀ m.trace true (if w₀ = -1 then w else w₀)
        split
        · exact ⟨_, hgive⟩
        · next hw =>
          obtain ⟨n, ho⟩ := hw₀V hw
          exact ⟨n, ho.mono htr⟩
  | park _ _ _ _ _ _ _ _ _ _ _ _ _ htr' => simp [htr'] at hev
  | fail _ _ _ _ _ _ _ _ _ htr' => simp [htr'] at hev
  | coResume _ _ _ _ _ _ _ _ _ htr' => simp [htr'] at hev
  | _ =>
    have hsame : m.trace = m₀.trace := by assumption
    simp [hsame] at hev

end Alternation

/-- After processes `a` and `b` have made one exchange, and as long as they are not disturbed:
exactly one of them is parked on the other; their handoffs alternate; no call of one to the
other fails; and every call returns a value that the other one passed, so it returns `-1`
only if the other one passed `-1`, and always the same value if the other one always passes
the same value. -/
theorem pair_alternates (a b : Slot) (m₀ m m' : Machine) (v : BitVec 32)
    (hx : Exchanged a b m₀ m v) (hrun : Relation.ReflTransGen (Undisturbed a b) m m') :
    Xor (∃ w, m'.Parked a b (m₀.proc b).pid w) (∃ w, m'.Parked b a (m₀.proc a).pid w) ∧
    ∃ new, m'.trace = m₀.trace ++ new ∧ (turns a b new).IsChain (· ≠ ·) ∧
      (∀ w, .fail a (m₀.proc a).pid (m₀.proc b).pid w ∉ new ∧
        .fail b (m₀.proc b).pid (m₀.proc a).pid w ∉ new) ∧
      (∀ r ∈ results a new, ∃ n, Offered m'.trace (m₀.proc b).pid n r) ∧
      (∀ r ∈ results b new, ∃ n, Offered m'.trace (m₀.proc a).pid n r) ∧
      ∀ va vb, (∀ n w, Offered m'.trace (m₀.proc a).pid n w → w = va) →
        (∀ n w, Offered m'.trace (m₀.proc b).pid n w → w = vb) →
        (∀ r ∈ results a new, r = vb) ∧ ∀ r ∈ results b new, r = va := by
  obtain ⟨hab, hpids, s₀, hstart, hpassed⟩ := hx.start
  obtain ⟨⟨new, s, hE⟩, hgrow⟩ : (∃ new s, Engaged a b m₀ s₀ m' new s) ∧
      m.trace <+: m'.trace := by
    refine preserved (I := fun m' => (∃ new s, Engaged a b m₀ s₀ m' new s) ∧
      m.trace <+: m'.trace) ?_ ⟨⟨_, s₀, hstart⟩, List.prefix_rfl⟩ hrun
    rintro m₁ m₂ ⟨⟨new, s, hE⟩, hgrow⟩ hu
    exact ⟨hE.step hab hpids hu, hgrow.trans (trace_grows (hE.wf.next hu.next).2)⟩
  -- what a side returned was passed by the other one
  have hpass : ∀ x, ∀ r ∈ results (pick a b x) new, PassedBy a b m₀ m'.trace (!x) r := by
    intro x r hr
    rw [← hE.tracks.results] at hr
    refine Rendezvous.results_passed (V := PassedBy a b m₀ m'.trace) ?_ hE.run ?_ x r hr
    · exact hpassed.imp fun x v ⟨n, ho⟩ => ⟨n, ho.mono hgrow⟩
    · intro x v hv
      rw [hE.tracks.args] at hv
      exact hE.offered x v hv
  refine ⟨?_, new, hE.tracks.trace, ?_, fun w => ⟨hE.noFail true w, hE.noFail false w⟩,
    hpass true, hpass false, fun va vb hva hvb => ⟨fun r hr => ?_, fun r hr => ?_⟩⟩
  · obtain ⟨y, hturn⟩ := hE.turn
    have hwaits := hE.tracks.side y
    have hpeer := (hE.tracks.side !y).not_parked hE.wf hturn.peer
    simp only [SideOk, hturn.waits, hE.pid] at hwaits
    obtain ⟨w, hw, -⟩ := hwaits
    cases y
    · exact Or.inr ⟨⟨w, hw⟩, fun ⟨w', hw'⟩ => hpeer _ _ w' hw'⟩
    · exact Or.inl ⟨⟨w, hw⟩, fun ⟨w', hw'⟩ => hpeer _ _ w' hw'⟩
  · obtain ⟨y, hturn⟩ := hE.turn
    exact hE.tracks.turns ▸ hturn.alternate
  · obtain ⟨n, ho⟩ := hpass true r hr
    exact hvb n r ho
  · obtain ⟨n, ho⟩ := hpass false r hr
    exact hva n r ho

/-! ### Concrete runs -/

/-- The test of `Undisturbed` for one step. -/
def undisturbed? (a b : Slot) (m m' : Machine) : Bool :=
  !(m'.proc a).killed && !(m'.proc b).killed && (m'.proc a).state ≠ .zombie &&
    (m'.proc b).state ≠ .zombie &&
    match m.pc with
    | .run (.findProc pid _ i) => (List.finRange NPROC).all fun t =>
        (t : ℕ) ≠ i || (m.proc t).pid ≠ pid ||
          ((m.cpuProc ≠ some a || t = b) && (m.cpuProc ≠ some b || t = a))
    | _ => true

lemma undisturbed_of_test {a b : Slot} {m m' : Machine} (hn : Next m m')
    (h : undisturbed? a b m m' = true) : Undisturbed a b m m' := by
  simp only [undisturbed?, Bool.and_eq_true, Bool.not_eq_true', decide_eq_true_eq] at h
  obtain ⟨⟨⟨⟨hka, hkb⟩, hza⟩, hzb⟩, hthird⟩ := h
  refine ⟨hn, ⟨hka, hkb⟩, ⟨hza, hzb⟩, fun t pid v hpid _ => ?_⟩
  have hfound : ∀ r, m.Active r (.findProc pid v t) →
      (m.cpuProc ≠ some a ∨ t = b) ∧ (m.cpuProc ≠ some b ∨ t = a) := by
    rintro r ⟨-, hpc⟩
    simp only [hpc, List.all_eq_true, List.mem_finRange, forall_const, Bool.or_eq_true,
      Bool.and_eq_true, decide_eq_true_eq] at hthird
    simpa [hpid] using hthird t
  exact ⟨fun hact => (hfound a hact).1.resolve_left (not_not.mpr hact.1),
    fun hact => (hfound b hact).2.resolve_left (not_not.mpr hact.1)⟩

lemma runActs_undisturbed (a b : Slot) (as : List Act) (m : Machine)
    (h : checkActs (fun m a => (step m a).toOption) (fun m _ m' => undisturbed? a b m m') m as) :
    Relation.ReflTransGen (Undisturbed a b) m (runActs m as) := by
  refine runActs_of_check (fun m act m' hs hok => ?_) h
  exact undisturbed_of_test ⟨act, eq_ok_of_toOption hs⟩ hok

/-- The first process has forked its child. -/
def forked : Machine := runActs boot (parkRun.take 11)

/-- The first process calls `co_yield(2, 10)`, and its child is about to find it for
`co_yield(1, w)`. -/
def meetActs (w : BitVec 64) : List Act :=
  [.ecall .coYield 2 10, .run, .run, .run, .run, .ecall .coYield 1 w, .run]

/-- The first process returns and calls `co_yield(2, 11)`; the child returns and calls
`co_yield(1, w)`; the first process returns again. -/
def roundActs (w : BitVec 64) : List Act :=
  [.run, .run, .run, .ecall .coYield 2 11, .run, .run, .run, .run, .run, .run,
    .ecall .coYield 1 w, .run, .run, .run]

/-- The state before the first exchange. -/
def met (w : BitVec 64) : Machine := runActs forked (meetActs w)

/-- The state after the first exchange. -/
def handed (w : BitVec 64) : Machine := runActs (met w) [.run]

lemma handed_exchanged {w : BitVec 64} {v : BitVec 32} (hok : (step (met w) .run).isOk = true)
    (hev : (handed w).trace = (met w).trace ++
      [.exchange 1 0 ((met w).proc 1).pid ((met w).proc 0).pid v])
    (hcall : ((met w).proc 0).context = .coYield 1 ((met w).proc 1).pid 10) :
    Exchanged 1 0 (met w) (handed w) v where
  reachable := (reachable_runActs _).trans (runActs_run _ _)
  next := ⟨.run, step_runActs hok⟩
  event := hev
  call := ⟨10, hcall⟩

/-- The child and the first process take turns, with 10, 20, 11 and 20. -/
theorem pair_alternates_round :
    Xor (∃ w, (runActs (handed 20) (roundActs 20)).Parked 1 0 ((met 20).proc 0).pid w)
      (∃ w, (runActs (handed 20) (roundActs 20)).Parked 0 1 ((met 20).proc 1).pid w) :=
  (pair_alternates 1 0 (met 20) (handed 20) _ 20
    (handed_exchanged (by decide +kernel) (by decide +kernel) (by decide +kernel))
    (runActs_undisturbed 1 0 (roundActs 20) _ (by decide +kernel))).1

/-- If the child passes `-1`, the calls of the first process return `-1` although they hand
over to the child and back. -/
theorem pair_returns_minus_one :
    Exchanged 1 0 (met (-1)) (handed (-1)) (-1) ∧
      Relation.ReflTransGen (Undisturbed 1 0) (handed (-1))
        (runActs (handed (-1)) (roundActs (-1))) ∧
      (runActs (handed (-1)) (roundActs (-1))).trace = (handed (-1)).trace ++
        [.ret 0 1 2 (-1) false, .exchange 0 1 1 2 11, .ret 1 2 1 10 false,
          .exchange 1 0 2 1 (-1), .ret 0 1 2 (-1) false] :=
  ⟨handed_exchanged (by decide +kernel) (by decide +kernel) (by decide +kernel),
    runActs_undisturbed 1 0 (roundActs (-1)) _ (by decide +kernel), by decide +kernel⟩

/-! ## Streams -/

/-- Two processes that are outside `co_yield` start to call it on each other, with positive
values, and are not disturbed. If `x` is the side that parks first, each side gets the values
that the other one passed exactly if the side that comes second has passed the same value in
all calls that the first one has returned from. -/
theorem pair_streams (a b : Slot) (m m' : Machine) (new : List Event) (hab : a ≠ b)
    (hm : Reachable m) (ha : Free m a) (hb : Free m b)
    (hrun : Relation.ReflTransGen (Undisturbed a b) m m') (hnew : m'.trace = m.trace ++ new)
    (hpos : ∀ v, v ∈ args a new ∨ v ∈ args b new → 0 < v.toInt) (x : Bool)
    (hx : (turns a b new).head? = some x) :
    (results a new <+: args b new ∧ results b new <+: args a new) ↔
      ∀ k, k + 1 < (results (pick a b x) new).length →
        (args (pick a b !x) new)[k + 1]? = (args (pick a b !x) new)[k]? := by
  have hstart : Tracks a b m.trace m [] ⟨fun _ => ⟨.out, 0, 0, [], []⟩, []⟩ :=
    ⟨by simp, fun _ => rfl, fun _ => rfl, rfl, fun y => by cases y <;> assumption⟩
  obtain ⟨new', s', hT, hs⟩ := pair_runs hab hstart (reachable_wf hm) hrun
  obtain rfl : new' = new := List.append_cancel_left (hT.trace.symm.trans hnew)
  have hne : ∀ y, (-1 : BitVec 32) ∉ (s'.side y).args := by
    intro y hy
    rw [hT.args] at hy
    have := hpos (-1) (by cases y <;> simp_all [pick])
    exact absurd this (by decide)
  rcases Rendezvous.phases ⟨fun _ => rfl, fun _ => rfl, fun _ => rfl, rfl⟩ hs hne with
    hidle | ⟨y, hy, hph⟩
  · rw [← hT.turns, hidle.turns] at hx
    cases hx
  · obtain rfl : y = x := by
      rw [hT.turns, hx] at hy
      exact (Option.some_inj.mp hy).symm
    rw [← hT.args, ← hT.results, ← hph.paired_iff]
    simp [hT.args, hT.results, pick, and_comm]

/-- A run in which the child passes `w₁` and then `w₂`. -/
def streamActs (w₁ w₂ : BitVec 64) : List Act := meetActs w₁ ++ .run :: roundActs w₂

/-- Neither process has called `co_yield` when the first one has forked its child. -/
lemma forked_free (p : Slot) (hctx : (forked.proc p).context = .forkret)
    (hst : (forked.proc p).state = .running ∨ (forked.proc p).state = .runnable) :
    Free forked p := by
  refine ⟨fun t pid v h => ?_, ?_⟩
  · simp [hctx] at h
  · rcases hst with hst | hst <;> simp [hst]

/-- The child passes 20 twice: each side gets what the other one passed. -/
theorem pair_streams_constant :
    results 0 (runActs forked (streamActs 20 20)).trace <+:
        args 1 (runActs forked (streamActs 20 20)).trace ∧
      results 1 (runActs forked (streamActs 20 20)).trace <+:
        args 0 (runActs forked (streamActs 20 20)).trace := by
  have hargs : args 0 (runActs forked (streamActs 20 20)).trace = [10, 11] ∧
      args 1 (runActs forked (streamActs 20 20)).trace = [20, 20] := by decide +kernel
  have hres : (results 0 (runActs forked (streamActs 20 20)).trace).length = 2 := by
    decide +kernel
  refine (pair_streams 0 1 forked _ (runActs forked (streamActs 20 20)).trace (by decide)
    (reachable_runActs _) (forked_free 0 (by decide +kernel) (by decide +kernel))
    (forked_free 1 (by decide +kernel) (by decide +kernel))
    (runActs_undisturbed 0 1 (streamActs 20 20) forked (by decide +kernel)) (by decide +kernel)
    ?_ true (by decide +kernel)).mpr ?_
  · intro v hv
    rw [hargs.1, hargs.2] at hv
    simp only [List.mem_cons, List.not_mem_nil, or_false] at hv
    rcases hv with (rfl | rfl) | (rfl | rfl) <;> decide
  · intro k hk
    change k + 1 < (results 0 _).length at hk
    obtain rfl : k = 0 := by omega
    change (args 1 _)[1]? = (args 1 _)[0]?
    rw [hargs.2]
    rfl

/-- The child passes 20 and then 21, but the first process gets 20 twice. -/
theorem pair_streams_shifted :
    Relation.ReflTransGen (Undisturbed 0 1) forked (runActs forked (streamActs 20 21)) ∧
      forked.trace = [] ∧
      args 0 (runActs forked (streamActs 20 21)).trace = [10, 11] ∧
      args 1 (runActs forked (streamActs 20 21)).trace = [20, 21] ∧
      results 0 (runActs forked (streamActs 20 21)).trace = [20, 20] ∧
      ¬ results 0 (runActs forked (streamActs 20 21)).trace <+:
        args 1 (runActs forked (streamActs 20 21)).trace :=
  ⟨runActs_undisturbed 0 1 (streamActs 20 21) forked (by decide +kernel), by decide +kernel,
    by decide +kernel, by decide +kernel, by decide +kernel, by decide +kernel⟩

end Xv6.Process
