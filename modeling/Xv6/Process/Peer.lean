import Xv6.Process.Parked

/-!
# Who a parked process is waiting for

`co_yield` takes a pid, but a parked process remembers a slot of the process table. This
file follows the values and the identities through `exit`, `wait` and `fork`:

* `Ledger`: what a parked process offers is what it passed, and what it has already
  received was passed by a process with the pid it named;
* `PeerAlive`: a parked process waits for a live process with that pid. A run keeps it as
  long as no process exits while another one is parked on it;
* `Truthful`: a call that returns a value returns one that the named process passed in a
  call naming the caller. A run keeps it as long as `fork` takes no slot on which a
  process is parked.
-/

namespace Xv6.Process

open Xv6.Lib

/-- One step, with an action that satisfies `C` in the state it is taken in. -/
def NextWhen (C : Machine → Act → Prop) (m m' : Machine) : Prop :=
  ∃ a, C m a ∧ step m a = .ok m'

lemma NextWhen.next {C : Machine → Act → Prop} {m m' : Machine} (h : NextWhen C m m') :
    Next m m' := by
  obtain ⟨a, -, ha⟩ := h
  exact ⟨a, ha⟩

lemma reachable_of_nextWhen {C : Machine → Act → Prop} {m : Machine}
    (h : Relation.ReflTransGen (NextWhen C) boot m) : Reachable m := by
  induction h with
  | refl => exact .refl
  | tail _ hlast ih => exact ih.tail hlast.next

/-- An invariant of the runs in which every step satisfies `C`. -/
lemma preservedWhen {C : Machine → Act → Prop} {I : Machine → Prop} (h0 : I boot)
    (hstep : ∀ m m' a, Wf m → I m → C m a → step m a = .ok m' → Effect m m' → I m')
    {m : Machine} (h : Relation.ReflTransGen (NextWhen C) boot m) : I m := by
  have hboth : Wf m ∧ I m := by
    refine preserved (I := fun m => Wf m ∧ I m) ?_ ⟨boot_wf, h0⟩ h
    rintro m m' ⟨hwf, hI⟩ ⟨a, hC, ha⟩
    have hd := hwf.next ⟨a, ha⟩
    exact ⟨hwf.step hd, hstep m m' a hwf hI hC ha hd.2⟩
  exact hboth.2

/-- A run whose steps pass the test `c` for `C`. -/
lemma runActs_nextWhen {C : Machine → Act → Prop} {c : Machine → Act → Bool}
    (hc : ∀ m a, c m a = true → C m a) (as : List Act) (m : Machine)
    (h : checkActs (fun m a => (step m a).toOption) (fun m a _ => c m a) m as = true) :
    Relation.ReflTransGen (NextWhen C) m (runActs m as) :=
  runActs_of_check (fun m a _ hs hok => ⟨a, hc m a hok, eq_ok_of_toOption hs⟩) h

section Steps

variable {m m' : Machine} {q t : Slot} {x v status : BitVec 32}

/-! ## Parking -/

/-- Whoever sleeps on a `co_chan` is parked in a `co_yield`. -/
lemma Wf.parked_of_chan (h : Wf m) {p : Slot} (hcpu : m.cpuProc = some p) (hpt : p ≠ t)
    (hst : (m.proc t).state = .sleeping) (hch : (m.proc t).chan = .coChan p)
    (hk : (m.proc t).killed = false) : ∃ x v, m.Parked t p x v := by
  rcases h.sleeping t hst with ⟨r, x, v, hctx, hr⟩ | ⟨-, hno⟩
  · obtain rfl : r = p := by simpa [hr] using hch
    exact ⟨x, v, by simpa [hcpu] using hpt, hctx, hk, hst, hch⟩
  · exact absurd hch (hno p)

/-- A process that is parked after a step was parked before it, or has just called
`co_yield`. -/
lemma parked_back (h : Wf m) (he : Effect m m') (hp : m'.Parked q t x v) :
    (m.Parked q t x v ∧ Nudged (m.proc q) (m'.proc q)) ∨
    (m.Active q (.findProc x v t) ∧ (m.proc t).pid = x ∧ (m'.proc t).pid = x ∧
      (m'.proc t).state = .running ∧ (m'.proc q).pid = (m.proc q).pid ∧
      (m'.proc q).trapframe.a1 = v.signExtend 64 ∧
      ((m'.trace = m.trace ++ [.park q t (m.proc q).pid x v] ∧
          (m'.proc q).trapframe.a0 = minusOne) ∨
        (m'.trace = m.trace ++ [.exchange q t (m.proc q).pid x v] ∧
          (m'.proc q).trapframe.a0 = (m.proc t).trapframe.a1 ∧
          ∃ x' v', m.Parked t q x' v'))) := by
  obtain ⟨hcpu', hctx', hk', hst', hch'⟩ := hp
  have := h.atRun
  have := h.atSwtch
  have := h.idle
  have := h.atSched
  have := @h.building
  cases he with
  | park p r pid w hpc hcpu hpr hpid _ _ _ _ hcpu₁ htr hp hr ho =>
    by_cases hqp : q = p
    · subst hqp
      rw [hp] at hctx'
      cases hctx'
      exact Or.inr ⟨⟨hcpu, hpc⟩, hpid, by rw [hr]; exact hpid, by rw [hr], by rw [hp],
        by rw [hp], Or.inl ⟨htr, by rw [hp]⟩⟩
    · have hqr : q ≠ r := by
        rintro rfl
        exact hcpu' hcpu₁
      have hq := ho q hqp hqr
      rw [hq] at hctx' hk' hst' hch'
      refine Or.inl ⟨⟨?_, hctx', hk', hst', hch'⟩, hq ▸ Nudged.refl _⟩
      simpa [hcpu] using Ne.symm hqp
  | exchange p r pid w hpc hcpu hpr hpid hst hch htk _ _ hcpu₁ htr hp hr ho =>
    by_cases hqp : q = p
    · subst hqp
      rw [hp] at hctx'
      cases hctx'
      exact Or.inr ⟨⟨hcpu, hpc⟩, hpid, by rw [hr]; exact hpid, by rw [hr], by rw [hp],
        by rw [hp], Or.inr ⟨htr, by rw [hp], h.parked_of_chan hcpu hpr hst hch htk⟩⟩
    · have hqr : q ≠ r := by
        rintro rfl
        exact hcpu' hcpu₁
      have hq := ho q hqp hqr
      rw [hq] at hctx' hk' hst' hch'
      refine Or.inl ⟨⟨?_, hctx', hk', hst', hch'⟩, hq ▸ Nudged.refl _⟩
      simpa [hcpu] using Ne.symm hqp
  | _ =>
    simp only [Machine.Parked]
    grind [Machine.InScheduler, Nudged.refl]

/-- The history only grows. -/
lemma trace_grows (he : Effect m m') : m.trace <+: m'.trace := by
  cases he <;> grind [List.prefix_append]

/-! ## Dead peers -/

/-- A live process stays one, unless it runs the last block of `exit`. -/
lemma alive_stays (h : Wf m) (he : Effect m m') (hu : (m.proc t).state ≠ .unused)
    (hz : (m.proc t).state ≠ .zombie) :
    ((m'.proc t).state ≠ .unused ∧ (m'.proc t).state ≠ .zombie) ∨
      ∃ status, m.Active t (.exitLast status) ∧ (m'.proc t).state = .zombie := by
  have := h.atRun
  have := h.atSwtch
  simp only [Machine.Active]
  cases he <;> grind

/-- A process that executes its code is `RUNNING`, and no lock is held. -/
lemma Wf.active (h : Wf m) {k : Point} (hact : m.Active t k) :
    (m.proc t).state = .running ∧ m.locks = [] ∧ m.noff = 0 := by
  have hh := h.hands
  rw [Hands, hact.2] at hh
  obtain ⟨p, hp, hrun⟩ := h.atRun k hact.2
  rw [hact.1, Option.some_inj] at hp
  exact ⟨hp ▸ hrun, hh⟩

/-- Only the action `run` takes a process through the last block of `exit`. -/
lemma exit_act (h : Wf m) {a : Act} (hstep : step m a = .ok m')
    (hact : m.Active t (.exitLast status)) (hz : (m'.proc t).state = .zombie) : a = .run := by
  obtain ⟨hrun, hl, hn⟩ := h.active hact
  obtain ⟨hcpu, hpc⟩ := hact
  simp only [step, hpc, hcpu, stepProc] at hstep
  cases a with
  | run => rfl
  | intr d =>
    dsimp only at hstep
    split at hstep
    · exact absurd hz ((kerneltrap_stays hl hn hcpu hpc hrun).of_ok hstep).2
    · cases hstep
  | _ => cases hstep

/-- Everyone who is parked waits for a live process with the pid they named. -/
def PeerAlive (m : Machine) : Prop :=
  ∀ q t x v, m.Parked q t x v →
    (m.proc t).state ≠ .unused ∧ (m.proc t).state ≠ .zombie ∧ (m.proc t).pid = x

/-- The next action does not make a process a zombie on which another one is parked. -/
def NobodyLeft (m : Machine) (a : Act) : Prop :=
  ∀ p status, m.Active p (.exitLast status) → a = .run → ∀ q x v, ¬ m.Parked q p x v

/-- While nobody exits that others wait for, the peer of a parked process is in use. -/
lemma PeerAlive.step (h : Wf m) (hp : PeerAlive m) {a : Act} (ha : NobodyLeft m a)
    (hstep : step m a = .ok m') (he : Effect m m') : PeerAlive m' := by
  intro q t x v hq
  rcases parked_back h he hq with ⟨hq, -⟩ | ⟨-, -, hpid, hrun, -⟩
  · obtain ⟨hu, hz, hpid⟩ := hp q t x v hq
    rcases alive_stays h he hu hz with ⟨hu', hz'⟩ | ⟨status, hact, hz'⟩
    · exact ⟨hu', hz', (pid_stays h he hu hz).trans hpid⟩
    · exact absurd hq (ha t status hact (exit_act h hstep hact hz') q x v)
  · simp [hrun, hpid]

/-- A process that exits while another one is parked on it leaves that one behind. -/
lemma exit_strands (h : Wf m) {p : Slot} (hact : m.Active p (.exitLast status))
    (hq : m.Parked q p x v) (hstep : step m .run = .ok m') :
    m'.Parked q p x v ∧ (m'.proc p).state = .zombie := by
  have hz : (m'.proc p).state = .zombie := by
    simp only [step, hact.2, hact.1, stepProc, stepPoint, onRun] at hstep
    exact exitLast_zombie.of_ok hstep
  refine ⟨?_, hz⟩
  rcases hq.step h (h.next ⟨_, hstep⟩).2 with ⟨hq', -⟩ | ⟨⟨-, w, hpc⟩, -⟩ | ⟨⟨r, -, hpc⟩, -⟩
  · exact hq'
  · rw [hact.2] at hpc
    cases hpc
  · rw [hact.2] at hpc
    cases hpc

end Steps

lemma boot_not_parked (q t : Slot) (x v : BitVec 32) : ¬ boot.Parked q t x v := by
  rintro ⟨-, hctx, -⟩
  rw [boot_proc] at hctx
  split at hctx <;> cases hctx

/-- In a run in which no process runs the last block of `exit` while another one is parked
on it, a parked process always waits for a live process with the pid it named. The first
step that breaks the condition leaves a process parked on a zombie. -/
theorem peer_alive (m : Machine) (h : Relation.ReflTransGen (NextWhen NobodyLeft) boot m) :
    PeerAlive m ∧
    ∀ a m', step m a = .ok m' → (NobodyLeft m a ↔ PeerAlive m') := by
  have hrun : PeerAlive m := by
    refine preservedWhen (fun q t x v hq => absurd hq (boot_not_parked q t x v)) ?_ h
    exact fun m m' a hwf hp ha hstep he => PeerAlive.step hwf hp ha hstep he
  have hwf : Wf m := reachable_wf (reachable_of_nextWhen h)
  refine ⟨hrun, fun a m' hstep => ⟨fun ha => ?_, fun hp' => ?_⟩⟩
  · exact PeerAlive.step hwf hrun ha hstep (hwf.next ⟨a, hstep⟩).2
  · rintro p status hact rfl q x v hq
    obtain ⟨hq', hz⟩ := exit_strands hwf hact hq hstep
    exact (hp' q p x v hq').2.1 hz

/-- Nothing can go wrong while no process is in the last block of `exit`. -/
def notExiting (m : Machine) : Act → Bool := fun _ =>
  match m.pc with
  | .run (.exitLast _) => false
  | _ => true

lemma nobodyLeft_of_notExiting (m : Machine) (a : Act) (h : notExiting m a = true) :
    NobodyLeft m a := by
  rintro p status ⟨-, hpc⟩
  simp [notExiting, hpc] at h

/-- The first process is parked on its child, which is alive. -/
theorem peer_alive_parkRun :
    (runActs boot parkRun).Parked 0 1 2 10 ∧ ((runActs boot parkRun).proc 1).pid = 2 := by
  have hq : (runActs boot parkRun).Parked 0 1 2 10 := by decide +kernel
  have hrun : Relation.ReflTransGen (NextWhen NobodyLeft) boot (runActs boot parkRun) :=
    runActs_nextWhen nobodyLeft_of_notExiting parkRun boot (by decide +kernel)
  exact ⟨hq, ((peer_alive _ hrun).1 0 1 2 10 hq).2.2⟩

/-- The first process parks on its child, which then exits: nobody is left to resume it. -/
theorem exit_leaves_parked :
    Reachable (runActs boot (parkRun ++ [.run, .ecall .exit 0 0, .finish 0, .run])) ∧
      (runActs boot (parkRun ++ [.run, .ecall .exit 0 0, .finish 0, .run])).Parked 0 1 2 10 ∧
      ((runActs boot (parkRun ++ [.run, .ecall .exit 0 0, .finish 0, .run])).proc 1).state =
        .zombie :=
  ⟨reachable_runActs _, by decide +kernel, by decide +kernel⟩

/-! ## Offers -/

/-- In this history a process with pid `pid` passed `value` in a `co_yield` naming `named`,
and parked. -/
def Offered (tr : List Event) (pid named value : BitVec 32) : Prop :=
  ∃ q t, .park q t pid named value ∈ tr ∨ .exchange q t pid named value ∈ tr

lemma Offered.mono {tr tr' : List Event} {pid named value : BitVec 32}
    (h : Offered tr pid named value) (hsub : tr <+: tr') : Offered tr' pid named value := by
  obtain ⟨q, t, hq | hq⟩ := h
  · exact ⟨q, t, Or.inl (hsub.mem hq)⟩
  · exact ⟨q, t, Or.inr (hsub.mem hq)⟩

section Offers

variable {m m' : Machine} {q t : Slot} {x v : BitVec 32}

/-- What is known of a parked process: it named a proper pid, `a1` holds the value it
passed, and `a0` holds `-1` or a value passed by a process with the pid it named. -/
def Ledger (m : Machine) : Prop :=
  ∀ q t x v, m.Parked q t x v → 0 < x.toInt ∧
    (m.proc q).trapframe.a1 = v.signExtend 64 ∧ Offered m.trace (m.proc q).pid x v ∧
    ((m.proc q).trapframe.a0 = minusOne ∨
      ∃ w n, (m.proc q).trapframe.a0 = w.signExtend 64 ∧ Offered m.trace x n w)

lemma Ledger.step (h : Wf m) (hl : Ledger m) (he : Effect m m') : Ledger m' := by
  intro q t x v hq
  have htr := trace_grows he
  rcases parked_back h he hq with ⟨hq, hn⟩ | ⟨hact, hpid, -, -, hqpid, ha1, hcase⟩
  · obtain ⟨-, hpid', -, -, htf⟩ := hn.same
    rw [htf, hpid']
    obtain ⟨h0, h1, h2, h3⟩ := hl q t x v hq
    refine ⟨h0, h1, h2.mono htr, h3.imp_right ?_⟩
    rintro ⟨w, n, hw, ho⟩
    exact ⟨w, n, hw, ho.mono htr⟩
  · have hpos := (h.find q x v t (Or.inl hact)).1
    rw [hqpid]
    rcases hcase with ⟨hev, ha0⟩ | ⟨hev, ha0, x', v', ht⟩
    · exact ⟨hpos, ha1, ⟨q, t, Or.inl (by simp [hev])⟩, Or.inl ha0⟩
    · -- the caller takes the value that the process it named is offering
      obtain ⟨-, h1, h2, -⟩ := hl t q x' v' ht
      refine ⟨hpos, ha1, ⟨q, t, Or.inr (by simp [hev])⟩, Or.inr ⟨v', x', ha0.trans h1, ?_⟩⟩
      rw [← hpid]
      exact h2.mono htr

lemma reachable_ledger (h : Reachable m) : Ledger m := by
  have hboth : Wf m ∧ Ledger m := by
    refine preserved (I := fun m => Wf m ∧ Ledger m) ?_ ⟨boot_wf, ?_⟩ h
    · rintro m m' ⟨hwf, hl⟩ hn
      exact ⟨hwf.step (hwf.next hn), hl.step hwf (hwf.next hn).2⟩
    · exact fun q t x v hq => absurd hq (boot_not_parked q t x v)
  exact hboth.2

/-- A process that is being switched to in `co_yield`, and was not killed, has just been
resumed by the process in the slot it was parked on. -/
lemma resumed_back (h : Wf m) (he : Effect m m') (hpc : m'.pc = .swtchProc q)
    (hctx : (m'.proc q).context = .coYield t x v) (hk : (m'.proc q).killed = false) :
    ∃ w, m.Parked q t x v ∧ m.Active t (.findProc (m.proc q).pid w q) ∧
      (m'.proc q).pid = (m.proc q).pid ∧
      m'.trace = m.trace ++ [.exchange t q (m.proc t).pid (m.proc q).pid w] ∧
      (m'.proc q).trapframe.a0 = if (m.proc q).trapframe.a0 = minusOne then w.signExtend 64
        else (m.proc q).trapframe.a0 := by
  -- a runnable process that is suspended in `co_yield` was killed
  have hkill : m.cpuProc ≠ some q → (m.proc q).context = .coYield t x v →
      (m.proc q).state = .runnable → (m.proc q).killed = true := by
    intro hcpu hc hst
    rcases h.parked q t x v hcpu hc with ⟨-, hs, -⟩ | ⟨hk, -⟩
    · simp [hst] at hs
    · exact hk
  cases he with
  | pick p hin hst hpc' hcpu _ hp _ =>
    obtain rfl : q = p := by simpa [hpc] using hpc'
    rw [hp] at hctx hk
    have hkq := hkill (by simp [h.idle hin]) hctx hst
    exact absurd (hk.symm.trans hkq) (by simp)
  | park p r pid w _ hcpu hpr _ hst htk _ hpc' _ _ _ hr _ =>
    obtain rfl : q = r := by simpa [hpc] using hpc'
    rw [hr] at hctx
    have hkq := hkill (by simpa [hcpu] using hpr) hctx hst
    exact absurd (htk.symm.trans hkq) (by simp)
  | exchange p r pid w hpc₀ hcpu hpr hpid hst hch htk _ hpc' _ htr _ hr _ =>
    obtain rfl : q = r := by simpa [hpc] using hpc'
    obtain ⟨x', v', hq⟩ := h.parked_of_chan hcpu hpr hst hch htk
    rw [hr] at hctx
    obtain ⟨rfl, rfl, rfl⟩ : p = t ∧ x' = x ∧ v' = v := by simpa [hq.2.1] using hctx
    exact ⟨w, hq, ⟨hcpu, by rw [hpc₀, hpid]⟩, by rw [hr], by rw [htr, hpid], by rw [hr]⟩
  | _ => grind [Machine.InScheduler]

/-! ## Truthful returns -/

/-- A call that returned a value other than `-1` to a process that was not killed returned
one that a process with the named pid had passed, in a call naming the caller's pid. -/
def Honest (tr : List Event) : Prop :=
  ∀ i p pid named r, tr[i]? = some (.ret p pid named r false) → r ≠ -1 →
    Offered (tr.take i) named pid r

/-- The next action does not let `fork` take a slot on which a process is parked. -/
def FreshSlot (m : Machine) (a : Act) : Prop :=
  ∀ p (np : Slot), m.Active p (.allocproc np) → a = .alloc .ok → (m.proc np).state = .unused →
    ∀ q x v, ¬ m.Parked q np x v

/-- Whoever holds the slot that a parked process waits for has the pid it named, and
returned values were passed by the named process to the caller. -/
structure Truthful (m : Machine) : Prop where
  peer : ∀ q t x v, m.Parked q t x v → (m.proc t).state ≠ .unused → (m.proc t).pid = x
  answer : ∀ q t x v, m.Parked q t x v ∨ (m.pc = .swtchProc q ∧
      (m.proc q).context = .coYield t x v ∧ (m.proc q).killed = false) →
    (m.proc q).trapframe.a0 = minusOne ∨
      ∃ w, (m.proc q).trapframe.a0 = w.signExtend 64 ∧ Offered m.trace x (m.proc q).pid w
  honest : Honest m.trace

lemma setWidth_signExtend (w : BitVec 32) : (w.signExtend 64).setWidth 32 = w := by
  apply BitVec.eq_of_getLsbD_eq
  intro i hi
  simp [BitVec.getLsbD_signExtend, hi]
  omega

lemma Honest.snoc {tr : List Event} {e : Event} (h : Honest tr)
    (he : ∀ p pid named r, e = .ret p pid named r false → r ≠ -1 → Offered tr named pid r) :
    Honest (tr ++ [e]) := by
  intro i p pid named r hi hr
  rcases Nat.lt_trichotomy i tr.length with hlt | rfl | hgt
  · rw [List.getElem?_append_left hlt] at hi
    rw [List.take_append_of_le_length hlt.le]
    exact h i p pid named r hi hr
  · simp only [List.getElem?_concat_length, Option.some_inj] at hi
    rw [List.take_left]
    exact he p pid named r hi hr
  · rw [List.getElem?_eq_none (by simp; omega)] at hi
    cases hi

/-- Only the action `alloc ok` lets `fork` keep a slot. -/
lemma fork_act (h : Wf m) {a : Act} {p np : Slot} {i : ℕ} {pid : BitVec 32}
    (hstep : step m a = .ok m') (hact : m.Active p (.allocproc i))
    (hpc' : m'.pc = .run (.forkParent np pid)) : a = .alloc .ok := by
  obtain ⟨hrun, hl, hn⟩ := h.active hact
  obtain ⟨hcpu, hpc⟩ := hact
  simp only [step, hpc, hcpu, stepProc] at hstep
  cases a with
  | alloc o =>
    by_contra ho
    obtain ⟨k, hk, hf⟩ := (allocproc_fails (by simpa using ho)).of_ok hstep
    rw [hpc'] at hk
    cases hk
    cases hf
  | intr d =>
    dsimp only at hstep
    split at hstep
    · have := ((kerneltrap_stays hl hn hcpu hpc hrun).of_ok hstep).1
      simp [hpc'] at this
    · cases hstep
  | _ => cases hstep

/-- A free slot stays free unless `fork` takes it. -/
lemma unused_stays (h : Wf m) (he : Effect m m') (ht : (m.proc t).state = .unused) :
    (m'.proc t).state = .unused ∨
      ∃ p pid, m.Active p (.allocproc t) ∧ m'.pc = .run (.forkParent t pid) := by
  have := h.atRun
  have := h.atSwtch
  have := @h.building
  simp only [Machine.Active]
  cases he <;> grind

lemma Truthful.peer_step (h : Wf m) (hT : Truthful m) {a : Act} (ha : FreshSlot m a)
    (hstep : step m a = .ok m') (he : Effect m m') (hq : m'.Parked q t x v)
    (hu' : (m'.proc t).state ≠ .unused) : (m'.proc t).pid = x := by
  rcases parked_back h he hq with ⟨hq, -⟩ | ⟨-, -, hpid, -⟩
  · by_cases hu : (m.proc t).state = .unused
    · rcases unused_stays h he hu with hn | ⟨p, pid, hact, hpc'⟩
      · exact absurd hn hu'
      · exact absurd hq (ha p t hact (fork_act h hstep hact hpc') hu q x v)
    · exact (pid_kept h he hu hu').trans (hT.peer q t x v hq hu)
  · exact hpid

lemma Truthful.answer_step (h : Wf m) (hl : Ledger m) (hT : Truthful m) (he : Effect m m')
    (hq : m'.Parked q t x v ∨ (m'.pc = .swtchProc q ∧ (m'.proc q).context = .coYield t x v ∧
      (m'.proc q).killed = false)) :
    (m'.proc q).trapframe.a0 = minusOne ∨
      ∃ w, (m'.proc q).trapframe.a0 = w.signExtend 64 ∧
        Offered m'.trace x (m'.proc q).pid w := by
  have htr := trace_grows he
  have hrun : ∀ r k, m.Active r k → (m.proc r).state ≠ .unused := by
    intro r k hact
    simp [(h.active hact).1]
  have hold : m.Parked q t x v → (m'.proc q).pid = (m.proc q).pid →
      (m'.proc q).trapframe.a0 = (m.proc q).trapframe.a0 →
      (m'.proc q).trapframe.a0 = minusOne ∨ ∃ w, (m'.proc q).trapframe.a0 = w.signExtend 64 ∧
        Offered m'.trace x (m'.proc q).pid w := by
    intro hq hpid ha0
    rw [hpid, ha0]
    refine (hT.answer q t x v (Or.inl hq)).imp_right ?_
    rintro ⟨w, hw, ho⟩
    exact ⟨w, hw, ho.mono htr⟩
  rcases hq with hq | ⟨hpc, hctx, hk⟩
  · rcases parked_back h he hq with ⟨hq, hn⟩ | ⟨hact, hpid, -, -, hqpid, -, hcase⟩
    · obtain ⟨-, hpid', -, -, htf⟩ := hn.same
      exact hold hq hpid' (by rw [htf])
    · rcases hcase with ⟨-, ha0⟩ | ⟨-, ha0, x', v', ht⟩
      · exact Or.inl ha0
      · obtain ⟨-, h1, h2, -⟩ := hl t q x' v' ht
        obtain rfl : (m.proc q).pid = x' := hT.peer t q x' v' ht (hrun q _ hact)
        rw [hpid] at h2
        rw [hqpid]
        exact Or.inr ⟨v', ha0.trans h1, h2.mono htr⟩
  · obtain ⟨w, hq, hact, hpid, hev, ha0⟩ := resumed_back h he hpc hctx hk
    split at ha0
    · -- `a0` was still empty: the resuming process fills it
      have ht : (m.proc t).pid = x := hT.peer q t x v hq (hrun t _ hact)
      refine Or.inr ⟨w, ha0, t, q, Or.inr ?_⟩
      rw [hev, hpid, ← ht]
      simp
    · exact hold hq hpid ha0

lemma Truthful.honest_step (hT : Truthful m) (he : Effect m m') : Honest m'.trace := by
  have hother : ∀ e, (∀ p pid named r, e ≠ .ret p pid named r false) →
      m'.trace = m.trace ++ [e] → Honest m'.trace := by
    intro e hne htr
    rw [htr]
    exact hT.honest.snoc fun p pid named r he => absurd he (hne p pid named r)
  cases he with
  | coResume p t pid value _ hpc hctx _ _ htr =>
    rw [htr]
    refine hT.honest.snoc fun p' pid' named r hev hr => ?_
    simp only [Event.ret.injEq] at hev
    obtain ⟨rfl, rfl, rfl, rfl, hk⟩ := hev
    rcases hT.answer p t pid value (Or.inr ⟨hpc, hctx, hk⟩) with ha0 | ⟨w, hw, ho⟩
    · rw [ha0] at hr
      exact absurd rfl hr
    · rw [hw, setWidth_signExtend]
      exact ho
  | fail _ _ _ _ _ _ _ _ _ htr => exact hother _ (by simp) htr
  | park _ _ _ _ _ _ _ _ _ _ _ _ _ htr => exact hother _ (by simp) htr
  | exchange _ _ _ _ _ _ _ _ _ _ _ _ _ _ htr => exact hother _ (by simp) htr
  | _ =>
    have hsame : m'.trace = m.trace := by assumption
    exact hsame ▸ hT.honest

end Offers

/-- In a run in which `fork` never takes a slot on which a process is parked, only the process
that a parked process named can hold the slot it waits for, and every call that returns a
value other than `-1` to a process that was not killed returns one that the process it named
passed in a call naming it. -/
theorem peer_truthful (m : Machine) (h : Relation.ReflTransGen (NextWhen FreshSlot) boot m) :
    (∀ q t x v, m.Parked q t x v → (m.proc t).state ≠ .unused → (m.proc t).pid = x) ∧
      Honest m.trace := by
  have hboth : Ledger m ∧ Truthful m := by
    refine preservedWhen (I := fun m => Ledger m ∧ Truthful m) ⟨?_, ?_, ?_, ?_⟩ ?_ h
    · exact fun q t x v hq => absurd hq (boot_not_parked q t x v)
    · exact fun q t x v hq => absurd hq (boot_not_parked q t x v)
    · rintro q t x v (hq | ⟨hpc, -⟩)
      · exact absurd hq (boot_not_parked q t x v)
      · cases hpc
    · intro i p pid named r hi
      simp [boot] at hi
    · rintro m m' a hwf ⟨hl, hT⟩ ha hstep he
      exact ⟨hl.step hwf he, fun q t x v => hT.peer_step hwf ha hstep he,
        fun q t x v => hT.answer_step hwf hl he, hT.honest_step he⟩
  exact ⟨hboth.2.peer, hboth.2.honest⟩

/-- Nothing can go wrong while nobody sleeps when `fork` looks for a slot. -/
def nobodySleeps (m : Machine) : Act → Bool := fun _ =>
  match m.pc with
  | .run (.allocproc _) => (List.finRange NPROC).all fun q => (m.proc q).state ≠ .sleeping
  | _ => true

lemma freshSlot_of_nobodySleeps (m : Machine) (a : Act) (h : nobodySleeps m a = true) :
    FreshSlot m a := by
  rintro p np ⟨-, hpc⟩ - - q x v hq
  simp only [nobodySleeps, hpc, List.all_eq_true, List.mem_finRange, decide_eq_true_eq,
    forall_const] at h
  exact h q hq.2.2.2.1

/-- The first process parks on its child with 10, and the child answers with 20. -/
def answerRun : List Act := handoffRun ++ [.run]

/-- The first process returns 20, which its child passed in a call naming it. -/
theorem peer_truthful_answerRun :
    (runActs boot answerRun).trace[2]? = some (.ret 0 1 2 20 false) ∧
      Offered ((runActs boot answerRun).trace.take 2) 2 1 20 := by
  have hret : (runActs boot answerRun).trace[2]? = some (.ret 0 1 2 20 false) := by
    decide +kernel
  have hrun : Relation.ReflTransGen (NextWhen FreshSlot) boot (runActs boot answerRun) :=
    runActs_nextWhen freshSlot_of_nobodySleeps answerRun boot (by decide +kernel)
  exact ⟨hret, (peer_truthful _ hrun).2 2 0 1 2 20 hret (by decide)⟩

/-- Process 2 parks on process 3, which exits and is reaped. The first process forks
process 4, which gets the same slot and calls `co_yield(2, 99)`. -/
def recycleRun : List Act :=
  parkRun.take 11 ++
  [.ecall .fork 0 0, .alloc .ok, .alloc .ok, .alloc .ok, .run, .run, .run, .run,
    .ecall .wait 0 0, .copyout true, .run, .run, .run,
    .ecall .coYield 3 5, .run, .run, .run, .run, .run,
    .ecall .exit 0 0, .finish 0, .run, .run] ++
  List.replicate 62 .run ++
  [.run, .run, .run, .run, .copyout true, .run, .run,
    .ecall .fork 0 0, .alloc .ok, .alloc .ok, .alloc .ok, .run, .run, .run, .run,
    .ecall .wait 0 0, .copyout true, .run, .run, .run, .run,
    .ecall .coYield 2 99, .run, .run, .run, .run]

/-- Process 2 named process 3, and returns 99, which process 4 passed. -/
theorem recycled_slot_answers :
    Reachable (runActs boot recycleRun) ∧
      (runActs boot recycleRun).trace =
        [.park 1 2 2 3 5, .exchange 2 1 4 2 99, .ret 1 2 3 99 false] ∧
      ¬ Honest (runActs boot recycleRun).trace := by
  have htr : (runActs boot recycleRun).trace =
      [.park 1 2 2 3 5, .exchange 2 1 4 2 99, .ret 1 2 3 99 false] := by decide +kernel
  refine ⟨reachable_runActs _, htr, fun hh => ?_⟩
  rw [htr] at hh
  obtain ⟨q, t, ho⟩ := hh 2 1 2 3 99 rfl (by decide)
  simp at ho

end Xv6.Process
