import Xv6.Ipc.Pipe
import Xv6.Lib.Spec

/-!
# Wakeups of sleeping readers and writers

A reader sleeps on `&pi->nread` while the pipe is empty and its write end is open, a writer on
`&pi->nwrite` while it is full and its read end is open. A process that changes this does so
under `pi->lock`, and has to call `wakeup` before it releases the lock.

`Covers` says, for each place in the code where the lock is held, what is still owed to the
sleepers there. One place does not keep its promise: `pipewrite` has put bytes into the ring,
is killed before its next iteration, and returns without a `wakeup`.
-/

namespace Xv6.Ipc

open Xv6.Lib
open Xv6.Process (Slot NPROC)
open Function (update_of_ne update_self)

variable {s s' : State} {p q : Slot} {u : User} {c : Chan}

/-- Process `q` sleeps on `c`, or is inside `sleep(c)` and holds its lock until it does. -/
def Waits (s : State) (q : Slot) (c : Chan) : Prop :=
  (∃ e, (s.proc q).pc = .falling c e) ∨
    (s.proc q).state = .sleeping ∧ (s.proc q).chan = some c

/-- What a process that sleeps on `c` waits for has not happened. -/
def Blocked (pi : Pipe) : Chan → Prop
  | .nread => pi.ring.Empty ∧ pi.writeopen
  | .nwrite => pi.ring.Full ∧ pi.readopen

/-- A process asleep on `c` in slot `q` still has to wait, or the holder of the lock, which is
at `h`, will get to a `wakeup` that reaches it. -/
def Covers (pi : Pipe) (killed : Bool) (c : Chan) (q : Slot) : Held → Prop
  | .top (.write i n) =>
    Blocked pi c ∨ c = .nread ∧ pi.writeopen ∧ pi.readopen ∧ (killed → n ≤ i)
  | .readCopy _ _ => Blocked pi c ∨ c = .nwrite ∧ pi.readopen
  | .wakeup c' j _ => Blocked pi c ∨ c = c' ∧ j ≤ q
  | _ => Blocked pi c

/-- What is known where `pi->lock` is held on the way into `sleep`. -/
def Ready (pi : Pipe) : Held → Prop
  | .writeSleep _ _ => Blocked pi .nwrite
  | .wakeup _ _ (.writeFull _ _) => Blocked pi .nwrite
  | .readSleep _ => Blocked pi .nread
  | _ => True

/-- Exclusion under `pi->lock` and `p->lock`, and what is owed to sleeping processes. -/
structure Inv (s : State) : Prop where
  holder : ∀ p h, (s.proc p).pc = .held h → s.lock = some p
  held : ∀ p, s.lock = some p → ∃ h, (s.proc p).pc = .held h
  falling : ∀ p c e, (s.proc p).pc = .falling c e → (s.proc p).locked
  sleeping : ∀ p, (s.proc p).state = .sleeping → ∃ e, (s.proc p).pc = .sched e
  ready : ∀ p h, (s.proc p).pc = .held h → Ready s.pi h
  free : ∀ q c, Waits s q c → s.lock = none → Blocked s.pi c
  covers : ∀ q c p h, Waits s q c → (s.proc p).pc = .held h →
    Covers s.pi (s.proc p).killed c q h

/-! ## Processes -/

lemma setProc_self (s : State) (p : Slot) (f : Proc → Proc) :
    (s.setProc p f).proc p = f (s.proc p) := update_self ..

lemma setProc_of_ne (s : State) (f : Proc → Proc) (h : q ≠ p) :
    (s.setProc p f).proc q = s.proc q := update_of_ne h ..

section Kept

variable (h : Inv s) {x y : Held}

include h

/-- A process that holds the lock does not wait. -/
lemma Inv.not_waits (hp : (s.proc p).pc = .held x) : ¬Waits s p c := by
  intro hw
  cases hw with
  | inl hw =>
    obtain ⟨e, hw⟩ := hw
    rw [hp] at hw
    cases hw
  | inr hw =>
    obtain ⟨e, hw⟩ := h.sleeping p hw.1
    rw [hp] at hw
    cases hw

/-- Two processes cannot both hold the lock. -/
lemma Inv.unique (hp : (s.proc p).pc = .held x) (hq : (s.proc q).pc = .held y) : p = q :=
  Option.some.inj ((h.holder p x hp).symm.trans (h.holder q y hq))

/-- A step of a process that neither holds `pi->lock` before nor after it. -/
lemma Inv.outside (hpi : s'.pi = s.pi) (hlock : s'.lock = s.lock)
    (hothers : ∀ q, q ≠ p → s'.proc q = s.proc q) (hp : ∀ x, (s.proc p).pc ≠ .held x)
    (hp' : ∀ x, (s'.proc p).pc ≠ .held x)
    (hfalling : ∀ c e, (s'.proc p).pc = .falling c e → (s'.proc p).locked)
    (hsleeping : (s'.proc p).state = .sleeping → ∃ e, (s'.proc p).pc = .sched e)
    (hwaits : ∀ c, Waits s' p c → Waits s p c) : Inv s' := by
  have hpc : ∀ q x, (s'.proc q).pc = .held x → s'.proc q = s.proc q := by
    intro q x hq
    refine hothers q ?_
    rintro rfl
    exact hp' x hq
  have hw : ∀ q c, Waits s' q c → Waits s q c := by
    intro q c hq
    by_cases hqp : q = p
    · rw [hqp] at hq ⊢
      exact hwaits c hq
    · unfold Waits at hq ⊢
      rwa [hothers q hqp] at hq
  refine ⟨fun q x hq => ?_, fun q hq => ?_, fun q c e hq => ?_, fun q hq => ?_, fun q x hq => ?_,
    fun q c hq hl => ?_, fun q c r x hq hr => ?_⟩
  · rw [hlock]
    exact h.holder q x (hpc q x hq ▸ hq)
  · obtain ⟨x, hx⟩ := h.held q (hlock ▸ hq)
    refine ⟨x, ?_⟩
    rw [hothers q fun hqp => hp x (hqp ▸ hx)]
    exact hx
  · by_cases hqp : q = p
    · rw [hqp] at hq ⊢
      exact hfalling c e hq
    · rw [hothers q hqp] at hq ⊢
      exact h.falling q c e hq
  · by_cases hqp : q = p
    · rw [hqp] at hq ⊢
      exact hsleeping hq
    · rw [hothers q hqp] at hq ⊢
      exact h.sleeping q hq
  · rw [hpi]
    exact h.ready q x (hpc q x hq ▸ hq)
  · rw [hpi]
    exact h.free q c (hw q c hq) (hlock ▸ hl)
  · rw [hpi, hpc r x hr]
    exact h.covers q c r x (hw q c hq) (hpc r x hr ▸ hr)

/-- A step of the holder of `pi->lock` that keeps the lock. -/
lemma Inv.inside (hp : (s.proc p).pc = .held x) (hlock : s'.lock = s.lock)
    (hothers : ∀ q, q ≠ p → s'.proc q = { s.proc q with state := (s'.proc q).state } ∧ ((s'.proc
      q).state = .sleeping → (s.proc q).state = .sleeping)) (hself : (s'.proc p).pc = .held y)
    (hstate : (s'.proc p).state = (s.proc p).state) (hready : Ready s'.pi y)
    (hcovers : ∀ q c, Waits s q c → Waits s' q c → Covers s'.pi (s'.proc p).killed c q y) :
    Inv s' := by
  have hpc : ∀ q, q ≠ p → (s'.proc q).pc = (s.proc q).pc := fun q hq => by rw [(hothers q hq).1]
  have hheld : ∀ q z, (s'.proc q).pc = .held z → q = p ∧ z = y := by
    intro q z hq
    by_cases hqp : q = p
    · rw [hqp, hself] at hq
      exact ⟨hqp, (Pc.held.inj hq).symm⟩
    · rw [hpc q hqp] at hq
      exact absurd (h.unique hq hp) hqp
  have hawake : (s'.proc p).state ≠ .sleeping := by
    intro hs
    obtain ⟨e, he⟩ := h.sleeping p (hstate.symm.trans hs)
    rw [hp] at he
    cases he
  have hnot : ∀ c, ¬Waits s' p c := by
    intro c hw
    cases hw with
    | inl hw =>
      obtain ⟨e, hw⟩ := hw
      rw [hself] at hw
      cases hw
    | inr hw => exact hawake hw.1
  have hw : ∀ q c, Waits s' q c → Waits s q c := by
    intro q c hq
    by_cases hqp : q = p
    · rw [hqp] at hq
      exact absurd hq (hnot c)
    · cases hq with
      | inl hq =>
        obtain ⟨e, hq⟩ := hq
        exact .inl ⟨e, (hpc q hqp).symm.trans hq⟩
      | inr hq =>
        have hchan : (s'.proc q).chan = (s.proc q).chan := by rw [(hothers q hqp).1]
        exact .inr ⟨(hothers q hqp).2 hq.1, hchan.symm.trans hq.2⟩
  refine ⟨fun q z hq => ?_, fun q hq => ?_, fun q c e hq => ?_, fun q hq => ?_, fun q z hq => ?_,
    fun q c hq hl => ?_, fun q c r z hq hr => ?_⟩
  · rw [hlock, (hheld q z hq).1]
    exact h.holder p x hp
  · obtain ⟨z, hz⟩ := h.held q (hlock ▸ hq)
    refine ⟨y, ?_⟩
    rw [h.unique hz hp, hself]
  · by_cases hqp : q = p
    · rw [hqp, hself] at hq
      cases hq
    · rw [(hothers q hqp).1]
      exact h.falling q c e ((hpc q hqp).symm.trans hq)
  · by_cases hqp : q = p
    · rw [hqp] at hq
      exact absurd hq hawake
    · rw [hpc q hqp]
      exact h.sleeping q ((hothers q hqp).2 hq)
  · rw [(hheld q z hq).2]
    exact hready
  · rw [hlock, h.holder p x hp] at hl
    cases hl
  · obtain ⟨rfl, rfl⟩ := hheld r z hr
    exact hcovers q c (hw q c hq) hq

/-- The holder of `pi->lock` goes on at `y`; only the pipe and the history may have changed. -/
lemma Inv.goto (hp : (s.proc p).pc = .held x) {t : State} (hproc : t.proc = s.proc)
    (hlock : t.lock = s.lock) (hready : Ready t.pi y)
    (hcovers : ∀ q c, Waits s q c → Covers t.pi (s.proc p).killed c q y) :
    Inv (t.goto p (.held y)) := by
  have hself : (t.goto p (.held y)).proc p = { s.proc p with pc := .held y } := by
    rw [State.goto, setProc_self, hproc]
  refine h.inside hp hlock (fun q hq => ?_) (by rw [hself]) (by rw [hself]) hready
    fun q c hq _ => ?_
  · have hsame : (t.goto p (.held y)).proc q = s.proc q := by
      rw [State.goto, setProc_of_ne _ _ hq, hproc]
    rw [hsame]
    exact ⟨rfl, id⟩
  · rw [hself]
    exact hcovers q c hq

/-- The holder of `pi->lock` releases it when whoever waits has something to wait for. -/
lemma Inv.release (hp : (s.proc p).pc = .held x) (hpi : s'.pi = s.pi) (hlock : s'.lock = none)
    (hothers : ∀ q, q ≠ p → s'.proc q = s.proc q) (hp' : ∀ y, (s'.proc p).pc ≠ .held y)
    (hfalling : ∀ c e, (s'.proc p).pc = .falling c e → (s'.proc p).locked ∧ Blocked s.pi c)
    (hstate : (s'.proc p).state = (s.proc p).state) (hcovers : ∀ q c, Waits s q c → Blocked s.pi c)
    : Inv s' := by
  have hnone : ∀ q y, (s'.proc q).pc ≠ .held y := by
    intro q y hq
    by_cases hqp : q = p
    · exact hp' y (hqp ▸ hq)
    · rw [hothers q hqp] at hq
      exact hqp (h.unique hq hp)
  have hawake : (s'.proc p).state ≠ .sleeping := by
    intro hs
    obtain ⟨e, he⟩ := h.sleeping p (hstate.symm.trans hs)
    rw [hp] at he
    cases he
  refine ⟨fun q y hq => absurd hq (hnone q y), fun q hq => ?_, fun q c e hq => ?_, fun q hq => ?_,
    fun q y hq => absurd hq (hnone q y), fun q c hq _ => ?_,
    fun q c r y _ hr => absurd hr (hnone r y)⟩
  · rw [hlock] at hq
    cases hq
  · by_cases hqp : q = p
    · rw [hqp] at hq ⊢
      exact (hfalling c e hq).1
    · rw [hothers q hqp] at hq ⊢
      exact h.falling q c e hq
  · by_cases hqp : q = p
    · exact absurd (hqp ▸ hq) hawake
    · rw [hothers q hqp] at hq ⊢
      exact h.sleeping q hq
  · rw [hpi]
    by_cases hqp : q = p
    · rw [hqp] at hq
      cases hq with
      | inl hq =>
        obtain ⟨e, hq⟩ := hq
        exact (hfalling c e hq).2
      | inr hq => exact absurd hq.1 hawake
    · refine hcovers q c ?_
      unfold Waits at hq ⊢
      rwa [hothers q hqp] at hq

/-- `release(&pi->lock); return v;` -/
lemma Inv.leave (hp : (s.proc p).pc = .held x) (v : ℤ)
    (hcovers : ∀ q c, Waits s q c → Blocked s.pi c) : Inv (s.leave p v) := by
  have hself : (s.leave p v).proc p = { s.proc p with pc := .out, ret := v } :=
    update_self ..
  refine h.release hp rfl rfl (fun q hq => update_of_ne hq ..) ?_ ?_ ?_ hcovers
  · rw [hself]
    simp
  · rw [hself]
    simp
  · rw [hself]

/-- `sleep(c, &pi->lock)` is called where `c` is worth waiting for. -/
lemma Inv.fall (hp : (s.proc p).pc = .held x) (e : Entry) (hc : Blocked s.pi c)
    (hcovers : ∀ q c, Waits s q c → Blocked s.pi c) : Inv (s.fall p c e) := by
  have hself : (s.fall p c e).proc p = { s.proc p with locked := true, pc := .falling c e } :=
    update_self ..
  refine h.release hp rfl rfl (fun q hq => update_of_ne hq ..) ?_ ?_ ?_ hcovers
  · rw [hself]
    simp
  · rw [hself]
    intro c' e' he
    cases he
    exact ⟨rfl, hc⟩
  · rw [hself]

/-- A process takes the free lock. -/
lemma Inv.acquire {e : Entry} (hp : (s.proc p).pc = .acquire e) (hfree : s.lock = none) :
    Inv ({ s with lock := some p }.goto p (.held (.top e))) := by
  have hself : ({ s with lock := some p }.goto p (.held (.top e))).proc p =
      { s.proc p with pc := .held (.top e) } := update_self ..
  have hothers : ∀ q, q ≠ p →
      ({ s with lock := some p }.goto p (.held (.top e))).proc q = s.proc q :=
    fun q hq => update_of_ne hq ..
  have hheld : ∀ q z, (({ s with lock := some p }.goto p (.held (.top e))).proc q).pc = .held z →
      q = p ∧ z = .top e := by
    intro q z hq
    by_cases hqp : q = p
    · rw [hqp, hself] at hq
      exact ⟨hqp, (Pc.held.inj hq).symm⟩
    · rw [hothers q hqp] at hq
      exact absurd (h.holder q z hq) (by rw [hfree]; simp)
  have hw : ∀ q c, Waits ({ s with lock := some p }.goto p (.held (.top e))) q c →
      Waits s q c := by
    intro q c hq
    unfold Waits at hq ⊢
    by_cases hqp : q = p
    · rw [hqp, hself] at hq
      rw [hqp]
      exact .inr (by simpa using hq)
    · rwa [hothers q hqp] at hq
  refine ⟨fun q z hq => ?_, fun q hq => ?_, fun q c e' hq => ?_, fun q hq => ?_, fun q z hq => ?_,
    fun q c hq hl => ?_, fun q c r z hq hr => ?_⟩
  · rw [(hheld q z hq).1]
    rfl
  · obtain rfl : p = q := Option.some.inj hq
    exact ⟨_, by rw [hself]⟩
  · by_cases hqp : q = p
    · rw [hqp, hself] at hq
      cases hq
    · rw [hothers q hqp] at hq ⊢
      exact h.falling q c e' hq
  · by_cases hqp : q = p
    · rw [hqp, hself] at hq
      obtain ⟨e', he⟩ := h.sleeping p hq
      rw [hp] at he
      cases he
    · rw [hothers q hqp] at hq ⊢
      exact h.sleeping q hq
  · rw [(hheld q z hq).2]
    trivial
  · cases hl
  · have hblocked := h.free q c (hw q c hq) hfree
    obtain ⟨rfl, rfl⟩ := hheld r z hr
    cases e with
    | write i n => exact .inl hblocked
    | read n => exact hblocked
    | close writable => exact hblocked

/-! ## The code under `pi->lock` -/

/-- A round of `pipewrite`: it puts a byte, wakes readers before it sleeps, or returns. -/
lemma Inv.pipewrite {i n : ℤ} (hp : (s.proc p).pc = .held (.top (.write i n))) :
    Inv (pipewrite u p i n s) := by
  have hcov := fun q c hq => h.covers q c p _ hq hp
  -- `wakeup(&pi->nread)` is about to reach every reader, and writers are where they were
  have hwake : ∀ q c k, Waits s q c → Covers s.pi (s.proc p).killed c q (.wakeup .nread 0 k) := by
    intro q c k hq
    cases hcov q c hq with
    | inl hb => exact .inl hb
    | inr hc => exact .inr ⟨hc.1, Nat.zero_le _⟩
  unfold Ipc.pipewrite
  split
  case isFalse => exact h.goto hp rfl rfl trivial fun q c hq => hwake q c _ hq
  case isTrue hin =>
  split
  case isTrue hstop =>
    refine h.leave hp _ fun q c hq => ?_
    cases hcov q c hq with
    | inl hb => exact hb
    | inr hc =>
      obtain ⟨-, -, hread, hk⟩ := hc
      cases hstop with
      | inl hclosed => exact absurd (hclosed.symm.trans hread) (by simp)
      | inr hkilled => exact absurd (hk hkilled) (by omega)
  case isFalse hgo =>
  rw [not_or] at hgo
  have hread : s.pi.readopen = true := by simpa using hgo.1
  split
  case isTrue hfull =>
    exact h.goto hp rfl rfl ⟨hfull, hread⟩ fun q c hq => hwake q c _ hq
  case isFalse hroom =>
    split
    case h_1 => exact h.goto hp rfl rfl trivial fun q c hq => hwake q c _ hq
    case h_2 ch _ =>
      refine h.goto hp rfl rfl trivial fun q c hq => .inr ?_
      have hk : (s.proc p).killed = true → n ≤ i + 1 := fun hk => absurd hk hgo.2
      cases hcov q c hq with
      | inr hc => exact ⟨hc.1, hc.2.1, hread, hk⟩
      | inl hb =>
        cases c with
        | nread => exact ⟨rfl, hb.2, hread, hk⟩
        | nwrite => exact absurd hb.1 hroom

lemma Inv.pipereadWait {n : ℤ} (hp : (s.proc p).pc = .held (.top (.read n))) :
    Inv (pipereadWait p n s) := by
  have hcov : ∀ q c, Waits s q c → Blocked s.pi c := fun q c hq => h.covers q c p _ hq hp
  unfold Ipc.pipereadWait
  split
  case isTrue hb =>
    split
    · exact h.leave hp _ hcov
    · exact h.goto hp rfl rfl hb hcov
  case isFalse => exact h.goto hp rfl rfl trivial fun q c hq => .inl (hcov q c hq)

/-- A round of `piperead`, which wakes writers at its end. -/
lemma Inv.pipereadCopy {i n : ℤ} (hp : (s.proc p).pc = .held (.readCopy i n)) :
    Inv (pipereadCopy u p i n s) := by
  have hcov := fun q c hq => h.covers q c p _ hq hp
  unfold Ipc.pipereadCopy
  split
  case isFalse =>
    refine h.goto hp rfl rfl trivial fun q c hq => ?_
    cases hcov q c hq with
    | inl hb => exact .inl hb
    | inr hc => exact .inr ⟨hc.1, Nat.zero_le _⟩
  case isTrue hsome =>
    -- the pipe is not empty, so only writers wait
    have hwriter : ∀ q c, Waits s q c → c = .nwrite ∧ s.pi.readopen := by
      intro q c hq
      cases hcov q c hq with
      | inr hc => exact hc
      | inl hb =>
        cases c with
        | nread => exact absurd hb.1 hsome.2
        | nwrite => exact ⟨rfl, hb.2⟩
    dsimp only
    split
    · exact h.goto hp rfl rfl trivial fun q c hq => .inr (hwriter q c hq)
    · exact h.goto hp rfl rfl trivial fun q c hq => .inr ⟨(hwriter q c hq).1, Nat.zero_le _⟩

/-- A closed end wakes the processes at the other one. -/
lemma Inv.pipeclose {writable : Bool} (hp : (s.proc p).pc = .held (.top (.close writable))) :
    Inv (pipeclose p writable s) := by
  have hcov : ∀ q c, Waits s q c → Blocked s.pi c := fun q c hq => h.covers q c p _ hq hp
  unfold Ipc.pipeclose
  split
  · refine h.goto hp rfl rfl trivial fun q c hq => ?_
    cases c with
    | nread => exact .inr ⟨rfl, Nat.zero_le _⟩
    | nwrite => exact .inl (hcov q .nwrite hq)
  · refine h.goto hp rfl rfl trivial fun q c hq => ?_
    cases c with
    | nread => exact .inl (hcov q .nread hq)
    | nwrite => exact .inr ⟨rfl, Nat.zero_le _⟩

/-- One round of `wakeup`: afterwards slot `j` does not wait on `c`. -/
lemma Inv.wakeup {j : ℕ} {k : After} (hp : (s.proc p).pc = .held (.wakeup c j k)) (hj : j < NPROC)
    {s₁ : State} (hs : wakeOne c p ⟨j, hj⟩ s = some s₁) :
    Inv (s₁.goto p (.held (.wakeup c (j + 1) k))) := by
  have hcov := fun q c hq => h.covers q c p _ hq hp
  have hready : Ready s.pi (.wakeup c (j + 1) k) := by
    have := h.ready p _ hp
    cases k with
    | writeFull i n => exact this
    | ret v => trivial
    | closed => trivial
  -- what is left to do, given that slot `j` does not wait on `c` any more
  have hnext : ∀ q c', Waits s q c' → (q = ⟨j, hj⟩ → c' ≠ c) →
      Covers s.pi (s.proc p).killed c' q (.wakeup c (j + 1) k) := by
    intro q c' hq hdone
    cases hcov q c' hq with
    | inl hb => exact .inl hb
    | inr hc =>
      exact .inr ⟨hc.1, Nat.lt_of_le_of_ne hc.2 fun hjq => hdone (Fin.ext hjq.symm) hc.1⟩
  unfold wakeOne at hs
  split at hs
  case isTrue hself =>
    cases hs
    refine h.goto hp rfl rfl hready fun q c' hq => hnext q c' hq fun hqj => ?_
    exact absurd (hself ▸ hqj ▸ hq) (h.not_waits hp)
  case isFalse hne =>
  split at hs
  case isTrue => cases hs
  case isFalse hunlocked =>
  have hstanding : ∀ e, (s.proc ⟨j, hj⟩).pc ≠ .falling c e :=
    fun e he => hunlocked (h.falling _ _ _ he)
  split at hs
  case isTrue =>
    cases hs
    have hq₀ : ∀ f, ((s.setProc ⟨j, hj⟩ f).goto p (.held (.wakeup c (j + 1) k))).proc ⟨j, hj⟩ =
        f (s.proc ⟨j, hj⟩) := by
      intro f
      rw [State.goto, setProc_of_ne _ _ hne, setProc_self]
    have hself : ∀ f, ((s.setProc ⟨j, hj⟩ f).goto p (.held (.wakeup c (j + 1) k))).proc p =
        { s.proc p with pc := .held (.wakeup c (j + 1) k) } := by
      intro f
      rw [State.goto, setProc_self, setProc_of_ne _ _ (Ne.symm hne)]
    refine h.inside hp rfl (fun q hq => ?_) (by rw [hself]) (by rw [hself]) hready fun q c'
      hq hq' => ?_
    · by_cases hqj : q = ⟨j, hj⟩
      · rw [hqj, hq₀]
        exact ⟨rfl, fun hs => nomatch hs⟩
      · rw [State.goto, setProc_of_ne _ _ hq, setProc_of_ne _ _ hqj]
        exact ⟨rfl, id⟩
    · rw [hself]
      refine hnext q c' hq ?_
      rintro rfl rfl
      unfold Waits at hq'
      rw [hq₀] at hq'
      cases hq' with
      | inl hw =>
        obtain ⟨e, hw⟩ := hw
        exact hstanding e hw
      | inr hw => cases hw.1
  case isFalse hawake =>
    cases hs
    refine h.goto hp rfl rfl hready fun q c' hq => hnext q c' hq ?_
    rintro rfl rfl
    cases hq with
    | inl hw =>
      obtain ⟨e, hw⟩ := hw
      exact hstanding e hw
    | inr hw => exact hawake hw

/-- What follows the loop of `wakeup`. -/
lemma Inv.afterWakeup {j : ℕ} {k : After} (hp : (s.proc p).pc = .held (.wakeup c j k))
    (hj : ¬j < NPROC) : Inv (afterWakeup p s k) := by
  -- the loop has been through all slots, so it owes nothing
  have hcov : ∀ q c, Waits s q c → Blocked s.pi c := by
    intro q c hq
    cases h.covers q c p _ hq hp with
    | inl hb => exact hb
    | inr hc => exact absurd q.isLt (by omega)
  unfold Ipc.afterWakeup
  split
  case h_1 i n =>
    have hready : Ready s.pi (.wakeup c j (.writeFull i n)) := h.ready p _ hp
    exact h.goto hp rfl rfl hready hcov
  case h_2 => exact h.leave hp _ hcov
  case h_3 =>
    refine h.release hp rfl rfl (fun q hq => update_of_ne hq ..) ?_ ?_ ?_ hcov
    · rw [State.goto, setProc_self]
      simp
    · rw [State.goto, setProc_self]
      simp
    · rw [State.goto, setProc_self]

lemma Inv.runHeld (hp : (s.proc p).pc = .held x) (hs : runHeld u p s x = some s') : Inv s' := by
  unfold Ipc.runHeld at hs
  split at hs
  case h_1 => cases hs; exact h.pipewrite hp
  case h_2 => cases hs; exact h.pipereadWait hp
  case h_3 => cases hs; exact h.pipeclose hp
  case h_4 => cases hs; exact h.pipereadCopy hp
  case h_5 => cases hs; exact h.fall hp _ (h.ready p _ hp) fun q c hq => h.covers q c p _ hq hp
  case h_6 => cases hs; exact h.fall hp _ (h.ready p _ hp) fun q c hq => h.covers q c p _ hq hp
  case h_7 =>
    split at hs
    case isTrue hj =>
      obtain ⟨s₁, hs₁, rfl⟩ := Option.map_eq_some_iff.1 hs
      exact h.wakeup hp hj hs₁
    case isFalse hj => cases hs; exact h.afterWakeup hp hj

/-! ## The other steps -/

lemma Inv.run (hs : run u p s = some s') : Inv s' := by
  unfold Ipc.run at hs
  split at hs
  case h_1 => cases hs
  case h_2 e hp =>
    split at hs
    case isTrue hfree => cases hs; exact h.acquire hp hfree
    case isFalse => cases hs
  case h_3 x hp => exact h.runHeld hp hs
  case h_4 c e hp =>
    cases hs
    refine h.outside (p := p) rfl rfl (fun q hq => setProc_of_ne _ _ hq) (by simp [hp])
      ?_ ?_ ?_ fun c' hw => ?_
    · simp [setProc_self]
    · simp [setProc_self]
    · simp [setProc_self]
    · -- it waits on `c` before and after
      unfold Waits at hw
      rw [setProc_self] at hw
      cases hw with
      | inl hw =>
        obtain ⟨e', hw⟩ := hw
        cases hw
      | inr hw =>
        obtain rfl := Option.some.inj hw.2
        exact .inl ⟨e, hp⟩
  case h_5 e hp =>
    split at hs
    case isTrue =>
      cases hs
      refine h.outside (p := p) rfl rfl (fun q hq => setProc_of_ne _ _ hq) (by simp [hp])
        ?_ ?_ ?_ fun c' hw => ?_
      · simp [setProc_self]
      · simp [setProc_self]
      · simp [setProc_self]
      · unfold Waits at hw
        simp [setProc_self] at hw
    case isFalse => cases hs

lemma Inv.enter {e : Entry} (hs : enter p e s = some s') : Inv s' := by
  unfold Ipc.enter at hs
  split at hs
  case isTrue hp =>
    cases hs
    refine h.outside (p := p) rfl rfl (fun q hq => setProc_of_ne _ _ hq) (by simp [hp])
      ?_ ?_ ?_ fun c' hw => ?_
    · simp [State.goto, setProc_self]
    · simp [State.goto, setProc_self]
    · intro hsleep
      rw [State.goto, setProc_self] at hsleep
      obtain ⟨e', he⟩ := h.sleeping p hsleep
      rw [hp] at he
      cases he
    · unfold Waits at hw
      rw [State.goto, setProc_self] at hw
      exact .inr (by simpa using hw)
  case isFalse => cases hs

/-- Process `p` is not in the loop of `pipewrite`, with more to write, in a pipe that is not
empty while some reader waits. -/
def KillSafe (s : State) (p : Slot) : Prop :=
  ∀ i n, (s.proc p).pc = .held (.top (.write i n)) → i < n → ¬s.pi.ring.Empty →
    ∀ q, ¬Waits s q .nread

/-- The holder of `pi->lock` is killed at `x`. -/
lemma Inv.covers_killed (hsafe : KillSafe s p) (hp : (s.proc p).pc = .held x) (hq : Waits s q c) :
    Covers s.pi true c q x := by
  have hcov := h.covers q c p x hq hp
  cases x with
  | top e =>
    cases e with
    | write i n =>
      cases hcov with
      | inl hb => exact .inl hb
      | inr hc =>
        obtain ⟨rfl, hwrite, hread, -⟩ := hc
        by_cases hin : i < n
        · by_cases hempty : s.pi.ring.Empty
          · exact .inl ⟨hempty, hwrite⟩
          · exact absurd hq (hsafe i n hp hin hempty q)
        · exact .inr ⟨rfl, hwrite, hread, fun _ => by omega⟩
    | read n => exact hcov
    | close writable => exact hcov
  | readCopy i n => exact hcov
  | writeSleep i n => exact hcov
  | readSleep n => exact hcov
  | wakeup c' j k => exact hcov

/-- A killed process wakes up. The condition is needed for the writer that has put bytes. -/
lemma Inv.kill (hsafe : KillSafe s p) (hs : kill p s = some s') : Inv s' := by
  unfold Ipc.kill at hs
  split at hs
  case isTrue => cases hs
  case isFalse hunlocked =>
  have hs := Option.some.inj hs
  have hself : s'.proc p = { s.proc p with
      killed := true
      state := if (s.proc p).state = .sleeping then .runnable else (s.proc p).state } := by
    rw [← hs, setProc_self]
  have hothers : ∀ q, q ≠ p → s'.proc q = s.proc q := by
    intro q hq
    rw [← hs, setProc_of_ne _ _ hq]
  have hpi : s'.pi = s.pi := by rw [← hs]; rfl
  have hlock : s'.lock = s.lock := by rw [← hs]; rfl
  have hawake : (s'.proc p).state ≠ .sleeping := by
    rw [hself]
    dsimp only
    split
    · simp
    · assumption
  by_cases hheld : ∃ x, (s.proc p).pc = .held x
  · obtain ⟨x, hp⟩ := hheld
    have hrunning : (s.proc p).state ≠ .sleeping := by
      intro hsleep
      obtain ⟨e, he⟩ := h.sleeping p hsleep
      rw [hp] at he
      cases he
    refine h.inside hp hlock (fun q hq => ?_) (by rw [hself, hp]) (by rw [hself, if_neg hrunning])
      ?_ fun q c hq _ => ?_
    · rw [hothers q hq]
      exact ⟨rfl, id⟩
    · rw [hpi]
      exact h.ready p x hp
    · rw [hself, hpi]
      exact h.covers_killed hsafe hp hq
  · have hp : ∀ x, (s.proc p).pc ≠ .held x := fun x hx => hheld ⟨x, hx⟩
    refine h.outside hpi hlock hothers hp ?_ ?_ (fun hw => absurd hw hawake) fun c hw => ?_
    · rw [hself]
      exact hp
    · rw [hself]
      intro c e he
      exact h.falling p c e he
    · cases hw with
      | inl hw =>
        rw [hself] at hw
        exact .inl hw
      | inr hw => exact absurd hw.1 hawake

/-- A step in which only processes that are safe to kill are killed. -/
def NextSafe (s s' : State) : Prop :=
  ∃ a, step a s = some s' ∧ ∀ p, a = .kill p → KillSafe s p

/-- Every step keeps the invariant, kills only if they are safe. -/
lemma Inv.step (hs : NextSafe s s') : Inv s' := by
  obtain ⟨a, hs, hsafe⟩ := hs
  unfold Ipc.step at hs
  split at hs
  · cases hs
  cases a with
  | write p n => exact h.enter hs
  | read p n => exact h.enter hs
  | close p writable => exact h.enter hs
  | run p u => exact h.run hs
  | kill p => exact h.kill (hsafe p rfl) hs
  | recycle p =>
    dsimp only at hs
    split at hs
    case isTrue hp =>
      cases hs
      refine h.outside (p := p) rfl rfl (fun q hq => setProc_of_ne _ _ hq) (by simp [hp])
        ?_ ?_ ?_ fun c hw => ?_
      · simp [setProc_self, hp]
      · simp [setProc_self, hp]
      · rw [setProc_self]
        exact h.sleeping p
      · unfold Waits at hw
        rwa [setProc_self] at hw
    case isFalse => cases hs

end Kept

lemma Inv.pipealloc (data : ℕ → UInt8) : Inv (pipealloc data) := by
  constructor <;> simp [Ipc.pipealloc, Waits]

/-- While no kill hits a writer that has put bytes for a waiting reader and would put more, a
process that sleeps on the pipe when `pi->lock` is free still has something to wait for. -/
theorem pipe_wakeup {data : ℕ → UInt8}
    (hs : Relation.ReflTransGen NextSafe (pipealloc data) s) (hfree : s.lock = none)
    (hq : (s.proc q).state = .sleeping) :
    ((s.proc q).chan = some .nread → s.pi.ring.Empty ∧ s.pi.writeopen = true) ∧
      ((s.proc q).chan = some .nwrite → s.pi.ring.Full ∧ s.pi.readopen = true) := by
  have h : Inv s := preserved (fun _ _ h hs => h.step hs) (.pipealloc data) hs
  exact ⟨fun hc => h.free q .nread (.inr ⟨hq, hc⟩) hfree,
    fun hc => h.free q .nwrite (.inr ⟨hq, hc⟩) hfree⟩

/-- A run without kills. -/
lemma runActs_safe (s : State) {acts : List Act} (h : ∀ a ∈ acts, ∀ p, a ≠ .kill p) :
    Relation.ReflTransGen NextSafe s (runActs s acts) :=
  runActs_of_mem (fun a ha _ _ hs => ⟨a, hs, fun p hp => absurd hp (h a ha p)⟩) s

/-- Process 0 calls `piperead` on the empty pipe and goes to sleep. -/
def readerActs : List Act := .read 0 1 :: List.replicate 4 (.run 0 ⟨none, true⟩)

/-- The pipe after `readerActs`. -/
def readerAsleep : State := runActs (pipealloc fun _ => 0) readerActs

theorem pipe_wakeup_readerAsleep :
    (readerAsleep.lock, (readerAsleep.proc 0).chan) = (none, some .nread) ∧
    ((readerAsleep.proc 0).chan = some .nread →
      readerAsleep.pi.ring.Empty ∧ readerAsleep.pi.writeopen = true) ∧
    ((readerAsleep.proc 0).chan = some .nwrite →
      readerAsleep.pi.ring.Full ∧ readerAsleep.pi.readopen = true) := by
  refine ⟨by decide +kernel, pipe_wakeup (runActs_safe _ ?_) (by decide +kernel)
    (by decide +kernel)⟩
  intro a ha
  simp [readerActs] at ha
  rcases ha with rfl | rfl <;> simp

/-- A kill that is not safe strands the reader: the next step of the killed writer leaves the
lock free and the reader waiting for a pipe that is not empty. -/
lemma unsafe_kill_strands (hfreed : s.freed = false) (hunlocked : (s.proc p).locked = false)
    {i n : ℤ} (hp : (s.proc p).pc = .held (.top (.write i n))) (hin : i < n)
    (hsome : ¬s.pi.ring.Empty) (hq : Waits s q .nread) (hqp : q ≠ p) (u : User) :
    ∃ s₁ s₂, step (.kill p) s = some s₁ ∧ step (.run p u) s₁ = some s₂ ∧ s₂.lock = none ∧
      ¬s₂.pi.ring.Empty ∧ Waits s₂ q .nread := by
  obtain ⟨s₁, hs₁⟩ : ∃ s₁, s₁ = s.setProc p fun x =>
      { x with killed := true, state := if x.state = .sleeping then .runnable else x.state } :=
    ⟨_, rfl⟩
  have hself : s₁.proc p = { s.proc p with
      killed := true
      state := if (s.proc p).state = .sleeping then .runnable else (s.proc p).state } := by
    rw [hs₁, setProc_self]
  have hpc : (s₁.proc p).pc = .held (.top (.write i n)) := by rw [hself, hp]
  have hkilled : s₁.pi.readopen = false ∨ (s₁.proc p).killed = true := .inr (by rw [hself])
  refine ⟨s₁, s₁.leave p (-1), ?_, ?_, rfl, ?_, ?_⟩
  · simp only [step, hfreed, kill, hunlocked, hs₁, Bool.false_eq_true, if_false]
  · have hfreed₁ : s₁.freed = false := by rw [hs₁]; exact hfreed
    simp only [step, hfreed₁, run, hpc, runHeld, Ipc.pipewrite, hin, hkilled, if_true,
      Bool.false_eq_true, if_false]
  · rw [hs₁]
    exact hsome
  · have hothers : (s₁.leave p (-1)).proc q = s.proc q := by
      rw [State.leave, setProc_of_ne _ _ hqp, hs₁]
      exact update_of_ne hqp ..
    unfold Waits at hq ⊢
    rwa [hothers]

/-- Process 0 sleeps in `piperead`. Process 1 calls `pipewrite` with two bytes and puts the
first one; it is killed before it puts the second one, and returns. -/
def strandRun : State :=
  runActs (pipealloc fun _ => 0) (readerActs ++
    [.write 1 2, .run 1 ⟨none, true⟩, .run 1 ⟨some 7, true⟩, .kill 1, .run 1 ⟨some 8, true⟩])

/-- The reader sleeps on a pipe that holds a byte. -/
theorem killed_writer_strands_reader :
    Reachable (fun _ => 0) strandRun ∧ strandRun.lock = none ∧
    ((strandRun.proc 1).pc, (strandRun.proc 1).ret) = (.out, -1) ∧
    ((strandRun.proc 0).state, (strandRun.proc 0).chan) = (.sleeping, some .nread) ∧
    strandRun.pi.ring.count = 1 ∧ ¬strandRun.pi.ring.Empty :=
  ⟨runActs_run .., by decide +kernel, by decide +kernel, by decide +kernel, by decide +kernel,
    by decide +kernel⟩

end Xv6.Ipc
