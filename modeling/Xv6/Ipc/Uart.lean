import Xv6.Lib.Fifo
import Xv6.Lib.Spec
import Xv6.Process.Machine

/-!
# Output to the console (`kernel/uart.c`)

`uartputc` leaves characters in a ring buffer with 64-bit counters, from which `uartstart` feeds
the transmit register, called by `uartputc` itself and by the interrupt for an empty register.
On one hart, each of the two runs under `uart_tx_lock` from one `sleep` to the next. Characters
that `uartputc_sync` writes go past the buffer.
-/

namespace Xv6.Ipc.Uart

open Xv6.Lib
open Xv6.Process (Slot)
open Function (update update_of_ne update_self)

/-- Bytes that `uart_tx_buf` can hold. -/
def UART_TX_BUF_SIZE : ℕ := 32

/-- A character, and whether it comes from the buffer. -/
abbrev Sent := Bool × UInt8

/-- The driver and the UART. The last two fields record what `uartputc` has put into the buffer
and what the UART has sent; no definition reads them. -/
structure State where
  /-- `uart_tx_buf` with `uart_tx_r` and `uart_tx_w`. -/
  ring : Fifo UInt8 64 UART_TX_BUF_SIZE
  thr : Option Sent
  /-- The interrupt for an empty register is pending. -/
  irq : Bool
  /-- The argument of a process in `uartputc`, and whether it sleeps. -/
  proc : Slot → Option (UInt8 × Bool)
  taken : List UInt8
  wire : List Sent

/-- The UART sends what is in its register. -/
def State.send (s : State) : State :=
  { s with wire := s.wire ++ s.thr.toList, thr := none, irq := true }

/-- `uartstart`. The UART empties its register `n` times while the loop runs. -/
def uartstart : ℕ → State → State
  | n, s =>
    if s.ring.Empty ∨ s.thr ≠ none then s
    else
      let s := { s with
        ring := s.ring.pop
        proc := fun p => (s.proc p).map fun x => (x.1, false)
        thr := some (true, s.ring.front) }
      match n with
      | 0 => s
      | n + 1 => uartstart n s.send

/-- The loop of `uartputc` and what follows it. -/
def uartputc (n : ℕ) (p : Slot) (c : UInt8) (s : State) : State :=
  if s.ring.Full then { s with proc := update s.proc p (some (c, true)) }
  else uartstart n { s with
    ring := s.ring.put c
    proc := update s.proc p none
    taken := s.taken ++ [c] }

/-- What can happen next. -/
inductive Act where
  | call (p : Slot) (c : UInt8) (n : ℕ)
  | again (p : Slot) (n : ℕ)
  /-- `uartputc_sync`. -/
  | sync (c : UInt8)
  | send
  /-- `uartintr`, for output. -/
  | intr (n : ℕ)

def step (s : State) : Act → Option State
  | .call p c n => if s.proc p = none then some (uartputc n p c s) else none
  | .again p n =>
    match s.proc p with
    | some (c, false) => some (uartputc n p c s)
    | _ => none
  | .sync c => if s.thr = none then some { s with thr := some (false, c) } else none
  | .send => if s.thr = none then none else some s.send
  | .intr n => some (uartstart n { s with irq := false })

/-- After `uartinit`, with any values of the counters. -/
structure Fresh (s : State) : Prop where
  ring : s.ring.Empty
  proc : ∀ p, s.proc p = none
  thr : s.thr = none
  taken : s.taken = []
  wire : s.wire = []

def Reachable (s : State) : Prop :=
  ∃ s₀, Fresh s₀ ∧ Relation.ReflTransGen (fun s s' => ∃ a, step s a = some s') s₀ s

/-! ## The invariant -/

/-- The characters from the buffer that were sent or are in the register. -/
def State.out (s : State) : List UInt8 :=
  (s.wire ++ s.thr.toList).filterMap fun x => if x.1 then some x.2 else none

/-- What holds inside of `uartstart`, too. -/
structure Core (s : State) : Prop where
  fifo : s.out ++ s.ring.contents = s.taken
  room : s.ring.count ≤ UART_TX_BUF_SIZE
  full : ∀ p c, s.proc p = some (c, true) → s.ring.Full

structure Inv (s : State) : Prop extends Core s where
  busy : ¬s.ring.Empty → s.thr ≠ none ∨ s.irq = true

variable {s : State} {p : Slot} {c : UInt8}

/-- `uartstart` sends the oldest character. -/
lemma Core.send (h : Core s) : Core s.send := by
  refine ⟨?_, h.room, h.full⟩
  have hout : s.send.out = s.out := by simp [State.out, State.send]
  rw [hout]
  exact h.fifo

/-- One character goes from the buffer to the register. -/
lemma Core.feed (h : Core s) (hne : ¬s.ring.Empty) (hthr : s.thr = none) :
    Core { s with
      ring := s.ring.pop
      proc := fun p => (s.proc p).map fun x => (x.1, false)
      thr := some (true, s.ring.front) } := by
  have hpos : 0 < s.ring.count := Nat.pos_of_ne_zero fun h0 => hne (s.ring.empty_iff.2 h0)
  refine ⟨?_, ?_, fun p c hp => ?_⟩
  · rw [← h.fifo, Fifo.contents_eq_cons hpos]
    simp [State.out, hthr]
  · have hcount := Fifo.count_pop hpos
    have hroom := h.room
    dsimp only
    omega
  · -- all were woken
    simp at hp

/-- The loop of `uartstart`: at the end the register is in use or nothing is left. -/
lemma Core.uartstart (h : Core s) (n : ℕ) : Inv (uartstart n s) := by
  fun_induction Uart.uartstart n s with
  | case1 n s hstop =>
    -- the buffer is empty, or the register is in use
    exact ⟨h, by tauto⟩
  | case2 s hgo s' =>
    simp only [not_or, not_not] at hgo
    exact ⟨h.feed hgo.1 hgo.2, fun _ => .inl (by simp [s'])⟩
  | case3 s hgo s' n ih =>
    -- the UART was fast, and the loop goes on
    simp only [not_or, not_not] at hgo
    exact ih (h.feed hgo.1 hgo.2).send

/-- `uartputc` buffers its character, or sleeps on the full buffer. -/
lemma Inv.uartputc (h : Inv s) (n : ℕ) (p : Slot) (c : UInt8) : Inv (uartputc n p c s) := by
  unfold Uart.uartputc
  split
  case isTrue hfull => exact ⟨⟨h.fifo, h.room, fun _ _ _ => hfull⟩, h.busy⟩
  case isFalse hroom =>
    have hlt : s.ring.count < UART_TX_BUF_SIZE :=
      lt_of_le_of_ne h.room fun heq => hroom ((Fifo.full_iff (by decide) _).2 heq)
    refine Core.uartstart ⟨?_, ?_, fun q d hq => ?_⟩ n
    · rw [Fifo.contents_put (by decide) (by decide) hlt, ← List.append_assoc]
      exact congrArg (· ++ [c]) h.fifo
    · have hcount := Fifo.count_put (by decide) hlt c
      dsimp only
      omega
    · -- nobody sleeps while there is room
      by_cases hqp : q = p
      · simp [hqp] at hq
      · exact absurd (h.full q d (by simpa [hqp] using hq)) hroom

lemma Inv.step (h : Inv s) {a : Act} {s' : State} (ha : step s a = some s') : Inv s' := by
  cases a with
  | call p c n =>
    simp only [Uart.step, Option.ite_none_right_eq_some, Option.some.injEq] at ha
    exact ha.2 ▸ h.uartputc n p c
  | again p n =>
    simp only [Uart.step] at ha
    split at ha
    · exact Option.some.inj ha ▸ h.uartputc n p _
    · cases ha
  | sync c =>
    simp only [Uart.step, Option.ite_none_right_eq_some, Option.some.injEq] at ha
    obtain ⟨hthr, rfl⟩ := ha
    have hout : State.out { s with thr := some (false, c) } = s.out := by simp [State.out, hthr]
    exact ⟨⟨hout ▸ h.fifo, h.room, h.full⟩, fun _ => .inl (by simp)⟩
  | send =>
    simp only [Uart.step, Option.ite_none_left_eq_some, Option.some.injEq] at ha
    exact ha.2 ▸ ⟨h.send, fun _ => .inr rfl⟩
  | intr n =>
    obtain rfl := Option.some.inj ha
    have hcore : Core { s with irq := false } := ⟨h.fifo, h.room, h.full⟩
    exact hcore.uartstart n

/-- In every run the characters of `uartputc` leave the UART in order and each once, also past the
wrap of the counters; a process sleeps only while the buffer is full; and while it is not empty
the UART is busy or its interrupt is pending, so that no wakeup is lost. -/
theorem uart_output (hs : Reachable s) :
    s.out ++ s.ring.contents = s.taken ∧ s.ring.count ≤ UART_TX_BUF_SIZE ∧
    (∀ p c, s.proc p = some (c, true) → s.ring.Full) ∧
    (¬s.ring.Empty → s.thr ≠ none ∨ s.irq = true) := by
  obtain ⟨s₀, h₀, hrun⟩ := hs
  have hcount := s₀.ring.empty_iff.1 h₀.ring
  have hnil : s₀.ring.contents = [] := List.eq_nil_of_length_eq_zero (by
    rw [Fifo.length_contents, hcount])
  have hinv : Inv s₀ := ⟨⟨by simp [State.out, h₀.wire, h₀.thr, hnil, h₀.taken], by simp [hcount],
    by simp [h₀.proc]⟩, fun hne => absurd h₀.ring hne⟩
  have h : Inv s := preserved (fun s s' h hnext => hnext.elim fun a ha => h.step ha) hinv hrun
  exact ⟨h.fifo, h.room, h.full, h.busy⟩

/-- Nothing was written yet, and the counters are about to wrap. -/
def boot : State := ⟨⟨fun _ => 0, -1, -1⟩, none, false, fun _ => none, [], []⟩

theorem uart_output_boot : ∃ s, step boot (.call 0 65 0) = some s ∧ s.taken = [65] ∧
    s.out ++ s.ring.contents = s.taken :=
  ⟨_, rfl, rfl, (uart_output ⟨boot, ⟨rfl, fun _ => rfl, rfl, rfl, rfl⟩,
    .single ⟨.call 0 65 0, rfl⟩⟩).1⟩

end Xv6.Ipc.Uart
