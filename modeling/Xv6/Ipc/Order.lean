import Xv6.Ipc.Pipe
import Xv6.Lib.Spec

/-!
# A pipe is a queue

`Queue` says what the ring and the history variables have to do with each other: the bytes
that readers took, followed by those in the ring, are the bytes that writers put. A step
leaves all of them alone, puts one byte into a ring with room, or takes one out of a ring that
is not empty.
-/

namespace Xv6.Ipc

open Xv6.Lib

variable {s s' : State} {p : Process.Slot} {u : User}

/-- What a step does to the ring and the history variables. -/
inductive RingStep (s s' : State) : Prop where
  | same (hring : s'.pi.ring = s.pi.ring) (hput : s'.put = s.put) (hgot : s'.got = s.got)
  | put (ch : UInt8) (hroom : ¬s.pi.ring.Full) (hring : s'.pi.ring = s.pi.ring.put ch)
      (hput : s'.put = s.put ++ [ch]) (hgot : s'.got = s.got)
  | pop (hsome : ¬s.pi.ring.Empty) (hring : s'.pi.ring = s.pi.ring.pop) (hput : s'.put = s.put)
      (hgot : s'.got = s.got ++ [s.pi.ring.front])

lemma RingStep.goto (h : RingStep s s') (p : Process.Slot) (pc : Pc) :
    RingStep s (s'.goto p pc) := by
  cases h with
  | same hring hput hgot => exact .same hring hput hgot
  | put ch hroom hring hput hgot => exact .put ch hroom hring hput hgot
  | pop hsome hring hput hgot => exact .pop hsome hring hput hgot

/-! ## What a step does to the ring -/

/-- `pipewrite` puts at most one byte in a step. -/
lemma pipewrite_ring (u : User) (p : Process.Slot) (i n : ℤ) (s : State) :
    RingStep s (pipewrite u p i n s) := by
  unfold pipewrite
  split
  case isFalse => exact .same rfl rfl rfl
  case isTrue =>
  split
  case isTrue => exact .same rfl rfl rfl
  case isFalse =>
  split
  case isTrue => exact .same rfl rfl rfl
  case isFalse hroom =>
    split
    · exact .same rfl rfl rfl
    · exact .put _ hroom rfl rfl rfl

/-- `piperead` takes at most one byte in a step. -/
lemma pipereadCopy_ring (u : User) (p : Process.Slot) (i n : ℤ) (s : State) :
    RingStep s (pipereadCopy u p i n s) := by
  unfold pipereadCopy
  split
  case isFalse => exact .same rfl rfl rfl
  case isTrue h =>
    dsimp only
    split
    · exact .pop h.2 rfl rfl rfl
    · exact .pop h.2 rfl rfl rfl

lemma wakeOne_ring {c : Chan} {q : Process.Slot} (h : wakeOne c p q s = some s') :
    RingStep s s' := by
  unfold wakeOne at h
  split at h
  · cases h
    exact .same rfl rfl rfl
  split at h
  · cases h
  split at h
  · cases h
    exact .same rfl rfl rfl
  · cases h
    exact .same rfl rfl rfl

lemma runHeld_ring {h : Held} (hs : runHeld u p s h = some s') : RingStep s s' := by
  unfold runHeld at hs
  split at hs
  case h_1 => cases hs; exact pipewrite_ring ..
  case h_2 =>
    cases hs
    unfold pipereadWait
    split
    · split <;> exact .same rfl rfl rfl
    · exact .same rfl rfl rfl
  case h_3 =>
    cases hs
    unfold pipeclose
    split <;> exact .same rfl rfl rfl
  case h_4 => cases hs; exact pipereadCopy_ring ..
  case h_5 => cases hs; exact .same rfl rfl rfl
  case h_6 => cases hs; exact .same rfl rfl rfl
  case h_7 =>
    split at hs
    · obtain ⟨s₁, hs₁, rfl⟩ := Option.map_eq_some_iff.1 hs
      exact (wakeOne_ring hs₁).goto ..
    · cases hs
      unfold afterWakeup
      split <;> exact .same rfl rfl rfl

/-- A step of any process puts one byte, takes one, or leaves the ring as it is. -/
lemma step_ring {a : Act} (hs : step a s = some s') : RingStep s s' := by
  unfold step at hs
  split at hs
  · cases hs
  have henter : ∀ {p e}, enter p e s = some s' → RingStep s s' := by
    intro p e h
    unfold enter at h
    split at h
    · cases h
      exact .same rfl rfl rfl
    · cases h
  cases a with
  | write p n => exact henter hs
  | read p n => exact henter hs
  | close p writable => exact henter hs
  | run p u =>
    dsimp only at hs
    unfold run at hs
    split at hs
    · cases hs
    · split at hs
      · cases hs
        exact .same rfl rfl rfl
      · cases hs
    · exact runHeld_ring hs
    · cases hs
      exact .same rfl rfl rfl
    · split at hs
      · cases hs
        exact .same rfl rfl rfl
      · cases hs
  | kill p =>
    dsimp only at hs
    unfold kill at hs
    split at hs
    · cases hs
    · cases hs
      exact .same rfl rfl rfl
  | recycle p =>
    dsimp only at hs
    split at hs
    · cases hs
      exact .same rfl rfl rfl
    · cases hs

/-! ## Whole runs -/

/-- The ring holds what was put and not yet taken, and no more than fits. -/
structure Queue (s : State) : Prop where
  bound : s.pi.ring.count ≤ PIPESIZE
  order : s.put = s.got ++ s.pi.ring.contents

/-- The ring holds what was put and not yet taken. -/
lemma Queue.step (h : Queue s) (hs : RingStep s s') : Queue s' := by
  have hdvd : PIPESIZE ∣ 2 ^ 32 := by decide
  have hlt : PIPESIZE < 2 ^ 32 := by decide
  cases hs with
  | same hring hput hgot =>
    constructor
    · rw [hring]
      exact h.bound
    · rw [hring, hput, hgot]
      exact h.order
  | put ch hroom hring hput hgot =>
    have hcount : s.pi.ring.count < PIPESIZE :=
      lt_of_le_of_ne h.bound fun hc => hroom ((Fifo.full_iff hlt _).2 hc)
    constructor
    · rw [hring, Fifo.count_put hlt hcount]
      exact hcount
    · rw [hring, hput, hgot, Fifo.contents_put hdvd hlt hcount, h.order, List.append_assoc]
  | pop hsome hring hput hgot =>
    have hcount : 0 < s.pi.ring.count :=
      Nat.pos_of_ne_zero fun hc => hsome ((Fifo.empty_iff _).2 hc)
    constructor
    · rw [hring, Fifo.count_pop hcount]
      exact (Nat.sub_le _ _).trans h.bound
    · rw [hring, hput, hgot, h.order, Fifo.contents_eq_cons hcount, List.append_assoc,
        List.singleton_append]

/-- In every state a pipe reaches, the ring holds at most `PIPESIZE` bytes, the bytes readers
took are a prefix of those writers put, and `data[nread..nwrite)` holds the others in order. -/
theorem pipe_fifo {data : ℕ → UInt8} (hs : Reachable data s) :
    (s.pi.ring.nwrite - s.pi.ring.nread).toNat ≤ PIPESIZE ∧ s.got <+: s.put ∧
      s.put.drop s.got.length =
        (List.range (s.pi.ring.nwrite - s.pi.ring.nread).toNat).map fun k =>
          s.pi.ring.data ((s.pi.ring.nread + BitVec.ofNat 32 k).toNat % PIPESIZE) := by
  have h : Queue s := by
    refine preserved (fun s s' h ⟨a, ha⟩ => h.step (step_ring ha)) ?_ hs
    exact ⟨by simp [pipealloc, Fifo.count], by simp [pipealloc, Fifo.contents, Fifo.count]⟩
  refine ⟨h.bound, ⟨_, h.order.symm⟩, ?_⟩
  rw [h.order, List.drop_left]
  rfl

/-- Process 0 writes two bytes and process 1 reads one of them. -/
def passRun : State :=
  runActs (pipealloc fun _ => 0)
    ([.write 0 2, .run 0 ⟨none, true⟩, .run 0 ⟨some 7, true⟩, .run 0 ⟨some 8, true⟩] ++
      List.replicate 66 (.run 0 ⟨none, true⟩) ++
      [.read 1 1, .run 1 ⟨none, true⟩, .run 1 ⟨none, true⟩, .run 1 ⟨none, true⟩])

theorem pipe_fifo_passRun :
    (passRun.put, passRun.got, passRun.lock) = ([7, 8], [7], some 1) ∧
    (passRun.pi.ring.nwrite - passRun.pi.ring.nread).toNat ≤ PIPESIZE ∧
      passRun.got <+: passRun.put ∧
      passRun.put.drop passRun.got.length =
        (List.range (passRun.pi.ring.nwrite - passRun.pi.ring.nread).toNat).map fun k =>
          passRun.pi.ring.data
            ((passRun.pi.ring.nread + BitVec.ofNat 32 k).toNat % PIPESIZE) :=
  ⟨by decide +kernel, pipe_fifo (runActs_run ..)⟩

end Xv6.Ipc
