import Xv6.Table.Reaping

/-!
# Process ids

`allocpid` hands out the values of the 32-bit counter `nextpid`, one after the other, and never
looks whether a value is in use. Up to the first wrap to a negative number the pids are positive
and different; after it `fork` returns negative pids, and once the counter is back at 1 a new
process has the pid of `init`.
-/

namespace Xv6.Table

open Xv6.Lib
open Xv6.Process (NPROC Slot ProcState Stop)
open Function (update update_of_ne update_self)

variable {s s' : State} {p q c np : Slot}

/-- The slot and the pid of an allocation. -/
def Event.allocated : Event → Option (Slot × BitVec 32)
  | .alloc c pid => some (c, pid)
  | _ => none

/-- The allocations among the events `es`, in order. -/
def allocated (es : List Event) : List (Slot × BitVec 32) := es.filterMap Event.allocated

lemma allocated_record (es : List Event) (e : Event) :
    allocated (es ++ [e]) = allocated es ++ e.allocated.toList := by
  rw [allocated, List.filterMap_append, List.filterMap_cons]
  cases e.allocated <;> rfl

/-- A step allocates no pid, or the next one. -/
lemma Records.alloc (h : Records s s') :
    (allocated s'.hist = allocated s.hist ∧ s'.nextpid = s.nextpid) ∨
      ∃ c, allocated s'.hist = allocated s.hist ++ [(c, s.nextpid)] ∧
        s'.nextpid = s.nextpid + 1 := by
  rcases h.event with ⟨hhist, hnext⟩ | ⟨e, hhist, he⟩
  · exact .inl ⟨by rw [hhist], hnext⟩
  rw [hhist, allocated_record]
  cases e with
  | alloc c pid =>
    obtain ⟨rfl, hnext⟩ := he
    exact .inr ⟨c, rfl, hnext⟩
  | fail c => exact .inl ⟨List.append_nil _, he.1⟩
  | exit c pid status => exact .inl ⟨List.append_nil _, he⟩
  | reap p c pid status => exact .inl ⟨List.append_nil _, he.1⟩

/-! ## Pids and the history -/

/-- The pid of a slot in use. -/
def Stage.pid : Stage → Option (BitVec 32)
  | .free => none
  | .live pid => some pid
  | .zombie pid _ => some pid

/-- The pid stays the one of the allocation. -/
lemma Stage.pid_next {t t' : Stage} {e : Event} {pid : BitVec 32} (h : t.next e = some t')
    (hpid : t'.pid = some pid) : e.allocated = some (e.slot, pid) ∨ t.pid = some pid := by
  cases t <;> cases e <;> simp only [Stage.next, reduceCtorEq] at h
  case free.alloc =>
    cases h
    cases hpid
    exact .inl rfl
  case live.fail =>
    cases h
    cases hpid
  case live.exit =>
    split at h
    · cases h
      exact .inr hpid
    · cases h
  case zombie.reap =>
    split at h
    · cases h
      cases hpid
    · cases h

/-- A slot in use was allocated with its pid. -/
lemma mem_allocated_of_stage {es : List Event} : ∀ {t : Stage} {pid : BitVec 32},
    stage c es = some t → t.pid = some pid → (c, pid) ∈ allocated es := by
  induction es using List.reverseRecOn with
  | nil =>
    intro t pid ht hpid
    cases ht
    cases hpid
  | append_singleton es e ih =>
    intro t pid ht hpid
    rw [stage_record] at ht
    rw [allocated_record, List.mem_append]
    split at ht
    case isFalse => exact .inl (ih ht hpid)
    case isTrue he =>
      obtain ⟨t', ht', hnext⟩ := Option.bind_eq_some_iff.1 ht
      rcases Stage.pid_next hnext hpid with halloc | hold
      · exact .inr (by rw [halloc, he]; exact List.mem_singleton.2 rfl)
      · exact .inl (ih ht' hold)

lemma Proc.pid_stage {x : Proc} (h : x.state ≠ .unused) : x.stage.pid = some x.pid := by
  unfold Proc.stage
  cases hx : x.state <;> first | rfl | exact absurd hx h

lemma Inv.mem_allocated (h : Inv s) (hc : (s.proc c).state ≠ .unused) :
    (c, (s.proc c).pid) ∈ allocated s.hist :=
  mem_allocated_of_stage (h.life c) (Proc.pid_stage hc)

/-- The counter, and the pids of the allocations. -/
structure Counted (s : State) : Prop where
  next : s.nextpid = BitVec.ofNat 32 ((allocated s.hist).length + 1)
  pid : ∀ i x, (allocated s.hist)[i]? = some x → x.2 = BitVec.ofNat 32 (i + 1)
  forked : ∀ p np pid, (s.pc p).forked = some (np, pid) → (np, pid) ∈ allocated s.hist

lemma Counted.step (h : Counted s) (hinv : Inv s) {a : Act} (hs : Table.step a s = .ok s') :
    Counted s' := by
  have hrec := step_records hs
  have hmem : ∀ q np pid, (s'.pc q).forked = some (np, pid) → (np, pid) ∈ allocated s.hist := by
    intro q np pid hq
    rcases hrec.forked q np pid hq with hold | ⟨hsetup, rfl⟩
    · exact h.forked q np pid hold
    · have hused := hinv.fork q np (by rw [hsetup]; rfl)
      exact hinv.mem_allocated (by rw [hused]; decide)
  rcases hrec.alloc with ⟨hsame, hnext⟩ | ⟨c, hnew, hnext⟩
  · refine ⟨?_, ?_, ?_⟩
    · rw [hnext, hsame, h.next]
    · rw [hsame]
      exact h.pid
    · rw [hsame]
      exact hmem
  · refine ⟨?_, fun i x hx => ?_, fun q np pid hq => ?_⟩
    · rw [hnext, hnew, h.next, List.length_append, List.length_singleton,
        BitVec.ofNat_add ((allocated s.hist).length + 1) 1]
      rfl
    · rw [hnew] at hx
      rcases Nat.lt_or_ge i (allocated s.hist).length with hi | hi
      · rw [List.getElem?_append_left hi] at hx
        exact h.pid i x hx
      · rw [List.getElem?_append_right hi, List.getElem?_singleton] at hx
        split at hx
        case isTrue hzero =>
          cases hx
          rw [h.next, show i = (allocated s.hist).length by omega]
        case isFalse => cases hx
    · rw [hnew]
      exact List.mem_append_left _ (hmem q np pid hq)

lemma Counted.boot : Counted boot := by
  refine ⟨by decide, fun i x hx => ?_, fun p np pid hp => by cases hp⟩
  change [((0 : Slot), (1 : BitVec 32))][i]? = some x at hx
  rw [List.getElem?_singleton] at hx
  split at hx
  case isTrue hi =>
    cases hx
    rw [hi]
    rfl
  case isFalse => cases hx

lemma reachable_counted (hs : Reachable s) : Inv s ∧ Counted s :=
  preserved (I := fun t => Inv t ∧ Counted t)
    (fun _ _ h ⟨_, hs⟩ => ⟨h.1.step hs, h.2.step h.1 hs⟩) ⟨Inv.boot, Counted.boot⟩ hs

/-! ## Unique and positive pids -/

/-- Pids identify processes. -/
structure UniquePids (s : State) : Prop where
  positive : ∀ p, (s.proc p).state ≠ .unused → 0 < (s.proc p).pid.toInt
  unique : ∀ p q, (s.proc p).state ≠ .unused → (s.proc q).state ≠ .unused →
    (s.proc p).pid = (s.proc q).pid → p = q
  /-- What `fork` returns to the parent. -/
  fork : ∀ p np pid, s.pc p = .forkRunnable np pid → 0 < pid.toInt

/-- An allocation is determined by its pid, up to the wrap of the counter. -/
lemma Counted.pid_inj (h : Counted s) (hlt : (allocated s.hist).length < 2 ^ 31)
    {x y : Slot × BitVec 32} (hx : x ∈ allocated s.hist) (hy : y ∈ allocated s.hist)
    (heq : x.2 = y.2) : x = y := by
  obtain ⟨i, hi⟩ := List.mem_iff_getElem?.1 hx
  obtain ⟨j, hj⟩ := List.mem_iff_getElem?.1 hy
  have hil := (List.getElem?_eq_some_iff.1 hi).1
  have hjl := (List.getElem?_eq_some_iff.1 hj).1
  rw [h.pid i x hi, h.pid j y hj] at heq
  have hval := congrArg BitVec.toNat heq
  rw [BitVec.toNat_ofNat, BitVec.toNat_ofNat, Nat.mod_eq_of_lt (by omega),
    Nat.mod_eq_of_lt (by omega)] at hval
  have hij : i = j := by omega
  rw [hij, hj] at hi
  exact Option.some.inj hi.symm

lemma Counted.pid_pos (h : Counted s) (hlt : (allocated s.hist).length < 2 ^ 31)
    {x : Slot × BitVec 32} (hx : x ∈ allocated s.hist) : 0 < x.2.toInt := by
  obtain ⟨i, hi⟩ := List.mem_iff_getElem?.1 hx
  have hil := (List.getElem?_eq_some_iff.1 hi).1
  rw [h.pid i x hi, BitVec.toInt_eq_toNat_of_lt] <;> rw [BitVec.toNat_ofNat] <;> omega

/-- As long as `allocpid` was called less than `2 ^ 31` times, pids are unique and positive. -/
theorem pids_unique (hs : Reachable s) (hlt : (allocated s.hist).length < 2 ^ 31) :
    UniquePids s := by
  obtain ⟨hinv, h⟩ := reachable_counted hs
  refine ⟨fun p hp => h.pid_pos hlt (hinv.mem_allocated hp), fun p q hp hq heq => ?_,
    fun p np pid hp => h.pid_pos hlt (h.forked p np pid (by rw [hp]; rfl))⟩
  have hxy := h.pid_inj hlt (hinv.mem_allocated hp) (hinv.mem_allocated hq) heq
  exact congrArg Prod.fst hxy

/-- The first process has forked a child. -/
theorem pids_unique_fork :
    let s := runActs boot ([.schedule 0, .call 0 .fork] ++ List.replicate 5 (.run 0 true))
    (s.proc 1).pid = 2 ∧ (allocated s.hist).length < 2 ^ 31 ∧ UniquePids s := by
  refine ⟨by decide +kernel, by decide +kernel, pids_unique (runActs_run ..) (by decide +kernel)⟩

/-! ## Past the wrap

The first process forks a child, which exits at once, and waits for it, again and again. -/

/-- A table with processes in the first two slots only; `locked` is the state of the lock of the
second one. -/
def duo (x y : Proc) (a b : Pc) (w : Option Slot) (locked : Bool) (n : BitVec 32)
    (ret : Slot → BitVec 32) (hist : List Event) : State where
  proc p := if p = 0 then x else if p = 1 then y else Proc.free
  pc p := if p = 0 then a else if p = 1 then b else .user
  waitLock := w
  locked p := decide (p = 1) && locked
  nextpid := n
  ret := ret
  copied _ := none
  hist := hist

section Duo

variable {x y : Proc} {a b : Pc} {w : Option Slot} {l : Bool} {n n' : BitVec 32}
  {ret : Slot → BitVec 32} {hist : List Event}

lemma update_ite_zero {α : Type*} (u v z t : α) :
    update (fun p : Slot => if p = 0 then u else if p = 1 then v else z) 0 t =
      fun p => if p = 0 then t else if p = 1 then v else z := by
  funext p
  by_cases h : p = 0
  · simp [h]
  · simp [h]

lemma update_ite_one {α : Type*} (u v z t : α) :
    update (fun p : Slot => if p = 0 then u else if p = 1 then v else z) 1 t =
      fun p => if p = 0 then u else if p = 1 then t else z := by
  funext p
  by_cases h : p = 1
  · subst h
    rw [update_self]
    rfl
  · simp [h]

lemma duo_proc_one : (duo x y a b w l n ret hist).proc 1 = y := rfl

lemma duo_goto_zero (t : Pc) :
    (duo x y a b w l n ret hist).goto 0 t = duo x y t b w l n ret hist := by
  simp [duo, State.goto, update_ite_zero]

lemma duo_goto_one (t : Pc) :
    (duo x y a b w l n ret hist).goto 1 t = duo x y a t w l n ret hist := by
  simp [duo, State.goto, update_ite_one]

lemma duo_setProc_zero (f : Proc → Proc) :
    (duo x y a b w l n ret hist).setProc 0 f = duo (f x) y a b w l n ret hist := by
  simp [duo, State.setProc, update_ite_zero]

lemma duo_setProc_one (f : Proc → Proc) :
    (duo x y a b w l n ret hist).setProc 1 f = duo x (f y) a b w l n ret hist := by
  simp only [State.setProc, duo_proc_one]
  simp [duo, update_ite_one]

lemma duo_setLocked_one (l' : Bool) :
    (duo x y a b w l n ret hist).setLocked 1 l' = duo x y a b w l' n ret hist := by
  simp only [duo, State.setLocked, State.mk.injEq, true_and, and_true]
  funext p
  by_cases h : p = 1
  · simp [h]
  · simp [h]

/-- `init`, running. -/
def first : Proc := { Proc.free with state := .running, pid := 1 }

/-- Its child. -/
def child (state : ProcState) (pid : BitVec 32) : Proc :=
  { Proc.free with state := state, pid := pid, parent := some 0 }

lemma duo_record (e : Event) :
    (duo x y a b w l n ret hist).record e = duo x y a b w l n ret (hist ++ [e]) := rfl

lemma duo_sysret_zero (v : BitVec 32) : (duo x y a b w l n ret hist).sysret 0 v =
    duo x y .user b w l n (update ret 0 v) hist := by
  rw [State.sysret, duo_goto_zero]
  rfl

lemma duo_nextpid : (duo x y a b w l n ret hist).nextpid = n := rfl

lemma duo_set_nextpid (n' : BitVec 32) :
    { duo x y a b w l n ret hist with nextpid := n' } = duo x y a b w l n' ret hist := rfl

lemma duo_set_waitLock (w' : Option Slot) :
    { duo x y a b w l n ret hist with waitLock := w' } = duo x y a b w' l n ret hist := rfl

lemma slot_one (h : 1 < NPROC) : (⟨1, h⟩ : Slot) = 1 := rfl

/-- `fork` gives the child the pid `n` and returns it. -/
lemma duo_fork : Relation.ReflTransGen Next
    (duo first Proc.free .user b none false n ret hist)
    (duo first (child .runnable n) .user .user none false (n + 1) (update ret 0 n)
      (hist ++ [.alloc 1 n])) := by
  refine .head ⟨.call 0 .fork, rfl⟩ ?_
  rw [duo_goto_zero]
  refine .head ⟨.run 0 true, rfl⟩ ?_
  rw [duo_goto_zero]
  refine .head ⟨.run 0 true, rfl⟩ ?_
  simp only [zero_add, slot_one, duo_setProc_one, duo_setLocked_one, duo_record, duo_set_nextpid,
    duo_goto_zero, duo_nextpid]
  refine .head ⟨.run 0 true, rfl⟩ ?_
  rw [setup, if_pos rfl, duo_setLocked_one, duo_goto_one, duo_goto_zero]
  refine .head ⟨.run 0 true, rfl⟩ ?_
  simp only [duo_setProc_one, duo_goto_zero]
  refine .head ⟨.run 0 true, rfl⟩ ?_
  simp only [duo_setProc_one, duo_sysret_zero]
  exact .refl

/-- What holds of every slot. -/
lemma duo_proc_forall {P : Proc → Prop} (hx : P x) (hy : P y) (hfree : P Proc.free) (q : Slot) :
    P ((duo x y a b w l n ret hist).proc q) := by
  show P (if q = 0 then x else if q = 1 then y else Proc.free)
  split
  · exact hx
  · split
    · exact hy
    · exact hfree

/-- The loop of `reparent` finds no child. -/
lemma duo_reparent (st : BitVec 32) (m : ℕ) : ∀ j, j + m = NPROC → Relation.ReflTransGen Next
    (duo first (child .running n) a (.reparent st j) w l n' ret hist)
    (duo first (child .running n) a (.reparent st NPROC) w l n' ret hist) := by
  induction m with
  | zero =>
    rintro j rfl
    exact .refl
  | succ m ih =>
    intro j hj
    refine .head ⟨.run 1 true, ?_⟩ (ih (j + 1) (by omega))
    show Except.ok (reparent 1 st j _) = _
    rw [reparent, dif_pos (by omega), if_neg (duo_proc_forall (P := fun z => z.parent ≠ some 1)
      (by decide) (by simp only [child]; decide) (by decide) _), duo_goto_one]

lemma wakeOne_none {ch : Chan} (hlocked : s.locked q = false)
    (hawake : (s.proc q).state ≠ .sleeping) : wakeOne ch p q s = .ok s := by
  unfold wakeOne
  split
  · rfl
  · rw [hlocked, if_neg Bool.false_ne_true, if_neg fun h => hawake h.1]
    rfl

/-- The loop of `wakeup` finds no sleeping process. -/
lemma duo_wakeup (st : BitVec 32) (ch : Chan) (m : ℕ) : ∀ j, j + m = NPROC →
    Relation.ReflTransGen Next
      (duo first (child .running n) a (.wakeParent st ch j) w false n' ret hist)
      (duo first (child .running n) a (.wakeParent st ch NPROC) w false n' ret hist) := by
  induction m with
  | zero =>
    rintro j rfl
    exact .refl
  | succ m ih =>
    intro j hj
    refine .head ⟨.run 1 true, ?_⟩ (ih (j + 1) (by omega))
    show wakeup ch 1 j _ _ _ = _
    rw [wakeup, dif_pos (by omega), wakeOne_none (Bool.and_false _) (duo_proc_forall
      (P := fun z => z.state ≠ .sleeping) (by decide) (fun h => by cases h) (by decide) _)]
    exact congrArg Except.ok (duo_goto_one _)

lemma duo_exit : Relation.ReflTransGen Next
    (duo first (child .runnable n) .user .user none false n' ret hist)
    (duo first (child .zombie n) .user .dead none false n' ret (hist ++ [.exit 1 n 0])) := by
  refine .head ⟨.schedule 1, rfl⟩ ?_
  simp only [duo_setProc_one]
  refine .head ⟨.call 1 (.exit 0), rfl⟩ ?_
  rw [duo_goto_one]
  refine .head ⟨.run 1 true, rfl⟩ ?_
  rw [duo_set_waitLock, duo_goto_one]
  refine (duo_reparent 0 NPROC 0 (zero_add _)).trans ?_
  refine .head ⟨.run 1 true, rfl⟩ ?_
  rw [reparent, dif_neg (by omega), duo_goto_one]
  refine (duo_wakeup 0 _ NPROC 0 (zero_add _)).trans ?_
  refine .head ⟨.run 1 true, rfl⟩ ?_
  rw [duo_goto_one]
  refine .head ⟨.run 1 true, rfl⟩ ?_
  simp only [duo_setProc_one, duo_setLocked_one, duo_record, duo_set_waitLock, duo_goto_one]
  refine .head ⟨.finish 1, rfl⟩ ?_
  rw [duo_setLocked_one, duo_goto_one]
  exact .refl

/-- The first process reaps it. -/
lemma duo_wait : Relation.ReflTransGen Next
    (duo first (child .zombie n) .user b none false n' ret hist)
    (duo first Proc.free .user b none false n' (update ret 0 n)
      (hist ++ [.reap 0 1 n 0])) := by
  refine .head ⟨.call 0 (.wait 0), rfl⟩ ?_
  rw [duo_goto_zero]
  refine .head ⟨.run 0 true, rfl⟩ ?_
  rw [duo_set_waitLock, duo_goto_zero]
  refine .head ⟨.run 0 true, rfl⟩ ?_
  rw [duo_goto_zero]
  refine .head ⟨.run 0 true, rfl⟩ ?_
  simp only [zero_add, slot_one, reap, duo_proc_one, ne_eq, not_true_eq_false, false_and, if_false,
    duo_setProc_one, duo_record, duo_set_waitLock, duo_sysret_zero]
  exact .refl

/-- After `k` rounds the counter has moved on by `k`. -/
lemma duo_rounds (k : ℕ) : ∃ b ret hist, Relation.ReflTransGen Next
    (duo first Proc.free .user .user none false n (fun _ => 0) [.alloc initproc 1])
    (duo first Proc.free .user b none false (n + BitVec.ofNat 32 k) ret hist) := by
  induction k with
  | zero =>
    rw [show n + BitVec.ofNat 32 0 = n from BitVec.add_zero n]
    exact ⟨_, _, _, .refl⟩
  | succ k ih =>
    obtain ⟨b, ret, hist, hrun⟩ := ih
    have hround := hrun.trans (duo_fork.trans (duo_exit.trans duo_wait))
    rw [BitVec.add_assoc n, show BitVec.ofNat 32 k + 1 = BitVec.ofNat 32 (k + 1) from
      (BitVec.ofNat_add k 1).symm] at hround
    exact ⟨_, _, _, hround⟩

end Duo

/-- A child can be given any pid. -/
lemma fork_any (pid : BitVec 32) : ∃ ret hist, ret 0 = pid ∧
    Reachable (duo first (child .runnable pid) .user .user none false (pid + 1) ret hist) := by
  have hboot : Next boot
      (duo first Proc.free .user .user none false 2 (fun _ => 0) [.alloc initproc 1]) := by
    refine ⟨.schedule 0, ?_⟩
    have hb : boot = duo { first with state := .runnable } Proc.free .user .user none false 2
        (fun _ => 0) [.alloc initproc 1] := by
      simp only [boot, duo, ite_self, Bool.and_false]
      rfl
    rw [hb]
    exact congrArg Except.ok (duo_setProc_zero _)
  obtain ⟨b, ret, hist, hrun⟩ := duo_rounds (n := 2) (pid - 2).toNat
  rw [BitVec.ofNat_toNat, BitVec.setWidth_eq, BitVec.add_comm, BitVec.sub_add_cancel] at hrun
  exact ⟨_, _, update_self .., .head hboot (hrun.trans duo_fork)⟩

/-- After enough forks, `fork` returns a negative pid, and later a child has the pid of `init`. -/
theorem pids_wrap :
    (∃ s, Reachable s ∧ (s.proc 1).state = .runnable ∧ (s.proc 1).pid.toInt < 0 ∧
      s.ret 0 = (s.proc 1).pid) ∧
    ∃ s, Reachable s ∧ (s.proc 0).state = .running ∧ (s.proc 1).state = .runnable ∧
      (s.proc 1).pid = (s.proc 0).pid := by
  obtain ⟨ret, hist, hret, hs⟩ := fork_any (BitVec.intMin 32)
  obtain ⟨ret', hist', -, hs'⟩ := fork_any 1
  exact ⟨⟨_, hs, rfl, (by decide : (BitVec.intMin 32).toInt < 0), hret⟩, ⟨_, hs', rfl, rfl, rfl⟩⟩

end Xv6.Table
