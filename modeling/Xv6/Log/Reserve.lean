import Mathlib.Algebra.Order.BigOperators.Group.Finset
import Xv6.Log.Crash

/-!
# The space `begin_op` reserves

`begin_op` admits an operation when `LOGSIZE` covers `MAXOPBLOCKS` blocks for it and for each
operation in progress, but `log_write` stops the kernel as soon as the log lists
`log.size - 1` blocks, and the log that `mkfs` makes has `log.size = LOGSIZE`. So operations
that stay one block below `MAXOPBLOCKS` fit, and operations that use all of it do not.

`opBlocks op es` is the set of blocks operation `op` wrote. The invariant adds to the number
of listed blocks those that the operations in progress may still write.
-/

namespace Xv6.Log

open Xv6.Lib
open Xv6.Disk
open Xv6.Process (Slot Stop)
open Function (update update_of_ne update_self)

/-- The distinct blocks that operation `op` passed to `log_write`. -/
def opBlocks (op : ℕ) (es : List Event) : Finset ℕ :=
  ((writesOf (fun q => q = op) es).map Prod.fst).toFinset

/-- Every operation log_writes fewer than `MAXOPBLOCKS` distinct blocks. -/
def WithinBudget (es : List Event) : Prop := ∀ op, (opBlocks op es).card < MAXOPBLOCKS

/-- The operation process `p` is in. -/
def Task.op : Task → ℕ
  | .inOp op => op
  | _ => 0

/-- The blocks that the operation of process `p` may still write. -/
def leftOf (s : State) (p : Slot) : ℕ :=
  MAXOPBLOCKS - 1 - (opBlocks (s.task p).op s.trace).card

/-- The blocks that the operations in progress may still write. -/
def left (s : State) : ℕ := ∑ p ∈ running s.task, leftOf s p

variable {lay : Layout} {d₀ : ℕ → Block} {s s' : State} {p : Slot} {op b : ℕ}

/-! ## Blocks of an operation -/

lemma opBlocks_concat (op : ℕ) (es : List Event) (e : Event) :
    opBlocks op (es ++ [e]) = opBlocks op es ∪ opBlocks op [e] := by
  rw [opBlocks, writesOf_append, List.map_append, List.toFinset_append, ← opBlocks, ← opBlocks]

lemma opBlocks_logWrite (op q b : ℕ) (v : Block) :
    opBlocks op [.logWrite q b v] = if q = op then {b} else ∅ := by
  by_cases h : q = op
  · simp [opBlocks, writesOf, h]
  · simp [opBlocks, writesOf, h]

lemma opBlocks_other {e : Event} (h : ∀ q b v, e ≠ .logWrite q b v) (op : ℕ) (es : List Event) :
    opBlocks op (es ++ [e]) = opBlocks op es := by
  have hnone : opBlocks op [e] = ∅ := by
    rw [opBlocks, WfHistory.writesOf_singleton _ h]
    rfl
  rw [opBlocks_concat, hnone, Finset.union_empty]

/-- What an open operation wrote is in the header. -/
lemma Inv.opBlocks_subset {bs : List ℕ} (h : Inv lay d₀ s)
    (hkeys : ∀ u ∈ pending lay s.trace, u.1 ∈ bs) (hp : s.task p = .inOp op)
    (hb : b ∈ opBlocks op s.trace) : b ∈ bs := by
  obtain ⟨u, hu, rfl⟩ := List.mem_map.1 (List.mem_toFinset.1 hb)
  refine hkeys u ?_
  obtain ⟨e, he, heu⟩ := List.mem_filterMap.1 hu
  refine List.mem_filterMap.2 ⟨e, he, ?_⟩
  cases e with
  | logWrite q b v =>
    dsimp only at heu ⊢
    split at heu
    case isTrue hq =>
      have hq : q = op := by simpa using hq
      rw [hq, h.opened hp]
      exact heu
    case isFalse => cases heu
  | _ => cases heu

/-- An operation that has not begun wrote nothing. -/
lemma opBlocks_next (h : WfHistory lay s.trace s.nextOp) : opBlocks s.nextOp s.trace = ∅ := by
  rw [Finset.eq_empty_iff_forall_notMem]
  intro b hb
  obtain ⟨u, hu, rfl⟩ := List.mem_map.1 (List.mem_toFinset.1 hb)
  obtain ⟨e, he, heu⟩ := List.mem_filterMap.1 hu
  cases e with
  | logWrite q b v =>
    dsimp only at heu
    split at heu
    case isTrue hq =>
      have hq : q = s.nextOp := by simpa using hq
      exact absurd (h.begun_lt (h.begun he)) (by omega)
    case isFalse => cases heu
  | _ => cases heu

/-! ## The invariant -/

/-- The listed blocks and those still to come leave `log_write` below its limit. -/
structure Reserve (s : State) : Prop where
  apart : ∀ p q op, s.task p = .inOp op → s.task q = .inOp op → p = q
  cleared : ∀ p c, s.task p = .commit c → c = .clearHead ∨ c = .finish → s.log.lh.n = 0
  fresh : s.mode = .up → s.log.committing = false → s.log.outstanding = 0 → s.log.lh.n = 0
  bound : s.mode = .up → s.log.committing = false → s.log.lh.n + left s ≤ LOGSIZE - 2

lemma leftOf_congr (ht : s'.task p = s.task p)
    (hb : opBlocks (s.task p).op s'.trace = opBlocks (s.task p).op s.trace) :
    leftOf s' p = leftOf s p := by
  rw [leftOf, ht, hb, leftOf]

lemma left_le (s : State) : left s ≤ (running s.task).card * (MAXOPBLOCKS - 1) := by
  have h := Finset.sum_le_card_nsmul (running s.task) (leftOf s) (MAXOPBLOCKS - 1)
    fun p _ => Nat.sub_le ..
  rw [left]
  simpa using h

/-- The blocks that a new operation may write come on top. -/
lemma left_begin (hp : s.task p = .idle) (htask : s'.task = update s.task p (.inOp op))
    (hblocks : ∀ q, opBlocks q s'.trace = opBlocks q s.trace) (hnone : opBlocks op s.trace = ∅) :
    left s' = MAXOPBLOCKS - 1 + left s := by
  have hnot : p ∉ running s.task := by simp [mem_running, hp]
  have hself : leftOf s' p = MAXOPBLOCKS - 1 := by
    rw [leftOf, htask, update_self, hblocks, Task.op, hnone, Finset.card_empty,
      Nat.sub_zero]
  have hrest : ∀ q ∈ running s.task, leftOf s' q = leftOf s q := by
    intro q hq
    have hqp : q ≠ p := by
      rintro rfl
      exact hnot hq
    exact leftOf_congr (by rw [htask, update_of_ne hqp]) (hblocks _)
  rw [left, htask, running_insert, Finset.sum_insert hnot, hself, Finset.sum_congr rfl hrest, left]

/-- What a finished operation did not write is given back. -/
lemma left_end {t : Task} (ht : ∀ op, t ≠ .inOp op) (htask : s'.task = update s.task p t)
    (hblocks : ∀ q, opBlocks q s'.trace = opBlocks q s.trace) : left s' ≤ left s := by
  have hrest : ∀ q ∈ (running s.task).erase p, leftOf s' q = leftOf s q := by
    intro q hq
    exact leftOf_congr (by rw [htask, update_of_ne (Finset.ne_of_mem_erase hq)])
      (hblocks _)
  rw [left, htask, running_update_of_ne ht, Finset.sum_congr rfl hrest, left]
  exact Finset.sum_le_sum_of_subset (Finset.erase_subset p _)

/-- A block that an operation writes for the first time uses up one of those left to it. -/
lemma left_write {v : Block} (hp : s.task p = .inOp op)
    (hapart : ∀ p q op, s.task p = .inOp op → s.task q = .inOp op → p = q)
    (htask : s'.task = s.task) (htrace : s'.trace = s.trace ++ [.logWrite op b v])
    (hbudget : (opBlocks op s'.trace).card < MAXOPBLOCKS) :
    left s' + (if b ∈ opBlocks op s.trace then 0 else 1) ≤ left s := by
  have hmem : p ∈ running s.task := mem_running.2 ⟨op, hp⟩
  have hrest : ∀ q ∈ (running s.task).erase p, leftOf s' q = leftOf s q := by
    intro q hq
    obtain ⟨hqp, hrun⟩ := Finset.mem_erase.1 hq
    obtain ⟨op', hq'⟩ := mem_running.1 hrun
    have hne : op ≠ op' := by
      rintro rfl
      exact hqp (hapart q p op hq' hp)
    refine leftOf_congr (by rw [htask]) ?_
    rw [htrace, opBlocks_concat, hq', Task.op, opBlocks_logWrite, if_neg hne, Finset.union_empty]
  have hself : leftOf s' p + (if b ∈ opBlocks op s.trace then 0 else 1) ≤ leftOf s p := by
    have hblocks : opBlocks op s'.trace = opBlocks op s.trace ∪ {b} := by
      rw [htrace, opBlocks_concat, opBlocks_logWrite, if_pos rfl]
    rw [leftOf, leftOf, htask, hp, Task.op]
    rw [hblocks] at hbudget ⊢
    by_cases hb : b ∈ opBlocks op s.trace
    · have hsame : opBlocks op s.trace ∪ {b} = opBlocks op s.trace :=
        Finset.union_eq_left.2 (Finset.singleton_subset_iff.2 hb)
      rw [if_pos hb, hsame, Nat.add_zero]
    · have hcard : (opBlocks op s.trace ∪ {b}).card = (opBlocks op s.trace).card + 1 :=
        Finset.card_union_of_disjoint (Finset.disjoint_singleton_right.2 hb)
      rw [if_neg hb]
      omega
  have hsum : left s = leftOf s p + ∑ q ∈ (running s.task).erase p, leftOf s q :=
    (Finset.add_sum_erase _ _ hmem).symm
  have hsum' : left s' = leftOf s' p + ∑ q ∈ (running s.task).erase p, leftOf s q := by
    rw [left, htask, ← Finset.add_sum_erase _ _ hmem, Finset.sum_congr rfl hrest]
  omega

/-- Steps that do not concern the log. -/
lemma Reserve.quiet (h : Reserve s) (hlog : s'.log = s.log) (hmode : s'.mode = s.mode)
    (htask : s'.task = s.task) (htrace : s'.trace = s.trace) : Reserve s' where
  apart := htask ▸ h.apart
  cleared := htask ▸ hlog ▸ h.cleared
  fresh := hmode ▸ hlog ▸ h.fresh
  bound := by
    have hleft : left s' = left s := by
      rw [left, htask]
      exact Finset.sum_congr rfl fun p _ => leftOf_congr (by rw [htask]) (by rw [htrace])
    rw [hmode, hlog, hleft]
    exact h.bound

/-- Nobody is in an operation, and the log is empty once the kernel runs. -/
lemma Reserve.of_idle (hidle : ∀ p, s.task p = .idle) (hn : s.mode = .up → s.log.lh.n = 0) :
    Reserve s := by
  have hrun : running s.task = ∅ := by
    rw [Finset.eq_empty_iff_forall_notMem]
    intro q hq
    obtain ⟨op, hq⟩ := mem_running.1 hq
    rw [hidle q] at hq
    cases hq
  refine ⟨fun q _ op hq => ?_, fun q c hq => ?_, fun hup _ _ => hn hup, fun hup _ => ?_⟩
  · rw [hidle q] at hq
    cases hq
  · rw [hidle q] at hq
    cases hq
  · rw [left, hrun, Finset.sum_empty, hn hup]
    exact Nat.zero_le _

lemma Reserve.beginOp (h : Reserve s) (hinv : Inv lay d₀ s) (hup : s.mode = .up)
    (hp : s.task p = .idle) (hs : beginOp p s = .ok s') : Reserve s' := by
  unfold Log.beginOp at hs
  split at hs
  case isTrue => cases hs
  case isFalse hnot =>
  split at hs
  case isTrue => cases hs
  case isFalse hroom =>
  have hs := Except.ok.inj hs
  have htask : s'.task = update s.task p (.inOp s.nextOp) := by rw [← hs]; rfl
  have hlh : s'.log.lh = s.log.lh := by rw [← hs]; rfl
  have hout : s'.log.outstanding = s.log.outstanding + 1 := by rw [← hs]; rfl
  have htrace : s'.trace = s.trace ++ [.beginOp s.nextOp] := by rw [← hs]; rfl
  have hcommitting : s.log.committing = false := by simpa using hnot
  have hnew : ∀ q, s.task q ≠ .inOp s.nextOp := by
    intro q hq
    have := hinv.wf.begun_lt (begun_of_openIn (hinv.opened hq))
    omega
  refine ⟨fun q r op hq hr => ?_, fun q c hq => ?_, fun _ _ h0 => ?_, fun _ _ => ?_⟩
  · rw [htask] at hq hr
    by_cases hqp : q = p <;> by_cases hrp : r = p
    · rw [hqp, hrp]
    · rw [hqp, update_self] at hq
      rw [update_of_ne hrp, ← hq] at hr
      exact absurd hr (hnew r)
    · rw [hrp, update_self] at hr
      rw [update_of_ne hqp, ← hr] at hq
      exact absurd hq (hnew q)
    · rw [update_of_ne hqp] at hq
      rw [update_of_ne hrp] at hr
      exact h.apart q r op hq hr
  · rw [htask] at hq
    have hqp : q ≠ p := by
      rintro rfl
      rw [update_self] at hq
      cases hq
    rw [update_of_ne hqp] at hq
    rw [hlh]
    exact h.cleared q c hq
  · omega
  · have hblocks : ∀ q, opBlocks q s'.trace = opBlocks q s.trace := fun q => by
      rw [htrace, opBlocks_other (by simp)]
    have hleft := left_begin hp htask hblocks (opBlocks_next hinv.wf)
    have hle := left_le s
    have hcard := hinv.outstanding
    rw [hleft, hlh]
    unfold LOGSIZE MAXOPBLOCKS at *
    by_cases h0 : s.log.outstanding = 0
    · have := h.fresh hup hcommitting h0
      omega
    · omega

/-- `log_write` adds a block only if the header does not list it. -/
lemma notMem_blocks_of_find {lh : Logheader}
    (hk : ((List.range lh.n).find? fun k => lh.block k = b).getD lh.n = lh.n) : b ∉ lh.blocks := by
  intro hb
  obtain ⟨j, hj, rfl⟩ := List.mem_map.1 hb
  cases hfind : (List.range lh.n).find? fun k => lh.block k = lh.block j with
  | some k =>
    have hlt : k < lh.n := List.mem_range.1 (List.mem_of_find?_eq_some hfind)
    rw [hfind, Option.getD_some] at hk
    omega
  | none =>
    have := List.find?_eq_none.1 hfind j hj
    simp at this

lemma Reserve.logWrite (h : Reserve s) (hinv : Inv lay d₀ s) (hup : s.mode = .up)
    (hp : s.task p = .inOp op) {i : Fin NBUF} (hs : logWrite lay op i s = .ok s')
    (hbudget : WithinBudget s'.trace) : Reserve s' := by
  unfold Log.logWrite at hs
  dsimp only at hs
  split at hs
  case isTrue => cases hs
  case isFalse =>
  split at hs
  case isTrue => cases hs
  case isFalse hsome =>
  have hs := Except.ok.inj hs
  have htask : s'.task = s.task := by rw [← hs]; split <;> rfl
  have hmode : s'.mode = s.mode := by rw [← hs]; split <;> rfl
  have hcom : s'.log.committing = s.log.committing := by rw [← hs]; split <;> rfl
  have hout : s'.log.outstanding = s.log.outstanding := by rw [← hs]; split <;> rfl
  have htrace : s'.trace = s.trace ++ [.logWrite op (s.bio.buf i).blockno (s.bio.buf i).data] := by
    rw [← hs]; split <;> rfl
  have hn : s'.log.lh.n = s.log.lh.n +
      if ((List.range s.log.lh.n).find? fun k => s.log.lh.block k = (s.bio.buf i).blockno).getD
        s.log.lh.n = s.log.lh.n then 1 else 0 := by
    rw [← hs]; split <;> rfl
  obtain ⟨C, pins, -, hphase⟩ := hinv.cache
  rw [hup] at hphase
  obtain ⟨hcommitting, hno, hg, -, -⟩ := hphase.of_inOp hp
  refine ⟨htask ▸ h.apart, fun q c hq => absurd (htask ▸ hq) (hno q c), fun _ _ h0 => ?_,
    fun _ _ => ?_⟩
  · omega
  · have hbound := h.bound hup hcommitting
    have hleft := left_write hp h.apart htask htrace (hbudget op)
    have hlisted : (s.bio.buf i).blockno ∈ opBlocks op s.trace →
        (s.bio.buf i).blockno ∈ s.log.lh.blocks := hinv.opBlocks_subset hg.keys hp
    rw [hn]
    split
    case isFalse =>
      split at hleft <;> omega
    case isTrue hk =>
      -- a block that is new in the header is new for the operation
      have hfresh : (s.bio.buf i).blockno ∉ s.log.lh.blocks := notMem_blocks_of_find hk
      rw [if_neg fun hb => hfresh (hlisted hb)] at hleft
      omega

lemma Reserve.endOp (h : Reserve s) (hinv : Inv lay d₀ s) (hup : s.mode = .up)
    (hp : s.task p = .inOp op) (hs : endOp p op s = .ok s') : Reserve s' := by
  obtain ⟨C, pins, -, hphase⟩ := hinv.cache
  rw [hup] at hphase
  obtain ⟨hcommitting, hno, -, -, -⟩ := hphase.of_inOp hp
  -- in both branches the task of `p` changes to one that is not in an operation
  have hapart : ∀ t, (∀ op, t ≠ .inOp op) → ∀ q r op, update s.task p t q = .inOp op →
      update s.task p t r = .inOp op → q = r := by
    intro t ht q r op hq hr
    have hne : ∀ {x}, update s.task p t x = .inOp op → s.task x = .inOp op := by
      intro x hx
      by_cases hxp : x = p
      · rw [hxp, update_self] at hx
        exact absurd hx (ht op)
      · rwa [update_of_ne hxp] at hx
    exact h.apart q r op (hne hq) (hne hr)
  unfold Log.endOp at hs
  dsimp only at hs
  split at hs
  case isTrue => cases hs
  case isFalse =>
  split at hs
  case isTrue hzero =>
    have hs := Except.ok.inj hs
    refine ⟨?_, fun q c hq hc => ?_, fun _ hc => ?_, fun _ hc => ?_⟩
    · rw [← hs]
      exact hapart _ (by simp)
    · have htask : s'.task = update s.task p
          (.commit (if s.log.lh.n > 0 then .writeLog 0 else .finish)) := by rw [← hs]; rfl
      have hlh : s'.log.lh = s.log.lh := by rw [← hs]; rfl
      rw [htask] at hq
      by_cases hqp : q = p
      · rw [hqp, update_self] at hq
        rw [hlh]
        by_contra hpos
        rw [if_pos (Nat.pos_of_ne_zero hpos)] at hq
        cases hq
        rcases hc with hc | hc <;> cases hc
      · rw [update_of_ne hqp] at hq
        exact absurd hq (hno q c)
    · rw [← hs] at hc
      cases hc
    · rw [← hs] at hc
      cases hc
  case isFalse hpos =>
    have hs := Except.ok.inj hs
    have htask : s'.task = update s.task p .idle := by rw [← hs]; rfl
    have hlh : s'.log.lh = s.log.lh := by rw [← hs]; rfl
    have htrace : s'.trace = s.trace ++ [.endOp op] := by rw [← hs]; rfl
    refine ⟨?_, fun q c hq _ => ?_, fun _ _ h0 => ?_, fun _ _ => ?_⟩
    · rw [htask]
      exact hapart _ (by simp)
    · rw [htask] at hq
      by_cases hqp : q = p
      · rw [hqp, update_self] at hq
        cases hq
      · rw [update_of_ne hqp] at hq
        exact absurd hq (hno q c)
    · rw [← hs] at h0
      exact absurd h0 hpos
    · have hbound := h.bound hup hcommitting
      have hleft := left_end (by simp) htask fun q => by rw [htrace, opBlocks_other (by simp)]
      rw [hlh]
      omega

/-- While a process commits, no other one is in an operation. -/
lemma Inv.committing (hinv : Inv lay d₀ s) (hup : s.mode = .up) {c : Commit}
    (hp : s.task p = .commit c) : s.log.committing = true ∧ ∀ q, q ≠ p → s.task q = .idle := by
  obtain ⟨C, pins, -, hphase⟩ := hinv.cache
  rw [hup] at hphase
  rcases hphase.up_cases with ⟨q, c', hq⟩ | ⟨-, hno, -⟩
  · obtain ⟨rfl, -⟩ := hq.unique hp
    exact ⟨hq.committing, hq.others⟩
  · exact absurd hp (hno p c)

/-- The process that commits goes on to `t`. -/
lemma Reserve.of_committing (hothers : ∀ q, q ≠ p → s.task q = .idle) {t : Task}
    (ht : ∀ op, t ≠ .inOp op) (htask : s'.task = update s.task p t)
    (hn : t = .commit .clearHead ∨ t = .commit .finish ∨ t = .idle → s'.log.lh.n = 0)
    (hcom : s'.log.committing = false → t = .idle) : Reserve s' := by
  have hnone : ∀ q op, s'.task q ≠ .inOp op := by
    intro q op
    rw [htask]
    by_cases hqp : q = p
    · rw [hqp, update_self]
      exact ht op
    · rw [update_of_ne hqp, hothers q hqp]
      simp
  have hrun : running s'.task = ∅ := by
    rw [Finset.eq_empty_iff_forall_notMem]
    intro q hq
    obtain ⟨op, hq⟩ := mem_running.1 hq
    exact hnone q op hq
  refine ⟨fun q _ op hq => absurd hq (hnone q op), fun q c hq hc => ?_, fun _ hc _ => ?_,
    fun _ hc => ?_⟩
  · rw [htask] at hq
    by_cases hqp : q = p
    · rw [hqp, update_self] at hq
      rcases hc with rfl | rfl
      · exact hn (.inl hq)
      · exact hn (.inr (.inl hq))
    · rw [update_of_ne hqp, hothers q hqp] at hq
      cases hq
  · exact hn (.inr (.inr (hcom hc)))
  · rw [left, hrun, Finset.sum_empty, hn (.inr (.inr (hcom hc)))]
    exact Nat.zero_le _

lemma Reserve.commit (h : Reserve s) (hinv : Inv lay d₀ s) (hup : s.mode = .up) {c : Commit}
    (hp : s.task p = .commit c) (hs : commitStep lay p c s = .ok s') : Reserve s' := by
  obtain ⟨hcommitting, hothers⟩ := hinv.committing hup hp
  unfold commitStep at hs
  cases c with
  | writeLog tail =>
    dsimp only at hs
    split at hs
    · obtain ⟨bio, -, hs⟩ := bind_eq_ok hs
      cases hs
      exact .of_committing (t := .commit (.writeLog (tail + 1))) hothers (by simp) rfl (by simp)
        fun hc => absurd (hcommitting.symm.trans hc) (by simp)
    · cases hs
      exact .of_committing (t := .commit .writeHead) hothers (by simp) rfl (by simp)
        fun hc => absurd (hcommitting.symm.trans hc) (by simp)
  | writeHead =>
    obtain ⟨bio, -, hs⟩ := bind_eq_ok hs
    cases hs
    exact .of_committing (t := .commit (.install 0)) hothers (by simp) rfl (by simp)
      fun hc => absurd (hcommitting.symm.trans hc) (by simp)
  | install tail =>
    dsimp only at hs
    split at hs
    · obtain ⟨bio, -, hs⟩ := bind_eq_ok hs
      cases hs
      exact .of_committing (t := .commit (.install (tail + 1))) hothers (by simp) rfl (by simp)
        fun hc => absurd (hcommitting.symm.trans hc) (by simp)
    · cases hs
      exact .of_committing (t := .commit .clearHead) hothers (by simp) rfl (fun _ => rfl)
        fun hc => absurd (hcommitting.symm.trans hc) (by simp)
  | clearHead =>
    obtain ⟨bio, -, hs⟩ := bind_eq_ok hs
    cases hs
    exact .of_committing (t := .commit .finish) hothers (by simp) rfl
      (fun _ => h.cleared p _ hp (.inl rfl)) fun hc => absurd (hcommitting.symm.trans hc) (by simp)
  | finish =>
    cases hs
    exact .of_committing (t := .idle) hothers (by simp) rfl
      (fun _ => h.cleared p _ hp (.inr rfl)) fun _ => rfl

lemma Reserve.recover (hinv : Inv lay d₀ s) (hs : recoverStep lay s = .ok s') : Reserve s' := by
  obtain ⟨C, pins, -, hphase⟩ := hinv.cache
  unfold recoverStep at hs
  generalize s.mode = mode at hphase hs
  cases hphase with
  | readHead hq =>
    obtain ⟨r, -, hs⟩ := bind_eq_ok hs
    cases hs
    exact .of_idle hq.idle (by simp)
  | reinstall tail hq =>
    dsimp only at hs
    split at hs
    · obtain ⟨bio, -, hs⟩ := bind_eq_ok hs
      cases hs
      exact .of_idle hq.idle (by simp)
    · cases hs
      exact .of_idle hq.idle (by simp)
  | reclear hq _ hn =>
    obtain ⟨bio, -, hs⟩ := bind_eq_ok hs
    cases hs
    exact .of_idle hq.idle fun _ => hn
  | gather | writeLog | writeHead | install | clear | finish => cases hs

/-! ## Whole runs -/

lemma Reserve.stepUp (h : Reserve s) (hinv : Inv lay d₀ s) (hup : s.mode = .up) {a : Act}
    (hs : stepUp lay s a = .ok s') (hbudget : WithinBudget s'.trace) : Reserve s' := by
  unfold Log.stepUp at hs
  cases a with
  | beginOp p =>
    dsimp only at hs
    split at hs
    case isTrue hp => exact h.beginOp hinv hup hp hs
    case isFalse => cases hs
  | bread p b =>
    dsimp only at hs
    split at hs
    · cases hs
    split at hs
    case isTrue =>
      obtain ⟨r, -, hs⟩ := bind_eq_ok hs
      cases hs
      exact h.quiet rfl rfl rfl rfl
    case isFalse => cases hs
  | modify p i v =>
    dsimp only at hs
    split at hs
    · split at hs
      case isTrue =>
        cases hs
        exact h.quiet rfl rfl rfl rfl
      case isFalse => cases hs
    · cases hs
  | logWrite p i =>
    dsimp only at hs
    split at hs
    case h_1 op hp =>
      split at hs
      case isTrue => exact h.logWrite hinv hup hp hs hbudget
      case isFalse => cases hs
    case h_2 => cases hs
  | brelse p i =>
    dsimp only at hs
    split at hs
    · cases hs
    split at hs
    case isTrue => cases hs
    case isFalse =>
      obtain ⟨bio, -, hs⟩ := bind_eq_ok hs
      cases hs
      exact h.quiet rfl rfl rfl rfl
  | endOp p =>
    dsimp only at hs
    split at hs
    case h_1 op hp => exact h.endOp hinv hup hp hs
    case h_2 => cases hs
  | commit p =>
    dsimp only at hs
    split at hs
    case h_1 c hp => exact h.commit hinv hup hp hs
    case h_2 => cases hs
  | recover => cases hs
  | crash => cases hs

lemma Reserve.step (h : Reserve s) (hinv : Inv lay d₀ s) {a : Act} (hs : step lay a s = .ok s')
    (hbudget : WithinBudget s'.trace) : Reserve s' := by
  unfold Log.step at hs
  split at hs
  case h_1 =>
    cases hs
    exact .of_idle (fun _ => rfl) (by simp [State.boot])
  case h_2 => exact Reserve.recover hinv hs
  case h_3 =>
    split at hs
    case isTrue hup => exact h.stepUp hinv hup hs hbudget
    case isFalse => cases hs

lemma WithinBudget.of_run (hrun : Relation.ReflTransGen (Next lay) s s')
    (h : WithinBudget s'.trace) : WithinBudget s.trace := by
  intro op
  obtain ⟨es, hes⟩ := run_grows hrun
  refine lt_of_le_of_lt (Finset.card_le_card ?_) (h op)
  rw [← hes, opBlocks, opBlocks, writesOf_append, List.map_append, List.toFinset_append]
  exact Finset.subset_union_left

/-- On the log that `mkfs` makes, `log_write` finds room for every block in every run whose
operations each log_write fewer than `MAXOPBLOCKS` distinct blocks. -/
theorem log_write_fits (hsize : lay.size = LOGSIZE) (h₀ : headN (d₀ lay.start) = 0)
    (hs : Reachable lay d₀ s) (hbudget : WithinBudget s.trace) (hup : s.mode = .up)
    (hp : s.task p = .inOp op) (i : Fin NBUF) :
    logWrite lay op i s ≠ .error (.panic "too big a transaction") := by
  have hinv := reachable_inv h₀ hs
  have hres : WithinBudget s.trace → Reserve s := by
    refine Relation.ReflTransGen.rec ?_ ?_ hs
    · exact fun _ => .of_idle (fun _ => rfl) (by simp [State.boot])
    · rintro s s' hrun ⟨a, ha⟩ ih hb
      exact (ih (hb.of_run (.single ⟨a, ha⟩))).step (reachable_inv h₀ hrun) ha hb
  obtain ⟨C, pins, -, hphase⟩ := hinv.cache
  rw [hup] at hphase
  have hbound := (hres hbudget).bound hup (hphase.of_inOp hp).1
  have hroom : ¬(s.log.lh.n ≥ LOGSIZE ∨ s.log.lh.n ≥ lay.size - 1) := by
    rw [hsize]
    unfold LOGSIZE MAXOPBLOCKS at *
    omega
  have hsome : ¬s.log.outstanding < 1 := by
    have hpos : 0 < (running s.task).card := Finset.card_pos.2 ⟨p, mem_running.2 ⟨op, hp⟩⟩
    rw [hinv.outstanding]
    omega
  unfold Log.logWrite
  dsimp only
  rw [if_neg hroom, if_neg hsome]
  intro h
  cases h

/-- An operation writes no more blocks than the history has events. -/
lemma card_opBlocks_le (op : ℕ) (es : List Event) : (opBlocks op es).card ≤ es.length :=
  calc (opBlocks op es).card
      ≤ ((writesOf (fun q => q = op) es).map Prod.fst).length := List.toFinset_card_le _
    _ = (writesOf (fun q => q = op) es).length := List.length_map _
    _ ≤ es.length := List.length_filterMap_le _ _

/-- An operation of process 0 that has written block 40. -/
def writing : State :=
  runActs mkfsLayout (State.boot (fun _ => Bytes.fill BSIZE 0) 0 []) (crashActs.take 8)

theorem log_write_fits_writing :
    writing.task 0 = .inOp 0 ∧
      logWrite mkfsLayout 0 1 writing ≠ .error (.panic "too big a transaction") := by
  have hlen : writing.trace.length < MAXOPBLOCKS := by decide +kernel
  have htask : writing.task 0 = .inOp 0 := by decide +kernel
  exact ⟨htask, log_write_fits rfl (by decide +kernel) (runActs_run ..)
    (fun op => lt_of_le_of_lt (card_opBlocks_le op _) hlen) (by decide +kernel) htask 1⟩

/-- Three operations begin, and log_write 10, 10 and 9 distinct blocks. -/
def fullActs : List Act :=
  [.recover, .recover, .recover, .beginOp 0, .beginOp 1, .beginOp 2] ++
    ((List.range 29).flatMap fun k =>
      let p : Slot := Fin.ofNat _ (k / 10)
      let i : Fin NBUF := Fin.ofNat _ (k + 1)
      [.bread p (100 + k), .logWrite p i, .brelse p i]) ++
    [.bread 2 129]

/-- The machine after `fullActs`. -/
def full : State := runActs mkfsLayout (State.boot (fun _ => Bytes.fill BSIZE 0) 0 []) fullActs

/-- Three admitted operations that write `MAXOPBLOCKS` blocks each stop the kernel: the third
one may still write a tenth block, and holds its buffer, but `log_write` panics. -/
theorem full_log_panics :
    Reachable mkfsLayout (fun _ => Bytes.fill BSIZE 0) full ∧
    (full.log.outstanding, (List.range 3).map fun op => (opBlocks op full.trace).card) =
      (3, [10, 10, 9]) ∧
    (full.task 2, (full.bio.buf 0).lock, (full.bio.buf 0).blockno) = (.inOp 2, some 2, 129) ∧
    step mkfsLayout (.logWrite 2 0) full = .error (.panic "too big a transaction") := by
  have hup : full.mode = .up := by decide +kernel
  have hheld : (full.task 2, (full.bio.buf 0).lock, (full.bio.buf 0).blockno) =
      (.inOp 2, some 2, 129) := by decide +kernel
  have hfull : full.log.lh.n ≥ LOGSIZE ∨ full.log.lh.n ≥ mkfsLayout.size - 1 := by decide +kernel
  refine ⟨runActs_run .., by decide +kernel, hheld, ?_⟩
  obtain ⟨htask, hlock, -⟩ := Prod.mk.inj hheld |>.imp_right Prod.mk.inj
  simp only [step, hup, if_true, stepUp, htask, hlock, logWrite, hfull]
  rfl

end Xv6.Log
