import Xv6.Log.Machine

/-!
# Which updates a history makes durable

An operation is *present* when the header write of its group's commit reached the disk,
that is, when the first header with `n > 0` written after the operation began came before
any crash. `updates` lists the `log_write`s of the operations that are present, `pending`
those of the operations whose fate is still open.

The same history cut at the header writes: `commits` lists the groups of `log_write`s that
were committed. That both views agree (`WfHistory.grouped`) is what makes the updates of an
operation durable together.
-/

namespace Xv6.Log

/-- A header that lists at least one block reaches the disk. -/
def Event.isHead (lay : Layout) : Event → Bool
  | .write b data => b = lay.start && 0 < headN data
  | _ => false

/-- Whether the next header with `n > 0` is written before a crash. -/
def headNext (lay : Layout) : List Event → Bool
  | [] => false
  | .crash :: _ => false
  | e :: es => e.isHead lay || headNext lay es

/-- Whether operation `op` is present: whether, from its `begin_op` on, a header with
`n > 0` is written before a crash. -/
def present (lay : Layout) : List Event → ℕ → Bool
  | [], _ => false
  | .beginOp q :: es, op => if q = op then headNext lay es else present lay es op
  | _ :: es, op => present lay es op

/-- The `log_write`s of the operations that satisfy `P`, in order. -/
def writesOf (P : ℕ → Bool) (es : List Event) : List (ℕ × Disk.Block) :=
  es.filterMap fun
    | .logWrite op b data => if P op then some (b, data) else none
    | _ => none

/-- The updates of the operations that are present. -/
def updates (lay : Layout) (es : List Event) : List (ℕ × Disk.Block) :=
  writesOf (present lay es) es

/-- The group that is being gathered after `es`, when it was `cur` before. -/
def gathered (lay : Layout) : List (ℕ × Disk.Block) → List Event → List (ℕ × Disk.Block)
  | cur, [] => cur
  | cur, .logWrite _ b data :: es => gathered lay (cur ++ [(b, data)]) es
  | _, .crash :: es => gathered lay [] es
  | cur, e :: es => gathered lay (if e.isHead lay then [] else cur) es

/-- The groups committed in `es`, when the group `cur` was being gathered before. A header with
`n > 0` commits a group, a crash drops it. -/
def commitsFrom (lay : Layout) : List (ℕ × Disk.Block) → List Event → List (List (ℕ × Disk.Block))
  | _, [] => []
  | cur, .logWrite _ b data :: es => commitsFrom lay (cur ++ [(b, data)]) es
  | _, .crash :: es => commitsFrom lay [] es
  | cur, e :: es => if e.isHead lay then cur :: commitsFrom lay [] es else commitsFrom lay cur es

/-- The group commits of a history. -/
def commits (lay : Layout) (es : List Event) : List (List (ℕ × Disk.Block)) :=
  commitsFrom lay [] es

/-! ## Operations whose group is not committed yet -/

/-- Neither a header with `n > 0` nor a crash in `es`. -/
def uncut (lay : Layout) (es : List Event) : Bool :=
  es.all fun e => !(e.isHead lay || e matches .crash)

/-- Whether operation `op` began after the last header with `n > 0` and the last crash. -/
def openIn (lay : Layout) : List Event → ℕ → Bool
  | [], _ => false
  | .beginOp q :: es, op => if q = op then uncut lay es else openIn lay es op
  | _ :: es, op => openIn lay es op

/-- The updates of the current group. -/
def pending (lay : Layout) (es : List Event) : List (ℕ × Disk.Block) :=
  writesOf (openIn lay es) es

variable {lay : Layout} {es : List Event} {e : Event} {op : ℕ}

lemma uncut_concat (lay : Layout) (es : List Event) (e : Event) :
    uncut lay (es ++ [e]) = (uncut lay es && !(e.isHead lay || e matches .crash)) := by
  simp [uncut]

lemma headNext_concat (lay : Layout) (es : List Event) (e : Event) :
    headNext lay (es ++ [e]) = (headNext lay es || (uncut lay es && e.isHead lay)) := by
  induction es with
  | nil => cases e <;> simp [headNext, uncut, Event.isHead]
  | cons c es ih =>
    cases c with
    | crash => simp [headNext, uncut]
    | _ => grind [headNext, uncut]

/-- A group that is committed is not open any more. -/
lemma uncut_of_headNext (h : headNext lay es = true) : uncut lay es = false := by
  induction es with
  | nil => simp [headNext] at h
  | cons c es ih =>
    cases c with
    | crash => simp [uncut]
    | _ => grind [headNext, uncut]

lemma present_concat (lay : Layout) (es : List Event) (e : Event) (op : ℕ) :
    present lay (es ++ [e]) op = (present lay es op || (openIn lay es op && e.isHead lay)) := by
  induction es with
  | nil => cases e <;> simp [present, openIn, headNext]
  | cons c es ih =>
    cases c with
    | beginOp q =>
      by_cases hq : q = op
      · simp [present, openIn, hq, headNext_concat]
      · simp [present, openIn, hq, ih]
    | _ => simp [present, openIn, ih]

lemma openIn_of_present (h : present lay es op = true) : openIn lay es op = false := by
  induction es with
  | nil => rfl
  | cons c es ih =>
    cases c with
    | beginOp q =>
      by_cases hq : q = op
      · simp only [present, hq, if_true] at h
        simpa [openIn, hq] using uncut_of_headNext h
      · simp only [present, hq, if_false] at h
        simpa [openIn, hq] using ih h
    | _ => exact ih h

/-- An operation whose `begin_op` is in the past stays open until its group is cut off. -/
lemma openIn_concat (h : .beginOp op ∈ es) (e : Event) :
    openIn lay (es ++ [e]) op = (openIn lay es op && !(e.isHead lay || e matches .crash)) := by
  induction es with
  | nil => simp at h
  | cons c es ih =>
    cases c with
    | beginOp q =>
      by_cases hq : q = op
      · simp [openIn, hq, uncut_concat]
      · have hes : .beginOp op ∈ es := by simpa [Ne.symm hq] using h
        simp [openIn, hq, ih hes]
    | _ =>
      have hes : .beginOp op ∈ es := by simpa using h
      simp [openIn, ih hes]

lemma openIn_of_notMem (h : .beginOp op ∉ es) : openIn lay es op = false := by
  induction es with
  | nil => rfl
  | cons c es ih =>
    cases c with
    | beginOp q =>
      simp only [List.mem_cons, Event.beginOp.injEq, not_or] at h
      simpa [openIn, Ne.symm h.1] using ih h.2
    | _ => exact ih (fun hes => h (List.mem_cons_of_mem _ hes))

lemma begun_of_openIn (h : openIn lay es op = true) : .beginOp op ∈ es := by
  by_contra hno
  simp [openIn_of_notMem hno] at h

/-- An open operation stays open until its group is cut off. -/
lemma openIn_mono (h : openIn lay es op = true) (he : e.isHead lay = false) (hc : e ≠ .crash) :
    openIn lay (es ++ [e]) op = true := by
  rw [openIn_concat (begun_of_openIn h), h, he]
  cases e <;> simp at hc ⊢

/-! ## Growing a history -/

lemma commitsFrom_append (lay : Layout) (cur : List (ℕ × Disk.Block)) (es fs : List Event) :
    commitsFrom lay cur (es ++ fs) =
      commitsFrom lay cur es ++ commitsFrom lay (gathered lay cur es) fs := by
  induction es generalizing cur with
  | nil => rfl
  | cons c es ih =>
    cases c with
    | logWrite => exact ih _
    | crash => exact ih _
    | _ =>
      simp only [List.cons_append, commitsFrom, gathered]
      split <;> simp [ih]

lemma gathered_append (lay : Layout) (cur : List (ℕ × Disk.Block)) (es fs : List Event) :
    gathered lay cur (es ++ fs) = gathered lay (gathered lay cur es) fs := by
  induction es generalizing cur with
  | nil => rfl
  | cons c es ih => cases c <;> exact ih _

/-- The commits of a history stay a prefix of those of every longer one. -/
lemma commits_append (lay : Layout) (es fs : List Event) :
    commits lay es <+: commits lay (es ++ fs) :=
  ⟨_, (commitsFrom_append lay [] es fs).symm⟩

lemma writesOf_append (P : ℕ → Bool) (es fs : List Event) :
    writesOf P (es ++ fs) = writesOf P es ++ writesOf P fs :=
  List.filterMap_append

lemma writesOf_false (es : List Event) : writesOf (fun _ => false) es = [] := by
  rw [writesOf, List.filterMap_eq_nil_iff]
  intro e _
  cases e <;> rfl

/-- What the histories of the machine have in common. -/
structure WfHistory (lay : Layout) (es : List Event) (next : ℕ) : Prop where
  /-- Operations are numbered from `0` on. -/
  begun_lt : ∀ {op}, .beginOp op ∈ es → op < next
  /-- Only operations write. -/
  begun : ∀ {op b data}, .logWrite op b data ∈ es → .beginOp op ∈ es
  /-- The updates of the current group come after all updates that are present. -/
  ordered : writesOf (fun op => present lay es op || openIn lay es op) es =
    updates lay es ++ pending lay es
  /-- The updates of the operations that are present are those of the committed groups. -/
  grouped : (commits lay es).flatten = updates lay es
  /-- The updates of the open operations are those of the current group. -/
  current : gathered lay [] es = pending lay es

namespace WfHistory

variable {next b : ℕ} {data : Disk.Block}

/-- Writes only depend on the operations that began. -/
lemma writesOf_congr (h : WfHistory lay es next) {P Q : ℕ → Bool}
    (hPQ : ∀ op, .beginOp op ∈ es → P op = Q op) : writesOf P es = writesOf Q es := by
  apply List.filterMap_congr
  intro e he
  cases e with
  | logWrite op b data => simp only [hPQ op (h.begun he)]
  | _ => rfl

lemma nil (lay : Layout) : WfHistory lay [] 0 := by
  constructor <;> simp [writesOf, updates, pending, commits, commitsFrom, gathered]

/-- An event that is no crash and carries no header with `n > 0` leaves the past alone. -/
lemma uncut_step (h : WfHistory lay es next) (he : e.isHead lay = false) (hc : e ≠ .crash) :
    writesOf (present lay (es ++ [e])) es = updates lay es ∧
      writesOf (openIn lay (es ++ [e])) es = pending lay es ∧
      writesOf (fun op => present lay (es ++ [e]) op || openIn lay (es ++ [e]) op) es =
        updates lay es ++ pending lay es := by
  have hpresent : ∀ op, present lay (es ++ [e]) op = present lay es op := by
    intro op
    simp [present_concat, he]
  have hopen : ∀ op, .beginOp op ∈ es → openIn lay (es ++ [e]) op = openIn lay es op := by
    intro op hop
    rw [openIn_concat hop, he]
    cases e <;> simp at hc ⊢
  refine ⟨h.writesOf_congr fun op _ => hpresent op, h.writesOf_congr hopen, ?_⟩
  rw [← h.ordered]
  exact h.writesOf_congr fun op hop => by rw [hpresent, hopen op hop]

/-- Writes of the last event, if it is none. -/
lemma writesOf_singleton (P : ℕ → Bool) (hw : ∀ op b data, e ≠ .logWrite op b data) :
    writesOf P [e] = [] := by
  cases e with
  | logWrite op b data => exact absurd rfl (hw op b data)
  | _ => rfl

/-- An event that the updates do not depend on: no header with `n > 0`, no crash and no
`log_write`. -/
lemma quiet {next' : ℕ} (h : WfHistory lay es next) (he : e.isHead lay = false) (hc : e ≠ .crash)
    (hw : ∀ op b data, e ≠ .logWrite op b data) (hnext : next ≤ next')
    (hb : ∀ op, e = .beginOp op → op < next') :
    WfHistory lay (es ++ [e]) next' ∧ updates lay (es ++ [e]) = updates lay es ∧
      pending lay (es ++ [e]) = pending lay es := by
  obtain ⟨hupdates, hpending, hboth⟩ := h.uncut_step he hc
  have hold : ∀ P, writesOf P (es ++ [e]) = writesOf P es := by
    intro P
    rw [writesOf_append, writesOf_singleton P hw, List.append_nil]
  have hu : updates lay (es ++ [e]) = updates lay es := by rw [updates, hold, hupdates]
  have hp : pending lay (es ++ [e]) = pending lay es := by rw [pending, hold, hpending]
  refine ⟨⟨?_, ?_, ?_, ?_, ?_⟩, hu, hp⟩
  · intro op hop
    rcases List.mem_append.1 hop with hmem | hmem
    · exact (h.begun_lt hmem).trans_le hnext
    · exact hb op (List.mem_singleton.1 hmem).symm
  · intro op b data hmem
    exact List.mem_append_left _ (h.begun (by simpa [(hw op b data).symm] using hmem))
  · rw [hold, hboth, hu, hp]
  · rw [hu, ← h.grouped, commits, commitsFrom_append]
    cases e <;> simp_all [commitsFrom, commits]
  · rw [hp, ← h.current, gathered_append]
    cases e <;> simp_all [gathered]

/-- The operation that just began is open. -/
lemma openIn_beginOp (h : WfHistory lay es next) :
    openIn lay (es ++ [.beginOp next]) next = true := by
  have hfresh : .beginOp next ∉ es := fun hmem => (h.begun_lt hmem).ne rfl
  clear h
  induction es with
  | nil => simp [openIn, uncut]
  | cons c es ih =>
    simp only [List.mem_cons, not_or] at hfresh
    cases c with
    | beginOp q =>
      have hq : q ≠ next := fun hq => hfresh.1 (by rw [hq])
      simpa [openIn, hq] using ih hfresh.2
    | _ => exact ih hfresh.2

/-- `log_write` in an open operation. -/
lemma logWrite (h : WfHistory lay es next) (hop : openIn lay es op = true) :
    WfHistory lay (es ++ [.logWrite op b data]) next ∧
      updates lay (es ++ [.logWrite op b data]) = updates lay es ∧
      pending lay (es ++ [.logWrite op b data]) = pending lay es ++ [(b, data)] := by
  obtain ⟨hupdates, hpending, hboth⟩ := h.uncut_step (e := .logWrite op b data) rfl (by simp)
  have hbegun := begun_of_openIn hop
  have hpresent : present lay (es ++ [.logWrite op b data]) op = false := by
    by_contra hno
    have hpr : present lay es op = true := by simpa [present_concat, Event.isHead] using hno
    simp [openIn_of_present hpr] at hop
  have hopen : openIn lay (es ++ [.logWrite op b data]) op = true := by
    simp [openIn_concat hbegun, hop, Event.isHead]
  have hu : updates lay (es ++ [.logWrite op b data]) = updates lay es := by
    rw [updates, writesOf_append, hupdates]
    simp [writesOf, hpresent]
  have hp : pending lay (es ++ [.logWrite op b data]) = pending lay es ++ [(b, data)] := by
    rw [pending, writesOf_append, hpending]
    simp [writesOf, hopen]
  refine ⟨⟨?_, ?_, ?_, ?_, ?_⟩, hu, hp⟩
  · intro q hq
    exact h.begun_lt (by simpa using hq)
  · intro q c d hmem
    have : .logWrite q c d ∈ es ∨ q = op := by
      simp only [List.mem_append, List.mem_singleton, Event.logWrite.injEq] at hmem
      tauto
    apply List.mem_append_left
    rcases this with hq | rfl
    · exact h.begun hq
    · exact hbegun
  · rw [writesOf_append, hboth, hu, hp, List.append_assoc]
    simp [writesOf, hopen]
  · rw [hu, ← h.grouped, commits, commitsFrom_append]
    simp [commitsFrom, commits]
  · rw [hp, ← h.current, gathered_append]
    rfl

/-- When a group is cut off, by its commit or by a crash, no operation is open. -/
lemma cut (h : WfHistory lay es next) (he : (e.isHead lay || e matches .crash) = true) :
    WfHistory lay (es ++ [e]) next ∧ pending lay (es ++ [e]) = [] ∧
      updates lay (es ++ [e]) = writesOf (fun op => present lay es op ||
        (openIn lay es op && e.isHead lay)) es := by
  have hb : ∀ op, e ≠ .beginOp op := by cases e <;> simp_all [Event.isHead]
  have hw : ∀ op b data, e ≠ .logWrite op b data := by cases e <;> simp_all [Event.isHead]
  have hbegun : ∀ op, .beginOp op ∈ es ++ [e] → .beginOp op ∈ es := by
    intro op hop
    simpa [(hb op).symm] using hop
  have hwritten : ∀ op b data, .logWrite op b data ∈ es ++ [e] → .logWrite op b data ∈ es := by
    intro op b data hmem
    simpa [(hw op b data).symm] using hmem
  have hold : ∀ P, writesOf P (es ++ [e]) = writesOf P es := by
    intro P
    rw [writesOf_append, writesOf_singleton P hw, List.append_nil]
  have hopen : ∀ op, .beginOp op ∈ es → openIn lay (es ++ [e]) op = false := by
    intro op hop
    simp [openIn_concat hop, he]
  have hp : pending lay (es ++ [e]) = [] := by
    rw [pending, hold, h.writesOf_congr hopen, writesOf_false]
  have hu : updates lay (es ++ [e]) = writesOf (fun op => present lay es op ||
      (openIn lay es op && e.isHead lay)) es := by
    rw [updates, hold]
    exact h.writesOf_congr fun op _ => present_concat lay es e op
  refine ⟨⟨fun hop => h.begun_lt (hbegun _ hop),
    fun hmem => List.mem_append_left _ (h.begun (hwritten _ _ _ hmem)), ?_, ?_, ?_⟩, hp, hu⟩
  · rw [hold, hp, List.append_nil, updates, hold]
    exact h.writesOf_congr fun op hop => by rw [hopen op hop, Bool.or_false]
  · rw [hu, commits, commitsFrom_append, List.flatten_append, h.current]
    have hgrouped := h.grouped
    have hordered := h.ordered
    rw [commits] at hgrouped
    cases e <;> simp_all [commitsFrom, Event.isHead, updates]
  · rw [hp, gathered_append]
    cases e <;> simp_all [gathered, Event.isHead]

/-- A header with `n > 0` reaches the disk: the current group becomes durable. -/
lemma head (h : WfHistory lay es next) (he : e.isHead lay = true) :
    WfHistory lay (es ++ [e]) next ∧ updates lay (es ++ [e]) = updates lay es ++ pending lay es ∧
      pending lay (es ++ [e]) = [] := by
  obtain ⟨hwf, hp, hu⟩ := h.cut (e := e) (by simp [he])
  refine ⟨hwf, ?_, hp⟩
  rw [hu, ← h.ordered]
  simp [he]

/-- A crash: the current group is lost. -/
lemma crash (h : WfHistory lay es next) :
    WfHistory lay (es ++ [.crash]) next ∧ updates lay (es ++ [.crash]) = updates lay es ∧
      pending lay (es ++ [.crash]) = [] := by
  obtain ⟨hwf, hp, hu⟩ := h.cut (e := .crash) (by simp)
  refine ⟨hwf, ?_, hp⟩
  rw [hu]
  simp [Event.isHead, updates]

end WfHistory

end Xv6.Log
