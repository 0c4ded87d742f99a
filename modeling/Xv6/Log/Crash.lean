import Xv6.Log.History
import Xv6.Log.Recovery
import Mathlib.Data.Fintype.Card

/-!
# Crash atomicity of the redo log

In every state of the machine the disk stands for `durable`: the initial home blocks with
the updates of the operations that are present. So `recover_from_log` restores exactly
that, wherever the crash came.
-/

namespace Xv6.Log

open Xv6.Lib
open Xv6.Lib.Redo
open Xv6.Disk
open Xv6.Process (Slot Stop)
open Function (update update_of_ne update_self update_eq_self update_apply)

/-- The home blocks with the updates of the operations that are present. -/
def durable (lay : Layout) (d₀ : ℕ → Block) (es : List Event) : ℕ → Block :=
  replay (updates lay es) d₀

/-- The home blocks as the running kernel sees them. -/
def view (lay : Layout) (d₀ : ℕ → Block) (es : List Event) : ℕ → Block :=
  replay (pending lay es) (durable lay d₀ es)

/-- What the buffer cache stands for while the kernel runs: the view of the home blocks, and
the log's own blocks as they are on disk. -/
def contents (lay : Layout) (V d : ℕ → Block) : ℕ → Block :=
  fun b => if lay.Home b then V b else d b

variable {lay : Layout} {d₀ V d : ℕ → Block} {b : ℕ} {log : LogVars} {task : Slot → Task}

lemma contents_update_view (hb : lay.Home b) (v : Block) :
    contents lay (update V b v) d = update (contents lay V d) b v := by
  funext c
  by_cases hc : c = b
  · simp [contents, hc, hb]
  · simp [contents, hc]

lemma contents_update_log (hb : ¬ lay.Home b) (v : Block) :
    contents lay V (update d b v) = update (contents lay V d) b v := by
  funext c
  by_cases hc : c = b
  · simp [contents, hc, hb]
  · simp [contents, hc]

lemma contents_update_home (hb : lay.Home b) (v : Block) :
    contents lay V (update d b v) = contents lay V d := by
  funext c
  by_cases hc : c = b
  · simp [contents, hc, hb]
  · simp [contents, hc]

/-! ## The invariant -/

/-- The header in memory lists the blocks of the current group, and no header with `n > 0`
is on disk. -/
structure Gathering (lay : Layout) (es : List Event) (d : ℕ → Block) (lh : Logheader) : Prop where
  listed : Listed lay lh
  clean : headN (d lay.start) = 0
  keys : ∀ u ∈ pending lay es, u.1 ∈ lh.blocks

/-- Process `p` is in `commit` at `c`, and nobody else is in an operation. -/
structure Committing (log : LogVars) (task : Slot → Task) (p : Slot) (c : Commit) : Prop where
  committing : log.committing = true
  here : task p = .commit c
  others : ∀ q, q ≠ p → task q = .idle

lemma Committing.enter {p : Slot} (hc : log.committing = true)
    (hothers : ∀ q, q ≠ p → task q = .idle) (c : Commit) :
    Committing log (update task p (.commit c)) p c := by
  refine ⟨hc, update_self .., fun q hqp => ?_⟩
  rw [update_of_ne hqp, hothers q hqp]

/-- Nobody is in an operation. -/
structure Quiet (log : LogVars) (task : Slot → Task) : Prop where
  committing : log.committing = false
  idle : ∀ p, task p = .idle

/-- Where the machine is in its protocol, with the contents and the pins of the buffer
cache there. -/
inductive Phase (lay : Layout) (d₀ : ℕ → Block) (es : List Event) (d : ℕ → Block) (log : LogVars)
    (task : Slot → Task) : Mode → (ℕ → Block) → List ℕ → Prop where
  | readHead (hq : Quiet log task) (hp : pending lay es = []) :
      Phase lay d₀ es d log task .readHead d []
  | reinstall (tail : ℕ) (hq : Quiet log task) (hp : pending lay es = [])
      (hr : Replaying lay (durable lay d₀ es) log.lh tail d) :
      Phase lay d₀ es d log task (.install tail) d []
  | reclear (hq : Quiet log task) (hp : pending lay es = []) (hn : log.lh.n = 0)
      (hd : ∀ b, lay.Home b → d b = durable lay d₀ es b) :
      Phase lay d₀ es d log task .clearHead d []
  | gather (hc : log.committing = false) (hno : ∀ p c, task p ≠ .commit c)
      (hg : Gathering lay es d log.lh) :
      Phase lay d₀ es d log task .up (contents lay (view lay d₀ es) d) log.lh.blocks
  | writeLog (p : Slot) (tail : ℕ) (hc : Committing log task p (.writeLog tail))
      (hg : Gathering lay es d log.lh) (hn : 0 < log.lh.n)
      (hdone : ∀ k < tail, k < log.lh.n → d (lay.start + k + 1) = view lay d₀ es (log.lh.block k)) :
      Phase lay d₀ es d log task .up (contents lay (view lay d₀ es) d) log.lh.blocks
  | writeHead (p : Slot) (hc : Committing log task p .writeHead) (hg : Gathering lay es d log.lh)
      (hn : 0 < log.lh.n)
      (hdone : ∀ k < log.lh.n, d (lay.start + k + 1) = view lay d₀ es (log.lh.block k)) :
      Phase lay d₀ es d log task .up (contents lay (view lay d₀ es) d) log.lh.blocks
  | install (p : Slot) (tail : ℕ) (hc : Committing log task p (.install tail))
      (hp : pending lay es = []) (hl : Listed lay log.lh) (hs : SameHead lay log.lh d) :
      Phase lay d₀ es d log task .up (contents lay (view lay d₀ es) d) (log.lh.blocks.drop tail)
  | clear (p : Slot) (hc : Committing log task p .clearHead) (hp : pending lay es = [])
      (hn : log.lh.n = 0) :
      Phase lay d₀ es d log task .up (contents lay (view lay d₀ es) d) []
  | finish (p : Slot) (hc : Committing log task p .finish) (hg : Gathering lay es d log.lh) :
      Phase lay d₀ es d log task .up (contents lay (view lay d₀ es) d) log.lh.blocks

/-- The processes between `begin_op` and `end_op`. -/
def running (task : Slot → Task) : Finset Slot :=
  Finset.univ.filter fun p => task p matches .inOp _

/-- Only home blocks are locked. -/
def Held (lay : Layout) (bio : Bio) : Prop :=
  ∀ i, (bio.buf i).lock ≠ none → lay.Home (bio.buf i).blockno ∧ (bio.buf i).blockno < 2 ^ 32

/-- The invariant of the machine. -/
structure Inv (lay : Layout) (d₀ : ℕ → Block) (s : State) : Prop where
  wf : WfHistory lay s.trace s.nextOp
  recoverable : Recoverable lay (durable lay d₀ s.trace) s.bio.disk
  outstanding : s.log.outstanding = (running s.task).card
  opened : ∀ {p op}, s.task p = .inOp op → openIn lay s.trace op = true
  held : Held lay s.bio
  cache : ∃ C pins, Coherent C pins s.bio ∧
    Phase lay d₀ s.trace s.bio.disk s.log s.task s.mode C pins

variable {s s' : State} {p q : Slot} {C : ℕ → Block} {pins : List ℕ} {es es' : List Event} {op : ℕ}
  {i : Fin NBUF} {t : Task} {c c' : Commit}

lemma Inv.of_up (hup : s.mode = .up) (hwf : WfHistory lay s.trace s.nextOp)
    (hrec : Recoverable lay (durable lay d₀ s.trace) s.bio.disk)
    (hout : s.log.outstanding = (running s.task).card)
    (hopen : ∀ {p op}, s.task p = .inOp op → openIn lay s.trace op = true) (hheld : Held lay s.bio)
    (hcoh : Coherent C pins s.bio)
    (hphase : Phase lay d₀ s.trace s.bio.disk s.log s.task .up C pins) : Inv lay d₀ s :=
  ⟨hwf, hrec, hout, hopen, hheld, C, pins, hcoh, hup ▸ hphase⟩

/-- Power-on, and every crash, leads to a state of the invariant. -/
lemma Inv.boot {next : ℕ} (hwf : WfHistory lay es next)
    (hrec : Recoverable lay (durable lay d₀ es) d) (hp : pending lay es = []) :
    Inv lay d₀ (State.boot d next es) := by
  refine ⟨hwf, hrec, by simp [State.boot, LogVars.zero, running], by simp [State.boot],
    by simp [Held, State.boot, binit, Buf.zero], d, [], binit_coherent d, ?_⟩
  exact .readHead ⟨rfl, fun _ => rfl⟩ hp

lemma Inv.crash (h : Inv lay d₀ s) :
    Inv lay d₀ (State.boot s.bio.disk s.nextOp (s.trace ++ [.crash])) := by
  obtain ⟨hwf, hu, hp⟩ := h.wf.crash
  refine .boot hwf ?_ hp
  rw [durable, hu]
  exact h.recoverable

/-! ## Steps inside an operation -/

/-- While the kernel runs a process commits, or the log gathers blocks. -/
lemma Phase.up_cases (h : Phase lay d₀ es d log task .up C pins) :
    (∃ q c, Committing log task q c) ∨
      log.committing = false ∧ (∀ q c, task q ≠ .commit c) ∧ Gathering lay es d log.lh ∧
        C = contents lay (view lay d₀ es) d ∧ pins = log.lh.blocks := by
  cases h with
  | gather hc hno hg => exact .inr ⟨hc, hno, hg, rfl, rfl⟩
  | writeLog _ _ hc => exact .inl ⟨_, _, hc⟩
  | writeHead _ hc => exact .inl ⟨_, _, hc⟩
  | install _ _ hc => exact .inl ⟨_, _, hc⟩
  | clear _ hc => exact .inl ⟨_, _, hc⟩
  | finish _ hc => exact .inl ⟨_, _, hc⟩

/-- What a process in an operation knows. -/
lemma Phase.of_inOp (h : Phase lay d₀ es d log task .up C pins) (hp : task p = .inOp op) :
    log.committing = false ∧ (∀ q c, task q ≠ .commit c) ∧ Gathering lay es d log.lh ∧
      C = contents lay (view lay d₀ es) d ∧ pins = log.lh.blocks := by
  rcases h.up_cases with ⟨q, c, hc⟩ | hg
  · by_cases hpq : p = q
    · have := hc.here
      simp [← hpq, hp] at this
    · have := hc.others p hpq
      simp [hp] at this
  · exact hg

/-- Changing a buffer without touching its lock and its block number. -/
lemma Held.setBuf {bio : Bio} (h : Held lay bio) (i : Fin NBUF) {f : Buf → Buf}
    (hlock : (f (bio.buf i)).lock = (bio.buf i).lock)
    (hblock : (f (bio.buf i)).blockno = (bio.buf i).blockno) : Held lay (bio.setBuf i f) := by
  intro j hj
  have := h j
  by_cases hji : j = i
  · subst hji
    simp_all
  · simp_all

/-- Steps that leave the locked buffers alone. -/
lemma Held.of_same {bio bio' : Bio} (h : Held lay bio) (hs : bio.SameHeld bio') :
    Held lay bio' := by
  intro j hj
  rw [(hs j).1] at hj
  rw [(hs j).2 hj]
  exact h j hj

/-- A step that only touches the buffer cache. -/
lemma Inv.setBio (h : Inv lay d₀ s) {bio : Bio} (hd : bio.disk = s.bio.disk)
    (hc : ∀ {C pins}, Coherent C pins s.bio → Coherent C pins bio) (hheld : Held lay bio) :
    Inv lay d₀ { s with bio := bio } := by
  obtain ⟨C, pins, hcoh, hphase⟩ := h.cache
  refine ⟨h.wf, ?_, h.outstanding, h.opened, hheld, C, pins, hc hcoh, ?_⟩
  · simpa only [hd] using h.recoverable
  · simpa only [hd] using hphase

/-- A locked buffer caches its block of the root disk. -/
lemma Inv.caches (h : Inv lay d₀ s) (hi : (s.bio.buf i).lock ≠ none) :
    s.bio.Caches i (s.bio.buf i).blockno := by
  obtain ⟨C, pins, hcoh, -⟩ := h.cache
  refine ⟨?_, rfl⟩
  by_contra hdev
  exact hi (hcoh.spare i hdev).1

lemma Inv.bread (h : Inv lay d₀ s) {r : Fin NBUF × Bio} (hb : lay.Home b ∧ b < 2 ^ 32)
    (hr : bread p ROOTDEV b s.bio = .ok r) : Inv lay d₀ { s with bio := r.2 } := by
  have hgot : ∀ {C pins}, Coherent C pins s.bio → Coherent.Got C pins p b s.bio r.1 r.2 := by
    intro C pins hcoh
    exact (hcoh.bread_first (E := fun _ => True) (.inl fun _ => trivial)).of_ok hr
  obtain ⟨C, pins, hcoh, -⟩ := h.cache
  have hg := hgot hcoh
  refine h.setBio hg.disk_eq (fun hcoh => (hgot hcoh).coherent) fun i hi => ?_
  by_cases hir : i = r.1
  · rw [hir, hg.caches.2]
    exact hb
  · rw [hg.frame i hir] at hi ⊢
    exact h.held i hi

lemma Inv.modify (h : Inv lay d₀ s) (hi : (s.bio.buf i).lock = some p) (v : Block) :
    Inv lay d₀ { s with bio := setData i v s.bio } := by
  have hlock : (s.bio.buf i).lock ≠ none := by simp [hi]
  have hheld : Held lay (setData i v s.bio) := h.held.setBuf i rfl rfl
  exact h.setBio rfl (fun hcoh => hcoh.setData (h.caches hlock) hi v) hheld

lemma Inv.brelse (h : Inv lay d₀ s) {bio : Bio} (hi : (s.bio.buf i).modified = false)
    (hr : brelse p i s.bio = .ok bio) : Inv lay d₀ { s with bio := bio } := by
  have hlock : (s.bio.buf i).lock = some p := by
    by_contra hno
    simp [Disk.brelse, hno] at hr
  have hcaches := h.caches (i := i) (by simp [hlock])
  have hpost : ∀ {C pins}, Coherent C pins s.bio → Coherent C pins bio ∧ bio.disk = s.bio.disk ∧
      (bio.buf i).lock = none ∧ ∀ j, j ≠ i → bio.buf j = s.bio.buf j := by
    intro C pins hcoh
    obtain ⟨bio', hr', hcoh', hd, hbuf⟩ := hcoh.brelse_ok hcaches hlock hi
    rw [hr] at hr'
    cases hr'
    exact ⟨hcoh', hd, by simp [hbuf], fun j hj => by simp [hbuf, hj]⟩
  obtain ⟨C, pins, hcoh, -⟩ := h.cache
  obtain ⟨-, hd, hfree, hbuf⟩ := hpost hcoh
  refine h.setBio hd (fun hcoh => (hpost hcoh).1) fun j hj => ?_
  by_cases hji : j = i
  · exact absurd hfree (hji ▸ hj)
  · rw [hbuf j hji] at hj ⊢
    exact h.held j hj

/-! ## Entering and leaving operations, and `log_write` -/

lemma mem_running : p ∈ running task ↔ ∃ op, task p = .inOp op := by
  unfold running
  rw [Finset.mem_filter]
  cases task p <;> simp

lemma running_insert (task : Slot → Task) (p : Slot) (op : ℕ) :
    running (update task p (.inOp op)) = insert p (running task) := by
  ext q
  rw [mem_running, Finset.mem_insert, mem_running, update_apply]
  by_cases hq : q = p <;> simp [hq]

lemma running_update_inOp (hp : task p = .idle) :
    (running (update task p (.inOp op))).card = (running task).card + 1 := by
  have hnot : p ∉ running task := by simp [mem_running, hp]
  rw [running_insert, Finset.card_insert_of_notMem hnot]

lemma running_update_of_ne (ht : ∀ op, t ≠ .inOp op) :
    running (update task p t) = (running task).erase p := by
  ext q
  rw [mem_running, Finset.mem_erase, mem_running, update_apply]
  by_cases hq : q = p <;> simp [hq, ht]

lemma durable_congr (hu : updates lay es' = updates lay es) :
    durable lay d₀ es' = durable lay d₀ es := by
  rw [durable, durable, hu]

lemma view_congr (hu : updates lay es' = updates lay es) (hp : pending lay es' = pending lay es) :
    view lay d₀ es' = view lay d₀ es := by
  rw [view, view, hp, durable_congr hu]

lemma Gathering.congr {lh : Logheader} (hg : Gathering lay es d lh)
    (hp : pending lay es' = pending lay es) : Gathering lay es' d lh :=
  ⟨hg.listed, hg.clean, hp ▸ hg.keys⟩

/-- While the kernel runs and `log.committing` is clear, nobody commits. -/
lemma Phase.of_not_committing (h : Phase lay d₀ es d log task .up C pins)
    (hc : log.committing = false) :
    (∀ q c, task q ≠ .commit c) ∧ Gathering lay es d log.lh ∧
      C = contents lay (view lay d₀ es) d ∧ pins = log.lh.blocks := by
  rcases h.up_cases with ⟨q, c, hq⟩ | hg
  · simp [hq.committing] at hc
  · exact hg.2

lemma Inv.beginOp (h : Inv lay d₀ s) (hup : s.mode = .up) (hp : s.task p = .idle)
    (hs : beginOp p s = .ok s') : Inv lay d₀ s' := by
  unfold Log.beginOp at hs
  split at hs
  · cases hs
  split at hs
  · cases hs
  case isFalse.isFalse hnot _ =>
    cases hs
    have hcommitting : s.log.committing = false := by simpa using hnot
    obtain ⟨C, pins, hcoh, hphase⟩ := h.cache
    rw [hup] at hphase
    obtain ⟨hno, hg, rfl, rfl⟩ := hphase.of_not_committing hcommitting
    obtain ⟨hwf, hu, hpend⟩ := h.wf.quiet (e := .beginOp s.nextOp) rfl (by simp) (by simp)
      (Nat.le_succ s.nextOp) (by simp)
    refine .of_up hup hwf ?_ ?_ ?_ h.held ?_ (.gather hcommitting ?_ ?_)
    · exact (durable_congr hu).symm ▸ h.recoverable
    · show s.log.outstanding + 1 = (running (update s.task p (.inOp s.nextOp))).card
      rw [running_update_inOp hp, h.outstanding]
    · intro q op hq
      show openIn lay (s.trace ++ [.beginOp s.nextOp]) op = true
      replace hq : update s.task p (.inOp s.nextOp) q = .inOp op := hq
      by_cases hqp : q = p
      · have hop : s.nextOp = op := by simpa [hqp] using hq
        exact hop ▸ h.wf.openIn_beginOp
      · rw [update_of_ne hqp] at hq
        exact openIn_mono (h.opened hq) rfl (by simp)
    · exact (view_congr hu hpend).symm ▸ hcoh
    · intro q c
      show update s.task p (.inOp s.nextOp) q ≠ .commit c
      by_cases hqp : q = p
      · simp [hqp]
      · rw [update_of_ne hqp]
        exact hno q c
    · exact hg.congr hpend

/-- What `log_write` of block `b` does to the header: an entry for `b` is there already, or is
added at the end. -/
lemma logWrite_header (lh : Logheader) (b : ℕ) :
    let k := ((List.range lh.n).find? fun k => lh.block k = b).getD lh.n
    (k ≠ lh.n ∧ b ∈ lh.blocks ∧ update lh.block k b = lh.block) ∨
      (k = lh.n ∧
        Logheader.blocks ⟨lh.n + 1, update lh.block k b⟩ = lh.blocks ++ [b]) := by
  intro k
  cases hfind : (List.range lh.n).find? fun k => lh.block k = b with
  | some j =>
    have hk : k = j := by simp [k, hfind]
    have hj : lh.block j = b := by simpa using List.find?_some hfind
    have hlt : j < lh.n := List.mem_range.1 (List.mem_of_find?_eq_some hfind)
    refine .inl ⟨by omega, hj ▸ Logheader.mem_blocks hlt, ?_⟩
    rw [hk, ← hj, update_eq_self]
  | none =>
    have hk : k = lh.n := by simp [k, hfind]
    refine .inr ⟨hk, ?_⟩
    rw [hk, Logheader.blocks, Logheader.blocks, List.range_succ, List.map_append]
    congr 1
    · apply List.map_congr_left
      intro j hj
      rw [List.mem_range] at hj
      exact update_of_ne (show j ≠ lh.n by omega) b lh.block
    · simp

private lemma keys_concat {us : List (ℕ × Block)} {bs : List ℕ} {v : Block}
    (hus : ∀ u ∈ us, u.1 ∈ bs) (hb : b ∈ bs) : ∀ u ∈ us ++ [(b, v)], u.1 ∈ bs := by
  intro u hu
  rcases List.mem_append.1 hu with hu | hu
  · exact hus u hu
  · rw [List.mem_singleton.1 hu]
    exact hb

lemma Inv.logWrite (h : Inv lay d₀ s) (hup : s.mode = .up) (hp : s.task p = .inOp op)
    (hi : (s.bio.buf i).lock = some p) (hs : logWrite lay op i s = .ok s') : Inv lay d₀ s' := by
  have hlock : (s.bio.buf i).lock ≠ none := by simp [hi]
  have hcaches := h.caches hlock
  obtain ⟨hhome, hlt⟩ := h.held i hlock
  obtain ⟨C, pins, hcoh, hphase⟩ := h.cache
  rw [hup] at hphase
  obtain ⟨hcommitting, hno, hg, rfl, rfl⟩ := hphase.of_inOp hp
  set b := (s.bio.buf i).blockno with hb
  set v := (s.bio.buf i).data with hv
  obtain ⟨hwf, hu, hpend⟩ : WfHistory lay (s.trace ++ [.logWrite op b v]) s.nextOp ∧ _ ∧ _ :=
    h.wf.logWrite (h.opened hp)
  have hview : contents lay (view lay d₀ (s.trace ++ [.logWrite op b v])) s.bio.disk =
      update (contents lay (view lay d₀ s.trace) s.bio.disk) b v := by
    rw [view, hpend, durable_congr hu, replay_append]
    exact contents_update_view hhome v
  have hrec : Recoverable lay (durable lay d₀ (s.trace ++ [.logWrite op b v])) s.bio.disk :=
    (durable_congr hu).symm ▸ h.recoverable
  have hopen : ∀ {q op'}, s.task q = .inOp op' →
      openIn lay (s.trace ++ [.logWrite op b v]) op' = true :=
    fun hq => openIn_mono (h.opened hq) rfl (by simp)
  unfold Log.logWrite at hs
  dsimp only at hs
  split at hs
  · cases hs
  split at hs
  · cases hs
  case isFalse.isFalse hroom _ =>
    rcases logWrite_header s.log.lh b with ⟨hk, hmem, hblock⟩ | ⟨hk, hblocks⟩
    · rw [if_neg hk, hblock] at hs
      cases hs
      have hcoh' := hcoh.absorb hcaches hmem
      rw [← hview] at hcoh'
      have hheld : Held lay (markLogged i s.bio) := h.held.setBuf i rfl rfl
      refine .of_up hup hwf hrec h.outstanding hopen hheld hcoh'
        (.gather hcommitting hno ⟨hg.listed, hg.clean, ?_⟩)
      exact hpend ▸ keys_concat hg.keys hmem
    · rw [if_pos hk] at hs
      cases hs
      have hcoh' := hcoh.bpin hcaches
      rw [← hview, ← hblocks] at hcoh'
      have hheld : Held lay (bpin i s.bio) := h.held.setBuf i rfl rfl
      have hheld' : Held lay (markLogged i (bpin i s.bio)) := hheld.setBuf i rfl rfl
      refine .of_up hup hwf hrec h.outstanding hopen hheld' hcoh'
        (.gather hcommitting hno ⟨⟨?_, ?_, ?_⟩, hg.clean, ?_⟩)
      · show s.log.lh.n + 1 ≤ LOGSIZE
        omega
      · show s.log.lh.n + 1 < lay.size
        omega
      · intro c hc
        rcases List.mem_append.1 (hblocks ▸ hc) with hc | hc
        · exact hg.listed.home c hc
        · rw [List.mem_singleton.1 hc]
          exact ⟨hhome, hlt⟩
      · refine hpend ▸ hblocks ▸ keys_concat (fun u hu => ?_) ?_
        · exact List.mem_append_left _ (hg.keys u hu)
        · exact List.mem_append_right _ List.mem_cons_self

/-- The operations in progress when process `p` does something else. -/
lemma Inv.opened_setTask (h : Inv lay d₀ s) (ht : ∀ op, t ≠ .inOp op)
    (hq : update s.task p t q = .inOp op) : openIn lay s.trace op = true := by
  by_cases hqp : q = p
  · simp [hqp, ht] at hq
  · rw [update_of_ne hqp] at hq
    exact h.opened hq

/-- They stay open until their group is cut off. -/
lemma Inv.opened_update (h : Inv lay d₀ s) {e : Event} (he : e.isHead lay = false) (hc : e ≠ .crash)
    (ht : ∀ op, t ≠ .inOp op) (hq : update s.task p t q = .inOp op) :
    openIn lay (s.trace ++ [e]) op = true :=
  openIn_mono (h.opened_setTask ht hq) he hc

lemma Inv.endOp (h : Inv lay d₀ s) (hup : s.mode = .up) (hp : s.task p = .inOp op)
    (hs : endOp p op s = .ok s') : Inv lay d₀ s' := by
  obtain ⟨C, pins, hcoh, hphase⟩ := h.cache
  rw [hup] at hphase
  obtain ⟨hcommitting, hno, hg, rfl, rfl⟩ := hphase.of_inOp hp
  obtain ⟨hwf, hu, hpend⟩ := h.wf.quiet (e := .endOp op) rfl (by simp) (by simp) le_rfl (by simp)
  have hrec : Recoverable lay (durable lay d₀ (s.trace ++ [.endOp op])) s.bio.disk :=
    (durable_congr hu).symm ▸ h.recoverable
  have hcoh' := hcoh
  rw [← view_congr hu hpend] at hcoh'
  have hmem : p ∈ running s.task := mem_running.2 ⟨op, hp⟩
  have hcard : s.log.outstanding - 1 = ((running s.task).erase p).card := by
    rw [Finset.card_erase_of_mem hmem, h.outstanding]
  unfold Log.endOp at hs
  dsimp only [State.record] at hs
  rw [if_neg (by simp [hcommitting])] at hs
  split at hs
  case isTrue hlast =>
    cases hs
    -- the last operation: everybody else is idle
    have hothers : ∀ q, q ≠ p → s.task q = .idle := by
      intro q hqp
      have hq : q ∉ (running s.task).erase p := by
        rw [Finset.card_eq_zero.1 (hcard.symm.trans hlast)]
        simp
      cases htask : s.task q with
      | idle => rfl
      | inOp op' => exact absurd (Finset.mem_erase.2 ⟨hqp, mem_running.2 ⟨op', htask⟩⟩) hq
      | commit c => exact absurd htask (hno q c)
    have hout : ∀ c, s.log.outstanding - 1 =
        (running (update s.task p (.commit c))).card := by
      intro c
      rw [running_update_of_ne (by simp), hcard]
    refine .of_up hup hwf hrec (hout _) (h.opened_update rfl (by simp) (by simp)) h.held hcoh' ?_
    by_cases hn : s.log.lh.n > 0
    · rw [if_pos hn]
      exact .writeLog p 0 (.enter rfl hothers _) (hg.congr hpend) hn (by simp)
    · rw [if_neg hn]
      exact .finish p (.enter rfl hothers _) (hg.congr hpend)
  case isFalse hmore =>
    cases hs
    refine .of_up hup hwf hrec ?_ (h.opened_update rfl (by simp) (by simp)) h.held hcoh'
      (.gather hcommitting ?_ (hg.congr hpend))
    · show s.log.outstanding - 1 = (running (update s.task p .idle)).card
      rw [running_update_of_ne (by simp), hcard]
    · intro q c
      show update s.task p .idle q ≠ .commit c
      by_cases hqp : q = p
      · simp [hqp]
      · rw [update_of_ne hqp]
        exact hno q c

/-! ## `commit` -/

lemma Committing.unique (h : Committing log task q c') (hp : task p = .commit c) :
    q = p ∧ c' = c := by
  by_cases hpq : p = q
  · have hhere := h.here
    rw [← hpq, hp] at hhere
    exact ⟨hpq.symm, by simpa using hhere.symm⟩
  · have hidle := h.others p hpq
    simp [hp] at hidle

/-- Moving on in `commit`, or leaving it, does not change who is in an operation. -/
lemma Inv.outstanding_update (h : Inv lay d₀ s) (hp : s.task p = .commit c)
    (ht : ∀ op, t ≠ .inOp op) : s.log.outstanding = (running (update s.task p t)).card := by
  have hnot : p ∉ running s.task := by simp [mem_running, hp]
  rw [running_update_of_ne ht, Finset.erase_eq_of_notMem hnot, h.outstanding]

/-- A disk write that carries no header with `n > 0`. -/
lemma Inv.wrote (h : Inv lay d₀ s) (hup : s.mode = .up) (hp : s.task p = .commit c) {bio : Bio}
    (hheld : s.bio.SameHeld bio) (hhead : (Event.write b (bio.disk b)).isHead lay = false)
    (hrec : Recoverable lay (durable lay d₀ s.trace) bio.disk) (hcoh : Coherent C pins bio)
    (hphase : ∀ es, updates lay es = updates lay s.trace → pending lay es = pending lay s.trace →
      Phase lay d₀ es bio.disk s.log (update s.task p (.commit c')) .up C pins) :
    Inv lay d₀ (({ s with bio := bio }.wrote b).setTask p (.commit c')) := by
  obtain ⟨hwf, hu, hpend⟩ := h.wf.quiet hhead (by simp) (by simp) le_rfl (by simp)
  refine .of_up hup hwf ?_ (h.outstanding_update hp (by simp))
    (h.opened_update hhead (by simp) (by simp)) (h.held.of_same hheld) hcoh (hphase _ hu hpend)
  exact (durable_congr hu).symm ▸ hrec

lemma Layout.not_home_slot {k : ℕ} (hk : k + 1 < lay.size) : ¬ lay.Home (lay.start + k + 1) := by
  unfold Layout.Home
  omega

lemma isHead_write_of_ne (hb : b ≠ lay.start) (v : Block) :
    (Event.write b v).isHead lay = false := by
  simp [Event.isHead, hb]

/-- Any stop of the log's code is fine for an invariant. -/
private lemma tolerates (pins : List ℕ) (bio : Bio) :
    Coherent.Tolerates (fun _ => True) pins bio := .inl fun _ => trivial

section Kept

variable (h : Inv lay d₀ s)

include h

/-- A round of the loop of `write_log`. -/
lemma Inv.writeLog (hup : s.mode = .up) {tail : ℕ} {bio : Bio}
    (hcoh : Coherent (contents lay (view lay d₀ s.trace) s.bio.disk) s.log.lh.blocks s.bio)
    (hc : Committing s.log s.task p (.writeLog tail))
    (hg : Gathering lay s.trace s.bio.disk s.log.lh)
    (hdone : ∀ k < tail, k < s.log.lh.n → s.bio.disk (lay.start + k + 1) = view lay d₀ s.trace
      (s.log.lh.block k)) (htail : tail < s.log.lh.n)
    (hbio : writeLogBody lay p s.log.lh tail s.bio = .ok bio) :
    Inv lay d₀ (({ s with bio := bio }.wrote (lay.start + tail + 1)).setTask p
      (.commit (.writeLog (tail + 1)))) := by
  have hsize : tail + 1 < lay.size := by
    have := hg.listed.lt_size
    omega
  have hhome := (hg.listed.home _ (Logheader.mem_blocks htail)).1
  have hslot := Layout.not_home_slot hsize
  have hw := (writeLogBody_post hcoh (tolerates _ _) (hhome.ne_slot hsize).symm).of_ok hbio
  have hcoh' := hw.coherent
  rw [← contents_update_log hslot, ← hw.disk_eq] at hcoh'
  refine h.wrote hup hc.here hw.held (isHead_write_of_ne (by omega) _) ?_ hcoh' fun es hu
    hpend => ?_
  · rw [hw.disk_eq]
    exact h.recoverable.writeSlot hg.clean hslot (by omega)
  · rw [← view_congr hu hpend]
    refine .writeLog p (tail + 1) (.enter hc.committing hc.others _)
      ⟨hg.listed, ?_, hpend ▸ hg.keys⟩
      (by omega) fun k hk hkn => ?_
    · rw [hw.disk_eq, update_of_ne (by omega)]
      exact hg.clean
    · rw [hw.disk_eq, view_congr hu hpend]
      by_cases hkt : k = tail
      · rw [hkt, update_self]
        exact if_pos hhome
      · rw [update_of_ne (by omega)]
        exact hdone k (by omega) hkn

/-- The commit point. -/
lemma Inv.writeHead (hup : s.mode = .up) {bio : Bio}
    (hcoh : Coherent (contents lay (view lay d₀ s.trace) s.bio.disk) s.log.lh.blocks s.bio)
    (hc : Committing s.log s.task p .writeHead) (hg : Gathering lay s.trace s.bio.disk s.log.lh)
    (hn : 0 < s.log.lh.n)
    (hdone : ∀ k < s.log.lh.n, s.bio.disk (lay.start + k + 1) = view lay d₀ s.trace (s.log.lh.block
      k)) (hbio : writeHead lay p s.log.lh s.bio = .ok bio) :
    Inv lay d₀ (({ s with bio := bio }.wrote lay.start).setTask p (.commit (.install 0))) := by
  have hw := (writeHead_post hcoh (tolerates _ _)).of_ok hbio
  have hstart : ¬ lay.Home lay.start := fun hhome => hhome.ne_start rfl
  obtain ⟨hsame, hrec⟩ := h.recoverable.commit hg.clean hg.listed hg.keys hdone
    (contents lay (view lay d₀ s.trace) s.bio.disk lay.start)
  rw [← hw.disk_eq] at hsame hrec
  have hhead : (Event.write lay.start (bio.disk lay.start)).isHead lay = true := by
    simp [Event.isHead, hsame.n_eq, hn]
  obtain ⟨hwf, hu, hpend⟩ := h.wf.head hhead
  have hdurable : durable lay d₀ (s.trace ++ [.write lay.start (bio.disk lay.start)]) =
      view lay d₀ s.trace := by
    rw [durable, hu, replay_append]
    rfl
  have hview : view lay d₀ (s.trace ++ [.write lay.start (bio.disk lay.start)]) =
      view lay d₀ s.trace := by
    rw [view, hpend, hdurable]
    rfl
  have hcoh' := hw.coherent
  rw [← contents_update_log hstart, ← hw.disk_eq, ← hview] at hcoh'
  refine .of_up hup hwf ?_ (h.outstanding_update hc.here (by simp)) ?_
    (h.held.of_same hw.held) hcoh'
    (.install p 0 (.enter hc.committing hc.others _) hpend hg.listed hsame)
  · exact hdurable ▸ hrec
  · intro q op hq
    replace hq : update s.task p (.commit (.install 0)) q = .inOp op := hq
    by_cases hqp : q = p
    · simp [hqp] at hq
    · simp [hqp, hc.others q hqp] at hq

/-- A round of the loop of `install_trans`. -/
lemma Inv.install (hup : s.mode = .up) {tail : ℕ} {bio : Bio}
    (hcoh : Coherent (contents lay (view lay d₀ s.trace) s.bio.disk) (s.log.lh.blocks.drop tail)
      s.bio) (hc : Committing s.log s.task p (.install tail)) (hp : pending lay s.trace = [])
    (hl : Listed lay s.log.lh) (hs : SameHead lay s.log.lh s.bio.disk) (htail : tail < s.log.lh.n)
    (hbio : installBody lay p false s.log.lh tail s.bio = .ok bio) :
    Inv lay d₀ (({ s with bio := bio }.wrote (s.log.lh.block tail)).setTask p
      (.commit (.install (tail + 1)))) := by
  obtain ⟨hhome, hslot, hsize⟩ := h.recoverable.slot hs htail
  have hdrop : s.log.lh.blocks.drop tail =
      s.log.lh.block tail :: s.log.lh.blocks.drop (tail + 1) := by
    have hlen : tail < s.log.lh.blocks.length := by simpa [Logheader.blocks] using htail
    rw [List.drop_eq_getElem_cons hlen]
    simp [Logheader.blocks]
  obtain ⟨hcoh', hdisk, hheld⟩ := (installBody_post hcoh (tolerates _ _)
    (hhome.ne_slot hsize).symm (fun _ => hdrop ▸ List.mem_cons_self)).of_ok hbio
  have hview : view lay d₀ s.trace = durable lay d₀ s.trace := by
    rw [view, hp]
    rfl
  -- the log block and the cached home block hold the same
  have hsame : contents lay (view lay d₀ s.trace) s.bio.disk (lay.start + tail + 1) =
      contents lay (view lay d₀ s.trace) s.bio.disk (s.log.lh.block tail) := by
    rw [contents, if_neg (Layout.not_home_slot hsize), contents, if_pos hhome, hslot, hview]
  rw [hsame, update_eq_self, pinsAfter, if_neg (by simp), hdrop, List.erase_cons_head,
    ← contents_update_home hhome (contents lay (view lay d₀ s.trace) s.bio.disk
      (lay.start + tail + 1)), ← hdisk] at hcoh'
  refine h.wrote hup hc.here hheld (isHead_write_of_ne hhome.ne_start _) ?_ hcoh'
    fun es hu hpend => ?_
  · rw [hdisk]
    exact h.recoverable.install (by rw [hs.keys_eq]; exact Logheader.mem_blocks htail)
  · rw [← view_congr hu hpend]
    refine .install p (tail + 1) (.enter hc.committing hc.others _) (hpend.trans hp) hl ?_
    rw [hdisk]
    exact hs.update_home hhome _

/-- Erasing the transaction from the log. -/
lemma Inv.clearHead (hup : s.mode = .up) {bio : Bio}
    (hcoh : Coherent (contents lay (view lay d₀ s.trace) s.bio.disk) [] s.bio)
    (hc : Committing s.log s.task p .clearHead) (hp : pending lay s.trace = [])
    (hn : s.log.lh.n = 0) (hbio : Log.writeHead lay p s.log.lh s.bio = .ok bio) :
    Inv lay d₀ (({ s with bio := bio }.wrote lay.start).setTask p (.commit .finish)) := by
  have hw := (writeHead_post hcoh (tolerates _ _)).of_ok hbio
  have hstart : ¬ lay.Home lay.start := fun hhome => hhome.ne_start rfl
  have hplace : ∀ b, lay.Home b → s.bio.disk b = durable lay d₀ s.trace b := by
    intro b hb
    rw [hcoh.disk b (by simp), contents, if_pos hb, view, hp]
    rfl
  obtain ⟨hclean, hrec⟩ := recoverable_clear hn hplace
    (contents lay (view lay d₀ s.trace) s.bio.disk lay.start)
  rw [← hw.disk_eq] at hclean hrec
  have hcoh' := hw.coherent
  rw [← contents_update_log hstart, ← hw.disk_eq] at hcoh'
  have hblocks : s.log.lh.blocks = [] := by simp [Logheader.blocks, hn]
  refine h.wrote hup hc.here hw.held (by simp [Event.isHead, hclean]) hrec hcoh' fun es hu
    hpend => ?_
  rw [← view_congr hu hpend, ← hblocks]
  refine .finish p (.enter hc.committing hc.others _) ⟨⟨by omega, ?_, by simp [hblocks]⟩,
    hclean, ?_⟩
  · rw [hn]
    exact lay.size_pos
  · simp [hpend, hp]

lemma Inv.commit (hup : s.mode = .up) (hp : s.task p = .commit c)
    (hs : commitStep lay p c s = .ok s') : Inv lay d₀ s' := by
  obtain ⟨C, pins, hcoh, hphase⟩ := h.cache
  rw [hup] at hphase
  unfold commitStep at hs
  cases hphase with
  | gather _ hno _ => exact absurd hp (hno p c)
  | writeLog q tail hc hg hn hdone =>
    obtain ⟨rfl, rfl⟩ := hc.unique hp
    dsimp only at hs
    split at hs
    case isTrue htail =>
      obtain ⟨bio, hbio, hs⟩ := bind_eq_ok hs
      cases hs
      exact h.writeLog hup hcoh hc hg hdone htail hbio
    case isFalse htail =>
      cases hs
      exact .of_up hup h.wf h.recoverable (h.outstanding_update hp (by simp))
        (h.opened_setTask (by simp)) h.held hcoh (.writeHead q
          (.enter hc.committing hc.others _) hg hn
          fun k (hk : k < s.log.lh.n) => hdone k (by omega) hk)
  | writeHead q hc hg hn hdone =>
    obtain ⟨rfl, rfl⟩ := hc.unique hp
    obtain ⟨bio, hbio, hs⟩ := bind_eq_ok hs
    cases hs
    exact h.writeHead hup hcoh hc hg hn hdone hbio
  | install q tail hc hpend hl hsame =>
    obtain ⟨rfl, rfl⟩ := hc.unique hp
    dsimp only at hs
    split at hs
    case isTrue htail =>
      obtain ⟨bio, hbio, hs⟩ := bind_eq_ok hs
      cases hs
      exact h.install hup hcoh hc hpend hl hsame htail hbio
    case isFalse htail =>
      cases hs
      have hnil : s.log.lh.blocks.drop tail = [] :=
        List.drop_eq_nil_of_le (by simpa [Logheader.blocks] using htail)
      rw [hnil] at hcoh
      have hc' := Committing.enter hc.committing hc.others .clearHead
      exact .of_up hup h.wf h.recoverable (h.outstanding_update hp (by simp))
        (h.opened_setTask (by simp)) h.held hcoh
        (.clear q ⟨hc'.committing, hc'.here, hc'.others⟩ hpend rfl)
  | clear q hc hpend hn =>
    obtain ⟨rfl, rfl⟩ := hc.unique hp
    obtain ⟨bio, hbio, hs⟩ := bind_eq_ok hs
    cases hs
    exact h.clearHead hup hcoh hc hpend hn hbio
  | finish q hc hg =>
    obtain ⟨rfl, rfl⟩ := hc.unique hp
    cases hs
    refine .of_up hup h.wf h.recoverable (h.outstanding_update hp (by simp))
      (h.opened_setTask (by simp)) h.held hcoh (.gather rfl (fun r c => ?_) hg)
    show update s.task q .idle r ≠ .commit c
    by_cases hrq : r = q
    · simp [hrq]
    · simp [hrq, hc.others r hrq]

/-! ## Recovery -/

/-- A disk write of the booting kernel. -/
lemma Inv.rewrote {bio : Bio} {mode : Mode} (hheld : s.bio.SameHeld bio)
    (hhead : (Event.write b (bio.disk b)).isHead lay = false)
    (hrec : Recoverable lay (durable lay d₀ s.trace) bio.disk) (hcoh : Coherent C pins bio)
    (hphase : ∀ es, updates lay es = updates lay s.trace → pending lay es = pending lay s.trace →
      Phase lay d₀ es bio.disk s.log s.task mode C pins) :
    Inv lay d₀ { { s with bio := bio }.wrote b with mode := mode } := by
  obtain ⟨hwf, hu, hpend⟩ := h.wf.quiet hhead (by simp) (by simp) le_rfl (by simp)
  refine ⟨hwf, ?_, h.outstanding, fun hq => openIn_mono (h.opened hq) hhead (by simp),
    h.held.of_same hheld, C, pins, hcoh, hphase _ hu hpend⟩
  exact (durable_congr hu).symm ▸ hrec

lemma Inv.recover (hs : recoverStep lay s = .ok s') : Inv lay d₀ s' := by
  obtain ⟨C, pins, hcoh, hphase⟩ := h.cache
  unfold recoverStep at hs
  dsimp only at hs
  generalize hmode : s.mode = mode at hs hphase
  cases hphase with
  | readHead hq hp =>
    obtain ⟨⟨lh, bio⟩, hbio, hs⟩ := bind_eq_ok hs
    cases hs
    obtain ⟨hn, hblock, hcoh', hdisk, hheld⟩ := (readHead_post hcoh (tolerates _ _)).of_ok hbio
    have hrec := h.recoverable
    rw [← hdisk] at hcoh' hrec hn hblock
    exact ⟨h.wf, hrec, h.outstanding, h.opened, h.held.of_same hheld, bio.disk, [], hcoh',
      .reinstall 0 ⟨hq.committing, hq.idle⟩ hp
        ⟨⟨hn.symm, fun k hk => (hblock k hk).symm⟩, hrec, by simp⟩⟩
  | reinstall tail hq hp hr =>
    dsimp only at hs
    split at hs
    case isTrue htail =>
      obtain ⟨bio, hbio, hs⟩ := bind_eq_ok hs
      cases hs
      obtain ⟨hhome, -, hsize⟩ := hr.recoverable.slot hr.same htail
      obtain ⟨hcoh', hdisk, hheld⟩ := (installBody_post hcoh (tolerates _ _)
        (hhome.ne_slot hsize).symm (by simp)).of_ok hbio
      have hr' := hr.step htail
      rw [← hdisk] at hcoh' hr'
      exact h.rewrote hheld (isHead_write_of_ne hhome.ne_start _) hr'.recoverable hcoh'
        fun es hu hpend => .reinstall (tail + 1) hq (hpend.trans hp) (durable_congr hu ▸ hr')
    case isFalse htail =>
      cases hs
      exact ⟨h.wf, h.recoverable, h.outstanding, h.opened, h.held, s.bio.disk, [], hcoh,
        .reclear ⟨hq.committing, hq.idle⟩ hp rfl fun b hb => hr.finished (by omega) hb⟩
  | reclear hq hp hn hplace =>
    obtain ⟨bio, hbio, hs⟩ := bind_eq_ok hs
    cases hs
    have hw := (writeHead_post hcoh (tolerates _ _)).of_ok hbio
    obtain ⟨hclean, hrec⟩ := recoverable_clear hn hplace (s.bio.disk lay.start)
    have hcoh' := hw.coherent
    rw [← hw.disk_eq] at hclean hrec hcoh'
    have hblocks : s.log.lh.blocks = [] := by simp [Logheader.blocks, hn]
    -- every home block is in place, so the cache stands for the view
    have hcontents : ∀ es, updates lay es = updates lay s.trace → pending lay es = [] →
        bio.disk = contents lay (view lay d₀ es) bio.disk := by
      intro es hu hpend
      funext b
      by_cases hb : lay.Home b
      · rw [contents, if_pos hb, view, hpend, replay_nil, durable_congr hu]
        exact hrec.clean hclean hb
      · rw [contents, if_neg hb]
    refine h.rewrote hw.held (by simp [Event.isHead, hclean]) hrec hcoh' fun es hu hpend => ?_
    rw [hp] at hpend
    have hlisted : Listed lay s.log.lh :=
      ⟨by omega, by rw [hn]; exact lay.size_pos, by simp [hblocks]⟩
    have hgather : Phase lay d₀ es bio.disk s.log s.task .up _ _ :=
      .gather hq.committing (by simp [hq.idle]) ⟨hlisted, hclean, by simp [hpend]⟩
    rwa [← hcontents es hu hpend, hblocks] at hgather
  | gather | writeLog | writeHead | install | clear | finish => cases hs

/-! ## Whole runs -/

lemma Inv.stepUp (hup : s.mode = .up) {a : Act} (hs : stepUp lay s a = .ok s') : Inv lay d₀ s' := by
  unfold Log.stepUp at hs
  cases a with
  | beginOp p =>
    dsimp only at hs
    split at hs
    case isTrue hp => exact h.beginOp hup hp hs
    case isFalse => cases hs
  | bread p b =>
    dsimp only at hs
    split at hs
    · cases hs
    split at hs
    case isTrue hb =>
      obtain ⟨r, hr, hs⟩ := bind_eq_ok hs
      cases hs
      exact h.bread hb hr
    case isFalse => cases hs
  | modify p i v =>
    dsimp only at hs
    split at hs
    · split at hs
      case isTrue hi =>
        cases hs
        exact h.modify hi v
      case isFalse => cases hs
    · cases hs
  | logWrite p i =>
    dsimp only at hs
    split at hs
    case h_1 op hp =>
      split at hs
      case isTrue hi => exact h.logWrite hup hp hi hs
      case isFalse => cases hs
    case h_2 => cases hs
  | brelse p i =>
    dsimp only at hs
    split at hs
    · cases hs
    split at hs
    case isTrue => cases hs
    case isFalse hm =>
      obtain ⟨bio, hr, hs⟩ := bind_eq_ok hs
      cases hs
      exact h.brelse (by simpa using hm) hr
  | endOp p =>
    dsimp only at hs
    split at hs
    case h_1 op hp => exact h.endOp hup hp hs
    case h_2 => cases hs
  | commit p =>
    dsimp only at hs
    split at hs
    case h_1 c hp => exact h.commit hup hp hs
    case h_2 => cases hs
  | recover => cases hs
  | crash => cases hs

lemma Inv.step {a : Act} (hs : step lay a s = .ok s') : Inv lay d₀ s' := by
  unfold Log.step at hs
  split at hs
  case h_1 =>
    cases hs
    exact h.crash
  case h_2 => exact h.recover hs
  case h_3 =>
    split at hs
    case isTrue hup => exact h.stepUp hup hs
    case isFalse => cases hs

end Kept

/-- The invariant holds in every run that starts on a disk with an empty log. -/
lemma reachable_inv (h₀ : headN (d₀ lay.start) = 0) (hs : Reachable lay d₀ s) : Inv lay d₀ s := by
  refine preserved (fun s s' h ⟨a, ha⟩ => h.step ha) ?_ hs
  exact .boot (.nil lay) (recoverable_of_clean h₀ fun _ _ => rfl) rfl

lemma step_grows (lay : Layout) (a : Act) (s : State) :
    Post (fun _ => True) (fun s' => s.trace <+: s'.trace) (step lay a s) := by
  have hsame : s.trace <+: s.trace := List.prefix_rfl
  have hone : ∀ e, s.trace <+: s.trace ++ [e] := fun e => List.prefix_append _ _
  unfold Log.step
  split
  · exact hone _
  · unfold recoverStep
    dsimp only
    split
    · exact Post.bind_of_forall fun _ => hsame
    · split
      · exact Post.bind_of_forall fun _ => hone _
      · exact hsame
    · exact Post.bind_of_forall fun _ => hone _
    · trivial
  · refine Post.ite (fun _ => ?_) fun _ => trivial
    unfold Log.stepUp
    cases a with
    | beginOp p =>
      refine Post.ite (fun _ => ?_) fun _ => trivial
      unfold Log.beginOp
      exact Post.guard fun _ => Post.guard fun _ => hone _
    | bread p b =>
      dsimp only
      split
      · trivial
      · exact Post.ite (fun _ => Post.bind_of_forall fun _ => hsame)
          fun _ => trivial
    | modify p i v =>
      dsimp only
      split
      · exact Post.ite (fun _ => hsame) fun _ => trivial
      · trivial
    | logWrite p i =>
      dsimp only
      split
      · refine Post.ite (fun _ => ?_) fun _ => trivial
        unfold Log.logWrite
        refine Post.guard fun _ => Post.guard fun _ => ?_
        dsimp only
        split <;> exact hone _
      · trivial
    | brelse p i =>
      dsimp only
      split
      · trivial
      · exact Post.guard fun _ =>
          Post.bind_of_forall fun _ => hsame
    | endOp p =>
      dsimp only
      split
      · unfold Log.endOp
        exact Post.guard fun _ => Post.ite (fun _ => hone _) fun _ => hone _
      · trivial
    | commit p =>
      dsimp only
      split
      · unfold commitStep
        dsimp only
        split
        · exact Post.ite (fun _ => Post.bind_of_forall fun _ => hone _)
            fun _ => hsame
        · exact Post.bind_of_forall fun _ => hone _
        · exact Post.ite (fun _ => Post.bind_of_forall fun _ => hone _)
            fun _ => hsame
        · exact Post.bind_of_forall fun _ => hone _
        · exact hsame
      · trivial
    | recover => trivial
    | crash => trivial

lemma run_grows (h : Relation.ReflTransGen (Next lay) s s') : s.trace <+: s'.trace :=
  preserved (I := fun t => s.trace <+: t.trace)
    (fun _ _ ht ⟨a, ha⟩ => ht.trans ((step_grows lay a _).of_ok ha)) List.prefix_rfl h

/-- Wherever the machine crashes, recovery run to its end leaves the home blocks as the group
commits made them whose header reached the disk. These are a prefix of the group commits of
every continuation, and they consist of all updates of exactly the operations that are
present. Recovering again changes nothing. -/
theorem crash_atomic (h₀ : headN (d₀ lay.start) = 0) (hs : Reachable lay d₀ s) :
    ∃ r, recoverFromLog lay bootSlot LogVars.zero.lh (binit s.bio.disk) = .ok r ∧
      (∀ b, lay.Home b → r.disk b = replay (commits lay s.trace).flatten d₀ b) ∧
      (commits lay s.trace).flatten = writesOf (present lay s.trace) s.trace ∧
      (∀ s', Relation.ReflTransGen (Next lay) s s' →
        commits lay s.trace <+: commits lay s'.trace) ∧
      ∃ r', recoverFromLog lay bootSlot LogVars.zero.lh (binit r.disk) = .ok r' ∧
        r'.disk = r.disk := by
  have hinv := reachable_inv h₀ hs
  obtain ⟨r, hr, hhome, ⟨hb, hstart⟩, -⟩ :=
    recoverFromLog_ok hinv.recoverable bootSlot LogVars.zero.lh
  refine ⟨r, hr, fun b hb => ?_, hinv.wf.grouped, fun s' hrun => ?_,
    recoverFromLog_twice hstart bootSlot LogVars.zero.lh⟩
  · rw [hhome b hb, durable, hinv.wf.grouped]
  · obtain ⟨es, hes⟩ := run_grows hrun
    rw [← hes]
    exact commits_append lay s.trace es

/-- The log as `mkfs` lays it out. -/
def mkfsLayout : Layout where
  start := 2
  size := LOGSIZE
  size_pos := by decide
  fits := by decide

/-- A kernel boots on an empty disk, an operation fills block 40 and ends, and the kernel crashes
right after the header write of the commit; the next one crashes inside recovery. -/
def crashActs : List Act :=
  [.recover, .recover, .recover, .beginOp 0, .bread 0 40, .modify 0 1 (Bytes.fill BSIZE 7),
    .logWrite 0 1, .brelse 0 1, .endOp 0, .commit 0, .commit 0, .commit 0, .crash, .recover,
    .recover, .crash]

/-- The machine after `crashActs`. -/
def crashed : State :=
  runActs mkfsLayout (State.boot (fun _ => Bytes.fill BSIZE 0) 0 []) crashActs

theorem crash_atomic_crashed :
    (crashed.trace.length, (commits mkfsLayout crashed.trace).map (·.map Prod.fst)) = (9, [[40]]) ∧
    ∃ r, recoverFromLog mkfsLayout bootSlot LogVars.zero.lh (binit crashed.bio.disk) = .ok r ∧
      (∀ b, mkfsLayout.Home b → r.disk b =
        replay (commits mkfsLayout crashed.trace).flatten (fun _ => Bytes.fill BSIZE 0) b) ∧
      (commits mkfsLayout crashed.trace).flatten =
        writesOf (present mkfsLayout crashed.trace) crashed.trace ∧
      (∀ s', Relation.ReflTransGen (Next mkfsLayout) crashed s' →
        commits mkfsLayout crashed.trace <+: commits mkfsLayout s'.trace) ∧
      ∃ r', recoverFromLog mkfsLayout bootSlot LogVars.zero.lh (binit r.disk) = .ok r' ∧
        r'.disk = r.disk :=
  ⟨by decide +kernel, crash_atomic (by decide +kernel) (runActs_run ..)⟩

end Xv6.Log
