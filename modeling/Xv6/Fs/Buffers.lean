import Xv6.Fs.Inode
import Xv6.Log.Crash

/-!
# What `kernel/fs.c` does with its buffers

`Xv6.Log` lets a process inside an operation change a buffer as it likes, as long as it
calls `log_write` before `brelse`. Here the changes are those that `fs.c` makes, and one of
them breaks that rule: where `either_copyin` fails in the middle of a copy, `writei`
releases the buffer without `log_write`, with the bytes before the bad address in it.

As long as such a copy finds the same bytes in the buffer already, every buffer that is not
in use and not in the log agrees with the disk.
-/

namespace Xv6.Fs.Buffers

open Xv6.Lib
open Xv6.Disk (Block NBUF ROOTDEV Buf Bio Coherent bread bget bwrite brelse
  setData bpin bunpin markLogged binit)
open Xv6.Log (Layout Logheader durable contents Phase headN)
open Xv6.Process (Slot Stop)

/-! ## The machine -/

/-- The branch of `writei` for a copy that failed: buffer `i` is released with the data `v`. -/
def giveUp (p : Slot) (i : Fin NBUF) (v : Block) (s : Log.State) : Except Stop Log.State :=
  match s.mode, s.task p with
  | .up, .inOp _ =>
    if (s.bio.buf i).modified then throw .disabled
    else do
      let bio ← brelse p i (s.bio.setBuf i fun b => { b with data := v })
      pure { s with bio := bio }
  | _, _ => throw .disabled

/-- What happens next. -/
inductive Act where
  /-- A step of the kernel that does not change the data of a home block. -/
  | kernel (a : Log.Act)
  /-- Process `p` changes buffer `i`. -/
  | use (p : Slot) (i : Fin NBUF) (u : Use)

/-- One step of the machine. -/
def step (lay : Layout) (a : Act) (s : Log.State) : Except Stop Log.State :=
  match a with
  | .kernel (.modify _ _ _) => throw .disabled
  | .kernel a => Log.step lay a s
  | .use p i u =>
    if u.logged then Log.step lay (.modify p i (u.data (s.bio.buf i).data)) s
    else giveUp p i (u.data (s.bio.buf i).data) s

/-- The copies that fail leave the buffer as it was. -/
def Harmless (a : Act) (s : Log.State) : Prop :=
  match a with
  | .use _ i u => u.logged = false → u.data (s.bio.buf i).data = (s.bio.buf i).data
  | .kernel _ => True

/-- Some action leads from `s` to `s'`. -/
def Next (lay : Layout) (s s' : Log.State) : Prop := ∃ a, step lay a s = .ok s'

/-- Some harmless action leads from `s` to `s'`. -/
def NextHarmless (lay : Layout) (s s' : Log.State) : Prop :=
  ∃ a, Harmless a s ∧ step lay a s = .ok s'

/-- Take the given actions from `s` on, up to the first one that is not possible. -/
def runActs (lay : Layout) : Log.State → List Act → Log.State :=
  Lib.runActs fun s a => (step lay a s).toOption

lemma runActs_run (lay : Layout) (s : Log.State) (acts : List Act) :
    Relation.ReflTransGen (Next lay) s (runActs lay s acts) :=
  runActs_of_mem (fun a _ _ _ hs => ⟨a, eq_ok_of_toOption hs⟩) s

/-- A run of actions that are harmless in every state. -/
lemma runActs_harmless (lay : Layout) (s : Log.State) {acts : List Act}
    (h : ∀ a ∈ acts, ∀ t, Harmless a t) :
    Relation.ReflTransGen (NextHarmless lay) s (runActs lay s acts) :=
  runActs_of_mem (fun a ha s _ hs => ⟨a, h a ha s, eq_ok_of_toOption hs⟩) s

/-! ## Buffers with data belong to the root disk -/

/-- Only buffers of the root disk hold data. -/
def Used (bio : Bio) : Prop := ∀ i, (bio.buf i).valid = true → (bio.buf i).dev = ROOTDEV

section Used

variable {bio : Bio} {p : Slot} {i : Fin NBUF} {lay : Layout} {lh : Logheader} {E : Stop → Prop}

section Traffic

variable (h : Used bio) {f : Buf → Buf}

include h

lemma Used.setBuf (hf : (f (bio.buf i)).valid = true → (f (bio.buf i)).dev = ROOTDEV) :
    Used (bio.setBuf i f) := by
  intro j
  rw [Bio.setBuf_buf]
  by_cases hj : j = i
  · simpa only [hj, if_true] using hf
  · simpa only [hj, if_false] using h j

/-- A change that leaves `valid` and `dev` alone. -/
lemma Used.keep (hv : ∀ b, (f b).valid = b.valid) (hd : ∀ b, (f b).dev = b.dev) :
    Used (bio.setBuf i f) := by
  apply h.setBuf
  rw [hv, hd]
  exact h i

/-- `bget` returns a buffer of the disk. -/
lemma Used.bget (hE : ∀ e, E e) (b : ℕ) :
    Post E (fun r => Used r.2 ∧ (r.2.buf r.1).dev = ROOTDEV) (bget p ROOTDEV b bio) := by
  have hlock : ∀ (bio : Bio) i, Used bio → (bio.buf i).dev = ROOTDEV →
      Post E (fun r => Used r.2 ∧ (r.2.buf r.1).dev = ROOTDEV)
        (do let s ← Disk.acquiresleep p i bio; pure (i, s)) := by
    intro bio i h hi
    unfold Disk.acquiresleep
    split
    · have hset : Used (bio.setBuf i fun b => { b with lock := some p }) :=
        h.keep (fun _ => rfl) fun _ => rfl
      exact ⟨hset, by simpa using hi⟩
    · exact hE _
  unfold Disk.bget
  split
  case h_1 i hfind =>
    have hi : (bio.buf i).dev = ROOTDEV := by
      have := List.find?_some hfind
      simp_all
    apply hlock
    · exact h.keep (fun _ => rfl) fun _ => rfl
    · simpa using hi
  case h_2 =>
    split
    case h_1 i _ =>
      apply hlock
      · exact h.setBuf (by simp)
      · simp
    case h_2 => exact hE _

lemma Used.bread (hE : ∀ e, E e) (b : ℕ) : Post E (fun r => Used r.2) (bread p ROOTDEV b bio) := by
  refine Post.bind ((h.bget hE b).mono ?_)
  rintro ⟨i, s⟩ ⟨hs, hi⟩
  dsimp only at hs hi
  refine Post.ite (fun _ => hs) fun _ => ?_
  rw [Post.pure_iff]
  dsimp only
  apply hs.setBuf
  intro _
  exact hi

lemma Used.bwrite (hE : ∀ e, E e) : Post E Used (bwrite p i bio) := by
  refine Post.ite (fun _ => hE _) fun _ => ?_
  have h' : Used { bio with
      disk := Function.update bio.disk (bio.buf i).blockno (bio.buf i).data } := h
  exact h'.keep (fun _ => rfl) fun _ => rfl

lemma Used.brelse (hE : ∀ e, E e) : Post E Used (brelse p i bio) := by
  refine Post.ite (fun _ => hE _) fun _ => ?_
  have hset : Used (bio.setBuf i fun b => { b with lock := none, refcnt := b.refcnt - 1 }) :=
    h.keep (fun _ => rfl) fun _ => rfl
  rw [Post.pure_iff]
  split
  · exact hset
  · exact hset

lemma Used.setData (v : Block) : Used (setData i v bio) :=
  h.keep (fun _ => rfl) fun _ => rfl

lemma Used.writeHead (hE : ∀ e, E e) : Post E Used (Log.writeHead lay p lh bio) := by
  refine Post.bind ((h.bread hE _).mono ?_)
  rintro ⟨j, s⟩ hs
  refine Post.bind (((hs.setData _).bwrite hE).mono fun s hs => ?_)
  exact hs.brelse hE

lemma Used.readHead (hE : ∀ e, E e) : Post E (fun r => Used r.2) (Log.readHead lay p lh bio) := by
  refine Post.bind ((h.bread hE _).mono ?_)
  rintro ⟨j, s⟩ hs
  exact Post.bind ((hs.brelse hE).mono fun s hs => hs)

lemma Used.writeLogBody (hE : ∀ e, E e) (tail : ℕ) :
    Post E Used (Log.writeLogBody lay p lh tail bio) := by
  refine Post.bind ((h.bread hE _).mono ?_)
  rintro ⟨j, s⟩ hs
  refine Post.bind ((Used.bread hs hE _).mono ?_)
  rintro ⟨k, s⟩ hs
  refine Post.bind (((hs.setData _).bwrite hE).mono fun s hs => ?_)
  refine Post.bind ((hs.brelse hE).mono fun s hs => ?_)
  exact hs.brelse hE

lemma Used.installBody (hE : ∀ e, E e) (recovering : Bool) (tail : ℕ) :
    Post E Used (Log.installBody lay p recovering lh tail bio) := by
  refine Post.bind ((h.bread hE _).mono ?_)
  rintro ⟨j, s⟩ hs
  refine Post.bind ((Used.bread hs hE _).mono ?_)
  rintro ⟨k, s⟩ hs
  refine Post.bind (((hs.setData _).bwrite hE).mono fun s hs => ?_)
  have hunpin : Used (if recovering then s else bunpin k s) := by
    split
    · exact hs
    · exact hs.keep (fun _ => rfl) fun _ => rfl
  refine Post.bind ((hunpin.brelse hE).mono fun s hs => ?_)
  exact hs.brelse hE

end Traffic

variable {s s' : Log.State}

lemma Used.commit (h : Used s.bio) (hE : ∀ e, E e) (c : Log.Commit) :
    Post E (fun r => Used r.bio) (Log.commitStep lay p c s) := by
  unfold Log.commitStep
  split
  case h_1 tail =>
    refine Post.ite (fun _ => ?_) fun _ => h
    exact Post.bind ((h.writeLogBody hE tail).mono fun _ hs => hs)
  case h_2 => exact Post.bind ((h.writeHead hE).mono fun _ hs => hs)
  case h_3 tail =>
    refine Post.ite (fun _ => ?_) fun _ => h
    exact Post.bind ((h.installBody hE false tail).mono fun _ hs => hs)
  case h_4 => exact Post.bind ((h.writeHead hE).mono fun _ hs => hs)
  case h_5 => exact h

lemma Used.recover (h : Used s.bio) (hE : ∀ e, E e) :
    Post E (fun r => Used r.bio) (Log.recoverStep lay s) := by
  unfold Log.recoverStep
  dsimp only
  split
  case h_1 => exact Post.bind ((h.readHead hE).mono fun _ hs => hs)
  case h_2 tail _ =>
    refine Post.ite (fun _ => ?_) fun _ => h
    exact Post.bind ((h.installBody hE true tail).mono fun _ hs => hs)
  case h_3 => exact Post.bind ((h.writeHead hE).mono fun _ hs => hs)
  case h_4 => exact hE _

lemma Used.logWrite (h : Used s.bio) (hE : ∀ e, E e) (op : ℕ) :
    Post E (fun r => Used r.bio) (Log.logWrite lay op i s) := by
  have hmark : ∀ bio : Bio, Used bio → Used (markLogged i bio) :=
    fun _ h => h.keep (fun _ => rfl) fun _ => rfl
  have hpin : Used (bpin i s.bio) := h.keep (fun _ => rfl) fun _ => rfl
  unfold Log.logWrite
  refine Post.ite (fun _ => hE _) fun _ => Post.ite (fun _ => hE _) fun _ => ?_
  rw [Post.pure_iff]
  split
  · exact hmark _ hpin
  · exact hmark _ h

lemma Used.stepUp (h : Used s.bio) (hE : ∀ e, E e) (a : Log.Act) :
    Post E (fun r => Used r.bio) (Log.stepUp lay s a) := by
  cases a with
  | beginOp p =>
    refine Post.ite (fun _ => ?_) fun _ => hE _
    exact Post.ite (fun _ => hE _) fun _ => Post.ite (fun _ => hE _) fun _ => h
  | bread p b =>
    simp only [Log.stepUp]
    split
    · exact hE _
    · refine Post.ite (fun _ => ?_) fun _ => hE _
      exact Post.bind ((h.bread hE b).mono fun _ hs => hs)
  | modify p i data =>
    simp only [Log.stepUp]
    split
    · exact Post.ite (fun _ => h.setData data) fun _ => hE _
    · exact hE _
  | logWrite p i =>
    simp only [Log.stepUp]
    split
    · exact Post.ite (fun _ => h.logWrite hE _) fun _ => hE _
    · exact hE _
  | brelse p i =>
    simp only [Log.stepUp]
    split
    · exact hE _
    · refine Post.ite (fun _ => hE _) fun _ => ?_
      exact Post.bind ((h.brelse hE).mono fun _ hs => hs)
  | endOp p =>
    simp only [Log.stepUp]
    split
    · refine Post.ite (fun _ => hE _) fun _ => ?_
      exact Post.ite (fun _ => h) fun _ => h
    · exact hE _
  | commit p =>
    simp only [Log.stepUp]
    split
    · exact h.commit hE _
    · exact hE _
  | recover => exact hE _
  | crash => exact hE _

lemma Used.boot (d : ℕ → Block) : Used (binit d) := fun _ hv => nomatch hv

/-- No step brings another device into the cache. -/
lemma Used.step (h : Used s.bio) {a : Log.Act} (hs : Log.step lay a s = .ok s') :
    Used s'.bio := by
  have hup : Post (fun _ => True) (fun r => Used r.bio)
      (if s.mode = .up then Log.stepUp lay s a else throw .disabled) :=
    Post.ite (fun _ => h.stepUp (fun _ => trivial) a) fun _ => trivial
  cases a
  case crash =>
    cases hs
    exact Used.boot s.bio.disk
  case recover => exact (h.recover fun _ => trivial).of_ok hs
  all_goals exact hup.of_ok hs

end Used

/-! ## Clean buffers -/

/-- Every buffer that holds data, is not in use and is not in the log agrees with the disk. -/
def Clean (s : Log.State) : Prop :=
  ∀ i, (s.bio.buf i).valid = true → (s.bio.buf i).lock = none →
    (s.bio.buf i).blockno ∉ s.log.lh.blocks → (s.bio.buf i).data = s.bio.disk (s.bio.buf i).blockno

/-- What a reader of block `b` finds in a buffer that is not in use, or on disk if there is
no buffer for `b`, is the block with all logged writes. -/
def Seen (lay : Layout) (d₀ : ℕ → Block) (s : Log.State) (b : ℕ) : Prop :=
  (∀ i, s.bio.Caches i b → (s.bio.buf i).lock = none →
    (s.bio.buf i).data = Log.view lay d₀ s.trace b) ∧
  ((∀ i, ¬ s.bio.Caches i b) → s.bio.disk b = Log.view lay d₀ s.trace b)

section Clean

variable {lay : Layout} {d₀ C d : ℕ → Block} {s s' : Log.State} {p : Slot} {i : Fin NBUF}
  {es : List Log.Event} {log : Log.LogVars} {pins : List ℕ} {task : Slot → Log.Task} {b : ℕ}

/-- Only blocks in the log are pinned. -/
lemma pins_subset {mode : Log.Mode} (h : Phase lay d₀ es d log task mode C pins) :
    ∀ b ∈ pins, b ∈ log.lh.blocks := by
  intro b hb
  cases h with
  | readHead => exact nomatch hb
  | reinstall => exact nomatch hb
  | reclear => exact nomatch hb
  | gather => exact hb
  | writeLog => exact hb
  | writeHead => exact hb
  | install _ tail => exact List.mem_of_mem_drop hb
  | clear => exact nomatch hb
  | finish => exact hb

/-- While the kernel runs, the cache stands for the logged writes. -/
lemma contents_of_up (h : Phase lay d₀ es d log task .up C pins) (hb : lay.Home b) :
    C b = Log.view lay d₀ es b := by
  have hC : C = contents lay (Log.view lay d₀ es) d := by cases h <;> rfl
  rw [hC, contents, if_pos hb]

/-- A buffer of a block that is not in the log, unchanged by its holder, agrees with the
disk. -/
lemma data_eq_disk (h : Log.Inv lay d₀ s) (hi : s.bio.Caches i b)
    (hmod : (s.bio.buf i).modified = false) (hb : b ∉ s.log.lh.blocks) :
    (s.bio.buf i).data = s.bio.disk b := by
  obtain ⟨C, pins, hcoh, hphase⟩ := h.cache
  rw [(hcoh.data hi hmod).2, hcoh.disk b fun hp => hb (pins_subset hphase b hp)]

/-- Buffers that nobody holds are clean. -/
lemma Inv.clean (h : Log.Inv lay d₀ s) (hu : Used s.bio) : Clean s := by
  intro i hv hl hb
  obtain ⟨C, pins, hcoh, -⟩ := h.cache
  exact data_eq_disk h ⟨hu i hv, rfl⟩ (hcoh.clean hl) hb

lemma Inv.seen (h : Log.Inv lay d₀ s) (hup : s.mode = .up) (hb : lay.Home b) : Seen lay d₀ s b := by
  obtain ⟨C, pins, hcoh, hphase⟩ := h.cache
  rw [hup] at hphase
  refine ⟨fun i hi hl => ?_, fun hnone => ?_⟩
  · rw [(hcoh.data hi (hcoh.clean hl)).2, contents_of_up hphase hb]
  · have hpin : b ∉ pins := fun hp => (hcoh.pinned b hp).elim hnone
    rw [hcoh.disk b hpin, contents_of_up hphase hb]

/-- What a process must hold to give up a change. -/
lemma giveUp_ok {v : Block} (hs : giveUp p i v s = .ok s') :
    s.mode = .up ∧ (∃ op, s.task p = .inOp op) ∧ (s.bio.buf i).modified = false ∧
      ∃ bio, brelse p i (s.bio.setBuf i fun b => { b with data := v }) = .ok bio ∧
        s' = { s with bio := bio } := by
  unfold giveUp at hs
  split at hs
  case h_1 op hup hop =>
    split at hs
    · cases hs
    case isFalse hmod =>
      obtain ⟨bio, hbio, hpure⟩ := bind_eq_ok hs
      exact ⟨hup, ⟨op, hop⟩, by simpa using hmod, bio, hbio, (Except.ok.inj hpure).symm⟩
  case h_2 => cases hs

/-- A failed copy that leaves the buffer as it was is a `brelse`. -/
lemma giveUp_same (hs : giveUp p i (s.bio.buf i).data s = .ok s') :
    Log.step lay (.brelse p i) s = .ok s' := by
  obtain ⟨hup, ⟨op, hop⟩, hmod, bio, hbio, rfl⟩ := giveUp_ok hs
  have hsame : (s.bio.setBuf i fun b => { b with data := (s.bio.buf i).data }) = s.bio := by
    simp [Bio.setBuf]
  rw [hsame] at hbio
  simp [Log.step, hup, Log.stepUp, hop, hmod, hbio]

/-- A harmless step is a step of the log's machine. -/
lemma step_log {a : Act} (ha : Harmless a s) (hs : step lay a s = .ok s') : Log.Next lay s s' := by
  cases a with
  | kernel a =>
    refine ⟨a, ?_⟩
    cases a
    case modify => cases hs
    all_goals exact hs
  | use p i u =>
    unfold step at hs
    dsimp only at hs
    split at hs
    case isTrue => exact ⟨_, hs⟩
    case isFalse hlog =>
      have hsame := ha (by simpa using hlog)
      rw [hsame] at hs
      exact ⟨_, giveUp_same hs⟩

/-- What a `brelse` that returns leaves of buffer `i` and of the others. -/
lemma brelse_ok {bio bio' : Bio} (hs : brelse p i bio = .ok bio') :
    (bio.buf i).lock = some p ∧ bio'.disk = bio.disk ∧
      bio'.buf = Function.update bio.buf i
        { bio.buf i with lock := none, refcnt := (bio.buf i).refcnt - 1 } := by
  unfold brelse at hs
  split at hs
  case isTrue => cases hs
  case isFalse hlock =>
    have hs := (Except.ok.inj hs).symm
    refine ⟨by simpa using hlock, ?_, ?_⟩
    · rw [hs]
      split <;> rfl
    · rw [hs]
      split <;> rfl

/-- After a failed copy the buffers are clean just if it changed nothing or the block is in
the log already. -/
lemma giveUp_clean_iff (h : Log.Inv lay d₀ s) (hu : Used s.bio) {v : Block}
    (hs : giveUp p i v s = .ok s') :
    Clean s' ↔ v = (s.bio.buf i).data ∨ (s.bio.buf i).blockno ∈ s.log.lh.blocks := by
  have hclean := Inv.clean h hu
  obtain ⟨-, -, hmod, bio, hbio, rfl⟩ := giveUp_ok hs
  obtain ⟨hlock, hdisk, hbuf⟩ := brelse_ok hbio
  have hheld : (s.bio.buf i).lock = some p := by simpa using hlock
  have hi : s.bio.Caches i (s.bio.buf i).blockno := h.caches (by simp [hheld])
  have hvalid : (s.bio.buf i).valid = true := by
    obtain ⟨C, pins, hcoh, -⟩ := h.cache
    exact hcoh.valid hi
  have hhere : bio.buf i = { s.bio.buf i with
      lock := none, refcnt := (s.bio.buf i).refcnt - 1, data := v } := by simp [hbuf]
  have hother : ∀ j, j ≠ i → bio.buf j = s.bio.buf j := fun j hj => by simp [hbuf, hj]
  constructor
  · intro hc
    by_cases hb : (s.bio.buf i).blockno ∈ s.log.lh.blocks
    · exact .inr hb
    · have hv := hc i (by simp [hhere, hvalid]) (by simp [hhere]) (by simpa [hhere] using hb)
      left
      rw [data_eq_disk h hi hmod hb]
      simpa [hhere, hdisk] using hv
  · intro hv j
    by_cases hj : j = i
    · subst hj
      intro _ _ hb
      have hb' : (s.bio.buf j).blockno ∉ s.log.lh.blocks := by simpa [hhere] using hb
      have hv' := hv.resolve_right hb'
      simpa [hhere, hdisk, hv'] using data_eq_disk h hi hmod hb'
    · simpa [hother j hj, hdisk] using hclean j

/-- The log's machine takes every harmless run. -/
lemma harmless_inv (h₀ : headN (d₀ lay.start) = 0)
    (hrun : Relation.ReflTransGen (NextHarmless lay) (Log.State.boot d₀ 0 []) s) :
    Log.Inv lay d₀ s ∧ Used s.bio := by
  have hlog : Log.Reachable lay d₀ s := by
    refine Relation.ReflTransGen.mono (fun t t' ht => ?_) _ _ hrun
    obtain ⟨a, ha, hs⟩ := ht
    exact step_log ha hs
  refine ⟨Log.reachable_inv h₀ hlog, ?_⟩
  exact preserved (I := fun s => Used s.bio) (fun _ _ hu ⟨_, hs⟩ => hu.step hs) (Used.boot d₀) hlog

/-- In every run whose failed copies change nothing, the buffers are clean and a block reads
as its logged writes left it. The first failed copy that changes a block outside the log
makes its buffer differ from the disk. -/
theorem clean_buffers (h₀ : headN (d₀ lay.start) = 0)
    (hrun : Relation.ReflTransGen (NextHarmless lay) (Log.State.boot d₀ 0 []) s) :
    Clean s ∧ (s.mode = .up → ∀ b, lay.Home b → Seen lay d₀ s b) ∧
      ∀ p i u s', Use.logged u = false → step lay (.use p i u) s = .ok s' →
        (Clean s' ↔ u.data (s.bio.buf i).data = (s.bio.buf i).data ∨
          (s.bio.buf i).blockno ∈ s.log.lh.blocks) := by
  obtain ⟨hinv, hu⟩ := harmless_inv h₀ hrun
  refine ⟨Inv.clean hinv hu, fun hup b hb => Inv.seen hinv hup hb, ?_⟩
  intro p i u s' hlog hs
  unfold step at hs
  simp only [hlog, Bool.false_eq_true, if_false] at hs
  exact giveUp_clean_iff hinv hu hs

end Clean

/-- A kernel boots on an empty disk; an operation reads block 40 and calls `writei` on its
first two bytes. -/
def copyRun (src : ℕ → Option UInt8) : Log.State :=
  runActs Log.mkfsLayout (Log.State.boot (fun _ => Bytes.fill BSIZE 0) 0 [])
    [.kernel .recover, .kernel .recover, .kernel .recover, .kernel (.beginOp 0),
      .kernel (.bread 0 40), .use 0 1 (.writei 0 2 src)]

/-- A copy from an address that is not mapped. -/
theorem clean_buffers_copyRun :
    ((copyRun fun _ => none).mode = .up ∧ (copyRun fun _ => none).bio.lru.head? = some 1) ∧
    Clean (copyRun fun _ => none) ∧
      ((copyRun fun _ => none).mode = .up → ∀ b, Log.mkfsLayout.Home b →
        Seen Log.mkfsLayout (fun _ => Bytes.fill BSIZE 0) (copyRun fun _ => none) b) ∧
      ∀ p i u s', Use.logged u = false →
        step Log.mkfsLayout (.use p i u) (copyRun fun _ => none) = .ok s' →
        (Clean s' ↔ u.data ((copyRun fun _ => none).bio.buf i).data =
            ((copyRun fun _ => none).bio.buf i).data ∨
          ((copyRun fun _ => none).bio.buf i).blockno ∈ (copyRun fun _ => none).log.lh.blocks) := by
  refine ⟨by decide +kernel, clean_buffers (by decide +kernel) (runActs_harmless _ _ ?_)⟩
  intro a ha t
  simp only [List.mem_cons, List.not_mem_nil, or_false] at ha
  obtain rfl | rfl | rfl | rfl | rfl | rfl := ha
  case inr.inr.inr.inr.inr =>
    intro _
    funext k
    have hnone : copied (fun _ => none) 0 2 = [] := rfl
    simp [Use.data, hnone, Bytes.put]
  all_goals trivial

/-- The second of two bytes is not mapped: the copy fails, and the buffer it leaves behind
differs from the disk. -/
theorem failed_copy_dirties :
    Relation.ReflTransGen (Next Log.mkfsLayout) (Log.State.boot (fun _ => Bytes.fill BSIZE 0) 0 [])
      (copyRun fun k => if k = 0 then some 7 else none) ∧
    ¬ Clean (copyRun fun k => if k = 0 then some 7 else none) := by
  refine ⟨runActs_run .., fun hc => ?_⟩
  have h := hc 1 (by decide +kernel) (by decide +kernel) (by decide +kernel)
  have h0 := congrFun h ⟨0, by decide⟩
  revert h0
  decide +kernel

end Xv6.Fs.Buffers
