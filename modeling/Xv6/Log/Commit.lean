import Xv6.Log.Machine

/-!
# What the log's disk writes do

Specifications of `read_head`, `write_head` and of the loop bodies of `write_log` and
`install_trans` in terms of the contents `C` that the buffer cache stands for.
-/

namespace Xv6.Log

open Xv6.Lib
open Xv6.Disk
open Xv6.Process (Slot Stop)

/-! ## The header in a block -/

lemma headN_storeHead {lh : Logheader} (hb : Block) (hn : lh.n ≤ LOGSIZE) :
    headN (storeHead lh hb) = lh.n := by
  have hsmall : lh.n < 2 ^ 31 := by
    unfold LOGSIZE MAXOPBLOCKS at hn
    omega
  unfold headN asInt storeHead
  rw [Bytes.ld_stWords_of_disjoint (by omega), Bytes.ld_st (by decide),
    Nat.mod_eq_of_lt (by omega), if_pos hsmall]
  rfl

lemma headBlock_storeHead {lh : Logheader} (hb : Block) (hn : lh.n ≤ LOGSIZE) {k : ℕ}
    (hk : k < lh.n) (hblock : lh.block k < 2 ^ 32) :
    headBlock (storeHead lh hb) k = lh.block k := by
  have hfit : 4 + 4 * lh.n ≤ BSIZE := by
    unfold LOGSIZE MAXOPBLOCKS at hn
    unfold BSIZE
    omega
  rw [headBlock, storeHead, Bytes.ld_stWords hk hfit, Nat.mod_eq_of_lt (by omega)]

/-! ## The disk writes -/

/-- From `s` to `s'` the contents of block `b` become `v`, in the cache and on disk. No
buffer that was locked changes. -/
structure Wrote (C : ℕ → Block) (pins : List ℕ) (b : ℕ) (v : Block) (s s' : Bio) : Prop where
  coherent : Coherent (Function.update C b v) pins s'
  disk_eq : s'.disk = Function.update s.disk b v
  held : s.SameHeld s'

variable {lay : Layout} {C : ℕ → Block} {pins : List ℕ} {p : Slot} {lh : Logheader} {s : Bio}
  {tail : ℕ} {E : Stop → Prop} {i k : Fin NBUF}

lemma writeHead_post (h : Coherent C pins s) (hE : Coherent.Tolerates E pins s) :
    Post E (Wrote C pins lay.start (storeHead lh (C lay.start)) s) (writeHead lay p lh s) := by
  unfold writeHead
  refine Post.bind ((h.bread_first hE).mono ?_)
  rintro ⟨i, s₁⟩ (hgot : Coherent.Got C pins p lay.start s i s₁)
  have hi := hgot.caches
  obtain ⟨s₂, hw, h₂, hd₂, hb₂⟩ := hgot.coherent.store_ok hi hgot.locked
    (storeHead lh (s₁.buf i).data)
  refine Post.bind_of_eq hw ?_
  obtain ⟨s₃, hr, h₃, hd₃, hb₃⟩ := h₂.brelse_ok (i := i) (b := lay.start) (p := p)
    (by simpa [Bio.Caches, hb₂] using hi) (by simpa [hb₂] using hgot.locked) (by simp [hb₂])
  rw [hr]
  have hdata : (s₁.buf i).data = C lay.start := hgot.data
  refine ⟨by rwa [hdata] at h₃, by rw [hd₃, hd₂, hgot.disk_eq, hdata], fun j => ?_⟩
  by_cases hj : j = i
  · simp [hb₃, hj, hgot.unlocked]
  · simp [hb₃, hb₂, hj, hgot.frame j hj]

lemma readHead_post (h : Coherent C pins s) (hE : Coherent.Tolerates E pins s) :
    Post E (fun r => r.1.n = headN (C lay.start) ∧
        (∀ k < r.1.n, r.1.block k = headBlock (C lay.start) k) ∧ Coherent C pins r.2 ∧
        r.2.disk = s.disk ∧ s.SameHeld r.2)
      (readHead lay p lh s) := by
  unfold readHead
  refine Post.bind ((h.bread_first hE).mono ?_)
  rintro ⟨i, s₁⟩ (hgot : Coherent.Got C pins p lay.start s i s₁)
  obtain ⟨s₂, hr, h₂, hd₂, hb₂⟩ := hgot.coherent.brelse_ok hgot.caches hgot.locked hgot.modified
  refine Post.bind_of_eq hr ?_
  have hdata : (s₁.buf i).data = C lay.start := hgot.data
  refine ⟨by rw [hdata], fun k hk => ?_, h₂, hd₂.trans hgot.disk_eq, fun j => ?_⟩
  · rw [← hdata]
    exact if_pos hk
  · by_cases hj : j = i
    · simp [hb₂, hj, hgot.unlocked]
    · simp [hb₂, hj, hgot.frame j hj]

/-- Releasing two buffers. -/
private lemma brelse_two {a b : ℕ} (h : Coherent C pins s) (hik : i ≠ k) (hi : s.Caches i a)
    (hk : s.Caches k b) (hlock : (s.buf i).lock = some p ∧ (s.buf k).lock = some p)
    (hclean : (s.buf i).modified = false ∧ (s.buf k).modified = false) :
    ∃ s₁ s', brelse p i s = .ok s₁ ∧ brelse p k s₁ = .ok s' ∧ Coherent C pins s' ∧
      s'.disk = s.disk ∧
      (s'.buf i).lock = none ∧ (s'.buf k).lock = none ∧
      ∀ j, j ≠ i → j ≠ k → s'.buf j = s.buf j := by
  obtain ⟨s₁, hr₁, h₁, hd₁, hb₁⟩ := h.brelse_ok hi hlock.1 hclean.1
  obtain ⟨s₂, hr₂, h₂, hd₂, hb₂⟩ := h₁.brelse_ok (i := k) (b := b) (p := p)
    (by simpa [Bio.Caches, hb₁, hik.symm] using hk) (by simpa [hb₁, hik.symm] using hlock.2)
    (by simpa [hb₁, hik.symm] using hclean.2)
  refine ⟨s₁, s₂, hr₁, hr₂, h₂, hd₂.trans hd₁, ?_, by simp [hb₂], fun j hji hjk => ?_⟩
  · simp [hb₂, hb₁, hik]
  · simp [hb₂, hb₁, hji, hjk]

/-- Two buffers read one after the other are different, and were unlocked before. -/
private lemma got_two {a b : ℕ} {s₁ s₂ : Bio} (hi : Coherent.Got C pins p a s i s₁)
    (hk : Coherent.Got C pins p b s₁ k s₂) :
    i ≠ k ∧ s₂.buf i = s₁.buf i ∧ (s.buf i).lock = none ∧ (s.buf k).lock = none ∧
      ∀ j, j ≠ i → j ≠ k → s₂.buf j = s.buf j := by
  have hik : i ≠ k := by
    intro hik
    exact absurd hi.locked (by simp [hik, hk.unlocked])
  refine ⟨hik, hk.frame i hik, hi.unlocked, ?_, fun j hji hjk => ?_⟩
  · rw [← hi.frame k hik.symm, hk.unlocked]
  · rw [hk.frame j hjk, hi.frame j hji]

/-- Two buffers that were unlocked are unlocked again, and the others did not change. -/
private lemma sameHeld_two {s' : Bio} (hs : (s.buf i).lock = none ∧ (s.buf k).lock = none)
    (hs' : (s'.buf i).lock = none ∧ (s'.buf k).lock = none)
    (hframe : ∀ j, j ≠ i → j ≠ k → s'.buf j = s.buf j) : s.SameHeld s' := by
  intro j
  have := hframe j
  grind

lemma writeLogBody_post (h : Coherent C pins s) (hE : Coherent.Tolerates E pins s)
    (hne : lay.start + tail + 1 ≠ lh.block tail) :
    Post E (Wrote C pins (lay.start + tail + 1) (C (lh.block tail)) s)
      (writeLogBody lay p lh tail s) := by
  unfold writeLogBody
  refine Post.bind ((h.bread_first hE).mono ?_)
  rintro ⟨i, s₁⟩ (hto : Coherent.Got C pins p (lay.start + tail + 1) s i s₁)
  refine Post.bind ((Coherent.bread_second hto hE hne).mono ?_)
  rintro ⟨k, s₂⟩ (hfrom : Coherent.Got C pins p (lh.block tail) s₁ k s₂)
  obtain ⟨hik, hi, hsi, hsk, hsame⟩ := got_two hto hfrom
  have hlock : (s₂.buf i).lock = some p := by rw [hi, hto.locked]
  obtain ⟨s₃, hw, h₃, hd₃, hb₃⟩ := hfrom.coherent.store_ok (i := i) (b := lay.start + tail + 1)
    (by simpa [Bio.Caches, hi] using hto.caches) hlock (s₂.buf k).data
  refine Post.bind_of_eq hw ?_
  obtain ⟨s₄, s₅, hr₄, hr₅, h₅, hd₅, hk₅, hi₅, hb₅⟩ := brelse_two (i := k) (k := i) (p := p)
    (a := lh.block tail) (b := lay.start + tail + 1) h₃ hik.symm
    (by simpa [Bio.Caches, hb₃, hik.symm] using hfrom.caches)
    (by simpa [Bio.Caches, hb₃, hi] using hto.caches)
    (by simpa [hb₃, hik.symm, hlock] using hfrom.locked)
    (by simpa [hb₃, hik.symm] using hfrom.modified)
  refine Post.bind_of_eq hr₄ ?_
  rw [hr₅]
  have hdata : (s₂.buf k).data = C (lh.block tail) := hfrom.data
  refine ⟨by rwa [hdata] at h₅, by rw [hd₅, hd₃, hfrom.disk_eq, hto.disk_eq, hdata],
    sameHeld_two ⟨hsi, hsk⟩ ⟨hi₅, hk₅⟩ fun j hji hjk => ?_⟩
  rw [hb₅ j hjk hji, hb₃, if_neg hji, hsame j hji hjk]

/-- The pins after a round of the loop of `install_trans`. -/
def pinsAfter (recovering : Bool) (b : ℕ) (pins : List ℕ) : List ℕ :=
  if recovering then pins else pins.erase b

lemma installBody_post {recovering : Bool} (h : Coherent C pins s)
    (hE : Coherent.Tolerates E pins s) (hne : lay.start + tail + 1 ≠ lh.block tail)
    (hpin : recovering = false → lh.block tail ∈ pins) :
    Post E
      (fun s' =>
        Coherent (Function.update C (lh.block tail) (C (lay.start + tail + 1)))
          (pinsAfter recovering (lh.block tail) pins) s' ∧
        s'.disk = Function.update s.disk (lh.block tail) (C (lay.start + tail + 1)) ∧
        s.SameHeld s')
      (installBody lay p recovering lh tail s) := by
  unfold installBody
  refine Post.bind ((h.bread_first hE).mono ?_)
  rintro ⟨i, s₁⟩ (hl : Coherent.Got C pins p (lay.start + tail + 1) s i s₁)
  refine Post.bind ((Coherent.bread_second hl hE hne).mono ?_)
  rintro ⟨k, s₂⟩ (hd : Coherent.Got C pins p (lh.block tail) s₁ k s₂)
  obtain ⟨hik, hi, hsi, hsk, hframe⟩ := got_two hl hd
  have hdata : (s₂.buf i).data = C (lay.start + tail + 1) := by rw [hi, hl.data]
  obtain ⟨s₃, hw, h₃, hd₃, hb₃⟩ := hd.coherent.store_ok hd.caches hd.locked (s₂.buf i).data
  refine Post.bind_of_eq hw ?_
  have hk₃ : s₃.Caches k (lh.block tail) := by simpa [Bio.Caches, hb₃] using hd.caches
  -- `bunpin` only touches the reference count
  obtain ⟨s₄, hs₄, h₄, hd₄, hb₄⟩ : ∃ s₄, (if recovering then s₃ else bunpin k s₃) = s₄ ∧
      Coherent (Function.update C (lh.block tail) (s₂.buf i).data)
        (pinsAfter recovering (lh.block tail) pins) s₄ ∧ s₄.disk = s₃.disk ∧
      ∀ j, ∃ n, s₄.buf j = if j = k then { s₃.buf k with refcnt := n } else s₃.buf j := by
    refine ⟨_, rfl, ?_⟩
    cases recovering with
    | true => exact ⟨h₃, rfl, fun j => ⟨(s₃.buf k).refcnt, by split <;> simp_all⟩⟩
    | false =>
      refine ⟨h₃.bunpin hk₃ (hpin rfl) (by simp [hd₃]), rfl, fun j => ⟨(s₃.buf k).refcnt - 1, ?_⟩⟩
      simp [bunpin]
  have hi₄ : s₄.buf i = s₁.buf i := by
    obtain ⟨n, hn⟩ := hb₄ i
    rw [hn, if_neg hik, hb₃, if_neg hik, hi]
  have hk₄ : s₄.Caches k (lh.block tail) ∧ (s₄.buf k).lock = some p ∧
      (s₄.buf k).modified = false := by
    obtain ⟨n, hn⟩ := hb₄ k
    refine ⟨by simpa [Bio.Caches, hn] using hk₃, ?_, ?_⟩
    · simpa [hn, hb₃] using hd.locked
    · simp [hn, hb₃]
  dsimp only
  rw [hs₄]
  obtain ⟨s₅, s₆, hr₅, hr₆, h₆, hd₆, hi₆, hk₆, hb₆⟩ := brelse_two (i := i) (k := k) (p := p)
    (a := lay.start + tail + 1) (b := lh.block tail) h₄ hik
    (by simpa [Bio.Caches, hi₄] using hl.caches) hk₄.1 ⟨by rw [hi₄, hl.locked], hk₄.2.1⟩
    ⟨by rw [hi₄, hl.modified], hk₄.2.2⟩
  refine Post.bind_of_eq hr₅ ?_
  rw [hr₆]
  refine ⟨by rwa [hdata] at h₆, by rw [hd₆, hd₄, hd₃, hd.disk_eq, hl.disk_eq, hdata],
    sameHeld_two ⟨hsi, hsk⟩ ⟨hi₆, hk₆⟩ fun j hji hjk => ?_⟩
  obtain ⟨n, hn⟩ := hb₄ j
  rw [hb₆ j hji hjk, hn, if_neg hjk, hb₃, if_neg hjk, hframe j hji hjk]

end Xv6.Log
