import Xv6.Lib.Redo
import Xv6.Log.Commit

/-!
# What a disk stands for, and what recovery makes of it

The on-disk header and the log blocks form a redo log (`Xv6.Lib.Redo`) over the home
blocks: `Recoverable lay H d` says that the disk `d` stands for the home blocks `H`. The
lemmas below follow the disk writes of `commit` and `recover_from_log`, and
`recoverFromLog_ok` says that recovery, run to its end, puts `H` in place.
-/

namespace Xv6.Log

open Xv6.Lib
open Xv6.Lib.Redo
open Xv6.Disk
open Xv6.Process (Slot Stop)
open Function (update update_of_ne update_self update_eq_self)

/-! ## Disks -/

/-- The committed record on a disk. -/
def record (lay : Layout) (d : ℕ → Block) : List (ℕ × Block) :=
  (List.range (headN (d lay.start))).map fun k =>
    (headBlock (d lay.start) k, d (lay.start + k + 1))

/-- The disk `d` stands for the home blocks `H`. -/
structure Recoverable (lay : Layout) (H d : ℕ → Block) : Prop where
  /-- The log blocks of the record are part of the log. -/
  room : headN (d lay.start) < lay.size
  home : ∀ w ∈ record lay d, lay.Home w.1 ∧ w.2 = H w.1
  stands : Stands {b | lay.Home b} (record lay d) d H

variable {lay : Layout} {H V d d₀ : ℕ → Block} {lh : Logheader} {tail b : ℕ} {v : Block}

lemma Layout.Home.ne_start (hb : lay.Home b) : b ≠ lay.start := by
  have := lay.size_pos
  unfold Layout.Home at hb
  omega

lemma Layout.Home.ne_slot (hb : lay.Home b) {k : ℕ} (hk : k + 1 < lay.size) :
    b ≠ lay.start + k + 1 := by
  unfold Layout.Home at hb
  omega

/-- Home blocks are not part of the record. -/
lemma record_update_home (hb : lay.Home b) (hroom : headN (d lay.start) < lay.size) :
    record lay (update d b v) = record lay d := by
  have hstart : update d b v lay.start = d lay.start :=
    update_of_ne hb.ne_start.symm v d
  unfold record
  rw [hstart]
  apply List.map_congr_left
  intro k hk
  rw [List.mem_range] at hk
  rw [update_of_ne (hb.ne_slot (by omega)).symm]

/-- A disk with an empty record. -/
lemma recoverable_of_clean (hn : headN (d lay.start) = 0) (hd : ∀ b, lay.Home b → d b = H b) :
    Recoverable lay H d := by
  have hrecord : record lay d = [] := by simp [record, hn]
  exact ⟨hn ▸ lay.size_pos, by simp [hrecord], fun b hb => by simpa [hrecord] using hd b hb⟩

/-- With an empty record the home blocks are in place. -/
lemma Recoverable.clean (h : Recoverable lay H d) (hn : headN (d lay.start) = 0)
    (hb : lay.Home b) : d b = H b := by
  have hrecord : record lay d = [] := by simp [record, hn]
  have := h.stands hb
  rwa [hrecord] at this

/-- A write to a log block that the record does not use. -/
lemma Recoverable.writeSlot (h : Recoverable lay H d) (hn : headN (d lay.start) = 0)
    (hb : ¬ lay.Home b) (hne : b ≠ lay.start) : Recoverable lay H (update d b v) := by
  apply recoverable_of_clean
  · rw [update_of_ne hne.symm, hn]
  · intro c hc
    have hcb : c ≠ b := fun hcb => hb (hcb ▸ hc)
    rw [update_of_ne hcb, h.clean hn hc]

/-- A write to a home block that the record names. -/
lemma Recoverable.install (h : Recoverable lay H d) (hb : b ∈ (record lay d).map Prod.fst) :
    Recoverable lay H (update d b v) := by
  obtain ⟨w, hw, rfl⟩ := List.mem_map.1 hb
  have hhome := (h.home w hw).1
  have hrecord : record lay (update d w.1 v) = record lay d :=
    record_update_home hhome h.room
  refine ⟨?_, by rw [hrecord]; exact h.home, by rw [hrecord]; exact h.stands.install hb⟩
  rw [update_of_ne hhome.ne_start.symm]
  exact h.room

/-! ## Headers -/

/-- What `log_write` keeps true of the header in memory. -/
structure Listed (lay : Layout) (lh : Logheader) : Prop where
  le_logsize : lh.n ≤ LOGSIZE
  lt_size : lh.n < lay.size
  home : ∀ b ∈ lh.blocks, lay.Home b ∧ b < 2 ^ 32

/-- The header on disk is the one in memory. -/
structure SameHead (lay : Layout) (lh : Logheader) (d : ℕ → Block) : Prop where
  n_eq : headN (d lay.start) = lh.n
  block_eq : ∀ k < lh.n, headBlock (d lay.start) k = lh.block k

lemma Logheader.mem_blocks {k : ℕ} (hk : k < lh.n) : lh.block k ∈ lh.blocks :=
  List.mem_map.2 ⟨k, List.mem_range.2 hk, rfl⟩

lemma SameHead.record_eq (h : SameHead lay lh d) :
    record lay d = (List.range lh.n).map fun k => (lh.block k, d (lay.start + k + 1)) := by
  unfold record
  rw [h.n_eq]
  apply List.map_congr_left
  intro k hk
  rw [h.block_eq k (List.mem_range.1 hk)]

lemma SameHead.keys_eq (h : SameHead lay lh d) : (record lay d).map Prod.fst = lh.blocks := by
  rw [h.record_eq, List.map_map]
  rfl

/-- Writing a home block leaves the header on disk alone. -/
lemma SameHead.update_home (h : SameHead lay lh d) (hb : lay.Home b) (v : Block) :
    SameHead lay lh (update d b v) := by
  obtain ⟨hn, hblock⟩ := h
  constructor <;> rwa [update_of_ne hb.ne_start.symm]

/-- A log block that the header lists holds the contents of its home block. -/
lemma Recoverable.slot (h : Recoverable lay H d) (hs : SameHead lay lh d) (htail : tail < lh.n) :
    lay.Home (lh.block tail) ∧ d (lay.start + tail + 1) = H (lh.block tail) ∧
      tail + 1 < lay.size := by
  have hmem : (lh.block tail, d (lay.start + tail + 1)) ∈ record lay d := by
    rw [hs.record_eq]
    exact List.mem_map.2 ⟨tail, List.mem_range.2 htail, rfl⟩
  have hroom := h.room
  rw [hs.n_eq] at hroom
  exact ⟨(h.home _ hmem).1, (h.home _ hmem).2, by omega⟩

/-- The commit point: the header of a group reaches a disk whose log blocks hold the
group's contents. -/
lemma Recoverable.commit {us : List (ℕ × Block)} (h : Recoverable lay H d)
    (hn : headN (d lay.start) = 0) (hlisted : Listed lay lh)
    (hkeys : ∀ u ∈ us, u.1 ∈ lh.blocks)
    (hslots : ∀ k < lh.n, d (lay.start + k + 1) = replay us H (lh.block k)) (hb : Block) :
    SameHead lay lh (update d lay.start (storeHead lh hb)) ∧
      Recoverable lay (replay us H) (update d lay.start (storeHead lh hb)) := by
  have hsame : SameHead lay lh (update d lay.start (storeHead lh hb)) := by
    refine ⟨by simpa using headN_storeHead hb hlisted.le_logsize, fun k hk => ?_⟩
    simpa using headBlock_storeHead hb hlisted.le_logsize hk
      (hlisted.home _ (Logheader.mem_blocks hk)).2
  have hslots' : ∀ w ∈ record lay (update d lay.start (storeHead lh hb)),
      w.1 ∈ lh.blocks ∧ w.2 = replay us H w.1 := by
    intro w hw
    rw [hsame.record_eq] at hw
    obtain ⟨k, hk, rfl⟩ := List.mem_map.1 hw
    rw [List.mem_range] at hk
    refine ⟨Logheader.mem_blocks hk, ?_⟩
    rw [update_of_ne (by omega)]
    exact hslots k hk
  refine ⟨hsame, ?_, fun w hw => ⟨(hlisted.home _ (hslots' w hw).1).1, (hslots' w hw).2⟩, ?_⟩
  · rw [hsame.n_eq]
    exact hlisted.lt_size
  · have hclean : Stands {b | lay.Home b} [] (update d lay.start (storeHead lh hb)) H := by
      intro c hc
      simp only [replay_nil]
      rw [update_of_ne hc.ne_start]
      exact h.clean hn hc
    refine hclean.commit (fun w hw => (hslots' w hw).2) fun u hu => ?_
    rw [hsame.keys_eq]
    exact hkeys u hu

/-! ## Replaying the record at boot -/

/-- `recover_from_log` with the header read, about to do round `tail` of
`install_trans`. -/
structure Replaying (lay : Layout) (H : ℕ → Block) (lh : Logheader) (tail : ℕ) (d : ℕ → Block) :
    Prop where
  same : SameHead lay lh d
  recoverable : Recoverable lay H d
  done : ∀ k < tail, d (lh.block k) = H (lh.block k)

lemma Replaying.step (h : Replaying lay H lh tail d) (htail : tail < lh.n) :
    Replaying lay H lh (tail + 1)
      (update d (lh.block tail) (d (lay.start + tail + 1))) := by
  obtain ⟨hhome, hslot, -⟩ := h.recoverable.slot h.same htail
  refine ⟨h.same.update_home hhome _, h.recoverable.install ?_, fun k hk => ?_⟩
  · rw [h.same.keys_eq]
    exact Logheader.mem_blocks htail
  · by_cases hkt : lh.block k = lh.block tail
    · rw [hkt, update_self, hslot]
    · have hlt : k < tail := by
        have : k ≠ tail := fun hk => hkt (by rw [hk])
        omega
      rw [update_of_ne hkt, h.done k hlt]

/-- After the last round every home block is in place. -/
lemma Replaying.finished (h : Replaying lay H lh tail d) (htail : lh.n ≤ tail)
    (hb : lay.Home b) : d b = H b := by
  refine h.recoverable.stands.clear (fun w hw _ => ?_) hb
  rw [h.same.record_eq] at hw
  obtain ⟨k, hk, rfl⟩ := List.mem_map.1 hw
  exact h.done k (by rw [List.mem_range] at hk; omega)

/-- Clearing the header of a disk whose home blocks are in place. -/
lemma recoverable_clear (hn : lh.n = 0) (hd : ∀ b, lay.Home b → d b = H b) (hb : Block) :
    headN (update d lay.start (storeHead lh hb) lay.start) = 0 ∧
      Recoverable lay H (update d lay.start (storeHead lh hb)) := by
  have hhead : headN (update d lay.start (storeHead lh hb) lay.start) = 0 := by
    rw [update_self, headN_storeHead hb (by omega), hn]
  refine ⟨hhead, recoverable_of_clean hhead fun c hc => ?_⟩
  rw [update_of_ne hc.ne_start, hd c hc]

/-! ## Recovery run to its end -/

/-- Recovery restores what the disk stands for, and clears the header. With nothing to
install it does nothing else. -/
lemma recoverFromLog_ok (h : Recoverable lay H d) (p : Slot) (lh : Logheader) :
    ∃ s, recoverFromLog lay p lh (binit d) = .ok s ∧ (∀ b, lay.Home b → s.disk b = H b) ∧
      (∃ hb : Block, s.disk lay.start = hb.st 4 0 0) ∧
      (headN (d lay.start) = 0 →
        s.disk = update d lay.start ((d lay.start).st 4 0 0)) := by
  apply Post.exists_ok
  unfold recoverFromLog
  have hE : Coherent.Tolerates (fun _ => False) [] (binit d) := .inr ⟨rfl, fun _ => rfl⟩
  refine Post.bind ((readHead_post (binit_coherent d) hE).mono ?_)
  rintro ⟨lh', s₁⟩ ⟨hn, hblock, h₁, hd₁, hlocks₁⟩
  have hreplay : Replaying lay H lh' 0 s₁.disk := by
    rw [hd₁]
    exact ⟨⟨hn.symm, fun k hk => (hblock k hk).symm⟩, h, by simp⟩
  -- the loop of `install_trans`
  let I : ℕ → Bio → Prop := fun k s => Replaying lay H lh' k s.disk ∧ Coherent s.disk [] s ∧
    (∀ j, (s.buf j).lock = none) ∧ (lh'.n = 0 → s.disk = d)
  have hloop : Post (fun _ => False) (I lh'.n) (installTrans lay p true lh' s₁) := by
    unfold installTrans
    refine Post.foldlM_range ⟨hreplay, ?_, ?_, fun _ => hd₁⟩ ?_
    · rwa [hd₁]
    · exact fun j => by rw [(hlocks₁ j).1]; rfl
    · rintro k hk s ⟨hr, hc, hlocks, -⟩
      obtain ⟨hhome, -, hsize⟩ := hr.recoverable.slot hr.same hk
      refine (installBody_post hc (.inr ⟨rfl, hlocks⟩) (hhome.ne_slot hsize).symm (by simp)).mono ?_
      rintro s' ⟨hc', hd', hlocks'⟩
      exact ⟨hd' ▸ hr.step hk, hd' ▸ hc', fun j => by rw [(hlocks' j).1, hlocks],
        fun h0 => by omega⟩
  refine Post.bind (hloop.mono ?_)
  rintro s₂ ⟨hr, hc, hlocks, hnone⟩
  refine (writeHead_post hc (.inr ⟨rfl, hlocks⟩)).mono fun s₃ hw => ?_
  refine ⟨fun b hb => ?_, ⟨s₂.disk lay.start, by simp [hw.disk_eq, storeHead, Bytes.stWords]⟩,
    fun h0 => ?_⟩
  · rw [hw.disk_eq, update_of_ne hb.ne_start, hr.finished le_rfl hb]
  · rw [hw.disk_eq, hnone (hn.trans h0)]
    simp [storeHead, Bytes.stWords]

/-- Recovering twice is recovering once. -/
lemma recoverFromLog_twice {s : Bio} {hb : Block} (hs : s.disk lay.start = hb.st 4 0 0) (p : Slot)
    (lh : Logheader) :
    ∃ s', recoverFromLog lay p lh (binit s.disk) = .ok s' ∧ s'.disk = s.disk := by
  have hn : headN (s.disk lay.start) = 0 := by
    rw [hs, headN, Bytes.ld_st (by decide)]
    rfl
  obtain ⟨s', hrun, -, -, hdisk⟩ := recoverFromLog_ok (H := s.disk)
    (recoverable_of_clean hn fun _ _ => rfl) p lh
  refine ⟨s', hrun, ?_⟩
  rw [hdisk hn, hs, Bytes.st_st, ← hs, update_eq_self]

end Xv6.Log
