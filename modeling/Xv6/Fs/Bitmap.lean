import Xv6.Fs.Blocks

/-!
# The loops of `balloc` (`kernel/fs.c`)

`balloc` looks for a clear bit block by block of the free map and bit by bit of such a block,
up to the size of the file system. The two loops find the first block whose bit is clear, and
so they do what `balloc` of the file system model does.

Block `0` is also the answer for a full disk, so it has to be marked, and so have the blocks of
the free map: the block found is zeroed.
-/

namespace Xv6.Fs

open Function (update update_self update_of_ne)
open Xv6.Lib
open Xv6.Disk (Block)

variable {sb : Superblock} {d : Disk} {b j q : ℕ} {data : Block}

/-- The inner loop of `balloc`: the first clear bit from `bi` on. -/
def ballocBits (sb : Superblock) (data : Block) (b : ℕ) : ℕ → ℕ → Option ℕ
  | 0, _ => none
  | fuel + 1, bi =>
    if bi < BPB ∧ b + bi < sb.size then
      if data.testBit bi then ballocBits sb data b fuel (bi + 1) else some bi
    else none

/-- The outer loop of `balloc`, with `none` if the index, an `int`, overflows. -/
def ballocLoop (sb : Superblock) (d : Disk) : ℕ → ℕ → Option (ℕ × Disk)
  | 0, _ => none
  | fuel + 1, b =>
    if b < sb.size then
      match ballocBits sb (d (sb.bblock b)) b BPB 0 with
      | some bi =>
        some (b + bi, bzero (b + bi) (update d (sb.bblock b) ((d (sb.bblock b)).setBit bi)))
      | none => if b + BPB < 2 ^ 31 then ballocLoop sb d fuel (b + BPB) else none
    else some (0, d)

/-! ## The loops -/

lemma ballocBits_some {fuel bi i : ℕ} (h : ballocBits sb data b fuel bi = some i) :
    i < BPB ∧ b + i < sb.size ∧ data.testBit i = false ∧
      ∀ j, bi ≤ j → j < i → data.testBit j = true := by
  fun_induction ballocBits with
  | case1 => cases h
  | case2 bi fuel hlt hbit ih =>
    obtain ⟨hi, hsize, hclear, hset⟩ := ih h
    refine ⟨hi, hsize, hclear, fun j hj hji => ?_⟩
    rcases hj.eq_or_lt with rfl | hj
    · exact hbit
    · exact hset j hj hji
  | case3 bi fuel hlt hbit =>
    cases h
    exact ⟨hlt.1, hlt.2, by simpa using hbit, fun j hj hji => absurd hji (by omega)⟩
  | case4 => cases h

lemma ballocBits_none {fuel bi : ℕ} (hfuel : BPB ≤ bi + fuel)
    (h : ballocBits sb data b fuel bi = none) (hj : bi ≤ j) (hjB : j < BPB)
    (hsize : b + j < sb.size) : data.testBit j = true := by
  fun_induction ballocBits with
  | case1 => omega
  | case2 bi fuel hlt hbit ih =>
    rcases hj.eq_or_lt with rfl | hj
    · exact hbit
    · exact ih (by omega) h hj
  | case3 => cases h
  | case4 bi fuel hlt => omega

lemma bblock_add (sb : Superblock) (hj : j < BPB) :
    sb.bblock (BPB * q + j) = sb.bblock (BPB * q) := by
  have hB : 0 < BPB := by decide
  rw [Superblock.bblock, Superblock.bblock, Nat.mul_add_div hB, Nat.div_eq_of_lt hj,
    Nat.mul_div_cancel_left q hB, add_zero]

lemma marked_add (sb : Superblock) (d : Disk) (hj : j < BPB) :
    marked sb d (BPB * q + j) = (d (sb.bblock (BPB * q))).testBit j := by
  rw [marked, bblock_add sb hj, Nat.mul_add_mod, Nat.mod_eq_of_lt hj]

lemma balloc_of_first (hb : b < sb.size) (hfree : marked sb d b = false)
    (h : ∀ c < b, marked sb d c = true) :
    balloc sb d = (b, bzero b (update d (sb.bblock b) ((d (sb.bblock b)).setBit (b % BPB)))) := by
  have hfind : (List.range sb.size).find? (fun b => !marked sb d b) = some b := by
    rw [List.find?_range_eq_some]
    simpa [hb, hfree] using h
  rw [balloc, Store.blocks_disk, hfind]
  rfl

lemma balloc_of_full (h : ∀ c < sb.size, marked sb d c = true) : balloc sb d = (0, d) := by
  have hfind : (List.range sb.size).find? (fun b => !marked sb d b) = none := by
    simpa using h
  rw [balloc, Store.blocks_disk, hfind]

/-- The loop from a block of the free map on, if all blocks before it are in use. -/
lemma ballocLoop_eq (hsize : sb.size + BPB ≤ 2 ^ 31) {fuel : ℕ} (hfuel : sb.size ≤ BPB * (q + fuel))
    (h : ∀ c < BPB * q, c < sb.size → marked sb d c = true) :
    ballocLoop sb d (fuel + 1) (BPB * q) = some (balloc sb d) := by
  induction fuel generalizing q with
  | zero =>
    rw [ballocLoop, if_neg (by simpa using hfuel), balloc_of_full]
    exact fun c hc => h c (hc.trans_le hfuel) hc
  | succ fuel ih =>
    -- The blocks up to a bit of this block of the map, by the bits before it.
    have hnext {k c : ℕ} (hk : k ≤ BPB) (hc : c < BPB * q + k) (hcs : c < sb.size)
        (hbits : ∀ j < k, BPB * q + j < sb.size → (d (sb.bblock (BPB * q))).testBit j = true) :
        marked sb d c = true := by
      rcases Nat.lt_or_ge c (BPB * q) with hlt | hge
      · exact h c hlt hcs
      · obtain ⟨j, rfl⟩ := Nat.exists_eq_add_of_le hge
        rw [marked_add sb d (by omega)]
        exact hbits j (by omega) hcs
    rw [ballocLoop]
    split
    next hlt =>
      split
      next bi hbits =>
        obtain ⟨hbi, hlt, hclear, hset⟩ := ballocBits_some hbits
        rw [balloc_of_first hlt, bblock_add sb hbi, Nat.mul_add_mod, Nat.mod_eq_of_lt hbi]
        · rw [marked_add sb d hbi, hclear]
        · exact fun c hc => hnext hbi.le hc (by omega) fun j hj _ => hset j j.zero_le hj
      next hbits =>
        rw [if_pos (by omega)]
        refine ih (q := q + 1) (by rwa [add_right_comm]) fun c hc hcs => ?_
        exact hnext le_rfl hc hcs fun j hj hjs => ballocBits_none (by simp) hbits j.zero_le hj hjs
    next hge =>
      rw [balloc_of_full]
      exact fun c hc => h c (by omega) hc

/-! ## The block found -/

/-- `balloc` returns `0` if all blocks are in use and the first free block otherwise, which it
marks and zeroes, and `bfree` of that block takes the mark back. -/
theorem balloc_first_free (sb : Superblock) (d : Disk) (hsize : sb.size + BPB ≤ 2 ^ 31)
    (hzero : 0 < sb.size → marked sb d 0 = true)
    (hmap : ∀ b < sb.size, sb.bblock b < sb.size → marked sb d (sb.bblock b) = true)
    (fuel : ℕ) (hfuel : sb.size ≤ BPB * fuel) :
    ∃ r d', ballocLoop sb d (fuel + 1) 0 = some (r, d') ∧
      (r = 0 ↔ ∀ c < sb.size, marked sb d c = true) ∧ (r = 0 → d' = d) ∧
      (r ≠ 0 → r < sb.size ∧ marked sb d r = false ∧ (∀ c < r, marked sb d c = true) ∧
        (∀ c < sb.size, marked sb d' c = (decide (c = r) || marked sb d c)) ∧
        d' (sb.bblock r) = (d (sb.bblock r)).setBit (r % BPB) ∧ d' r = Bytes.fill BSIZE 0 ∧
        (∀ x, x ≠ r → x ≠ sb.bblock r → d' x = d x) ∧
        ∃ d'', bfree sb r d' = .ok d'' ∧ ∀ x, x ≠ r → d'' x = d x) := by
  refine ⟨(balloc sb d).1, (balloc sb d).2, ?_, ?_⟩
  · simpa using ballocLoop_eq (d := d) (q := 0) hsize (by simpa using hfuel) (by simp)
  by_cases hfull : ∀ c < sb.size, marked sb d c = true
  · simpa [balloc_of_full hfull] using hfull
  have hex : ∃ c, c < sb.size ∧ marked sb d c = false := by simpa using hfull
  obtain ⟨hr, hfree⟩ := Nat.find_spec hex
  have hmin (c : ℕ) (hc : c < Nat.find hex) : marked sb d c = true := by
    simpa [hc.trans hr] using Nat.find_min hex hc
  generalize Nat.find hex = r at hr hfree hmin
  have hr0 : r ≠ 0 := by
    rintro rfl
    simp [hzero hr] at hfree
  -- The block found is not one of the free map.
  have hne (b : ℕ) (hb : b < sb.size) : sb.bblock b ≠ r := by
    rintro rfl
    simp [hmap b hb hr] at hfree
  rw [balloc_of_first hr hfree hmin]
  dsimp only
  set d' := bzero r (update d (sb.bblock r) ((d (sb.bblock r)).setBit (r % BPB))) with hd'
  have hbits : d' (sb.bblock r) = (d (sb.bblock r)).setBit (r % BPB) := by
    rw [hd', bzero_disk, update_of_ne (hne r hr), update_self]
  have hother (x : ℕ) (hx : x ≠ r) (hxb : x ≠ sb.bblock r) : d' x = d x := by
    rw [hd', bzero_disk, update_of_ne hx, update_of_ne hxb]
  have hmarks (c : ℕ) (hc : c < sb.size) :
      marked sb d' c = (decide (c = r) || marked sb d c) := by
    have hcell := marked_update sb d (f := Bytes.setBit) (g := fun j k x => decide (k = j) || x)
      (fun a j k hj => Bytes.testBit_setBit hj k) (fun j k x h => by simp [h.symm]) r c
    rw [marked, hd', bzero_disk, update_of_ne (hne c hc), ← marked, hcell]
    by_cases hcr : c = r
    · simp [hcr]
    · simp [hcr]
  have hback (x : ℕ) (hx : x ≠ r) :
      update d' (sb.bblock r) ((d' (sb.bblock r)).clearBit (r % BPB)) x = d x := by
    by_cases hxb : x = sb.bblock r
    · have hlow : r % BPB < 8 * BSIZE := Nat.mod_lt r (by decide)
      rw [hxb, update_self, hbits, Bytes.clearBit_setBit hlow hfree]
    · rw [update_of_ne hxb, hother x hx hxb]
  have hfreed : bfree sb r d' =
      .ok (update d' (sb.bblock r) ((d' (sb.bblock r)).clearBit (r % BPB))) := by
    rw [bfree, if_pos (by simp [hmarks r hr])]
    rfl
  refine ⟨iff_of_false hr0 hfull, fun h => absurd h hr0, fun _ => ?_⟩
  refine ⟨hr, hfree, hmin, hmarks, hbits, ?_, hother, _, hfreed, hback⟩
  rw [hd', bzero_disk, update_self]

/-- Three blocks, of which block `1` is the free map. -/
def small : Superblock where
  magic := 0
  size := 3
  nblocks := 1
  ninodes := 0
  nlog := 0
  logstart := 0
  inodestart := 0
  bmapstart := 1

theorem balloc_first_free_small :
    ∃ r d', ballocLoop small (fun _ => Bytes.fill BSIZE 3) 2 0 = some (r, d') ∧
      (r = 0 ↔ ∀ c < small.size, marked small (fun _ => Bytes.fill BSIZE 3) c = true) := by
  obtain ⟨r, d', hrun, hfull, -⟩ := balloc_first_free small (fun _ => Bytes.fill BSIZE 3)
    (by decide) (by decide) (by decide) 1 (by decide)
  exact ⟨r, d', hrun, hfull⟩

/-- With no block marked, the first free block is `0`. -/
theorem balloc_returns_block_zero :
    ∃ d', ballocLoop small (fun _ => Bytes.fill BSIZE 0) 2 0 = some (0, d') ∧
      ¬ ∀ c < small.size, marked small (fun _ => Bytes.fill BSIZE 0) c = true :=
  ⟨_, rfl, by decide⟩

end Xv6.Fs
