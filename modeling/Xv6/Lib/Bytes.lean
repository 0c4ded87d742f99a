import Mathlib.Data.Nat.Digits.Lemmas
import Mathlib.Tactic.Ring

/-!
# Fixed-size byte arrays

`Bytes n` is an array of `n` bytes. A C struct laid over such an array is read and
written through little-endian loads and stores at byte offsets, and a bitmap through
single bits; the lemmas here say what a load sees after a store, at the same place or at
a disjoint one.
-/

namespace Xv6.Lib

/-- An array of `n` bytes. -/
abbrev Bytes (n : ℕ) := Fin n → UInt8

namespace Bytes

variable {n : ℕ}

/-- The byte at offset `i`, and `0` past the end. -/
def get (b : Bytes n) (i : ℕ) : UInt8 := if h : i < n then b ⟨i, h⟩ else 0

/-- The `len` bytes from offset `off` on. -/
def slice (b : Bytes n) (off len : ℕ) : List UInt8 := (List.range len).map fun j => b.get (off + j)

/-- Overwrite the bytes from offset `off` on with `xs`. -/
def put (b : Bytes n) (off : ℕ) (xs : List UInt8) : Bytes n := fun i =>
  if off ≤ i.val ∧ i.val < off + xs.length then xs.getD (i.val - off) 0 else b i

/-- The array of `n` equal bytes. -/
def fill (n : ℕ) (v : UInt8) : Bytes n := fun _ => v

/-! ## Single bytes and slices -/

theorem ext_get {b c : Bytes n} (h : ∀ i < n, b.get i = c.get i) : b = c := by
  funext i
  simpa [get] using h i.val i.isLt

theorem get_put (b : Bytes n) (off : ℕ) (xs : List UInt8) (i : ℕ) :
    (b.put off xs).get i =
      if off ≤ i ∧ i < off + xs.length ∧ i < n then xs.getD (i - off) 0 else b.get i := by
  unfold get put
  split <;> grind

theorem get_put_of_disjoint {b : Bytes n} {off i : ℕ} {xs : List UInt8}
    (h : i < off ∨ off + xs.length ≤ i) : (b.put off xs).get i = b.get i := by
  rw [get_put, if_neg (by omega)]

@[simp]
theorem get_fill {v : UInt8} {i : ℕ} (h : i < n) : (fill n v).get i = v := by
  simp [get, fill, h]

@[simp]
theorem length_slice (b : Bytes n) (off len : ℕ) : (b.slice off len).length = len := by
  simp [slice]

/-- Reading back what was written. -/
theorem slice_put {b : Bytes n} {off : ℕ} {xs : List UInt8} (h : off + xs.length ≤ n) :
    (b.put off xs).slice off xs.length = xs := by
  apply List.ext_getElem (by simp)
  intro j hj hj'
  have hget : (b.put off xs).get (off + j) = xs.getD j 0 := by
    rw [get_put, if_pos (by omega), Nat.add_sub_cancel_left]
  simp [slice, hget, hj']

/-- A write leaves the bytes outside it alone. -/
theorem slice_put_of_disjoint {b : Bytes n} {off off' len : ℕ} {xs : List UInt8}
    (h : off' + len ≤ off ∨ off + xs.length ≤ off') :
    (b.put off xs).slice off' len = b.slice off' len := by
  apply List.map_congr_left
  intro j hj
  rw [List.mem_range] at hj
  exact get_put_of_disjoint (by omega)

theorem slice_eq_replicate {b : Bytes n} {off len : ℕ} {v : UInt8}
    (h : ∀ i, off ≤ i → i < off + len → b.get i = v) : b.slice off len = List.replicate len v := by
  rw [List.eq_replicate_iff]
  refine ⟨length_slice b off len, fun x hx => ?_⟩
  obtain ⟨j, hj, rfl⟩ := List.mem_map.1 hx
  rw [List.mem_range] at hj
  exact h (off + j) (by omega) (by omega)

/-! ## Little-endian words -/

end Bytes

/-- The number with the given little-endian bytes. -/
def leNat (xs : List UInt8) : ℕ := Nat.ofDigits 256 (xs.map UInt8.toNat)

/-- The `w` low little-endian bytes of `v`. -/
def leBytes : ℕ → ℕ → List UInt8
  | 0, _ => []
  | w + 1, v => UInt8.ofNat v :: leBytes w (v / 256)

@[simp]
theorem length_leBytes (w v : ℕ) : (leBytes w v).length = w := by
  induction w generalizing v with
  | zero => rfl
  | succ w ih => simp [leBytes, ih]

theorem leNat_lt (xs : List UInt8) : leNat xs < 256 ^ xs.length := by
  have h := Nat.ofDigits_lt_base_pow_length (b := 256) (l := xs.map UInt8.toNat) (by decide)
    (by simpa using fun x _ => x.toNat_lt)
  simpa [leNat] using h

theorem leNat_leBytes (w v : ℕ) : leNat (leBytes w v) = v % 256 ^ w := by
  induction w generalizing v with
  | zero => simp [leBytes, leNat, Nat.mod_one]
  | succ w ih =>
    have hcons : leNat (leBytes (w + 1) v) = v % 256 + 256 * leNat (leBytes w (v / 256)) := by
      simp [leBytes, leNat, Nat.ofDigits_cons]
    rw [hcons, ih, pow_succ', Nat.mod_mul]

@[simp]
theorem leNat_replicate_zero (w : ℕ) : leNat (List.replicate w 0) = 0 := by
  simp [leNat, Nat.ofDigits_replicate_zero]

namespace Bytes

variable {n : ℕ}

/-- Load the `w`-byte word at offset `off`. -/
def ld (w : ℕ) (b : Bytes n) (off : ℕ) : ℕ := leNat (b.slice off w)

/-- Store the `w` low bytes of `v` at offset `off`. -/
def st (w : ℕ) (b : Bytes n) (off v : ℕ) : Bytes n := b.put off (leBytes w v)

theorem ld_lt (w : ℕ) (b : Bytes n) (off : ℕ) : b.ld w off < 256 ^ w := by
  simpa [ld] using leNat_lt (b.slice off w)

theorem ld_st {w : ℕ} {b : Bytes n} {off v : ℕ} (h : off + w ≤ n) :
    (b.st w off v).ld w off = v % 256 ^ w := by
  have hs : (b.put off (leBytes w v)).slice off (leBytes w v).length = leBytes w v :=
    slice_put (by simpa using h)
  rw [length_leBytes] at hs
  rw [ld, st, hs, leNat_leBytes]

theorem ld_put_of_disjoint {w : ℕ} {b : Bytes n} {off off' : ℕ} {xs : List UInt8}
    (h : off' + w ≤ off ∨ off + xs.length ≤ off') : (b.put off xs).ld w off' = b.ld w off' := by
  rw [ld, ld, slice_put_of_disjoint h]

theorem ld_st_of_disjoint {w w' : ℕ} {b : Bytes n} {off off' v : ℕ}
    (h : off' + w' ≤ off ∨ off + w ≤ off') : (b.st w off v).ld w' off' = b.ld w' off' :=
  ld_put_of_disjoint (by simpa using h)

@[simp]
theorem ld_fill_zero (w off : ℕ) : (fill n 0).ld w off = 0 := by
  have h : (fill n 0).slice off w = List.replicate w 0 :=
    slice_eq_replicate fun i _ _ => by simp [get, fill]
  rw [ld, h, leNat_replicate_zero]

/-- Only the last of two stores at one offset counts. -/
theorem st_st (w : ℕ) (b : Bytes n) (off u v : ℕ) : (b.st w off u).st w off v = b.st w off v := by
  funext i
  simp only [st, put, length_leBytes]
  split <;> rfl

/-! ## Arrays of 32-bit words -/

/-- Store the words `f 0, …, f (m - 1)` one after the other from offset `off` on. -/
def stWords (b : Bytes n) (off m : ℕ) (f : ℕ → ℕ) : Bytes n :=
  (List.range m).foldl (fun b i => b.st 4 (off + 4 * i) (f i)) b

theorem stWords_succ (b : Bytes n) (off m : ℕ) (f : ℕ → ℕ) :
    b.stWords off (m + 1) f = (b.stWords off m f).st 4 (off + 4 * m) (f m) := by
  simp [stWords, List.range_succ]

/-- A word in front of the array or behind it is not touched. -/
theorem ld_stWords_of_disjoint {w : ℕ} {b : Bytes n} {off off' m : ℕ} {f : ℕ → ℕ}
    (h : off' + w ≤ off ∨ off + 4 * m ≤ off') : (b.stWords off m f).ld w off' = b.ld w off' := by
  induction m with
  | zero => rfl
  | succ m ih => rw [stWords_succ, ld_st_of_disjoint (by omega), ih (by omega)]

theorem ld_stWords {b : Bytes n} {off m k : ℕ} {f : ℕ → ℕ} (hk : k < m) (h : off + 4 * m ≤ n) :
    (b.stWords off m f).ld 4 (off + 4 * k) = f k % 256 ^ 4 := by
  induction m with
  | zero => omega
  | succ m ih =>
    rw [stWords_succ]
    rcases Nat.lt_succ_iff_lt_or_eq.1 hk with hlt | rfl
    · rw [ld_st_of_disjoint (by omega), ih hlt (by omega)]
    · exact ld_st (by omega)

/-! ## Arrays of bits -/

/-- Bit `i` of the array: `b[i / 8] & (1 << (i % 8))`. -/
def testBit (b : Bytes n) (i : ℕ) : Bool := (b.get (i / 8)).toNat.testBit (i % 8)

/-- `b[i / 8] |= 1 << (i % 8)`. -/
def setBit (b : Bytes n) (i : ℕ) : Bytes n :=
  b.put (i / 8) [UInt8.ofNat ((b.get (i / 8)).toNat ||| 1 <<< (i % 8))]

/-- `b[i / 8] &= ~(1 << (i % 8))`. -/
def clearBit (b : Bytes n) (i : ℕ) : Bytes n :=
  b.put (i / 8) [UInt8.ofNat ((b.get (i / 8)).toNat &&& (255 ^^^ 1 <<< (i % 8)))]

/-- A byte written at the place of bit `i` decides that bit and its neighbours. -/
private lemma testBit_put_byte {b : Bytes n} {i j v : ℕ} (hi : i < 8 * n) :
    (b.put (i / 8) [UInt8.ofNat v]).testBit j =
      if j / 8 = i / 8 then v.testBit (j % 8) else b.testBit j := by
  unfold testBit
  by_cases h : j / 8 = i / 8
  · have hbyte : (b.put (i / 8) [UInt8.ofNat v]).get (j / 8) = UInt8.ofNat v := by
      rw [h, get_put, if_pos ⟨le_rfl, by simp, by omega⟩, Nat.sub_self]
      rfl
    have hlow : j % 8 < 8 := Nat.mod_lt _ (by decide)
    rw [hbyte, if_pos h, UInt8.toNat_ofNat', Nat.testBit_mod_two_pow, decide_eq_true hlow,
      Bool.true_and]
  · rw [if_neg h, get_put_of_disjoint (by simp; omega)]

theorem testBit_setBit {b : Bytes n} {i : ℕ} (hi : i < 8 * n) (j : ℕ) :
    (b.setBit i).testBit j = (decide (j = i) || b.testBit j) := by
  rw [setBit, testBit_put_byte hi, Nat.one_shiftLeft]
  by_cases h : j / 8 = i / 8
  · have hij : i % 8 = j % 8 ↔ j = i := by omega
    rw [if_pos h, Nat.testBit_or, Nat.testBit_two_pow, decide_eq_decide.2 hij, Bool.or_comm,
      testBit, h]
  · have hne : j ≠ i := by
      rintro rfl
      exact h rfl
    simp [h, hne]

theorem testBit_clearBit {b : Bytes n} {i : ℕ} (hi : i < 8 * n) (j : ℕ) :
    (b.clearBit i).testBit j = (!decide (j = i) && b.testBit j) := by
  rw [clearBit, testBit_put_byte hi, Nat.one_shiftLeft]
  by_cases h : j / 8 = i / 8
  · have hij : i % 8 = j % 8 ↔ j = i := by omega
    have hlow : j % 8 < 8 := Nat.mod_lt _ (by decide)
    have hones : Nat.testBit 255 (j % 8) = true := by
      rw [show 255 = 2 ^ 8 - 1 from rfl, Nat.testBit_two_pow_sub_one, decide_eq_true hlow]
    rw [if_pos h, Nat.testBit_and, Nat.testBit_xor, Nat.testBit_two_pow, decide_eq_decide.2 hij,
      hones, Bool.true_xor, Bool.and_comm, testBit, h]
  · have hne : j ≠ i := by
      rintro rfl
      exact h rfl
    simp [h, hne]

theorem ext_testBit {b c : Bytes n} (h : ∀ i < 8 * n, b.testBit i = c.testBit i) : b = c := by
  apply ext_get
  intro i hi
  rw [← UInt8.toNat_inj]
  apply Nat.eq_of_testBit_eq
  intro k
  rcases Nat.lt_or_ge k 8 with hk | hk
  · have hbit := h (8 * i + k) (by omega)
    rwa [testBit, testBit, show (8 * i + k) / 8 = i by omega,
      show (8 * i + k) % 8 = k by omega] at hbit
  · have hhigh (x : UInt8) : x.toNat.testBit k = false :=
      Nat.testBit_lt_two_pow (x.toNat_lt.trans_le (Nat.pow_le_pow_right (by decide) hk))
    rw [hhigh, hhigh]

/-- A bit set and cleared again. -/
theorem clearBit_setBit {b : Bytes n} {i : ℕ} (hi : i < 8 * n) (h : b.testBit i = false) :
    (b.setBit i).clearBit i = b := by
  apply ext_testBit
  intro j _
  rw [testBit_clearBit hi, testBit_setBit hi]
  by_cases hj : j = i
  · simp [hj, h]
  · simp [hj]

end Bytes

end Xv6.Lib
