import Mathlib.Data.List.Forall2
import Mathlib.Tactic.Linarith
import Mathlib.Tactic.Ring

/-!
# `printf` of the user library (`user/printf.c`)

A format is a sequence of pieces: characters that are copied, and conversions, each with its
argument. The text of a number is read back by its digits. `%l` hands its 64 bits to the `int`
of `printint`, so it prints the low half only.
-/

namespace Xv6.Printf

/-! ## The code -/

/-- `digits`. -/
def digits : List UInt8 := [48, 49, 50, 51, 52, 53, 54, 55, 56, 57, 65, 66, 67, 68, 69, 70]

/-- The digit for `x`. -/
def digit (x : ℕ) : UInt8 := digits.getD x 0

/-- The digits of `x` behind those in `buf`, with room for `room` more; `none` for an overrun. -/
def fillBuf (base : ℕ) : ℕ → ℕ → List UInt8 → Option (List UInt8)
  | 0, _, _ => none
  | room + 1, x, buf =>
    if x / base = 0 then some (buf ++ [digit (x % base)])
    else fillBuf base room (x / base) (buf ++ [digit (x % base)])

/-- `printint`, with `buf[16]`. -/
def printint (xx : BitVec 32) (base : ℕ) (sgn : Bool) : Option (List UInt8) :=
  if sgn = true ∧ xx.toInt < 0 then do
    let buf ← fillBuf base 16 (-xx).toNat []
    if buf.length < 16 then return (buf ++ [45]).reverse else none
  else do
    let buf ← fillBuf base 16 xx.toNat []
    return buf.reverse

/-- The loop of `printptr`. -/
def ptrDigits : ℕ → BitVec 64 → List UInt8
  | 0, _ => []
  | n + 1, x => digit (x >>> 60).toNat :: ptrDigits n (x <<< 4)

/-- `printptr`. -/
def printptr (x : BitVec 64) : List UInt8 := 48 :: 120 :: ptrDigits 16 x

/-- An argument: a word, or the characters of a string, or null. -/
inductive Arg where
  | word (w : BitVec 64)
  | str (s : Option (List UInt8))

/-- `"(null)"`. -/
def null : List UInt8 := [40, 110, 117, 108, 108, 41]

/-- `va_arg` of a word. -/
def vaWord : List Arg → Option (BitVec 64 × List Arg)
  | .word w :: ap => some (w, ap)
  | _ => none

/-- `va_arg` of a string. -/
def vaStr : List Arg → Option (Option (List UInt8) × List Arg)
  | .str s :: ap => some (s, ap)
  | _ => none

/-- What a conversion prints, and the arguments behind it. -/
def convert (c : UInt8) (ap : List Arg) : Option (List UInt8 × List Arg) := do
  if c = 100 then
    let (w, ap) ← vaWord ap
    return (← printint (w.setWidth 32) 10 true, ap)
  else if c = 108 then
    let (w, ap) ← vaWord ap
    -- the parameter of `printint` is an `int`
    return (← printint (w.setWidth 32) 10 false, ap)
  else if c = 120 then
    let (w, ap) ← vaWord ap
    return (← printint (w.setWidth 32) 16 false, ap)
  else if c = 112 then
    let (w, ap) ← vaWord ap
    return (printptr w, ap)
  else if c = 115 then
    let (s, ap) ← vaStr ap
    return (s.getD null, ap)
  else if c = 99 then
    let (w, ap) ← vaWord ap
    return ([UInt8.ofBitVec (w.setWidth 8)], ap)
  else if c = 37 then return ([c], ap)
  else return ([37, c], ap)

/-- `vprintf`, with `state` for whether a `%` was read. -/
def vprintf : (state : Bool) → List UInt8 → List Arg → Option (List UInt8)
  | _, [], _ => some []
  | false, c :: fmt, ap => do
    if c = 37 then vprintf true fmt ap else return c :: (← vprintf false fmt ap)
  | true, c :: fmt, ap => do
    let (out, ap) ← convert c ap
    return out ++ (← vprintf false fmt ap)

/-! ## Numerals -/

/-- The value of a digit. -/
def digitValue (c : UInt8) : Option ℕ :=
  if 48 ≤ c ∧ c ≤ 57 then some (c.toNat - 48)
  else if 65 ≤ c ∧ c ≤ 70 then some (c.toNat - 55)
  else none

/-- The number a text of digits stands for. -/
def value (base : ℕ) (text : List UInt8) : Option ℕ :=
  text.foldlM (fun n c => (digitValue c).bind fun k =>
    if k < base then some (n * base + k) else none) 0

/-- The text is the number `n` without leading zeros. -/
structure Numeral (base n : ℕ) (text : List UInt8) : Prop where
  ne_nil : text ≠ []
  value_eq : value base text = some n
  leading : text.head? = some 48 → text = [48]

lemma digitValue_digit : ∀ k < 16, digitValue (digit k) = some k := by
  decide

lemma value_append_digit {base k : ℕ} (hk : k < base) (hb : base ≤ 16) {text : List UInt8} {n : ℕ}
    (h : value base text = some n) : value base (text ++ [digit k]) = some (n * base + k) := by
  rw [value, List.foldlM_append, ← value, h]
  simp [digitValue_digit k (by omega), hk]

lemma numeral_digit {base k : ℕ} (hk : k < base) (hb : base ≤ 16) :
    Numeral base k [digit k] where
  ne_nil := by simp
  value_eq := by simpa using value_append_digit hk hb (rfl : value base [] = some 0)
  leading h := by simpa using h

/-- One more digit behind a number that is not `0`. -/
lemma Numeral.append {base n k : ℕ} {text : List UInt8} (h : Numeral base n text) (hn : n ≠ 0)
    (hk : k < base) (hb : base ≤ 16) : Numeral base (n * base + k) (text ++ [digit k]) where
  ne_nil := by simp
  value_eq := value_append_digit hk hb h.value_eq
  leading hh := by
    rw [List.head?_append_of_ne_nil _ h.ne_nil] at hh
    have h0 : value base [48] = some n := h.leading hh ▸ h.value_eq
    have hv : digitValue 48 = some 0 := by decide
    have hlt : 0 < base := by omega
    simp [value, hv, hlt] at h0
    omega

/-- The digits in the buffer, the last one first. -/
lemma fillBuf_eq {base : ℕ} (h2 : 2 ≤ base) (hb : base ≤ 16) {m room x : ℕ} (buf : List UInt8)
    (hx : x < base ^ m) (hm : 0 < m) (hroom : m ≤ room) :
    ∃ ds, fillBuf base room x buf = some (buf ++ ds) ∧ ds.length ≤ m ∧
      Numeral base x ds.reverse := by
  induction m generalizing room x buf with
  | zero => omega
  | succ m ih =>
    obtain ⟨room, rfl⟩ : ∃ r, room = r + 1 := ⟨room - 1, by omega⟩
    have hk : x % base < base := Nat.mod_lt _ (by omega)
    rw [fillBuf]
    split
    next hq =>
      have hxk : x % base = x := Nat.mod_eq_of_lt (Nat.lt_of_div_eq_zero (by omega) hq)
      refine ⟨[digit (x % base)], rfl, by simp, ?_⟩
      rw [hxk]
      exact numeral_digit (hxk ▸ hk) hb
    next hq =>
      have hx' : x / base < base ^ m := Nat.div_lt_of_lt_mul (by rwa [← pow_succ'])
      have hm' : 0 < m := by
        rcases m.eq_zero_or_pos with rfl | h
        · exact absurd (Nat.lt_one_iff.1 hx') hq
        · exact h
      obtain ⟨ds, hds, hlen, hnum⟩ :=
        ih (buf ++ [digit (x % base)]) hx' hm' (Nat.le_of_succ_le_succ hroom)
      refine ⟨digit (x % base) :: ds, by simpa using hds, by simpa using hlen, ?_⟩
      have happ := hnum.append hq hk hb
      rwa [Nat.div_add_mod', ← List.reverse_cons] at happ

/-- Reading digits appends them to the number read so far. -/
lemma foldlM_digits_bounds {base n acc : ℕ} {text : List UInt8}
    (h : text.foldlM (fun n c => (digitValue c).bind fun k =>
      if k < base then some (n * base + k) else none) acc = some n) :
    acc * base ^ text.length ≤ n ∧ n < (acc + 1) * base ^ text.length := by
  induction text generalizing acc with
  | nil =>
    obtain rfl : acc = n := Option.some.inj h
    simp
  | cons c text ih =>
    rw [List.foldlM_cons] at h
    obtain ⟨a, ha, hrest⟩ := Option.bind_eq_some_iff.1 h
    obtain ⟨k, -, hk⟩ := Option.bind_eq_some_iff.1 ha
    split at hk
    case isFalse => cases hk
    case isTrue hlt =>
      obtain rfl : acc * base + k = a := Option.some.inj hk
      obtain ⟨hle, hup⟩ := ih hrest
      rw [List.length_cons, pow_succ']
      constructor
      · calc acc * (base * base ^ text.length) = (acc * base) * base ^ text.length := by ring
          _ ≤ (acc * base + k) * base ^ text.length := Nat.mul_le_mul_right _ (by omega)
          _ ≤ n := hle
      · calc n < (acc * base + k + 1) * base ^ text.length := hup
          _ ≤ (acc * base + base) * base ^ text.length := Nat.mul_le_mul_right _ (by omega)
          _ = (acc + 1) * (base * base ^ text.length) := by ring

lemma eq_zero_of_digitValue {c : UInt8} (h : digitValue c = some 0) : c = 48 := by
  unfold digitValue at h
  split at h
  next hc =>
    have hle : c.toNat ≤ 48 := Nat.sub_eq_zero_iff_le.1 (Option.some.inj h)
    exact UInt8.le_antisymm hle hc.1
  next =>
    split at h
    · next hc =>
      have hle : c.toNat ≤ 55 := Nat.sub_eq_zero_iff_le.1 (Option.some.inj h)
      have hge : 65 ≤ c.toNat := hc.1
      omega
    · cases h

/-- A numeral of several digits starts with one that counts. -/
lemma Numeral.pow_le {base n : ℕ} {text : List UInt8} (h : Numeral base n text)
    (hlen : 2 ≤ text.length) : base ^ (text.length - 1) ≤ n := by
  cases text with
  | nil => exact absurd rfl h.ne_nil
  | cons c text =>
    have hv := h.value_eq
    rw [value, List.foldlM_cons] at hv
    obtain ⟨a, ha, hrest⟩ := Option.bind_eq_some_iff.1 hv
    obtain ⟨k, hc, hk⟩ := Option.bind_eq_some_iff.1 ha
    split at hk
    case isFalse => cases hk
    case isTrue hlt =>
      obtain rfl : 0 * base + k = a := Option.some.inj hk
      have hpos : k ≠ 0 := by
        rintro rfl
        have hone := h.leading (by rw [List.head?_cons, eq_zero_of_digitValue hc])
        rw [hone] at hlen
        exact absurd hlen (by decide)
      have hle := (foldlM_digits_bounds hrest).1
      calc base ^ (text.length + 1 - 1) = 1 * base ^ text.length := by simp
        _ ≤ (0 * base + k) * base ^ text.length := Nat.mul_le_mul_right _ (by omega)
        _ ≤ n := hle

/-- A larger number has at least as many digits. -/
lemma Numeral.length_le {base m n : ℕ} {s t : List UInt8} (hs : Numeral base m s)
    (ht : Numeral base n t) (hb : 0 < base) (hmn : m ≤ n) : s.length ≤ t.length := by
  by_contra hlt
  have hpos : 0 < t.length := List.length_pos_iff.2 ht.ne_nil
  have hup : n < 1 * base ^ t.length := by
    simpa using (foldlM_digits_bounds ht.value_eq).2
  have hpow : base ^ t.length ≤ base ^ (s.length - 1) := Nat.pow_le_pow_right hb (by omega)
  have hlow := hs.pow_le (by omega)
  omega

/-- The loop of `printptr` prints the upper digits. -/
lemma value_ptrDigits {n : ℕ} (hn : n ≤ 16) (x : BitVec 64) (acc : ℕ) :
    (ptrDigits n x).foldlM (fun n c => (digitValue c).bind fun k =>
      if k < 16 then some (n * 16 + k) else none) acc =
      some (acc * 16 ^ n + x.toNat / 2 ^ (64 - 4 * n)) := by
  induction n generalizing x acc with
  | zero => simp [ptrDigits, Nat.div_eq_of_lt x.isLt]
  | succ n ih =>
    have hd : (x >>> 60).toNat = x.toNat / 2 ^ 60 := by simp [Nat.shiftRight_eq_div_pow]
    have hlt : x.toNat / 2 ^ 60 < 16 := by omega
    have hs : (x <<< 4).toNat = x.toNat % 2 ^ 60 * 2 ^ 4 := by
      simp [Nat.shiftLeft_eq]
      omega
    rw [ptrDigits, List.foldlM_cons, hd, digitValue_digit _ hlt]
    simp only [Option.bind_some, if_pos hlt, bind, ih (by omega), hs]
    obtain ⟨k, hk⟩ : ∃ k, 60 = k + 4 * n := ⟨60 - 4 * n, by omega⟩
    have hpow : 2 ^ 60 = 16 ^ n * 2 ^ k := by
      rw [hk, pow_add, pow_mul, mul_comm]
      norm_num
    have hsplit : x.toNat / 2 ^ k = x.toNat / 2 ^ 60 * 16 ^ n + x.toNat % 2 ^ 60 / 2 ^ k := by
      conv_lhs => rw [← Nat.div_add_mod' x.toNat (2 ^ 60), hpow, ← mul_assoc]
      rw [hpow, mul_comm, Nat.mul_add_div (by positivity)]
    have hdown : x.toNat % 2 ^ 60 * 2 ^ 4 / 2 ^ (64 - 4 * n) = x.toNat % 2 ^ 60 / 2 ^ k := by
      rw [show 64 - 4 * n = k + 4 by omega, pow_add, Nat.mul_div_mul_right _ _ (by decide)]
    rw [hdown, show 64 - 4 * (n + 1) = k by omega, hsplit]
    ring_nf

/-! ## Pieces -/

/-- The characters that have a meaning behind a `%`. -/
def known : List UInt8 := [100, 108, 120, 112, 115, 99, 37]

/-- A piece of a format, with its argument. -/
inductive Piece where
  | char (c : UInt8) (h : c ≠ 37 ∧ c ≠ 0)
  | dec (w : BitVec 64)
  | long (w : BitVec 64)
  | hex (w : BitVec 64)
  | ptr (w : BitVec 64)
  | str (s : Option (List UInt8))
  | chr (w : BitVec 64)
  | percent
  | other (c : UInt8) (h : c ∉ known ∧ c ≠ 0)

/-- The characters of a piece. -/
def Piece.fmt : Piece → List UInt8
  | .char c _ => [c]
  | .dec _ => [37, 100]
  | .long _ => [37, 108]
  | .hex _ => [37, 120]
  | .ptr _ => [37, 112]
  | .str _ => [37, 115]
  | .chr _ => [37, 99]
  | .percent => [37, 37]
  | .other c _ => [37, c]

/-- The argument of a piece. -/
def Piece.args : Piece → List Arg
  | .dec w | .long w | .hex w | .ptr w | .chr w => [.word w]
  | .str s => [.str s]
  | _ => []

/-- The text is what the piece stands for. -/
def Piece.Denotes : Piece → List UInt8 → Prop
  | .char c _, text => text = [c]
  | .dec w, text =>
    let n := (w.setWidth 32).toInt
    if n < 0 then ∃ t, text = 45 :: t ∧ Numeral 10 n.natAbs t else Numeral 10 n.toNat text
  | .long w, text => Numeral 10 w.toNat text
  | .hex w, text => Numeral 16 (w.setWidth 32).toNat text
  | .ptr w, text => ∃ t, text = 48 :: 120 :: t ∧ t.length = 16 ∧ value 16 t = some w.toNat
  | .str s, text => text = s.getD null
  | .chr w, text => text = [UInt8.ofBitVec (w.setWidth 8)]
  | .percent, text => text = [37]
  | .other c _, text => text = [37, c]

/-- What a `%` that nothing follows should print. -/
def lonePercent (lone : Bool) : List UInt8 := if lone then [37] else []

/-- The format of a sequence of pieces, with or without a `%` at its end. -/
def format (ps : List Piece) (lone : Bool) : List UInt8 :=
  ps.flatMap Piece.fmt ++ lonePercent lone

/-- The two characters of a conversion are a piece. -/
lemma exists_conversion {c : UInt8} (h : c ≠ 0) : ∃ p : Piece, p.fmt = [37, c] := by
  by_cases hk : c ∈ known
  · simp only [known, List.mem_cons, List.not_mem_nil, or_false] at hk
    rcases hk with rfl | rfl | rfl | rfl | rfl | rfl | rfl
    exacts [⟨.dec 0, rfl⟩, ⟨.long 0, rfl⟩, ⟨.hex 0, rfl⟩, ⟨.ptr 0, rfl⟩, ⟨.str none, rfl⟩,
      ⟨.chr 0, rfl⟩, ⟨.percent, rfl⟩]
  · exact ⟨.other c ⟨hk, h⟩, rfl⟩

/-- Every string is a format. -/
lemma exists_format (fmt : List UInt8) (h : 0 ∉ fmt) : ∃ ps lone, fmt = format ps lone := by
  match fmt with
  | [] => exact ⟨[], false, rfl⟩
  | [c] =>
    by_cases hc : c = 37
    · exact ⟨[], true, by rw [hc]; rfl⟩
    · exact ⟨[.char c ⟨hc, by rintro rfl; simp at h⟩], false, rfl⟩
  | c :: c' :: fmt =>
    simp only [List.mem_cons, not_or] at h
    by_cases hc : c = 37
    · obtain ⟨p, hp⟩ := exists_conversion (Ne.symm h.2.1)
      obtain ⟨ps, lone, hps⟩ := exists_format fmt h.2.2
      exact ⟨p :: ps, lone, by simp [format, hp, hc, hps]⟩
    · obtain ⟨ps, lone, hps⟩ := exists_format (c' :: fmt) (by simpa using h.2)
      exact ⟨.char c ⟨hc, Ne.symm h.1⟩ :: ps, lone, by simp [format, Piece.fmt, hps]⟩

lemma printint_unsigned {base : ℕ} (h2 : 2 ≤ base) (hb : base ≤ 16) {x : BitVec 32}
    (hx : 2 ^ 32 ≤ base ^ 15) :
    ∃ text, printint x base false = some text ∧ Numeral base x.toNat text := by
  obtain ⟨ds, hds, -, hnum⟩ := fillBuf_eq h2 hb [] (x.isLt.trans_le hx) (by decide)
    (show 15 ≤ 16 by decide)
  exact ⟨ds.reverse, by simp [printint, hds], hnum⟩

lemma printint_signed (x : BitVec 32) : ∃ text, printint x 10 true = some text ∧
    if x.toInt < 0 then ∃ t, text = 45 :: t ∧ Numeral 10 x.toInt.natAbs t
    else Numeral 10 x.toInt.toNat text := by
  have hfill (y : BitVec 32) := fillBuf_eq (by decide) (by decide) []
    (y.isLt.trans_le (show 2 ^ 32 ≤ 10 ^ 15 by decide)) (by decide) (show 15 ≤ 16 by decide)
  split
  next hneg =>
    obtain ⟨ds, hds, hlen, hnum⟩ := hfill (-x)
    have habs : (-x).toNat = x.toInt.natAbs := by
      have hmsb : x.msb = true := by simpa [BitVec.msb_eq_toInt] using hneg
      have hge : 2 ^ 31 ≤ x.toNat := BitVec.le_toNat_of_msb_true hmsb
      rw [BitVec.toInt_eq_msb_cond, if_pos hmsb, BitVec.toNat_neg]
      omega
    refine ⟨45 :: ds.reverse, ?_, _, rfl, habs ▸ hnum⟩
    rw [printint, if_pos ⟨rfl, hneg⟩, hds]
    simp [Nat.lt_succ_of_le hlen]
  next hpos =>
    obtain ⟨ds, hds, -, hnum⟩ := hfill x
    have habs : x.toNat = x.toInt.toNat := by
      have hmsb : x.msb = false := by simpa [BitVec.msb_eq_toInt] using hpos
      rw [BitVec.toInt_eq_toNat_of_msb hmsb, Int.toNat_natCast]
    refine ⟨ds.reverse, ?_, habs ▸ hnum⟩
    rw [printint, if_neg (by simp [hpos]), hds]
    rfl

/-- What `vprintf` prints behind a conversion. -/
lemma vprintf_conversion {c : UInt8} {fmt text : List UInt8} {ap ap' : List Arg}
    (h : convert c ap = some (text, ap')) :
    vprintf false (37 :: c :: fmt) ap = (vprintf false fmt ap').map (text ++ ·) := by
  simp only [vprintf, if_pos, h, bind, Option.bind_some]
  cases vprintf false fmt ap' <;> rfl

/-- What `vprintf` makes of a piece: `%l` loses the upper half of its argument. -/
def Piece.narrowed : Piece → Piece
  | .long w => .long ((w.setWidth 32).setWidth 64)
  | p => p

/-- A piece is printed as what the narrowed piece stands for. -/
lemma vprintf_piece (p : Piece) :
    ∃ text, p.narrowed.Denotes text ∧ ∀ fmt ap, vprintf false (p.fmt ++ fmt) (p.args ++ ap) =
      (vprintf false fmt ap).map (text ++ ·) := by
  cases p with
  | char c h =>
    refine ⟨[c], rfl, fun fmt ap => ?_⟩
    simp only [Piece.fmt, Piece.args, List.cons_append, List.nil_append, vprintf, if_neg h.1]
    cases vprintf false fmt ap <;> rfl
  | dec w =>
    obtain ⟨text, hrun, htext⟩ := printint_signed (w.setWidth 32)
    refine ⟨text, htext, fun fmt ap => vprintf_conversion ?_⟩
    simp [Piece.args, convert, vaWord, hrun]
  | long w =>
    obtain ⟨text, hrun, htext⟩ := printint_unsigned (x := w.setWidth 32) (by decide)
      (show 10 ≤ 16 by decide) (by decide)
    have hw : ((w.setWidth 32).setWidth 64).toNat = (w.setWidth 32).toNat :=
      BitVec.toNat_setWidth_of_le (by decide)
    refine ⟨text, ?_, fun fmt ap => vprintf_conversion ?_⟩
    · rwa [← hw] at htext
    · simp [Piece.args, convert, vaWord, hrun]
  | hex w =>
    obtain ⟨text, hrun, htext⟩ := printint_unsigned (x := w.setWidth 32) (by decide)
      (show 16 ≤ 16 by decide) (by decide)
    refine ⟨text, htext, fun fmt ap => vprintf_conversion ?_⟩
    simp [Piece.args, convert, vaWord, hrun]
  | ptr w =>
    have hlen (n : ℕ) (x : BitVec 64) : (ptrDigits n x).length = n := by
      induction n generalizing x with
      | zero => rfl
      | succ n ih => rw [ptrDigits, List.length_cons, ih]
    have hval : value 16 (ptrDigits 16 w) = some w.toNat := by
      simpa [value] using value_ptrDigits le_rfl w 0
    exact ⟨printptr w, ⟨_, rfl, hlen 16 w, hval⟩, fun fmt ap => vprintf_conversion rfl⟩
  | str s => exact ⟨s.getD null, rfl, fun fmt ap => vprintf_conversion rfl⟩
  | chr w => exact ⟨_, rfl, fun fmt ap => vprintf_conversion rfl⟩
  | percent => exact ⟨[37], rfl, fun fmt ap => vprintf_conversion rfl⟩
  | other c h =>
    refine ⟨[37, c], rfl, fun fmt ap => vprintf_conversion ?_⟩
    simp only [known, List.mem_cons, List.not_mem_nil, or_false, not_or] at h
    simp [Piece.args, convert, h.1]

/-- `vprintf` prints the narrowed pieces, in order, and nothing for a `%` at the end. -/
lemma vprintf_format (ps : List Piece) (lone : Bool) :
    ∃ texts, List.Forall₂ (fun p text => p.narrowed.Denotes text) ps texts ∧
      vprintf false (format ps lone) (ps.flatMap Piece.args) = some texts.flatten := by
  induction ps with
  | nil => cases lone <;> exact ⟨[], .nil, rfl⟩
  | cons p ps ih =>
    obtain ⟨text, htext, hrun⟩ := vprintf_piece p
    obtain ⟨texts, htexts, hruns⟩ := ih
    refine ⟨text :: texts, .cons htext htexts, ?_⟩
    rw [format, List.flatMap_cons, List.flatMap_cons, List.append_assoc, hrun]
    rw [format] at hruns
    rw [hruns]
    rfl

/-- The pieces that are printed as they should be. -/
def Piece.Fits : Piece → Prop
  | .long w => w.toNat < 2 ^ 32
  | _ => True

lemma Piece.narrowed_of_fits {p : Piece} (h : p.Fits) : p.narrowed = p := by
  cases p with
  | long w =>
    refine congrArg Piece.long (BitVec.eq_of_toNat_eq ?_)
    rw [BitVec.toNat_setWidth_of_le (by decide), BitVec.toNat_setWidth]
    exact Nat.mod_eq_of_lt h
  | _ => rfl

/-- What is printed for a piece is not longer than what it stands for, and is that only if the
argument fits. -/
lemma Piece.Denotes.compare {p : Piece} {s t : List UInt8} (hs : p.narrowed.Denotes s)
    (ht : p.Denotes t) : s.length ≤ t.length ∧ (s = t → p.Fits) := by
  cases p with
  | long w =>
    have hle : ((w.setWidth 32).setWidth 64).toNat ≤ w.toNat := by
      rw [BitVec.toNat_setWidth_of_le (by decide), BitVec.toNat_setWidth]
      exact Nat.mod_le ..
    refine ⟨Numeral.length_le hs ht (by decide) hle, ?_⟩
    rintro rfl
    have hw : ((w.setWidth 32).setWidth 64).toNat = w.toNat :=
      Option.some.inj (hs.value_eq.symm.trans ht.value_eq)
    rw [BitVec.toNat_setWidth_of_le (by decide)] at hw
    show w.toNat < 2 ^ 32
    rw [← hw]
    exact (w.setWidth 32).isLt
  | dec w =>
    refine ⟨?_, fun _ => trivial⟩
    simp only [Piece.narrowed, Piece.Denotes] at hs ht
    split at hs <;> rename_i hneg
    · obtain ⟨s, rfl, hs⟩ := hs
      rw [if_pos hneg] at ht
      obtain ⟨t, rfl, ht⟩ := ht
      exact Nat.succ_le_succ (hs.length_le ht (by decide) le_rfl)
    · rw [if_neg hneg] at ht
      exact hs.length_le ht (by decide) le_rfl
  | hex w => exact ⟨Numeral.length_le hs ht (by decide) le_rfl, fun _ => trivial⟩
  | ptr w =>
    obtain ⟨s, rfl, hs, -⟩ := hs
    obtain ⟨t, rfl, ht, -⟩ := ht
    exact ⟨by simp [hs, ht], fun _ => trivial⟩
  | _ =>
    obtain rfl : s = t := Eq.trans hs (Eq.symm ht)
    exact ⟨le_rfl, fun _ => trivial⟩

/-- What is printed is not longer than what the format stands for. -/
lemma flatten_length_le {ps : List Piece} {ss ts : List (List UInt8)}
    (hs : List.Forall₂ (fun p text => p.narrowed.Denotes text) ps ss)
    (ht : List.Forall₂ Piece.Denotes ps ts) : ss.flatten.length ≤ ts.flatten.length := by
  induction hs generalizing ts with
  | nil =>
    cases ht
    exact le_rfl
  | cons hs _ ih =>
    cases ht with
    | cons ht hts =>
      have hhead := (hs.compare ht).1
      have htail := ih hts
      simp only [List.flatten_cons, List.length_append]
      omega

/-- Texts that have the same concatenation are the same, since no text is longer than the one
it is compared with. -/
lemma fits_of_flatten_eq {ps : List Piece} {ss ts : List (List UInt8)}
    (hs : List.Forall₂ (fun p text => p.narrowed.Denotes text) ps ss)
    (ht : List.Forall₂ Piece.Denotes ps ts) (heq : ss.flatten = ts.flatten) :
    ∀ p ∈ ps, p.Fits := by
  induction hs generalizing ts with
  | nil => simp
  | cons hs hss ih =>
    cases ht with
    | cons ht hts =>
      obtain ⟨hhead, hfits⟩ := hs.compare ht
      have htail := flatten_length_le hss hts
      rw [List.flatten_cons, List.flatten_cons] at heq
      have hlen := congrArg List.length heq
      simp only [List.length_append] at hlen
      obtain ⟨hst, hrest⟩ := List.append_inj heq (by omega)
      exact List.forall_mem_cons.2 ⟨hfits hst, ih hts hrest⟩

/-- Every string is a format with its pieces, `vprintf` prints something for it without
overrunning the buffer for the digits, and this is what the pieces stand for, in order, exactly
if the arguments of `%l` have 32 bits and no lone `%` stands at the end. -/
theorem vprintf_denotes (fmt : List UInt8) (hnul : 0 ∉ fmt) :
    (∃ ps lone, fmt = format ps lone) ∧
    ∀ ps lone, fmt = format ps lone →
      (vprintf false fmt (ps.flatMap Piece.args)).isSome ∧
      ((∃ texts, List.Forall₂ Piece.Denotes ps texts ∧
          vprintf false fmt (ps.flatMap Piece.args) =
            some (texts.flatten ++ lonePercent lone)) ↔
        (∀ w, .long w ∈ ps → w.toNat < 2 ^ 32) ∧ lone = false) := by
  refine ⟨exists_format fmt hnul, ?_⟩
  rintro ps lone rfl
  obtain ⟨ss, hss, hrun⟩ := vprintf_format ps lone
  rw [hrun]
  refine ⟨rfl, ?_, ?_⟩
  · rintro ⟨ts, hts, heq⟩
    have heq : ss.flatten = ts.flatten ++ lonePercent lone := Option.some.inj heq
    have hlone : lone = false := by
      have hlen := congrArg List.length heq
      have hle := flatten_length_le hss hts
      cases lone with
      | false => rfl
      | true =>
        simp only [lonePercent, List.length_append, if_pos, List.length_singleton] at hlen
        omega
    subst hlone
    have hfits := fits_of_flatten_eq hss hts (heq.trans (List.append_nil _))
    exact ⟨fun w hw => hfits _ hw, rfl⟩
  · rintro ⟨hlong, rfl⟩
    refine ⟨ss, ?_, congrArg some (List.append_nil _).symm⟩
    have hfits : ∀ p ∈ ps, p.Fits := by
      intro p hp
      cases p with
      | long w => exact hlong w hp
      | _ => trivial
    refine (List.forall₂_iff_get.2 ?_)
    obtain ⟨hlen, hget⟩ := List.forall₂_iff_get.1 hss
    refine ⟨hlen, fun i hi hi' => ?_⟩
    have hd := hget i hi hi'
    rwa [Piece.narrowed_of_fits (hfits _ (List.get_mem ..))] at hd

/-- `INT_MIN` and a small `%l`. -/
theorem vprintf_denotes_min : ∃ texts,
    List.Forall₂ Piece.Denotes [.dec 0x80000000, .char 10 (by decide), .long 7] texts ∧
      vprintf false [37, 100, 10, 37, 108] [.word 0x80000000, .word 7] =
        some (texts.flatten ++ []) :=
  ((vprintf_denotes [37, 100, 10, 37, 108] (by decide)).2
    [.dec 0x80000000, .char 10 (by decide), .long 7] false rfl).2.2 (by simp)

/-- `%l` of `2 ^ 32` prints `0`. -/
theorem vprintf_long_truncates :
    vprintf false (Piece.long 0x100000000).fmt (Piece.long 0x100000000).args = some [48] ∧
      ¬ (Piece.long 0x100000000).Denotes [48] := by
  refine ⟨by decide, fun h => ?_⟩
  have hv : value 10 [48] = some 0 := by decide
  have hw := h.value_eq
  rw [hv] at hw
  exact absurd hw (by decide)

end Xv6.Printf
