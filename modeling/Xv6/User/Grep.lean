import Xv6.Lib.Bytes
import Xv6.Lib.Lines

/-!
# `grep` (`user/grep.c`)

`grep` reads its input into a buffer of 1024 bytes, prints the lines that match, and moves the
unfinished line to the front of the buffer before it reads on behind it. `read` returns any
number of bytes from 1 to what was asked for, and 0 at the end of the input.

The loop invariant is that the front of the buffer holds the unfinished line of what was read
so far, and that the matching lines of it were printed. A line that fills the buffer leaves no
room to read, and `grep` takes the 0 from `read` for the end of the input.
-/

namespace Xv6.Grep

open Xv6.Lib

/-! ## The matcher -/

/-- `matchstar`, with `here` for `matchhere` on the rest of the expression. -/
def matchstar (c : UInt8) (here : List UInt8 → Bool) : List UInt8 → Bool
  | [] => here []
  | t :: text => here (t :: text) || ((t == c || c == 46) && matchstar c here text)

/-- `matchhere`. Strings are without their NUL. -/
def matchhere : List UInt8 → List UInt8 → Bool
  | [], _ => true
  | c :: 42 :: re, text => matchstar c (matchhere re) text
  | [36], text => text.isEmpty
  | c :: re, t :: text => (c == 46 || c == t) && matchhere re text
  | _ :: _, [] => false

/-- The loop of `match`. -/
def matchLoop (re : List UInt8) : List UInt8 → Bool
  | [] => matchhere re []
  | t :: text => matchhere re (t :: text) || matchLoop re text

/-- `match`. -/
def reMatch : List UInt8 → List UInt8 → Bool
  | 94 :: re, text => matchhere re text
  | re, text => matchLoop re text

/-! ## The loop -/

/-- `sizeof(buf)`. -/
def BUFSIZE : ℕ := 1024

/-- `'\n'`. -/
def NL : UInt8 := 10

/-- The string at `p`, up to its NUL. -/
def cstr {n : ℕ} (b : Bytes n) (p : ℕ) : List UInt8 := (b.slice p (n - p)).takeWhile (· ≠ 0)

/-- The loop of `strchr` at `s`. It returns an index. -/
def strchr {n : ℕ} (b : Bytes n) (c : UInt8) : ℕ → ℕ → Option ℕ
  | 0, _ => none
  | fuel + 1, s =>
    if b.get s = 0 then none
    else if b.get s = c then some s
    else strchr b c fuel (s + 1)

/-- The inner loop of `grep`. It returns the buffer, `p` and the output so far. -/
def lineLoop (pattern : List UInt8) : ℕ → Bytes BUFSIZE → ℕ → List UInt8 →
    Option (Bytes BUFSIZE × ℕ × List UInt8)
  | 0, _, _, _ => none
  | fuel + 1, buf, p, out =>
    match strchr buf NL (BUFSIZE - p) p with
    | none => some (buf, p, out)
    | some q =>
      let buf := buf.put q [0]
      if reMatch pattern (cstr buf p) then
        let buf := buf.put q [NL]
        lineLoop pattern fuel buf (q + 1) (out ++ buf.slice p (q + 1 - p))
      else lineLoop pattern fuel buf (q + 1) out

/-- The state of `grep`: the buffer and `m`, the input that is left, the number of calls of
`read`, and the output. -/
structure State where
  buf : Bytes BUFSIZE
  m : ℕ
  rest : List UInt8
  reads : ℕ
  out : List UInt8

/-- What `read` returns when it is asked for `n` bytes: at most `chunk` of them in this call,
but one at least. -/
def State.read (chunk : ℕ → ℕ) (s : State) (n : ℕ) : List UInt8 :=
  s.rest.take (min (max 1 (chunk s.reads)) n)

/-- The loop of `grep`. -/
def grepLoop (pattern : List UInt8) (chunk : ℕ → ℕ) : ℕ → State → Option State
  | 0, _ => none
  | fuel + 1, s =>
    let got := s.read chunk (BUFSIZE - s.m - 1)
    if got = [] then some s
    else do
      let m := s.m + got.length
      let buf := (s.buf.put s.m got).put m [0]
      let (buf, p, out) ← lineLoop pattern BUFSIZE buf 0 s.out
      let m := m - p
      grepLoop pattern chunk fuel
        ⟨buf.put 0 (buf.slice p m), m, s.rest.drop got.length, s.reads + 1, out⟩

/-- The state in which `grep` starts. The buffer can hold what an earlier file left in it. -/
def start (buf : Bytes BUFSIZE) (input : List UInt8) : State := ⟨buf, 0, input, 0, []⟩

/-- What `grep` should print for an input. -/
def expected (pattern input : List UInt8) : List UInt8 :=
  ((splitLines NL input).1.filter (reMatch pattern)).flatMap (· ++ [NL])

/-! ## Strings in the buffer -/

/-- The string `xs` is at `p`. -/
structure CString {n : ℕ} (b : Bytes n) (p : ℕ) (xs : List UInt8) : Prop where
  slice : b.slice p xs.length = xs
  nul : b.get (p + xs.length) = 0
  fits : p + xs.length < n
  nonzero : 0 ∉ xs

section Strings

variable {n p q : ℕ} {b : Bytes n} {xs ys l : List UInt8} {c : UInt8}

lemma slice_add (b : Bytes n) (p i j : ℕ) :
    b.slice p (i + j) = b.slice p i ++ b.slice (p + i) j := by
  simp only [Bytes.slice, List.range_add, List.map_append, List.map_map, Function.comp_def,
    Nat.add_assoc]

lemma slice_one (b : Bytes n) (p : ℕ) : b.slice p 1 = [b.get p] := rfl

namespace CString

/-- The first character of a string, and the others. -/
lemma cons_iff : CString b p (c :: xs) ↔ b.get p = c ∧ c ≠ 0 ∧ CString b (p + 1) xs := by
  have hslice : b.slice p (c :: xs).length = b.get p :: b.slice (p + 1) xs.length := by
    rw [List.length_cons, Nat.add_comm, slice_add, slice_one, List.singleton_append]
  have hend : p + (c :: xs).length = p + 1 + xs.length := by
    rw [List.length_cons]
    omega
  constructor
  · rintro ⟨hs, hnul, hfits, hne⟩
    rw [hslice, List.cons.injEq] at hs
    rw [hend] at hnul hfits
    rw [List.mem_cons, not_or] at hne
    exact ⟨hs.1, Ne.symm hne.1, hs.2, hnul, hfits, hne.2⟩
  · rintro ⟨hget, hc, hs, hnul, hfits, hne⟩
    refine ⟨?_, ?_, ?_, ?_⟩
    · rw [hslice, hget, hs]
    · rwa [hend]
    · rwa [hend]
    · rw [List.mem_cons, not_or]
      exact ⟨Ne.symm hc, hne⟩

lemma nil_iff : CString b p [] ↔ b.get p = 0 ∧ p < n :=
  ⟨fun h => ⟨h.nul, h.fits⟩, fun h => ⟨rfl, h.1, h.2, by simp⟩⟩

/-- The part of a string behind one of its characters. -/
lemma drop (h : CString b p (l ++ xs)) : CString b (p + l.length) xs := by
  induction l generalizing p with
  | nil => exact h
  | cons c l ih =>
    have hrest := ih (cons_iff.1 h).2.2
    rwa [Nat.add_right_comm] at hrest

/-- Only the bytes of the string and its NUL matter. -/
lemma congr {b' : Bytes n} (h : CString b p xs)
    (hget : ∀ i, p ≤ i → i ≤ p + xs.length → b'.get i = b.get i) : CString b' p xs := by
  refine ⟨?_, ?_, h.fits, h.nonzero⟩
  · refine Eq.trans (List.map_congr_left fun i hi => hget _ (by omega) ?_) h.slice
    rw [List.mem_range] at hi
    omega
  · rw [hget _ (by omega) le_rfl]
    exact h.nul

/-- The string that ends at the first NUL. -/
lemma cstr_eq (h : CString b p xs) : cstr b p = xs := by
  have hlen : n - p = xs.length + ((n - p - xs.length - 1) + 1) := by
    have := h.fits
    omega
  have hone : b.slice (p + xs.length) (n - p - xs.length - 1 + 1) =
      0 :: b.slice (p + xs.length + 1) (n - p - xs.length - 1) := by
    rw [Nat.add_comm (n - p - xs.length - 1), slice_add, slice_one, h.nul, List.singleton_append]
  rw [cstr, hlen, slice_add, h.slice, hone, List.takeWhile_append_of_pos]
  · simp
  · intro a ha
    have hne : a ≠ 0 := fun h0 => h.nonzero (h0 ▸ ha)
    simpa using hne

/-- `strchr` finds the first occurrence. -/
lemma strchr_append (h : CString b p (l ++ c :: xs)) (hl : c ∉ l) {fuel : ℕ}
    (hfuel : l.length < fuel) : strchr b c fuel p = some (p + l.length) := by
  induction l generalizing p fuel with
  | nil =>
    obtain ⟨hget, hc, -⟩ := cons_iff.1 h
    obtain ⟨fuel, rfl⟩ : ∃ k, fuel = k + 1 := ⟨fuel - 1, by omega⟩
    rw [strchr, hget, if_neg hc, if_pos rfl]
    rfl
  | cons d l ih =>
    obtain ⟨hget, hd, hrest⟩ := cons_iff.1 h
    rw [List.mem_cons, not_or] at hl
    rw [List.length_cons] at hfuel ⊢
    obtain ⟨fuel, rfl⟩ : ∃ k, fuel = k + 1 := ⟨fuel - 1, by omega⟩
    rw [strchr, hget, if_neg hd, if_neg (Ne.symm hl.1), ih hrest hl.2 (by omega)]
    congr 1
    omega

lemma strchr_notMem (h : CString b p xs) (hc : c ∉ xs) (fuel : ℕ) : strchr b c fuel p = none := by
  induction fuel generalizing p xs with
  | zero => rfl
  | succ fuel ih =>
    cases xs with
    | nil => rw [strchr, if_pos (nil_iff.1 h).1]
    | cons d xs =>
      obtain ⟨hget, hd, hrest⟩ := cons_iff.1 h
      rw [List.mem_cons, not_or] at hc
      rw [strchr, hget, if_neg hd, if_neg (Ne.symm hc.1), ih hrest hc.2]

/-- A NUL in place of a character ends the string. -/
lemma terminate (h : CString b p (l ++ c :: xs)) : CString (b.put (p + l.length) [0]) p l := by
  have hfits := h.fits
  rw [List.length_append, List.length_cons] at hfits
  have hslice : b.slice p l.length = l := by
    have hs := h.slice
    rw [List.length_append, slice_add] at hs
    exact (List.append_inj hs (by simp)).1
  refine ⟨?_, ?_, by omega, fun h0 => h.nonzero (by simp [h0])⟩
  · rw [Bytes.slice_put_of_disjoint (by omega), hslice]
  · rw [Bytes.get_put, List.length_singleton, if_pos (by omega), Nat.sub_self]
    rfl

/-- What is behind a character does not depend on it. -/
lemma behind {b' : Bytes n} (h : CString b p (l ++ c :: xs))
    (hget : ∀ i, p + l.length < i → b'.get i = b.get i) :
    CString b' (p + l.length + 1) xs :=
  ((cons_iff.1 h.drop).2.2).congr fun i hi _ => hget i (by omega)

end CString

end Strings

/-! ## The inner loop -/

/-- The inner loop prints the matching lines and stops at the unfinished one. -/
lemma lineLoop_spec (pattern : List UInt8) (fuel : ℕ) : ∀ (buf : Bytes BUFSIZE) (p : ℕ)
    (xs out : List UInt8), CString buf p xs → xs.length < fuel →
      ∃ buf' p', lineLoop pattern fuel buf p out = some (buf', p', out ++ expected pattern xs) ∧
        p' + (splitLines NL xs).2.length = p + xs.length ∧
        CString buf' p' (splitLines NL xs).2 := by
  induction fuel with
  | zero => exact fun _ _ _ _ _ h => absurd h (by omega)
  | succ fuel ih =>
    intro buf p xs out h hfuel
    by_cases hmem : NL ∈ xs
    · obtain ⟨l, ys, rfl, hl⟩ := List.eq_append_cons_of_mem hmem
      have hfits := h.fits
      rw [List.length_append, List.length_cons] at hfits hfuel
      have hnext : ∀ {b' : Bytes BUFSIZE}, (∀ i, p + l.length < i → b'.get i = buf.get i) →
          CString b' (p + l.length + 1) ys := fun hget => h.behind hget
      have hzero : ∀ i, p + l.length < i → (buf.put (p + l.length) [0]).get i = buf.get i :=
        fun i hi => Bytes.get_put_of_disjoint (.inr (by simpa using hi))
      have hend : p + l.length + 1 + ys.length = p + (l ++ NL :: ys).length := by
        rw [List.length_append, List.length_cons]
        omega
      rw [lineLoop, h.strchr_append hl (by omega)]
      dsimp only
      rw [h.terminate.cstr_eq, expected, splitLines_line hl]
      dsimp only
      by_cases hre : reMatch pattern l
      · rw [if_pos hre]
        -- the newline is put back and the line printed
        have hslice : ((buf.put (p + l.length) [0]).put (p + l.length) [NL]).slice p
            (p + l.length + 1 - p) = l ++ [NL] := by
          rw [show p + l.length + 1 - p = l.length + 1 by omega, slice_add, slice_one,
            Bytes.slice_put_of_disjoint (by omega), h.terminate.slice, Bytes.get_put,
            List.length_singleton, if_pos (by omega), Nat.sub_self]
          rfl
        have hrest : CString ((buf.put (p + l.length) [0]).put (p + l.length) [NL])
            (p + l.length + 1) ys := hnext fun i hi => by
          rw [Bytes.get_put_of_disjoint (.inr (by simpa using hi)), hzero i hi]
        obtain ⟨buf', p', hrun, hdone⟩ := ih _ _ ys (out ++ (l ++ [NL])) hrest (by omega)
        rw [hslice, List.filter_cons_of_pos hre, List.flatMap_cons, ← hend]
        refine ⟨buf', p', ?_, hdone⟩
        rw [hrun, List.append_assoc]
        rfl
      · rw [if_neg hre, List.filter_cons_of_neg hre, ← hend]
        exact ih _ _ ys _ (hnext hzero) (by omega)
    · rw [lineLoop, h.strchr_notMem hmem, expected, splitLines_of_notMem hmem]
      refine ⟨buf, p, ?_, rfl, h⟩
      simp

/-! ## The outer loop -/

/-- `grep` has read `input`: the front of the buffer holds its unfinished line, and the
matching lines were printed. -/
structure Inv (pattern input : List UInt8) (s : State) : Prop where
  buf : s.buf.slice 0 s.m = (splitLines NL input).2
  m : s.m = (splitLines NL input).2.length
  room : s.m < BUFSIZE
  out : s.out = expected pattern input

variable {pattern input stream got : List UInt8} {chunk : ℕ → ℕ} {s : State}

lemma expected_append (pattern xs ys : List UInt8) : expected pattern (xs ++ ys) =
    expected pattern xs ++ expected pattern ((splitLines NL xs).2 ++ ys) := by
  rw [expected, splitLines_append, List.filter_append, List.flatMap_append]
  rfl

lemma mem_unfinished {c : UInt8} {xs : List UInt8} (h : c ∈ (splitLines NL xs).2) : c ∈ xs := by
  rw [← flatMap_splitLines NL xs]
  exact List.mem_append_right _ h

lemma Inv.round (h : Inv pattern input s) (got : List UInt8) (hnul : 0 ∉ input ++ got)
    (hfit : s.m + got.length < BUFSIZE) :
    ∃ buf p out, lineLoop pattern BUFSIZE ((s.buf.put s.m got).put (s.m + got.length) [0]) 0 s.out =
        some (buf, p, out) ∧
      ∀ rest reads, Inv pattern (input ++ got) ⟨buf.put 0 (buf.slice p (s.m + got.length - p)),
        s.m + got.length - p, rest, reads, out⟩ := by
  obtain ⟨line, hline⟩ : ∃ line, (splitLines NL input).2 = line := ⟨_, rfl⟩
  have hm := h.m
  have hbuf := h.buf
  rw [hline] at hm hbuf
  have hlen : (line ++ got).length = s.m + got.length := by rw [List.length_append, hm]
  have htext : CString ((s.buf.put s.m got).put (s.m + got.length) [0]) 0 (line ++ got) := by
    refine ⟨?_, ?_, by rw [hlen]; omega, fun h0 => ?_⟩
    · rw [hlen, Bytes.slice_put_of_disjoint (by omega), slice_add,
        Bytes.slice_put_of_disjoint (by omega), hbuf, Nat.zero_add, Bytes.slice_put (by omega)]
    · rw [hlen, Bytes.get_put, List.length_singleton, if_pos (by omega), Nat.zero_add, Nat.sub_self]
      rfl
    · obtain h0 | h0 := List.mem_append.1 h0
      · exact hnul (List.mem_append_left _ (mem_unfinished (hline ▸ h0)))
      · exact hnul (List.mem_append_right _ h0)
  obtain ⟨buf, p, hloop, hp, hstr⟩ := lineLoop_spec pattern BUFSIZE _ 0 _ s.out htext
    (by rw [hlen]; omega)
  refine ⟨buf, p, _, hloop, fun rest reads => ?_⟩
  have hsplit := splitLines_append NL input got
  rw [hline] at hsplit
  have hrest : s.m + got.length - p = (splitLines NL (input ++ got)).2.length := by
    rw [hsplit]
    dsimp only
    omega
  have hslice : buf.slice p (s.m + got.length - p) = (splitLines NL (input ++ got)).2 := by
    rw [hrest, hsplit]
    exact hstr.slice
  refine ⟨?_, hrest, by dsimp only; omega, ?_⟩
  · dsimp only
    rw [hslice, hrest, Bytes.slice_put]
    rw [← hrest]
    omega
  · dsimp only
    rw [h.out, expected_append pattern input, hline]

/-- The loop ends, at the end of the input or with a full buffer. What holds of the input read
so far and is kept by every round holds at the end. -/
lemma grepLoop_rule (pattern : List UInt8) (chunk : ℕ → ℕ) {J : List UInt8 → Prop}
    (hnul : 0 ∉ stream)
    (hJ : ∀ xs ys, J xs → xs ++ ys <+: stream → (splitLines NL xs).2.length + ys.length < BUFSIZE →
      J (xs ++ ys)) (fuel : ℕ) :
    ∀ (s : State) (input : List UInt8), Inv pattern input s → J input → input ++ s.rest = stream →
      s.rest.length < fuel →
      ∃ s' input', grepLoop pattern chunk fuel s = some s' ∧ Inv pattern input' s' ∧ J input' ∧
        input' ++ s'.rest = stream ∧ (s'.rest = [] ∨ s'.m + 1 = BUFSIZE) := by
  induction fuel with
  | zero => exact fun _ _ _ _ _ h => absurd h (by omega)
  | succ fuel ih =>
    intro s input h hj hstream hfuel
    have hroom := h.room
    obtain ⟨k, hk⟩ : ∃ k, min (max 1 (chunk s.reads)) (BUFSIZE - s.m - 1) = k := ⟨_, rfl⟩
    rw [grepLoop, State.read, hk]
    dsimp only
    -- `read` returns 0 at the end of the input, and also if there is no room in `buf`
    by_cases hgot : s.rest.take k = []
    · rw [if_pos hgot]
      refine ⟨s, input, rfl, h, hj, hstream, ?_⟩
      obtain hk0 | hrest := List.take_eq_nil_iff.1 hgot
      · exact .inr (by omega)
      · exact .inl hrest
    · rw [if_neg hgot]
      obtain ⟨got, hgot'⟩ : ∃ got, s.rest.take k = got := ⟨_, rfl⟩
      rw [hgot'] at hgot ⊢
      have hlen : got.length ≤ k := by
        rw [← hgot']
        exact List.length_take_le ..
      have hpos : 0 < got.length := List.length_pos_iff.2 hgot
      have hpre : got <+: s.rest := hgot' ▸ List.take_prefix k s.rest
      have hle := hpre.length_le
      have hsplit : got ++ s.rest.drop got.length = s.rest := by
        conv_rhs => rw [← List.take_append_drop got.length s.rest]
        rw [← List.prefix_iff_eq_take.1 hpre]
      have hread : (input ++ got) ++ s.rest.drop got.length = stream := by
        rw [List.append_assoc, hsplit, hstream]
      have hpre' : input ++ got <+: stream := ⟨_, hread⟩
      obtain ⟨buf, p, out, hloop, hinv⟩ := h.round got
        (fun h0 => hnul (hpre'.subset h0)) (by omega)
      rw [hloop]
      refine ih _ (input ++ got) (hinv _ _) (hJ _ _ hj hpre' ?_) hread ?_
      · rw [← h.m]
        omega
      · rw [List.length_drop]
        omega

lemma Inv.start (pattern : List UInt8) (buf : Bytes BUFSIZE) (input : List UInt8) :
    Inv pattern [] (start buf input) := ⟨rfl, rfl, show 0 < BUFSIZE by decide, rfl⟩

/-- The lines of the stream fit into the buffer. -/
structure LinesFit (stream : List UInt8) : Prop where
  line : ∀ l ∈ (splitLines NL stream).1, l.length + 1 < BUFSIZE
  unfinished : (splitLines NL stream).2.length < BUFSIZE

/-- The stream goes on, so the unfinished line leaves room to read. -/
lemma LinesFit.room {xs ys : List UInt8} (h : LinesFit (xs ++ ys)) (hne : ys ≠ []) :
    (splitLines NL xs).2.length + 1 < BUFSIZE := by
  obtain ⟨hline, hend⟩ := h
  rw [splitLines_append] at hline hend
  by_cases hmem : NL ∈ ys
  · -- the unfinished line goes on to a newline
    obtain ⟨l, zs, rfl, hnl⟩ := List.eq_append_cons_of_mem hmem
    rw [← List.append_assoc, splitLines_line] at hline
    · have hlen := hline ((splitLines NL xs).2 ++ l) (by simp)
      rw [List.length_append] at hlen
      omega
    · rw [List.mem_append, not_or]
      exact ⟨sep_notMem_unfinished xs, hnl⟩
  · have hnl : NL ∉ (splitLines NL xs).2 ++ ys := by
      rw [List.mem_append, not_or]
      exact ⟨sep_notMem_unfinished xs, hmem⟩
    rw [splitLines_of_notMem hnl, List.length_append] at hend
    have hpos : 0 < ys.length := List.length_pos_iff.2 hne
    omega

/-- `grep` reads all of its input and prints exactly the matching lines, in order, just if the
lines fit into the buffer, however `read` splits the input. -/
theorem grep_prints_matching_lines (pattern : List UInt8) (hnul : 0 ∉ stream) (chunk : ℕ → ℕ)
    (buf : Bytes BUFSIZE) {fuel : ℕ} (hfuel : stream.length < fuel) :
    ∃ s, grepLoop pattern chunk fuel (start buf stream) = some s ∧
      ((s.rest = [] ∧ s.out = expected pattern stream) ↔ LinesFit stream) := by
  -- the lines that were read went through the buffer
  have hround : ∀ xs ys : List UInt8, (∀ l ∈ (splitLines NL xs).1, l.length + 1 < BUFSIZE) →
      xs ++ ys <+: stream → (splitLines NL xs).2.length + ys.length < BUFSIZE →
      ∀ l ∈ (splitLines NL (xs ++ ys)).1, l.length + 1 < BUFSIZE := by
    intro xs ys hxs _ hroom l hl
    rw [splitLines_append, List.mem_append] at hl
    rcases hl with hl | hl
    · exact hxs l hl
    · have hlt := length_lt_of_mem_lines hl
      rw [List.length_append] at hlt
      omega
  obtain ⟨s, input, hrun, hinv, hlines, hstream, hdone⟩ := grepLoop_rule pattern chunk
    (J := fun xs => ∀ l ∈ (splitLines NL xs).1, l.length + 1 < BUFSIZE) hnul hround fuel
    (start buf stream) [] (.start pattern buf stream) (by simp [splitLines]) rfl hfuel
  have hm := hinv.m
  refine ⟨s, hrun, fun hend => ?_, fun hfit => ?_⟩
  · rw [hend.1, List.append_nil] at hstream
    exact hstream ▸ ⟨hlines, by rw [← hm]; exact hinv.room⟩
  · have hrest : s.rest = [] := by
      by_contra hne
      have hfull := hdone.resolve_left hne
      have hroom := (hstream ▸ hfit : LinesFit (input ++ s.rest)).room hne
      omega
    rw [hrest, List.append_nil] at hstream
    exact ⟨hrest, hstream ▸ hinv.out⟩

/-- Two lines in pieces of three bytes, of which one matches. -/
theorem grep_prints_matching_lines_two : ∃ s, grepLoop [97] (fun _ => 3) 8
      (start (.fill BUFSIZE 0) [97, 98, 10, 98, 10, 97]) = some s ∧ s.rest = [] ∧
    s.out = [97, 98, 10] := by
  obtain ⟨s, hrun, hiff⟩ : ∃ s, grepLoop [97] (fun _ => 3) 8
      (start (.fill BUFSIZE 0) [97, 98, 10, 98, 10, 97]) = some s ∧
        ((s.rest = [] ∧ s.out = expected [97] [97, 98, 10, 98, 10, 97]) ↔
          LinesFit [97, 98, 10, 98, 10, 97]) :=
    grep_prints_matching_lines [97] (by decide) (fun _ => 3) _ (by decide)
  obtain ⟨hrest, hout⟩ := hiff.2 ⟨by decide, by decide⟩
  exact ⟨s, hrun, hrest, hout.trans (by decide)⟩

/-- An input that starts with as many characters as the buffer takes, and no newline: `grep`
prints nothing and leaves the rest of the input unread. -/
lemma grep_stuck (pattern : List UInt8) (hnul : 0 ∉ stream) (hlen : BUFSIZE ≤ stream.length + 1)
    (hnl : NL ∉ stream.take (BUFSIZE - 1)) (chunk : ℕ → ℕ) (buf : Bytes BUFSIZE) (fuel : ℕ)
    (hfuel : stream.length < fuel) :
    ∃ s, grepLoop pattern chunk fuel (start buf stream) = some s ∧ s.out = [] ∧
      s.rest = stream.drop (BUFSIZE - 1) := by
  -- as long as the buffer is not full, all of the input read so far is in it
  have hfront : ∀ xs, xs.length < BUFSIZE → xs <+: stream → NL ∉ xs := by
    intro xs hlt hpre hmem
    refine hnl (List.IsPrefix.subset ?_ hmem)
    exact List.prefix_take_iff.2 ⟨hpre, by omega⟩
  have hround : ∀ xs ys : List UInt8, xs.length < BUFSIZE → xs ++ ys <+: stream →
      (splitLines NL xs).2.length + ys.length < BUFSIZE → (xs ++ ys).length < BUFSIZE := by
    intro xs ys hxs hpre hroom
    rw [splitLines_of_notMem (hfront xs hxs ((List.prefix_append xs ys).trans hpre))] at hroom
    rwa [List.length_append]
  obtain ⟨s, input, hrun, hinv, hshort, hstream, hdone⟩ := grepLoop_rule pattern chunk
    (J := fun xs => xs.length < BUFSIZE) hnul hround fuel (start buf stream) []
    (.start pattern buf stream) (show 0 < BUFSIZE by decide) rfl hfuel
  have hsplit := splitLines_of_notMem (hfront input hshort ⟨_, hstream⟩)
  have hm := hinv.m
  rw [hsplit] at hm
  refine ⟨s, hrun, ?_, ?_⟩
  · rw [hinv.out, expected, hsplit]
    rfl
  · have hlen' : input.length = BUFSIZE - 1 := by
      obtain hrest | hfull := hdone
      · rw [hrest, List.append_nil] at hstream
        rw [hstream] at hshort ⊢
        omega
      · dsimp only at hm
        omega
    rw [← hstream, ← hlen', List.drop_left]

/-- A line of `n` times the character `a`. -/
def longLine (n : ℕ) : List UInt8 := List.replicate n 97 ++ [NL]

lemma zero_notMem_longLine (n : ℕ) : 0 ∉ longLine n := by
  rw [longLine, List.mem_append, List.mem_replicate, List.mem_singleton]
  rintro (⟨-, h⟩ | h)
  · exact absurd h (by decide)
  · exact absurd h (by decide)

lemma NL_notMem_replicate (n : ℕ) : NL ∉ List.replicate n (97 : UInt8) := by
  rw [List.mem_replicate]
  exact fun h => absurd h.2 (by decide)

/-- The line matches the pattern `a`. -/
lemma expected_longLine (n : ℕ) : expected [97] (longLine (n + 1)) = longLine (n + 1) := by
  have hmatch : reMatch [97] (List.replicate (n + 1) 97) = true := rfl
  rw [expected, longLine, splitLines_line (NL_notMem_replicate _), List.filter_cons_of_pos hmatch]
  exact List.append_nil _

/-- A line of 1023 characters is not printed, although it matches. -/
theorem grep_misses_long_line : ∃ s, grepLoop [97] (fun _ => BUFSIZE) 1025
      (start (.fill BUFSIZE 0) (longLine 1023)) = some s ∧
    0 ∉ longLine 1023 ∧ s.out = [] ∧ s.rest = [NL] ∧
    expected [97] (longLine 1023) = longLine 1023 := by
  have hlen : (longLine 1023).length = 1024 := by
    rw [longLine, List.length_append, List.length_replicate]
    rfl
  have htake : (longLine 1023).take (BUFSIZE - 1) = List.replicate 1023 97 :=
    List.take_left' (List.length_replicate ..)
  have hdrop : (longLine 1023).drop (BUFSIZE - 1) = [NL] :=
    List.drop_left' (List.length_replicate ..)
  obtain ⟨s, hrun, hout, hrest⟩ := grep_stuck [97] (zero_notMem_longLine 1023)
    (by rw [hlen]; decide) (by rw [htake]; exact NL_notMem_replicate 1023) (fun _ => BUFSIZE)
    (.fill BUFSIZE 0) 1025 (by rw [hlen]; decide)
  exact ⟨s, hrun, zero_notMem_longLine 1023, hout, hrest.trans hdrop, expected_longLine 1022⟩

end Xv6.Grep
