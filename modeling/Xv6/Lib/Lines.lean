import Mathlib.Data.List.Induction

/-!
# Lines

A stream of characters is a sequence of finished lines, each followed by the separator, and
an unfinished line at the end. A reader that gets the stream piece by piece only needs the
unfinished line of what it has read so far.
-/

namespace Xv6.Lib

variable {α : Type*} [DecidableEq α]

/-- The finished lines and the unfinished line after one more character. -/
def feed (sep : α) (s : List (List α) × List α) (c : α) : List (List α) × List α :=
  if c = sep then (s.1 ++ [s.2], []) else (s.1, s.2 ++ [c])

/-- The finished lines of a stream, and the unfinished line at its end. -/
def splitLines (sep : α) (xs : List α) : List (List α) × List α := xs.foldl (feed sep) ([], [])

variable {sep : α} {xs ys l : List α}

lemma foldl_feed (ls : List (List α)) (cur : List α) (xs : List α) :
    xs.foldl (feed sep) (ls, cur) =
      (ls ++ (xs.foldl (feed sep) ([], cur)).1, (xs.foldl (feed sep) ([], cur)).2) := by
  induction xs generalizing ls cur with
  | nil => simp
  | cons c xs ih =>
    by_cases hc : c = sep
    · simp only [List.foldl_cons, feed, if_pos hc, List.nil_append]
      rw [ih, ih [cur], List.append_assoc]
    · simp only [List.foldl_cons, feed, if_neg hc]
      exact ih ..

lemma splitLines_of_notMem (h : sep ∉ xs) : splitLines sep xs = ([], xs) := by
  have hfold : ∀ (cur xs : List α), sep ∉ xs →
      xs.foldl (feed sep) ([], cur) = ([], cur ++ xs) := by
    intro cur xs hxs
    induction xs generalizing cur with
    | nil => simp
    | cons c xs ih =>
      rw [List.mem_cons, not_or] at hxs
      rw [List.foldl_cons, feed, if_neg (Ne.symm hxs.1), ih _ hxs.2, List.append_assoc,
        List.singleton_append]
  exact hfold [] xs h

lemma splitLines_snoc (xs : List α) (c : α) :
    splitLines sep (xs ++ [c]) = feed sep (splitLines sep xs) c := by
  rw [splitLines, List.foldl_append]
  rfl

/-- The unfinished line has no separator. -/
lemma sep_notMem_unfinished (xs : List α) : sep ∉ (splitLines sep xs).2 := by
  induction xs using List.reverseRecOn with
  | nil => simp [splitLines]
  | append_singleton xs c ih =>
    rw [splitLines_snoc, feed]
    by_cases hc : c = sep
    · simp [hc]
    · simpa [hc, ih] using Ne.symm hc

/-- A stream that is read in two pieces: the second one is put behind the unfinished line of
the first. -/
lemma splitLines_append (sep : α) (xs ys : List α) : splitLines sep (xs ++ ys) =
    ((splitLines sep xs).1 ++ (splitLines sep ((splitLines sep xs).2 ++ ys)).1,
      (splitLines sep ((splitLines sep xs).2 ++ ys)).2) := by
  have hcur : splitLines sep ((splitLines sep xs).2 ++ ys) =
      ys.foldl (feed sep) ([], (splitLines sep xs).2) := by
    rw [splitLines, List.foldl_append]
    congr 1
    exact splitLines_of_notMem (sep_notMem_unfinished xs)
  rw [hcur, ← foldl_feed, splitLines, List.foldl_append]
  rfl

/-- The first line of a stream. -/
lemma splitLines_line (h : sep ∉ l) : splitLines sep (l ++ sep :: xs) =
    (l :: (splitLines sep xs).1, (splitLines sep xs).2) := by
  have hfirst : splitLines sep (l ++ [sep]) = ([l], []) := by
    rw [splitLines_snoc, splitLines_of_notMem h, feed, if_pos rfl]
    rfl
  rw [show l ++ sep :: xs = (l ++ [sep]) ++ xs by simp, splitLines_append, hfirst]
  rfl

/-- The lines and the separators between them are the stream. -/
lemma flatMap_splitLines (sep : α) (xs : List α) :
    (splitLines sep xs).1.flatMap (· ++ [sep]) ++ (splitLines sep xs).2 = xs := by
  induction xs using List.reverseRecOn with
  | nil => rfl
  | append_singleton xs c ih =>
    rw [splitLines_snoc, feed]
    by_cases hc : c = sep
    · rw [if_pos hc, List.flatMap_append, List.append_nil, List.flatMap_singleton,
        ← List.append_assoc, ih, hc]
    · rw [if_neg hc, ← List.append_assoc, ih]

/-- A finished line is shorter than the stream. -/
lemma length_lt_of_mem_lines (h : l ∈ (splitLines sep xs).1) : l.length < xs.length := by
  have hsub := List.sublist_flatten_of_mem (List.mem_map_of_mem (f := (· ++ [sep])) h)
  have hle := hsub.length_le
  have hlen := congrArg List.length (flatMap_splitLines sep xs)
  rw [List.length_append, List.flatMap_def] at hlen
  rw [List.length_append, List.length_singleton] at hle
  omega

end Xv6.Lib
