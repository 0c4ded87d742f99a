import Xv6.Lib.Fifo
import Xv6.Lib.Spec
import Xv6.Process.Machine

/-!
# The console line discipline (`kernel/console.c`)

The input buffer of the console, with `consoleintr` called for each character typed and any
number of processes in `consoleread`.

* A step is one call of `consoleintr`, one iteration of the loop of `consoleread`, or a stage of
  `sleep`. `cons.lock` is held from one step of a reader to the next until it sleeps or returns,
  so that `consoleintr` and other readers have to wait.
* A reader that sleeps may go on at any time; the loop then checks again.
* `committed`, `taken` and `done` are history variables that no definition of the machine reads:
  the characters that `consoleintr` made available to readers, those that readers took, with the
  number of the call that took each, and the calls that returned.
-/

namespace Xv6.Console

open Xv6.Lib
open Xv6.Process (Slot)
open Function (update update_of_ne update_self comp_def)

/-! ## The machine -/

def INPUT_BUF_SIZE : ℕ := 128

/-- Control-D, end of file. -/
def ctrlD : UInt8 := 4

/-- Control-H, backspace. -/
def ctrlH : UInt8 := 8

/-- Control-P, print process list. -/
def ctrlP : UInt8 := 16

/-- Control-U, kill line. -/
def ctrlU : UInt8 := 21

/-- The delete key. -/
def delete : UInt8 := 127

def newline : UInt8 := 10

def carriageReturn : UInt8 := 13

/-- `struct cons`, without its lock. -/
structure Cons where
  buf : ℕ → UInt8
  r : BitVec 32
  w : BitVec 32
  e : BitVec 32

/-- `cons.buf[i % INPUT_BUF_SIZE]`. -/
def Cons.at (c : Cons) (i : BitVec 32) : UInt8 := c.buf (i.toNat % INPUT_BUF_SIZE)

/-- The loop of `consoleintr` for control-U. It takes back one character a round, so `e - w`
rounds are enough. -/
def killLine : ℕ → Cons → Cons
  | 0, c => c
  | fuel + 1, c =>
    if c.e ≠ c.w ∧ c.at (c.e - 1) ≠ newline then killLine fuel { c with e := c.e - 1 } else c

/-- The default case of `consoleintr`. -/
def store (ch : UInt8) (c : Cons) : Cons :=
  if ch ≠ 0 ∧ (c.e - c.r).toNat < INPUT_BUF_SIZE then
    let ch := if ch = carriageReturn then newline else ch
    let c := { c with
      buf := update c.buf (c.e.toNat % INPUT_BUF_SIZE) ch
      e := c.e + 1 }
    if ch = newline ∨ ch = ctrlD ∨ (c.e - c.r).toNat = INPUT_BUF_SIZE then { c with w := c.e }
    else c
  else c

/-- `consoleintr`. -/
def consoleintr (ch : UInt8) (c : Cons) : Cons :=
  if ch = ctrlP then c
  else if ch = ctrlU then killLine (c.e - c.w).toNat c
  else if ch = ctrlH ∨ ch = delete then
    if c.e ≠ c.w then { c with e := c.e - 1 } else c
  else store ch c

/-- A call of `consoleread` in progress: its number, the variables `target` and `n`, and the bytes
copied to `dst`. -/
structure Read where
  id : ℕ
  target : ℕ
  n : ℕ
  bytes : List UInt8

/-- Where a process is. -/
inductive Pc where
  /-- Not in `consoleread`. -/
  | out
  /-- At the top of the loop, holding `cons.lock`. -/
  | loop (x : Read)
  /-- In `sleep(&cons.r, &cons.lock)`. -/
  | asleep (x : Read)

/-- A call of `consoleread` that returned: `pos` is the number of characters that readers had
taken by then. -/
structure Done where
  id : ℕ
  target : ℕ
  bytes : List UInt8
  killed : Bool
  ret : ℤ
  pos : ℕ

/-- State of the machine. -/
structure State where
  cons : Cons
  /-- The holder of `cons.lock`. -/
  lock : Option Slot
  pc : Slot → Pc
  /-- The number of calls of `consoleread` up to now. -/
  calls : ℕ
  committed : List UInt8
  taken : List (ℕ × UInt8)
  done : List Done

namespace State

/-- Process `p` goes on at `pc`. -/
def goto (s : State) (p : Slot) (pc : Pc) : State := { s with pc := update s.pc p pc }

/-- `release(&cons.lock); return ...;`, after `killed(myproc())` or at the end. -/
def ret (s : State) (p : Slot) (x : Read) (killed : Bool) : State :=
  { s.goto p .out with
    lock := none
    done := s.done ++ [⟨x.id, x.target, x.bytes, killed,
      if killed then -1 else (x.target : ℤ) - x.n, s.taken.length⟩] }

/-- Call `x` takes the next character. -/
def take (s : State) (x : Read) : State :=
  { s with
    cons := { s.cons with r := s.cons.r + 1 }
    taken := s.taken ++ [(x.id, s.cons.at s.cons.r)] }

end State

/-- An iteration of the loop of `consoleread`. -/
def consoleread (p : Slot) (x : Read) (killed : Bool) (s : State) : State :=
  if x.n = 0 then s.ret p x false
  else if s.cons.r = s.cons.w then
    if killed then s.ret p x true else { s.goto p (.asleep x) with lock := none }
  else
    let c := s.cons.at s.cons.r
    if c = ctrlD then
      -- `cons.r--` puts the character back
      if x.n < x.target then s.ret p x false else (s.take x).ret p x false
    else
      let x' := { x with n := x.n - 1, bytes := x.bytes ++ [c] }
      if c = newline then (s.take x).ret p x' false else (s.take x).goto p (.loop x')

/-- What happens next. -/
inductive Act where
  /-- A character arrives. -/
  | intr (ch : UInt8)
  /-- Process `p` calls `consoleread(_, _, n)`. -/
  | call (p : Slot) (n : BitVec 32)
  /-- The holder of the lock goes on; `killed` is what `killed(myproc())` returns. -/
  | loop (p : Slot) (killed : Bool)
  /-- A process returns from `sleep`. -/
  | wake (p : Slot)

/-- A step of the machine, if it is possible. -/
def step (a : Act) (s : State) : Option State :=
  match a with
  | .intr ch =>
    if s.lock = none then
      let c := consoleintr ch s.cons
      some { s with
        cons := c
        committed := s.committed ++
          (⟨c.buf, s.cons.w, c.w⟩ : Fifo UInt8 32 INPUT_BUF_SIZE).contents }
    else none
  | .call p n =>
    match s.pc p with
    | .out =>
      if s.lock = none then
        some { s.goto p (.loop ⟨s.calls, n.toInt.toNat, n.toInt.toNat, []⟩) with
          lock := some p
          calls := s.calls + 1 }
      else none
    | _ => none
  | .loop p killed =>
    match s.pc p with
    | .loop x => some (consoleread p x killed s)
    | _ => none
  | .wake p =>
    match s.pc p with
    | .asleep x => if s.lock = none then some { s.goto p (.loop x) with lock := some p } else none
    | _ => none

/-- The state after `consoleinit`. -/
def init : State where
  cons := ⟨fun _ => 0, 0, 0, 0⟩
  lock := none
  pc := fun _ => .out
  calls := 0
  committed := []
  taken := []
  done := []

def Next (s s' : State) : Prop := ∃ a, step a s = some s'

def Reachable (s : State) : Prop := Relation.ReflTransGen Next init s

/-! ## The buffer as two lists -/

/-- The characters from `r` to `e`. -/
def Cons.ring (c : Cons) : Fifo UInt8 32 INPUT_BUF_SIZE := ⟨c.buf, c.r, c.e⟩

/-- The buffer holds the committed characters `q`, from `r` to `w`, and then the characters `l` of
the line that is being edited, from `w` to `e`. -/
structure Holds (c : Cons) (q l : List UInt8) : Prop where
  contents : c.ring.contents = q ++ l
  le : (q ++ l).length ≤ INPUT_BUF_SIZE
  w_eq : c.w = c.r + BitVec.ofNat 32 q.length

variable {c : Cons} {q l : List UInt8}

section Ring

variable (h : Holds c q l)

include h

lemma Holds.count : c.ring.count = q.length + l.length := by
  rw [← Fifo.length_contents, h.contents, List.length_append]

/-- The buffer holds at most its 128 characters. -/
lemma Holds.length_le : q.length + l.length ≤ 128 := by
  have := h.le
  rwa [List.length_append] at this

lemma Holds.e_eq : c.e = c.w + BitVec.ofNat 32 l.length := by
  have hw := c.ring.nwrite_eq
  rw [h.count, BitVec.ofNat_add, ← BitVec.add_assoc] at hw
  rw [h.w_eq]
  exact hw

lemma Holds.toNat_e_sub_r : (c.e - c.r).toNat = q.length + l.length := h.count

lemma Holds.toNat_e_sub_w : (c.e - c.w).toNat = l.length := by
  have hle := h.length_le
  rw [h.e_eq, BitVec.add_comm, BitVec.add_sub_cancel, BitVec.toNat_ofNat,
    Nat.mod_eq_of_lt (by omega)]

/-- Nothing to edit: the line is empty. -/
lemma Holds.e_eq_w : c.e = c.w ↔ l = [] := by
  have hlen := h.toNat_e_sub_w
  constructor
  · intro heq
    rw [heq, BitVec.sub_self] at hlen
    exact List.eq_nil_of_length_eq_zero hlen.symm
  · rintro rfl
    rw [h.e_eq]
    exact BitVec.add_zero _

/-- Nothing to read: no line is waiting. -/
lemma Holds.r_eq_w : c.r = c.w ↔ q = [] := by
  have hle := h.length_le
  rw [h.w_eq]
  constructor
  · intro heq
    have hval := congrArg BitVec.toNat (BitVec.self_eq_add_right.1 heq)
    rw [BitVec.toNat_ofNat, Nat.mod_eq_of_lt (by omega)] at hval
    exact List.eq_nil_of_length_eq_zero hval
  · rintro rfl
    exact (BitVec.add_zero _).symm

/-- The character that is read next. -/
lemma Holds.head (hq : q ≠ []) : ∃ q', q = c.at c.r :: q' ∧ Holds { c with r := c.r + 1 } q' l := by
  obtain ⟨a, q', rfl⟩ := List.exists_cons_of_ne_nil hq
  have hcount : 0 < c.ring.count := by
    rw [h.count, List.length_cons]
    omega
  have hcons := Fifo.contents_eq_cons hcount
  rw [h.contents, List.cons_append] at hcons
  obtain ⟨rfl, htail⟩ := List.cons.inj hcons
  have hle := h.length_le
  rw [List.length_cons] at hle
  refine ⟨q', rfl, htail.symm, ?_, ?_⟩
  · rw [List.length_append]
    unfold INPUT_BUF_SIZE
    omega
  · dsimp only
    rw [h.w_eq, List.length_cons, Nat.add_comm, BitVec.ofNat_add, BitVec.add_assoc]
    rfl

/-- The last character of the line is taken back. -/
lemma Holds.back (hl : l ≠ []) : Holds { c with e := c.e - 1 } q l.dropLast := by
  have hpos : 0 < l.length := List.length_pos_iff.2 hl
  have hcount : 0 < c.ring.count := by
    rw [h.count]
    omega
  have hlast := Fifo.contents_unput hcount
  rw [h.contents, List.dropLast_append_of_ne_nil hl] at hlast
  have hle := h.length_le
  refine ⟨hlast, ?_, h.w_eq⟩
  rw [List.length_append, List.length_dropLast]
  unfold INPUT_BUF_SIZE
  omega

/-- A character is added to the line. -/
lemma Holds.put (hlt : q.length + l.length < INPUT_BUF_SIZE) (ch : UInt8) :
    Holds { c with
      buf := update c.buf (c.e.toNat % INPUT_BUF_SIZE) ch
      e := c.e + 1 } q (l ++ [ch]) := by
  have hput := Fifo.contents_put (by decide) (by decide) (h.count ▸ hlt) ch
  rw [h.contents, List.append_assoc] at hput
  refine ⟨hput, ?_, h.w_eq⟩
  rw [List.length_append, List.length_append, List.length_singleton]
  omega

/-- The line that is edited becomes readable. -/
lemma Holds.commit : Holds { c with w := c.e } (q ++ l) [] := by
  refine ⟨?_, ?_, ?_⟩
  · rw [List.append_nil]
    exact h.contents
  · rw [List.append_nil]
    exact h.le
  · dsimp only
    rw [h.e_eq, h.w_eq, List.length_append, BitVec.ofNat_add, BitVec.add_assoc]

/-- The characters from the old to the new write index. -/
lemma Holds.committed {w : BitVec 32} {k : ℕ} (hw : w = c.r + BitVec.ofNat 32 k)
    (hk : k ≤ q.length) : (⟨c.buf, w, c.w⟩ : Fifo UInt8 32 INPUT_BUF_SIZE).contents = q.drop k := by
  have hle := h.length_le
  have hcount : (⟨c.buf, w, c.w⟩ : Fifo UInt8 32 INPUT_BUF_SIZE).count = q.length - k := by
    refine Fifo.count_eq (by omega) ?_
    dsimp only
    rw [h.w_eq, hw, BitVec.add_assoc, ← BitVec.ofNat_add, Nat.add_sub_cancel' hk]
  apply List.ext_getElem?
  intro j
  by_cases hj : j < q.length - k
  · have hring := Fifo.getElem?_contents (f := c.ring) (k := k + j) (by rw [h.count]; omega)
    rw [h.contents, List.getElem?_append_left (by omega)] at hring
    rw [Fifo.getElem?_contents (by omega), List.getElem?_drop, hring, hw, BitVec.ofNat_add,
      ← BitVec.add_assoc]
    rfl
  · rw [List.getElem?_eq_none (by rw [Fifo.length_contents]; omega),
      List.getElem?_eq_none (by rw [List.length_drop]; omega)]

end Ring

/-! ## What `consoleintr` does -/

/-- The line is shortened by taking back characters from its end. -/
lemma Holds.killLine (fuel : ℕ) : ∀ {c : Cons} {l : List UInt8}, Holds c q l →
    ∃ l', l' <+: l ∧ Holds (killLine fuel c) q l' ∧ (Console.killLine fuel c).r = c.r ∧
      (Console.killLine fuel c).buf = c.buf ∧ (Console.killLine fuel c).w = c.w := by
  induction fuel with
  | zero =>
    intro c l h
    exact ⟨l, List.prefix_refl l, h, rfl, rfl, rfl⟩
  | succ fuel ih =>
    intro c l h
    unfold Console.killLine
    split
    case isFalse => exact ⟨l, List.prefix_refl l, h, rfl, rfl, rfl⟩
    case isTrue hback =>
      have hl : l ≠ [] := fun hl => hback.1 (h.e_eq_w.2 hl)
      obtain ⟨l', hpre, hh, hr, hbuf, hw⟩ := ih (h.back hl)
      exact ⟨l', hpre.trans (List.dropLast_prefix l), hh, hr, hbuf, hw⟩

/-- The characters that edit the line. -/
def Edits (ch : UInt8) : Prop := ch = ctrlU ∨ ch = ctrlH ∨ ch = delete

/-- What a character typed does: the line is edited, or it grows, or it is committed. -/
structure Typed (ch : UInt8) (c c' : Cons) (q l q' l' : List UInt8) : Prop where
  holds : Holds c' q' l'
  r_eq : c'.r = c.r
  kept : q <+: q'
  /-- Editing commits nothing, and only shortens the line. -/
  edit : Edits ch → q' = q ∧ l' <+: l ∧ c'.buf = c.buf ∧ c'.w = c.w

/-- A character that does not edit is added to the line, or dropped if the buffer is full. -/
lemma Holds.typed_store (h : Holds c q l) {ch : UInt8} (hch : ¬Edits ch) :
    ∃ q' l', Typed ch c (store ch c) q l q' l' := by
  unfold store
  split
  case isFalse =>
    exact ⟨q, l, h, rfl, List.prefix_refl q, fun he => absurd he hch⟩
  case isTrue hroom =>
    have hput := h.put (h.toNat_e_sub_r ▸ hroom.2)
    dsimp only
    generalize (if ch = carriageReturn then newline else ch) = ch'
    specialize hput ch'
    split
    · exact ⟨_, [], hput.commit, rfl, List.prefix_append .., fun he => absurd he hch⟩
    · exact ⟨q, _, hput, rfl, List.prefix_refl q, fun he => absurd he hch⟩

/-- What `consoleintr` does with a character. -/
lemma Holds.typed (h : Holds c q l) (ch : UInt8) :
    ∃ q' l', Typed ch c (consoleintr ch c) q l q' l' := by
  have hsame : Typed ch c c q l q l :=
    ⟨h, rfl, List.prefix_refl q, fun _ => ⟨rfl, List.prefix_refl l, rfl, rfl⟩⟩
  unfold consoleintr
  split
  case isTrue => exact ⟨q, l, hsame⟩
  case isFalse =>
  split
  case isTrue =>
    obtain ⟨l', hpre, hh, hr, hbuf, hw⟩ := h.killLine (c.e - c.w).toNat
    exact ⟨q, l', hh, hr, List.prefix_refl q, fun _ => ⟨rfl, hpre, hbuf, hw⟩⟩
  case isFalse hU =>
  split
  case isTrue =>
    split
    case isFalse => exact ⟨q, l, hsame⟩
    case isTrue hne =>
      have hl : l ≠ [] := fun hl => hne (h.e_eq_w.2 hl)
      exact ⟨q, l.dropLast, h.back hl, rfl, List.prefix_refl q, fun _ =>
        ⟨rfl, List.dropLast_prefix l, rfl, rfl⟩⟩
  case isFalse hback => exact h.typed_store fun he => he.elim hU hback

/-! ## The invariant -/

/-- The characters that call number `id` took. -/
def takenBy (id : ℕ) (taken : List (ℕ × UInt8)) : List UInt8 :=
  (taken.filter fun y => y.1 = id).map Prod.snd

/-- What a call that returned did: it took the characters it returned, or one control-D. Unless it
was killed, it ended because it had as many as it asked for, or a whole line, or because the next
character is a control-D. -/
structure Done.Ok (committed : List UInt8) (taken : List (ℕ × UInt8)) (d : Done) : Prop where
  took : (takenBy d.id taken = d.bytes ∧ ctrlD ∉ d.bytes) ∨
    (takenBy d.id taken = [ctrlD] ∧ d.bytes = [] ∧ d.killed = false)
  ret : d.ret = if d.killed then -1 else (d.bytes.length : ℤ)
  ended : d.killed = false → d.bytes.length = d.target ∨ d.bytes.getLast? = some newline ∨
    takenBy d.id taken = [ctrlD] ∨ (d.bytes ≠ [] ∧ committed[d.pos]? = some ctrlD)

/-- Process `p` is in call `x`. -/
def State.Active (s : State) (p : Slot) (x : Read) : Prop := s.pc p = .loop x ∨ s.pc p = .asleep x

/-- What holds of a call in progress. -/
structure Read.Ok (s : State) (x : Read) : Prop where
  id_lt : x.id < s.calls
  took : takenBy x.id s.taken = x.bytes
  noEof : ctrlD ∉ x.bytes
  count : x.n + x.bytes.length = x.target
  not_done : ∀ d ∈ s.done, d.id ≠ x.id

structure Inv (s : State) : Prop where
  ring : ∃ q l, Holds s.cons q l ∧ s.committed = s.taken.map Prod.snd ++ q
  id_lt : ∀ y ∈ s.taken, y.1 < s.calls
  reads : ∀ p x, s.Active p x → x.Ok s
  apart : ∀ p p' x x', s.Active p x → s.Active p' x' → x.id = x'.id → p = p'
  done_lt : ∀ d ∈ s.done, d.id < s.calls
  done : ∀ d ∈ s.done, d.Ok s.committed s.taken
  ids : (s.done.map Done.id).Nodup

variable {s s' : State} {p : Slot} {x : Read} {t : List UInt8}

lemma takenBy_append (id : ℕ) (t t' : List (ℕ × UInt8)) :
    takenBy id (t ++ t') = takenBy id t ++ takenBy id t' := by
  rw [takenBy, List.filter_append, List.map_append, takenBy, takenBy]

lemma takenBy_tag (id : ℕ) (bs : List UInt8) : takenBy id (bs.map fun b => (id, b)) = bs := by
  simp [takenBy, List.filter_map, comp_def]

lemma takenBy_tag_of_ne {id id' : ℕ} (h : id' ≠ id) (bs : List UInt8) :
    takenBy id (bs.map fun b => (id', b)) = [] := by
  simp [takenBy, List.filter_map, comp_def, h]

/-- A call that has returned stays right. -/
lemma Done.Ok.mono {committed committed' : List UInt8} {taken taken' : List (ℕ × UInt8)} {d : Done}
    (h : d.Ok committed taken) (hc : committed <+: committed')
    (ht : takenBy d.id taken' = takenBy d.id taken) : d.Ok committed' taken' where
  took := ht.symm ▸ h.took
  ret := h.ret
  ended hk := by
    rw [ht]
    refine (h.ended hk).imp_right (Or.imp_right (Or.imp_right fun hd => ⟨hd.1, ?_⟩))
    obtain ⟨more, rfl⟩ := hc
    rw [List.getElem?_append_left (List.getElem?_eq_some_iff.1 hd.2).1]
    exact hd.2

/-- Call `x` of process `p` took the characters `t`: what holds of everything else. -/
structure Moved (s s' : State) (p : Slot) (x : Read) (t : List UInt8) : Prop where
  ring : ∃ q l, Holds s'.cons q l ∧ s'.committed = s'.taken.map Prod.snd ++ q
  taken : s'.taken = s.taken ++ t.map fun b => (x.id, b)
  calls : s'.calls = s.calls
  committed : s'.committed = s.committed
  others : ∀ p', p' ≠ p → s'.pc p' = s.pc p'

lemma Moved.takenBy_of_ne (h : Moved s s' p x t) {id : ℕ} (hid : id ≠ x.id) :
    takenBy id s'.taken = takenBy id s.taken := by
  rw [h.taken, takenBy_append, takenBy_tag_of_ne hid.symm, List.append_nil]

/-- What the call has taken grows by `t`. -/
lemma Moved.takenBy_self (h : Moved s s' p x t) (hx : x.Ok s) :
    takenBy x.id s'.taken = x.bytes ++ t := by
  rw [h.taken, takenBy_append, takenBy_tag, hx.took]

lemma Moved.id_lt (h : Moved s s' p x t) (hinv : Inv s) (hx : x.Ok s) :
    ∀ y ∈ s'.taken, y.1 < s'.calls := by
  intro y hy
  rw [h.taken, List.mem_append] at hy
  rw [h.calls]
  rcases hy with hy | hy
  · exact hinv.id_lt y hy
  · obtain ⟨b, -, rfl⟩ := List.mem_map.1 hy
    exact hx.id_lt

/-- The other calls in progress are those of before, under other numbers. -/
lemma Moved.other (h : Moved s s' p x t) (hinv : Inv s) (hx : s.Active p x) {p' : Slot} {y : Read}
    (hne : p' ≠ p) (hy : s'.Active p' y) : s.Active p' y ∧ y.id ≠ x.id := by
  have hy' : s.Active p' y := by
    unfold State.Active at hy
    rwa [h.others p' hne] at hy
  exact ⟨hy', fun hid => hne (hinv.apart _ _ _ _ hy' hx hid)⟩

lemma Inv.moved (h : Inv s) (p : Slot) (x : Read) : Moved s s p x [] :=
  ⟨h.ring, (List.append_nil _).symm, rfl, rfl, fun _ _ => rfl⟩

/-- The next character is taken. -/
lemma Inv.moved_take (h : Inv s) (p : Slot) (x : Read) (hne : s.cons.r ≠ s.cons.w) :
    Moved s (s.take x) p x [s.cons.at s.cons.r] := by
  obtain ⟨q, l, hh, hc⟩ := h.ring
  obtain ⟨q', hq, hh'⟩ := hh.head fun hq => hne (hh.r_eq_w.2 hq)
  refine ⟨⟨q', l, hh', ?_⟩, rfl, rfl, rfl, fun _ _ => rfl⟩
  show s.committed = (s.taken ++ [(x.id, s.cons.at s.cons.r)]).map Prod.snd ++ q'
  rw [hc, List.map_append, List.append_assoc, hq]
  rfl

lemma Moved.goto (h : Moved s s' p x t) (pc : Pc) : Moved s (s'.goto p pc) p x t :=
  { h with others := fun p' hp => (update_of_ne hp ..).trans (h.others p' hp) }

lemma goto_pc (s : State) (p : Slot) (pc : Pc) : (s.goto p pc).pc p = pc := update_self ..

lemma ret_pc (s : State) (p : Slot) (x : Read) (k : Bool) : (s.ret p x k).pc p = .out :=
  goto_pc ..

lemma Moved.ret (h : Moved s s' p x t) (y : Read) (k : Bool) : Moved s (s'.ret p y k) p x t :=
  ⟨h.ring, h.taken, h.calls, h.committed, (h.goto .out).others⟩

/-- The call of `p` goes on, as `z`. -/
lemma Moved.active (h : Moved s s' p x t) (hinv : Inv s) (hx : s.Active p x)
    (hdone : s'.done = s.done) (z : Read) (hact : ∀ y, s'.Active p y → y = z) (hid : z.id = x.id)
    (hbytes : z.bytes = x.bytes ++ t) (hnoEof : ctrlD ∉ z.bytes)
    (hcount : z.n + z.bytes.length = z.target) : Inv s' := by
  have hxok := hinv.reads p x hx
  refine ⟨h.ring, h.id_lt hinv hxok, fun p' y hy => ?_, fun p₁ p₂ y₁ y₂ hy₁ hy₂ heq => ?_,
    fun d hd => ?_, fun d hd => ?_, hdone ▸ hinv.ids⟩
  · by_cases hp : p' = p
    · subst hp
      rw [hact y hy]
      refine ⟨by rw [h.calls, hid]; exact hxok.id_lt, by rw [hid, h.takenBy_self hxok, hbytes],
        hnoEof, hcount, fun d hd => ?_⟩
      rw [hid]
      exact hxok.not_done d (hdone ▸ hd)
    · obtain ⟨hy', hne⟩ := h.other hinv hx hp hy
      have hok := hinv.reads p' y hy'
      refine ⟨h.calls ▸ hok.id_lt, ?_, hok.noEof, hok.count,
        fun d hd => hok.not_done d (hdone ▸ hd)⟩
      rw [h.takenBy_of_ne hne, hok.took]
  · by_cases hp₁ : p₁ = p <;> by_cases hp₂ : p₂ = p
    · rw [hp₁, hp₂]
    · subst hp₁
      rw [hact y₁ hy₁, hid] at heq
      exact absurd heq.symm (h.other hinv hx hp₂ hy₂).2
    · subst hp₂
      rw [hact y₂ hy₂, hid] at heq
      exact absurd heq (h.other hinv hx hp₁ hy₁).2
    · exact hinv.apart _ _ _ _ (h.other hinv hx hp₁ hy₁).1 (h.other hinv hx hp₂ hy₂).1 heq
  · rw [hdone] at hd
    rw [h.calls]
    exact hinv.done_lt d hd
  · rw [hdone] at hd
    exact (hinv.done d hd).mono (h.committed ▸ List.prefix_refl _)
      (h.takenBy_of_ne (hxok.not_done d hd))

/-- The call of `p` returns. -/
lemma Moved.returned (h : Moved s s' p x t) (hinv : Inv s) (hx : s.Active p x) {d : Done}
    (hdone : s'.done = s.done ++ [d]) (hact : ∀ y, ¬s'.Active p y) (hid : d.id = x.id)
    (hok : d.Ok s'.committed s'.taken) : Inv s' := by
  have hxok := hinv.reads p x hx
  refine ⟨h.ring, h.id_lt hinv hxok, fun p' y hy => ?_, fun p₁ p₂ y₁ y₂ hy₁ hy₂ heq => ?_,
    fun d' hd => ?_, fun d' hd => ?_, ?_⟩
  · have hp : p' ≠ p := fun hp => hact y (hp ▸ hy)
    obtain ⟨hy', hne⟩ := h.other hinv hx hp hy
    have hyok := hinv.reads p' y hy'
    refine ⟨h.calls ▸ hyok.id_lt, ?_, hyok.noEof, hyok.count, fun d' hd => ?_⟩
    · rw [h.takenBy_of_ne hne, hyok.took]
    · rw [hdone, List.mem_append, List.mem_singleton] at hd
      rcases hd with hd | rfl
      · exact hyok.not_done d' hd
      · exact fun heq => hne (heq.symm.trans hid)
  · have hp₁ : p₁ ≠ p := fun hp => hact y₁ (hp ▸ hy₁)
    have hp₂ : p₂ ≠ p := fun hp => hact y₂ (hp ▸ hy₂)
    exact hinv.apart _ _ _ _ (h.other hinv hx hp₁ hy₁).1 (h.other hinv hx hp₂ hy₂).1 heq
  · rw [hdone, List.mem_append, List.mem_singleton] at hd
    rw [h.calls]
    rcases hd with hd | rfl
    · exact hinv.done_lt d' hd
    · rw [hid]
      exact hxok.id_lt
  · rw [hdone, List.mem_append, List.mem_singleton] at hd
    rcases hd with hd | rfl
    · exact (hinv.done d' hd).mono (h.committed ▸ List.prefix_refl _)
        (h.takenBy_of_ne (hxok.not_done d' hd))
    · exact hok
  · rw [hdone, List.map_append, List.map_singleton]
    refine List.nodup_append.2 ⟨hinv.ids, List.nodup_singleton _, fun a ha b hb => ?_⟩
    obtain ⟨d', hd', rfl⟩ := List.mem_map.1 ha
    rw [List.mem_singleton.1 hb, hid]
    exact hxok.not_done d' hd'

/-- A return, with what it takes for the invariant. -/
lemma Moved.inv_ret {y : Read} {k : Bool} (h : Moved s s' p x t) (hinv : Inv s) (hx : s.Active p x)
    (hdone : s'.done = s.done) (hid : y.id = x.id)
    (hok : Done.Ok s'.committed s'.taken ⟨y.id, y.target, y.bytes, k,
      if k then -1 else (y.target : ℤ) - y.n, s'.taken.length⟩) : Inv (s'.ret p y k) := by
  refine (h.ret y k).returned hinv hx (d := ⟨y.id, y.target, y.bytes, k,
    if k then -1 else (y.target : ℤ) - y.n, s'.taken.length⟩) ?_ (fun z hz => ?_) hid hok
  · show s'.done ++ [_] = _
    rw [hdone]
  · unfold State.Active at hz
    rw [ret_pc] at hz
    simp at hz

/-- One iteration of the loop of `consoleread`. -/
lemma Inv.consoleread (h : Inv s) (hx : s.pc p = .loop x) (killed : Bool) :
    Inv (consoleread p x killed s) := by
  have hact : s.Active p x := .inl hx
  have hok := h.reads p x hact
  have hcount := hok.count
  -- what is returned is what was taken
  have htook : takenBy x.id s.taken = x.bytes ∧ ctrlD ∉ x.bytes := ⟨hok.took, hok.noEof⟩
  unfold Console.consoleread
  split
  case isTrue hn =>
    refine (h.moved p x).inv_ret h hact rfl rfl ⟨.inl htook, ?_, fun _ => .inl ?_⟩
    · simp only [Bool.false_eq_true, if_false]
      omega
    · dsimp only
      omega
  case isFalse hn =>
  split
  case isTrue =>
    split
    · exact (h.moved p x).inv_ret h hact rfl rfl ⟨.inl htook, rfl, fun hk => absurd hk (by simp)⟩
    · have hm := (h.moved p x).goto (.asleep x)
      refine Moved.active ⟨hm.ring, hm.taken, hm.calls, hm.committed, hm.others⟩ h hact rfl x
        (fun y hy => ?_) rfl (List.append_nil _).symm hok.noEof hcount
      unfold State.Active at hy
      dsimp only at hy
      rw [goto_pc] at hy
      simpa [eq_comm] using hy
  case isFalse hne =>
  have hm := h.moved_take p x hne
  have hself := hm.takenBy_self hok
  generalize hc : s.cons.at s.cons.r = c at hm hself
  dsimp only
  split
  case isTrue heof =>
    subst heof
    split
    case isTrue hlt =>
      -- the character stays in the buffer
      refine (h.moved p x).inv_ret h hact rfl rfl ⟨.inl htook, ?_, fun _ => ?_⟩
      · simp only [Bool.false_eq_true, if_false]
        omega
      · refine .inr (.inr (.inr ⟨fun hnil => ?_, ?_⟩))
        · dsimp only at hnil
          rw [hnil, List.length_nil] at hcount
          omega
        · obtain ⟨q, l, hh, hcom⟩ := h.ring
          obtain ⟨q', hq, -⟩ := hh.head fun hq => hne (hh.r_eq_w.2 hq)
          dsimp only
          rw [hcom, List.getElem?_append_right (by simp), List.length_map, Nat.sub_self, hq, hc]
          rfl
    case isFalse hlt =>
      have hnil : x.bytes = [] := List.eq_nil_of_length_eq_zero (by omega)
      rw [hnil, List.nil_append] at hself
      refine hm.inv_ret h hact rfl rfl ⟨.inr ⟨hself, hnil, rfl⟩, ?_, fun _ =>
        .inr (.inr (.inl hself))⟩
      simp only [Bool.false_eq_true, if_false]
      omega
  case isFalse hneof =>
    have hnoEof : ctrlD ∉ x.bytes ++ [c] := by
      rw [List.mem_append, List.mem_singleton, not_or]
      exact ⟨hok.noEof, fun heq => hneof heq.symm⟩
    split
    case isTrue hline =>
      refine hm.inv_ret h hact rfl rfl ⟨.inl ⟨hself, hnoEof⟩, ?_, fun _ => .inr (.inl ?_)⟩
      · simp only [Bool.false_eq_true, if_false, List.length_append, List.length_singleton]
        omega
      · dsimp only
        rw [List.getLast?_concat, hline]
    case isFalse =>
      refine (hm.goto _).active h hact rfl ⟨x.id, x.target, x.n - 1, x.bytes ++ [c]⟩
        (fun y hy => ?_) rfl rfl hnoEof ?_
      · unfold State.Active at hy
        rw [goto_pc] at hy
        simpa [eq_comm] using hy
      · dsimp only
        rw [List.length_append, List.length_singleton]
        omega

/-- An interrupt with a character. -/
lemma Inv.intr (h : Inv s) (ch : UInt8) (hc : c = consoleintr ch s.cons) :
    Inv { s with
      cons := c
      committed := s.committed ++
        (⟨c.buf, s.cons.w, c.w⟩ : Fifo UInt8 32 INPUT_BUF_SIZE).contents } := by
  obtain ⟨q, l, hh, hcom⟩ := h.ring
  obtain ⟨q', l', ht⟩ := hh.typed ch
  rw [← hc] at ht
  have hnew : (⟨c.buf, s.cons.w, c.w⟩ : Fifo UInt8 32 INPUT_BUF_SIZE).contents =
      q'.drop q.length :=
    ht.holds.committed (by rw [hh.w_eq, ht.r_eq]) ht.kept.length_le
  refine ⟨⟨q', l', ht.holds, ?_⟩, h.id_lt, fun p x hx => ?_, h.apart, h.done_lt, fun d hd => ?_,
    h.ids⟩
  · obtain ⟨more, rfl⟩ := ht.kept
    dsimp only
    rw [hcom, hnew, List.drop_left, List.append_assoc]
  · exact ⟨(h.reads p x hx).id_lt, (h.reads p x hx).took, (h.reads p x hx).noEof,
      (h.reads p x hx).count, (h.reads p x hx).not_done⟩
  · exact (h.done d hd).mono (List.prefix_append ..) rfl

/-- A new call of `consoleread`. -/
lemma Inv.call (h : Inv s) (hp : s.pc p = .out) (n : ℕ) :
    Inv { s.goto p (.loop ⟨s.calls, n, n, []⟩) with
      lock := some p
      calls := s.calls + 1 } := by
  generalize hs' : ({ s.goto p (.loop ⟨s.calls, n, n, []⟩) with
    lock := some p, calls := s.calls + 1 } : State) = s'
  have hself : ∀ y, s'.Active p y → y = ⟨s.calls, n, n, []⟩ := by
    intro y hy
    unfold State.Active at hy
    rw [← hs'] at hy
    dsimp only at hy
    rw [goto_pc] at hy
    simpa [eq_comm] using hy
  have hother : ∀ q y, q ≠ p → s'.Active q y → s.Active q y := by
    intro q y hq hy
    unfold State.Active at hy
    rw [← hs'] at hy
    rwa [show (s.goto p _).pc q = s.pc q from update_of_ne hq ..] at hy
  have hnew : takenBy s.calls s.taken = [] := by
    rw [takenBy, List.map_eq_nil_iff, List.filter_eq_nil_iff]
    intro y hy
    have := h.id_lt y hy
    simp
    omega
  have hsame : s'.taken = s.taken ∧ s'.done = s.done ∧ s'.calls = s.calls + 1 ∧
      s'.committed = s.committed ∧ s'.cons = s.cons := by
    rw [← hs']
    exact ⟨rfl, rfl, rfl, rfl, rfl⟩
  obtain ⟨htaken, hdone, hcalls, hcom, hcons⟩ := hsame
  refine ⟨by rw [hcons, hcom, htaken]; exact h.ring, fun y hy => ?_, fun q y hy => ?_,
    fun q q' y y' hy hy' heq => ?_, fun d hd => ?_, fun d hd => ?_, hdone ▸ h.ids⟩
  · have := h.id_lt y (htaken ▸ hy)
    omega
  · by_cases hq : q = p
    · subst hq
      rw [hself y hy]
      refine ⟨by rw [hcalls]; exact Nat.lt_succ_self _, by rw [htaken, hnew], by simp, rfl,
        fun d hd => ?_⟩
      rw [hdone] at hd
      exact (h.done_lt d hd).ne
    · have hok := h.reads q y (hother q y hq hy)
      refine ⟨?_, htaken ▸ hok.took, hok.noEof, hok.count, hdone ▸ hok.not_done⟩
      have := hok.id_lt
      omega
  · by_cases hq : q = p <;> by_cases hq' : q' = p
    · rw [hq, hq']
    · subst hq
      have := (h.reads q' y' (hother q' y' hq' hy')).id_lt
      rw [hself y hy] at heq
      dsimp only at heq
      omega
    · subst hq'
      have := (h.reads q y (hother q y hq hy)).id_lt
      rw [hself y' hy'] at heq
      dsimp only at heq
      omega
    · exact h.apart _ _ _ _ (hother q y hq hy) (hother q' y' hq' hy') heq
  · have := h.done_lt d (hdone ▸ hd)
    omega
  · rw [hcom, htaken]
    exact h.done d (hdone ▸ hd)

lemma Inv.wake (h : Inv s) (hp : s.pc p = .asleep x) :
    Inv { s.goto p (.loop x) with lock := some p } := by
  have hact : ∀ q y, ({ s.goto p (.loop x) with lock := some p } : State).Active q y →
      s.Active q y := by
    intro q y hy
    unfold State.Active at hy ⊢
    dsimp only at hy
    by_cases hq : q = p
    · subst hq
      rw [goto_pc] at hy
      rw [hp]
      simpa using hy
    · rwa [show (s.goto p _).pc q = s.pc q from update_of_ne hq ..] at hy
  refine ⟨h.ring, h.id_lt, fun q y hy => ?_, fun q q' y y' hy hy' heq => ?_, h.done_lt, h.done,
    h.ids⟩
  · have hok := h.reads q y (hact q y hy)
    exact ⟨hok.id_lt, hok.took, hok.noEof, hok.count, hok.not_done⟩
  · exact h.apart _ _ _ _ (hact q y hy) (hact q' y' hy') heq

/-- Every step keeps the invariant. -/
lemma Inv.step (h : Inv s) {a : Act} (hs : step a s = some s') : Inv s' := by
  cases a with
  | intr ch =>
    simp only [Console.step] at hs
    split at hs
    · cases hs
      exact h.intr ch rfl
    · cases hs
  | call p n =>
    simp only [Console.step] at hs
    split at hs
    case h_1 hp =>
      split at hs
      · cases hs
        exact h.call hp n.toInt.toNat
      · cases hs
    case h_2 => cases hs
  | loop p killed =>
    simp only [Console.step] at hs
    split at hs
    case h_1 x hx =>
      cases hs
      exact h.consoleread hx killed
    case h_2 => cases hs
  | wake p =>
    simp only [Console.step] at hs
    split at hs
    case h_1 x hp =>
      split at hs
      · cases hs
        exact h.wake hp
      · cases hs
    case h_2 => cases hs

lemma init_inv : Inv init := by
  have hnone : ∀ p x, ¬init.Active p x := by
    intro p x h
    rcases h with h | h <;> cases h
  refine ⟨⟨[], [], ⟨?_, by decide, rfl⟩, rfl⟩, fun y hy => ?_, fun p x hx => absurd hx (hnone p x),
    fun p _ x _ hx => absurd hx (hnone p x), fun d hd => ?_, fun d hd => ?_, List.nodup_nil⟩
  · decide
  all_goals simp [init] at *

lemma Reachable.inv (h : Reachable s) : Inv s :=
  preserved (fun _ _ hi ⟨_, hs⟩ => hi.step hs) init_inv h

/-! ## The line discipline -/

/-- What holds whenever the lock is free, and at every step of a reader. -/
structure Discipline (s : State) : Prop where
  /-- The indices, modulo `2 ^ 32`. -/
  indices : (s.cons.e - s.cons.w).toNat ≤ (s.cons.e - s.cons.r).toNat ∧
    (s.cons.e - s.cons.r).toNat ≤ INPUT_BUF_SIZE
  /-- The characters taken by readers, followed by those from `r` to `w` in the buffer, are the
  committed ones, in order. -/
  order : s.taken.map Prod.snd ++
    (⟨s.cons.buf, s.cons.r, s.cons.w⟩ : Fifo UInt8 32 INPUT_BUF_SIZE).contents = s.committed
  /-- Every call that returned accounts for the characters it took. -/
  calls : ∀ d ∈ s.done, d.Ok s.committed s.taken
  /-- The calls have different numbers. -/
  ids : (s.done.map Done.id).Nodup
  /-- Editing removes characters between `w` and `e` only. -/
  edit : ∀ ch, Edits ch → (consoleintr ch s.cons).buf = s.cons.buf ∧
    (consoleintr ch s.cons).r = s.cons.r ∧ (consoleintr ch s.cons).w = s.cons.w ∧
    ((consoleintr ch s.cons).e - s.cons.w).toNat ≤ (s.cons.e - s.cons.w).toNat
  /-- Committing appends to what was committed, and changes none of it. -/
  commit : ∀ ch, (⟨s.cons.buf, s.cons.r, s.cons.w⟩ : Fifo UInt8 32 INPUT_BUF_SIZE).contents <+:
    (⟨(consoleintr ch s.cons).buf, (consoleintr ch s.cons).r, (consoleintr ch s.cons).w⟩ :
      Fifo UInt8 32 INPUT_BUF_SIZE).contents

/-- The line discipline holds in every state of every run. -/
theorem line_discipline (hs : Reachable s) : Discipline s := by
  have h := hs.inv
  obtain ⟨q, l, hh, hcom⟩ := h.ring
  have hq : ∀ {c : Cons} {q l : List UInt8}, Holds c q l →
      (⟨c.buf, c.r, c.w⟩ : Fifo UInt8 32 INPUT_BUF_SIZE).contents = q := fun hc =>
    hc.committed (k := 0) (BitVec.add_zero _).symm (Nat.zero_le _)
  refine ⟨⟨?_, ?_⟩, ?_, h.done, h.ids, fun ch hch => ?_, fun ch => ?_⟩
  · rw [hh.toNat_e_sub_w, hh.toNat_e_sub_r]
    omega
  · rw [hh.toNat_e_sub_r]
    exact hh.length_le
  · rw [hq hh, hcom]
  · obtain ⟨q', l', ht⟩ := hh.typed ch
    obtain ⟨-, hpre, hbuf, hw⟩ := ht.edit hch
    refine ⟨hbuf, ht.r_eq, hw, ?_⟩
    rw [← hw, ht.holds.toNat_e_sub_w, hw, hh.toNat_e_sub_w]
    exact hpre.length_le
  · obtain ⟨q', l', ht⟩ := hh.typed ch
    rw [hq hh, hq ht.holds]
    exact ht.kept

/-- A line `a`, corrected before it is committed, and a control-D, read by two calls. -/
def session : List Act :=
  [.intr 98, .intr ctrlH, .intr 97, .intr carriageReturn, .call 0 8, .loop 0 false, .loop 0 false,
    .call 0 8, .loop 0 false, .intr ctrlD, .wake 0, .loop 0 false]

theorem line_discipline_session :
    let s := runActs (fun s a => step a s) init session
    s.done.map (fun d => (d.bytes, d.ret)) = [([97, newline], 2), ([], 0)] ∧ Discipline s :=
  ⟨by decide +kernel, line_discipline (runActs_of_mem (fun a _ _ _ hs => ⟨a, hs⟩) _)⟩

end Xv6.Console
