import Mathlib.Logic.Function.Basic
import Mathlib.Tactic.Ring

/-!
# `memmove` (`kernel/string.c`, `user/ulib.c`)

Both versions have a loop that copies upwards and one that copies downwards. Upwards is right
if the destination does not start inside the source, downwards if it does not start before it.
The kernel looks for the one overlap that needs the copy downwards, the library copies upwards
only if the source is behind the destination.
-/

namespace Xv6.Move

open Function (update update_of_ne)

/-- The bytes of an address space. -/
abbrev Mem := BitVec 64 → UInt8

/-- `while(n-- > 0) *d++ = *s++`. -/
def copyUp (m : Mem) (d s : BitVec 64) : ℕ → Mem
  | 0 => m
  | n + 1 => copyUp (update m d (m s)) (d + 1) (s + 1) n

/-- `while(n-- > 0) *--d = *--s`. -/
def copyDown (m : Mem) (d s : BitVec 64) : ℕ → Mem
  | 0 => m
  | n + 1 => copyDown (update m (d - 1) (m (s - 1))) (d - 1) (s - 1) n

/-- `memmove` of the kernel, with `uint n`. -/
def Kernel.memmove (m : Mem) (dst src : BitVec 64) (n : BitVec 32) : Mem :=
  if n = 0 then m
  else if src < dst ∧ dst < src + n.setWidth 64 then
    copyDown m (dst + n.setWidth 64) (src + n.setWidth 64) n.toNat
  else copyUp m dst src n.toNat

/-- `memmove` of the library, with `int n`. -/
def User.memmove (m : Mem) (dst src : BitVec 64) (n : BitVec 32) : Mem :=
  if dst < src then copyUp m dst src n.toInt.toNat
  else copyDown m (dst + n.signExtend 64) (src + n.signExtend 64) n.toInt.toNat

/-! ## The loops -/

/-- The memory with `n` bytes at `d` as they were at `s`. -/
def moved (m : Mem) (d s : BitVec 64) (n : ℕ) : Mem :=
  fun a => if (a - d).toNat < n then m (s + (a - d)) else m a

theorem copyUp_eq {m : Mem} {d s : BitVec 64} {n : ℕ} (hd : d.toNat + n ≤ 2 ^ 64)
    (hs : s.toNat + n ≤ 2 ^ 64) (h : d.toNat ≤ s.toNat ∨ s.toNat + n ≤ d.toNat) :
    copyUp m d s n = moved m d s n := by
  induction n generalizing m d s with
  | zero => rfl
  | succ n ih =>
    rw [copyUp, ih (by bv_omega) (by bv_omega) (by bv_omega)]
    funext a
    by_cases ha : a = d
    · have h0 : ¬ (a - (d + 1)).toNat < n := by bv_omega
      have h1 : (a - d).toNat < n + 1 := by bv_omega
      simp only [moved, if_neg h0, if_pos h1]
      simp [ha]
    · have hlt : (a - (d + 1)).toNat < n ↔ (a - d).toNat < n + 1 := by bv_omega
      have hback : s + 1 + (a - (d + 1)) = s + (a - d) := by bv_omega
      simp only [moved, hback, hlt, update_of_ne ha]
      split
      next hk =>
        rw [update_of_ne]
        bv_omega
      next => rfl

theorem copyDown_eq {m : Mem} {d s : BitVec 64} {n : ℕ} (hd : d.toNat + n ≤ 2 ^ 64)
    (hs : s.toNat + n ≤ 2 ^ 64) (h : s.toNat ≤ d.toNat) :
    copyDown m (d + BitVec.ofNat 64 n) (s + BitVec.ofNat 64 n) n = moved m d s n := by
  induction n generalizing m with
  | zero => rfl
  | succ n ih =>
    have hdec (x : BitVec 64) : x + BitVec.ofNat 64 (n + 1) - 1 = x + BitVec.ofNat 64 n := by
      bv_omega
    rw [copyDown, hdec, hdec, ih (by omega) (by omega)]
    funext a
    by_cases ha : a = d + BitVec.ofNat 64 n
    · have h0 : ¬ (a - d).toNat < n := by bv_omega
      have h1 : (a - d).toNat < n + 1 := by bv_omega
      have hback : s + (a - d) = s + BitVec.ofNat 64 n := by bv_omega
      simp only [moved, if_neg h0, if_pos h1, hback]
      simp [ha]
    · have hlt : (a - d).toNat < n + 1 ↔ (a - d).toNat < n := by bv_omega
      simp only [moved, hlt, update_of_ne ha]
      split
      next hk =>
        rw [update_of_ne]
        bv_omega
      next => rfl

/-! ## Both versions -/

/-- The bytes of the destination are those the source had, and the others are unchanged. -/
structure Moved (m m' : Mem) (dst src : BitVec 64) (n : ℕ) : Prop where
  copied : ∀ i < n, m' (dst + BitVec.ofNat 64 i) = m (src + BitVec.ofNat 64 i)
  frame : ∀ a, (∀ i < n, a ≠ dst + BitVec.ofNat 64 i) → m' a = m a

theorem moved_moved {m : Mem} {d s : BitVec 64} {n : ℕ} (hn : n ≤ 2 ^ 64) :
    Moved m (moved m d s n) d s n where
  copied i hi := by
    have h : d + BitVec.ofNat 64 i - d = BitVec.ofNat 64 i := by bv_omega
    have hlt : (BitVec.ofNat 64 i).toNat < n := by bv_omega
    rw [moved, h, if_pos hlt]
  frame a ha := by
    rw [moved, if_neg]
    intro hlt
    exact ha _ hlt (by bv_omega)

/-- `memmove` moves the bytes for every overlap of the two ranges, in the kernel and in the
library. -/
theorem memmove_moved (m : Mem) (dst src : BitVec 64) (n : BitVec 32) :
    (dst.toNat + n.toNat ≤ 2 ^ 64 → src.toNat + n.toNat ≤ 2 ^ 64 →
      Moved m (Kernel.memmove m dst src n) dst src n.toNat) ∧
    (dst.toNat + n.toInt.toNat ≤ 2 ^ 64 → src.toNat + n.toInt.toNat ≤ 2 ^ 64 →
      Moved m (User.memmove m dst src n) dst src n.toInt.toNat) := by
  constructor
  · intro hd hs
    have hn : n.setWidth 64 = BitVec.ofNat 64 n.toNat := by bv_omega
    unfold Kernel.memmove
    split
    next h0 =>
      subst h0
      exact ⟨by simp, fun _ _ => rfl⟩
    next h0 =>
      split
      next h =>
        rw [hn, copyDown_eq hd hs (by bv_omega)]
        exact moved_moved (by omega)
      next h =>
        rw [copyUp_eq hd hs (by bv_omega)]
        exact moved_moved (by omega)
  · intro hd hs
    unfold User.memmove
    split
    next h =>
      rw [copyUp_eq hd hs (by bv_omega)]
      exact moved_moved (by omega)
    next h =>
      rcases Int.lt_or_le n.toInt 0 with hneg | hpos
      · -- A negative length copies nothing.
        rw [Int.toNat_of_nonpos (Int.le_of_lt hneg)]
        exact ⟨by simp, fun _ _ => rfl⟩
      · have hmsb : n.msb = false := by simpa [BitVec.msb_eq_toInt] using hpos
        have hn : n.signExtend 64 = BitVec.ofNat 64 n.toInt.toNat := by
          rw [BitVec.signExtend_eq_setWidth_of_msb_false hmsb, BitVec.toInt_eq_toNat_of_msb hmsb]
          bv_omega
        rw [hn, copyDown_eq hd hs (by bv_omega)]
        exact moved_moved (by omega)

theorem memmove_moved_overlap :
    let m : Mem := fun a => UInt8.ofNat a.toNat
    Moved m (Kernel.memmove m 1 0 3) 1 0 3 ∧ Moved m (User.memmove m 1 0 3) 1 0 3 :=
  ⟨(memmove_moved _ 1 0 3).1 (by decide) (by decide),
    (memmove_moved _ 1 0 3).2 (by decide) (by decide)⟩

end Xv6.Move
