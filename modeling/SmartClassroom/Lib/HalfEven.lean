/-
  Rounding to the nearest integer, ties to the even one.

  `le_roundHalfEven_iff`, `roundHalfEven_le_iff`: an even bound holds of the
  rounded value iff the value is at most one half beyond it.
-/
import Mathlib.Algebra.Order.Floor.Ring
import Mathlib.Algebra.Ring.Int.Parity
import Mathlib.Tactic.Linarith

namespace HalfEven

variable {α : Type} [Field α] [LinearOrder α] [IsStrictOrderedRing α] [FloorRing α]

def roundHalfEven (x : α) : ℤ :=
  if x - ⌊x⌋ < 1 / 2 then ⌊x⌋
  else if 1 / 2 < x - ⌊x⌋ then ⌊x⌋ + 1
  else if Even ⌊x⌋ then ⌊x⌋ else ⌊x⌋ + 1

/-- The result is at most one half away, and even if it is one half away. -/
theorem roundHalfEven_spec (x : α) :
    (roundHalfEven x : α) - 1 / 2 ≤ x ∧ x ≤ roundHalfEven x + 1 / 2 ∧
      (x = roundHalfEven x - 1 / 2 ∨ x = roundHalfEven x + 1 / 2 → Even (roundHalfEven x)) := by
  have hle := Int.floor_le x
  have hlt := Int.lt_floor_add_one x
  unfold roundHalfEven
  split_ifs with hdown hup heven
  · refine ⟨by linarith, by linarith, ?_⟩
    rintro (h | h) <;> linarith
  · push_cast
    refine ⟨by linarith, by linarith, ?_⟩
    rintro (h | h) <;> linarith
  · exact ⟨by linarith, by linarith, fun _ => heven⟩
  · push_cast
    exact ⟨by linarith, by linarith, fun _ => Int.even_add_one.mpr heven⟩

theorem le_roundHalfEven_iff {n : ℤ} (hn : Even n) (x : α) :
    n ≤ roundHalfEven x ↔ (n : α) - 1 / 2 ≤ x := by
  obtain ⟨hlo, hhi, htie⟩ := roundHalfEven_spec x
  constructor
  · intro h
    have : (n : α) ≤ roundHalfEven x := by exact_mod_cast h
    linarith
  · intro h
    have hle : n ≤ roundHalfEven x + 1 := by
      have : (n : α) ≤ roundHalfEven x + 1 := by linarith
      exact_mod_cast this
    rcases hle.lt_or_eq with hlt | heq
    · omega
    · -- the value is half way between the result and `n`, but both would be even
      have hcast : (n : α) = roundHalfEven x + 1 := by exact_mod_cast heq
      have heven := htie (.inr (by linarith))
      rw [heq, Int.even_add_one] at hn
      exact absurd heven hn

theorem roundHalfEven_le_iff {n : ℤ} (hn : Even n) (x : α) :
    roundHalfEven x ≤ n ↔ x ≤ (n : α) + 1 / 2 := by
  obtain ⟨hlo, hhi, htie⟩ := roundHalfEven_spec x
  constructor
  · intro h
    have : (roundHalfEven x : α) ≤ n := by exact_mod_cast h
    linarith
  · intro h
    have hle : roundHalfEven x ≤ n + 1 := by
      have : (roundHalfEven x : α) ≤ n + 1 := by linarith
      exact_mod_cast this
    rcases hle.lt_or_eq with hlt | heq
    · omega
    · have hcast : (roundHalfEven x : α) = n + 1 := by exact_mod_cast heq
      have heven := htie (.inl (by linarith))
      rw [heq, Int.even_add_one] at heven
      exact absurd hn heven

end HalfEven
