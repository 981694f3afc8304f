import Mathlib.Algebra.Order.Field.Power
import Mathlib.Data.Rat.Cast.Order
import Mathlib.Tactic.FieldSimp
import Mathlib.Tactic.Linarith
import Mathlib.Tactic.NormNum
import Mathlib.Tactic.Positivity
import Mathlib.Tactic.Ring
import Preflight.Decimal.Binary64
/-!
# Rounding to whole numbers

Powers of two and ten with whole exponents, and quotients rounded to the nearest
whole number: a half goes to the even neighbour, so the result is unique
(`Nearest.unique`).
-/

namespace Preflight

/-! ## Powers -/

theorem pow2_pos (n : Nat) : 0 < pow2 n :=
  Nat.pow_pos (by decide)

theorem pow10_pos (n : Nat) : 0 < pow10 n :=
  Nat.pow_pos (by decide)

theorem cast_pow2 (n : Nat) : (pow2 n : ℚ) = 2 ^ n := by
  exact_mod_cast rfl

theorem cast_pow10 (n : Nat) : (pow10 n : ℚ) = 10 ^ n := by
  exact_mod_cast rfl

/-- A power is a quotient of powers whose exponents are natural numbers. -/
theorem zpow_eq_div {b : ℚ} (hb : b ≠ 0) (e : Int) : b ^ e = b ^ e.toNat / b ^ (-e).toNat := by
  rw [← zpow_natCast, ← zpow_natCast, ← zpow_sub₀ hb]
  congr 1
  omega

theorem two_zpow_pos (e : Int) : (0 : ℚ) < 2 ^ e :=
  zpow_pos (by norm_num) e

theorem ten_zpow_pos (e : Int) : (0 : ℚ) < 10 ^ e :=
  zpow_pos (by norm_num) e

theorem zpow_of_eq_add {b : ℚ} (hb : b ≠ 0) {e k : Int} (n : Nat) (h : k = e + n) : b ^ k = b ^ n * b ^ e := by
  rw [h, zpow_add₀ hb, zpow_natCast, mul_comm]

theorem two_zpow_of_eq_add {e k : Int} (n : Nat) (h : k = e + n) : (2 : ℚ) ^ k = 2 ^ n * 2 ^ e :=
  zpow_of_eq_add two_ne_zero n h

theorem ten_zpow_of_eq_add {e k : Int} (n : Nat) (h : k = e + n) : (10 : ℚ) ^ k = (10 ^ n : Nat) * 10 ^ e := by
  rw [Nat.cast_pow, Nat.cast_ofNat]
  exact zpow_of_eq_add (by norm_num) n h

/-- Exponents are ordered as their powers are. -/
theorem lt_of_two_zpow_lt {a b : Int} (h : (2 : ℚ) ^ a < 2 ^ b) : a < b :=
  (zpow_lt_zpow_iff_right₀ (by norm_num)).1 h

theorem ten_zpow_digits {n : Nat} (hn : 0 < n) :
    (10 : ℚ) ^ (((Nat.toDigits 10 n).length : Int) - 1) ≤ n ∧ (n : ℚ) < 10 ^ ((Nat.toDigits 10 n).length : Int) := by
  have hlength : 0 < (Nat.toDigits 10 n).length := List.length_pos_iff.2 Nat.toDigits_ne_nil
  have hhigh := (Nat.length_toDigits_le_iff (n := n) (b := 10) (by decide) hlength).1 (Nat.le_refl _)
  have hlow : 10 ^ ((Nat.toDigits 10 n).length - 1) ≤ n := by
    rcases Nat.eq_zero_or_pos ((Nat.toDigits 10 n).length - 1) with hone | hmore
    · rw [hone]
      exact hn
    · have := mt (Nat.length_toDigits_le_iff (n := n) (b := 10) (by decide) hmore).2 (by omega)
      exact Nat.not_lt.1 this
  constructor
  · rw [show ((Nat.toDigits 10 n).length : Int) - 1 = ((Nat.toDigits 10 n).length - 1 : Nat) by omega, zpow_natCast]
    exact_mod_cast hlow
  · rw [zpow_natCast]
    exact_mod_cast hhigh

namespace Binary64

/-! ## Quotients rounded to whole numbers -/

/-- The whole number is nearest to a number, and even if it is as near as another. -/
def Nearest (w : ℚ) (t : Nat) : Prop :=
  if t % 2 = 0 then (t : ℚ) - 1 / 2 ≤ w ∧ w ≤ t + 1 / 2 else (t : ℚ) - 1 / 2 < w ∧ w < t + 1 / 2

theorem Nearest.of_lt {w : ℚ} {t : Nat} (hlow : (t : ℚ) - 1 / 2 < w) (hhigh : w < t + 1 / 2) : Nearest w t := by
  unfold Nearest
  split
  · exact ⟨hlow.le, hhigh.le⟩
  · exact ⟨hlow, hhigh⟩

theorem Nearest.of_even {w : ℚ} {t : Nat} (ht : t % 2 = 0) (hlow : (t : ℚ) - 1 / 2 ≤ w) (hhigh : w ≤ t + 1 / 2) :
    Nearest w t := by
  rw [Nearest, if_pos ht]
  exact ⟨hlow, hhigh⟩

theorem Nearest.bounds {w : ℚ} {t : Nat} (h : Nearest w t) : (t : ℚ) - 1 / 2 ≤ w ∧ w ≤ t + 1 / 2 := by
  unfold Nearest at h
  split at h
  · exact h
  · exact ⟨h.1.le, h.2.le⟩

/-- Only an even number may be as near as another. -/
theorem Nearest.even_of_eq {w : ℚ} {t : Nat} (h : Nearest w t) (hw : w = t + 1 / 2 ∨ w = t - 1 / 2) : t % 2 = 0 := by
  by_contra hodd
  rw [Nearest, if_neg hodd] at h
  rcases hw with hw | hw
  · exact absurd h.2 (by rw [hw]; exact lt_irrefl _)
  · exact absurd h.1 (by rw [hw]; exact lt_irrefl _)

theorem Nearest.le {w : ℚ} {t u : Nat} (ht : Nearest w t) (hu : Nearest w u) : t ≤ u := by
  by_contra hlt
  have hstep : (u : ℚ) + 1 ≤ t := by exact_mod_cast Nat.not_le.1 hlt
  obtain ⟨hlow, -⟩ := ht.bounds
  obtain ⟨-, hhigh⟩ := hu.bounds
  -- The number lies half way between the two, which are then neighbours and both even.
  have hnext : (t : ℚ) = u + 1 := by linarith
  have hteven := ht.even_of_eq (.inr (by linarith))
  have hueven := hu.even_of_eq (.inl (by linarith))
  have hneighbour : t = u + 1 := by exact_mod_cast hnext
  omega

theorem Nearest.unique {w : ℚ} {t u : Nat} (ht : Nearest w t) (hu : Nearest w u) : t = u :=
  Nat.le_antisymm (ht.le hu) (hu.le ht)

section Division
variable (num : Nat) {den : Nat} (hden : 0 < den)
include hden

theorem ratio_eq_div_add_mod : (num : ℚ) / den = (num / den : Nat) + (num % den : Nat) / den := by
  have hpos : (0 : ℚ) < den := by exact_mod_cast hden
  have hcast : (num : ℚ) = den * (num / den : Nat) + (num % den : Nat) := by exact_mod_cast (Nat.div_add_mod num den).symm
  field_simp
  linarith

theorem mod_ratio_lt_one : ((num % den : Nat) : ℚ) / den < 1 := by
  rw [div_lt_one (by exact_mod_cast hden)]
  exact_mod_cast Nat.mod_lt num hden

theorem mod_ratio_lt_half_iff : ((num % den : Nat) : ℚ) / den < 1 / 2 ↔ 2 * (num % den) < den := by
  rw [div_lt_div_iff₀ (by exact_mod_cast hden) (by norm_num), one_mul, mul_comm]
  exact_mod_cast Iff.rfl

theorem half_lt_mod_ratio_iff : 1 / 2 < ((num % den : Nat) : ℚ) / den ↔ den < 2 * (num % den) := by
  rw [div_lt_div_iff₀ (by norm_num) (by exact_mod_cast hden), one_mul, mul_comm]
  exact_mod_cast Iff.rfl

theorem nearest_divRound : Nearest ((num : ℚ) / den) (divRound num den) := by
  have hrest : (0 : ℚ) ≤ (num % den : Nat) / den := by positivity
  have hrest' := mod_ratio_lt_one num hden
  have hless := mod_ratio_lt_half_iff num hden
  have hmore := half_lt_mod_ratio_iff num hden
  rw [ratio_eq_div_add_mod num hden]
  generalize ((num % den : Nat) : ℚ) / den = rest at hrest hrest' hless hmore ⊢
  unfold divRound
  simp only
  split_ifs with hbelow habove heven
  · have := hless.2 hbelow
    exact .of_lt (by linarith) (by linarith)
  · have := hmore.2 habove
    exact .of_lt (by push_cast; linarith) (by push_cast; linarith)
  · have := not_lt.1 (mt hmore.1 habove)
    exact .of_even heven (by linarith) (by linarith)
  · have := not_lt.1 (mt hless.1 hbelow)
    exact .of_even (by omega) (by push_cast; linarith) (by push_cast; linarith)

end Division

end Binary64

end Preflight
