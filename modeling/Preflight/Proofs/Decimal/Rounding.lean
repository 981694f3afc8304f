import Preflight.Decimal.Shortest
import Preflight.Proofs.Decimal.Nearest
/-!
# Which numbers round to a double

A quotient is rounded on the grid of the doubles of its size, a half to the even
neighbour. So the numbers that round to a double are those of an interval around
it (`ofRatio_eq_finite_iff`), and so are the decimals (`ofDecimal_eq_finite_iff`).
-/

namespace Preflight

namespace Binary64

/-! ## The size of a quotient -/

theorem two_pow_log2 {n : Nat} (hn : 0 < n) : (2 : ℚ) ^ (n.log2 : Int) ≤ n ∧ (n : ℚ) < 2 ^ ((n.log2 : Int) + 1) := by
  constructor
  · rw [zpow_natCast]
    exact_mod_cast Nat.log2_self_le hn.ne'
  · have hcast : ((n.log2 : Int) + 1) = ((n.log2 + 1 : Nat) : Int) := by push_cast; rfl
    rw [hcast, zpow_natCast]
    exact_mod_cast Nat.lt_log2_self

/-- A quotient counted in a power of two, as a quotient of natural numbers. -/
theorem ratio_scaled (num : Nat) {den : Nat} (hden : 0 < den) (e : Int) :
    ((num * pow2 (-e).toNat : Nat) : ℚ) / (den * pow2 e.toNat : Nat) = num / den / 2 ^ e := by
  have hpos : (0 : ℚ) < den := by exact_mod_cast hden
  rw [zpow_eq_div two_ne_zero e]
  push_cast [cast_pow2]
  field_simp

theorem two_zpow_floorLog2Ratio {num den : Nat} (hnum : 0 < num) (hden : 0 < den) :
    (2 : ℚ) ^ floorLog2Ratio num den ≤ num / den ∧ (num : ℚ) / den < 2 ^ (floorLog2Ratio num den + 1) := by
  have hpos : (0 : ℚ) < den := by exact_mod_cast hden
  obtain ⟨hnumlow, hnumhigh⟩ := two_pow_log2 hnum
  obtain ⟨hdenlow, hdenhigh⟩ := two_pow_log2 hden
  generalize he : (num.log2 : Int) - den.log2 = e
  have hlow : (2 : ℚ) ^ (e - 1) ≤ num / den := by
    rw [le_div_iff₀ hpos, ← he, show ((num.log2 : Int) - den.log2 - 1) = num.log2 - (den.log2 + 1) by ring,
      zpow_sub₀ two_ne_zero]
    calc (2 : ℚ) ^ (num.log2 : Int) / 2 ^ ((den.log2 : Int) + 1) * den
        ≤ 2 ^ (num.log2 : Int) / 2 ^ ((den.log2 : Int) + 1) * 2 ^ ((den.log2 : Int) + 1) := by gcongr
      _ = 2 ^ (num.log2 : Int) := div_mul_cancel₀ _ (two_zpow_pos _).ne'
      _ ≤ num := hnumlow
  have hhigh : (num : ℚ) / den < 2 ^ (e + 1) := by
    rw [div_lt_iff₀ hpos, ← he, show ((num.log2 : Int) - den.log2 + 1) = num.log2 + 1 - den.log2 by ring,
      zpow_sub₀ two_ne_zero]
    calc (num : ℚ) < 2 ^ ((num.log2 : Int) + 1) := hnumhigh
      _ = 2 ^ ((num.log2 : Int) + 1) / 2 ^ (den.log2 : Int) * 2 ^ (den.log2 : Int) :=
        (div_mul_cancel₀ _ (two_zpow_pos _).ne').symm
      _ ≤ 2 ^ ((num.log2 : Int) + 1) / 2 ^ (den.log2 : Int) * den := by gcongr
  -- The test compares the quotient with a power of two.
  have htest : den * pow2 e.toNat ≤ num * pow2 (-e).toNat ↔ (2 : ℚ) ^ e ≤ num / den := by
    have hscale : 0 < den * pow2 e.toNat := Nat.mul_pos hden (pow2_pos _)
    rw [← one_le_div (two_zpow_pos e), ← ratio_scaled num hden, one_le_div (by exact_mod_cast hscale)]
    exact Nat.cast_le.symm
  unfold floorLog2Ratio
  simp only [he]
  split_ifs with h
  · exact ⟨htest.1 h, hhigh⟩
  · rw [sub_add_cancel]
    exact ⟨hlow, not_le.1 (mt htest.2 h)⟩

/-! ## The double nearest to a quotient -/

/-- The doubles of the size of a number are `2 ^ q` apart. -/
def Spacing (w : ℚ) (q : Int) : Prop :=
  -1074 ≤ q ∧ w < 2 ^ (q + 53) ∧ ((2 : ℚ) ^ (q + 52) ≤ w ∨ q = -1074)

theorem Spacing.le {w : ℚ} {p q : Int} (hp : Spacing w p) (hq : Spacing w q) : p ≤ q := by
  rcases hp.2.2 with hlow | hleast
  · have := lt_of_two_zpow_lt (hlow.trans_lt hq.2.1)
    omega
  · exact hleast ▸ hq.1

theorem Spacing.unique {w : ℚ} {p q : Int} (hp : Spacing w p) (hq : Spacing w q) : p = q :=
  Int.le_antisymm (hp.le hq) (hq.le hp)

theorem spacing_max {w : ℚ} {e : Int} (hlow : (2 : ℚ) ^ e ≤ w) (hhigh : w < 2 ^ (e + 1)) :
    Spacing w (max (e - 52) (-1074)) := by
  refine ⟨Int.le_max_right .., hhigh.trans_le (zpow_le_zpow_right₀ (by norm_num) (by omega)), ?_⟩
  rcases Int.le_total (e - 52) (-1074) with hle | hle
  · exact .inr (Int.max_eq_right hle)
  · rw [Int.max_eq_left hle, Int.sub_add_cancel]
    exact .inl hlow

/-- A number is rounded on the grid of its spacing, where the last of the numbers may be the first of the next
grid. -/
theorem ofRatio_eq (negative : Bool) {num den : Nat} (hnum : 0 < num) (hden : 0 < den) :
    ∃ q t, Spacing (num / den) q ∧ Nearest (num / den / 2 ^ q) t ∧
      ofRatio negative num den =
        if t = pow2 53 then if 971 < q + 1 then .infinite negative else .finite negative (pow2 52) (q + 1)
        else if 971 < q then .infinite negative else .finite negative t q := by
  obtain ⟨hlow, hhigh⟩ := two_zpow_floorLog2Ratio hnum hden
  have hspacing := spacing_max hlow hhigh
  rw [ofRatio, if_neg hnum.ne']
  generalize max (floorLog2Ratio num den - 52) (-1074) = q at hspacing ⊢
  refine ⟨q, divRound (num * pow2 (-q).toNat) (den * pow2 q.toNat), hspacing, ?_, ?_⟩
  · rw [← ratio_scaled num hden]
    exact nearest_divRound _ (Nat.mul_pos hden (pow2_pos _))
  · simp only
    split_ifs <;> rfl

/-- The parts of a double are within their bounds. -/
def WellFormed : Binary64 → Prop
  | .finite _ s e => s < pow2 53 ∧ -1074 ≤ e ∧ e ≤ 971 ∧ (pow2 52 ≤ s ∨ e = -1074)
  | _ => True

theorem significand_add_one_le {negative : Bool} {s : Nat} {e : Int} (hx : (finite negative s e).WellFormed) :
    (s : ℚ) + 1 ≤ 2 ^ 53 := by
  rw [← cast_pow2]
  exact_mod_cast hx.1

theorem wellFormed_zero (negative : Bool) : (zero negative).WellFormed :=
  ⟨by decide, by decide, by decide, .inr rfl⟩

theorem wellFormed_ofRatio (negative : Bool) (num : Nat) {den : Nat} (hden : 0 < den) :
    (ofRatio negative num den).WellFormed := by
  rcases Nat.eq_zero_or_pos num with rfl | hnum
  · exact wellFormed_zero negative
  · obtain ⟨q, t, ⟨hleast, hhigh, hlow⟩, hnearest, hround⟩ := ofRatio_eq negative hnum hden
    have hbounds := hnearest.bounds
    have ht : t ≤ pow2 53 := by
      have hlt : (num : ℚ) / den / 2 ^ q < 2 ^ 53 := by
        rwa [div_lt_iff₀ (two_zpow_pos q), ← two_zpow_of_eq_add 53 rfl]
      have hcast : (t : ℚ) < (2 ^ 53 + 1 : Nat) := by push_cast; linarith
      exact Nat.lt_succ_iff.1 (by exact_mod_cast hcast)
    have ht' : pow2 52 ≤ t ∨ q = -1074 := by
      refine hlow.imp_left fun hlow => ?_
      have hle : (2 : ℚ) ^ 52 ≤ num / den / 2 ^ q := by
        rwa [le_div_iff₀ (two_zpow_pos q), ← two_zpow_of_eq_add 52 rfl]
      have hcast : ((2 ^ 52 : Nat) : ℚ) < (t + 1 : Nat) := by push_cast; linarith
      exact Nat.lt_succ_iff.1 (by exact_mod_cast hcast)
    rw [hround]
    split_ifs with hnext hfar hfar
    · trivial
    · exact ⟨by decide, by omega, by omega, .inl (Nat.le_refl _)⟩
    · trivial
    · exact ⟨by omega, hleast, by omega, ht'⟩

end Binary64

namespace Decimal.Interval

/-- A number lies in the interval. -/
def Holds (i : Interval) (v : ℚ) : Prop :=
  if i.closed then i.low * (2 : ℚ) ^ i.unit ≤ v ∧ v ≤ i.high * (2 : ℚ) ^ i.unit
  else i.low * (2 : ℚ) ^ i.unit < v ∧ v < i.high * (2 : ℚ) ^ i.unit

theorem Holds.convex {i : Interval} {u v w : ℚ} (hu : i.Holds u) (hw : i.Holds w) (huv : u ≤ v) (hvw : v ≤ w) :
    i.Holds v := by
  unfold Holds at *
  split_ifs at * with hclosed
  · exact ⟨hu.1.trans huv, hvw.trans hw.2⟩
  · exact ⟨hu.1.trans_le huv, hvw.trans_lt hw.2⟩

theorem Holds.bounds {i : Interval} {v : ℚ} (h : i.Holds v) :
    i.low * (2 : ℚ) ^ i.unit ≤ v ∧ v ≤ i.high * (2 : ℚ) ^ i.unit := by
  unfold Holds at h
  split_ifs at h
  · exact h
  · exact ⟨h.1.le, h.2.le⟩

/-- A quarter of the last place. -/
theorem two_zpow_quarter (e : Int) : (2 : ℚ) ^ (e - 2) = 2 ^ e / 4 := by
  rw [zpow_sub₀ two_ne_zero]
  norm_num

/-- Away from the powers of two, the interval is that of the numbers a significand is nearest to. -/
theorem of_holds_iff {s : Nat} {e : Int} (h : ¬(s = pow2 52 ∧ e > -1074)) {w : ℚ} (hw : 0 ≤ w) :
    (Interval.of s e).Holds w ↔ Binary64.Nearest (w / 2 ^ e) s := by
  have hpos := two_zpow_pos e
  unfold Holds Interval.of Binary64.Nearest
  simp only [if_neg h, two_zpow_quarter, le_div_iff₀ hpos, div_le_iff₀ hpos, lt_div_iff₀ hpos, div_lt_iff₀ hpos,
    decide_eq_true_eq]
  have hhigh : ((4 * s + 2 : Nat) : ℚ) * (2 ^ e / 4) = (s + 1 / 2) * 2 ^ e := by
    push_cast
    ring
  rw [hhigh]
  rcases Nat.eq_zero_or_pos s with rfl | hs
  · have hneg : ((0 : Nat) - 1 / 2 : ℚ) * 2 ^ e ≤ w := by
      push_cast
      nlinarith
    have hzero : ((4 * 0 - 2 : Nat) : ℚ) * (2 ^ e / 4) ≤ w := by
      rw [show 4 * 0 - 2 = 0 from rfl, Nat.cast_zero, zero_mul]
      exact hw
    simp only [Nat.zero_mod, if_true, hneg, hzero, true_and]
  · have hlow : ((4 * s - 2 : Nat) : ℚ) * (2 ^ e / 4) = (s - 1 / 2) * 2 ^ e := by
      rw [Nat.cast_sub (by omega)]
      push_cast
      ring
    rw [hlow]

/-- A power of two is nearer to the number below it, except for the least. -/
theorem of_pow_holds_iff {e : Int} (he : e > -1074) {w : ℚ} :
    (Interval.of (pow2 52) e).Holds w ↔ (2 ^ 52 - 1 / 4) * 2 ^ e ≤ w ∧ w ≤ (2 ^ 52 + 1 / 2) * 2 ^ e := by
  have hlow : ((4 * pow2 52 - 1 : Nat) : ℚ) * (2 ^ e / 4) = (2 ^ 52 - 1 / 4) * 2 ^ e := by
    rw [Nat.cast_sub (by decide)]
    push_cast [cast_pow2]
    ring
  have hhigh : ((4 * pow2 52 + 2 : Nat) : ℚ) * (2 ^ e / 4) = (2 ^ 52 + 1 / 2) * 2 ^ e := by
    push_cast [cast_pow2]
    ring
  unfold Holds Interval.of
  have heven : pow2 52 % 2 = 0 := rfl
  simp only [true_and, if_pos he, two_zpow_quarter, hlow, hhigh, heven, decide_true, if_true]

end Decimal.Interval

namespace Binary64

open Decimal (Interval)

theorem holds_of_nearest {w : ℚ} (hw : 0 < w) {q : Int} {t : Nat} (hspacing : Spacing w q)
    (hnearest : Nearest (w / 2 ^ q) t) : (Interval.of t q).Holds w := by
  by_cases hpow : t = pow2 52 ∧ q > -1074
  · obtain ⟨rfl, hq⟩ := hpow
    have hlow : (2 : ℚ) ^ 52 * 2 ^ q ≤ w := by
      rw [← two_zpow_of_eq_add 52 rfl]
      exact hspacing.2.2.resolve_right (by omega)
    have hhigh : w ≤ (2 ^ 52 + 1 / 2) * 2 ^ q := by
      rw [← div_le_iff₀ (two_zpow_pos q), ← cast_pow2]
      exact hnearest.bounds.2
    exact (Interval.of_pow_holds_iff hq).2 ⟨by linarith [two_zpow_pos q], hhigh⟩
  · exact (Interval.of_holds_iff hpow hw.le).2 hnearest

/-- The number after the last of a grid is the first of the next. -/
theorem holds_of_nearest_next {w : ℚ} {q : Int} (hspacing : Spacing w q) (hnearest : Nearest (w / 2 ^ q) (pow2 53)) :
    (Interval.of (pow2 52) (q + 1)).Holds w := by
  have hpos := two_zpow_pos q
  have hdouble : (2 : ℚ) ^ (q + 1) = 2 ^ q * 2 := zpow_add_one₀ two_ne_zero q
  have hlow : (2 ^ 53 - 1 / 2) * 2 ^ q ≤ w := by
    rw [← le_div_iff₀ hpos, ← cast_pow2]
    exact hnearest.bounds.1
  have hhigh : w < 2 ^ 53 * 2 ^ q := by
    rw [← two_zpow_of_eq_add 53 rfl]
    exact hspacing.2.1
  rw [Interval.of_pow_holds_iff (by have := hspacing.1; omega), hdouble]
  constructor <;> linarith

/-- A number that rounds to a power of two lies on its grid, or just below it on the finer one. -/
theorem nearest_of_holds_pow {w : ℚ} {e : Int} (he : e > -1074) (h : (Interval.of (pow2 52) e).Holds w) :
    (Spacing w e ∧ Nearest (w / 2 ^ e) (pow2 52)) ∨ (Spacing w (e - 1) ∧ Nearest (w / 2 ^ (e - 1)) (pow2 53)) := by
  have hpos := two_zpow_pos e
  have hhalf : (2 : ℚ) ^ (e - 1) = 2 ^ e / 2 := by rw [zpow_sub₀ two_ne_zero, zpow_one]
  obtain ⟨hlow, hhigh⟩ := (Interval.of_pow_holds_iff he).1 h
  rcases le_or_gt ((2 : ℚ) ^ (e + 52)) w with hle | hlt
  · refine .inl ⟨⟨by omega, ?_, .inl hle⟩, .of_even rfl ?_ ?_⟩
    · rw [two_zpow_of_eq_add (e := e) 53 (by rfl)]
      linarith
    · rw [le_div_iff₀ hpos, cast_pow2]
      linarith
    · rwa [div_le_iff₀ hpos, cast_pow2]
  · rw [two_zpow_of_eq_add (e := e) 52 (by rfl)] at hlt
    refine .inr ⟨⟨by omega, ?_, .inl ?_⟩, .of_even rfl ?_ ?_⟩
    · rw [two_zpow_of_eq_add (e := e) 52 (by omega)]
      exact hlt
    · rw [two_zpow_of_eq_add (e := e) 51 (by omega)]
      linarith
    · rw [hhalf, le_div_iff₀ (by linarith), cast_pow2]
      linarith
    · rw [hhalf, div_le_iff₀ (by linarith), cast_pow2]
      linarith

/-- A number of an interval lies on the grid of the double, or just below it on the finer one. -/
theorem nearest_of_holds {w : ℚ} (hw : 0 < w) {negative : Bool} {s : Nat} {e : Int}
    (hx : (finite negative s e).WellFormed) (h : (Interval.of s e).Holds w) :
    (Spacing w e ∧ Nearest (w / 2 ^ e) s) ∨
      (s = pow2 52 ∧ Spacing w (e - 1) ∧ Nearest (w / 2 ^ (e - 1)) (pow2 53)) := by
  have hs := significand_add_one_le hx
  obtain ⟨-, hleast, -, hsize⟩ := hx
  have hpos := two_zpow_pos e
  by_cases hpow : s = pow2 52 ∧ e > -1074
  · obtain ⟨rfl, he⟩ := hpow
    exact (nearest_of_holds_pow he h).imp_right fun hfiner => ⟨rfl, hfiner⟩
  · have hnearest := (Interval.of_holds_iff hpow hw.le).1 h
    obtain ⟨hlow, hhigh⟩ := hnearest.bounds
    rw [le_div_iff₀ hpos] at hlow
    rw [div_le_iff₀ hpos] at hhigh
    refine .inl ⟨⟨hleast, ?_, ?_⟩, hnearest⟩
    · rw [two_zpow_of_eq_add (e := e) 53 (by rfl)]
      nlinarith
    · rcases hsize with hsize | hsize
      · by_cases he : e = -1074
        · exact .inr he
        · have hlow' : (2 : ℚ) ^ 52 + 1 ≤ s := by
            rw [← cast_pow2]
            exact_mod_cast (by omega : pow2 52 + 1 ≤ s)
          refine .inl ?_
          rw [two_zpow_of_eq_add (e := e) 52 (by rfl)]
          nlinarith
      · exact .inr hsize

/-- The numbers of an interval are those that round to its double. -/
theorem ofRatio_eq_finite_iff {negative : Bool} {s : Nat} {e : Int} (hx : (finite negative s e).WellFormed)
    {num den : Nat} (hnum : 0 < num) (hden : 0 < den) :
    ofRatio negative num den = .finite negative s e ↔ (Interval.of s e).Holds (num / den) := by
  have hnum' : (0 : ℚ) < num := by exact_mod_cast hnum
  have hden' : (0 : ℚ) < den := by exact_mod_cast hden
  have hw : (0 : ℚ) < num / den := div_pos hnum' hden'
  obtain ⟨q, t, hspacing, hnearest, hround⟩ := ofRatio_eq negative hnum hden
  rw [hround]
  constructor
  · intro h
    split_ifs at h with hnext hfar hfar
    · cases h
      exact holds_of_nearest_next hspacing (hnext ▸ hnearest)
    · cases h
      exact holds_of_nearest hw hspacing hnearest
  · intro h
    rcases nearest_of_holds hw hx h with ⟨hspacing', hnearest'⟩ | ⟨rfl, hspacing', hnearest'⟩
    · obtain rfl := hspacing.unique hspacing'
      obtain rfl := hnearest.unique hnearest'
      rw [if_neg hx.1.ne, if_neg (by have := hx.2.2.1; omega)]
    · obtain rfl := hspacing.unique hspacing'
      obtain rfl := hnearest.unique hnearest'
      rw [if_pos rfl, if_neg (by have := hx.2.2.1; omega), Int.sub_add_cancel]

/-! ## The double nearest to a decimal -/

theorem two_zpow_le_ten_zpow : (2 : ℚ) ^ (1024 : Int) ≤ 10 ^ (310 : Int) := by
  have hpow : 2 ^ 1024 ≤ 10 ^ 310 := by decide +kernel
  exact_mod_cast hpow

theorem ten_zpow_le_two_zpow : (10 : ℚ) ^ (-330 : Int) ≤ 2 ^ (-1075 : Int) := by
  have hpow : 2 ^ 1075 ≤ 10 ^ 330 := by decide +kernel
  rw [zpow_neg, zpow_neg]
  exact inv_anti₀ (two_zpow_pos _) (by exact_mod_cast hpow)

/-- The numbers that round to a double are neither too large nor, unless it is zero, too small. -/
theorem bounds_of_holds {negative : Bool} {s : Nat} {e : Int} (hx : (finite negative s e).WellFormed) {v : ℚ}
    (h : (Interval.of s e).Holds v) : v < 2 ^ (1024 : Int) ∧ (0 < s → (2 : ℚ) ^ (-1075 : Int) ≤ v) := by
  have hs := significand_add_one_le hx
  obtain ⟨-, hleast, hmost, -⟩ := hx
  obtain ⟨hlow, hhigh⟩ := h.bounds
  have hunit : (2 : ℚ) ^ (Interval.of s e).unit = 2 ^ e / 4 := Interval.two_zpow_quarter e
  rw [hunit] at hlow hhigh
  constructor
  · have hhigh' : ((Interval.of s e).high : ℚ) = 4 * s + 2 := by
      show ((4 * s + 2 : Nat) : ℚ) = 4 * s + 2
      push_cast
      rfl
    have hnonneg : (0 : ℚ) ≤ s + 1 / 2 := by positivity
    have hgrid : (2 : ℚ) ^ e ≤ 2 ^ (971 : Int) := zpow_le_zpow_right₀ (by norm_num) hmost
    calc v ≤ (s + 1 / 2) * 2 ^ e := by rw [hhigh'] at hhigh; linarith
      _ ≤ (s + 1 / 2) * 2 ^ (971 : Int) := mul_le_mul_of_nonneg_left hgrid hnonneg
      _ < 2 ^ 53 * 2 ^ (971 : Int) := mul_lt_mul_of_pos_right (by linarith) (two_zpow_pos _)
      _ = 2 ^ (1024 : Int) := (two_zpow_of_eq_add 53 (by rfl)).symm
  · intro hpos
    have hlow' : 2 ≤ (Interval.of s e).low := by
      show 2 ≤ 4 * s - (if s = pow2 52 ∧ e > -1074 then 1 else 2)
      split_ifs <;> omega
    have hgrid : (2 : ℚ) ^ (-1074 : Int) ≤ 2 ^ e := zpow_le_zpow_right₀ (by norm_num) hleast
    calc (2 : ℚ) ^ (-1075 : Int) = (2 : Nat) * (2 ^ (-1074 : Int) / 4) := by
          rw [two_zpow_of_eq_add (e := -1075) (k := -1074) 1 (by rfl), Nat.cast_ofNat, pow_one]
          ring
      _ ≤ (Interval.of s e).low * (2 ^ e / 4) := by gcongr
      _ ≤ v := hlow

/-- The decimals of an interval are those that round to its double. -/
theorem ofDecimal_eq_finite_iff {negative : Bool} {s : Nat} {e : Int} (hx : (finite negative s e).WellFormed)
    {digits : Nat} (hdigits : 0 < digits) (exponent : Int) :
    ofDecimal negative digits exponent = .finite negative s e ↔
      (Interval.of s e).Holds (digits * 10 ^ exponent) := by
  obtain ⟨hlow, hhigh⟩ := ten_zpow_digits hdigits
  have hten := ten_zpow_pos exponent
  unfold ofDecimal
  rw [if_neg hdigits.ne']
  generalize ((Nat.toDigits 10 digits).length : Int) = length at hlow hhigh ⊢
  simp only
  split_ifs with hmost hleast
  · refine iff_of_false (by simp) fun h => absurd (bounds_of_holds hx h).1 (not_lt.2 ?_)
    calc (2 : ℚ) ^ (1024 : Int) ≤ 10 ^ (310 : Int) := two_zpow_le_ten_zpow
      _ ≤ 10 ^ (length - 1 + exponent) := zpow_le_zpow_right₀ (by norm_num) (by omega)
      _ = 10 ^ (length - 1) * 10 ^ exponent := zpow_add₀ (by norm_num) _ _
      _ ≤ digits * 10 ^ exponent := by gcongr
  · have hsmall : (digits : ℚ) * 10 ^ exponent < 2 ^ (-1075 : Int) := by
      calc (digits : ℚ) * 10 ^ exponent < 10 ^ length * 10 ^ exponent := by gcongr
        _ = 10 ^ (length + exponent) := (zpow_add₀ (by norm_num) _ _).symm
        _ ≤ 10 ^ (-330 : Int) := zpow_le_zpow_right₀ (by norm_num) (by omega)
        _ ≤ 2 ^ (-1075 : Int) := ten_zpow_le_two_zpow
    constructor
    · intro h
      cases h
      have hpos : (0 : ℚ) ≤ digits * 10 ^ exponent := by positivity
      have hleast := two_zpow_pos (-1074)
      have hdouble : (2 : ℚ) ^ (-1074 : Int) = 2 ^ 1 * 2 ^ (-1075 : Int) := two_zpow_of_eq_add 1 (by rfl)
      refine (Interval.of_holds_iff (by decide) hpos).2 (.of_even rfl ?_ ?_)
      · refine le_trans ?_ (div_nonneg hpos hleast.le)
        norm_num
      · rw [div_le_iff₀ hleast, hdouble, Nat.cast_zero]
        linarith
    · intro h
      have hs : s = 0 := by
        by_contra hne
        exact absurd ((bounds_of_holds hx h).2 (Nat.pos_of_ne_zero hne)) (not_le.2 hsmall)
      obtain rfl := hs
      rw [hx.2.2.2.resolve_left (by decide)]
      rfl
  · have hvalue : (digits : ℚ) * 10 ^ exponent = (digits * pow10 exponent.toNat : Nat) / (pow10 (-exponent).toNat : Nat) := by
      rw [zpow_eq_div (by norm_num) exponent, Nat.cast_mul, cast_pow10, cast_pow10, mul_div_assoc]
    rw [hvalue]
    exact ofRatio_eq_finite_iff hx (Nat.mul_pos hdigits (pow10_pos _)) (pow10_pos _)

theorem wellFormed_ofDecimal (negative : Bool) (digits : Nat) (exponent : Int) :
    (ofDecimal negative digits exponent).WellFormed := by
  unfold ofDecimal
  simp only
  split_ifs
  · exact wellFormed_zero negative
  · trivial
  · exact wellFormed_zero negative
  · exact wellFormed_ofRatio negative _ (pow10_pos _)

/-- A decimal is rounded to a double of its sign. -/
theorem negative_of_ofDecimal {negative n : Bool} {digits s : Nat} {exponent e : Int}
    (h : ofDecimal negative digits exponent = .finite n s e) : negative = n := by
  unfold ofDecimal ofRatio zero at h
  simp only at h
  split_ifs at h <;> cases h <;> rfl

end Binary64

end Preflight
