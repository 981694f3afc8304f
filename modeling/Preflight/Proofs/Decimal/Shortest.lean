import Mathlib.Algebra.Order.Group.Abs
import Preflight.Proofs.Decimal.Rounding
/-!
# The shortest decimal

The search visits the grids of the powers of ten, the coarsest first. A grid gives
the point nearest to the middle of the interval (`onGrid_eq_some`), and the first
grid that has a point in the interval has the fewest digits: `isShortest_shortest`.
-/

namespace Preflight.Decimal

/-- The number that a scaled decimal is. -/
def Scaled.value (d : Scaled) : ℚ :=
  d.digits * 10 ^ d.exponent

/-- A number is written with so many digits at most, and zeros. -/
def HasDigits (k : Nat) (v : ℚ) : Prop :=
  ∃ (c : Nat) (p : Int), c < 10 ^ k ∧ v = c * 10 ^ p

theorem HasDigits.mono {k l : Nat} {v : ℚ} (h : HasDigits k v) (hkl : k ≤ l) : HasDigits l v := by
  obtain ⟨c, p, hc, rfl⟩ := h
  exact ⟨c, p, hc.trans_le (Nat.pow_le_pow_right (by decide) hkl), rfl⟩

/-! ## The grids of the powers of ten -/

namespace Interval

/-- The middle of an interval. -/
def value (i : Interval) : ℚ :=
  i.mid * 2 ^ i.unit

theorem contains_iff (i : Interval) (n : Nat) (e : Int) : i.contains n e = true ↔ i.Holds (n * 10 ^ e) := by
  -- Both sides are compared after a multiplication that leaves no negative power.
  have hscale : (0 : ℚ) < 2 ^ (-i.unit).toNat * 10 ^ (-e).toNat := by positivity
  have hunit (m : Nat) : (m : ℚ) * 2 ^ i.unit * (2 ^ (-i.unit).toNat * 10 ^ (-e).toNat) =
      (m * (pow2 i.unit.toNat * pow10 (-e).toNat) : Nat) := by
    rw [zpow_eq_div two_ne_zero i.unit]
    push_cast [cast_pow2, cast_pow10]
    field_simp
  have hpoint : (n : ℚ) * 10 ^ e * (2 ^ (-i.unit).toNat * 10 ^ (-e).toNat) =
      (n * pow10 e.toNat * pow2 (-i.unit).toNat : Nat) := by
    rw [zpow_eq_div (by norm_num) e]
    push_cast [cast_pow2, cast_pow10]
    field_simp
  unfold contains Holds
  simp only
  generalize pow2 i.unit.toNat * pow10 (-e).toNat = scale at hunit ⊢
  generalize n * pow10 e.toNat * pow2 (-i.unit).toNat = point at hpoint ⊢
  have hle (m : Nat) : (m : ℚ) * 2 ^ i.unit ≤ n * 10 ^ e ↔ m * scale ≤ point := by
    rw [← mul_le_mul_iff_left₀ hscale, hunit, hpoint, Nat.cast_le]
  have hge (m : Nat) : (n : ℚ) * 10 ^ e ≤ m * 2 ^ i.unit ↔ point ≤ m * scale := by
    rw [← mul_le_mul_iff_left₀ hscale, hunit, hpoint, Nat.cast_le]
  split <;> simp only [Bool.and_eq_true, decide_eq_true_eq, ← not_le, hle, hge]

/-- The middle counted in a power of ten, as a quotient of natural numbers. -/
theorem value_div_eq (i : Interval) (e : Int) :
    ((i.mid * pow2 i.unit.toNat * pow10 (-e).toNat : Nat) : ℚ) / (pow2 (-i.unit).toNat * pow10 e.toNat : Nat) =
      i.value / 10 ^ e := by
  rw [value, zpow_eq_div two_ne_zero i.unit, zpow_eq_div (by norm_num) e]
  push_cast [cast_pow2, cast_pow10]
  field_simp

/-- A point of a grid lies in an interval, and no other point of the grid does so nearer to the middle; of two that
are equally near it is the larger. -/
def IsNearest (i : Interval) (e : Int) (d : Nat) : Prop :=
  0 < d ∧ i.Holds (d * 10 ^ e) ∧ ∀ c : Nat, 0 < c → i.Holds (c * 10 ^ e) →
    |i.value - d * 10 ^ e| ≤ |i.value - c * 10 ^ e| ∧ (|i.value - d * 10 ^ e| = |i.value - c * 10 ^ e| → c ≤ d)

/-- The points of a grid on either side of the middle. -/
theorem grid_around (i : Interval) (e : Int) :
    let num := i.mid * pow2 i.unit.toNat * pow10 (-e).toNat
    let den := pow2 (-i.unit).toNat * pow10 e.toNat
    ∃ rest : ℚ, i.value = (num / den : Nat) * 10 ^ e + rest ∧ 0 ≤ rest ∧ rest < 10 ^ e ∧
      (2 * rest < 10 ^ e ↔ 2 * (num % den) < den) ∧ (10 ^ e < 2 * rest ↔ den < 2 * (num % den)) := by
  intro num den
  have hden : 0 < den := Nat.mul_pos (pow2_pos _) (pow10_pos _)
  have hten := ten_zpow_pos e
  have hsplit := Binary64.ratio_eq_div_add_mod num hden
  rw [i.value_div_eq e, div_eq_iff hten.ne', add_mul] at hsplit
  refine ⟨_, hsplit, by positivity, ?_, ?_, ?_⟩
  · exact mul_lt_of_lt_one_left hten (Binary64.mod_ratio_lt_one num hden)
  · rw [← Binary64.mod_ratio_lt_half_iff num hden]
    constructor <;> intro h <;> nlinarith
  · rw [← Binary64.half_lt_mod_ratio_iff num hden]
    constructor <;> intro h <;> nlinarith

section Around
variable {i : Interval} (hi : i.Holds i.value) {e : Int} {b : Nat} {rest : ℚ} (hvalue : i.value = b * 10 ^ e + rest)
include hi hvalue

theorem isNearest_below (hrest : 0 ≤ rest) (hb : 0 < b) (hin : i.Holds (b * 10 ^ e)) (hlt : rest < 10 ^ e)
    (hother : ¬i.Holds ((b + 1 : Nat) * 10 ^ e) ∨ 2 * rest < 10 ^ e) : i.IsNearest e b := by
  have hten := ten_zpow_pos e
  refine ⟨hb, hin, fun c hc hcin => ?_⟩
  have hdistance : |i.value - b * 10 ^ e| = rest := by
    rw [hvalue, add_sub_cancel_left, abs_of_nonneg hrest]
  rw [hdistance]
  rcases le_or_gt c b with hcb | hcb
  · have hle : (c : ℚ) * 10 ^ e ≤ b * 10 ^ e := by gcongr
    refine ⟨?_, fun _ => hcb⟩
    rw [abs_of_nonneg (by linarith)]
    linarith
  · have hle : ((b + 1 : Nat) : ℚ) * 10 ^ e ≤ c * 10 ^ e := by gcongr; omega
    have habove : i.value ≤ (b + 1 : Nat) * 10 ^ e := by
      push_cast
      linarith
    have hless := hother.resolve_left (not_not.2 (hi.convex hcin habove hle))
    rw [abs_of_nonpos (by linarith)]
    push_cast at hle
    exact ⟨by linarith, fun heq => by linarith⟩

theorem isNearest_above (hrest : 0 ≤ rest) (hin : i.Holds ((b + 1 : Nat) * 10 ^ e)) (hlt : rest < 10 ^ e)
    (hother : ¬(i.Holds (b * 10 ^ e) ∧ 0 < b) ∨ (10 : ℚ) ^ e ≤ 2 * rest) : i.IsNearest e (b + 1) := by
  have hten := ten_zpow_pos e
  refine ⟨Nat.succ_pos b, hin, fun c hc hcin => ?_⟩
  have hdistance : |i.value - (b + 1 : Nat) * 10 ^ e| = 10 ^ e - rest := by
    rw [abs_of_nonpos (by push_cast; linarith)]
    push_cast
    linarith
  rw [hdistance]
  rcases le_or_gt c b with hcb | hcb
  · have hle : (c : ℚ) * 10 ^ e ≤ b * 10 ^ e := by gcongr
    have hbelow := hcin.convex hi hle (by linarith)
    have hmore := hother.resolve_left (not_not.2 ⟨hbelow, hc.trans_le hcb⟩)
    rw [abs_of_nonneg (by linarith)]
    exact ⟨by linarith, fun _ => by omega⟩
  · have hle : ((b + 1 : Nat) : ℚ) * 10 ^ e ≤ c * 10 ^ e := by gcongr; omega
    push_cast at hle
    rw [abs_of_nonpos (by linarith)]
    refine ⟨by linarith, fun heq => ?_⟩
    have hsame : (c : ℚ) * 10 ^ e = (b + 1 : Nat) * 10 ^ e := by
      push_cast
      linarith
    exact (Nat.cast_injective (R := ℚ) (mul_right_cancel₀ hten.ne' hsame)).le

theorem not_holds_of_around (hrest : 0 ≤ rest) (hlt : rest < 10 ^ e) (hbelow : ¬(i.Holds (b * 10 ^ e) ∧ 0 < b))
    (habove : ¬i.Holds ((b + 1 : Nat) * 10 ^ e)) {c : Nat} (hc : 0 < c) : ¬i.Holds (c * 10 ^ e) := by
  intro hcin
  have hten := ten_zpow_pos e
  rcases le_or_gt c b with hcb | hcb
  · exact hbelow ⟨hcin.convex hi (by gcongr) (by linarith), hc.trans_le hcb⟩
  · refine habove (hi.convex hcin ?_ ?_)
    · push_cast
      linarith
    · gcongr
      omega

end Around

/-- What a grid gives: the nearest of its points, if there is one in the interval. -/
theorem onGrid_spec {i : Interval} (hi : i.Holds i.value) (e : Int) :
    (∀ d, i.onGrid .up e = some d → i.IsNearest e d) ∧
      (i.onGrid .up e = none → ∀ c : Nat, 0 < c → ¬i.Holds (c * 10 ^ e)) := by
  obtain ⟨rest, hvalue, hrest, hlt, hless, hmore⟩ := i.grid_around e
  unfold onGrid
  simp only
  generalize i.mid * pow2 i.unit.toNat * pow10 (-e).toNat = num at *
  generalize pow2 (-i.unit).toNat * pow10 e.toNat = den at *
  generalize num / den = b at *
  have hbelow : (i.contains b e && decide (0 < b)) = true ↔ i.Holds (b * 10 ^ e) ∧ 0 < b := by
    rw [Bool.and_eq_true, decide_eq_true_eq, contains_iff]
  have habove := i.contains_iff (b + 1) e
  cases hb : i.contains b e && decide (0 < b) with
  | false =>
    have hbelow' := mt hbelow.2 (Bool.eq_false_iff.1 hb)
    cases ha : i.contains (b + 1) e with
    | false =>
      refine ⟨fun d hd => (nomatch hd), fun _ c hc => ?_⟩
      exact not_holds_of_around hi hvalue hrest hlt hbelow' (mt habove.2 (Bool.eq_false_iff.1 ha)) hc
    | true =>
      refine ⟨fun d hd => ?_, fun hnone => nomatch hnone⟩
      cases hd
      exact isNearest_above hi hvalue hrest (habove.1 ha) hlt (.inl hbelow')
  | true =>
    obtain ⟨hin, hpos⟩ := hbelow.1 hb
    cases ha : i.contains (b + 1) e with
    | false =>
      refine ⟨fun d hd => ?_, fun hnone => nomatch hnone⟩
      cases hd
      exact isNearest_below hi hvalue hrest hpos hin hlt (.inl (mt habove.2 (Bool.eq_false_iff.1 ha)))
    | true =>
      simp only
      split_ifs with hbefore hafter
      · refine ⟨fun d hd => ?_, fun hnone => nomatch hnone⟩
        cases hd
        exact isNearest_below hi hvalue hrest hpos hin hlt (.inr (hless.2 hbefore))
      all_goals
        refine ⟨fun d hd => ?_, fun hnone => nomatch hnone⟩
        cases hd
        exact isNearest_above hi hvalue hrest (habove.1 ha) hlt (.inr (not_lt.1 (mt hless.1 hbefore)))

end Interval

/-! ## The size of a quotient -/

theorem ten_zpow_digits_div {num den : Nat} (hden : 0 < den) (h : den ≤ num) :
    (10 : ℚ) ^ (((Nat.toDigits 10 (num / den)).length : Int) - 1) ≤ num / den ∧
      (num : ℚ) / den < 10 ^ ((Nat.toDigits 10 (num / den)).length : Int) := by
  obtain ⟨hlow, hhigh⟩ := ten_zpow_digits (Nat.div_pos h hden)
  have hsplit := Binary64.ratio_eq_div_add_mod num hden
  have hrest : (0 : ℚ) ≤ (num % den : Nat) / den := by positivity
  have hrest' := Binary64.mod_ratio_lt_one num hden
  refine ⟨by linarith, ?_⟩
  -- A whole number below a power of ten is below it by one at least.
  rw [zpow_natCast] at hhigh ⊢
  have hnext : ((num / den : Nat) : ℚ) + 1 ≤ 10 ^ (Nat.toDigits 10 (num / den)).length := by
    exact_mod_cast hhigh
  linarith

theorem tensPlaces_spec {num den : Nat} (hnum : 0 < num) (hden : 0 < den) :
    (10 : ℚ) ^ (tensPlaces num den - 1) ≤ num / den ∧ (num : ℚ) / den < 10 ^ tensPlaces num den := by
  unfold tensPlaces
  split_ifs with h
  · exact ten_zpow_digits_div hden h
  · -- The quotient is below one, and its inverse is not.
    obtain ⟨hlow, hhigh⟩ := ten_zpow_digits_div hnum (Nat.le_of_lt (Nat.not_le.1 h))
    have hlength : 0 < (Nat.toDigits 10 (den / num)).length := List.length_pos_iff.2 Nat.toDigits_ne_nil
    have hinverse : (0 : ℚ) < den / num := div_pos (by exact_mod_cast hden) (by exact_mod_cast hnum)
    generalize (Nat.toDigits 10 (den / num)).length = length at hlow hhigh hlength ⊢
    simp only
    have hbelow := inv_anti₀ (ten_zpow_pos _) hlow
    have habove := inv_strictAnti₀ hinverse hhigh
    have htest : den ≤ num * pow10 (length - 1) ↔ (10 : ℚ) ^ (1 - (length : Int)) ≤ num / den := by
      rw [le_div_iff₀ (by exact_mod_cast hden), show 1 - (length : Int) = -((length - 1 : Nat) : Int) by omega, zpow_neg,
        zpow_natCast, inv_mul_le_iff₀ (by positivity), mul_comm, ← cast_pow10]
      exact_mod_cast Iff.rfl
    rw [inv_div, ← zpow_neg] at hbelow habove
    rw [show -((length : Int) - 1) = 1 - length by ring] at hbelow
    split_ifs with hreaches
    · rw [show 2 - (length : Int) - 1 = 1 - length by ring]
      refine ⟨htest.1 hreaches, hbelow.trans_lt (zpow_lt_zpow_right₀ (by norm_num) (by omega))⟩
    · rw [show 1 - (length : Int) - 1 = -length by ring]
      exact ⟨habove.le, not_le.1 (mt htest.2 hreaches)⟩

/-! ## Zeros at the end -/

theorem Scaled.strip_spec (fuel : Nat) {d : Scaled} (hd : 0 < d.digits) (hfuel : d.digits < 10 ^ fuel) :
    (Scaled.strip fuel d).value = d.value ∧ (Scaled.strip fuel d).digits % 10 ≠ 0 := by
  induction fuel generalizing d with
  | zero => omega
  | succ fuel ih =>
    unfold Scaled.strip
    split_ifs with h
    · have htenth : d.digits = d.digits / 10 * 10 := by omega
      rw [Nat.pow_succ] at hfuel
      obtain ⟨hvalue, hlast⟩ := ih (d := ⟨d.digits / 10, d.exponent + 1⟩) (by simp only; omega) (by simp only; omega)
      refine ⟨?_, hlast⟩
      rw [hvalue, Scaled.value, Scaled.value, zpow_add_one₀ (by norm_num)]
      have hcast : (d.digits : ℚ) = (d.digits / 10 : Nat) * 10 := by exact_mod_cast htenth
      rw [hcast]
      ring
    · exact ⟨rfl, fun hzero => h ⟨hzero, hd.ne'⟩⟩

/-! ## Few digits -/

/-- A decimal with few digits lies on the grid of as many, unless it is further from a middle that has more places than
the first point of the grid is. -/
theorem Interval.exists_nearer {i : Interval} (hi : i.Holds i.value) {places : Int}
    (hplaces : (10 : ℚ) ^ (places - 1) ≤ i.value) {k c : Nat} {p : Int} (hk : 0 < k) (hc : 0 < c) (hck : c < 10 ^ k)
    (hin : i.Holds (c * 10 ^ p)) :
    ∃ b : Nat, 0 < b ∧ i.Holds (b * 10 ^ (places - k)) ∧
      ((b : ℚ) * 10 ^ (places - k) = c * 10 ^ p ∨
        |i.value - b * 10 ^ (places - k)| < |i.value - c * 10 ^ p|) := by
  rcases le_or_gt (places - k) p with hp | hp
  · have hpoint : ((c * 10 ^ (p - (places - k)).toNat : Nat) : ℚ) * 10 ^ (places - k) = c * 10 ^ p := by
      rw [ten_zpow_of_eq_add (e := places - k) (k := p) (p - (places - k)).toNat (by omega), Nat.cast_mul, mul_assoc]
    exact ⟨_, by positivity, hpoint ▸ hin, .inl hpoint⟩
  · have hfirst : ((10 ^ (k - 1) : Nat) : ℚ) * 10 ^ (places - k) = 10 ^ (places - 1) :=
      (ten_zpow_of_eq_add (k - 1) (by omega)).symm
    have hless : (c : ℚ) * 10 ^ p < 10 ^ (places - 1) := by
      calc (c : ℚ) * 10 ^ p < (10 ^ k : Nat) * 10 ^ p :=
            mul_lt_mul_of_pos_right (by exact_mod_cast hck) (ten_zpow_pos p)
        _ = 10 ^ (p + k) := (ten_zpow_of_eq_add k rfl).symm
        _ ≤ 10 ^ (places - 1) := zpow_le_zpow_right₀ (by norm_num) (by omega)
    refine ⟨10 ^ (k - 1), by positivity, ?_, .inr ?_⟩
    · rw [hfirst]
      exact hin.convex hi hless.le hplaces
    · rw [hfirst, abs_of_nonneg (by linarith), abs_of_nonneg (by linarith)]
      linarith

/-- The numbers less than half a last place away from a double round to it, below a power of two those less than a
quarter away. -/
theorem Interval.holds_of_near {s : Nat} {e : Int} {v : ℚ} (hv : 0 ≤ v)
    (h : |v - s * 2 ^ e| < (if s = pow2 52 ∧ e > -1074 then 1 / 4 else 1 / 2) * 2 ^ e) : (Interval.of s e).Holds v := by
  have hpos := two_zpow_pos e
  obtain ⟨hlow, hhigh⟩ := abs_lt.1 h
  split_ifs at hlow hhigh with hpow
  · obtain ⟨rfl, he⟩ := hpow
    rw [cast_pow2] at hlow hhigh
    exact (Interval.of_pow_holds_iff he).2 ⟨by linarith, by linarith⟩
  · refine (Interval.of_holds_iff hpow hv).2 (.of_lt ?_ ?_)
    · rw [lt_div_iff₀ hpos]
      linarith
    · rw [div_lt_iff₀ hpos]
      linarith

theorem Interval.value_of (s : Nat) (e : Int) : (Interval.of s e).value = s * 2 ^ e := by
  show ((4 * s : Nat) : ℚ) * 2 ^ (e - 2) = s * 2 ^ e
  rw [two_zpow_quarter]
  push_cast
  ring

theorem Interval.holds_value (s : Nat) (e : Int) : (Interval.of s e).Holds (Interval.of s e).value := by
  have hpos := two_zpow_pos e
  rw [value_of]
  refine holds_of_near (by positivity) ?_
  rw [sub_self, abs_zero]
  split_ifs <;> positivity

/-- Seventeen digits are always enough. -/
theorem Interval.exists_on_finest_grid {negative : Bool} {s : Nat} {e : Int}
    (hx : (Binary64.finite negative s e).WellFormed) {places : Int}
    (hplaces : (10 : ℚ) ^ (places - 1) ≤ (Interval.of s e).value) :
    ∃ c : Nat, 0 < c ∧ (Interval.of s e).Holds (c * 10 ^ (places - 17)) := by
  have hten := ten_zpow_pos (places - 17)
  have htwo := two_zpow_pos e
  have hstep : (10 : ℚ) ^ (places - 1) = (10 ^ 16 : Nat) * 10 ^ (places - 17) := ten_zpow_of_eq_add 16 (by omega)
  -- The point of the grid that is nearest is less than half a step away, and a step is small enough.
  have hden : 0 < pow2 (-(Interval.of s e).unit).toNat * pow10 (places - 17).toNat :=
    Nat.mul_pos (pow2_pos _) (pow10_pos _)
  have hnearest := Binary64.nearest_divRound
    ((Interval.of s e).mid * pow2 (Interval.of s e).unit.toNat * pow10 (-(places - 17)).toNat) hden
  rw [Interval.value_div_eq] at hnearest
  generalize Binary64.divRound _ _ = c at hnearest
  obtain ⟨hlow, hhigh⟩ := hnearest.bounds
  rw [Interval.value_of] at hlow hhigh hplaces
  rw [hstep, Nat.cast_pow, Nat.cast_ofNat] at hplaces
  rw [le_div_iff₀ hten] at hlow
  rw [div_le_iff₀ hten] at hhigh
  have hsize : (s : ℚ) * 2 ^ e ≤ 2 ^ 53 * 2 ^ e := by
    have hs := Binary64.significand_add_one_le hx
    gcongr
    linarith
  have hclose : |(c : ℚ) * 10 ^ (places - 17) - s * 2 ^ e| ≤ 10 ^ (places - 17) / 2 := by
    rw [abs_le]
    constructor <;> linarith
  refine ⟨c, Nat.pos_of_ne_zero ?_, Interval.holds_of_near (by positivity) (hclose.trans_lt ?_)⟩
  · rintro rfl
    rw [Nat.cast_zero] at hhigh
    linarith
  · split_ifs with hpow
    · rw [hpow.1, cast_pow2] at hplaces
      linarith
    · linarith

/-! ## The search -/

/-- Of the numbers of an interval, one that takes the fewest digits, and of these the nearest to the middle; of two
that are equally near it is the larger. -/
structure IsShortest (i : Interval) (v : ℚ) : Prop where
  holds : i.Holds v
  fewest : ∀ u k, i.Holds u → HasDigits k u → HasDigits k v
  nearest : ∀ u, i.Holds u → (∀ k, HasDigits k v → HasDigits k u) →
    |i.value - v| ≤ |i.value - u| ∧ (|i.value - v| = |i.value - u| → u ≤ v)

/-- The nearest point of a grid has no more digits than the grid, or is the power of ten after them. -/
theorem le_pow_of_isNearest {i : Interval} (hi : i.Holds i.value) {places : Int} (hplaces : i.value < 10 ^ places)
    {k d : Nat} (hd : i.IsNearest (places - k) d) : d ≤ 10 ^ k := by
  obtain ⟨-, hin, hnearest⟩ := hd
  by_contra hgt
  have hlast : (10 : ℚ) ^ places = (10 ^ k : Nat) * 10 ^ (places - k) := ten_zpow_of_eq_add k (by omega)
  have hfar : (10 : ℚ) ^ places < d * 10 ^ (places - k) := by
    rw [hlast]
    exact mul_lt_mul_of_pos_right (by exact_mod_cast Nat.not_le.1 hgt) (ten_zpow_pos _)
  -- The power of ten would be nearer.
  have hbetween : i.Holds ((10 ^ k : Nat) * 10 ^ (places - k)) := by
    rw [← hlast]
    exact hi.convex hin hplaces.le hfar.le
  have hcloser := (hnearest _ (Nat.pow_pos (by decide)) hbetween).1
  rw [← hlast, abs_of_nonpos (by linarith), abs_of_nonpos (by linarith)] at hcloser
  linarith

/-- The first grid with a point in the interval has the shortest decimal. -/
theorem isShortest_of_first {i : Interval} (hi : i.Holds i.value) (hzero : ¬i.Holds 0) {places : Int}
    (hplaces : (10 : ℚ) ^ (places - 1) ≤ i.value) (hplaces' : i.value < 10 ^ places) {n d : Nat}
    (hd : i.IsNearest (places - (n + 1 : Nat)) d)
    (hfirst : ∀ m < n, ∀ c : Nat, 0 < c → ¬i.Holds (c * 10 ^ (places - (m + 1 : Nat)))) :
    IsShortest i (d * 10 ^ (places - (n + 1 : Nat))) := by
  obtain ⟨hpos, hin, hnearest⟩ := hd
  -- A decimal of the interval takes as many digits as its grid.
  have hmany {k c : Nat} {p : Int} (hck : c < 10 ^ k) (hu : i.Holds (c * 10 ^ p)) : 0 < c ∧ n + 1 ≤ k := by
    have hc : 0 < c := by
      refine Nat.pos_of_ne_zero ?_
      rintro rfl
      rw [Nat.cast_zero, zero_mul] at hu
      exact hzero hu
    refine ⟨hc, ?_⟩
    have hk : 0 < k := by
      refine Nat.pos_of_ne_zero ?_
      rintro rfl
      omega
    by_contra hless
    obtain ⟨b, hb, hbin, -⟩ := Interval.exists_nearer hi hplaces hk hc hck hu
    refine hfirst (k - 1) (by omega) b hb ?_
    rwa [Nat.sub_add_cancel hk]
  have hdigits : HasDigits (n + 1) (d * 10 ^ (places - (n + 1 : Nat))) := by
    rcases (le_pow_of_isNearest hi hplaces' ⟨hpos, hin, hnearest⟩).lt_or_eq with hlt | rfl
    · exact ⟨d, _, hlt, rfl⟩
    · refine ⟨1, places, Nat.one_lt_pow (by omega) (by decide), ?_⟩
      rw [Nat.cast_one, one_mul]
      exact (ten_zpow_of_eq_add (n + 1) (by omega)).symm
  refine ⟨hin, ?_, ?_⟩
  · rintro u k hu ⟨c, p, hck, rfl⟩
    exact hdigits.mono (hmany hck hu).2
  · intro u hu hsame
    obtain ⟨c, p, hck, rfl⟩ := hsame (n + 1) hdigits
    obtain ⟨b, hb, hbin, hequal | hnearer⟩ :=
      Interval.exists_nearer hi hplaces (Nat.succ_pos n) (hmany hck hu).1 hck hu
    · obtain ⟨hle, htie⟩ := hnearest b hb hbin
      rw [hequal] at hle htie
      refine ⟨hle, fun htied => ?_⟩
      rw [← hequal]
      have hbd : (b : ℚ) ≤ d := by exact_mod_cast htie htied
      gcongr
    · have hle := (hnearest b hb hbin).1.trans_lt hnearer
      exact ⟨hle.le, fun htied => absurd htied hle.ne⟩

/-- The search visits the numbers in order. -/
theorem findSome?_range {α : Type} {f : Nat → Option α} {n : Nat} {a : α} (h : (List.range n).findSome? f = some a) :
    ∃ k < n, f k = some a ∧ ∀ m < k, f m = none := by
  obtain ⟨before, k, after, hrange, hk, hbefore⟩ := List.findSome?_eq_some_iff.1 h
  have hkn : k < n := by
    rw [← List.mem_range, hrange]
    simp
  refine ⟨k, hkn, hk, fun m hm => hbefore m ?_⟩
  have hordered : (before ++ k :: after).Pairwise (· < ·) := hrange ▸ List.pairwise_lt_range
  have hmem : m ∈ before ++ k :: after := hrange ▸ List.mem_range.2 (hm.trans hkn)
  obtain ⟨-, hafter, -⟩ := List.pairwise_append.1 hordered
  rcases List.mem_append.1 hmem with hmem | hmem
  · exact hmem
  · rcases List.mem_cons.1 hmem with rfl | hmem
    · omega
    · have := (List.pairwise_cons.1 hafter).1 m hmem
      omega

/-- The decimal of a double is the shortest that lies in its interval, without a zero at its end. -/
theorem isShortest_shortest {negative : Bool} {s : Nat} {e : Int} (hx : (Binary64.finite negative s e).WellFormed)
    (hs : 0 < s) : IsShortest (Interval.of s e) (shortest .up s e).value ∧ (shortest .up s e).digits % 10 ≠ 0 := by
  have hi := Interval.holds_value s e
  have hzero : ¬(Interval.of s e).Holds 0 := fun hin =>
    absurd ((Binary64.bounds_of_holds hx hin).2 hs) (not_le.2 (two_zpow_pos _))
  have hratio : ((s * pow2 e.toNat : Nat) : ℚ) / (pow2 (-e).toNat : Nat) = (Interval.of s e).value := by
    rw [Interval.value_of, zpow_eq_div two_ne_zero e, Nat.cast_mul, cast_pow2, cast_pow2, mul_div_assoc]
  have hnum : 0 < s * pow2 e.toNat := Nat.mul_pos hs (pow2_pos _)
  have hden : 0 < pow2 (-e).toNat := pow2_pos _
  have hplaces := tensPlaces_spec hnum hden
  rw [hratio] at hplaces
  unfold shortest
  rw [if_neg hs.ne']
  simp only
  generalize tensPlaces _ _ = places at hplaces ⊢
  obtain ⟨hlow, hhigh⟩ := hplaces
  cases hfound : (List.range 17).findSome? fun (n : Nat) =>
      ((Interval.of s e).onGrid .up (places - ((n : Int) + 1))).map fun d =>
        Scaled.strip 20 ⟨d, places - ((n : Int) + 1)⟩ with
  | none =>
    obtain ⟨c, hc, hin⟩ := Interval.exists_on_finest_grid hx hlow
    have hnone := List.findSome?_eq_none_iff.1 hfound 16 (by decide)
    exact absurd hin ((Interval.onGrid_spec hi _).2 (Option.map_eq_none_iff.1 hnone) c hc)
  | some found =>
    obtain ⟨n, hn, hgiven, hbefore⟩ := findSome?_range hfound
    obtain ⟨d, hgrid, rfl⟩ := Option.map_eq_some_iff.1 hgiven
    have hd := (Interval.onGrid_spec hi _).1 d hgrid
    have hbound : d < 10 ^ 20 := by
      refine (le_pow_of_isNearest hi hhigh (k := n + 1) hd).trans_lt ?_
      exact Nat.pow_lt_pow_right (by decide) (by omega)
    obtain ⟨hvalue, hlast⟩ := Scaled.strip_spec 20 (d := ⟨d, places - ((n : Int) + 1)⟩) hd.1 hbound
    refine ⟨?_, hlast⟩
    rw [Option.getD_some, hvalue]
    refine isShortest_of_first hi hzero hlow hhigh (n := n) hd fun m hm c hc => ?_
    exact (Interval.onGrid_spec hi _).2 (Option.map_eq_none_iff.1 (hbefore m hm)) c hc

end Preflight.Decimal
