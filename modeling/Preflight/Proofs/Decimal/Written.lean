import Mathlib.Data.List.TakeWhile
import Preflight.Decimal.Notation
import Preflight.Proofs.Decimal.Digits
import Preflight.Proofs.Decimal.Shortest
/-!
# Doubles as they are written

A bare double is its shortest digits: its text reads back as the double, no decimal
with fewer digits does, and of those with as many it is the nearest
(`isWritten_bare`).
-/

namespace Preflight

namespace Decimal

/-! ## The digits before and after the point -/

/-- A number as its digits before and after the point, with no zero too many. -/
structure Parts (whole fraction : List Char) : Prop where
  nonempty : whole ≠ []
  digits : ∀ c ∈ whole ++ fraction, c.isDigit = true
  lead : whole.head? = some '0' → whole = ['0']
  last : fraction.getLast? ≠ some '0'

/-- The text of a number: a sign, and a point if digits follow it. -/
def partsText (negative : Bool) (whole fraction : List Char) : List Char :=
  (if negative then ['-'] else []) ++ whole ++ (if fraction = [] then [] else '.' :: fraction)

theorem ne_of_isDigit {c d : Char} (hc : c.isDigit = true) (hd : d.isDigit = false) : c ≠ d := by
  rintro rfl
  rw [hc] at hd
  exact Bool.noConfusion hd

/-- A text is cut at its point. -/
theorem cut_partsText {whole fraction : List Char} (h : Parts whole fraction) :
    (partsText false whole fraction).takeWhile (· != '.') = whole ∧
      ((partsText false whole fraction).dropWhile (· != '.')).drop 1 = fraction := by
  have hwhole : ∀ c ∈ whole, (c != '.') = true := fun c hc =>
    bne_iff_ne.2 (ne_of_isDigit (h.digits c (List.mem_append_left _ hc)) rfl)
  unfold partsText
  rw [if_neg Bool.false_ne_true, List.nil_append, List.takeWhile_append_of_pos hwhole,
    List.dropWhile_append_of_pos hwhole]
  split_ifs with hnone
  · exact ⟨List.append_nil _, hnone.symm⟩
  · exact ⟨List.append_nil _, rfl⟩

theorem unsigned?_partsText (negative : Bool) {whole fraction : List Char} (h : Parts whole fraction) :
    unsigned? negative (partsText false whole fraction) =
      some ⟨negative, Nat.ofDigitChars 10 (whole ++ fraction) 0, -fraction.length⟩ := by
  have hmantissa : ∀ c ∈ partsText false whole fraction, (!(c == 'e' || c == 'E')) = true := by
    intro c hc
    have hdigit : c.isDigit = true ∨ c = '.' := by
      rw [partsText, if_neg Bool.false_ne_true, List.nil_append] at hc
      rcases List.mem_append.1 hc with hc | hc
      · exact .inl (h.digits c (List.mem_append_left _ hc))
      · split_ifs at hc with hnone
        · exact absurd hc List.not_mem_nil
        · exact (List.mem_cons.1 hc).symm.imp_left fun hc => h.digits c (List.mem_append_right _ hc)
    rcases hdigit with hdigit | rfl
    · simp [ne_of_isDigit hdigit]
    · rfl
  obtain ⟨hwhole, hfraction⟩ := cut_partsText h
  unfold unsigned?
  simp only [List.takeWhile_eq_self_iff.2 hmantissa, List.dropWhile_eq_nil_iff.2 hmantissa, hwhole, hfraction,
    natInBase?_of_digits (List.append_ne_nil_of_left_ne_nil h.nonempty _) h.digits]
  simp

theorem numeral?_partsText (negative : Bool) {whole fraction : List Char} (h : Parts whole fraction) :
    numeral? (partsText negative whole fraction) =
      some ⟨negative, Nat.ofDigitChars 10 (whole ++ fraction) 0, -fraction.length⟩ := by
  rw [← unsigned?_partsText negative h]
  cases negative with
  | true => rfl
  | false =>
    obtain ⟨c, cs, rfl⟩ := List.exists_cons_of_ne_nil h.nonempty
    have hc := h.digits c (by simp)
    show numeral? (c :: (cs ++ _)) = unsigned? false (c :: (cs ++ _))
    unfold numeral?
    split
    · cases ‹c :: _ = '-' :: _›
      exact absurd hc (by decide)
    · cases ‹c :: _ = '+' :: _›
      exact absurd hc (by decide)
    · rfl

section Digits
variable {ds : List Char} (hds : ∀ c ∈ ds, c.isDigit = true)
include hds

theorem parts_whole (hne : ds ≠ []) (hhead : ds.head? ≠ some '0') (k : Nat) :
    Parts (ds ++ List.replicate k '0') [] where
  nonempty := List.append_ne_nil_of_left_ne_nil hne _
  digits c hc := by
    rw [List.append_nil] at hc
    rcases List.mem_append.1 hc with hc | hc
    · exact hds c hc
    · rw [List.eq_of_mem_replicate hc]
      rfl
  lead hzero := by
    rw [List.head?_append_of_ne_nil _ hne] at hzero
    exact absurd hzero hhead
  last := by simp

theorem parts_cut (hhead : ds.head? ≠ some '0') (hend : ds.getLast? ≠ some '0') {k : Nat} (hk : 0 < k)
    (hlength : k < ds.length) : Parts (ds.take k) (ds.drop k) where
  nonempty := by
    rw [Ne, List.take_eq_nil_iff]
    rintro (rfl | rfl)
    · exact absurd hk (by decide)
    · exact absurd hlength (Nat.not_lt_zero _)
  digits c hc := hds c (List.take_append_drop k ds ▸ hc)
  lead hzero := by
    rw [List.head?_take, if_neg hk.ne'] at hzero
    exact absurd hzero hhead
  last := by
    rwa [List.getLast?_drop, if_neg (Nat.not_le.2 hlength)]

theorem parts_small (hne : ds ≠ []) (hend : ds.getLast? ≠ some '0') (k : Nat) :
    Parts ['0'] (List.replicate k '0' ++ ds) where
  nonempty := List.cons_ne_nil _ _
  digits c hc := by
    rcases List.mem_append.1 hc with hc | hc
    · rw [List.mem_singleton.1 hc]
      rfl
    · rcases List.mem_append.1 hc with hc | hc
      · rw [List.eq_of_mem_replicate hc]
        rfl
      · exact hds c hc
  lead _ := rfl
  last := by
    rwa [List.getLast?_append_of_ne_nil _ hne]

end Digits

theorem parts_zero : Parts ['0'] [] where
  nonempty := List.cons_ne_nil _ _
  digits c hc := by
    rw [List.mem_singleton.1 hc]
    rfl
  lead _ := rfl
  last := by simp

theorem toDigits_head {n : Nat} (hn : n ≠ 0) : (Nat.toDigits 10 n).head? ≠ some '0' := by
  obtain ⟨c, cs, hcs, -, hzero⟩ := toDigits_eq_cons n
  rw [hcs]
  exact fun hhead => hn (hzero (Option.some.inj hhead)).1

theorem toDigits_last {n : Nat} (hn : n % 10 ≠ 0) : (Nat.toDigits 10 n).getLast? ≠ some '0' := by
  rw [getLast?_toDigits]
  exact fun hlast => digitChar_ne_zero (Nat.mod_lt n (by decide)) hn (Option.some.inj hlast)

/-- A decimal without a zero at its end is written with no zero too many. -/
theorem exists_parts_positionalText {d : Scaled} (h : d.digits % 10 ≠ 0) :
    ∃ whole fraction, Parts whole fraction ∧ (positionalText false d).toList = partsText false whole fraction ∧
      (Nat.ofDigitChars 10 (whole ++ fraction) 0 : ℚ) * 10 ^ (-(fraction.length : Int)) = d.value := by
  have hdigits : d.digits ≠ 0 := by
    intro hzero
    rw [hzero] at h
    exact h rfl
  have hds : ∀ c ∈ Nat.toDigits 10 d.digits, c.isDigit = true := fun c => isDigit_of_mem_toDigits
  have hne : Nat.toDigits 10 d.digits ≠ [] := Nat.toDigits_ne_nil
  have hhead := toDigits_head hdigits
  have hend := toDigits_last h
  have hvalue := Nat.ofDigitChars_ten_toDigits (n := d.digits)
  unfold positionalText Scaled.value
  generalize Nat.toDigits 10 d.digits = ds at hds hne hhead hend hvalue ⊢
  simp only [if_neg hdigits, Bool.false_eq_true, if_false]
  split_ifs with hpower hplaces
  · refine ⟨_, _, parts_whole hds hne hhead d.exponent.toNat, by simp [partsText], ?_⟩
    rw [List.append_nil, Nat.ofDigitChars_append, hvalue, Nat.ofDigitChars_replicate_zero]
    obtain ⟨k, hk⟩ := Int.eq_ofNat_of_zero_le hpower
    rw [hk, zpow_natCast]
    push_cast
    simp [mul_comm]
  · have hparts := parts_cut hds hhead hend (k := ds.length - (-d.exponent).toNat) (by omega) (by omega)
    have hlength : (ds.drop (ds.length - (-d.exponent).toNat)).length = (-d.exponent).toNat := by
      rw [List.length_drop]
      omega
    refine ⟨_, _, hparts, ?_, ?_⟩
    · have hsome : ds.drop (ds.length - (-d.exponent).toNat) ≠ [] := by
        rw [← List.length_pos_iff]
        omega
      simp [partsText, hsome]
    · rw [List.take_append_drop, hvalue, hlength]
      congr 2
      omega
  · refine ⟨_, _, parts_small hds hne hend ((-d.exponent).toNat - ds.length), by simp [partsText, hne], ?_⟩
    have hlength : (List.replicate ((-d.exponent).toNat - ds.length) '0' ++ ds).length = (-d.exponent).toNat := by
      rw [List.length_append, List.length_replicate]
      omega
    rw [hlength, List.singleton_append, Nat.ofDigitChars_cons, Nat.ofDigitChars_append, Nat.ofDigitChars_replicate_zero]
    show (Nat.ofDigitChars 10 ds 0 : ℚ) * _ = _
    rw [hvalue]
    congr 2
    omega

/-- The number that a decimal is, without its sign. -/
def Numeral.magnitude (n : Numeral) : ℚ :=
  n.digits * 10 ^ n.exponent

end Decimal

namespace Binary64

open Decimal

/-- A finite double without its sign. -/
def magnitude : Binary64 → ℚ
  | .finite _ s e => s * 2 ^ e
  | _ => 0

/-- Of the decimals that are read as a double, one of the fewest digits, and of these the nearest to it; of two that
are equally near it is the larger. -/
structure IsShortestOf (x : Binary64) (n : Numeral) : Prop where
  back : n.toBinary64 = x
  fewest : ∀ (m : Numeral) (k : Nat), m.toBinary64 = x → HasDigits k m.magnitude → HasDigits k n.magnitude
  nearest : ∀ m : Numeral, m.toBinary64 = x → (∀ k, HasDigits k n.magnitude → HasDigits k m.magnitude) →
    |x.magnitude - n.magnitude| ≤ |x.magnitude - m.magnitude| ∧
      (|x.magnitude - n.magnitude| = |x.magnitude - m.magnitude| → m.magnitude ≤ n.magnitude)

/-- A text is a double by its shortest digits, with no exponent and no zero too many. -/
def IsWritten (x : Binary64) (text : String) : Prop :=
  match x with
  | .nan => text = "NaN"
  | .infinite negative => text = if negative then "-inf" else "inf"
  | .finite negative _ _ =>
    (∃ whole fraction, Parts whole fraction ∧ text.toList = partsText negative whole fraction) ∧
      ∃ n, numeral? text.toList = some n ∧ x.IsShortestOf n

/-- The decimals that are read as a positive double are those of its interval. -/
theorem holds_of_toBinary64 {negative : Bool} {s : Nat} {e : Int} (hx : (finite negative s e).WellFormed) (hs : 0 < s)
    {m : Numeral} (h : m.toBinary64 = .finite negative s e) : (Interval.of s e).Holds m.magnitude := by
  have hsign := negative_of_ofDecimal h
  have hdigits : 0 < m.digits := by
    refine Nat.pos_of_ne_zero fun hzero => ?_
    rw [Numeral.toBinary64, ofDecimal, if_pos hzero] at h
    cases h
    exact absurd hs (Nat.lt_irrefl 0)
  rw [Numeral.toBinary64, hsign] at h
  exact (ofDecimal_eq_finite_iff hx hdigits _).1 h

theorem isShortestOf_of_isShortest {negative : Bool} {s : Nat} {e : Int} (hx : (finite negative s e).WellFormed)
    (hs : 0 < s) {n : Numeral} (hsign : n.negative = negative) (h : IsShortest (Interval.of s e) n.magnitude) :
    (finite negative s e).IsShortestOf n where
  back := by
    have hdigits : 0 < n.digits := by
      refine Nat.pos_of_ne_zero fun hzero => absurd ((bounds_of_holds hx h.holds).2 hs) (not_le.2 ?_)
      rw [Numeral.magnitude, hzero, Nat.cast_zero, zero_mul]
      exact two_zpow_pos _
    rw [Numeral.toBinary64, hsign]
    exact (ofDecimal_eq_finite_iff hx hdigits _).2 h.holds
  fewest m k hm hdigits := h.fewest _ k (holds_of_toBinary64 hx hs hm) hdigits
  nearest m hm hsame := by
    have hnearest := h.nearest _ (holds_of_toBinary64 hx hs hm) hsame
    rwa [Interval.value_of] at hnearest

theorem hasDigits_zero (k : Nat) : HasDigits k 0 :=
  ⟨0, 0, Nat.pow_pos (by decide), by rw [Nat.cast_zero, zero_mul]⟩

theorem isShortestOf_zero (negative : Bool) : (zero negative).IsShortestOf ⟨negative, 0, 0⟩ := by
  have hzero : (Numeral.mk negative 0 0).magnitude = 0 := by rw [Numeral.magnitude, Nat.cast_zero, zero_mul]
  have hzero' : (zero negative).magnitude = 0 := by rw [zero, magnitude, Nat.cast_zero, zero_mul]
  refine ⟨rfl, fun m k _ _ => ?_, fun m _ _ => ?_⟩
  · rw [hzero]
    exact hasDigits_zero k
  · rw [hzero, hzero', sub_self, abs_zero, zero_sub, abs_neg]
    exact ⟨abs_nonneg _, fun h => (abs_eq_zero.1 h.symm).le⟩

theorem toList_write_bare (negative : Bool) (s : Nat) (e : Int) :
    (bare.write (.finite negative s e)).toList =
      (if negative then ['-'] else []) ++ (positionalText false (shortest .up s e)).toList := by
  cases negative <;> simp [Notation64.write, bare]

theorem isWritten_of_parts {negative : Bool} {s : Nat} {e : Int} {whole fraction : List Char}
    (h : Parts whole fraction)
    (htext : (positionalText false (shortest .up s e)).toList = partsText false whole fraction)
    (hn : (finite negative s e).IsShortestOf ⟨negative, Nat.ofDigitChars 10 (whole ++ fraction) 0, -fraction.length⟩) :
    (finite negative s e).IsWritten (bare.write (.finite negative s e)) := by
  have hlist : (bare.write (.finite negative s e)).toList = partsText negative whole fraction := by
    rw [toList_write_bare, htext, partsText, partsText, if_neg Bool.false_ne_true, List.nil_append, List.append_assoc]
  exact ⟨⟨whole, fraction, h, hlist⟩, _, hlist ▸ numeral?_partsText negative h, hn⟩

/-- A name that is a number is written by its shortest digits. -/
theorem isWritten_bare {x : Binary64} (hx : x.WellFormed) : x.IsWritten (bare.write x) := by
  match x with
  | .nan => exact rfl
  | .infinite true => exact rfl
  | .infinite false => exact rfl
  | .finite negative s e =>
    rcases Nat.eq_zero_or_pos s with rfl | hs
    · obtain rfl := hx.2.2.2.resolve_left (by decide)
      have htext : (positionalText false (shortest .up 0 (-1074))).toList = partsText false ['0'] [] := by
        rw [shortest, if_pos rfl]
        rfl
      exact isWritten_of_parts parts_zero htext (isShortestOf_zero negative)
    · obtain ⟨hshortest, hlast⟩ := isShortest_shortest hx hs
      obtain ⟨whole, fraction, hparts, htext, hvalue⟩ := exists_parts_positionalText hlast
      refine isWritten_of_parts hparts htext (isShortestOf_of_isShortest hx hs rfl ?_)
      rw [← hvalue] at hshortest
      exact hshortest

end Binary64

end Preflight
