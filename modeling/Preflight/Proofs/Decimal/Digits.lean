import Preflight.Decimal.Reading
/-!
# Digits

The digits of a number are read as the number (`natInBase?_toDigits`). They begin
with a zero only if they are that of zero, and end in one only if ten divides the
number.
-/

namespace Preflight.Decimal

theorem digit?_of_isDigit {c : Char} (h : c.isDigit = true) : digit? c = some (c.toNat - '0'.toNat) := by
  unfold digit?
  rw [if_pos]
  simpa [Char.isDigit, Char.le_def] using h

theorem value_lt_of_isDigit {c : Char} (h : c.isDigit = true) : c.toNat - '0'.toNat < 10 := by
  have hle : c.toNat ≤ '9'.toNat := by
    simp only [Char.isDigit, Bool.and_eq_true, decide_eq_true_eq] at h
    exact h.2
  have hzero : '0'.toNat = 48 := rfl
  have hnine : '9'.toNat = 57 := rfl
  omega

/-- Digits are read as the number they spell. -/
theorem natInBase?_of_digits {cs : List Char} (hne : cs ≠ []) (h : ∀ c ∈ cs, c.isDigit = true) :
    natInBase? 10 cs = some (Nat.ofDigitChars 10 cs 0) := by
  unfold natInBase?
  rw [if_neg (by simpa using hne)]
  generalize 0 = start
  induction cs generalizing start with
  | nil => exact absurd rfl hne
  | cons c cs ih =>
    obtain ⟨hc, hcs⟩ := List.forall_mem_cons.1 h
    rw [List.foldlM_cons, digit?_of_isDigit hc, Nat.ofDigitChars_cons, Nat.mul_comm 10 start]
    simp only [Option.bind_eq_bind, Option.bind_some, if_pos (value_lt_of_isDigit hc)]
    cases cs with
    | nil => rfl
    | cons => exact ih (by simp) hcs _

theorem isDigit_of_mem_toDigits {n : Nat} {c : Char} (h : c ∈ Nat.toDigits 10 n) : c.isDigit = true :=
  Nat.isDigit_of_mem_toDigits (by decide) (by decide) h

theorem natInBase?_toDigits (n : Nat) : natInBase? 10 (Nat.toDigits 10 n) = some n := by
  rw [natInBase?_of_digits Nat.toDigits_ne_nil fun _ => isDigit_of_mem_toDigits, Nat.ofDigitChars_ten_toDigits]

theorem digitChar_ne_zero {n : Nat} (hn : n < 10) (hpos : n ≠ 0) : n.digitChar ≠ '0' := by
  intro hzero
  have hvalue := Nat.toNat_digitChar_of_lt_ten hn
  rw [hzero] at hvalue
  have hcode : '0'.toNat = 48 := rfl
  omega

/-- Only zero itself is written with a zero in front. -/
theorem toDigits_eq_cons (n : Nat) :
    ∃ c cs, Nat.toDigits 10 n = c :: cs ∧ c.isDigit = true ∧ (c = '0' → n = 0 ∧ cs = []) := by
  induction n using Nat.strongRecOn with
  | ind n ih =>
    by_cases hn : n < 10
    · have hdigits := Nat.toDigits_of_lt_base hn
      refine ⟨n.digitChar, [], hdigits, isDigit_of_mem_toDigits (n := n) (by simp [hdigits]), ?_⟩
      exact fun hzero => ⟨Decidable.byContradiction fun hne => digitChar_ne_zero hn hne hzero, rfl⟩
    · -- All digits but the last are those of a tenth of the number.
      obtain ⟨c, cs, hcs, hdigit, hzero⟩ := ih (n / 10) (by omega)
      refine ⟨c, cs ++ [(n % 10).digitChar], ?_, hdigit, ?_⟩
      · rw [Nat.toDigits_of_base_le (by decide) (by omega), hcs, List.cons_append]
      · intro hc
        have := (hzero hc).1
        omega

/-- The last digit is what is left of a division by ten. -/
theorem getLast?_toDigits (n : Nat) : (Nat.toDigits 10 n).getLast? = some (n % 10).digitChar := by
  by_cases hn : n < 10
  · rw [Nat.toDigits_of_lt_base hn, Nat.mod_eq_of_lt hn]
    rfl
  · rw [Nat.toDigits_of_base_le (by decide) (by omega), List.getLast?_concat]

end Preflight.Decimal
