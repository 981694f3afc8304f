import Preflight.Proofs.Decimal.Digits
import Preflight.Proofs.Decimal.Rounding
import Preflight.Yaml.Resolve
/-!
# Bare numbers

A whole number that fits a word, written in decimal, is read as itself
(`resolve_toString`): no digit is lost on the way, however large it is. Any other
number is read as a double (`wellFormed_of_resolve`).
-/

namespace Preflight.Yaml

theorem base?_of_digits {cs : List Char} (h : ∀ c ∈ cs, c.isDigit = true) : base? cs = none := by
  unfold base?
  split
  · exact absurd (h 'x' (by simp)) (by decide)
  · exact absurd (h 'o' (by simp)) (by decide)
  · exact absurd (h 'b' (by simp)) (by decide)
  · rfl

theorem digits?_toDigits (n : Nat) : digits? (Nat.toDigits 10 n) = some n := by
  rw [digits?, base?_of_digits fun _ => Decimal.isDigit_of_mem_toDigits, Decimal.natInBase?_toDigits]
  rfl

theorem isZeroLed_of_head {c : Char} {cs : List Char} (hc : c.isDigit = true) (h : c = '0' → cs = []) :
    isZeroLed (c :: cs) = false ∧ isZeroLed ('-' :: c :: cs) = false := by
  have hdigits : (decide ((c :: cs).length > 1) && (c :: cs).head? == some '0') = false := by
    by_cases hzero : c = '0'
    · simp [h hzero]
    · simp [hzero]
  have hsigns : c ≠ '-' ∧ c ≠ '+' := by
    constructor <;> (rintro rfl; exact absurd hc (by decide))
  constructor
  · unfold isZeroLed
    split
    · simp_all
    · simp_all
    · simp_all
  · unfold isZeroLed
    simp_all

theorem whole?_toString (n : Int) : whole? (toString n).toList = some n := by
  cases n with
  | ofNat m =>
    obtain ⟨c, cs, hcs, hdigit, hzero⟩ := Decimal.toDigits_eq_cons m
    have htext : (toString (Int.ofNat m)).toList = c :: cs := by rw [← hcs, ← Nat.toList_repr]; rfl
    unfold whole?
    rw [htext, (isZeroLed_of_head hdigit fun h => (hzero h).2).1, if_neg Bool.false_ne_true]
    split
    · cases ‹c :: cs = _›
      exact absurd hdigit (by decide)
    · cases ‹c :: cs = _›
      exact absurd hdigit (by decide)
    · rw [← hcs, digits?_toDigits]
      rfl
  | negSucc m =>
    obtain ⟨c, cs, hcs, hdigit, hzero⟩ := Decimal.toDigits_eq_cons (m + 1)
    have htext : (toString (Int.negSucc m)).toList = '-' :: c :: cs := by
      rw [← hcs, ← Nat.toList_repr]
      exact String.toList_append
    rw [htext, whole?, (isZeroLed_of_head hdigit fun h => (hzero h).2).2, if_neg Bool.false_ne_true]
    show (digits? (c :: cs)).map (fun k => -(k : Int)) = some (Int.negSucc m)
    rw [← hcs, digits?_toDigits]
    rfl

/-- The words for null and the truth values. -/
def words : List String :=
  ["null", "Null", "NULL", "~", "true", "True", "TRUE", "false", "False", "FALSE"]

/-- What is spelled like a whole number that fits is that number. -/
theorem resolvePlain_of_whole {text : String} {n : Int} (h : whole? text.toList = some n)
    (hn : wholeKind n = .fits) : resolvePlain text = some (.int n) := by
  have hempty : text ≠ "" := by
    rintro rfl
    exact nomatch h
  have hwords : (null? text <|> bool? text) = none := by
    have hnone : ∀ word ∈ words, whole? word.toList = none := by decide
    have hword (word : String) (hmem : word ∈ words) : text ≠ word := by
      rintro rfl
      exact nomatch (hnone text hmem).symm.trans h
    unfold null? bool?
    split
    · exact absurd rfl (hword _ (by decide))
    · exact absurd rfl (hword _ (by decide))
    · exact absurd rfl (hword _ (by decide))
    · exact absurd rfl (hword _ (by decide))
    · split
      all_goals first | rfl | exact absurd rfl (hword _ (by decide))
  rw [resolvePlain, if_neg hempty, hwords, h]
  simp only [Option.map_some, hn]

/-- A whole number within the bounds of a word is read as itself, in full. -/
theorem resolve_toString {n : Int} (hlow : -(pow2 63 : Int) ≤ n) (hhigh : n < pow2 64) :
    resolve none true (toString n) = some (.int n) := by
  have hfits : wholeKind n = .fits := if_pos ⟨hlow, hhigh⟩
  exact resolvePlain_of_whole (whole?_toString n) hfits

/-! ## Numbers with a fraction -/

theorem wellFormed_of_float? {source : String} {x : Binary64} (h : float? source = some (.float x)) : x.WellFormed := by
  unfold float? at h
  simp only at h
  split_ifs at h
  · cases h
    trivial
  · cases h
    trivial
  · cases h
    trivial
  · obtain ⟨n, -, hn⟩ := Option.bind_eq_some_iff.1 h
    split_ifs at hn
    cases hn
    exact Binary64.wellFormed_ofDecimal _ _ _

theorem bool?_ne_float (source : String) (x : Binary64) : bool? source ≠ some (.float x) := by
  unfold bool?
  split <;> simp

theorem null?_ne_float (source : String) (x : Binary64) : null? source ≠ some (.float x) := by
  unfold null?
  split <;> simp

theorem resolvePlain_eq_float {source : String} {x : Binary64} (h : resolvePlain source = some (.float x)) :
    float? source = some (.float x) := by
  unfold resolvePlain at h
  split at h
  · cases h
  · split at h
    · rename_i t hword
      rw [Option.some.inj h] at hword
      rw [Option.orElse_eq_orElse, Option.orElse_eq_or] at hword
      rcases Option.or_eq_some_iff.1 hword with hnull | ⟨-, hbool⟩
      · exact absurd hnull (null?_ne_float source x)
      · exact absurd hbool (bool?_ne_float source x)
    · split at h
      · cases h
      · cases h
      · split_ifs at h
        · cases h
        · cases hfloat : float? source with
          | none =>
            rw [hfloat] at h
            cases h
          | some t =>
            rw [hfloat] at h
            exact h

theorem resolveStandard_eq_float {tag source : String} {x : Binary64}
    (h : resolveStandard tag source = some (.float x)) : float? source = some (.float x) := by
  unfold resolveStandard at h
  split_ifs at h
  · exact absurd h (bool?_ne_float source x)
  · split at h <;> cases h
  · exact h
  · exact absurd h (null?_ne_float source x)
  · cases h

/-- A scalar is read as a number with a fraction only if the number is a double. -/
theorem wellFormed_of_resolve {tag : Option String} {isPlain : Bool} {source : String} {x : Binary64}
    (h : resolve tag isPlain source = some (.float x)) : x.WellFormed := by
  unfold resolve at h
  cases tag with
  | none =>
    cases isPlain with
    | true => exact wellFormed_of_float? (resolvePlain_eq_float h)
    | false => cases h
  | some tag =>
    by_cases hown : (ownTag? tag).isSome = true
    · -- A tag of the document's own is kept around the scalar.
      simp only [if_pos hown] at h
      obtain ⟨t, -, ht⟩ := Option.map_eq_some_iff.1 h
      obtain ⟨name, hname⟩ := Option.isSome_iff_exists.1 hown
      rw [underTag, Option.bind_some, hname] at ht
      cases ht
    · simp only [if_neg hown] at h
      exact wellFormed_of_float? (resolveStandard_eq_float h)

end Preflight.Yaml
