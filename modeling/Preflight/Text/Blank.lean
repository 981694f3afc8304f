/-!
White space and trimming. `isBlank` is Unicode's White_Space property; `trim` cuts the blanks off
both ends of a text, so what it returns neither starts nor ends with one (`trim_trim`,
`trim_eq_empty_iff`). `key` is the form in which names are compared when letter case and
surrounding blanks do not count.
-/

namespace Preflight.Text

/-- The 25 code points of Unicode's White_Space property. -/
def isBlank (c : Char) : Bool :=
  let n := c.toNat
  (9 ≤ n && n ≤ 13) || n == 0x20 || n == 0x85 || n == 0xA0 || n == 0x1680 ||
    (0x2000 ≤ n && n ≤ 0x200A) || n == 0x2028 || n == 0x2029 || n == 0x202F || n == 0x205F ||
    n == 0x3000

/-- A list of characters without the blanks at its two ends. -/
def trimChars (cs : List Char) : List Char :=
  ((cs.dropWhile isBlank).reverse.dropWhile isBlank).reverse

/-- A text without the blanks at its two ends. -/
def trim (s : String) : String :=
  String.ofList (trimChars s.toList)

/-- A text with the letters `A` to `Z` in lower case and all else as it is. -/
def lower (s : String) : String :=
  String.ofList (s.toList.map Char.toLower)

/-- The form in which names are compared: trimmed, and in lower case as far as ASCII goes. -/
def key (s : String) : String :=
  lower (trim s)

/-- A text that is not empty and has no blank at either end. -/
def Solid (s : String) : Prop :=
  s ≠ "" ∧ trim s = s

/-! ## Trimming -/

theorem dropWhile_dropWhile (p : Char → Bool) (cs : List Char) :
    (cs.dropWhile p).dropWhile p = cs.dropWhile p := by
  induction cs with
  | nil => rfl
  | cons c cs ih => by_cases h : p c = true <;> simp [h, ih]

theorem dropWhile_eq_nil_iff (p : Char → Bool) (cs : List Char) :
    cs.dropWhile p = [] ↔ ∀ c ∈ cs, p c = true := by
  induction cs with
  | nil => simp
  | cons c cs ih => by_cases h : p c = true <;> simp [h, ih]

/-- A text without a first character to drop keeps its first character when its end is cut. -/
theorem dropWhile_reverse_dropWhile (p : Char → Bool) (cs : List Char)
    (h : cs.dropWhile p = cs) :
    ((cs.reverse.dropWhile p).reverse).dropWhile p = (cs.reverse.dropWhile p).reverse := by
  cases cs with
  | nil => rfl
  | cons c cs =>
    have hc : p c = false := by
      by_cases hc : p c = true
      · have := congrArg List.length h
        have hle := (List.dropWhile_suffix p (l := cs)).length_le
        simp [hc] at this
        omega
      · simpa using hc
    have key : ∀ (ds : List Char), ∃ es, (ds ++ [c]).dropWhile p = es ++ [c] := by
      intro ds
      induction ds with
      | nil => exact ⟨[], by simp [hc]⟩
      | cons d ds ih =>
        by_cases hd : p d = true
        · simpa [List.dropWhile_cons, hd] using ih
        · exact ⟨d :: ds, by simp [hd]⟩
    obtain ⟨es, hes⟩ := key cs.reverse
    simp [List.reverse_cons, hes, hc]

theorem trimChars_trimChars (cs : List Char) : trimChars (trimChars cs) = trimChars cs := by
  have h := dropWhile_reverse_dropWhile isBlank (cs.dropWhile isBlank)
    (dropWhile_dropWhile isBlank cs)
  simp only [trimChars] at *
  rw [h, List.reverse_reverse, dropWhile_dropWhile]

/-- Trimming twice is trimming once. -/
@[simp]
theorem trim_trim (s : String) : trim (trim s) = trim s := by
  simp [trim, trimChars_trimChars]

theorem trimChars_eq_nil_iff (cs : List Char) :
    trimChars cs = [] ↔ ∀ c ∈ cs, isBlank c = true := by
  simp only [trimChars, List.reverse_eq_nil_iff]
  constructor
  · intro h
    have h' := (dropWhile_eq_nil_iff _ _).1 h
    have h'' : cs.dropWhile isBlank = [] := by
      rcases hd : cs.dropWhile isBlank with _ | ⟨d, ds⟩
      · rfl
      · have hb : isBlank d = true := h' d (by simp [hd])
        have := dropWhile_dropWhile isBlank cs
        rw [hd] at this
        have hlen := congrArg List.length this
        have hle := (List.dropWhile_suffix isBlank (l := ds)).length_le
        simp [hb] at hlen
        omega
    exact (dropWhile_eq_nil_iff _ _).1 h''
  · intro h
    rw [(dropWhile_eq_nil_iff _ _).2 h]
    rfl

/-- Nothing is left of a text exactly when it is blank throughout. -/
theorem trim_eq_empty_iff (s : String) : trim s = "" ↔ ∀ c ∈ s.toList, isBlank c = true := by
  rw [← trimChars_eq_nil_iff, trim, ← String.toList_inj, String.toList_ofList]
  simp

/-- What trimming leaves of a text that is not blank is solid. -/
theorem solid_trim {s : String} (h : trim s ≠ "") : Solid (trim s) :=
  ⟨h, trim_trim s⟩

end Preflight.Text
