import Preflight.Text.Blank
/-!
# What trimming leaves

A text is solid exactly when it is not empty and neither its first nor its last
character is blank (`solid_iff_unpadded`). Letter case and blanks do not get in
each other's way, so the key of a text is its own key (`key_key`).
-/

namespace Preflight.Text

/-- The text is not empty, and neither its first nor its last character is blank. -/
structure Unpadded (s : String) : Prop where
  ne_empty : s ≠ ""
  first : ∀ c, s.toList.head? = some c → isBlank c = false
  last : ∀ c, s.toList.getLast? = some c → isBlank c = false

theorem head_dropWhile {p : Char → Bool} {cs : List Char} {c : Char} (h : (cs.dropWhile p).head? = some c) :
    p c = false := by
  have hhead := List.head?_dropWhile_not p cs
  rw [h] at hhead
  exact hhead

theorem dropWhile_eq_self {p : Char → Bool} {cs : List Char} (h : ∀ c, cs.head? = some c → p c = false) :
    cs.dropWhile p = cs := by
  cases cs with
  | nil => rfl
  | cons c cs => rw [List.dropWhile_cons, h c rfl, if_neg Bool.false_ne_true]

theorem trimChars_eq_self_iff (cs : List Char) :
    trimChars cs = cs ↔
      (∀ c, cs.head? = some c → isBlank c = false) ∧ ∀ c, cs.getLast? = some c → isBlank c = false := by
  constructor
  · intro h
    constructor
    · intro c hc
      have hdrop := dropWhile_reverse_dropWhile isBlank (cs.dropWhile isBlank) (dropWhile_dropWhile isBlank cs)
      rw [← trimChars, h] at hdrop
      rw [← hdrop] at hc
      exact head_dropWhile hc
    · intro c hc
      rw [← h, trimChars, List.getLast?_reverse] at hc
      exact head_dropWhile hc
  · rintro ⟨hfirst, hlast⟩
    have hrev : ∀ c, cs.reverse.head? = some c → isBlank c = false := by
      intro c hc
      rw [List.head?_reverse] at hc
      exact hlast c hc
    rw [trimChars, dropWhile_eq_self hfirst, dropWhile_eq_self hrev, List.reverse_reverse]

theorem trim_eq_self_iff (s : String) : trim s = s ↔ trimChars s.toList = s.toList := by
  rw [← String.toList_inj, trim, String.toList_ofList]

theorem solid_iff_unpadded (s : String) : Solid s ↔ Unpadded s := by
  rw [Solid, trim_eq_self_iff, trimChars_eq_self_iff]
  constructor
  · rintro ⟨hne, hfirst, hlast⟩
    exact ⟨hne, hfirst, hlast⟩
  · intro h
    exact ⟨h.ne_empty, h.first, h.last⟩

/-! ## Letter case -/

theorem toLower_of_upper {c : Char} (h : 'A' ≤ c ∧ c ≤ 'Z') : c.toLower.toNat = c.toNat + 32 := by
  obtain ⟨hA, hZ⟩ := h
  have hA' : 'A'.val ≤ c.val := hA
  have hZ' : c.val ≤ 'Z'.val := hZ
  have hle : c.val.toNat ≤ 90 := UInt32.le_iff_toNat_le.1 hZ'
  refine (congrArg Char.toNat (dif_pos ⟨hA', hZ'⟩)).trans ?_
  show (c.val + 32).toNat = c.val.toNat + 32
  rw [UInt32.toNat_add]
  show (c.val.toNat + 32) % 2^32 = _
  omega

theorem toLower_of_not_upper {c : Char} (h : ¬('A' ≤ c ∧ c ≤ 'Z')) : c.toLower = c :=
  dif_neg h

theorem not_isBlank {c : Char} (hfirst : 65 ≤ c.toNat) (hlast : c.toNat ≤ 122) : isBlank c = false := by
  rw [Bool.eq_false_iff, isBlank]
  simp only [ne_eq, Bool.or_eq_true, Bool.and_eq_true, decide_eq_true_eq, beq_iff_eq]
  omega

theorem isBlank_toLower (c : Char) : isBlank c.toLower = isBlank c := by
  by_cases h : 'A' ≤ c ∧ c ≤ 'Z'
  · have hlower := toLower_of_upper h
    have hA : 65 ≤ c.toNat := Char.le_def.1 h.1
    have hZ : c.toNat ≤ 90 := Char.le_def.1 h.2
    rw [not_isBlank (by omega) (by omega), not_isBlank (by omega) (by omega)]
  · rw [toLower_of_not_upper h]

theorem toLower_toLower (c : Char) : c.toLower.toLower = c.toLower := by
  by_cases h : 'A' ≤ c ∧ c ≤ 'Z'
  · refine toLower_of_not_upper ?_
    rintro ⟨-, hZ⟩
    have hlower := toLower_of_upper h
    have hA : 65 ≤ c.toNat := Char.le_def.1 h.1
    have hZ : c.toLower.toNat ≤ 90 := Char.le_def.1 hZ
    omega
  · rw [toLower_of_not_upper h, toLower_of_not_upper h]

theorem trimChars_lower (cs : List Char) : trimChars (cs.map Char.toLower) = (trimChars cs).map Char.toLower := by
  have hblank : isBlank ∘ Char.toLower = isBlank := funext isBlank_toLower
  simp only [trimChars, List.dropWhile_map, ← List.map_reverse, hblank]

theorem trim_lower (s : String) : trim (lower s) = lower (trim s) := by
  simp only [trim, lower, String.toList_ofList, trimChars_lower]

theorem lower_lower (s : String) : lower (lower s) = lower s := by
  simp only [lower, String.toList_ofList, List.map_map, Function.comp_def, toLower_toLower]

theorem key_trim (s : String) : key (trim s) = key s := by
  rw [key, key, trim_trim]

/-- The form in which a name is compared is its own. -/
theorem key_key (s : String) : key (key s) = key s := by
  rw [key, key, trim_lower, trim_trim, lower_lower]

theorem key_eq_empty_iff (s : String) : key s = "" ↔ trim s = "" := by
  rw [key, lower, ← String.toList_inj, ← String.toList_inj, String.toList_ofList]
  simp

end Preflight.Text
