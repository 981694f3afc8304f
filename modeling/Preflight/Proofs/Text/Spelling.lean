import Mathlib.Data.List.Forall2
import Preflight.Proofs.Text.Trim
/-!
# Two spellings of one name

A name may be spelt with blanks around it and with the letters of ASCII in
either case (`SameName`). Texts that are not blank have one key exactly if they
spell one name (`sameName_iff`), and the key is the spelling without blanks and
capitals (`isKeyOf_iff`).
-/

namespace Preflight.Text

/-! ## Blanks around a text -/

/-- The text is the core with blanks around it; the core has none at its ends. -/
structure CoreOf (core s : String) : Prop where
  unpadded : Unpadded core
  around : ∃ before after : List Char, (∀ c ∈ before, isBlank c = true) ∧ (∀ c ∈ after, isBlank c = true) ∧
    s.toList = before ++ core.toList ++ after

theorem dropWhile_append_of_all {p : Char → Bool} {before : List Char} (h : ∀ c ∈ before, p c = true) (cs : List Char) :
    (before ++ cs).dropWhile p = cs.dropWhile p := by
  rw [List.dropWhile_append, (dropWhile_eq_nil_iff p before).2 h]
  rfl

/-- Blanks in front of a list and after it are trimmed away. -/
theorem trimChars_around {before cs after : List Char} (hbefore : ∀ c ∈ before, isBlank c = true)
    (hafter : ∀ c ∈ after, isBlank c = true) (hne : cs ≠ []) (hcs : trimChars cs = cs) :
    trimChars (before ++ cs ++ after) = cs := by
  obtain ⟨hfirst, hlast⟩ := (trimChars_eq_self_iff cs).1 hcs
  have hfront : (before ++ cs ++ after).dropWhile isBlank = cs ++ after := by
    rw [List.append_assoc, dropWhile_append_of_all hbefore]
    apply dropWhile_eq_self
    intro c hc
    rw [List.head?_append_of_ne_nil _ hne] at hc
    exact hfirst c hc
  have hback : (cs ++ after).reverse.dropWhile isBlank = cs.reverse := by
    rw [List.reverse_append, dropWhile_append_of_all fun c hc => hafter c (List.mem_reverse.1 hc)]
    apply dropWhile_eq_self
    intro c hc
    rw [List.head?_reverse] at hc
    exact hlast c hc
  rw [trimChars, hfront, hback, List.reverse_reverse]

/-- What trimming takes from a list is blank. -/
theorem exists_around_trimChars (cs : List Char) :
    ∃ before after : List Char, (∀ c ∈ before, isBlank c = true) ∧ (∀ c ∈ after, isBlank c = true) ∧
      cs = before ++ trimChars cs ++ after := by
  refine ⟨cs.takeWhile isBlank, ((cs.dropWhile isBlank).reverse.takeWhile isBlank).reverse, ?_, ?_, ?_⟩
  · exact List.all_eq_true.1 List.all_takeWhile
  · exact fun c hc => List.all_eq_true.1 List.all_takeWhile c (List.mem_reverse.1 hc)
  · rw [trimChars, List.append_assoc, ← List.reverse_append, List.takeWhile_append_dropWhile, List.reverse_reverse,
      List.takeWhile_append_dropWhile]

theorem coreOf_iff (core s : String) : CoreOf core s ↔ trim s ≠ "" ∧ core = trim s := by
  constructor
  · rintro ⟨hcore, before, after, hbefore, hafter, hs⟩
    have hne : core.toList ≠ [] := fun h => hcore.ne_empty (String.toList_eq_nil_iff.1 h)
    have htrim : core = trim s := by
      rw [trim, hs, trimChars_around hbefore hafter hne ((trim_eq_self_iff core).1 ((solid_iff_unpadded core).2 hcore).2),
        String.ofList_toList]
    exact ⟨htrim ▸ hcore.ne_empty, htrim⟩
  · rintro ⟨hne, rfl⟩
    obtain ⟨before, after, hbefore, hafter, hs⟩ := exists_around_trimChars s.toList
    exact ⟨(solid_iff_unpadded _).1 (solid_trim hne), before, after, hbefore, hafter, by rw [trim, String.toList_ofList, ← hs]⟩

/-! ## Letters in either case -/

/-- A capital letter of ASCII. -/
def IsCapital (c : Char) : Prop :=
  65 ≤ c.toNat ∧ c.toNat ≤ 90

/-- The characters are the same, or one letter of ASCII in two cases. -/
def SameLetter (a b : Char) : Prop :=
  a = b ∨ (IsCapital a ∧ b.toNat = a.toNat + 32) ∨ (IsCapital b ∧ a.toNat = b.toNat + 32)

/-- The second character is the first, as a small letter if that is a capital of ASCII. -/
def SmallOf (a b : Char) : Prop :=
  (IsCapital a ∧ b.toNat = a.toNat + 32) ∨ (¬ IsCapital a ∧ b = a)

theorem smallOf_iff (a b : Char) : SmallOf a b ↔ b = a.toLower := by
  by_cases ha : IsCapital a
  · have hlower := toLower_of_upper (c := a) ⟨Char.le_def.2 ha.1, Char.le_def.2 ha.2⟩
    simp only [SmallOf, ha, true_and, not_true_eq_false, false_and, or_false, ← hlower]
    exact ⟨fun h => Char.toNat_inj.1 h, fun h => congrArg Char.toNat h⟩
  · have hsame : a.toLower = a := toLower_of_not_upper fun h => ha ⟨Char.le_def.1 h.1, Char.le_def.1 h.2⟩
    simp [SmallOf, ha, hsame]

theorem sameLetter_iff (a b : Char) : SameLetter a b ↔ a.toLower = b.toLower := by
  have ha := (smallOf_iff a a.toLower).2 rfl
  have hb := (smallOf_iff b b.toLower).2 rfl
  simp only [SmallOf, IsCapital] at ha hb
  simp only [SameLetter, IsCapital, ← Char.toNat_inj] at ha hb ⊢
  omega

/-! ## Names -/

/-- Neither text is blank, and without the blanks around them they differ in the case of ASCII letters at most. -/
def SameName (s t : String) : Prop :=
  ∃ core core', CoreOf core s ∧ CoreOf core' t ∧ List.Forall₂ SameLetter core.toList core'.toList

/-- A text that is not blank, without the blanks around it and with small letters for the capitals of ASCII. -/
def IsKeyOf (k s : String) : Prop :=
  ∃ core, CoreOf core s ∧ List.Forall₂ SmallOf core.toList k.toList

theorem sameName_iff (s t : String) : SameName s t ↔ trim s ≠ "" ∧ trim t ≠ "" ∧ key s = key t := by
  have hcores : List.Forall₂ SameLetter (trim s).toList (trim t).toList ↔ key s = key t := by
    have hletters : SameLetter = fun a b => a.toLower = b.toLower :=
      funext fun a => funext fun b => propext (sameLetter_iff a b)
    rw [hletters, key, key, lower, lower, String.ofList_inj, ← List.forall₂_eq_eq_eq, List.forall₂_map_left_iff,
      List.forall₂_map_right_iff]
  constructor
  · rintro ⟨core, core', hs, ht, hsame⟩
    obtain ⟨hs', rfl⟩ := (coreOf_iff core s).1 hs
    obtain ⟨ht', rfl⟩ := (coreOf_iff core' t).1 ht
    exact ⟨hs', ht', hcores.1 hsame⟩
  · rintro ⟨hs, ht, hkey⟩
    exact ⟨trim s, trim t, (coreOf_iff _ s).2 ⟨hs, rfl⟩, (coreOf_iff _ t).2 ⟨ht, rfl⟩, hcores.2 hkey⟩

theorem isKeyOf_iff (k s : String) : IsKeyOf k s ↔ trim s ≠ "" ∧ k = key s := by
  have hcore : List.Forall₂ SmallOf (trim s).toList k.toList ↔ k = key s := by
    have hletters : SmallOf = fun a b => a.toLower = b :=
      funext fun a => funext fun b => propext ((smallOf_iff a b).trans eq_comm)
    rw [hletters, ← List.forall₂_map_left_iff, List.forall₂_eq_eq_eq, key, lower, ← String.toList_inj,
      String.toList_ofList, eq_comm]
  constructor
  · rintro ⟨core, hs, hsmall⟩
    obtain ⟨hs', rfl⟩ := (coreOf_iff core s).1 hs
    exact ⟨hs', hcore.1 hsmall⟩
  · rintro ⟨hs, hkey⟩
    exact ⟨trim s, (coreOf_iff _ s).2 ⟨hs, rfl⟩, hcore.2 hkey⟩

end Preflight.Text
