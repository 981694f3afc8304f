import Preflight.Proofs.Model.History
import Preflight.Proofs.Text.Spelling
/-!
# What a candidate is expanded to

A shorthand says what its name stands for on its backend, however the two are
spelt. Of the shorthands given one after the other the last that says anything
about a candidate counts, and a candidate about which none says anything stays
as it is (`expandsTo_iff`).
-/

namespace Preflight.Shorthand

/-- The shorthand says that a name stands for a model on a backend: it spells both, and the model is the text it gives
without the blanks around it. -/
structure StandsFor (s : Shorthand) (backend name model : String) : Prop where
  backend : Text.SameName s.backend backend
  name : Text.SameName s.name name
  model : Text.CoreOf model s.canonical

/-- What a candidate is on a backend: the model that the last shorthand about it says, or else the candidate itself. -/
inductive ExpandsTo (given : List Shorthand) (backend candidate : String) : String → Prop
  | last {earlier later : List Shorthand} {s : Shorthand} {model : String} (split : given = earlier ++ s :: later)
      (stands : s.StandsFor backend candidate model)
      (silent : ∀ x ∈ later, ∀ other, ¬ x.StandsFor backend candidate other) : ExpandsTo given backend candidate model
  | itself (silent : ∀ x ∈ given, ∀ other, ¬ x.StandsFor backend candidate other) :
      ExpandsTo given backend candidate candidate

theorem standsFor_iff (s : Shorthand) (backend name model : String) :
    s.StandsFor backend name model ↔ s.answers backend name = true ∧ model = Text.trim s.canonical := by
  rw [answers, decide_eq_true_iff]
  constructor
  · rintro ⟨hbackend, hname, hmodel⟩
    obtain ⟨hb, -, hbkey⟩ := (Text.sameName_iff _ _).1 hbackend
    obtain ⟨hn, -, hnkey⟩ := (Text.sameName_iff _ _).1 hname
    obtain ⟨hc, rfl⟩ := (Text.coreOf_iff _ _).1 hmodel
    exact ⟨⟨hb, hn, hc, hbkey, hnkey⟩, rfl⟩
  · rintro ⟨⟨hb, hn, hc, hbkey, hnkey⟩, rfl⟩
    have hsome {own asked : String} (hown : Text.trim own ≠ "") (hkey : Text.key own = Text.key asked) :
        Text.SameName own asked := by
      have hasked : Text.trim asked ≠ "" := by
        rwa [ne_eq, ← Text.key_eq_empty_iff, ← hkey, Text.key_eq_empty_iff]
      exact (Text.sameName_iff own asked).2 ⟨hown, hasked, hkey⟩
    exact ⟨hsome hb hbkey, hsome hn hnkey, (Text.coreOf_iff _ _).2 ⟨hc, rfl⟩⟩

theorem silent_iff (s : Shorthand) (backend name : String) :
    (∀ model, ¬ s.StandsFor backend name model) ↔ s.answers backend name = false := by
  simp only [standsFor_iff, not_and, Bool.eq_false_iff]
  constructor
  · intro h hanswers
    exact h _ hanswers rfl
  · intro h _ hanswers
    exact absurd hanswers h

theorem expandsTo_iff (given : List Shorthand) (backend candidate model : String) :
    ExpandsTo given backend candidate model ↔ model = (last? given backend candidate).getD candidate := by
  constructor
  · rintro (⟨hsplit, hstands, hsilent⟩ | hsilent)
    · obtain ⟨hanswers, rfl⟩ := (standsFor_iff _ _ _ _).1 hstands
      have hlast := (last?_eq_some_iff given backend candidate _).2
        ⟨_, _, _, hsplit, hanswers, fun x hx => (silent_iff x _ _).1 (hsilent x hx), rfl⟩
      rw [hlast, Option.getD_some]
    · have hnone := (last?_eq_none_iff given backend candidate).2 fun x hx => (silent_iff x _ _).1 (hsilent x hx)
      rw [hnone, Option.getD_none]
  · rintro rfl
    cases hlast : last? given backend candidate with
    | none => exact .itself fun x hx => (silent_iff x _ _).2 ((last?_eq_none_iff _ _ _).1 hlast x hx)
    | some model =>
      obtain ⟨earlier, s, later, hsplit, hanswers, hlater, hmodel⟩ := (last?_eq_some_iff _ _ _ _).1 hlast
      exact .last hsplit ((standsFor_iff _ _ _ _).2 ⟨hanswers, hmodel⟩) fun x hx => (silent_iff x _ _).2 (hlater x hx)

end Preflight.Shorthand
