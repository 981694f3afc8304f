import Preflight.Model.AliasTable
import Preflight.Proofs.Text.Trim
/-!
# What a table of shorthands knows

A table is the list of the shorthands given to it, in which the last that
answers to a backend and a name counts (`lookup_insertAll`); both the known
shorthands and those of a workflow are such lists. What is looked up in a table
has no blanks around it (`Built.clean`).
-/

namespace Preflight

/-- A shorthand as it is given to a table. -/
structure Shorthand where
  backend : String
  name : String
  canonical : String
  deriving DecidableEq, Repr

namespace Shorthand

/-- Whether none of the three texts is blank, and the first two are this backend and this name but for letter case and
the blanks around them. -/
def answers (s : Shorthand) (backend name : String) : Bool :=
  Text.trim s.backend ≠ "" ∧ Text.trim s.name ≠ "" ∧ Text.trim s.canonical ≠ "" ∧
    Text.key s.backend = Text.key backend ∧ Text.key s.name = Text.key name

/-- The shorthands of each backend, one after the other. -/
def ofEntries (entries : List (String × List (String × String))) : List Shorthand :=
  entries.flatMap fun b => b.2.map fun a => ⟨b.1, a.1, a.2⟩

/-- What the last shorthand that answers to a backend and a name stands for. -/
def last? (given : List Shorthand) (backend name : String) : Option String :=
  (given.reverse.find? (·.answers backend name)).map fun s => Text.trim s.canonical

theorem last?_cons (s : Shorthand) (given : List Shorthand) (backend name : String) :
    last? (s :: given) backend name =
      (last? given backend name).or (if s.answers backend name then some (Text.trim s.canonical) else none) := by
  unfold last?
  rw [List.reverse_cons, List.find?_append, Option.map_or]
  congr 1
  cases h : s.answers backend name <;> simp [h]

end Shorthand

namespace AliasTable

/-! ## Looking up -/

theorem lookup_empty (backend name : String) : empty.lookup backend name = none :=
  rfl

/-- A shorthand changes what is looked up where it answers, and nowhere else. -/
theorem lookup_insert (t : AliasTable) (s : Shorthand) (backend name : String) :
    (t.insert s.backend s.name s.canonical).lookup backend name =
      if s.answers backend name then some (Text.trim s.canonical) else t.lookup backend name := by
  unfold insert
  split
  · rename_i hblank
    have hno : s.answers backend name = false := by
      simp only [Shorthand.answers, decide_eq_false_iff_not]
      rintro ⟨hb, hn, hc, -, -⟩
      rcases hblank with h | h | h
      · exact hb h
      · exact hn h
      · exact hc h
    rw [hno, if_neg Bool.false_ne_true]
  · rename_i hsome
    simp only [not_or] at hsome
    obtain ⟨hb, hn, hc⟩ := hsome
    simp only [lookup, NameTable.get?_insert, Shorthand.answers]
    by_cases hbackend : Text.key backend = Text.key s.backend
    · by_cases hname : Text.key name = Text.key s.name
      · simp [hb, hn, hc, hbackend, hname]
      · have hother : Text.key s.name ≠ Text.key name := fun h => hname h.symm
        rw [if_pos hbackend]
        cases hget : t.backends.get? (Text.key s.backend) <;> simp [hbackend, hname, hother, hget]
    · have hother : Text.key s.backend ≠ Text.key backend := fun h => hbackend h.symm
      simp [hbackend, hother]

/-- The table with shorthands given one after the other. -/
def insertAll (t : AliasTable) (given : List Shorthand) : AliasTable :=
  given.foldl (fun t s => t.insert s.backend s.name s.canonical) t

/-- Of the shorthands given to a table the last that answers counts. -/
theorem lookup_insertAll (t : AliasTable) (given : List Shorthand) (backend name : String) :
    (t.insertAll given).lookup backend name = (Shorthand.last? given backend name).or (t.lookup backend name) := by
  induction given generalizing t with
  | nil => rfl
  | cons s given ih =>
    have hstep := ih (t.insert s.backend s.name s.canonical)
    rw [insertAll, List.foldl_cons, ← insertAll, hstep, lookup_insert, Shorthand.last?_cons, Option.or_assoc]
    congr 1
    split <;> rfl

theorem foldl_ofEntries (t : AliasTable) (entries : List (String × List (String × String))) :
    entries.foldl (fun t b => b.2.foldl (fun t a => t.insert b.1 a.1 a.2) t) t =
      t.insertAll (Shorthand.ofEntries entries) := by
  induction entries generalizing t with
  | nil => rfl
  | cons b entries ih =>
    have hcons : Shorthand.ofEntries (b :: entries) =
        b.2.map (fun a => ⟨b.1, a.1, a.2⟩) ++ Shorthand.ofEntries entries := List.flatMap_cons
    rw [List.foldl_cons, ih, hcons, insertAll, insertAll, List.foldl_append, List.foldl_map]

theorem builtIn_eq : builtIn = empty.insertAll (Shorthand.ofEntries builtInEntries) :=
  foldl_ofEntries empty builtInEntries

theorem withEntries_eq (t : AliasTable) (entries : NameTable (NameTable String)) :
    t.withEntries entries =
      t.insertAll (Shorthand.ofEntries (entries.entries.map fun b => (b.1, b.2.entries))) := by
  rw [← foldl_ofEntries, List.foldl_map]
  rfl

/-! ## What is looked up has no blanks around it -/

/-- Every model in the table is solid. -/
def Clean (t : AliasTable) : Prop :=
  ∀ backend name model, t.lookup backend name = some model → Text.Solid model

theorem clean_empty : empty.Clean := by
  intro backend name model h
  rw [lookup_empty] at h
  exact nomatch h

theorem clean_insert {t : AliasTable} (ht : t.Clean) (s : Shorthand) :
    (t.insert s.backend s.name s.canonical).Clean := by
  intro backend name model h
  rw [lookup_insert] at h
  split at h
  · rename_i hanswers
    obtain ⟨-, -, hcanonical, -, -⟩ := of_decide_eq_true hanswers
    cases h
    exact Text.solid_trim hcanonical
  · exact ht backend name model h

theorem clean_insertAll {t : AliasTable} (ht : t.Clean) (given : List Shorthand) : (t.insertAll given).Clean := by
  induction given generalizing t with
  | nil => exact ht
  | cons s given ih => exact ih (clean_insert ht s)

/-- The tables that can be made from the empty or the known one. -/
inductive Built : AliasTable → Prop
  | empty : Built .empty
  | builtIn : Built .builtIn
  | insert {t : AliasTable} (h : Built t) (backend name canonical : String) :
      Built (t.insert backend name canonical)
  | withEntries {t : AliasTable} (h : Built t) (entries : NameTable (NameTable String)) :
      Built (t.withEntries entries)

theorem Built.clean {t : AliasTable} (h : t.Built) : t.Clean := by
  induction h with
  | empty => exact clean_empty
  | builtIn =>
    rw [builtIn_eq]
    exact clean_insertAll clean_empty _
  | insert _ backend name canonical ih => exact clean_insert ih ⟨backend, name, canonical⟩
  | withEntries _ entries ih =>
    rw [withEntries_eq]
    exact clean_insertAll ih _

/-- A name is expanded to a solid text if it is one itself. -/
theorem Clean.expand {t : AliasTable} (ht : t.Clean) (backend : String) {candidate : String}
    (hc : Text.Solid candidate) : Text.Solid (t.expand backend candidate) := by
  unfold AliasTable.expand
  cases h : t.lookup backend candidate with
  | none => exact hc
  | some model => exact ht backend candidate model h

end AliasTable

end Preflight
