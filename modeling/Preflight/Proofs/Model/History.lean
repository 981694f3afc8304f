import Preflight.Proofs.Model.AliasTable
import Preflight.Proofs.Names.OfList
/-!
# The history of a table of shorthands

A table starts empty or with the known shorthands and is changed step by step.
What it knows is decided by all the shorthands given to it on the way: the last
that answers counts (`lookup_last_answer`). To give the same entries twice in a
row is to give them once (`withEntries_twice`).
-/

namespace Preflight

namespace Shorthand

/-- What is looked up is the last of the shorthands that answers. -/
theorem last?_eq_some_iff (given : List Shorthand) (backend name model : String) :
    last? given backend name = some model ↔
      ∃ earlier s later, given = earlier ++ s :: later ∧ s.answers backend name = true ∧
        (∀ x ∈ later, x.answers backend name = false) ∧ model = Text.trim s.canonical := by
  simp only [last?, Option.map_eq_some_iff, List.find?_eq_some_iff_append, Bool.not_eq_true']
  constructor
  · rintro ⟨s, ⟨hs, later, earlier, hgiven, hlater⟩, rfl⟩
    refine ⟨earlier.reverse, s, later.reverse, ?_, hs, ?_, rfl⟩
    · rw [← List.reverse_reverse given, hgiven]
      simp
    · intro x hx
      exact hlater x (List.mem_reverse.1 hx)
  · rintro ⟨earlier, s, later, rfl, hs, hlater, rfl⟩
    refine ⟨s, ⟨hs, later.reverse, earlier.reverse, by simp, ?_⟩, rfl⟩
    intro x hx
    exact hlater x (List.mem_reverse.1 hx)

theorem last?_eq_none_iff (given : List Shorthand) (backend name : String) :
    last? given backend name = none ↔ ∀ s ∈ given, s.answers backend name = false := by
  simp only [last?, Option.map_eq_none_iff, List.find?_eq_none, List.mem_reverse, Bool.not_eq_true]

theorem last?_append (given later : List Shorthand) (backend name : String) :
    last? (given ++ later) backend name = (last? later backend name).or (last? given backend name) := by
  rw [last?, List.reverse_append, List.find?_append, Option.map_or]
  rfl

/-- A blank backend or name is answered by nothing. -/
theorem answers_of_blank {backend name : String} (h : Text.trim backend = "" ∨ Text.trim name = "")
    (s : Shorthand) : s.answers backend name = false := by
  have hkey {given asked : String} (hgiven : Text.trim given ≠ "") (hasked : Text.trim asked = "") :
      Text.key given ≠ Text.key asked := by
    intro heq
    rw [(Text.key_eq_empty_iff asked).2 hasked, Text.key_eq_empty_iff] at heq
    exact hgiven heq
  rw [answers, decide_eq_false_iff_not]
  rintro ⟨hb, hn, -, hbackend, hname⟩
  rcases h with h | h
  · exact hkey hb h hbackend
  · exact hkey hn h hname

/-- A backend is answered only by shorthands of its own. -/
theorem answers_of_key_ne {s : Shorthand} {backend : String} (h : Text.key s.backend ≠ Text.key backend)
    (name : String) : s.answers backend name = false := by
  rw [answers, decide_eq_false_iff_not]
  rintro ⟨-, -, -, hbackend, -⟩
  exact h hbackend

/-- Whether it is stored under the key of a backend: none of the three texts is blank, and the first has this key. -/
def opens (s : Shorthand) (key : String) : Bool :=
  Text.trim s.backend ≠ "" ∧ Text.trim s.name ≠ "" ∧ Text.trim s.canonical ≠ "" ∧ Text.key s.backend = key

end Shorthand

namespace AliasTable

/-! ## Changes -/

/-- A table to start from. -/
inductive Origin where
  | empty
  | builtIn
  deriving DecidableEq, Repr

/-- The table. -/
def Origin.table : Origin → AliasTable
  | .empty => AliasTable.empty
  | .builtIn => AliasTable.builtIn

/-- The shorthands given to the table. -/
def Origin.shorthands : Origin → List Shorthand
  | .empty => []
  | .builtIn => Shorthand.ofEntries builtInEntries

/-- A change to a table: one shorthand, or those of each backend in ascending order. -/
inductive Change where
  | insert (backend name canonical : String)
  | withEntries (entries : NameTable (NameTable String))

/-- The table after a change. -/
def apply (t : AliasTable) : Change → AliasTable
  | .insert backend name canonical => t.insert backend name canonical
  | .withEntries entries => t.withEntries entries

/-- The shorthands that a change gives, one after the other. -/
def Change.shorthands : Change → List Shorthand
  | .insert backend name canonical => [⟨backend, name, canonical⟩]
  | .withEntries entries => Shorthand.ofEntries (entries.entries.map fun b => (b.1, b.2.entries))

/-- The table after changes made one after the other. -/
def applyAll (t : AliasTable) (changes : List Change) : AliasTable :=
  changes.foldl apply t

theorem apply_eq (t : AliasTable) (c : Change) : t.apply c = t.insertAll c.shorthands := by
  cases c with
  | insert backend name canonical => rfl
  | withEntries entries => exact withEntries_eq t entries

theorem applyAll_eq (t : AliasTable) (changes : List Change) :
    t.applyAll changes = t.insertAll (changes.flatMap Change.shorthands) := by
  induction changes generalizing t with
  | nil => rfl
  | cons c changes ih =>
    rw [applyAll, List.foldl_cons, ← applyAll, ih, apply_eq, List.flatMap_cons, insertAll, insertAll, insertAll,
      List.foldl_append]

theorem Origin.table_eq (o : Origin) : o.table = AliasTable.empty.insertAll o.shorthands := by
  cases o with
  | empty => rfl
  | builtIn => exact builtIn_eq

/-- What a table knows is what the last of all the shorthands given to it says. -/
theorem lookup_applyAll (o : Origin) (changes : List Change) (backend name : String) :
    (o.table.applyAll changes).lookup backend name =
      Shorthand.last? (o.shorthands ++ changes.flatMap Change.shorthands) backend name := by
  rw [applyAll_eq, lookup_insertAll, o.table_eq, lookup_insertAll, lookup_empty, Option.or_none,
    Shorthand.last?_append]

theorem insert_of_blank (t : AliasTable) {backend name canonical : String}
    (h : Text.trim backend = "" ∨ Text.trim name = "" ∨ Text.trim canonical = "") :
    t.insert backend name canonical = t :=
  if_pos h

/-! ## The same entries twice -/

/-- What becomes of a backend's shorthands when one is stored under the key of the backend. -/
def store (entries? : Option (NameTable String)) (s : Shorthand) : Option (NameTable String) :=
  some ((entries?.getD .empty).insert (Text.key s.name) (Text.trim s.canonical))

theorem get?_insert_backends (t : AliasTable) (s : Shorthand) (key : String) :
    (t.insert s.backend s.name s.canonical).backends.get? key =
      if s.opens key then store (t.backends.get? key) s else t.backends.get? key := by
  unfold insert
  split
  · rename_i hblank
    have hno : s.opens key = false := by
      rw [Shorthand.opens, decide_eq_false_iff_not]
      rintro ⟨hb, hn, hc, -⟩
      rcases hblank with h | h | h
      · exact hb h
      · exact hn h
      · exact hc h
    rw [hno, if_neg Bool.false_ne_true]
  · rename_i hsome
    simp only [not_or] at hsome
    obtain ⟨hb, hn, hc⟩ := hsome
    rw [NameTable.get?_insert]
    by_cases hkey : key = Text.key s.backend
    · subst hkey
      simp [Shorthand.opens, hb, hn, hc, store]
    · have hother : Text.key s.backend ≠ key := fun h => hkey h.symm
      simp [Shorthand.opens, hkey, hother]

/-- Each backend keeps what is stored under its key. -/
theorem get?_insertAll_backends (t : AliasTable) (given : List Shorthand) (key : String) :
    (t.insertAll given).backends.get? key = (given.filter (·.opens key)).foldl store (t.backends.get? key) := by
  induction given generalizing t with
  | nil => rfl
  | cons s given ih =>
    rw [insertAll, List.foldl_cons, ← insertAll, ih, get?_insert_backends, List.filter_cons]
    split
    · rw [List.foldl_cons]
    · rfl

theorem foldl_store_of_ne_nil {given : List Shorthand} (h : given ≠ []) (entries? : Option (NameTable String)) :
    given.foldl store entries? = some ((given.map fun s => (Text.key s.name, Text.trim s.canonical)).foldl
      (fun t e => t.insert e.1 e.2) (entries?.getD .empty)) := by
  induction given generalizing entries? with
  | nil => exact absurd rfl h
  | cons s given ih =>
    by_cases hrest : given = []
    · subst hrest
      rfl
    · rw [List.foldl_cons, ih hrest]
      rfl

theorem foldl_store_twice (given : List Shorthand) (entries? : Option (NameTable String)) :
    given.foldl store (given.foldl store entries?) = given.foldl store entries? := by
  by_cases h : given = []
  · subst h
    rfl
  · rw [foldl_store_of_ne_nil h, foldl_store_of_ne_nil h, Option.getD_some, NameTable.foldl_insert_twice]

theorem insertAll_twice (t : AliasTable) (given : List Shorthand) :
    (t.insertAll given).insertAll given = t.insertAll given := by
  have hbackends : ((t.insertAll given).insertAll given).backends = (t.insertAll given).backends := by
    refine NameTable.ext_get? fun key => ?_
    rw [get?_insertAll_backends, get?_insertAll_backends, foldl_store_twice]
  exact congrArg AliasTable.mk hbackends

/-- To give the same entries twice in a row is to give them once. -/
theorem withEntries_twice (t : AliasTable) (entries : NameTable (NameTable String)) :
    (t.withEntries entries).withEntries entries = t.withEntries entries := by
  rw [withEntries_eq, withEntries_eq, insertAll_twice]

/-! ## The last answer -/

/-- What is looked up in a table, however it came to be, is what the last answer among all the shorthands given to it
stands for; nothing if there is none. A name is expanded to that, or stays as it is. Later shorthands win over those the
table started with, shorthands of other backends and blank texts change nothing, and the same entries given twice in a
row are given once. -/
theorem lookup_last_answer (o : Origin) (changes : List Change) (backend name : String) :
    (∀ model, (o.table.applyAll changes).lookup backend name = some model ↔
      ∃ earlier s later, o.shorthands ++ changes.flatMap Change.shorthands = earlier ++ s :: later ∧
        s.answers backend name = true ∧ (∀ x ∈ later, x.answers backend name = false) ∧
        model = Text.trim s.canonical) ∧
    ((o.table.applyAll changes).lookup backend name = none ↔
      ∀ s ∈ o.shorthands ++ changes.flatMap Change.shorthands, s.answers backend name = false) ∧
    (o.table.applyAll changes).expand backend name =
      ((o.table.applyAll changes).lookup backend name).getD name ∧
    (∀ model, Shorthand.last? (changes.flatMap Change.shorthands) backend name = some model →
      (o.table.applyAll changes).lookup backend name = some model) ∧
    (∀ later : List Change, (∀ s ∈ later.flatMap Change.shorthands, Text.key s.backend ≠ Text.key backend) →
      ((o.table.applyAll changes).applyAll later).lookup backend name =
        (o.table.applyAll changes).lookup backend name) ∧
    (Text.trim backend = "" ∨ Text.trim name = "" → (o.table.applyAll changes).lookup backend name = none) ∧
    (∀ b n c, Text.trim b = "" ∨ Text.trim n = "" ∨ Text.trim c = "" →
      (o.table.applyAll changes).insert b n c = o.table.applyAll changes) ∧
    ∀ entries, ((o.table.applyAll changes).withEntries entries).withEntries entries =
      (o.table.applyAll changes).withEntries entries := by
  refine ⟨?_, ?_, rfl, ?_, ?_, ?_, ?_, ?_⟩
  · intro model
    rw [lookup_applyAll, Shorthand.last?_eq_some_iff]
  · rw [lookup_applyAll, Shorthand.last?_eq_none_iff]
  · intro model h
    rw [lookup_applyAll, Shorthand.last?_append, h, Option.some_or]
  · intro later hlater
    have hnone : Shorthand.last? (later.flatMap Change.shorthands) backend name = none := by
      rw [Shorthand.last?_eq_none_iff]
      intro s hs
      exact Shorthand.answers_of_key_ne (hlater s hs) name
    rw [applyAll_eq (o.table.applyAll changes), lookup_insertAll, hnone, Option.none_or]
  · intro hblank
    rw [lookup_applyAll, Shorthand.last?_eq_none_iff]
    intro s _
    exact Shorthand.answers_of_blank hblank s
  · intro b n c hblank
    exact insert_of_blank _ hblank
  · exact withEntries_twice _

/-- Two spellings of one shorthand over a known one, and one of another backend. -/
def ownOpus : List Change :=
  [.withEntries (.ofList [("claude", .ofList [("opus", " b "), (" OPUS", "a")])]), .insert "kiro" "opus" "c"]

theorem ownOpus_lookup : (Origin.builtIn.table.applyAll ownOpus).lookup "Claude " "Opus" = some "b" ∧
    (Origin.builtIn.table.applyAll ownOpus).lookup " " "Opus" = none := by
  obtain ⟨-, -, -, hwins, -⟩ := lookup_last_answer .builtIn ownOpus "Claude " "Opus"
  obtain ⟨-, -, -, -, -, hblank, -⟩ := lookup_last_answer .builtIn ownOpus " " "Opus"
  exact ⟨hwins "b" (by decide +kernel), hblank (.inl (by decide))⟩

end AliasTable

end Preflight
