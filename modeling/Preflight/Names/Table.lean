/-!
Tables keyed by name: the names ascend by code point and each occurs once, so two tables with the
same entries are the same table (`NameTable.ext_get?`). The last value given for a name is kept
(`get?_insert`).
-/

namespace Preflight

/-- An entry put into a list that ascends by name, in place of the one of its name. -/
def insertEntry (name : String) (value : α) : List (String × α) → List (String × α)
  | [] => [(name, value)]
  | e :: es =>
    if name < e.1 then (name, value) :: e :: es
    else if e.1 < name then e :: insertEntry name value es
    else (name, value) :: es

/-- The names of the entries ascend. -/
abbrev Ascending (entries : List (String × α)) : Prop :=
  entries.Pairwise fun a b => a.1 < b.1

theorem mem_insertEntry {name : String} {value : α} {es : List (String × α)} {e : String × α}
    (h : e ∈ insertEntry name value es) : e = (name, value) ∨ e ∈ es := by
  induction es with
  | nil => simpa [insertEntry] using h
  | cons d ds ih => grind [insertEntry]

theorem ascending_insertEntry {es : List (String × α)} (h : Ascending es) (name : String)
    (value : α) : Ascending (insertEntry name value es) := by
  induction es with
  | nil => simp [insertEntry]
  | cons d ds ih =>
    obtain ⟨hd, hds⟩ := List.pairwise_cons.1 h
    simp only [insertEntry]
    split
    · rename_i hlt
      refine List.pairwise_cons.2 ⟨fun e he => ?_, h⟩
      rcases List.mem_cons.1 he with rfl | he
      · exact hlt
      · exact String.lt_trans hlt (hd e he)
    · rename_i hnlt
      split
      · rename_i hlt
        refine List.pairwise_cons.2 ⟨fun e he => ?_, ih hds⟩
        rcases mem_insertEntry he with rfl | he
        · exact hlt
        · exact hd e he
      · rename_i hngt
        have heq : d.1 = name := String.le_antisymm (String.not_lt.1 hnlt) (String.not_lt.1 hngt)
        exact List.pairwise_cons.2 ⟨fun e he => heq ▸ hd e he, hds⟩

/-- A finite map from names, listed in ascending order. -/
structure NameTable (α : Type u) where
  entries : List (String × α)
  ascending : Ascending entries
  deriving DecidableEq

namespace NameTable

/-- The table without entries. -/
def empty : NameTable α :=
  ⟨[], List.Pairwise.nil⟩

instance : Inhabited (NameTable α) :=
  ⟨empty⟩

/-- The table with one name bound anew. -/
def insert (t : NameTable α) (name : String) (value : α) : NameTable α :=
  ⟨insertEntry name value t.entries, ascending_insertEntry t.ascending name value⟩

/-- The table of a list of entries; of several with one name the last counts. -/
def ofList (entries : List (String × α)) : NameTable α :=
  entries.foldl (fun t e => t.insert e.1 e.2) empty

/-- The value of a name. -/
def get? (t : NameTable α) (name : String) : Option α :=
  t.entries.lookup name

/-- Whether a name is bound. -/
def contains (t : NameTable α) (name : String) : Bool :=
  (t.get? name).isSome

/-- The names, in ascending order. -/
def names (t : NameTable α) : List String :=
  t.entries.map (·.1)

/-- The values, in the order of their names. -/
def values (t : NameTable α) : List α :=
  t.entries.map (·.2)

/-- Whether no name is bound. -/
def isEmpty (t : NameTable α) : Bool :=
  t.entries.isEmpty

/-- The same names with values mapped. -/
def map (f : α → β) (t : NameTable α) : NameTable β :=
  ⟨t.entries.map fun e => (e.1, f e.2), by
    simpa [Ascending, List.pairwise_map] using t.ascending⟩

@[ext]
theorem ext {s t : NameTable α} (h : s.entries = t.entries) : s = t := by
  cases s; cases t; simp_all

/-! ## Look-up -/

theorem lookup_cons_eq (d : String × α) (ds : List (String × α)) (x : String) :
    (d :: ds).lookup x = if x = d.1 then some d.2 else ds.lookup x := by
  obtain ⟨name, value⟩ := d
  by_cases h : x = name
  · simp [h]
  · have hb : (x == name) = false := beq_false_of_ne h
    simp [List.lookup_cons, hb, h]

theorem lookup_insertEntry (es : List (String × α)) (name : String) (value : α) (x : String) :
    (insertEntry name value es).lookup x = if x = name then some value else es.lookup x := by
  induction es with
  | nil => simp [insertEntry, lookup_cons_eq]
  | cons d ds ih =>
    simp only [insertEntry]
    split
    · simp [lookup_cons_eq]
    · rename_i hnlt
      split
      · rename_i hlt
        have hne : d.1 ≠ name := by rintro h; exact String.lt_irrefl _ (h ▸ hlt)
        simp only [lookup_cons_eq, ih]
        by_cases hx : x = d.1
        · simp [hx, hne]
        · simp [hx]
      · rename_i hngt
        have heq : d.1 = name := String.le_antisymm (String.not_lt.1 hnlt) (String.not_lt.1 hngt)
        by_cases hx : x = name <;> simp [lookup_cons_eq, hx, heq]

/-- Binding a name changes what that name stands for, and no other. -/
@[simp]
theorem get?_insert (t : NameTable α) (name : String) (value : α) (x : String) :
    (t.insert name value).get? x = if x = name then some value else t.get? x :=
  lookup_insertEntry t.entries name value x

@[simp]
theorem get?_empty (x : String) : (empty : NameTable α).get? x = none :=
  rfl

theorem lookup_eq_some_iff {es : List (String × α)} (h : Ascending es) (x : String) (v : α) :
    es.lookup x = some v ↔ (x, v) ∈ es := by
  induction es with
  | nil => simp
  | cons d ds ih =>
    obtain ⟨hd, hds⟩ := List.pairwise_cons.1 h
    rw [lookup_cons_eq, List.mem_cons, ← ih hds]
    split
    · rename_i hx
      subst hx
      constructor
      · rintro ⟨⟩; exact Or.inl rfl
      · rintro (h | h)
        · exact congrArg some (Prod.ext_iff.1 h).2.symm
        · exact absurd (hd _ ((ih hds).1 h)) (String.lt_irrefl _)
    · rename_i hx
      constructor
      · exact Or.inr
      · rintro (h | h)
        · exact absurd (congrArg Prod.fst h) hx
        · exact h

/-- A name stands for a value exactly when the two are an entry. -/
theorem get?_eq_some_iff (t : NameTable α) (x : String) (v : α) :
    t.get? x = some v ↔ (x, v) ∈ t.entries :=
  lookup_eq_some_iff t.ascending x v

theorem eq_of_ascending {es ds : List (String × α)} (he : Ascending es) (hd : Ascending ds)
    (h : ∀ e, e ∈ es ↔ e ∈ ds) : es = ds := by
  induction es generalizing ds with
  | nil =>
    cases ds with
    | nil => rfl
    | cons d ds => exact absurd ((h d).2 (by simp)) (by simp)
  | cons e es ih =>
    cases ds with
    | nil => exact absurd ((h e).1 (by simp)) (by simp)
    | cons d ds =>
      obtain ⟨he1, he2⟩ := List.pairwise_cons.1 he
      obtain ⟨hd1, hd2⟩ := List.pairwise_cons.1 hd
      have hed : e = d := by
        rcases List.mem_cons.1 ((h e).1 (by simp)) with rfl | h1
        · rfl
        · rcases List.mem_cons.1 ((h d).2 (by simp)) with rfl | h2
          · rfl
          · exact absurd (String.lt_trans (hd1 e h1) (he1 d h2)) (String.lt_irrefl _)
      subst hed
      congr 1
      refine ih he2 hd2 fun x => ⟨fun hx => ?_, fun hx => ?_⟩
      · rcases List.mem_cons.1 ((h x).1 (by simp [hx])) with rfl | h1
        · exact absurd (he1 x hx) (String.lt_irrefl _)
        · exact h1
      · rcases List.mem_cons.1 ((h x).2 (by simp [hx])) with rfl | h1
        · exact absurd (hd1 x hx) (String.lt_irrefl _)
        · exact h1

/-- Tables in which every name stands for the same are the same. -/
theorem ext_get? {s t : NameTable α} (h : ∀ x, s.get? x = t.get? x) : s = t :=
  ext (eq_of_ascending s.ascending t.ascending fun e => by
    rw [← get?_eq_some_iff s e.1 e.2, ← get?_eq_some_iff t e.1 e.2, h])

end NameTable

end Preflight
