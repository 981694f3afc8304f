import Mathlib.Data.List.Nodup
import Preflight.Names.Set
import Preflight.Names.Table
/-!
# Tables and sets made of lists

The table of a list gives each name its last value (`get?_ofList`). Where no
name comes twice the order of the list does not matter (`ofList_perm`), and a
table or a set is the one made of its own listing (`ofList_entries`,
`ofList_toList`).
-/

namespace Preflight

namespace NameTable

/-! ## The last value of a name -/

theorem get?_foldl_insert {α : Type u} (es : List (String × α)) (t : NameTable α) (x : String) :
    (es.foldl (fun t e => t.insert e.1 e.2) t).get? x = (es.reverse.lookup x).or (t.get? x) := by
  induction es generalizing t with
  | nil => rfl
  | cons e es ih =>
    rw [List.foldl_cons, ih, get?_insert, List.reverse_cons, List.lookup_append, lookup_cons_eq]
    cases es.reverse.lookup x with
    | some v => rfl
    | none => split <;> simp_all

/-- Entries given twice over leave what they left the first time. -/
theorem foldl_insert_twice {α : Type u} (es : List (String × α)) (t : NameTable α) :
    es.foldl (fun t e => t.insert e.1 e.2) (es.foldl (fun t e => t.insert e.1 e.2) t) =
      es.foldl (fun t e => t.insert e.1 e.2) t := by
  refine ext_get? fun x => ?_
  rw [get?_foldl_insert, get?_foldl_insert, ← Option.or_assoc, Option.or_self]

/-- Of several values given for a name the last counts. -/
theorem get?_ofList {α : Type u} (es : List (String × α)) (x : String) :
    (ofList es).get? x = es.reverse.lookup x := by
  simp [ofList, get?_foldl_insert]

theorem mem_of_lookup {α : Type u} {es : List (String × α)} {x : String} {v : α} (h : es.lookup x = some v) :
    (x, v) ∈ es := by
  induction es with
  | nil => simp at h
  | cons d ds ih =>
    obtain ⟨name, value⟩ := d
    rw [lookup_cons_eq] at h
    split at h
    · simp_all
    · exact List.mem_cons_of_mem _ (ih h)

theorem mem_of_get?_ofList {α : Type u} {es : List (String × α)} {x : String} {v : α}
    (h : (ofList es).get? x = some v) : (x, v) ∈ es := by
  rw [get?_ofList] at h
  exact List.mem_reverse.1 (mem_of_lookup h)

/-- The names of a table are those of the entries it was made of. -/
theorem mem_names_ofList {α : Type u} (es : List (String × α)) (x : String) :
    x ∈ (ofList es).names ↔ x ∈ es.map (·.1) := by
  constructor
  · intro hx
    obtain ⟨⟨_, v⟩, he, rfl⟩ := List.mem_map.1 hx
    exact List.mem_map_of_mem (mem_of_get?_ofList ((get?_eq_some_iff _ _ v).2 he))
  · intro hx
    obtain ⟨e, he, rfl⟩ := List.mem_map.1 hx
    cases hlookup : es.reverse.lookup e.1 with
    | none => exact absurd (List.lookup_eq_none_iff.1 hlookup e (List.mem_reverse.2 he)) (by simp)
    | some v =>
      rw [← get?_ofList, get?_eq_some_iff] at hlookup
      exact List.mem_map.2 ⟨_, hlookup, rfl⟩

theorem lookup_map {α β : Type u} (f : α → β) (es : List (String × α)) (x : String) :
    (es.map fun e => (e.1, f e.2)).lookup x = (es.lookup x).map f := by
  induction es with
  | nil => rfl
  | cons e es ih =>
    rw [List.map_cons, lookup_cons_eq, lookup_cons_eq, ih]
    split <;> rfl

/-- To map the values of a table is to map what each name stands for. -/
theorem get?_map {α β : Type u} (f : α → β) (t : NameTable α) (x : String) : (t.map f).get? x = (t.get? x).map f :=
  lookup_map f t.entries x

/-! ## Names that come once -/

theorem lookup_eq_some_iff_of_nodup {α : Type u} {es : List (String × α)} (h : (es.map (·.1)).Nodup) (x : String)
    (v : α) : es.lookup x = some v ↔ (x, v) ∈ es := by
  refine ⟨mem_of_lookup, fun hmem => ?_⟩
  induction es with
  | nil => simp at hmem
  | cons d ds ih =>
    simp only [List.map_cons, List.nodup_cons] at h
    rw [lookup_cons_eq]
    rcases List.mem_cons.1 hmem with rfl | hmem
    · simp
    · have hne : x ≠ d.1 := by
        rintro rfl
        exact h.1 (List.mem_map.2 ⟨_, hmem, rfl⟩)
      rw [if_neg hne, ih h.2 hmem]

theorem get?_ofList_of_nodup {α : Type u} {es : List (String × α)} (h : (es.map (·.1)).Nodup) (x : String) (v : α) :
    (ofList es).get? x = some v ↔ (x, v) ∈ es := by
  have hrev : (es.reverse.map (·.1)).Nodup := by simpa using h
  rw [get?_ofList, lookup_eq_some_iff_of_nodup hrev, List.mem_reverse]

/-- Where no name comes twice, the order of the entries does not matter. -/
theorem ofList_perm {α : Type u} {es fs : List (String × α)} (h : es.Perm fs) (hn : (es.map (·.1)).Nodup) :
    ofList es = ofList fs := by
  have hn' : (fs.map (·.1)).Nodup := (h.map _).nodup_iff.1 hn
  refine ext_get? fun x => Option.ext fun v => ?_
  rw [get?_ofList_of_nodup hn, get?_ofList_of_nodup hn', h.mem_iff]

theorem nodup_names {α : Type u} (t : NameTable α) : (t.entries.map (·.1)).Nodup := by
  refine List.pairwise_map.2 (t.ascending.imp ?_)
  intro d e hlt heq
  exact String.lt_irrefl _ (heq ▸ hlt)

/-- A table is the one made of its entries. -/
theorem ofList_entries {α : Type u} (t : NameTable α) : ofList t.entries = t := by
  refine ext_get? fun x => Option.ext fun v => ?_
  rw [get?_ofList_of_nodup t.nodup_names, get?_eq_some_iff]

end NameTable

/-- A set is the one made of its members. -/
theorem NameSet.ofList_toList (s : NameSet) : ofList s.toList = s :=
  ext_mem fun x => by rw [mem_ofList, mem_toList]

end Preflight
