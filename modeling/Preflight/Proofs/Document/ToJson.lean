import Preflight.Proofs.Document.OfJson
import Preflight.Proofs.Json.Address
/-!
# The JSON value of a tree

A tree has a JSON value if the key of every entry in it can be written as a
name (`isSome_toJson?_iff`). In every object of the value each name comes once
(`unique_toJson?`), and what is found in the tree by following keys is found in
the value at the address made of their texts (`holds_of_at?`). If neither tags
nor dates stand in its maps, the converse holds as well (`at?_of_holds`).
-/

namespace Preflight.Tree

/-! ## Trees that have a JSON value -/

/-- A key that can be written as a name: a text, a date, a truth value, or a number that is finite. -/
def IsKey : Tree → Prop
  | .text _ | .date _ | .bool _ | .int _ => True
  | .float x => x.isFinite
  | _ => False

mutual

/-- Every key in the tree can be written as a name. -/
def Keyed : Tree → Prop
  | .list items => KeyedItems items
  | .map es => KeyedEntries es
  | .tagged _ t => t.Keyed
  | _ => True

/-- Every key in the items can be written as a name. -/
def KeyedItems : List Tree → Prop
  | [] => True
  | t :: ts => t.Keyed ∧ KeyedItems ts

/-- Every key of the entries, and in their values, can be written as a name. -/
def KeyedEntries : List (Tree × Tree) → Prop
  | [] => True
  | (k, v) :: es => k.IsKey ∧ v.Keyed ∧ KeyedEntries es

end

theorem isSome_keyText?_iff (k : Tree) : k.keyText?.isSome ↔ k.IsKey := by
  cases k with
  | float x =>
    rw [keyText?, IsKey]
    split <;> simp_all
  | _ => simp [keyText?, IsKey]

mutual

theorem isSome_toJson?_iff : ∀ t : Tree, t.toJson?.isSome ↔ t.Keyed
  | .null | .bool _ | .int _ | .float _ | .text _ | .date _ => by simp [toJson?, Keyed]
  | .list items => by rw [toJson?, Keyed, Option.isSome_map, isSome_toJsonItems?_iff items]
  | .map es => by rw [toJson?, Keyed, Option.isSome_map, isSome_toJsonEntries?_iff es]
  | .tagged _ t => by rw [toJson?, Keyed, Option.isSome_map, isSome_toJson?_iff t]

theorem isSome_toJsonItems?_iff : ∀ ts : List Tree, (toJsonItems? ts).isSome ↔ KeyedItems ts
  | [] => by simp [toJsonItems?, KeyedItems]
  | t :: ts => by
    rw [KeyedItems, ← isSome_toJson?_iff t, ← isSome_toJsonItems?_iff ts, toJsonItems?]
    cases t.toJson? <;> cases toJsonItems? ts <;> simp

theorem isSome_toJsonEntries?_iff : ∀ es : List (Tree × Tree), (toJsonEntries? es).isSome ↔ KeyedEntries es
  | [] => by simp [toJsonEntries?, KeyedEntries]
  | (k, v) :: es => by
    rw [KeyedEntries, ← isSome_keyText?_iff k, ← isSome_toJson?_iff v, ← isSome_toJsonEntries?_iff es, toJsonEntries?]
    cases k.keyText? <;> cases v.toJson? <;> cases toJsonEntries? es <;> simp

end

/-! ## Names that come once -/

theorem unique_ofList {rows : List (String × Json)} (h : Json.UniqueEntries rows) :
    (Json.object (NameTable.ofList rows).entries).Unique := by
  rw [Json.unique_object_iff]
  refine ⟨NameTable.nodup_names _, ?_⟩
  rintro ⟨name, v⟩ he
  have hmem := NameTable.mem_of_get?_ofList ((NameTable.get?_eq_some_iff _ name v).2 he)
  exact (Json.uniqueEntries_iff rows).1 h _ hmem

mutual

/-- In every object of the JSON value of a tree each name comes once. -/
theorem unique_toJson? : ∀ {t : Tree} {v : Json}, t.toJson? = some v → v.Unique
  | .null, _, rfl | .bool _, _, rfl | .int _, _, rfl | .text _, _, rfl => trivial
  | .date _, _, rfl => by simp [Json.Unique, Json.UniqueEntries]
  | .float x, _, rfl => by cases x.isFinite <;> trivial
  | .list _, _, h => by
    obtain ⟨items, hitems, rfl⟩ := Option.map_eq_some_iff.1 h
    exact unique_toJsonItems? hitems
  | .map _, _, h => by
    obtain ⟨rows, hrows, rfl⟩ := Option.map_eq_some_iff.1 h
    exact unique_ofList (unique_toJsonEntries? hrows)
  | .tagged _ _, _, h => by
    obtain ⟨v, hv, rfl⟩ := Option.map_eq_some_iff.1 h
    simp [Json.Unique, Json.UniqueEntries, unique_toJson? hv]

theorem unique_toJsonItems? : ∀ {ts : List Tree} {vs : List Json}, toJsonItems? ts = some vs → Json.UniqueItems vs
  | [], _, rfl => trivial
  | t :: ts, _, h => by
    simp only [toJsonItems?, Option.bind_eq_bind, Option.bind_eq_some_iff, Option.pure_def, Option.some.injEq] at h
    obtain ⟨v, hv, vs, hvs, rfl⟩ := h
    exact ⟨unique_toJson? hv, unique_toJsonItems? hvs⟩

theorem unique_toJsonEntries? : ∀ {es : List (Tree × Tree)} {rows : List (String × Json)},
    toJsonEntries? es = some rows → Json.UniqueEntries rows
  | [], _, rfl => trivial
  | (k, v) :: es, _, h => by
    simp only [toJsonEntries?, Option.bind_eq_bind, Option.bind_eq_some_iff, Option.pure_def, Option.some.injEq] at h
    obtain ⟨name, -, x, hx, rows, hrows, rfl⟩ := h
    exact ⟨unique_toJson? hx, unique_toJsonEntries? hrows⟩

end

/-! ## Values found by their keys -/

/-- The value of a map under a key with the text; of several the last. -/
def entry? (key : String) : Tree → Option Tree
  | .map es => (es.reverse.find? fun e => e.1.keyText? == some key).map (·.2)
  | _ => none

theorem entry?_map (es : List (Tree × Tree)) (key : String) :
    entry? key (.map es) = (es.reverse.find? fun e => e.1.keyText? == some key).map (·.2) :=
  rfl

/-- The value found by following keys through maps. -/
def at? : List String → Tree → Option Tree
  | [], t => some t
  | key :: rest, t => (t.entry? key).bind (at? rest)

theorem lookup_of_find? {es : List (Tree × Tree)} {rows : List (String × Json)}
    (h : List.Forall₂ (fun e row => e.1.keyText? = some row.1 ∧ e.2.toJson? = some row.2) es rows) {key : String}
    {e : Tree × Tree} (he : es.find? (fun e => e.1.keyText? == some key) = some e) :
    ∃ x, rows.lookup key = some x ∧ e.2.toJson? = some x := by
  induction h with
  | nil => exact nomatch he
  | @cons d row es rows hrow _ ih =>
    obtain ⟨hkey, hvalue⟩ := hrow
    rw [List.find?_cons, hkey] at he
    rw [NameTable.lookup_cons_eq]
    by_cases hname : key = row.1
    · subst hname
      simp only [beq_self_eq_true, Option.some.injEq] at he
      subst he
      exact ⟨row.2, if_pos rfl, hvalue⟩
    · have hne : (some row.1 == some key) = false := beq_false_of_ne fun h => hname (Option.some.inj h).symm
      simp only [hne] at he
      rw [if_neg hname]
      exact ih he

/-- The value of a key is found in the JSON value under its text. -/
theorem holds_of_entry? {t u : Tree} {v : Json} (h : t.toJson? = some v) {key : String} (hu : t.entry? key = some u) :
    ∃ x es, u.toJson? = some x ∧ v = .object es ∧ (key, x) ∈ es := by
  cases t with
  | map es =>
    obtain ⟨rows, hrows, rfl⟩ := Option.map_eq_some_iff.1 h
    obtain ⟨e, he, rfl⟩ := Option.map_eq_some_iff.1 hu
    have hall := List.rel_reverse ((toJsonEntries?_eq_some_iff es rows).1 hrows)
    obtain ⟨x, hx, hvalue⟩ := lookup_of_find? hall he
    rw [← NameTable.get?_ofList, NameTable.get?_eq_some_iff] at hx
    exact ⟨x, _, hvalue, rfl, hx⟩
  | _ => exact nomatch hu

/-- What is found by following keys is found in the JSON value at the address made of their texts. -/
theorem holds_of_at? {t u : Tree} {v : Json} (h : t.toJson? = some v) {address : List String}
    (hu : t.at? address = some u) : ∃ x, v.Holds address x := by
  induction address generalizing t v with
  | nil => exact ⟨v, .here v⟩
  | cons key rest ih =>
    obtain ⟨s, hs, hrest⟩ := Option.bind_eq_some_iff.1 hu
    obtain ⟨y, es, hy, rfl, hmem⟩ := holds_of_entry? h hs
    obtain ⟨x, hx⟩ := ih hy hrest
    exact ⟨x, .within hmem hx⟩

/-! ## Addresses in plain trees -/

mutual

/-- Neither a tag nor a date stands in the maps of the tree. -/
def Plain : Tree → Prop
  | .date _ | .tagged _ _ => False
  | .map es => PlainEntries es
  | _ => True

/-- Neither a tag nor a date stands in the maps of the values. -/
def PlainEntries : List (Tree × Tree) → Prop
  | [] => True
  | (_, v) :: es => v.Plain ∧ PlainEntries es

end

theorem plainEntries_iff (es : List (Tree × Tree)) : PlainEntries es ↔ ∀ e ∈ es, e.2.Plain := by
  induction es with
  | nil => simp [PlainEntries]
  | cons e es ih => simp [PlainEntries, ih]

theorem find?_of_lookup {es : List (Tree × Tree)} {rows : List (String × Json)}
    (h : List.Forall₂ (fun e row => e.1.keyText? = some row.1 ∧ e.2.toJson? = some row.2) es rows) {key : String}
    {x : Json} (hx : rows.lookup key = some x) :
    ∃ e, es.find? (fun e => e.1.keyText? == some key) = some e ∧ e.2.toJson? = some x := by
  cases he : es.find? (fun e => e.1.keyText? == some key) with
  | some e =>
    obtain ⟨y, hy, hvalue⟩ := lookup_of_find? h he
    exact ⟨e, rfl, hvalue.trans (hy.symm.trans hx)⟩
  | none =>
    obtain ⟨e, hmem, hkey, -⟩ := exists_of_forall₂_right h (NameTable.mem_of_lookup hx)
    exact absurd (beq_iff_eq.2 hkey) (List.find?_eq_none.1 he e hmem)

/-- What is found in the JSON value of a plain tree is found in the tree. -/
theorem at?_of_holds {t : Tree} {v : Json} (ht : t.Plain) (h : t.toJson? = some v) {address : List String} {x : Json}
    (hx : v.Holds address x) : ∃ u, t.at? address = some u := by
  induction hx generalizing t with
  | here => exact ⟨t, rfl⟩
  | @within entries key u x rest hmem _ ih =>
    cases t with
    | map es =>
      obtain ⟨rows, hrows, heq⟩ := Option.map_eq_some_iff.1 h
      cases heq
      have hlookup := (NameTable.get?_eq_some_iff _ key u).2 hmem
      rw [NameTable.get?_ofList] at hlookup
      have hall := List.rel_reverse ((toJsonEntries?_eq_some_iff es rows).1 hrows)
      obtain ⟨e, he, hvalue⟩ := find?_of_lookup hall hlookup
      have hplain := (plainEntries_iff es).1 ht e (List.mem_reverse.1 (List.mem_of_find?_eq_some he))
      obtain ⟨w, hw⟩ := ih hplain hvalue
      refine ⟨w, ?_⟩
      rw [at?, entry?_map, he]
      exact hw
    | list items =>
      obtain ⟨vs, -, heq⟩ := Option.map_eq_some_iff.1 h
      cases heq
    | date | tagged => exact ht.elim
    | float n =>
      rw [toJson?, Option.some.injEq] at h
      split at h <;> cases h
    | null | bool | int | text => cases h

end Preflight.Tree
