import Mathlib.Data.List.Perm.Basic
import Preflight.Proofs.Config.Notations
import Preflight.Proofs.Config.Unread
import Preflight.Proofs.Text.Nearest
/-!
# One hint for each unknown key

In a workflow a record is expected at the root, in `cli`, and in every entry of
`hats` and `events`. `hints_of_places`: the hints are one for each entry at
these places whose key is no field of the record, and tell its keys and the
field that is nearest to its own.
-/

namespace Preflight.Config

/-! ## Where records are expected -/

/-- The names of a record's fields, other spellings included. -/
def fieldNames {σ : Type} (slots : List (Slot σ)) : List String :=
  slots.flatMap spellings

/-- The keys that lead to a record, the names of its fields, and the value that stands for it. -/
structure Place where
  keys : List String
  fields : List String
  value : Json

/-- The records expected in an entry of a workflow. -/
def placesIn (e : String × Json) : List Place :=
  if e.1 = "cli" then [⟨["cli"], fieldNames defaultsSlots, e.2⟩]
  else if e.1 = "events" then e.2.entries.map fun x => ⟨["events", x.1], fieldNames eventSlots, x.2⟩
  else if e.1 = "hats" then e.2.entries.map fun x => ⟨["hats", x.1], fieldNames hatSlots, x.2⟩
  else []

/-- The records expected in a workflow. -/
def places (v : Json) : List Place :=
  ⟨[], fieldNames workflowSlots, v⟩ :: v.entries.flatMap placesIn

/-- The entries of a record that are no fields of it. -/
def Place.unknown (p : Place) : List Stray :=
  (p.value.entries.filter (·.1 ∉ p.fields)).map fun e => ⟨p.keys, e.1, p.fields⟩

/-- A hint tells the keys that lead to an entry and, of the fields one to three edits away from its own key, the nearest
and the least of the nearest, if there is any. The order in which the fields are found makes no difference. -/
structure Stray.Hinted (s : Stray) (h : Hint) : Prop where
  path : h.path = ".".intercalate s.address
  nearest : ∀ field, h.suggestion = some field ↔ Text.IsNearest s.key 3 s.siblings field
  absent : h.suggestion = none ↔ ∀ field ∈ s.siblings, ∀ n, ¬ Text.Within s.key 3 field n
  sorted : ∀ found : List String, found.Perm s.siblings →
    Text.nearest s.key 3 (found.mergeSort (· ≤ ·)) = h.suggestion

/-! ## The unknown keys of a record -/

/-- The entry with the known keys beside it in ascending order. -/
def Stray.sorted (s : Stray) : Stray :=
  { s with siblings := s.siblings.mergeSort (· ≤ ·) }

theorem strays_eq_flatMap (keys : Keys) (v : Json) : strays keys v = v.entries.flatMap (straysAt keys) := by
  cases v with
  | object es => exact straysIn_eq_flatMap keys es
  | _ => rfl

theorem unknown_under (key : String) (keys fields : List String) (v : Json) :
    (Place.unknown ⟨key :: keys, fields, v⟩).map Stray.sorted =
      ((Place.unknown ⟨keys, fields, v⟩).map Stray.sorted).map (.under key) := by
  simp only [Place.unknown, List.map_map]
  rfl

section Fields
variable {σ : Type} {known : List (String × Keys)} {slots : List (Slot σ)}

theorem straysAt_of_known {e : String × Json} {below : Keys} (h : known.lookup e.1 = some below) :
    straysAt (.fixed known) e = (strays below e.2).map (.under e.1) := by
  rw [straysAt, Keys.beneath, h]

theorem straysAt_of_unknown {e : String × Json} (h : known.lookup e.1 = none) :
    straysAt (.fixed known) e = [⟨[], e.1, known.map (·.1)⟩] := by
  rw [straysAt, Keys.beneath, h]
  rfl

/-- The entries that are no fields are those that the known keys do not have, with the known keys beside them. -/
theorem unknown_eq_flatMap (hknown : (known.map (·.1)).Pairwise (· < ·))
    (hfields : (known.map (·.1)).Perm (fieldNames slots)) (keys : List String) (v : Json) :
    (Place.unknown ⟨keys, fieldNames slots, v⟩).map Stray.sorted =
      v.entries.flatMap fun e => if known.lookup e.1 = none then [⟨keys, e.1, known.map (·.1)⟩] else [] := by
  simp only [Place.unknown, List.map_map]
  induction v.entries with
  | nil => rfl
  | cons e es ih =>
    have hkey := (lookup_eq_none_iff_not_mem known e.1).trans (not_congr hfields.mem_iff)
    rw [List.flatMap_cons, ← ih, List.filter_cons]
    by_cases he : e.1 ∈ fieldNames slots
    · simp [hkey, he]
    · simp [hkey, he, Stray.sorted, Text.mergeSort_eq_of_ascending hknown hfields.symm]

/-- Where no field is a record, the entries hinted at are those that are no fields. -/
theorem strays_of_leaves (hknown : (known.map (·.1)).Pairwise (· < ·))
    (hfields : (known.map (·.1)).Perm (fieldNames slots)) (hleaf : ∀ e ∈ known, e.2 = .leaf) (v : Json) :
    strays (.fixed known) v = (Place.unknown ⟨[], fieldNames slots, v⟩).map Stray.sorted := by
  rw [strays_eq_flatMap, unknown_eq_flatMap hknown hfields]
  refine List.flatMap_congr ?_
  intro e _
  cases hkey : known.lookup e.1 with
  | none => rw [straysAt_of_unknown hkey, if_pos rfl]
  | some below =>
    obtain rfl : below = .leaf := hleaf _ (NameTable.mem_of_lookup hkey)
    rw [straysAt_of_known hkey, strays_leaf]
    rfl

end Fields

/-! ## The entries hinted at, place by place -/

/-- Where the keys of an object are free, the entries hinted at are those in its values. -/
theorem strays_free {each : Keys} {fields : List String} (first : String)
    (heach : ∀ v, strays each v = (Place.unknown ⟨[], fields, v⟩).map Stray.sorted) (v : Json) :
    (strays (.free each) v).map (.under first) =
      ((v.entries.map fun x => Place.mk [first, x.1] fields x.2).flatMap Place.unknown).map Stray.sorted := by
  rw [strays_eq_flatMap, List.map_flatMap, List.map_flatMap, List.flatMap_map]
  refine List.flatMap_congr ?_
  intro x _
  rw [unknown_under, unknown_under, ← heach]
  rfl

theorem strays_free_eq_nil {each : Keys} (heach : ∀ v, strays each v = []) (v : Json) : strays (.free each) v = [] := by
  rw [strays_eq_flatMap, List.flatMap_eq_nil_iff]
  intro e _
  simp [straysAt, Keys.beneath, heach]

/-- What is hinted at in a known entry of a workflow are the entries of the records expected in it. -/
theorem strays_of_workflow_entry {e : String × Json} {below : Keys} (h : workflowKeys.beneath e.1 = some below) :
    (strays below e.2).map (.under e.1) = ((placesIn e).flatMap Place.unknown).map Stray.sorted := by
  obtain ⟨key, v⟩ := e
  have hmem := NameTable.mem_of_lookup h
  simp only [List.mem_cons, Prod.mk.injEq, List.not_mem_nil, or_false] at hmem
  -- One case for each known key: aliases, cli, description, events, hats and name.
  obtain ⟨rfl, rfl⟩ | ⟨rfl, rfl⟩ | ⟨rfl, rfl⟩ | ⟨rfl, rfl⟩ | ⟨rfl, rfl⟩ | ⟨rfl, rfl⟩ := hmem
  · rw [strays_free_eq_nil (strays_free_eq_nil strays_leaf)]
    rfl
  · rw [placesIn, if_pos rfl, List.flatMap_singleton, unknown_under "cli" []]
    exact congrArg _ (strays_of_leaves (by decide) (by decide) (by simp) v)
  · rw [strays_leaf]
    rfl
  · exact strays_free "events" (strays_of_leaves (by decide) (by decide) (by simp)) v
  · exact strays_free "hats" (strays_of_leaves (by decide) (by decide) (by simp)) v
  · rw [strays_leaf]
    rfl

/-- The entries of a workflow whose keys are unknown are hinted at, and so are those of the records in the others. -/
theorem straysAt_workflowKeys (e : String × Json) : straysAt workflowKeys e =
    (if workflowKeys.beneath e.1 = none then [⟨[], e.1, workflowKeys.names⟩] else []) ++
      ((placesIn e).flatMap Place.unknown).map Stray.sorted := by
  cases hkey : workflowKeys.beneath e.1 with
  | none =>
    have hplaces : placesIn e = [] := by
      unfold placesIn
      split_ifs with hcli hevents hhats
      all_goals first | rfl | simp_all [workflowKeys, Keys.beneath]
    rw [hplaces, if_pos rfl, straysAt, hkey]
    rfl
  | some below => rw [if_neg (by simp), List.nil_append, ← strays_of_workflow_entry hkey, straysAt, hkey]

/-- The entries that are hinted at are the unknown keys of the records that are expected. -/
theorem strays_perm_places (v : Json) :
    (strays workflowKeys v).Perm (((places v).flatMap Place.unknown).map Stray.sorted) := by
  have hroot : (Place.unknown ⟨[], fieldNames workflowSlots, v⟩).map Stray.sorted = v.entries.flatMap fun e =>
      if workflowKeys.beneath e.1 = none then [⟨[], e.1, workflowKeys.names⟩] else [] :=
    unknown_eq_flatMap (by decide) (by decide) [] v
  rw [places, List.flatMap_cons, List.map_append, hroot, strays_eq_flatMap, List.flatMap_assoc, List.map_flatMap,
    List.flatMap_congr fun e _ => straysAt_workflowKeys e]
  exact (List.flatMap_append_perm _ _ _).symm

/-! ## The hints -/

/-- The keys that lead to each kind of record, and the names of its fields. -/
inductive Expected : List String → List String → Prop
  | workflow : Expected [] (fieldNames workflowSlots)
  | defaults : Expected ["cli"] (fieldNames defaultsSlots)
  | event (name : String) : Expected ["events", name] (fieldNames eventSlots)
  | hat (id : String) : Expected ["hats", id] (fieldNames hatSlots)

theorem expected_of_mem_places {v : Json} {p : Place} (hp : p ∈ places v) : Expected p.keys p.fields := by
  rcases List.mem_cons.1 hp with rfl | hp
  · exact .workflow
  · obtain ⟨e, -, hp⟩ := List.mem_flatMap.1 hp
    unfold placesIn at hp
    split_ifs at hp with hcli hevents hhats
    · obtain rfl := List.mem_singleton.1 hp
      exact .defaults
    · obtain ⟨x, -, rfl⟩ := List.mem_map.1 hp
      exact .event x.1
    · obtain ⟨x, -, rfl⟩ := List.mem_map.1 hp
      exact .hat x.1
    · exact absurd hp List.not_mem_nil

theorem Expected.ascending {keys fields : List String} (h : Expected keys fields) :
    ∃ names : List String, names.Pairwise (· < ·) ∧ names.Perm fields := by
  cases h with
  | workflow => exact ⟨workflowKeys.names, by decide, by decide⟩
  | defaults => exact ⟨["backend", "model"], by decide, by decide⟩
  | event => exact ⟨["description"], by decide, by decide⟩
  | hat =>
    exact ⟨["backend", "description", "instructions", "model", "name", "publishes", "subscriptions", "triggers"],
      by decide, by decide⟩

theorem Expected.path {keys fields : List String} (h : Expected keys fields) (key : String) :
    join (keys.foldl join "") key = ".".intercalate (keys ++ [key]) := by
  cases h <;> simp [join, String.append_assoc]

theorem hinted_of_mem_places {v : Json} {s : Stray} (hs : s ∈ (places v).flatMap Place.unknown) :
    s.Hinted (s.sorted.hint "") := by
  obtain ⟨p, hp, hs⟩ := List.mem_flatMap.1 hs
  obtain ⟨e, -, rfl⟩ := List.mem_map.1 hs
  have hexpected := expected_of_mem_places hp
  obtain ⟨names, hnames, hfields⟩ := hexpected.ascending
  have hsorted (found : List String) (hfound : found.Perm p.fields) : found.mergeSort (· ≤ ·) = names :=
    Text.mergeSort_eq_of_ascending hnames (hfound.trans hfields.symm)
  have hnearest : (Stray.hint "" (Stray.sorted ⟨p.keys, e.1, p.fields⟩)).suggestion = Text.nearest e.1 3 names := by
    rw [← hsorted p.fields (.refl _)]
    rfl
  have hsuggested : Text.Suggested e.1 3 p.fields (Text.nearest e.1 3 names) :=
    (Text.suggested_nearest hnames).of_perm hfields
  rw [← hnearest] at hsuggested
  obtain ⟨hsome, hnone⟩ := Text.suggested_iff hsuggested
  refine ⟨hexpected.path e.1, hsome, hnone, ?_⟩
  intro found hfound
  rw [hnearest, hsorted found hfound]

theorem hints_sorted (v : Json) : (hints v).Pairwise fun a b => a.path ≤ b.path := by
  have hsorted : (hints v).Pairwise fun a b => decide (a.path ≤ b.path) = true := by
    refine List.pairwise_mergeSort ?_ ?_ _
    · intro a b c hab hbc
      exact decide_eq_true (String.le_trans (of_decide_eq_true hab) (of_decide_eq_true hbc))
    · intro a b
      simpa using String.le_total a.path b.path
  exact hsorted.imp of_decide_eq_true

/-- The hints come in the order of their paths, and there is one for each entry of a record that is no field of it, also
where several such entries have one path. -/
theorem hints_of_places (v : Json) :
    (hints v).Pairwise (fun a b => a.path ≤ b.path) ∧ ∃ found : List Hint, (hints v).Perm found ∧
      List.Forall₂ Stray.Hinted ((places v).flatMap Place.unknown) found := by
  refine ⟨hints_sorted v, ((places v).flatMap Place.unknown).map fun s => s.sorted.hint "", ?_, ?_⟩
  · have hperm := (strays_perm_places v).map (Stray.hint "")
    rw [List.map_map] at hperm
    exact (hints_perm_strays v).trans hperm
  · rw [List.forall₂_map_right_iff, List.forall₂_same]
    exact fun s hs => hinted_of_mem_places hs

/-- A document with a key as near to one field as to another, a misspelt one and one that is near to none. -/
def misspeltKeys : Json :=
  .object [("cae", .null), ("hats", .object [("a", .object [("modle", .null), ("unrelated", .null)])])]

theorem misspeltKeys_hints :
    hints misspeltKeys = [⟨"cae", some "cli"⟩, ⟨"hats.a.modle", some "model"⟩, ⟨"hats.a.unrelated", none⟩] ∧
      Text.IsNearest "cae" 3 (fieldNames workflowSlots) "cli" ∧ Text.IsNearest "modle" 3 (fieldNames hatSlots) "model" ∧
      ∀ field ∈ fieldNames hatSlots, ∀ n, ¬ Text.Within "unrelated" 3 field n := by
  have hwalk : hintsAt "" workflowKeys misspeltKeys =
      [⟨"cae", some "cli"⟩, ⟨"hats.a.modle", some "model"⟩, ⟨"hats.a.unrelated", none⟩] := by decide +kernel
  have hhints : hints misspeltKeys =
      [⟨"cae", some "cli"⟩, ⟨"hats.a.modle", some "model"⟩, ⟨"hats.a.unrelated", none⟩] := by
    rw [hints, hwalk]
    exact List.mergeSort_of_pairwise (by decide)
  have hstrays : (places misspeltKeys).flatMap Place.unknown = [⟨[], "cae", fieldNames workflowSlots⟩,
      ⟨["hats", "a"], "modle", fieldNames hatSlots⟩, ⟨["hats", "a"], "unrelated", fieldNames hatSlots⟩] := by
    decide +kernel
  obtain ⟨-, found, hperm, hfound⟩ := hints_of_places misspeltKeys
  have hlisted {s : Stray} {h : Hint} (hs : s.Hinted h) (hh : h ∈ found) :
      (".".intercalate s.address, h.suggestion) ∈ (hints misspeltKeys).map fun h => (h.path, h.suggestion) := by
    rw [← hs.path]
    exact List.mem_map_of_mem (hperm.mem_iff.2 hh)
  rw [hstrays] at hfound
  rw [hhints] at hlisted
  obtain _ | ⟨hcae, _ | ⟨hmodle, _ | ⟨hunrelated, _⟩⟩⟩ := hfound
  refine ⟨hhints, (hcae.nearest "cli").1 ?_, (hmodle.nearest "model").1 ?_, hunrelated.absent.1 ?_⟩
  · simpa [Stray.address] using hlisted hcae (by simp)
  · simpa [Stray.address] using hlisted hmodle (by simp)
  · simpa [Stray.address] using hlisted hunrelated (by simp)

/-- A path does not tell which of two entries is meant where a key has a dot in it. -/
example :
    let hats : Json := .object [("a", .object [("b.c", .null)]), ("a.b", .object [("c", .null)])]
    ((places (.object [("hats", hats)])).flatMap Place.unknown).map (fun s => ".".intercalate s.address) =
      ["hats.a.b.c", "hats.a.b.c"] := by
  decide +kernel

end Preflight.Config
