import Preflight.Proofs.Config.Named
import Preflight.Proofs.Config.Unhinted
/-!
# The names in hints

A hint at an entry of a hat or an event shows the key of the body as the JSON
value of the document has it, while the workflow has its own text of the key.
`hints_name_bodies`: both are texts of one key, and differ only where the key
is a number that is written differently in JSON.
-/

namespace Preflight

open Config

namespace Config

/-! ## Where records stand -/

theorem Keys.PassesOver.of_cons {keys : Keys} {first key : String} {rest : List String}
    (h : keys.PassesOver (first :: (rest ++ [key]))) :
    ∃ below, keys.beneath first = some below ∧ below.PassesOver (rest ++ [key]) := by
  generalize haddress : rest ++ [key] = address at h
  cases h with
  | here => simp at haddress
  | inside hbelow hrest => exact ⟨_, hbelow, hrest⟩

theorem Keys.PassesOver.of_free {each : Keys} {place : List String} {key : String}
    (h : (Keys.free each).PassesOver (place ++ [key])) :
    ∃ name rest, place = name :: rest ∧ each.PassesOver (rest ++ [key]) := by
  cases place with
  | nil =>
    cases h with
    | here hnone => exact nomatch hnone
    | inside _ hrest => exact absurd rfl hrest.ne_nil
  | cons name rest =>
    obtain ⟨below, hbelow, hrest⟩ := h.of_cons
    cases hbelow
    exact ⟨name, rest, rfl, hrest⟩

/-- Where no key of a record has records inside it, only entries of its own are passed over. -/
theorem Keys.PassesOver.of_leaves {known : List (String × Keys)} {place : List String} {key : String}
    (h : (Keys.fixed known).PassesOver (place ++ [key])) (hleaf : ∀ e ∈ known, e.2 = .leaf) : place = [] := by
  cases place with
  | nil => rfl
  | cons first rest =>
    obtain ⟨below, hbelow, hrest⟩ := h.of_cons
    obtain rfl : below = .leaf := hleaf _ (NameTable.mem_of_lookup hbelow)
    exact absurd hrest (Keys.not_passesOver_leaf _)

theorem recordPlace_of_passesOver {place : List String} {key : String}
    (h : workflowKeys.PassesOver (place ++ [key])) : RecordPlace place := by
  cases place with
  | nil => exact .workflow
  | cons first rest =>
    obtain ⟨below, hbelow, hrest⟩ := h.of_cons
    have hmem := NameTable.mem_of_lookup hbelow
    simp only [List.mem_cons, Prod.mk.injEq, List.not_mem_nil, or_false] at hmem
    -- One case for each known key: aliases, cli, description, events, hats and name.
    obtain ⟨rfl, rfl⟩ | ⟨rfl, rfl⟩ | ⟨rfl, rfl⟩ | ⟨rfl, rfl⟩ | ⟨rfl, rfl⟩ | ⟨rfl, rfl⟩ := hmem
    · obtain ⟨_, _, -, hrest⟩ := hrest.of_free
      obtain ⟨_, _, -, hrest⟩ := hrest.of_free
      exact absurd hrest (Keys.not_passesOver_leaf _)
    · rw [hrest.of_leaves (by simp)]
      exact .defaults
    · exact absurd hrest (Keys.not_passesOver_leaf _)
    · obtain ⟨name, rest, rfl, hbody⟩ := hrest.of_free
      rw [hbody.of_leaves (by simp)]
      exact .event name
    · obtain ⟨id, rest, rfl, hbody⟩ := hrest.of_free
      rw [hbody.of_leaves (by simp)]
      exact .hat id
    · exact absurd hrest (Keys.not_passesOver_leaf _)

end Config

/-! ## The texts of a key -/

namespace Tree

theorem untag_of_not_hasTag {t : Tree} (h : t.hasTag = false) : t.untag = t := by
  cases t <;> first | rfl | exact nomatch h

theorem hasTagEntries_eq_false_iff (es : List (Tree × Tree)) :
    hasTagEntries es = false ↔ ∀ e ∈ es, e.1.hasTag = false ∧ e.2.hasTag = false := by
  induction es with
  | nil => simp [hasTagEntries]
  | cons e es ih => simp [hasTagEntries, ih, and_assoc]

theorem not_hasTag_of_mem_entries {t : Tree} (h : t.hasTag = false) {e : Tree × Tree} (he : e ∈ t.entries) :
    e.1.hasTag = false ∧ e.2.hasTag = false := by
  rw [entries, untag_of_not_hasTag h] at he
  cases t with
  | map es => exact (hasTagEntries_eq_false_iff es).1 h e he
  | _ => exact absurd he List.not_mem_nil

/-- The value given for a field has no tag if the record has none. -/
theorem not_hasTag_field {t : Tree} (h : t.hasTag = false) (names : List String) : (t.field names).hasTag = false := by
  unfold field
  cases hgiven : givenFor names t.entries with
  | nil => rfl
  | cons e es =>
    have he : e ∈ givenFor names t.entries := by simp [hgiven]
    exact (not_hasTag_of_mem_entries h (mem_givenFor.1 he).1).2

/-- What stands under a name in the JSON value of a map stands under a key with that text in the map. -/
theorem exists_entry_of_object {t : Tree} (htag : t.hasTag = false) (hdate : ∀ s, t ≠ .date s)
    {rows : List (String × Json)} (h : t.toJson? = some (.object rows)) {row : String × Json} (hrow : row ∈ rows) :
    ∃ e ∈ t.entries, e.1.keyText? = some row.1 ∧ e.2.toJson? = some row.2 := by
  cases t with
  | map es =>
    obtain ⟨found, hfound, heq⟩ := Option.map_eq_some_iff.1 h
    cases heq
    have hmem := NameTable.mem_of_get?_ofList ((NameTable.get?_eq_some_iff _ row.1 row.2).2 hrow)
    exact exists_of_forall₂_right ((toJsonEntries?_eq_some_iff es found).1 hfound) hmem
  | date s => exact absurd rfl (hdate s)
  | tagged => exact nomatch htag
  | float x =>
    rw [toJson?, Option.some.injEq] at h
    split at h <;> cases h
  | list items =>
    obtain ⟨_, -, heq⟩ := Option.map_eq_some_iff.1 h
    cases heq
  | null | bool | int | text => cases h

/-- The two texts of a key differ at most in how a number is written. -/
theorem texts_of_key {k : Tree} {shown name : String} (hshown : k.keyText? = some shown)
    (hname : k.scalarText? = some name) :
    name = shown ∨ ∃ x, k = .float x ∧ name = Decimal.bare.write x ∧ shown = Decimal.scientific.write x := by
  cases k with
  | float x =>
    rw [keyText?] at hshown
    split at hshown <;> cases hshown
    cases hname
    exact .inr ⟨x, rfl, rfl, rfl⟩
  | text | date | bool | int => exact .inl (Option.some.inj (hname.symm.trans hshown))
  | null | list | map | tagged => cases hname

/-- A name that a hint shows and the name that the table has belong to one key: they are the same text, or the key is a
number and each is its own way to write it. -/
def Shows (table : Tree) (shown name : String) : Prop :=
  ∃ k ∈ table.keys, k.keyText? = some shown ∧ k.scalarText? = some name ∧
    (name = shown ∨ ∃ x, k = .float x ∧ name = Decimal.bare.write x ∧ shown = Decimal.scientific.write x)

end Tree

namespace Config

variable {d : Dialect}

theorem exists_name_of_object {α : Type} {read : Read α} {blank : α} {t : Tree} {table : NameTable α}
    (h : readNamed read blank d t = .ok table) (htag : t.hasTag = false) {rows : List (String × Json)}
    (hobject : t.toJson? = some (.object rows)) {row : String × Json} (hrow : row ∈ rows) :
    ∃ name, table.contains name = true ∧ t.Shows row.1 name := by
  have hdate (s : String) : t ≠ .date s := by
    rintro rfl
    exact nomatch h
  obtain ⟨e, he, hshown, -⟩ := Tree.exists_entry_of_object htag hdate hobject hrow
  have hkey : e.1 ∈ t.keys := List.mem_map_of_mem he
  obtain ⟨name, hname⟩ := Option.isSome_iff_exists.1 ((readNamed_spec h).1 _ hkey)
  exact ⟨name, (contains_readNamed h name).2 ⟨e.1, hkey, hname⟩, e.1, hkey, hshown, hname,
    Tree.texts_of_key hshown hname⟩

section Records
variable {σ α : Type} {slots : List (Slot σ)} {title : String} {start r : σ} {t : Tree}

theorem exists_key_of_readRecord (h : readRecord title slots start d t = .ok r) {e : Tree × Tree}
    (he : e ∈ t.entries) : ∃ key, e.1.untag = .text key := by
  unfold Tree.entries at he
  split at he
  · rename_i es ht
    rw [readRecord, ht] at h
    obtain ⟨given, hgiven, -, -⟩ := (readEntries_eq_ok_iff _ _ _ _ _ _).1 h
    obtain ⟨_, -, hgives⟩ := exists_of_forall₂_right hgiven.flip he
    cases hgives with
    | nothing hk | change hk => exact ⟨_, (readFieldName_eq_ok_iff _ _ _).1 hk⟩
  · exact absurd he List.not_mem_nil

/-- In a record without tags, what stands under a field's name in the JSON value is the value of the field. -/
theorem toJson?_field {name : String} {read : Read α} {get : σ → α} (hfield : IsField slots name [] read get)
    (hd : d.listIsRecord = false) (hblank : read d .null = .ok (get start))
    (h : readRecord title slots start d t = .ok r) (htag : t.hasTag = false) {rows : List (String × Json)}
    (hobject : t.toJson? = some (.object rows)) {u : Json} (hu : (name, u) ∈ rows) :
    (t.field [name]).toJson? = some u := by
  have hdate (s : String) : t ≠ .date s := by
    rintro rfl
    exact nomatch h
  obtain ⟨e, he, hname, hvalue⟩ := Tree.exists_entry_of_object htag hdate hobject hu
  obtain ⟨key, hkey⟩ := exists_key_of_readRecord h he
  have htext := hkey
  rw [Tree.untag_of_not_hasTag (Tree.not_hasTag_of_mem_entries htag he).1] at htext
  obtain rfl : key = name := by simpa [htext, Tree.keyText?] using hname
  have hgiven : e ∈ Tree.givenFor [key] t.entries :=
    Tree.mem_givenFor.2 ⟨he, by simp [Tree.spells_of_untag hkey]⟩
  rw [← (readRecord_get hfield hd h hblank).2 e hgiven, hvalue]

end Records

end Config

namespace Workflow

theorem parse_yaml {text : String} {t : Tree} (ht : Format.yaml.read? text = some t) : parse .yaml text = ofYaml t := by
  have hparse := (toOption_eq_some_iff _ _).1 ht
  rw [parse, hparse]

theorem path_hint {s : Stray} {table dotted name : String} (htable : table ≠ "") (hdotted : table ++ "." = dotted)
    (hplace : s.place = [table, name]) : (s.hint "").path = dotted ++ name ++ "." ++ s.key := by
  have hpath : dotted ++ name ≠ "" := by simp [← hdotted]
  simp only [Stray.hint, hplace, List.foldl_cons, List.foldl_nil, join, if_pos, if_neg htable, if_neg hpath, hdotted]

section Loaded
variable {t : Tree} {w : Workflow}

theorem exists_name_of_holds {α : Type} {name : String} {read : Read α} {blank : α} {get : Workflow → NameTable α}
    (hfield : IsField workflowSlots name [] (readNamed read blank) get)
    (hblank : readNamed read blank Format.yaml.dialect .null = .ok (get .empty)) (h : (ofYaml t).result = .ok w)
    (htag : t.hasTag = false) {v x : Json} (hv : t.toJson? = some v) {shown : String} {rest : List String}
    (hx : v.Holds (name :: shown :: rest) x) :
    ∃ id, (get w).contains id = true ∧ (t.field [name]).Shows shown id := by
  have hshape := (ofYaml_eq_ok_iff t w).1 h
  cases hx with
  | within hu hx =>
    cases hx with
    | within hbody _ =>
      have hobject := toJson?_field hfield rfl hblank hshape htag hv hu
      have hread := (readRecord_get hfield rfl hshape hblank).1
      exact exists_name_of_object hread (Tree.not_hasTag_field htag [name]) hobject hbody

/-- In a document without tags every hint is at an entry of a record, and a hint in a hat or an event shows one that the
workflow has, by the text of its key. -/
theorem hints_name_bodies {text : String} (h : (parse .yaml text).result = .ok w)
    (ht : Format.yaml.read? text = some t) (htag : t.hasTag = false) :
    (parse .yaml text).hints.Perm (t.hinted.map (Stray.hint "")) ∧ ∀ s ∈ t.hinted, RecordPlace s.place ∧
      (∀ shown, s.place = ["hats", shown] → (s.hint "").path = "hats." ++ shown ++ "." ++ s.key ∧
        ∃ id, w.hats.contains id = true ∧ (t.field ["hats"]).Shows shown id) ∧
      (∀ shown, s.place = ["events", shown] → (s.hint "").path = "events." ++ shown ++ "." ++ s.key ∧
        ∃ name, w.declares name = true ∧ (t.field ["events"]).Shows shown name) := by
  rw [parse_yaml ht] at h ⊢
  constructor
  · rcases ofYaml_cases t with htree | ⟨hnull, hnone⟩
    · rw [htree]
      exact Tree.hintsOfTree_perm_hinted t
    · rw [Tree.untag_of_not_hasTag htag] at hnull
      rw [hnone, hnull]
      exact .nil
  · intro s hs
    cases hv : t.toJson? with
    | none => simp [Tree.hinted, hv] at hs
    | some v =>
      rw [Tree.hinted_of_toJson? hv] at hs
      obtain ⟨hpass, x, hx⟩ := (mem_strays_iff _ _ _).1 ⟨s, hs, rfl⟩
      refine ⟨recordPlace_of_passesOver hpass, ?_, ?_⟩
      · intro shown hplace
        rw [Stray.address, hplace] at hx
        exact ⟨path_hint (by decide) (by decide) hplace, exists_name_of_holds isField_hats rfl h htag hv hx⟩
      · intro shown hplace
        rw [Stray.address, hplace] at hx
        exact ⟨path_hint (by decide) (by decide) hplace, exists_name_of_holds isField_events rfl h htag hv hx⟩

end Loaded

/-- A hat whose id is a whole number, with a misspelt key in its body. -/
def numberedHat : String :=
  "hats:\n  7:\n    modle: m\n"

theorem numberedHat_named :
    ∃ w t, (parse .yaml numberedHat).result = .ok w ∧ Format.yaml.read? numberedHat = some t ∧ t.hasTag = false ∧
      ∃ s ∈ t.hinted, (s.hint "").path = "hats." ++ "7" ++ "." ++ s.key ∧
        ∃ id, w.hats.contains id = true ∧ (t.field ["hats"]).Shows "7" id := by
  have hloads : (parse .yaml numberedHat).result.toOption.isSome = true := by decide +kernel
  have htree : ((Format.yaml.read? numberedHat).any fun t => !t.hasTag && t.hinted.any (·.place = ["hats", "7"])) =
      true := by decide +kernel
  obtain ⟨w, hw⟩ := Option.isSome_iff_exists.1 hloads
  rw [toOption_eq_some_iff] at hw
  obtain ⟨t, ht, hfound⟩ := (Option.any_eq_true _ _).1 htree
  simp only [Bool.and_eq_true, Bool.not_eq_true', List.any_eq_true, decide_eq_true_eq] at hfound
  obtain ⟨htag, s, hs, hplace⟩ := hfound
  obtain ⟨hpath, hname⟩ := ((hints_name_bodies hw ht htag).2 s hs).2.1 "7" hplace
  exact ⟨w, t, hw, ht, htag, s, hs, hpath, hname⟩

/-- A hat whose id is a number with an exponent, with a misspelt key in its body. -/
def largeHat : String :=
  "hats:\n  1e21:\n    modle: m\n"

theorem largeHat_misnamed :
    ∃ w t, (parse .yaml largeHat).result = .ok w ∧ Format.yaml.read? largeHat = some t ∧ t.hasTag = false ∧
      ∃ s ∈ t.hinted, s.place = ["hats", "1e+21"] ∧
        ∀ id key, w.hats.contains id = true → (s.hint "").path ≠ "hats." ++ id ++ "." ++ key := by
  have hloads : ((parse .yaml largeHat).result.toOption.any fun w => w.hats.names = ["1000000000000000000000"]) =
      true := by decide +kernel
  have htree : ((Format.yaml.read? largeHat).any fun t => !t.hasTag && t.hinted.any fun s =>
      s.place = ["hats", "1e+21"] ∧ s.key = "modle") = true := by decide +kernel
  obtain ⟨w, hw, hnames⟩ := (Option.any_eq_true _ _).1 hloads
  rw [toOption_eq_some_iff] at hw
  obtain ⟨t, ht, hfound⟩ := (Option.any_eq_true _ _).1 htree
  simp only [Bool.and_eq_true, Bool.not_eq_true', List.any_eq_true, decide_eq_true_eq] at hfound hnames
  obtain ⟨htag, s, hs, hplace, hkey⟩ := hfound
  refine ⟨w, t, hw, ht, htag, s, hs, hplace, ?_⟩
  intro id key hid heq
  have hmem : id ∈ w.hats.names := by
    obtain ⟨hat, hhat⟩ := Option.isSome_iff_exists.1 hid
    exact List.mem_map_of_mem ((NameTable.get?_eq_some_iff _ _ _).1 hhat)
  rw [hnames, List.mem_singleton] at hmem
  have hpath : (s.hint "").path = "hats." ++ "1e+21" ++ "." ++ s.key := path_hint (by decide) (by decide) hplace
  rw [hpath, hkey, hmem] at heq
  -- The two differ in the second character of the id.
  have hchar := congrArg (fun path : String => path.toList[6]?) heq
  simp [String.toList_append] at hchar

end Workflow

end Preflight
