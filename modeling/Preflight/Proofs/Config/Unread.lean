import Preflight.Proofs.Config.Clean
import Preflight.Proofs.Config.Stray
/-!
# Hints and readers agree

A reader heeds the known keys if it gives the same for a value whatever stands
in an entry they pass over, and refuses a value in which an entry they know has
a wrong value. Every reader of a workflow heeds the keys known of it
(`heeds_shape`), hence `hinted_entries_unread`: the entries that are hinted at
are those that decide nothing.
-/

namespace Preflight.Config

open Preflight.Tree

/-- Whatever stands in an entry that the keys pass over makes no difference to the reader, and a truth value in an
entry that they know is refused. -/
structure Heeds {α : Type} (keys : Keys) (read : Read α) : Prop where
  passes : ∀ (d : Dialect) (address : List String) (new : Option Json) (v : Json), keys.PassesOver address →
    read d (.ofJson (v.edit new address)) = read d (.ofJson v)
  minds : ∀ (d : Dialect) (address : List String) (v x : Json) (a : α), keys.Knows address → v.Holds address x →
    read d (.ofJson (v.edit (some (.bool true)) address)) ≠ .ok a

/-- The reader has no use for a truth value. -/
def RefusesBool {α : Type} (read : Read α) : Prop :=
  ∀ d a, read d (.bool true) ≠ .ok a

/-! ## Readers of single values -/

section Values
variable {α β : Type} {keys : Keys} {read : Read α}

theorem heeds_leaf (read : Read α) : Heeds .leaf read where
  passes _ address _ _ h := absurd h (Keys.not_passesOver_leaf address)
  minds _ address _ _ _ h := absurd h (Keys.not_knows_leaf address)

theorem heeds_map (h : Heeds keys read) (f : α → β) : Heeds keys fun d t => (read d t).map f where
  passes d address new v hpass := by rw [h.passes d address new v hpass]
  minds d address v x b hknows hx hb := by
    obtain ⟨a, ha, -⟩ := (map_eq_ok_iff _ _ _).1 hb
    exact h.minds d address v x a hknows hx ha

theorem heeds_readOption (h : Heeds keys read) : Heeds keys (readOption read) where
  passes d address new v hpass := by
    cases v with
    | object es =>
      obtain ⟨fs, hfs⟩ := Json.exists_edit_object new address es
      have hread := h.passes d address new (.object es) hpass
      rw [hfs] at hread ⊢
      exact congrArg (Except.map some) hread
    | _ => rw [Json.edit_of_not_object (fun _ => Json.noConfusion)]
  minds d address v x o hknows hx ho := by
    cases hx with
    | here => exact absurd rfl hknows.ne_nil
    | @within es key _ _ rest hmem hx =>
      obtain ⟨fs, hfs⟩ := Json.exists_edit_object (some (.bool true)) (key :: rest) es
      have hread := h.minds d (key :: rest) (.object es) x
      rw [hfs] at hread ho
      obtain ⟨a, ha, -⟩ := (map_eq_ok_iff _ _ _).1 ho
      exact hread a hknows (.within hmem hx) ha

theorem refusesBool_map (h : RefusesBool read) (f : α → β) : RefusesBool fun d t => (read d t).map f := by
  intro d b hb
  obtain ⟨a, ha, -⟩ := (map_eq_ok_iff _ _ _).1 hb
  exact h d a ha

theorem refusesBool_readText : RefusesBool readText := by
  intro d s h
  exact nomatch h

theorem refusesBool_readNameSet : RefusesBool readNameSet := by
  intro d s h
  exact nomatch h

theorem refusesBool_readTable (readKey : Read String) (read : Read α) : RefusesBool (readTable readKey read) := by
  intro d table h
  exact nomatch h

theorem refusesBool_readRecord {σ : Type} (title : String) (slots : List (Slot σ)) (start : σ) :
    RefusesBool (readRecord title slots start) := by
  intro d r h
  exact nomatch h

theorem refusesBool_readOption (h : RefusesBool read) : RefusesBool (readOption read) :=
  refusesBool_map h some

end Values

/-! ## Entries of an edited object -/

section Edited
variable {es : List (String × Json)} {key : String} {u : Json}

theorem mem_edit_last (h : (key, u) ∈ es) (x : Json) :
    (key, x) ∈ es.filterMap fun e => if e.1 = key then (some x).map (key, ·) else some e := by
  refine List.mem_filterMap.2 ⟨_, h, ?_⟩
  rw [if_pos rfl, Option.map_some]

theorem mem_edit_within (h : (key, u) ∈ es) (new : Option Json) (rest : List String) :
    (key, u.edit new rest) ∈ es.map fun e => if e.1 = key then (key, e.2.edit new rest) else e := by
  refine List.mem_map.2 ⟨_, h, ?_⟩
  rw [if_pos rfl]

theorem mem_ofJsonEntries (h : (key, u) ∈ es) : (.text key, .ofJson u) ∈ ofJsonEntries es := by
  rw [ofJsonEntries_eq_map]
  exact List.mem_map_of_mem h

end Edited

/-! ## Tables -/

section Tables
variable {α : Type} {each : Keys} {read : Read α} {readKey : Read String}

theorem mapM_readPair_edit_within (readKey : Read String) {d : Dialect} (key : String) {rest : List String}
    {new : Option Json} (hread : ∀ v, read d (.ofJson (v.edit new rest)) = read d (.ofJson v))
    (es : List (String × Json)) :
    (ofJsonEntries (es.map fun e => if e.1 = key then (key, e.2.edit new rest) else e)).mapM (readPair readKey read d) =
      (ofJsonEntries es).mapM (readPair readKey read d) := by
  have hpair (e : String × Json) :
      readPair readKey read d (.text (if e.1 = key then (key, e.2.edit new rest) else e).1,
        .ofJson (if e.1 = key then (key, e.2.edit new rest) else e).2) =
      readPair readKey read d (.text e.1, .ofJson e.2) := by
    by_cases hkey : e.1 = key
    · rw [if_pos hkey, readPair, readPair, hread e.2, hkey]
    · rw [if_neg hkey]
  rw [ofJsonEntries_eq_map, ofJsonEntries_eq_map, List.map_map, List.mapM_map, List.mapM_map]
  exact congrArg (es.mapM ·) (funext hpair)

theorem heeds_readTable (h : Heeds each read) : Heeds (.free each) (readTable readKey read) where
  passes d address new v hpass := by
    cases v with
    | object es =>
      cases hpass with
      | here hnone => exact nomatch hnone
      | @inside _ _ key rest heach hrest =>
        cases heach
        have hpairs := mapM_readPair_edit_within readKey key (fun v => h.passes d rest new v hrest) es
        rw [Json.edit_within new key hrest.ne_nil]
        simp only [readTable, readPairs, ofJson, untag, bind, Except.bind, hpairs]
    | _ => rw [Json.edit_of_not_object (fun _ => Json.noConfusion)]
  minds d address v x table hknows hx htable := by
    cases hx with
    | here => exact absurd rfl hknows.ne_nil
    | @within es key u _ rest hmem hx =>
      cases hknows with
      | inside heach hrest =>
        cases heach
        rw [Json.edit_within _ key hrest.ne_nil] at htable
        obtain ⟨a, ha⟩ := exists_read_of_readTable _ _ _ htable rfl (mem_ofJsonEntries (mem_edit_within hmem _ rest))
        exact h.minds d rest u x a hrest hx ha

theorem heeds_readNamed (h : Heeds each read) (blank : α) : Heeds (.free each) (readNamed read blank) :=
  heeds_map (heeds_readOption (heeds_readTable (heeds_readOption h))) _

end Tables

/-! ## Records -/

section Records
variable {σ : Type} {known : List (String × Keys)} {slots : List (Slot σ)}

/-- The known keys are those of the fields, each heeded by the reader of its field. -/
structure Fits (known : List (String × Keys)) (slots : List (Slot σ)) : Prop where
  keys : ∀ key, known.lookup key = none ↔ slots.find? (·.answers key) = none
  heeds : ∀ key keys slot, known.lookup key = some keys → slots.find? (·.answers key) = some slot →
    Heeds keys slot.read
  refuses : ∀ slot ∈ slots, RefusesBool slot.read

theorem readEntries_skip {d : Dialect} {seen : List String} {key : String}
    (hkey : slots.find? (·.answers key) = none) (v : Json) (es : List (String × Json)) (r : σ) :
    readEntries slots d seen (ofJsonEntries ((key, v) :: es)) r = readEntries slots d seen (ofJsonEntries es) r := by
  rw [ofJsonEntries, readEntries]
  simp only [readFieldName, untag, bind, Except.bind, hkey]

theorem readEntries_edit_last {d : Dialect} {key : String} (hkey : slots.find? (·.answers key) = none)
    (new : Option Json) (es : List (String × Json)) (seen : List String) (r : σ) :
    readEntries slots d seen
        (ofJsonEntries (es.filterMap fun e => if e.1 = key then new.map (key, ·) else some e)) r =
      readEntries slots d seen (ofJsonEntries es) r := by
  induction es generalizing seen r with
  | nil => rfl
  | cons e es ih =>
    obtain ⟨name, v⟩ := e
    by_cases hname : name = key
    · subst hname
      rw [readEntries_skip hkey v es r, ← ih seen r]
      cases new with
      | none => simp
      | some x =>
        have hcons : ((name, v) :: es).filterMap (fun e => if e.1 = name then (some x).map (name, ·) else some e) =
            (name, x) :: es.filterMap fun e => if e.1 = name then (some x).map (name, ·) else some e := by
          simp
        rw [hcons, readEntries_skip hkey]
    · have hcons : ((name, v) :: es).filterMap (fun e => if e.1 = key then new.map (key, ·) else some e) =
          (name, v) :: es.filterMap fun e => if e.1 = key then new.map (key, ·) else some e := by
        simp [hname]
      rw [hcons, ofJsonEntries, ofJsonEntries, readEntries, readEntries]
      simp only [ih]

theorem readEntries_edit_within {d : Dialect} {key : String} {rest : List String} {new : Option Json}
    (hread : ∀ slot v, slots.find? (·.answers key) = some slot →
      slot.read d (.ofJson (v.edit new rest)) = slot.read d (.ofJson v))
    (es : List (String × Json)) (seen : List String) (r : σ) :
    readEntries slots d seen
        (ofJsonEntries (es.map fun e => if e.1 = key then (key, e.2.edit new rest) else e)) r =
      readEntries slots d seen (ofJsonEntries es) r := by
  induction es generalizing seen r with
  | nil => rfl
  | cons e es ih =>
    obtain ⟨name, v⟩ := e
    rw [List.map_cons]
    by_cases hname : name = key
    · subst hname
      rw [if_pos rfl, ofJsonEntries, ofJsonEntries, readEntries, readEntries]
      simp only [readFieldName, untag, bind, Except.bind]
      cases hslot : slots.find? (·.answers name) with
      | none => exact ih seen r
      | some slot => simp only [hread slot v hslot, ih]
    · rw [if_neg hname, ofJsonEntries, ofJsonEntries, readEntries, readEntries]
      simp only [ih]

theorem heeds_readRecord (h : Fits known slots) (title : String) (start : σ) :
    Heeds (.fixed known) (readRecord title slots start) where
  passes d address new v hpass := by
    cases v with
    | object es =>
      cases address with
      | nil => rfl
      | cons key rest =>
        cases hpass with
        | here hnone => exact readEntries_edit_last ((h.keys key).1 hnone) new es [] start
        | inside hknown hrest =>
          rw [Json.edit_within new key hrest.ne_nil]
          refine readEntries_edit_within ?_ es [] start
          intro slot v hslot
          exact (h.heeds key _ slot hknown hslot).passes d rest new v hrest
    | _ => rw [Json.edit_of_not_object (fun _ => Json.noConfusion)]
  minds d address v x r hknows hx hr := by
    cases hx with
    | here => exact absurd rfl hknows.ne_nil
    | @within es key u _ rest hmem hx =>
      have hslot {below : Keys} (hknown : known.lookup key = some below) :
          ∃ slot, slots.find? (·.answers key) = some slot := by
        rw [← Option.ne_none_iff_exists', Ne, ← h.keys, hknown]
        simp
      cases hknows with
      | here hknown =>
        obtain ⟨slot, hslot⟩ := hslot hknown
        obtain ⟨f, hf⟩ :=
          exists_read_of_readEntries hr (mem_ofJsonEntries (mem_edit_last hmem (.bool true))) rfl hslot
        exact h.refuses slot (List.mem_of_find?_eq_some hslot) d f hf
      | inside hknown hrest =>
        obtain ⟨slot, hslot⟩ := hslot hknown
        rw [Json.edit_within _ key hrest.ne_nil] at hr
        obtain ⟨f, hf⟩ := exists_read_of_readEntries hr (mem_ofJsonEntries (mem_edit_within hmem _ rest)) rfl hslot
        exact (h.heeds key _ slot hknown hslot).minds d rest u x f hrest hx hf

end Records

/-! ## The fields of a record and its known keys -/

section Names
variable {σ : Type}

/-- The keys that name a field. -/
def spellings (slot : Slot σ) : List String :=
  slot.name :: slot.others

theorem answers_iff (slot : Slot σ) (key : String) : slot.answers key = true ↔ key ∈ spellings slot := by
  rw [Slot.answers, spellings, Bool.or_eq_true, beq_iff_eq, List.contains_iff_mem, List.mem_cons, eq_comm]

theorem find?_answers_eq_none_iff (slots : List (Slot σ)) (key : String) :
    slots.find? (·.answers key) = none ↔ key ∉ slots.flatMap spellings := by
  simp only [List.find?_eq_none, answers_iff, List.mem_flatMap, not_exists, not_and]

theorem lookup_eq_none_iff_not_mem (known : List (String × Keys)) (key : String) :
    known.lookup key = none ↔ key ∉ known.map (·.1) := by
  rw [List.lookup_eq_none_iff, List.mem_map]
  constructor
  · rintro h ⟨e, he, rfl⟩
    simpa using h e he
  · intro h e he
    rw [bne_iff_ne]
    rintro rfl
    exact h ⟨e, he, rfl⟩

/-- The known keys are those of the fields if they are listed beside each other. -/
theorem keys_of_perm {known : List (String × Keys)} {slots : List (Slot σ)}
    (h : (known.map (·.1)).Perm (slots.flatMap spellings)) (key : String) :
    known.lookup key = none ↔ slots.find? (·.answers key) = none := by
  rw [lookup_eq_none_iff_not_mem, find?_answers_eq_none_iff, h.mem_iff]

/-- In a record whose fields have no keys of their own inside them, only the names count. -/
theorem fits_of_leaves {known : List (String × Keys)} {slots : List (Slot σ)}
    (h : (known.map (·.1)).Perm (slots.flatMap spellings)) (hleaf : ∀ e ∈ known, e.2 = .leaf)
    (hrefuses : ∀ slot ∈ slots, RefusesBool slot.read) : Fits known slots where
  keys := keys_of_perm h
  heeds key keys slot hknown _ := by
    obtain rfl : keys = .leaf := hleaf _ (NameTable.mem_of_lookup hknown)
    exact heeds_leaf slot.read
  refuses := hrefuses

end Names

/-! ## The records of a workflow -/

theorem refusesBool_readFreeText : RefusesBool readFreeText :=
  refusesBool_map (refusesBool_readOption refusesBool_readText) _

theorem refusesBool_readNames : RefusesBool readNames :=
  refusesBool_map (refusesBool_readOption refusesBool_readNameSet) _

theorem refusesBool_readOverride : RefusesBool readOverride :=
  refusesBool_map (refusesBool_readOption refusesBool_readText) _

theorem refusesBool_readNamed {α : Type} (read : Read α) (blank : α) : RefusesBool (readNamed read blank) :=
  refusesBool_map (refusesBool_readOption (refusesBool_readTable _ _)) _

theorem heeds_readDefaults : Heeds (.fixed [("backend", .leaf), ("model", .leaf)]) readDefaults := by
  refine heeds_readRecord (fits_of_leaves (by decide) (by simp) ?_) _ _
  simp only [defaultsSlots, List.forall_mem_cons]
  exact ⟨refusesBool_map refusesBool_readOverride _, refusesBool_map refusesBool_readOverride _, by simp⟩

theorem heeds_readEvent : Heeds (.fixed [("description", .leaf)]) readEvent := by
  refine heeds_readRecord (fits_of_leaves (by decide) (by simp) ?_) _ _
  simp only [eventSlots, List.forall_mem_cons]
  exact ⟨refusesBool_map refusesBool_readFreeText _, by simp⟩

theorem heeds_readHat : Heeds (.fixed [("backend", .leaf), ("description", .leaf), ("instructions", .leaf),
    ("model", .leaf), ("name", .leaf), ("publishes", .leaf), ("subscriptions", .leaf), ("triggers", .leaf)])
    readHat := by
  refine heeds_readRecord (fits_of_leaves (by decide) (by simp) ?_) _ _
  simp only [hatSlots, List.forall_mem_cons]
  exact ⟨refusesBool_map refusesBool_readFreeText _, refusesBool_map refusesBool_readFreeText _,
    refusesBool_map refusesBool_readNames _, refusesBool_map refusesBool_readNames _,
    refusesBool_map refusesBool_readOverride _, refusesBool_map refusesBool_readOverride _,
    refusesBool_map refusesBool_readFreeText _, by simp⟩

theorem heeds_readAliases : Heeds (.free (.free .leaf)) readAliases :=
  heeds_readTable (heeds_readTable (heeds_leaf _))

/-- The known keys of a workflow are heeded when it is shaped. -/
theorem heeds_shape : Heeds workflowKeys shape := by
  refine heeds_readRecord ⟨keys_of_perm (by decide), ?_, ?_⟩ _ _
  · intro key keys slot hknown hslot
    have hkey := (answers_iff slot key).1 (List.find?_some (p := fun s : Slot Workflow => s.answers key) hslot)
    have hmem := List.mem_of_find?_eq_some hslot
    simp only [workflowSlots, List.mem_cons, List.not_mem_nil, or_false] at hmem
    rcases hmem with rfl | rfl | rfl | rfl | rfl | rfl
    all_goals
      obtain rfl := List.mem_singleton.1 hkey
      cases hknown
    · exact heeds_leaf _
    · exact heeds_leaf _
    · exact heeds_map (heeds_readNamed heeds_readHat _) _
    · exact heeds_map heeds_readDefaults _
    · exact heeds_map (heeds_readNamed heeds_readEvent _) _
    · exact heeds_map heeds_readAliases _
  · simp only [workflowSlots, List.forall_mem_cons]
    exact ⟨refusesBool_map refusesBool_readFreeText _, refusesBool_map refusesBool_readFreeText _,
      refusesBool_map (refusesBool_readNamed _ _) _, refusesBool_map (refusesBool_readRecord _ _ _) _,
      refusesBool_map (refusesBool_readNamed _ _) _, refusesBool_map (refusesBool_readTable _ _) _, by simp⟩

/-! ## Edited workflows -/

theorem shape_editAll (d : Dialect) (v : Json) {edits : List (List String × Option Json)}
    (h : ∀ e ∈ edits, workflowKeys.PassesOver e.1) : shape d (.ofJson (v.editAll edits)) = shape d (.ofJson v) := by
  induction edits generalizing v with
  | nil => rfl
  | cons e edits ih =>
    obtain ⟨he, hrest⟩ := List.forall_mem_cons.1 h
    have hstep := heeds_shape.passes d e.1 e.2 v he
    exact (ih (v.edit e.2 e.1) hrest).trans hstep

/-- The places of records: the workflow itself, its defaults, its hats and its events. -/
inductive RecordPlace : List String → Prop
  | workflow : RecordPlace []
  | defaults : RecordPlace ["cli"]
  | hat (id : String) : RecordPlace ["hats", id]
  | event (name : String) : RecordPlace ["events", name]

theorem RecordPlace.knows_or_passesOver {place : List String} (h : RecordPlace place) (key : String) :
    workflowKeys.Knows (place ++ [key]) ∨ workflowKeys.PassesOver (place ++ [key]) := by
  cases h with
  | workflow => exact Keys.knows_or_passesOver _ key
  | defaults => exact Keys.knows_or_passesOver_inside rfl (Keys.knows_or_passesOver _ key)
  | hat | event =>
    exact Keys.knows_or_passesOver_inside rfl (Keys.knows_or_passesOver_inside rfl (Keys.knows_or_passesOver _ key))

/-- There is one hint for each stray entry. Whatever becomes of stray entries, deleted or given other values, what comes
of loading the workflow stays the same; and every other entry of a record has a value with which it is not loaded. -/
theorem hinted_entries_unread (v : Json) :
    (hints v).Perm ((strays workflowKeys v).map (Stray.hint "")) ∧
    (∀ s ∈ strays workflowKeys v, ∃ x, v.Holds s.address x) ∧
    (∀ edits : List (List String × Option Json), (∀ e ∈ edits, ∃ s ∈ strays workflowKeys v, s.address = e.1) →
      (Workflow.ofTree .json (.ofJson (v.editAll edits))).result = (Workflow.ofTree .json (.ofJson v)).result) ∧
    ∀ place es, RecordPlace place → v.Holds place (.object es) → ∀ e ∈ es,
      (∀ s ∈ strays workflowKeys v, s.address ≠ place ++ [e.1]) →
        ∃ x, ∀ w, (Workflow.ofTree .json (.ofJson (v.edit (some x) (place ++ [e.1])))).result ≠ .ok w := by
  refine ⟨hints_perm_strays v, ?_, ?_, ?_⟩
  · intro s hs
    exact ((mem_strays_iff _ _ _).1 ⟨s, hs, rfl⟩).2
  · intro edits hedits
    have hpass : ∀ e ∈ edits, workflowKeys.PassesOver e.1 := by
      intro e he
      exact ((mem_strays_iff _ _ _).1 (hedits e he)).1
    simp only [Workflow.ofTree, shape_editAll _ v hpass]
  · rintro place es hplace hes ⟨key, u⟩ he hnone
    have hu : v.Holds (place ++ [key]) u := hes.append (.within he (.here u))
    have hknows : workflowKeys.Knows (place ++ [key]) := by
      rcases hplace.knows_or_passesOver key with hknows | hpass
      · exact hknows
      · obtain ⟨s, hs, haddress⟩ := (mem_strays_iff _ _ _).2 ⟨hpass, u, hu⟩
        exact absurd haddress (hnone s hs)
    refine ⟨.bool true, ?_⟩
    intro w hw
    exact heeds_shape.minds _ _ v u w hknows hu ((Workflow.ofTree_eq_ok_iff _ _ w).1 hw)

theorem misspelt_entry_unread :
    let v : Json := .object [("hats", .object [("a", .object [("model", .text "m"), ("modle", .int 1)])]), ("x", .null)]
    (Workflow.ofTree .json (.ofJson (v.editAll [(["hats", "a", "modle"], none), (["x"], some (.int 2))]))).result =
      (Workflow.ofTree .json (.ofJson v)).result ∧
    ∃ x, ∀ w, (Workflow.ofTree .json (.ofJson (v.edit (some x) ["hats", "a", "model"]))).result ≠ .ok w := by
  intro v
  obtain ⟨-, -, hunread, hread⟩ := hinted_entries_unread v
  constructor
  · exact hunread _ (by decide)
  · exact hread ["hats", "a"] [("model", .text "m"), ("modle", .int 1)] (.hat "a")
      (.within List.mem_cons_self (.within List.mem_cons_self (.here _))) ("model", .text "m") List.mem_cons_self
      (by decide)

end Preflight.Config
