import Preflight.Proofs.Config.Clean
import Preflight.Proofs.Decimal.Written
import Preflight.Proofs.Document.Fields
import Preflight.Proofs.Graph.Dangling
import Preflight.Proofs.Yaml.Whole
/-!
# Names as they are written

A name is the text of a scalar, and every scalar has one (`isTextualForm`).
`named_as_written`: the hats and events of a workflow are named by the keys of its
tree, the last entry of a name is the one that is kept, and a finding is a reference
whose text is that of no event's key.
-/

namespace Preflight

/-- The names of the field in which a hat lists the events it refers to. -/
def Usage.fieldNames : Usage → List String
  | .trigger => ["triggers", "subscriptions"]
  | .publish => ["publishes"]

namespace Tree

/-- A text is that of one of the scalars. -/
def HasText (scalars : List Tree) (text : String) : Prop :=
  ∃ t ∈ scalars, t.scalarText? = some text

instance (scalars : List Tree) (text : String) : Decidable (HasText scalars text) :=
  inferInstanceAs (Decidable (∃ t ∈ scalars, t.scalarText? = some text))

/-- The one textual form of a scalar: a text as it is, a truth value as its word, a whole number in decimal, and any
other number by its shortest digits. Nothing else has one. -/
def IsTextualForm (form : Option String) : Tree → Prop
  | .text s | .date s => form = some s
  | .bool true => form = some "true"
  | .bool false => form = some "false"
  | .int n => form = some (toString n)
  | .float x => x.WellFormed → ∃ text, form = some text ∧ x.IsWritten text
  | .null | .list _ | .map _ | .tagged _ _ => form = none

theorem isTextualForm (t : Tree) : t.IsTextualForm t.scalarText? := by
  match t with
  | .text _ | .date _ | .bool true | .bool false | .int _ | .null | .list _ | .map _ | .tagged _ _ => exact rfl
  | .float x => exact fun hx => ⟨_, rfl, Binary64.isWritten_bare hx⟩

/-- The elements of the list in which the body of a hat refers to events. -/
def references (usage : Usage) (body : Tree) : List Tree :=
  (body.field usage.fieldNames).items

theorem isSome_body?_iff (t : Tree) (name : String) : (t.body? name).isSome ↔ HasText t.keys name := by
  simp [body?, keys, HasText]

end Tree

namespace Config

variable {d : Dialect}

/-! ## Sets and tables of names -/

theorem readNames_spec {t : Tree} {names : NameSet} (h : readNames d t = .ok names) :
    (∀ item ∈ t.items, item.scalarText?.isSome) ∧ ∀ name, name ∈ names ↔ Tree.HasText t.items name := by
  obtain ⟨found, hfound, rfl⟩ := (map_eq_ok_iff _ _ _).1 h
  by_cases ht : t = .null
  · subst ht
    cases hfound
    exact ⟨fun item hitem => absurd hitem List.not_mem_nil, fun name => by simp [Tree.HasText, Tree.items, Tree.untag]⟩
  · rw [readOption_of_ne _ _ ht, map_eq_ok_iff] at hfound
    obtain ⟨set, hset, rfl⟩ := hfound
    exact readNameSet_spec hset

/-- Reads the body of a name; null is blank. -/
def readBody {α : Type} (read : Read α) (blank : α) : Read α := fun d t =>
  (readOption read d t).map (·.getD blank)

theorem readBody_eq_ok_iff {α : Type} (read : Read α) (blank : α) (body : Tree) (value : α) :
    readBody read blank d body = .ok value ↔
      (body = .null → value = blank) ∧ (body ≠ .null → read d body = .ok value) := by
  by_cases hbody : body = .null
  · subst hbody
    simp [readBody, readOption, Except.map, eq_comm]
  · rw [readBody, readOption_of_ne _ _ hbody]
    cases read d body <;> simp [Except.map, hbody]

/-- Where null stands for an empty record, a body is read like any hat. -/
theorem readHat_of_readBody (hd : d.nullIsEmpty = true) {body : Tree} {hat : Hat}
    (h : readBody readHat .empty d body = .ok hat) : readHat d body = .ok hat := by
  obtain ⟨hnull, hread⟩ := (readBody_eq_ok_iff _ _ body hat).1 h
  by_cases hbody : body = .null
  · rw [hnull hbody, hbody]
    exact if_pos hd
  · exact hread hbody

theorem readNamed_spec {α : Type} {read : Read α} {blank : α} {t : Tree} {table : NameTable α}
    (h : readNamed read blank d t = .ok table) :
    (∀ k ∈ t.keys, k.scalarText?.isSome) ∧
      ∀ name, Option.Rel (fun body value => readBody read blank d body = .ok value) (t.body? name)
        (table.get? name) := by
  obtain ⟨found, hfound, rfl⟩ := (map_eq_ok_iff _ _ _).1 h
  by_cases ht : t = .null
  · subst ht
    cases hfound
    exact ⟨fun k hk => absurd hk List.not_mem_nil, fun name => .none⟩
  · rw [readOption_of_ne _ _ ht, map_eq_ok_iff] at hfound
    obtain ⟨table, htable, rfl⟩ := hfound
    obtain ⟨hkeys, hrel⟩ := readTable_spec htable
    refine ⟨hkeys, fun name => ?_⟩
    rw [Option.getD_some, NameTable.get?_map]
    refine rel_map (hrel name) fun body value hvalue => ?_
    rw [readBody, hvalue]
    rfl

/-- A name is bound if it is the text of a key. -/
theorem contains_readNamed {α : Type} {read : Read α} {blank : α} {t : Tree} {table : NameTable α}
    (h : readNamed read blank d t = .ok table) (name : String) :
    table.contains name = true ↔ Tree.HasText t.keys name := by
  rw [← Tree.isSome_body?_iff, NameTable.contains, isSome_of_rel ((readNamed_spec h).2 name)]

/-! ## The fields that hold names -/

theorem isField_triggers : IsField hatSlots "triggers" ["subscriptions"] readNames Hat.triggers where
  given key hkey := by
    simp only [List.mem_cons, List.not_mem_nil, or_false] at hkey
    rcases hkey with rfl | rfl <;> exact ⟨_, rfl, fun _ _ => rfl⟩
  alone := by decide
  kept := by
    simp only [hatSlots, List.forall_mem_cons]
    refine ⟨?_, ?_, fun hne => absurd rfl hne, ?_, ?_, ?_, ?_, by simp⟩
    all_goals exact fun _ => keeps_get fun _ _ => rfl

theorem isField_publishes : IsField hatSlots "publishes" [] readNames Hat.publishes where
  given key hkey := by
    obtain rfl := List.mem_singleton.1 hkey
    exact ⟨_, rfl, fun _ _ => rfl⟩
  alone := by decide
  kept := by
    simp only [hatSlots, List.forall_mem_cons]
    refine ⟨?_, ?_, ?_, fun hne => absurd rfl hne, ?_, ?_, ?_, by simp⟩
    all_goals exact fun _ => keeps_get fun _ _ => rfl

theorem isField_hats : IsField workflowSlots "hats" [] (readNamed readHat .empty) Workflow.hats where
  given key hkey := by
    obtain rfl := List.mem_singleton.1 hkey
    exact ⟨_, rfl, fun _ _ => rfl⟩
  alone := by decide
  kept := by
    simp only [workflowSlots, List.forall_mem_cons]
    refine ⟨?_, ?_, fun hne => absurd rfl hne, ?_, ?_, ?_, by simp⟩
    all_goals exact fun _ => keeps_get fun _ _ => rfl

theorem isField_events : IsField workflowSlots "events" [] (readNamed readEvent .empty) Workflow.events where
  given key hkey := by
    obtain rfl := List.mem_singleton.1 hkey
    exact ⟨_, rfl, fun _ _ => rfl⟩
  alone := by decide
  kept := by
    simp only [workflowSlots, List.forall_mem_cons]
    refine ⟨?_, ?_, ?_, ?_, fun hne => absurd rfl hne, ?_, by simp⟩
    all_goals exact fun _ => keeps_get fun _ _ => rfl

/-- The events of a hat are the texts of the references in its body. -/
theorem mem_eventsOf_readHat (hd : d.listIsRecord = false) {body : Tree} {hat : Hat} (h : readHat d body = .ok hat)
    (usage : Usage) : (∀ k ∈ body.references usage, k.scalarText?.isSome) ∧
      ∀ event, event ∈ hat.eventsOf usage ↔ Tree.HasText (body.references usage) event := by
  cases usage with
  | trigger => exact readNames_spec (readRecord_get isField_triggers hd h rfl).1
  | publish => exact readNames_spec (readRecord_get isField_publishes hd h rfl).1

end Config

namespace Workflow

theorem ofYaml_eq_ok_iff (t : Tree) (w : Workflow) :
    (ofYaml t).result = .ok w ↔ Config.shape Format.yaml.dialect t = .ok w := by
  unfold ofYaml
  split
  · rename_i ht
    have hempty : Config.shape Format.yaml.dialect t = .ok empty := by
      rw [Config.shape, readRecord, ht]
      rfl
    rw [hempty, Except.ok.injEq, Except.ok.injEq]
  · exact ofTree_eq_ok_iff .yaml t w

/-- A check finds that a hat refers to an event in a way. -/
def Finds (w : Workflow) (hat event : String) (usage : Usage) : Prop :=
  ∃ report, w.check = .error report ∧
    ∃ d ∈ report.diagnostics, d.hat = some hat ∧ d.event = some event ∧ d.usage = some usage

theorem finds_iff (w : Workflow) (hat event : String) (usage : Usage) :
    w.Finds hat event usage ↔ w.Dangles ⟨hat, event, usage⟩ := by
  constructor
  · rintro ⟨report, hreport, found, hfound, hhat, hevent, husage⟩
    obtain ⟨-, rfl⟩ := (checkWith_eq_error_iff _ w report).1 hreport
    rw [diagnostics_report] at hfound
    obtain ⟨⟨_, _, _⟩, hs, rfl⟩ := List.mem_map.1 hfound
    cases hhat
    cases hevent
    cases husage
    exact (mem_dangling w _).1 hs
  · intro h
    refine ⟨w.report, (checkWith_eq_error_iff _ w _).2 ⟨⟨_, h⟩, rfl⟩, Site.finding w.declared ⟨hat, event, usage⟩, ?_⟩
    rw [diagnostics_report]
    exact ⟨List.mem_map_of_mem ((mem_dangling w _).2 h), rfl, rfl, rfl⟩

section Loaded
variable {t : Tree} {w : Workflow}

theorem hats_ofYaml (h : (ofYaml t).result = .ok w) :
    Config.readNamed Config.readHat .empty Format.yaml.dialect (t.field ["hats"]) = .ok w.hats :=
  (readRecord_get Config.isField_hats rfl ((ofYaml_eq_ok_iff t w).1 h) rfl).1

theorem events_ofYaml (h : (ofYaml t).result = .ok w) :
    Config.readNamed Config.readEvent .empty Format.yaml.dialect (t.field ["events"]) = .ok w.events :=
  (readRecord_get Config.isField_events rfl ((ofYaml_eq_ok_iff t w).1 h) rfl).1

/-- A workflow has a hat for a body, whose events are the references in it. -/
theorem rel_hats_ofYaml (h : (ofYaml t).result = .ok w) (id : String) :
    Option.Rel (fun body hat => Config.readBody Config.readHat .empty Format.yaml.dialect body = .ok hat ∧
      ∀ usage, (∀ k ∈ body.references usage, k.scalarText?.isSome) ∧
        ∀ event, event ∈ hat.eventsOf usage ↔ Tree.HasText (body.references usage) event)
      ((t.field ["hats"]).body? id) (w.hats.get? id) := by
  refine rel_imp ((Config.readNamed_spec (hats_ofYaml h)).2 id) fun body hat hbody => ⟨hbody, ?_⟩
  exact Config.mem_eventsOf_readHat rfl (Config.readHat_of_readBody rfl hbody)

theorem finds_ofYaml_iff (h : (ofYaml t).result = .ok w) (id event : String) (usage : Usage) :
    w.Finds id event usage ↔
      (∃ body, (t.field ["hats"]).body? id = some body ∧ Tree.HasText (body.references usage) event) ∧
        ¬Tree.HasText (t.field ["events"]).keys event := by
  rw [finds_iff, ← Config.contains_readNamed (events_ofYaml h), Bool.not_eq_true]
  have hrel := rel_hats_ofYaml h id
  constructor
  · rintro ⟨hat, hhat, hevent, hdeclares⟩
    rw [hhat] at hrel
    obtain ⟨body, hbody, -, hevents⟩ := exists_of_rel_some hrel
    exact ⟨⟨body, hbody, ((hevents usage).2 event).1 hevent⟩, hdeclares⟩
  · rintro ⟨⟨body, hbody, hevent⟩, hdeclares⟩
    rw [hbody] at hrel
    obtain ⟨hat, hhat, -, hevents⟩ := exists_of_some_rel hrel
    exact ⟨hat, hhat, ((hevents usage).2 event).2 hevent, hdeclares⟩

/-- The names of a workflow are the texts of its keys; the last body of a name is the one that is kept, and its
references are found wanting where no key of an event has their text. Written bare, a whole number is its own text; a
number with a fraction is the text of the shortest digits that are read as the same double. -/
theorem named_as_written (h : (ofYaml t).result = .ok w) :
    ((∀ k ∈ (t.field ["hats"]).keys, k.scalarText?.isSome) ∧
      ∀ id, w.hats.contains id = true ↔ Tree.HasText (t.field ["hats"]).keys id) ∧
    ((∀ k ∈ (t.field ["events"]).keys, k.scalarText?.isSome) ∧
      ∀ event, w.declares event = true ↔ Tree.HasText (t.field ["events"]).keys event) ∧
    (∀ id hat, w.hats.get? id = some hat → ∃ body, (t.field ["hats"]).body? id = some body ∧
      (body = .null → hat = .empty) ∧ (body ≠ .null → Config.readHat Format.yaml.dialect body = .ok hat) ∧
      ∀ usage, (∀ k ∈ body.references usage, k.scalarText?.isSome) ∧
        ∀ event, event ∈ hat.eventsOf usage ↔ Tree.HasText (body.references usage) event) ∧
    (∀ name event, w.events.get? name = some event → ∃ body, (t.field ["events"]).body? name = some body ∧
      (body = .null → event = .empty) ∧ (body ≠ .null → Config.readEvent Format.yaml.dialect body = .ok event)) ∧
    (∀ id event usage, w.Finds id event usage ↔
      (∃ body, (t.field ["hats"]).body? id = some body ∧ Tree.HasText (body.references usage) event) ∧
        ¬Tree.HasText (t.field ["events"]).keys event) ∧
    (∀ bare reference key, Yaml.resolve none true bare = some reference → Yaml.resolve none true bare = some key →
      key ∈ (t.field ["events"]).keys → ∀ event, reference.scalarText? = some event → w.declares event = true) ∧
    (∀ n : Int, -(pow2 63 : Int) ≤ n → n < pow2 64 →
      ∃ k, Yaml.resolve none true (toString n) = some k ∧ k.scalarText? = some (toString n)) ∧
    (∀ k : Tree, k.IsTextualForm k.scalarText?) ∧
    (∀ tag isPlain source x, Yaml.resolve tag isPlain source = some (.float x) → x.WellFormed) := by
  have hdeclares := Config.contains_readNamed (events_ofYaml h)
  refine ⟨⟨(Config.readNamed_spec (hats_ofYaml h)).1, Config.contains_readNamed (hats_ofYaml h)⟩,
    ⟨(Config.readNamed_spec (events_ofYaml h)).1, hdeclares⟩, ?_, ?_, finds_ofYaml_iff h, ?_, ?_,
    Tree.isTextualForm, fun _ _ _ _ => Yaml.wellFormed_of_resolve⟩
  · intro id hat hhat
    have hrel := rel_hats_ofYaml h id
    rw [hhat] at hrel
    obtain ⟨body, hbody, hread, hevents⟩ := exists_of_rel_some hrel
    obtain ⟨hnull, hread⟩ := (Config.readBody_eq_ok_iff _ _ body hat).1 hread
    exact ⟨body, hbody, hnull, hread, hevents⟩
  · intro name event hevent
    have hrel := (Config.readNamed_spec (events_ofYaml h)).2 name
    rw [hevent] at hrel
    obtain ⟨body, hbody, hread⟩ := exists_of_rel_some hrel
    exact ⟨body, hbody, (Config.readBody_eq_ok_iff _ _ body event).1 hread⟩
  · intro bare reference key href hkey hmem event hevent
    obtain rfl : reference = key := Option.some.inj (href.symm.trans hkey)
    exact (hdeclares event).2 ⟨reference, hmem, hevent⟩
  · intro n hlow hhigh
    exact ⟨.int n, Yaml.resolve_toString hlow hhigh, rfl⟩

end Loaded

/-- The double nearest to a tenth. -/
def tenth : Tree :=
  .float (.finite false 7205759403792794 (-56))

/-- Two hats with one name, of which the last waits for the largest number, for a fraction, and for a number that is
declared. -/
def numbered : Tree :=
  .map [
    (.text "hats", .map [
      (.int 7, .map [(.text "model", .text "m")]),
      (.bool false, .null),
      (.text "7", .map [(.text "subscriptions", .list [.int 18446744073709551615, tenth, .int 404])])]),
    (.text "events", .map [(.int 404, .null)])]

theorem numbered_named : ∃ w, (ofYaml numbered).result = .ok w ∧ w.hats.get? "false" = some .empty ∧
    w.Finds "7" "18446744073709551615" .trigger ∧ ¬w.Finds "7" "404" .trigger ∧
    (Yaml.resolve none true "1.0e-1").bind Tree.scalarText? = some "0.1" ∧ w.Finds "7" "0.1" .trigger := by
  have hloads : (ofYaml numbered).result.toOption.isSome = true := by decide +kernel
  obtain ⟨w, hw⟩ := Option.isSome_iff_exists.1 hloads
  rw [toOption_eq_some_iff] at hw
  obtain ⟨⟨-, hhats⟩, -, hbodies, -, hfinds, -⟩ := named_as_written hw
  refine ⟨w, hw, ?_, ?_, ?_, by decide +kernel, ?_⟩
  · obtain ⟨hat, hhat⟩ := Option.isSome_iff_exists.1 ((hhats "false").2 (by decide +kernel))
    obtain ⟨body, hbody, hnull, -⟩ := hbodies "false" hat hhat
    cases hbody
    rw [hhat, hnull rfl]
  · exact (hfinds _ _ _).2 ⟨⟨_, rfl, by decide +kernel⟩, by decide +kernel⟩
  · exact fun hfound => ((hfinds _ _ _).1 hfound).2 (by decide +kernel)
  · exact (hfinds _ _ _).2 ⟨⟨_, rfl, by decide +kernel⟩, by decide +kernel⟩

end Workflow

end Preflight
