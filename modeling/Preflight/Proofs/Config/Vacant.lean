import Mathlib.Logic.Relation
import Preflight.Proofs.Config.Shape
import Preflight.Proofs.Document.Agree
import Preflight.Proofs.Graph.Verdict
/-!
# A vacant field may as well be absent

A field without content, a model or a backend that is blank, and a hat or an
event without a body change nothing but how a workflow is written back:
`agree_shape_of_edit`. The workflows read before and after are alike, and what
is alike is checked alike (`check_congr`), hence `verdict_of_vacant`.
-/

namespace Preflight

/-! ## Workflows that are alike -/

/-- Defaults that give the same texts. -/
structure Defaults.Alike (r r' : Defaults) : Prop where
  model : r.model.value? = r'.model.value?
  backend : r.backend.value? = r'.backend.value?

/-- Hats that differ at most in whether a setting is absent or blank. -/
structure Hat.Alike (h h' : Hat) : Prop where
  name : h.name = h'.name
  description : h.description = h'.description
  triggers : h.triggers = h'.triggers
  publishes : h.publishes = h'.publishes
  model : h.model.value? = h'.model.value?
  backend : h.backend.value? = h'.backend.value?
  instructions : h.instructions = h'.instructions

/-- Workflows that differ at most in whether settings are absent or blank. -/
structure Workflow.Alike (w w' : Workflow) : Prop where
  name : w.name = w'.name
  description : w.description = w'.description
  hats : w.hats.Rel Hat.Alike w'.hats
  defaults : w.defaults.Alike w'.defaults
  events : w.events.Rel Eq w'.events
  aliases : w.aliases = w'.aliases

theorem Defaults.Alike.refl (r : Defaults) : r.Alike r :=
  ⟨rfl, rfl⟩

theorem Hat.Alike.refl (h : Hat) : h.Alike h :=
  ⟨rfl, rfl, rfl, rfl, rfl, rfl, rfl⟩

theorem Workflow.Alike.refl (w : Workflow) : w.Alike w :=
  ⟨rfl, rfl, NameTable.Rel.refl Hat.Alike.refl _, .refl _, NameTable.Rel.refl (fun _ => rfl) _, rfl⟩

theorem choose_congr {hat hat' defaults defaults' : Override} (hhat : hat.value? = hat'.value?)
    (hdefaults : defaults.value? = defaults'.value?) (builtIn : String) :
    choose hat defaults builtIn = choose hat' defaults' builtIn := by
  rw [choose, choose, hhat, hdefaults]

theorem AliasTable.select_congr (t : AliasTable) {hat hat' : Hat} (hhat : hat.Alike hat')
    {defaults defaults' : Defaults} (hdefaults : defaults.Alike defaults') :
    t.select hat defaults = t.select hat' defaults' := by
  rw [select, select, choose_congr hhat.backend hdefaults.backend, choose_congr hhat.model hdefaults.model]

theorem Hat.resolve_congr (t : AliasTable) {h h' : Hat} (hh : h.Alike h') {defaults defaults' : Defaults}
    (hdefaults : defaults.Alike defaults') (id : String) : h.resolve t defaults id = h'.resolve t defaults' id := by
  rw [resolve, resolve, hh.name, hh.triggers, hh.publishes, t.select_congr hh hdefaults]

theorem Hat.Alike.wires {h h' : Hat} (hh : h.Alike h') : h.wires = h'.wires :=
  Prod.ext hh.triggers hh.publishes

namespace Workflow

theorem Alike.sameGraph {w w' : Workflow} (h : w.Alike w') : w.SameGraph w' where
  events event := by
    have hevents := h.events.map_eq (f := fun _ => ()) (g := fun _ => ()) fun _ _ _ => rfl
    have hevent := congrArg (·.contains event) hevents
    simpa only [declares, NameTable.contains, NameTable.get?_map, Option.isSome_map] using hevent
  hats id := by
    rw [← NameTable.get?_map, ← NameTable.get?_map, h.hats.map_eq fun _ _ => Hat.Alike.wires]

theorem plan_congr (t : AliasTable) {w w' : Workflow} (h : w.Alike w') : w.plan t = w'.plan t := by
  have hhats : w.hats.entries.map (fun e => e.2.resolve t w.defaults e.1) =
      w'.hats.entries.map fun e => e.2.resolve t w'.defaults e.1 :=
    h.hats.entries_map_eq fun id _ _ hhat => Hat.resolve_congr t hhat h.defaults id
  rw [plan, plan, hhats, h.name, summary_congr h.sameGraph]

/-- Workflows that are alike have the same plan, or the same report. -/
theorem check_congr {w w' : Workflow} (h : w.Alike w') : w.check = w'.check := by
  rw [check, check, checkWith, checkWith, aliasTable, aliasTable, h.aliases, report_congr h.sameGraph, plan_congr _ h]

end Workflow

/-! ## Edits of a tree -/

/-- A value without content, for a field: null, and for a model or a backend any blank text. -/
inductive Vacant (field : String) : Tree → Prop
  | null : Vacant field .null
  | blank {s : String} (hfield : field = "model" ∨ field = "backend") (hs : Text.trim s = "") : Vacant field (.text s)

/-- A vacant field is added, or a vacant value exchanged for another. -/
abbrev FieldEdit {σ : Type} (slots : List (Slot σ)) : Tree → Tree → Prop :=
  RecordEdit slots Vacant fun field v w => Vacant field v ∧ Vacant field w

/-- A body that is null becomes an empty map, or the body is edited. -/
inductive BodyEdit (edit : Tree → Tree → Prop) : Tree → Tree → Prop
  | empty : BodyEdit edit .null (.map [])
  | inside {v w : Tree} (h : edit v w) : BodyEdit edit v w

/-- One body of a table is edited. -/
inductive TableEdit (edit : Tree → Tree → Prop) : Tree → Tree → Prop
  | mk {before after : List (Tree × Tree)} {k v w : Tree} (h : BodyEdit edit v w) :
      TableEdit edit (.map (before ++ (k, v) :: after)) (.map (before ++ (k, w) :: after))

/-- Null where a workflow reads it as absent: everywhere in a notation where null is empty, else everywhere but in the
defaults and the shorthands. -/
def NullAtRoot (d : Dialect) (field : String) (v : Tree) : Prop :=
  v = .null ∧ (d.nullIsEmpty = true ∨ field ≠ "cli" ∧ field ≠ "aliases")

/-- The edits within a field of a workflow. -/
def Config.Within : String → Tree → Tree → Prop
  | "hats" => TableEdit (FieldEdit hatSlots)
  | "cli" => FieldEdit defaultsSlots
  | "events" => TableEdit (FieldEdit eventSlots)
  | _ => fun _ _ => False

/-- One edit, anywhere in the tree of a workflow, that says no more than before. -/
abbrev Config.Edit (d : Dialect) : Tree → Tree → Prop :=
  RecordEdit workflowSlots (NullAtRoot d) Within

theorem Vacant.eq_null {field : String} {v : Tree} (h : Vacant field v) (hmodel : field ≠ "model")
    (hbackend : field ≠ "backend") : v = .null := by
  cases h with
  | null => rfl
  | blank hfield => exact (hfield.elim hmodel hbackend).elim

namespace Config

variable {d : Dialect}

/-! ## Vacant values -/

theorem readOverride_vacant {field : String} {v : Tree} (h : Vacant field v) :
    ∃ o, readOverride d v = .ok o ∧ Override.unset.value? = o.value? := by
  cases h with
  | null => exact ⟨.blank, rfl, rfl⟩
  | @blank s _ hs => exact ⟨.parse s, rfl, by rw [Override.value?_parse, if_pos hs]; rfl⟩

/-- A slot of a hat, the defaults or an event is indifferent to vacant values if they all give the blank one. -/
theorem indifferent_exchange {σ α : Type} {S : σ → σ → Prop} {R : α → α → Prop} (hR : Equivalence R) {read : Read α}
    {put : α → σ → σ} {start : σ} {blank : α} (name : String) (others : List String)
    (hput : ∀ x y, R x y → Alongside S (put x) (put y)) (hstart : S start start) (hblank : put blank start = start)
    (hread : ∀ v, Vacant name v → ∃ x, read d v = .ok x ∧ R blank x) :
    (Slot.of name others read put).Indifferent S d start Vacant fun field v w => Vacant field v ∧ Vacant field w := by
  refine indifferent_of others hR.refl hput hstart hblank hread ?_
  rintro v w ⟨hv, hw⟩
  obtain ⟨x, hx, hbx⟩ := hread v hv
  obtain ⟨y, hy, hby⟩ := hread w hw
  rw [hx, hy]
  exact .ok (hR.trans (hR.symm hbx) hby)

section Slots
variable {σ : Type} {S : σ → σ → Prop} {start : σ} (hstart : S start start)
include hstart

theorem indifferent_setting {put : Override → σ → σ} (name : String)
    (hput : ∀ x y, x.value? = y.value? → Alongside S (put x) (put y)) (hblank : put .unset start = start) :
    (Slot.of name [] readOverride put).Indifferent S d start Vacant fun field v w => Vacant field v ∧ Vacant field w :=
  indifferent_exchange (R := fun o o' => o.value? = o'.value?) ⟨fun _ => rfl, Eq.symm, Eq.trans⟩ name [] hput hstart
    hblank fun _ => readOverride_vacant

theorem indifferent_plain {α : Type} {read : Read α} {put : α → σ → σ} {blank : α} {name : String}
    (others : List String) (hmodel : name ≠ "model") (hbackend : name ≠ "backend")
    (hput : ∀ x, Alongside S (put x) (put x)) (hblank : put blank start = start)
    (hread : read d .null = .ok blank) :
    (Slot.of name others read put).Indifferent S d start Vacant fun field v w => Vacant field v ∧ Vacant field w := by
  refine indifferent_exchange eq_equivalence name others ?_ hstart hblank ?_
  · rintro x _ rfl
    exact hput x
  · intro v hv
    rw [hv.eq_null hmodel hbackend]
    exact ⟨blank, hread, rfl⟩

end Slots

/-! ## Records -/

theorem agree_readDefaults {t u : Tree} (h : FieldEdit defaultsSlots t u) :
    Agree Defaults.Alike (readDefaults d t) (readDefaults d u) := by
  refine agree_readRecord independent_defaultsSlots (.refl _) ?_ _ h
  simp only [defaultsSlots, List.forall_mem_cons, List.not_mem_nil, false_implies, implies_true, and_true]
  exact ⟨indifferent_setting (.refl _) _ (fun _ _ hxy _ _ hr => { hr with model := hxy }) rfl,
    indifferent_setting (.refl _) _ (fun _ _ hxy _ _ hr => { hr with backend := hxy }) rfl⟩

theorem agree_readHat {t u : Tree} (h : FieldEdit hatSlots t u) : Agree Hat.Alike (readHat d t) (readHat d u) := by
  refine agree_readRecord independent_hatSlots (.refl _) ?_ _ h
  simp only [hatSlots, List.forall_mem_cons, List.not_mem_nil, false_implies, implies_true, and_true]
  refine ⟨?name, ?description, ?triggers, ?publishes, ?model, ?backend, ?instructions⟩
  case model => exact indifferent_setting (.refl _) _ (fun _ _ hxy _ _ hr => { hr with model := hxy }) rfl
  case backend => exact indifferent_setting (.refl _) _ (fun _ _ hxy _ _ hr => { hr with backend := hxy }) rfl
  case name =>
    exact indifferent_plain (.refl _) _ (by decide) (by decide) (fun _ _ _ hr => { hr with name := rfl }) rfl rfl
  case description =>
    exact indifferent_plain (.refl _) _ (by decide) (by decide) (fun _ _ _ hr => { hr with description := rfl }) rfl rfl
  case triggers =>
    exact indifferent_plain (.refl _) _ (by decide) (by decide) (fun _ _ _ hr => { hr with triggers := rfl }) rfl rfl
  case publishes =>
    exact indifferent_plain (.refl _) _ (by decide) (by decide) (fun _ _ _ hr => { hr with publishes := rfl }) rfl rfl
  case instructions =>
    exact indifferent_plain (.refl _) _ (by decide) (by decide) (fun _ _ _ hr => { hr with instructions := rfl })
      rfl rfl

theorem agree_readEvent {t u : Tree} (h : FieldEdit eventSlots t u) : Agree Eq (readEvent d t) (readEvent d u) := by
  refine agree_readRecord (List.pairwise_singleton _ _) rfl ?_ _ h
  refine List.forall_mem_singleton.2 ?_
  exact indifferent_plain rfl _ (by decide) (by decide) (fun _ _ _ _ => rfl) rfl rfl

/-! ## Tables of records -/

/-- Bodies that stand for related records, none standing for the blank one. -/
def BodiesAlike {σ : Type} (S : σ → σ → Prop) (blank : σ) (o o' : Option σ) : Prop :=
  S (o.getD blank) (o'.getD blank)

section Bodies
variable {σ : Type} {S : σ → σ → Prop} {edit : Tree → Tree → Prop} {read : Read σ} {blank : σ}
variable (hedit : ∀ v w, edit v w → Agree S (read d v) (read d w)) (hempty : read d (.map []) = .ok blank)
variable (hnull : ∀ v w, edit v w → v ≠ .null ∧ w ≠ .null) (hrefl : ∀ r, S r r)
include hedit hempty hnull hrefl

theorem agree_body {v w : Tree} (h : BodyEdit edit v w) :
    Agree (BodiesAlike S blank) (readOption read d v) (readOption read d w) := by
  cases h with
  | empty =>
    rw [readOption_of_ne read d (t := .map []) nofun, hempty]
    exact .ok (hrefl blank)
  | inside h =>
    obtain ⟨hv, hw⟩ := hnull v w h
    rw [readOption_of_ne read d hv, readOption_of_ne read d hw]
    exact (hedit v w h).map fun _ _ hrs => hrs

theorem agree_readNamed {t u : Tree} (h : TableEdit edit t u) :
    Agree (NameTable.Rel S) (readNamed read blank d t) (readNamed read blank d u) := by
  obtain @⟨before, after, k, v, w, h⟩ := h
  have hsame (es : List (Tree × Tree)) : List.Forall₂ (fun e f : Tree × Tree => e.1 = f.1 ∧
      Agree (BodiesAlike S blank) (readOption read d e.2) (readOption read d f.2)) es es :=
    List.forall₂_same.2 fun _ _ => ⟨rfl, .refl _ fun _ _ => hrefl _⟩
  have hbody := agree_body hedit hempty hnull hrefl h
  have hrows := List.rel_append (hsame before) (.cons (a := (k, v)) (b := (k, w)) ⟨rfl, hbody⟩ (hsame after))
  -- Null bodies become blank values only after the table is read, so the rows are compared by what they become.
  have htable := (agree_readTable readName hrows).map (f := some) (g := some)
    (S := fun o o' => NameTable.Rel (BodiesAlike S blank) (o.getD .empty) (o'.getD .empty)) fun _ _ htable => htable
  rw [readNamed, readNamed, readOption_of_ne _ d (t := .map _) nofun, readOption_of_ne _ d (t := .map _) nofun]
  exact htable.map fun _ _ htable => htable.map fun _ _ hxy => hxy

end Bodies

/-! ## The whole workflow -/

theorem agree_hats {v w : Tree} (h : TableEdit (FieldEdit hatSlots) v w) :
    Agree (NameTable.Rel Hat.Alike) (readNamed readHat .empty d v) (readNamed readHat .empty d w) :=
  agree_readNamed (fun _ _ => agree_readHat) rfl (fun _ _ => RecordEdit.ne_null) .refl h

theorem agree_events {v w : Tree} (h : TableEdit (FieldEdit eventSlots) v w) :
    Agree (NameTable.Rel Eq) (readNamed readEvent .empty d v) (readNamed readEvent .empty d w) :=
  agree_readNamed (fun _ _ => agree_readEvent) rfl (fun _ _ => RecordEdit.ne_null) (fun _ => rfl) h

theorem readDefaults_null (h : d.nullIsEmpty = true) : readDefaults d .null = .ok .empty := by
  simp only [readDefaults, readRecord, Tree.untag, h, if_true]

theorem readAliases_null (h : d.nullIsEmpty = true) : readAliases d .null = .ok .empty := by
  have hpairs : readPairs d .null = .ok [] := by
    simp only [readPairs, Tree.untag, h, if_true]
  rw [readAliases, readTable, hpairs]
  rfl

/-- An edit of a tree gives a workflow that is alike, or none if there was none. -/
theorem agree_shape_of_edit {t u : Tree} (h : Edit d t u) : Agree Workflow.Alike (shape d t) (shape d u) := by
  refine agree_readRecord independent_workflowSlots (.refl _) ?_ _ h
  simp only [workflowSlots, List.forall_mem_cons, List.not_mem_nil, false_implies, implies_true, and_true]
  refine ⟨?name, ?description, ?hats, ?defaults, ?events, ?aliases⟩
  case name =>
    refine indifferent_of [] (fun _ => rfl) (fun _ _ hxy _ _ hw => { hw with name := hxy }) (.refl _) rfl ?_
      fun _ _ => False.elim
    rintro v ⟨rfl, -⟩
    exact ⟨"", rfl, rfl⟩
  case description =>
    refine indifferent_of [] (fun _ => rfl) (fun _ _ hxy _ _ hw => { hw with description := hxy }) (.refl _) rfl ?_
      fun _ _ => False.elim
    rintro v ⟨rfl, -⟩
    exact ⟨"", rfl, rfl⟩
  case hats =>
    refine indifferent_of [] (NameTable.Rel.refl .refl) (fun _ _ hxy _ _ hw => { hw with hats := hxy })
      (.refl _) rfl ?_ ?_
    · rintro v ⟨rfl, -⟩
      exact ⟨.empty, rfl, .nil⟩
    · exact fun _ _ => agree_hats
  case defaults =>
    refine indifferent_of [] .refl (fun _ _ hxy _ _ hw => { hw with defaults := hxy }) (.refl _) rfl ?_ ?_
    · rintro v ⟨rfl, hnull⟩
      exact ⟨.empty, readDefaults_null (hnull.resolve_right fun h => h.1 rfl), .refl _⟩
    · exact fun _ _ => agree_readDefaults
  case events =>
    refine indifferent_of [] (NameTable.Rel.refl fun _ => rfl) (fun _ _ hxy _ _ hw => { hw with events := hxy })
      (.refl _) rfl ?_ ?_
    · rintro v ⟨rfl, -⟩
      exact ⟨.empty, rfl, .nil⟩
    · exact fun _ _ => agree_events
  case aliases =>
    refine indifferent_of [] (fun _ => rfl) (fun _ _ hxy _ _ hw => { hw with aliases := hxy }) (.refl _) rfl ?_
      fun _ _ => False.elim
    rintro v ⟨rfl, hnull⟩
    exact ⟨.empty, readAliases_null (hnull.resolve_right fun h => h.2 rfl), rfl⟩

end Config

namespace Workflow

/-- What comes of a workflow that was loaded: nothing if it was not, else its plan or its report. -/
def verdict? (l : Loaded) : Option (Except Report Plan) :=
  l.result.toOption.map check

theorem verdict?_ofTree_of_edit (format : Format) {t u : Tree} (h : Config.Edit format.dialect t u) :
    verdict? (ofTree format t) = verdict? (ofTree format u) :=
  ((Config.agree_shape_of_edit h).mapError _ _).toOption_map_eq fun _ _ => check_congr

/-- What is edited is not a document without content. -/
theorem ofYaml_of_edit {d : Dialect} {t u : Tree} (h : Config.Edit d t u) :
    ofYaml t = ofTree .yaml t ∧ ofYaml u = ofTree .yaml u := by
  cases h <;> exact ⟨rfl, rfl⟩

/-- However many vacant fields and bodies are added, left out or exchanged: the document loads if it did before, and
then with the same plan or the same report. -/
theorem verdict_of_vacant (t u : Tree) :
    (Relation.EqvGen (Config.Edit Format.yaml.dialect) t u → verdict? (ofYaml t) = verdict? (ofYaml u)) ∧
      (Relation.EqvGen (Config.Edit Format.json.dialect) t u →
        verdict? (ofTree .json t) = verdict? (ofTree .json u)) := by
  constructor
  · refine fun h => congrArg (Quot.lift (fun t => verdict? (ofYaml t)) fun t u h => ?_) (Quot.eqvGen_sound h)
    rw [(ofYaml_of_edit h).1, (ofYaml_of_edit h).2]
    exact verdict?_ofTree_of_edit .yaml h
  · refine fun h => congrArg (Quot.lift (fun t => verdict? (ofTree .json t)) fun t u h => ?_) (Quot.eqvGen_sound h)
    exact verdict?_ofTree_of_edit .json h

/-- A workflow with a hat of this body. -/
def oneHat (body : Tree) : Tree :=
  .map [(.text "hats", .map [(.text "a", body)])]

/-- The body of a hat that gives nothing, in words. -/
def idleBody : Tree :=
  .map [(.text "triggers", .null), (.text "model", .text " ")]

theorem edit_oneHat {d : Dialect} {v w : Tree} (h : BodyEdit (FieldEdit Config.hatSlots) v w) :
    Config.Edit d (oneHat v) (oneHat w) :=
  @RecordEdit.change _ _ _ _ [] [] "hats" "hats" _ _ (by decide) (@TableEdit.mk _ [] [] _ _ _ h)

theorem edits_oneHat (d : Dialect) : Relation.EqvGen (Config.Edit d) (oneHat .null) (oneHat idleBody) := by
  have hmodel : FieldEdit Config.hatSlots (.map []) (.map [(.text "model", .text " ")]) :=
    @RecordEdit.add _ _ _ _ [] [] "model" "model" _ (by decide) nofun (.blank (.inl rfl) (by decide))
  have htriggers : FieldEdit Config.hatSlots (.map [(.text "model", .text " ")]) idleBody :=
    @RecordEdit.add _ _ _ _ [] _ "triggers" "triggers" _ (by decide) (by simp [NotGiven, Tree.untag]; decide) .null
  exact .trans _ _ _ (.rel _ _ (edit_oneHat .empty))
    (.trans _ _ _ (.rel _ _ (edit_oneHat (.inside hmodel))) (.rel _ _ (edit_oneHat (.inside htriggers))))

theorem oneHat_verdict : Relation.EqvGen (Config.Edit Format.yaml.dialect) (oneHat .null) (oneHat idleBody) ∧
    verdict? (ofYaml (oneHat .null)) = verdict? (ofYaml (oneHat idleBody)) ∧
    verdict? (ofTree .json (oneHat .null)) = verdict? (ofTree .json (oneHat idleBody)) ∧
    (verdict? (ofYaml (oneHat .null))).isSome := by
  have h := verdict_of_vacant (oneHat .null) (oneHat idleBody)
  exact ⟨edits_oneHat _, h.1 (edits_oneHat _), h.2 (edits_oneHat _), by decide +kernel⟩

end Workflow

end Preflight
