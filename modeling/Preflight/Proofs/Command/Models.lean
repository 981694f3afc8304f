import Preflight.Command.Models
import Preflight.Proofs.Model.Listing
import Preflight.Proofs.Plan
/-!
# What is listed is what is resolved

A table of shorthands has no backend without shorthands, and all its names are
in the form in which they are looked up (`Keyed`). Hence a listing has a line
that shows it for each shorthand that a hat can be resolved with, and no others
(`listed_iff_resolved`).
-/

namespace Preflight

/-- A text that is not empty and is in the form in which names are compared. -/
def Text.IsKey (s : String) : Prop :=
  s ≠ "" ∧ Text.key s = s

theorem Text.isKey_key {s : String} (h : Text.trim s ≠ "") : Text.IsKey (Text.key s) :=
  ⟨mt (Text.key_eq_empty_iff s).1 h, Text.key_key s⟩

namespace AliasTable

/-! ## The names in a table -/

/-- No backend is without shorthands, and all names are keys. -/
def Keyed (t : AliasTable) : Prop :=
  ∀ backend names, t.backends.get? backend = some names →
    Text.IsKey backend ∧ names ≠ .empty ∧ ∀ name model, names.get? name = some model → Text.IsKey name

theorem keyed_empty : empty.Keyed :=
  nofun

theorem insert_ne_empty {α : Type} (names : NameTable α) (name : String) (value : α) :
    names.insert name value ≠ .empty := by
  intro h
  have hget := NameTable.get?_insert names name value name
  rw [h, if_pos rfl] at hget
  exact nomatch hget

theorem keyed_insert {t : AliasTable} (ht : t.Keyed) (s : Shorthand) :
    (t.insert s.backend s.name s.canonical).Keyed := by
  intro backend names h
  rw [get?_insert_backends] at h
  split at h
  · rename_i hopens
    obtain ⟨hbackend, hname, -, rfl⟩ := of_decide_eq_true hopens
    cases h
    refine ⟨Text.isKey_key hbackend, insert_ne_empty _ _ _, ?_⟩
    intro name model hmodel
    rw [NameTable.get?_insert] at hmodel
    split at hmodel
    · rename_i heq
      rw [heq]
      exact Text.isKey_key hname
    · cases hold : t.backends.get? (Text.key s.backend) with
      | none => simp [hold] at hmodel
      | some old =>
        rw [hold] at hmodel
        exact (ht _ old hold).2.2 name model hmodel
  · exact ht backend names h

theorem keyed_insertAll {t : AliasTable} (ht : t.Keyed) (given : List Shorthand) : (t.insertAll given).Keyed := by
  induction given generalizing t with
  | nil => exact ht
  | cons s given ih => exact ih (keyed_insert ht s)

theorem keyed_aliasTable (w : Workflow) : w.aliasTable.Keyed := by
  rw [Workflow.aliasTable, withEntries_eq, builtIn_eq]
  exact keyed_insertAll (keyed_insertAll keyed_empty _) _

theorem lookup_eq_some_iff (t : AliasTable) (backend name model : String) :
    t.lookup backend name = some model ↔
      ∃ names, t.backends.get? (Text.key backend) = some names ∧ names.get? (Text.key name) = some model := by
  exact Option.bind_eq_some_iff

theorem lookup_trim (t : AliasTable) (backend name : String) :
    t.lookup (Text.trim backend) (Text.trim name) = t.lookup backend name := by
  rw [lookup, lookup, Text.key_trim, Text.key_trim]

theorem trim_ne_empty_of_lookup {t : AliasTable} (ht : t.Keyed) {backend name model : String}
    (h : t.lookup backend name = some model) : Text.trim backend ≠ "" := by
  obtain ⟨names, hnames, -⟩ := (lookup_eq_some_iff t backend name model).1 h
  exact mt (Text.key_eq_empty_iff backend).2 (ht _ names hnames).1.1

/-- The backends of a table are those on which something is looked up. -/
theorem mem_names_iff {t : AliasTable} (ht : t.Keyed) (backend : String) :
    backend ∈ t.names ↔ Text.key backend = backend ∧ ∃ name model, t.lookup backend name = some model := by
  constructor
  · intro h
    obtain ⟨⟨backend, names⟩, hmem, rfl⟩ := List.mem_map.1 h
    have hget := (NameTable.get?_eq_some_iff _ backend names).2 hmem
    obtain ⟨hbackend, hne, hnames⟩ := ht backend names hget
    obtain ⟨⟨name, model⟩, hname⟩ := List.exists_mem_of_ne_nil names.entries fun hnil => hne (NameTable.ext hnil)
    have hmodel := (NameTable.get?_eq_some_iff _ name model).2 hname
    refine ⟨hbackend.2, name, model, (lookup_eq_some_iff _ _ _ _).2 ⟨names, ?_, ?_⟩⟩
    · rw [hbackend.2, hget]
    · rw [(hnames name model hmodel).2, hmodel]
  · rintro ⟨hkey, name, model, h⟩
    obtain ⟨names, hnames, -⟩ := (lookup_eq_some_iff _ _ _ _).1 h
    rw [hkey] at hnames
    exact List.mem_map_of_mem ((NameTable.get?_eq_some_iff _ _ _).1 hnames)

/-! ## The listing -/

/-- A shorthand is listed for a backend. -/
def Lists (t : AliasTable) (backend name model : String) : Prop :=
  ∃ names, (backend, names) ∈ t.backends.entries ∧ (name, model) ∈ names.entries

/-- The backends ascend, and so do the shorthands of each, of which there is at least one. -/
structure InOrder (t : AliasTable) : Prop where
  backends : t.names.Pairwise (· < ·)
  shorthands : ∀ b ∈ t.backends.entries, b.2.entries ≠ [] ∧ b.2.names.Pairwise (· < ·)

theorem Keyed.inOrder {t : AliasTable} (ht : t.Keyed) : t.InOrder where
  backends := List.pairwise_map.2 t.backends.ascending
  shorthands b hb := by
    have hne := (ht b.1 b.2 ((NameTable.get?_eq_some_iff _ _ _).2 hb)).2.1
    exact ⟨fun hnil => hne (NameTable.ext hnil), List.pairwise_map.2 b.2.ascending⟩

theorem lists_key_iff (t : AliasTable) (backend name model : String) :
    t.Lists (Text.key backend) (Text.key name) model ↔ t.lookup backend name = some model := by
  rw [lookup_eq_some_iff]
  exact exists_congr fun names => and_congr (NameTable.get?_eq_some_iff _ _ _).symm
    (NameTable.get?_eq_some_iff _ _ _).symm

theorem backendLines_of_mem {t : AliasTable} (ht : t.Keyed) {b : String × NameTable String}
    (hb : b ∈ t.backends.entries) : t.backendLines b.1 = (b.1 ++ ":") :: b.2.entries.map aliasLine := by
  have hget := (NameTable.get?_eq_some_iff t.backends b.1 b.2).2 hb
  obtain ⟨hkey, hne, -⟩ := ht b.1 b.2 hget
  have hentries : t.entries b.1 = b.2.entries := by rw [entries, hkey.2, hget, Option.getD_some]
  rw [backendLines, hentries]
  split
  · rename_i hnil
    exact absurd (NameTable.ext hnil) hne
  · rfl

/-- A listing of all backends shows each with its shorthands, and says of none that it has no shorthands. -/
theorem listing_shows {t : AliasTable} (ht : t.Keyed) :
    ∃ blocks : List (List String),
      t.listing none = "\n".intercalate ("built-in defaults: backend=claude model=default" :: blocks.flatten) ∧
        List.Forall₂ ShowsBackend t.backends.entries blocks := by
  refine ⟨t.backends.entries.map fun b => (b.1 ++ ":") :: b.2.entries.map aliasLine, ?_, ?_⟩
  · have hhead : "built-in defaults: backend=" ++ builtInBackend ++ " model=" ++ builtInModel =
        "built-in defaults: backend=claude model=default" := by decide
    rw [listing, listingLines, hhead, Option.map_none, Option.getD_none, names, NameTable.names, List.flatMap_map,
      List.flatMap_congr fun b hb => backendLines_of_mem ht hb, List.flatMap_def]
  · rw [List.forall₂_map_right_iff, List.forall₂_same]
    exact fun b _ => showsBackend_rows b

/-! ## Resolving a hat -/

/-- A hat gets a model that the name it asks for is a shorthand of on its backend. -/
def Resolves (t : AliasTable) (hat : Hat) (defaults : Defaults) (model : String) : Prop :=
  t.lookup (t.select hat defaults).backend (choose hat.model defaults.model builtInModel).1 = some model ∧
    (t.select hat defaults).model = model

theorem choose_parse {raw : String} (h : Text.trim raw ≠ "") (defaults : Override) (builtIn : String) :
    choose (.parse raw) defaults builtIn = (Text.trim raw, .hat) := by
  rw [choose, Override.value?_parse, if_neg h]

theorem resolves_iff (t : AliasTable) {backend name : String} (hbackend : Text.trim backend ≠ "")
    (hname : Text.trim name ≠ "") {hat : Hat} (hb : hat.backend = .parse backend) (hm : hat.model = .parse name)
    (defaults : Defaults) (model : String) :
    t.Resolves hat defaults model ↔ t.lookup backend name = some model := by
  simp only [Resolves, select, hb, hm, choose_parse hbackend, choose_parse hname, expand, lookup_trim]
  constructor
  · exact And.left
  · intro h
    exact ⟨h, by rw [h, Option.getD_some]⟩

end AliasTable

theorem resolve_mem_plan {w : Workflow} {plan : Plan} (h : w.check = .ok plan) {id : String} {hat : Hat}
    (hhat : w.hats.get? id = some hat) : hat.resolve w.aliasTable w.defaults id ∈ plan.hats := by
  obtain ⟨-, rfl⟩ := (Workflow.checkWith_eq_ok_iff _ _ _).1 h
  exact List.mem_map_of_mem ((NameTable.get?_eq_some_iff _ id hat).1 hhat)

theorem listModels_of_load {s : Surroundings} {path : String} {l : LoadedFrom} (h : loadNamed s path = .ok l) :
    listModels s ⟨none, some path⟩ = ⟨exitOk, l.workflow.aliasTable.listing none, ""⟩ := by
  have htable : ModelsOptions.table s ⟨none, some path⟩ = .ok l.workflow.aliasTable :=
    congrArg (Except.map fun l : LoadedFrom => l.workflow.aliasTable) h
  rw [listModels, htable]

/-- The listing for a file shows the backends of its workflow's table in ascending order, each with its shorthands, at
least one and in ascending order. What is listed is what the hats of the checked workflow are resolved with. -/
theorem listed_iff_resolved {s : Surroundings} {path : String} {l : LoadedFrom} (h : loadNamed s path = .ok l) :
    let t := l.workflow.aliasTable
    (∃ blocks : List (List String),
      listModels s ⟨none, some path⟩ =
          ⟨0, "\n".intercalate ("built-in defaults: backend=claude model=default" :: blocks.flatten), ""⟩ ∧
        List.Forall₂ ShowsBackend t.backends.entries blocks) ∧
      t.InOrder ∧
      (∀ backend, backend ∈ t.names ↔
        Text.IsKeyOf backend backend ∧ ∃ name model, t.lookup backend name = some model) ∧
      (∀ plan, l.workflow.check = .ok plan → ∀ id hat, l.workflow.hats.get? id = some hat →
        hat.resolve t l.workflow.defaults id ∈ plan.hats) ∧
      ∀ backend name, Text.trim backend ≠ "" → Text.trim name ≠ "" →
        ∃ backendKey nameKey, Text.IsKeyOf backendKey backend ∧ Text.IsKeyOf nameKey name ∧
          ∀ model, (t.Lists backendKey nameKey model ↔ t.lookup backend name = some model) ∧
            ∀ (hat : Hat) (defaults : Defaults), hat.backend = .parse backend → hat.model = .parse name →
              (t.Lists backendKey nameKey model ↔ t.Resolves hat defaults model) := by
  intro t
  have hkeyed := AliasTable.keyed_aliasTable l.workflow
  refine ⟨?_, hkeyed.inOrder, ?_, ?_, ?_⟩
  · obtain ⟨blocks, hlisting, hblocks⟩ := AliasTable.listing_shows hkeyed
    exact ⟨blocks, by rw [listModels_of_load h, hlisting]; rfl, hblocks⟩
  · intro backend
    rw [AliasTable.mem_names_iff hkeyed, Text.isKeyOf_iff]
    constructor
    · rintro ⟨hkey, name, model, hlookup⟩
      exact ⟨⟨AliasTable.trim_ne_empty_of_lookup hkeyed hlookup, hkey.symm⟩, name, model, hlookup⟩
    · rintro ⟨⟨-, hkey⟩, hlookup⟩
      exact ⟨hkey.symm, hlookup⟩
  · intro plan hplan id hat hhat
    exact resolve_mem_plan hplan hhat
  · intro backend name hbackend hname
    refine ⟨_, _, (Text.isKeyOf_iff _ _).2 ⟨hbackend, rfl⟩, (Text.isKeyOf_iff _ _).2 ⟨hname, rfl⟩, ?_⟩
    intro model
    have hlists := t.lists_key_iff backend name model
    refine ⟨hlists, ?_⟩
    intro hat defaults hb hm
    rw [hlists, t.resolves_iff hbackend hname hb hm]

/-- A file that gives a shorthand with blanks and capital letters for a backend of its own. -/
def shorthandFile : Surroundings :=
  .ofLists [] [("w.toml", .text "hats.a = \x7bbackend = 'LOCAL', model = 'fast'\x7d\naliases.' Local '.Fast = 'm-1'")]

theorem shorthandFile_listed :
    ∃ l, loadNamed shorthandFile "w.toml" = .ok l ∧ (listModels shorthandFile ⟨none, some "w.toml"⟩).code = 0 ∧
      (∃ before, (listModels shorthandFile ⟨none, some "w.toml"⟩).stdout =
        "\n".intercalate (before ++ ["local:", "  fast       m-1"])) ∧
      l.workflow.aliasTable.Lists "local" "fast" "m-1" ∧
      l.workflow.aliasTable.Resolves ⟨"", "", .empty, .empty, .parse "fast ", .parse "LOCAL", ""⟩ .empty "m-1" := by
  have hloads : (loadNamed shorthandFile "w.toml").toOption.any
      (fun l => l.workflow.aliasTable.lookup "LOCAL" "fast " = some "m-1" ∧
        (l.workflow.aliasTable.listingLines none).drop 19 = ["local:", "  fast       m-1"]) = true := by decide +kernel
  obtain ⟨l, hl, hknown⟩ := (Option.any_eq_true _ _).1 hloads
  rw [toOption_eq_some_iff] at hl
  obtain ⟨hlookup, hlines⟩ := of_decide_eq_true hknown
  obtain ⟨⟨_, hlisting, -⟩, -, -, -, hall⟩ := listed_iff_resolved hl
  obtain ⟨backendKey, nameKey, hbackend, hname, hmodels⟩ := hall "LOCAL" "fast " (by decide) (by decide)
  obtain rfl : backendKey = "local" := ((Text.isKeyOf_iff _ _).1 hbackend).2.trans (by decide)
  obtain rfl : nameKey = "fast" := ((Text.isKeyOf_iff _ _).1 hname).2.trans (by decide)
  obtain ⟨hlists, hresolves⟩ := hmodels "m-1"
  have hlisted := hlists.2 hlookup
  refine ⟨l, hl, by rw [hlisting], ⟨(l.workflow.aliasTable.listingLines none).take 19, ?_⟩, hlisted,
    (hresolves _ _ rfl rfl).1 hlisted⟩
  rw [listModels_of_load hl, ← hlines, List.take_append_drop]
  rfl

end Preflight
