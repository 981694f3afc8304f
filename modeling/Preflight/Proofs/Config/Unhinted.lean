import Preflight.Proofs.Config.Overlooked
import Preflight.Proofs.Document.Without
/-!
# Documents without the entries that are hinted at

A reader does without the entries that its known keys pass over: if their keys
are texts it gives the same without them, and if one is not it gives nothing
(`spares_shape`). So a document is loaded as if the entries hinted at were not
in it (`loads_iff_withoutHinted`), unless one of them has a key that is no text.
-/

namespace Preflight.Config

open Preflight.Tree

/-- Only addresses of entries that the keys pass over. -/
def Passed (keys : Keys) (gone : List String → Bool) : Prop :=
  ∀ address, gone address = true → keys.PassesOver address

/-- The reader gives a value exactly if it does so without the entries that the keys pass over, and all these have texts
for keys. -/
def Spares {α : Type} (keys : Keys) (read : Read α) : Prop :=
  ∀ d t gone, Passed keys gone → ∀ a,
    read d t = .ok a ↔ (∀ k ∈ t.keysAt gone, k.IsText) ∧ read d (t.without gone) = .ok a

/-- What is removed inside an entry is passed over by what is known of its value; there is nothing to remove if its key
is not known. -/
theorem Passed.inside {keys : Keys} {gone : List String → Bool} (h : Passed keys gone) {key : String}
    (hkey : gone [key] = false) :
    (keys.beneath key = none → (fun rest => gone (key :: rest)) = fun _ => false) ∧
      ∀ below, keys.beneath key = some below → Passed below fun rest => gone (key :: rest) := by
  constructor
  · intro hnone
    funext rest
    rw [Bool.eq_false_iff]
    intro hrest
    cases h _ hrest with
    | here => exact absurd hrest (Bool.eq_false_iff.1 hkey)
    | inside hsome => exact nomatch hnone.symm.trans hsome
  · intro below hbelow rest hrest
    cases h _ hrest with
    | here hnone => exact nomatch hnone.symm.trans hbelow
    | inside hsome hpass => exact Option.some.inj (hsome.symm.trans hbelow) ▸ hpass

/-! ## Readers of single values -/

section Values
variable {α β : Type} {keys : Keys} {read : Read α}

theorem spares_leaf (read : Read α) : Spares .leaf read := by
  intro d t gone hgone a
  obtain rfl : gone = fun _ => false :=
    funext fun address => Bool.eq_false_iff.2 fun h => Keys.not_passesOver_leaf address (hgone address h)
  simp [without_none t]

theorem spares_map (h : Spares keys read) (f : α → β) : Spares keys fun d t => (read d t).map f := by
  intro d t gone hgone b
  simp only [map_eq_ok_iff, h d t gone hgone, and_assoc, exists_and_left]

theorem spares_readOption (h : Spares keys read) : Spares keys (readOption read) := by
  intro d t gone hgone o
  by_cases ht : t = .null
  · subst ht
    simp [without, keysAt]
  · have hwithout : t.without gone ≠ .null := mt (without_eq_null_iff t gone).1 ht
    rw [readOption_of_ne read d ht, readOption_of_ne read d hwithout]
    exact spares_map h some d t gone hgone o

end Values

/-! ## Tables -/

section Tables
variable {α : Type} {each : Keys} {read : Read α} {readKey : Read String} {d : Dialect}

theorem rows_without (h : Spares each read) {gone : List String → Bool} (hgone : Passed (.free each) gone)
    (es : List (Tree × Tree)) (rows : List (String × α)) :
    List.Forall₂ (Row readKey read d) es rows ↔
      (∀ k ∈ keysAtEntries es gone, k.IsText) ∧ List.Forall₂ (Row readKey read d) (withoutEntries es gone) rows := by
  induction es generalizing rows with
  | nil => simp [keysAtEntries, withoutEntries]
  | cons e es ih =>
    obtain ⟨k, v⟩ := e
    rw [keysAtEntries, withoutEntries]
    cases foundBy k es with
    | none =>
      simp only [List.nil_append, List.forall₂_cons_left_iff, ih]
      tauto
    | some key =>
      have hkey : gone [key] = false := by
        rw [Bool.eq_false_iff]
        intro hgo
        cases hgone _ hgo with
        | here hnone => exact nomatch hnone
        | inside _ hnil => exact hnil.ne_nil rfl
      have hv (row : String × α) : Row readKey read d (k, v) row ↔
          (∀ x ∈ v.keysAt fun rest => gone (key :: rest), x.IsText) ∧
            Row readKey read d (k, v.without fun rest => gone (key :: rest)) row := by
        rw [Row, Row, h d v _ ((hgone.inside hkey).2 each rfl)]
        tauto
      simp only [hkey, Bool.false_eq_true, if_false, List.forall₂_cons_left_iff, ih, hv, List.forall_mem_append]
      tauto

theorem spares_readTable (h : Spares each read) : Spares (.free each) (readTable readKey read) := by
  intro d t gone hgone table
  cases t with
  | map es =>
    rw [readTable_eq_ok_iff, readTable_eq_ok_iff]
    constructor
    · rintro ⟨_, rows, ⟨⟩, hrows, rfl⟩
      obtain ⟨hkeys, hrows⟩ := (rows_without h hgone es rows).1 hrows
      exact ⟨hkeys, _, rows, rfl, hrows, rfl⟩
    · rintro ⟨hkeys, _, rows, ⟨⟩, hrows, rfl⟩
      exact ⟨es, rows, rfl, (rows_without h hgone es rows).2 ⟨hkeys, hrows⟩, rfl⟩
  | _ => simp [keysAt, without]

theorem spares_readNamed (h : Spares each read) (blank : α) : Spares (.free each) (readNamed read blank) :=
  spares_map (spares_readOption (spares_readTable (spares_readOption h))) _

end Tables

/-! ## Records -/

section Records
variable {σ : Type} {known : List (String × Keys)} {slots : List (Slot σ)} {d : Dialect}

/-- The known keys are those of the fields, and the reader of each field spares what they pass over. -/
structure Suits (known : List (String × Keys)) (slots : List (Slot σ)) : Prop where
  keys : ∀ key, known.lookup key = none ↔ slots.find? (·.answers key) = none
  spares : ∀ key keys slot, known.lookup key = some keys → slots.find? (·.answers key) = some slot →
    Spares keys slot.read

/-- Entries are read under a condition if the first is read under one part of it and the rest under the other. -/
theorem readEntries_cons_of {k v v' : Tree} {es es' : List (Tree × Tree)} {V P : Prop} {r : σ}
    (hskip : ∀ key, k.untag = .text key → slots.find? (·.answers key) = none → V)
    (hread : ∀ key slot, k.untag = .text key → slots.find? (·.answers key) = some slot →
      ∀ f, slot.read d v = .ok f ↔ V ∧ slot.read d v' = .ok f)
    (hes : ∀ seen start, readEntries slots d seen es start = .ok r ↔ P ∧ readEntries slots d seen es' start = .ok r)
    (seen : List String) (start : σ) :
    readEntries slots d seen ((k, v) :: es) start = .ok r ↔
      (V ∧ P) ∧ readEntries slots d seen ((k, v') :: es') start = .ok r := by
  rw [readEntries_cons_eq_ok_iff, readEntries_cons_eq_ok_iff]
  constructor
  · rintro ⟨key, hk, ⟨hnone, hrest⟩ | ⟨slot, f, hslot, hseen, hf, hrest⟩⟩
    · obtain ⟨hP, hrest⟩ := (hes _ _).1 hrest
      exact ⟨⟨hskip key hk hnone, hP⟩, key, hk, .inl ⟨hnone, hrest⟩⟩
    · obtain ⟨hP, hrest⟩ := (hes _ _).1 hrest
      obtain ⟨hV, hf⟩ := (hread key slot hk hslot f).1 hf
      exact ⟨⟨hV, hP⟩, key, hk, .inr ⟨slot, f, hslot, hseen, hf, hrest⟩⟩
  · rintro ⟨⟨hV, hP⟩, key, hk, ⟨hnone, hrest⟩ | ⟨slot, f, hslot, hseen, hf, hrest⟩⟩
    · exact ⟨key, hk, .inl ⟨hnone, (hes _ _).2 ⟨hP, hrest⟩⟩⟩
    · exact ⟨key, hk, .inr ⟨slot, f, hslot, hseen, (hread key slot hk hslot f).2 ⟨hV, hf⟩, (hes _ _).2 ⟨hP, hrest⟩⟩⟩

/-- An entry whose key names no field may be left out if the key is a text. -/
theorem readEntries_cons_of_none {k v : Tree} {es : List (Tree × Tree)} {key : String}
    (hk : ∀ key', k.untag = .text key' → k = .text key ∧ key' = key) (hnone : slots.find? (·.answers key) = none)
    (seen : List String) (start r : σ) :
    readEntries slots d seen ((k, v) :: es) start = .ok r ↔ k.IsText ∧ readEntries slots d seen es start = .ok r := by
  rw [readEntries_cons_eq_ok_iff]
  constructor
  · rintro ⟨key', hkey', h⟩
    obtain ⟨rfl, rfl⟩ := hk key' hkey'
    rcases h with ⟨-, hrest⟩ | ⟨slot, f, hslot, -⟩
    · exact ⟨⟨_, rfl⟩, hrest⟩
    · exact nomatch hnone.symm.trans hslot
  · rintro ⟨⟨s, rfl⟩, hrest⟩
    obtain ⟨-, rfl⟩ := hk s rfl
    exact ⟨s, rfl, .inl ⟨hnone, hrest⟩⟩

theorem readEntries_without (h : Suits known slots) {gone : List String → Bool} (hgone : Passed (.fixed known) gone)
    (es : List (Tree × Tree)) (seen : List String) (start r : σ) :
    readEntries slots d seen es start = .ok r ↔
      (∀ k ∈ keysAtEntries es gone, k.IsText) ∧ readEntries slots d seen (withoutEntries es gone) start = .ok r := by
  induction es generalizing seen start with
  | nil => simp [keysAtEntries, withoutEntries]
  | cons e es ih =>
    obtain ⟨k, v⟩ := e
    rw [keysAtEntries, withoutEntries, List.forall_mem_append]
    -- An entry that is not found stays; one that is found is removed, or keeps its key and is changed inside.
    cases hfound : foundBy k es with
    | none => exact readEntries_cons_of (by simp) (by simp) ih seen start
    | some key =>
      cases hkey : gone [key] with
      | true =>
        have hnone : slots.find? (·.answers key) = none := by
          cases hgone _ hkey with
          | here hnone => exact (h.keys key).1 hnone
          | inside _ hnil => exact absurd rfl hnil.ne_nil
        simp only [hkey, if_true, List.forall_mem_singleton]
        rw [and_assoc, ← ih]
        exact readEntries_cons_of_none (fun _ => eq_text_of_foundBy hfound) hnone seen start r
      | false =>
        obtain ⟨hnever, hinside⟩ := hgone.inside hkey
        simp only [hkey, Bool.false_eq_true, if_false]
        refine readEntries_cons_of ?_ ?_ ih seen start
        · intro key' hk hslot
          obtain ⟨-, rfl⟩ := eq_text_of_foundBy hfound hk
          rw [hnever ((h.keys key').2 hslot)]
          simp [without_none v]
        · intro key' slot hk hslot f
          obtain ⟨-, rfl⟩ := eq_text_of_foundBy hfound hk
          cases hknown : known.lookup key' with
          | none => exact nomatch ((h.keys key').1 hknown).symm.trans hslot
          | some below => exact h.spares key' below slot hknown hslot d v _ (hinside below hknown) f

theorem spares_readRecord (h : Suits known slots) (title : String) (start : σ) :
    Spares (.fixed known) (readRecord title slots start) := by
  intro d t gone hgone r
  cases t with
  | map es => exact readEntries_without h hgone es [] start r
  | _ => simp [keysAt, without]

/-- In a record whose fields have no keys of their own inside them, only the names count. -/
theorem suits_of_leaves (h : (known.map (·.1)).Perm (slots.flatMap spellings)) (hleaf : ∀ e ∈ known, e.2 = .leaf) :
    Suits known slots where
  keys := keys_of_perm h
  spares key keys slot hknown _ := by
    obtain rfl : keys = .leaf := hleaf _ (NameTable.mem_of_lookup hknown)
    exact spares_leaf slot.read

end Records

/-! ## The whole workflow -/

/-- A workflow is shaped without the entries that its known keys pass over, if all these have texts for keys. -/
theorem spares_shape : Spares workflowKeys shape := by
  refine spares_readRecord ⟨keys_of_perm (by decide), ?_⟩ _ _
  intro key keys slot hknown hslot
  have hkey := (answers_iff slot key).1 (List.find?_some (p := fun s : Slot Workflow => s.answers key) hslot)
  have hmem := List.mem_of_find?_eq_some hslot
  simp only [workflowSlots, List.mem_cons, List.not_mem_nil, or_false] at hmem
  rcases hmem with rfl | rfl | rfl | rfl | rfl | rfl
  all_goals
    obtain rfl := List.mem_singleton.1 hkey
    cases hknown
  · exact spares_leaf _
  · exact spares_leaf _
  · exact spares_map (spares_readNamed (spares_readRecord (suits_of_leaves (by decide) (by simp)) _ _) _) _
  · exact spares_map (spares_readRecord (suits_of_leaves (by decide) (by simp)) _ _) _
  · exact spares_map (spares_readNamed (spares_readRecord (suits_of_leaves (by decide) (by simp)) _ _) _) _
  · exact spares_map (spares_readTable (spares_readTable (spares_leaf _))) _

end Preflight.Config

namespace Preflight

open Config

namespace Tree

/-- The entries of a document that are hinted at. -/
def hinted (t : Tree) : List Stray :=
  (t.toJson?.map (strays workflowKeys)).getD []

/-- The document without the entries that are hinted at. -/
def withoutHinted (t : Tree) : Tree :=
  t.without (t.hinted.map Stray.address).contains

/-- The keys of the entries that are hinted at. -/
def hintedKeys (t : Tree) : List Tree :=
  t.keysAt (t.hinted.map Stray.address).contains

theorem hintsOfTree_perm_hinted (t : Tree) : (hintsOfTree t).Perm (t.hinted.map (Stray.hint "")) := by
  cases hv : t.toJson? with
  | none => simp [hintsOfTree, hinted, hv]
  | some v =>
    rw [hinted, hv]
    exact hintsOfTree_perm hv

theorem hinted_of_toJson? {t : Tree} {v : Json} (hv : t.toJson? = some v) : t.hinted = strays workflowKeys v := by
  rw [hinted, hv, Option.map_some, Option.getD_some]

theorem withoutHinted_of_not_keyed {t : Tree} (hv : t.toJson? = none) : t.withoutHinted = t := by
  rw [withoutHinted, hinted, hv]
  exact (without_none t).1

theorem passed_hinted (t : Tree) : Passed workflowKeys (t.hinted.map Stray.address).contains := by
  intro address haddress
  obtain ⟨s, hs, rfl⟩ := List.mem_map.1 (List.contains_iff_mem.1 haddress)
  cases hv : t.toJson? with
  | none => simp [hinted, hv] at hs
  | some v =>
    rw [hinted_of_toJson? hv] at hs
    exact ((mem_strays_iff _ _ _).1 ⟨s, hs, rfl⟩).1

/-- Nothing is left to hint at in a plain document in which no two keys of a map have one text. -/
theorem hinted_withoutHinted {t : Tree} (ht : t.Plain) (hd : t.Distinct keyText?) : t.withoutHinted.hinted = [] := by
  cases hrest : t.withoutHinted.toJson? with
  | none => rw [hinted, hrest, Option.map_none, Option.getD_none]
  | some rest =>
    rw [hinted_of_toJson? hrest, List.eq_nil_iff_forall_not_mem]
    intro s hs
    obtain ⟨hpass, x, hx⟩ := (mem_strays_iff _ _ _).1 ⟨s, hs, rfl⟩
    obtain ⟨u, hu⟩ := at?_of_holds (plain_without _ ht) hrest hx
    obtain ⟨hkept, w, hw⟩ := at?_of_without hd hpass.ne_nil hu
    -- What is left was in the document, and so was hinted at there and removed.
    cases hv : t.toJson? with
    | none =>
      rw [withoutHinted_of_not_keyed hv, hv] at hrest
      cases hrest
    | some v =>
      obtain ⟨r, hr, haddress⟩ := (mem_strays_iff _ _ _).2 ⟨hpass, holds_of_at? hv hw⟩
      rw [hinted_of_toJson? hv, ← haddress] at hkept
      exact Bool.eq_false_iff.1 hkept (List.contains_iff_mem.2 (List.mem_map_of_mem hr))

end Tree

namespace Workflow

/-- There is one hint for each of the entries hinted at, and none in what is left without them if no two keys of a map
have one text. A document is loaded as a workflow exactly if it is without these entries and all their keys are texts. -/
theorem loads_iff_withoutHinted (es : List (Tree × Tree)) (w : Workflow) :
    (ofYaml (.map es)).hints.Perm ((Tree.map es).hinted.map (Stray.hint "")) ∧
      ((Tree.map es).Plain → (Tree.map es).Distinct Tree.keyText? →
        (ofYaml (Tree.map es).withoutHinted).hints = []) ∧
      ((ofYaml (.map es)).result = .ok w ↔
        (∀ k ∈ (Tree.map es).hintedKeys, k.IsText) ∧ (ofYaml (Tree.map es).withoutHinted).result = .ok w) := by
  have hdocument : ofYaml (.map es) = ofTree .yaml (.map es) := rfl
  have hrest : ofYaml (Tree.map es).withoutHinted = ofTree .yaml (Tree.map es).withoutHinted := rfl
  refine ⟨Tree.hintsOfTree_perm_hinted (.map es), ?_, ?_⟩
  · intro hplain hdistinct
    have hhints := Tree.hintsOfTree_perm_hinted (Tree.map es).withoutHinted
    rw [Tree.hinted_withoutHinted hplain hdistinct] at hhints
    rw [hrest]
    exact hhints.eq_nil
  · rw [hdocument, hrest, ofTree_eq_ok_iff, ofTree_eq_ok_iff]
    exact spares_shape _ _ _ (Tree.passed_hinted (.map es)) w

/-- A document with two entries that are hinted at, one of them in a hat. -/
def straying : List (Tree × Tree) :=
  [(.text "hats", .map [(.int 1, .map [(.text "model", .null), (.text "modle", .null)])]), (.text "x", .null)]

theorem straying_loads : (Tree.map straying).Plain ∧ (Tree.map straying).Distinct Tree.keyText? ∧
    (Tree.map straying).withoutHinted = .map [(.text "hats", .map [(.int 1, .map [(.text "model", .null)])])] ∧
    (ofYaml (Tree.map straying).withoutHinted).hints = [] ∧ ∃ w, (ofYaml (.map straying)).result = .ok w := by
  have hplain : (Tree.map straying).Plain := by simp [straying, Tree.Plain, Tree.PlainEntries]
  have hdistinct : (Tree.map straying).Distinct Tree.keyText? := by
    simp [straying, Tree.Distinct, Tree.DistinctEntries, Tree.KeysDiffer, Tree.keyText?]
  have hkeys : (Tree.map straying).hintedKeys = [.text "modle", .text "x"] := by rfl
  obtain ⟨w, hw⟩ : ∃ w, (ofYaml (Tree.map straying).withoutHinted).result = .ok w := ⟨_, by rfl⟩
  obtain ⟨-, hnone, hloads⟩ := loads_iff_withoutHinted straying w
  refine ⟨hplain, hdistinct, by rfl, hnone hplain hdistinct, w, hloads.2 ⟨?_, hw⟩⟩
  rw [hkeys]
  simp [Tree.IsText]

/-- A document whose one key is a number. -/
def numberKey : String :=
  "2024: x\n"

theorem numberKey_refused :
    ∃ t, Format.yaml.read? numberKey = some t ∧ t.hasTag = false ∧ (∃ es, t = .map es) ∧
      (parse .yaml numberKey).warnings = ["unknown key 2024"] ∧
      (∃ w, (ofYaml t.withoutHinted).result = .ok w) ∧ ∀ w, (parse .yaml numberKey).result ≠ .ok w := by
  have htree : ((Format.yaml.read? numberKey).any fun t => !t.hasTag && (t.entry? "2024").isSome &&
      (ofYaml t.withoutHinted).result.toOption.isSome) = true := by decide +kernel
  have hrefused : (parse .yaml numberKey).result.toOption.isSome = false := by decide +kernel
  cases ht : Format.yaml.read? numberKey with
  | none =>
    rw [ht] at htree
    cases htree
  | some t =>
    simp only [ht, Option.any_some, Bool.and_eq_true, Bool.not_eq_true', Option.isSome_iff_exists] at htree
    obtain ⟨⟨htag, u, hu⟩, w, hw⟩ := htree
    refine ⟨t, rfl, htag, ?_, by decide +kernel, ⟨w, (toOption_eq_some_iff _ _).1 hw⟩, ?_⟩
    · cases t with
      | map es => exact ⟨es, rfl⟩
      | _ => cases hu
    · intro w hw
      rw [hw] at hrefused
      cases hrefused

end Workflow

end Preflight
