import Preflight.Proofs.Config.Unread
import Preflight.Proofs.Document.ToJson
/-!
# Overlooked entries

An entry of a record is overlooked if no field has its key: it is passed over
when the record is read, whatever the notation. If every key of the document
can be written as a name, each overlooked entry has its own hint; if not, there
is no hint at all (`overlooked_hinted`).
-/

namespace Preflight

open Config

/-- The tree of a text, if it is well formed. -/
def Format.read? (format : Format) (text : String) : Option Tree :=
  match format with
  | .yaml => (Yaml.parse text).toOption
  | .json => (Json.parse? text).map .ofJson
  | .toml => Toml.parse? text

namespace Tree

/-- An entry of a record whose key is that of no field. The records are the workflow, its defaults, its hats and its
events, reached through maps only. -/
inductive Overlooked (t : Tree) : List String → Prop
  | workflow {key : String} {u : Tree} (h : t.at? [key] = some u)
      (hkey : workflowSlots.find? (·.answers key) = none) : Overlooked t [key]
  | defaults {key : String} {u : Tree} (h : t.at? ["cli", key] = some u)
      (hkey : defaultsSlots.find? (·.answers key) = none) : Overlooked t ["cli", key]
  | hat {id key : String} {u : Tree} (h : t.at? ["hats", id, key] = some u)
      (hkey : hatSlots.find? (·.answers key) = none) : Overlooked t ["hats", id, key]
  | event {name key : String} {u : Tree} (h : t.at? ["events", name, key] = some u)
      (hkey : eventSlots.find? (·.answers key) = none) : Overlooked t ["events", name, key]

theorem Overlooked.exists_at? {t : Tree} {address : List String} (h : t.Overlooked address) :
    ∃ u, t.at? address = some u := by
  cases h with
  | workflow h | defaults h | hat h | event h => exact ⟨_, h⟩

/-- The known keys pass over what the fields overlook. -/
theorem Overlooked.passesOver {t : Tree} {address : List String} (h : t.Overlooked address) :
    workflowKeys.PassesOver address := by
  cases h with
  | workflow _ hkey => exact .here ((keys_of_perm (by decide) _).2 hkey)
  | defaults _ hkey => exact .inside rfl (.here ((keys_of_perm (by decide) _).2 hkey))
  | hat _ hkey => exact .inside rfl (.inside rfl (.here ((keys_of_perm (by decide) _).2 hkey)))
  | event _ hkey => exact .inside rfl (.inside rfl (.here ((keys_of_perm (by decide) _).2 hkey)))

/-- A document without content has no entries. -/
theorem not_overlooked_of_untag {t : Tree} (ht : t.untag = .null) (address : List String) : ¬t.Overlooked address := by
  intro h
  obtain ⟨u, hu⟩ := h.exists_at?
  have hne := h.passesOver.ne_nil
  cases address with
  | nil => exact hne rfl
  | cons key rest =>
    cases t with
    | map es => exact nomatch ht
    | _ => exact nomatch hu

/-- Each overlooked entry of a tree that has a JSON value is among the stray entries of the value. -/
theorem Overlooked.mem_strays {t : Tree} {v : Json} (hv : t.toJson? = some v) {address : List String}
    (h : t.Overlooked address) : address ∈ (strays workflowKeys v).map Stray.address := by
  obtain ⟨u, hu⟩ := h.exists_at?
  obtain ⟨s, hs, haddress⟩ := (mem_strays_iff _ _ _).2 ⟨h.passesOver, holds_of_at? hv hu⟩
  exact List.mem_map.2 ⟨s, hs, haddress⟩

theorem hintsOfTree_perm {t : Tree} {v : Json} (hv : t.toJson? = some v) :
    (hintsOfTree t).Perm ((strays workflowKeys v).map (Stray.hint "")) := by
  rw [hintsOfTree, hv]
  exact hints_perm_strays v

/-- There is no hint if some key of the tree cannot be written as a name. -/
theorem hintsOfTree_of_not_keyed {t : Tree} (ht : ¬t.Keyed) : hintsOfTree t = [] := by
  rw [← isSome_toJson?_iff, Option.not_isSome_iff_eq_none] at ht
  rw [hintsOfTree, ht]
  rfl

end Tree

namespace Workflow

theorem ofYaml_cases (t : Tree) : ofYaml t = ofTree .yaml t ∨ t.untag = .null ∧ (ofYaml t).hints = [] := by
  unfold ofYaml
  split
  · exact .inr ⟨‹_›, rfl⟩
  · exact .inl rfl

/-- A text that is well formed is loaded from its tree; a YAML document without content has no hints. -/
theorem parse_cases (format : Format) (text : String) :
    (∃ t, format.read? text = some t ∧
      (parse format text = ofTree format t ∨ t.untag = .null ∧ (parse format text).hints = [])) ∨
    ∃ e, parse format text = .failure e := by
  cases format with
  | yaml =>
    unfold parse Format.read?
    cases Yaml.parse text with
    | ok t => exact .inl ⟨t, rfl, ofYaml_cases t⟩
    | error e => cases e <;> exact .inr ⟨_, rfl⟩
  | json =>
    unfold parse Format.read?
    cases Json.parse? text with
    | some v => exact .inl ⟨.ofJson v, rfl, .inl rfl⟩
    | none => exact .inr ⟨_, rfl⟩
  | toml =>
    unfold parse Format.read?
    cases Toml.parse? text with
    | some t => exact .inl ⟨t, rfl, .inl rfl⟩
    | none => exact .inr ⟨_, rfl⟩

/-- In a document that is loaded each overlooked entry has its own hint if every key of the document can be written as
a name. Otherwise there is no hint. -/
theorem overlooked_hinted {format : Format} {text : String} {w : Workflow} (h : (parse format text).result = .ok w) :
    ∃ t, format.read? text = some t ∧
      (t.Keyed → ∃ found : List Stray, (parse format text).hints.Perm (found.map (Stray.hint "")) ∧
        (found.map Stray.address).Nodup ∧ ∀ address, t.Overlooked address → address ∈ found.map Stray.address) ∧
      (¬t.Keyed → (parse format text).hints = []) := by
  rcases parse_cases format text with ⟨t, ht, hparse | ⟨hnull, hhints⟩⟩ | ⟨e, he⟩
  · refine ⟨t, ht, ?_, ?_⟩
    · intro hkeyed
      obtain ⟨v, hv⟩ := Option.isSome_iff_exists.1 ((Tree.isSome_toJson?_iff t).2 hkeyed)
      rw [hparse]
      exact ⟨strays workflowKeys v, Tree.hintsOfTree_perm hv, nodup_strays _ (Tree.unique_toJson? hv),
        fun _ ho => ho.mem_strays hv⟩
    · intro hkeyed
      rw [hparse]
      exact Tree.hintsOfTree_of_not_keyed hkeyed
  · refine ⟨t, ht, ?_, fun _ => hhints⟩
    intro _
    rw [hhints]
    exact ⟨[], .nil, List.nodup_nil, fun address ho => absurd ho (Tree.not_overlooked_of_untag hnull address)⟩
  · rw [he] at h
    cases h

/-- A default under a misspelt key. -/
def misspelt : String :=
  "cli:\n  modle: 1\n"

theorem misspelt_hinted :
    ∃ w t, ∃ found : List Stray, (parse .yaml misspelt).result = .ok w ∧ Format.yaml.read? misspelt = some t ∧ t.Keyed ∧
      (parse .yaml misspelt).hints.Perm (found.map (Stray.hint "")) ∧ ["cli", "modle"] ∈ found.map Stray.address := by
  have hloads : (parse .yaml misspelt).result.toOption.isSome = true := by decide +kernel
  have htree : ((Format.yaml.read? misspelt).any fun t =>
      t.toJson?.isSome && (t.at? ["cli", "modle"]).isSome) = true := by decide +kernel
  obtain ⟨w, hw⟩ := Option.isSome_iff_exists.1 hloads
  rw [toOption_eq_some_iff] at hw
  obtain ⟨t, ht, hhinted, -⟩ := overlooked_hinted hw
  rw [ht, Option.any_some, Bool.and_eq_true, Tree.isSome_toJson?_iff, Option.isSome_iff_exists] at htree
  obtain ⟨hkeyed, u, hu⟩ := htree
  obtain ⟨found, hperm, -, hfound⟩ := hhinted hkeyed
  exact ⟨w, t, found, hw, ht, hkeyed, hperm, hfound _ (.defaults hu (by decide))⟩

/-- A workflow with an entry that no field has a key for, in which there is a null key. -/
def nullKey : String :=
  "event_loop:\n  ~: 5\n"

theorem nullKey_unhinted :
    ∃ w t, (parse .yaml nullKey).result = .ok w ∧ Format.yaml.read? nullKey = some t ∧
      t.Overlooked ["event_loop"] ∧ (parse .yaml nullKey).hints = [] := by
  have hloads : (parse .yaml nullKey).result.toOption.isSome = true := by decide +kernel
  have htree : ((Format.yaml.read? nullKey).bind (·.at? ["event_loop"])).isSome = true := by decide +kernel
  have hhints : (parse .yaml nullKey).hints = [] := by decide +kernel
  obtain ⟨w, hw⟩ := Option.isSome_iff_exists.1 hloads
  rw [toOption_eq_some_iff] at hw
  obtain ⟨u, hu⟩ := Option.isSome_iff_exists.1 htree
  obtain ⟨t, ht, hu⟩ := Option.bind_eq_some_iff.1 hu
  exact ⟨w, t, hw, ht, .workflow hu (by decide), hhints⟩

end Workflow

end Preflight
