import Mathlib
import Preflight.Proofs.Config.Clean
import Preflight.Proofs.Config.Encode
import Preflight.Proofs.Config.Shape
/-!
# A workflow is read back as it was written

`shape_toJson`: a workflow whose settings are clean is read back from its JSON
value. Every loaded workflow is clean, so `shape_reordered_toJson`: what was
loaded, with any defaults given later, is read back from its JSON value with
the entries in any order, and nothing in the value is hinted at.
-/

namespace Preflight

open Preflight.Tree

namespace Config

/-! ## Fields -/

section Fields
variable {σ : Type} {slots : List (Slot σ)} {d : Dialect} {seen : List String} {name : String} {r : σ}

theorem readEntries_field {α : Type} {read : Read α} {put : α → σ → σ} {others : List String} {v : Json} {x : α}
    (hslot : slots.find? (·.answers name) = some (.of name others read put)) (hseen : name ∉ seen)
    (hread : read d (.ofJson v) = .ok x) (es : List (String × Json)) :
    readEntries slots d seen (ofJsonEntries ((name, v) :: es)) r =
      readEntries slots d (name :: seen) (ofJsonEntries es) (put x r) := by
  have hslot' : (Slot.of name others read put).read d (.ofJson v) = .ok (put x) :=
    (map_eq_ok_iff _ _ _).2 ⟨x, hread, rfl⟩
  rw [ofJsonEntries, readEntries]
  simp only [readFieldName, untag, bind, Except.bind, hslot, hslot']
  rw [if_neg (by simpa [Slot.of] using hseen)]
  rfl

theorem readOverride_toJson {o : Override} (ho : o.Clean) (hset : o.isUnset = false) (d : Dialect) :
    readOverride d (.ofJson o.toJson) = .ok o := by
  cases o with
  | unset => exact nomatch hset
  | blank => rfl
  | given text =>
    have hparse : Override.parse text = .given text := by
      obtain ⟨hne, htrim⟩ := ho text rfl
      rw [Override.parse, htrim, if_neg hne]
    exact congrArg Except.ok hparse

/-- An unset setting has no entry, and the others are read back from theirs. -/
theorem readEntries_setting {o : Override} (ho : o.Clean) {put : Override → σ → σ}
    (hslot : slots.find? (·.answers name) = some (.of name [] readOverride put)) (hseen : name ∉ seen)
    (hput : put .unset r = r) (es : List (String × Json)) :
    ∃ seen', (∀ s ∈ seen', s = name ∨ s ∈ seen) ∧
      readEntries slots d seen (ofJsonEntries ((o.entry? name).toList ++ es)) r =
        readEntries slots d seen' (ofJsonEntries es) (put o r) := by
  unfold Override.entry?
  cases hset : o.isUnset with
  | true =>
    have hunset : o = .unset := by cases o <;> first | rfl | exact nomatch hset
    refine ⟨seen, fun s hs => .inr hs, ?_⟩
    -- Nothing was written, and nothing need be read: the record starts with the setting unset.
    rw [hunset, hput]
    rfl
  | false =>
    refine ⟨name :: seen, fun s hs => List.mem_cons.1 hs, ?_⟩
    exact readEntries_field hslot hseen (readOverride_toJson ho hset d) es

end Fields

/-! ## Tables -/

section Tables
variable {α β : Type} {readKey : Read String} {d : Dialect}

/-- A table is read back if its values are. -/
theorem readTable_toJson (hkey : ∀ s, readKey d (.text s) = .ok s) {read : Read β} {encode : α → Json} {f : α → β}
    (t : NameTable α) (h : ∀ e ∈ t.entries, read d (.ofJson (encode e.2)) = .ok (f e.2)) :
    readTable readKey read d (.ofJson (t.toJson encode)) = .ok (t.map f) := by
  refine (readTable_eq_ok_iff readKey read d _ _).2 ⟨_, (t.map f).entries, rfl, ?_, (NameTable.ofList_entries _).symm⟩
  rw [ofJsonEntries_eq_map, NameTable.map, List.map_map, List.forall₂_map_left_iff, List.forall₂_map_right_iff,
    List.forall₂_same]
  intro e he
  exact ⟨hkey e.1, h e he⟩

theorem readNamed_toJson {read : Read α} {blank : α} {encode : α → Json} (hnull : ∀ x, encode x ≠ .null)
    (t : NameTable α) (h : ∀ e ∈ t.entries, read d (.ofJson (encode e.2)) = .ok e.2) :
    readNamed read blank d (.ofJson (t.toJson encode)) = .ok t := by
  -- No value is written as null, which would be read as `blank`.
  have hvalue : ∀ e ∈ t.entries, readOption read d (.ofJson (encode e.2)) = .ok (some e.2) := by
    intro e he
    have hne : Tree.ofJson (encode e.2) ≠ .null := fun hnone => hnull e.2 ((ofJson_eq_null_iff _).1 hnone)
    rw [readOption_of_ne read d hne, h e he, Except.map]
  have htable : readTable readName (readOption read) d (.ofJson (t.toJson encode)) = .ok (t.map some) :=
    readTable_toJson (fun _ => rfl) t hvalue
  have hne : Tree.ofJson (t.toJson encode) ≠ .null := by simp [NameTable.toJson, ofJson]
  rw [readNamed, readOption_of_ne _ d hne, htable]
  refine congrArg Except.ok (NameTable.ext ?_)
  simp [NameTable.map, Function.comp_def]

theorem readTable_toJson_self (hkey : ∀ s, readKey d (.text s) = .ok s) {read : Read α} {encode : α → Json}
    (t : NameTable α) (h : ∀ e ∈ t.entries, read d (.ofJson (encode e.2)) = .ok e.2) :
    readTable readKey read d (.ofJson (t.toJson encode)) = .ok t := by
  refine (readTable_toJson (f := id) hkey t h).trans ?_
  exact congrArg Except.ok (NameTable.ext (List.map_id _))

theorem readAliases_toJson (t : NameTable (NameTable String)) : readAliases d (.ofJson (aliasesToJson t)) = .ok t :=
  readTable_toJson_self (fun _ => rfl) t fun e _ => readTable_toJson_self (fun _ => rfl) e.2 fun _ _ => rfl

theorem readNames_ofTexts (s : NameSet) : readNames d (.ofJson (.ofTexts s.toList)) = .ok s := by
  have hnames : (ofJsonItems (s.toList.map .text)).mapM (readName d) = .ok s.toList := by
    rw [mapM_eq_ok_iff, ofJsonItems_eq_map, List.map_map, List.forall₂_map_left_iff, List.forall₂_same]
    exact fun _ _ => rfl
  have hset : readNameSet d (.ofJson (.ofTexts s.toList)) = .ok s := by
    rw [readNameSet, readItems]
    simp only [Json.ofTexts, ofJson, untag, bind, Except.bind, hnames, NameSet.ofList_toList]
    rfl
  have hne : Tree.ofJson (.ofTexts s.toList) ≠ .null := by simp [Json.ofTexts, ofJson]
  rw [readNames, readOption_of_ne _ d hne, hset]
  rfl

end Tables

/-! ## Records -/

section Records
variable (d : Dialect)

theorem readEvent_toJson (e : Event) : readEvent d (.ofJson e.toJson) = .ok e :=
  rfl

theorem readDefaults_toJson {x : Defaults} (hx : x.Clean) : readDefaults d (.ofJson x.toJson) = .ok x := by
  obtain ⟨seen₁, hseen₁, h₁⟩ := @readEntries_setting _ defaultsSlots d [] "model" .empty _ hx.model _ rfl (by simp) rfl
    (x.backend.entry? "backend").toList
  obtain ⟨seen₂, -, h₂⟩ := @readEntries_setting _ defaultsSlots d seen₁ "backend" ⟨x.model, .unset⟩ _ hx.backend _ rfl
    (fun h => by simpa using hseen₁ _ h) rfl []
  rw [List.append_nil] at h₂
  exact h₁.trans h₂

theorem readHat_toJson {hat : Hat} (hx : hat.Clean) : readHat d (.ofJson hat.toJson) = .ok hat := by
  obtain ⟨seen₁, hseen₁, h₁⟩ := @readEntries_setting _ hatSlots d
    ["publishes", "triggers", "description", "name"] "model"
    ⟨hat.name, hat.description, hat.triggers, hat.publishes, .unset, .unset, ""⟩ _ hx.model _ rfl (by simp) rfl
    ((hat.backend.entry? "backend").toList ++ [("instructions", .text hat.instructions)])
  obtain ⟨seen₂, hseen₂, h₂⟩ := @readEntries_setting _ hatSlots d seen₁ "backend"
    ⟨hat.name, hat.description, hat.triggers, hat.publishes, hat.model, .unset, ""⟩ _ hx.backend _ rfl
    (fun h => by simpa using hseen₁ _ h) rfl [("instructions", .text hat.instructions)]
  have hinstr : "instructions" ∉ seen₂ := by
    intro h
    rcases hseen₂ _ h with h | h
    · simp at h
    · simpa using hseen₁ _ h
  rw [Hat.toJson, List.append_assoc, List.append_assoc]
  refine (readEntries_field rfl ?_ rfl _).trans ?_
  · simp
  refine (readEntries_field rfl ?_ rfl _).trans ?_
  · simp
  refine (readEntries_field rfl ?_ (readNames_ofTexts _) _).trans ?_
  · simp
  refine (readEntries_field rfl ?_ (readNames_ofTexts _) _).trans ?_
  · simp
  refine h₁.trans (h₂.trans ?_)
  exact (readEntries_field rfl hinstr rfl []).trans rfl

/-- A workflow whose settings are clean is read back from its JSON value. -/
theorem shape_toJson {w : Workflow} (hw : w.Clean) : shape d (.ofJson w.toJson) = .ok w := by
  have hhats : readNamed readHat .empty d (.ofJson (w.hats.toJson Hat.toJson)) = .ok w.hats :=
    readNamed_toJson (fun _ => Json.noConfusion) w.hats fun e he => readHat_toJson d (hw.hats e he)
  have hevents : readNamed readEvent .empty d (.ofJson (w.events.toJson Event.toJson)) = .ok w.events :=
    readNamed_toJson (fun _ => Json.noConfusion) w.events fun e _ => readEvent_toJson d e.2
  rw [Workflow.toJson]
  refine (readEntries_field rfl ?_ rfl _).trans ?_
  · simp
  refine (readEntries_field rfl ?_ rfl _).trans ?_
  · simp
  refine (readEntries_field rfl ?_ hhats _).trans ?_
  · simp
  refine (readEntries_field rfl ?_ (readDefaults_toJson d hw.defaults) _).trans ?_
  · simp
  refine (readEntries_field rfl ?_ hevents _).trans ?_
  · simp
  split
  · rename_i hnone
    have hempty : w.aliases = .empty := NameTable.ext (List.isEmpty_iff.1 hnone)
    exact congrArg (fun a => Except.ok { w with aliases := a }) hempty.symm
  · exact (readEntries_field rfl (by simp) (readAliases_toJson w.aliases) []).trans rfl

end Records

end Config

/-! ## Loaded workflows -/

namespace Workflow

/-- What was loaded, with any defaults given later, is read back from its JSON value, in whatever order the entries of
the value stand, and nothing in the value is hinted at. -/
theorem shape_reordered_toJson {format : Format} {text : String} {w : Workflow}
    (h : (parse format text).result = .ok w) (given : List (Option String × Option String)) {v : Json}
    (hv : (Tree.ofJson (w.withAllDefaults given).toJson).Reordered (.ofJson v)) :
    Config.shape Format.json.dialect (.ofJson v) = .ok (w.withAllDefaults given) ∧ Config.hints v = [] := by
  have hclean : (w.withAllDefaults given).Clean := clean_withAllDefaults (clean_parse_result h) given
  have hdistinct : (Tree.ofJson (w.withAllDefaults given).toJson).Distinct name? :=
    distinct_ofJson (fun _ => rfl) (Config.unique_toJson _)
  refine ⟨?_, Config.hints_eq_nil_of_reordered hv⟩
  exact (Config.orderFree_shape _ _ _ hv hdistinct _).1 (Config.shape_toJson _ hclean)

theorem settings_read_back :
    let w : Workflow := ⟨"", "", .ofList [("a", ⟨"", "", .empty, .empty, .given "m", .unset, ""⟩)],
      ⟨.unset, .blank⟩, .empty, .empty⟩
    (parse .toml "cli.backend = ' '\nhats.a.model = ' m '").result = .ok w ∧
      Config.shape Format.json.dialect (.ofJson (w.withDefaults (some " g ") none).toJson) =
        .ok (w.withDefaults (some " g ") none) ∧
      Config.hints (w.withDefaults (some " g ") none).toJson = [] := by
  intro w
  have h : (parse .toml "cli.backend = ' '\nhats.a.model = ' m '").result = .ok w := by cbv
  exact ⟨h, shape_reordered_toJson h [(some " g ", none)] (.same _)⟩

end Workflow

end Preflight
