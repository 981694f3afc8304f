import Preflight.Proofs.Config.Named
import Preflight.Proofs.Config.Places
import Preflight.Proofs.Config.Rearranged
import Preflight.Proofs.Config.Shape
import Preflight.Proofs.Config.Vacant
import Preflight.Proofs.Document.Agree
import Preflight.Proofs.Document.Rearranged
/-!
# Two spellings of one field

A hat lists the events that start it under `triggers` or under `subscriptions`.
A document in which hats are respelled is loaded alike: both keys name one
field (`shape_respelled`), and no known key of a hat is a record, so what is
hinted at in a hat depends on its unknown keys only (`sameStrays_hat`). A
document in which a hat carries both is not loaded (`not_both_of_shape`).
-/

namespace Preflight

open Preflight.Config

namespace Tree

/-! ## Documents spelled differently -/

/-- One tree, or two that are related under the same tags. -/
inductive Under (R : Tree → Tree → Prop) : Tree → Tree → Prop
  | same (t : Tree) : Under R t t
  | bare {t u : Tree} (h : R t u) : Under R t u
  | tagged {t u : Tree} (tag : String) (h : Under R t u) : Under R (.tagged tag t) (.tagged tag u)

/-- Keys that spell the field in which a hat lists the events that start it. -/
inductive Spelling : Tree → Tree → Prop
  | mk {a b : String} (ha : a ∈ Usage.trigger.fieldNames) (hb : b ∈ Usage.trigger.fieldNames) :
      Spelling (.text a) (.text b)

/-- Entries with one value, whose keys are the same but for how that field is spelled. -/
def RespelledEntry (e f : Tree × Tree) : Prop :=
  Under Spelling e.1 f.1 ∧ e.2 = f.2

/-- Hats with respelled entries, also in another order, since in some notations the order goes by the keys. -/
inductive RespelledHat : Tree → Tree → Prop
  | map {es ms fs : List (Tree × Tree)} (h : List.Forall₂ RespelledEntry es ms) (hp : ms.Perm fs) :
      RespelledHat (.map es) (.map fs)

/-- Tables in which hats are respelled. -/
inductive RespelledHats : Tree → Tree → Prop
  | map {es fs : List (Tree × Tree)} (h : List.Forall₂ (fun e f => e.1 = f.1 ∧ Under RespelledHat e.2 f.2) es fs) :
      RespelledHats (.map es) (.map fs)

/-- Documents in which hats are respelled. -/
inductive Respelled : Tree → Tree → Prop
  | map {es fs : List (Tree × Tree)} (h : List.Forall₂ (fun e f =>
      e.1 = f.1 ∧ (e.2 = f.2 ∨ e.1.untag = .text "hats" ∧ Under RespelledHats e.2 f.2)) es fs) :
      Respelled (.map es) (.map fs)
  /-- A document that is written as the list of its fields, of which the hats are the third. -/
  | list {name description v w : Tree} {rest : List Tree} (h : Under RespelledHats v w) :
      Respelled (.list (name :: description :: v :: rest)) (.list (name :: description :: w :: rest))
  | tagged {t u : Tree} (tag : String) (h : Respelled t u) : Respelled (.tagged tag t) (.tagged tag u)

/-- The body of a hat, by whatever id. -/
inductive HatOf (t : Tree) : Tree → Prop
  | named {k v id body : Tree} (hk : k.untag = .text "hats") (hv : (k, v) ∈ t.entries) (hbody : (id, body) ∈ v.entries) :
      HatOf t body
  | placed {v id body : Tree} (hv : t.items[2]? = some v) (hbody : (id, body) ∈ v.entries) : HatOf t body

/-- A map with a key of each spelling. -/
def CarriesBoth (body : Tree) : Prop :=
  ∃ k ∈ body.keys, k.untag = .text "triggers" ∧ ∃ l ∈ body.keys, l.untag = .text "subscriptions"

theorem RespelledHat.ne_null {t u : Tree} (h : RespelledHat t u) : t ≠ .null ∧ u ≠ .null := by
  cases h
  exact ⟨nofun, nofun⟩

theorem RespelledHats.ne_null {t u : Tree} (h : RespelledHats t u) : t ≠ .null ∧ u ≠ .null := by
  cases h
  exact ⟨nofun, nofun⟩

theorem Respelled.untag_ne_null {t u : Tree} (h : t.Respelled u) : t.untag ≠ .null ∧ u.untag ≠ .null := by
  induction h with
  | map | list => exact ⟨nofun, nofun⟩
  | tagged _ _ ih => exact ih

theorem Under.untag_spelling {k l : Tree} (h : Under Spelling k l) :
    k = l ∨ ∃ a ∈ Usage.trigger.fieldNames, ∃ b ∈ Usage.trigger.fieldNames, k.untag = .text a ∧ l.untag = .text b := by
  induction h with
  | same => exact .inl rfl
  | bare h =>
    obtain ⟨ha, hb⟩ := h
    exact .inr ⟨_, ha, _, hb, rfl, rfl⟩
  | tagged tag _ ih => exact ih.imp_left (congrArg _)

end Tree

open Preflight.Tree

/-! ## Reading -/

section Reading
variable {d : Dialect}

/-- Entries give a record the same if their keys name one field and their values are read alike for it. -/
theorem gives_iff {σ : Type} {slots : List (Slot σ)} {k l v w : Tree} {a b : String} (hk : k.untag = .text a)
    (hl : l.untag = .text b) (hfield : slots.find? (·.answers a) = slots.find? (·.answers b))
    (hvalue : ∀ slot, slots.find? (·.answers a) = some slot → ∀ f, slot.read d v = .ok f ↔ slot.read d w = .ok f)
    (g : Option (String × (σ → σ))) : Gives slots d (k, v) g ↔ Gives slots d (l, w) g := by
  rw [← readFieldName_eq_ok_iff d] at hk hl
  constructor
  · rintro (⟨hkey, hslot⟩ | ⟨hkey, hslot, hv⟩)
    · obtain rfl := Except.ok.inj (hk.symm.trans hkey)
      exact .nothing hl (hfield.symm.trans hslot)
    · obtain rfl := Except.ok.inj (hk.symm.trans hkey)
      exact .change hl (hfield.symm.trans hslot) ((hvalue _ hslot _).1 hv)
  · rintro (⟨hkey, hslot⟩ | ⟨hkey, hslot, hw⟩)
    · obtain rfl := Except.ok.inj (hl.symm.trans hkey)
      exact .nothing hk (hfield.trans hslot)
    · obtain rfl := Except.ok.inj (hl.symm.trans hkey)
      exact .change hk (hfield.trans hslot) ((hvalue _ (hfield.trans hslot) _).2 hw)

section Under
variable {α : Type} {read : Read α} {R : Tree → Tree → Prop} {t u : Tree}
variable (htag : ∀ tag t, read d (.tagged tag t) = read d t)
variable (hR : ∀ t u, R t u → ∀ a, read d t = .ok a ↔ read d u = .ok a)
include htag hR

/-- A reader that passes over tags reads trees alike if it does so with what is under the tags. -/
theorem read_under (h : Under R t u) (a : α) : read d t = .ok a ↔ read d u = .ok a := by
  induction h with
  | same => rfl
  | bare h => exact hR _ _ h a
  | tagged tag _ ih => rw [htag, htag, ih]

theorem readOption_under (hnull : ∀ t u, R t u → t ≠ .null ∧ u ≠ .null) (h : Under R t u) (o : Option α) :
    readOption read d t = .ok o ↔ readOption read d u = .ok o := by
  have hne : t = u ∨ t ≠ .null ∧ u ≠ .null := by
    cases h with
    | same => exact .inl rfl
    | bare h => exact .inr (hnull _ _ h)
    | tagged => exact .inr ⟨nofun, nofun⟩
  rcases hne with rfl | ⟨ht, hu⟩
  · rfl
  · simp only [readOption_of_ne read d ht, readOption_of_ne read d hu, map_eq_ok_iff, read_under htag hR h]

end Under

namespace Config

theorem find?_spelling {a : String} (ha : a ∈ Usage.trigger.fieldNames) :
    hatSlots.find? (·.answers a) = hatSlots[2]? := by
  simp only [Usage.fieldNames, List.mem_cons, List.not_mem_nil, or_false] at ha
  rcases ha with rfl | rfl <;> rfl

theorem readHat_respelled {t u : Tree} (h : RespelledHat t u) (hat : Hat) :
    readHat d t = .ok hat ↔ readHat d u = .ok hat := by
  obtain @⟨es, ms, fs, h, hp⟩ := h
  have hgives : List.Forall₂ (fun e m => ∀ g, Gives hatSlots d e g ↔ Gives hatSlots d m g) es ms := by
    refine h.imp ?_
    rintro ⟨k, v⟩ ⟨l, _⟩ ⟨hkl, rfl⟩ g
    rcases hkl.untag_spelling with rfl | ⟨a, ha, b, hb, hk, hl⟩
    · rfl
    · exact gives_iff hk hl ((find?_spelling ha).trans (find?_spelling hb).symm) (fun _ _ _ => .rfl) g
  exact (readEntries_congr hgives [] .empty hat).trans
    ⟨readEntries_perm independent_hatSlots hp, readEntries_perm independent_hatSlots hp.symm⟩

theorem readHats_respelled {t u : Tree} (h : Under RespelledHats t u) (hats : NameTable Hat) :
    readNamed readHat .empty d t = .ok hats ↔ readNamed readHat .empty d u = .ok hats := by
  have htable (t u : Tree) (h : RespelledHats t u) (table : NameTable (Option Hat)) :
      readTable readName (readOption readHat) d t = .ok table ↔
        readTable readName (readOption readHat) d u = .ok table := by
    obtain ⟨h⟩ := h
    rw [readTable_of_map rfl, readTable_of_map rfl]
    refine exists_congr fun rows => and_congr_left' (forall₂_congr (h.imp ?_) rows)
    rintro ⟨k, v⟩ ⟨_, w⟩ ⟨rfl, hvw⟩ row
    have hbody := readOption_under (fun _ _ => rfl) (fun _ _ => readHat_respelled (d := d))
      (fun _ _ => RespelledHat.ne_null) hvw row.2
    rw [Row, Row, hbody]
  have hoption := readOption_under (fun _ _ => rfl) htable (fun _ _ => RespelledHats.ne_null) h
  simp only [readNamed, map_eq_ok_iff, hoption]

/-- Respelled documents have the same shape. -/
theorem shape_respelled {t u : Tree} (h : t.Respelled u) (w : Workflow) : shape d t = .ok w ↔ shape d u = .ok w := by
  induction h with
  | map h =>
    refine readEntries_congr (h.imp ?_) [] .empty w
    rintro ⟨k, v⟩ ⟨_, x⟩ ⟨rfl, rfl | ⟨hk, hvx⟩⟩ g
    · rfl
    · refine gives_iff hk hk rfl ?_ g
      intro slot hslot f
      obtain rfl := Option.some.inj hslot
      simp only [Slot.of, map_eq_ok_iff, readHats_respelled hvx]
  | list h =>
    simp only [shape, readRecord, untag]
    split
    · simp only [workflowSlots, readPositions, Slot.of, bind_eq_ok_iff, map_eq_ok_iff, readHats_respelled h,
        List.length_cons]
    · simp [fail]
  | tagged _ _ ih => exact ih

/-! ### Hats that carry both -/

/-- What is read as a record is read entry by entry, if it has entries. -/
theorem readEntries_of_readRecord {σ : Type} {title : String} {slots : List (Slot σ)} {start r : σ} {t : Tree}
    (h : readRecord title slots start d t = .ok r) {e : Tree × Tree} (he : e ∈ t.entries) :
    readEntries slots d [] t.entries start = .ok r := by
  unfold readRecord at h
  unfold entries at he ⊢
  split at he
  · rename_i es ht
    rwa [ht] at h
  · exact absurd he List.not_mem_nil

theorem readPositions_of_readRecord {σ : Type} {title : String} {slots : List (Slot σ)} {start r : σ} {t : Tree}
    (h : readRecord title slots start d t = .ok r) {item : Tree} (hitem : item ∈ t.items) :
    ∃ r', readPositions d slots t.items start = .ok r' := by
  unfold readRecord at h
  unfold items at hitem ⊢
  split at hitem
  · rename_i ts ht
    rw [ht] at h
    dsimp only at h
    split at h
    · obtain ⟨r', hr', -⟩ := (bind_eq_ok_iff _ _ _).1 h
      exact ⟨r', hr'⟩
    · exact nomatch h
  · exact absurd hitem List.not_mem_nil

/-- A hat that is read does not carry both: the two keys would give one field twice. -/
theorem not_both_of_readHat {body : Tree} {hat : Hat} (h : readHat d body = .ok hat) : ¬body.CarriesBoth := by
  rintro ⟨k, hk, htriggers, l, hl, hsubscriptions⟩
  obtain ⟨e, he, rfl⟩ := List.mem_map.1 hk
  obtain ⟨f, hf, rfl⟩ := List.mem_map.1 hl
  have hmem {e : Tree × Tree} (he : e ∈ body.entries) {key : String} (hkey : e.1.untag = .text key)
      (hspells : ["triggers", "subscriptions"].contains key = true) :
      e ∈ givenFor ["triggers", "subscriptions"] body.entries :=
    mem_givenFor.2 ⟨he, (spells_of_untag hkey _).trans hspells⟩
  have hgiven := hmem he htriggers rfl
  have hgiven' := hmem hf hsubscriptions rfl
  obtain ⟨hnone, -⟩ | ⟨x, hone, -⟩ :=
    readEntries_get isField_triggers List.not_mem_nil (readEntries_of_readRecord h he)
  · rw [hnone] at hgiven
    exact List.not_mem_nil hgiven
  · rw [hone] at hgiven hgiven'
    obtain rfl := List.mem_singleton.1 hgiven
    obtain rfl := List.mem_singleton.1 hgiven'
    exact absurd (htriggers.symm.trans hsubscriptions) (by simp)

/-- No body of a table of hats that is read carries both. -/
theorem not_both_of_readHats {t : Tree} {hats : NameTable Hat} (h : readNamed readHat .empty d t = .ok hats)
    {id body : Tree} (hbody : (id, body) ∈ t.entries) : ¬body.CarriesBoth := by
  intro hboth
  have ht : t ≠ .null := by
    rintro rfl
    exact absurd hbody List.not_mem_nil
  have hne : body ≠ .null := by
    rintro rfl
    obtain ⟨k, hk, -⟩ := hboth
    exact absurd hk List.not_mem_nil
  obtain ⟨found, hfound, -⟩ := (map_eq_ok_iff _ _ _).1 h
  rw [readOption_of_ne _ d ht, map_eq_ok_iff] at hfound
  obtain ⟨table, htable, -⟩ := hfound
  obtain ⟨es, rows, hes, -, -⟩ := (readTable_eq_ok_iff _ _ d t table).1 htable
  obtain ⟨o, ho⟩ := exists_read_of_readTable _ _ d htable hes (readPairs_eq_entries hes ▸ hbody)
  rw [readOption_of_ne _ d hne, map_eq_ok_iff] at ho
  obtain ⟨hat, hhat, -⟩ := ho
  exact not_both_of_readHat hhat hboth

/-- No hat of a document that has a shape carries both. -/
theorem not_both_of_shape {t : Tree} {w : Workflow} (h : shape d t = .ok w) {body : Tree} (hbody : t.HatOf body) :
    ¬body.CarriesBoth := by
  have hread {v : Tree} {f : Workflow → Workflow}
      (hv : (Slot.of "hats" [] (readNamed readHat .empty) fun x (r : Workflow) => { r with hats := x }).read d v =
        .ok f) : ∃ hats, readNamed readHat .empty d v = .ok hats := by
    obtain ⟨hats, hhats, -⟩ := (map_eq_ok_iff _ _ _).1 hv
    exact ⟨hats, hhats⟩
  cases hbody with
  | named hk hv hbody =>
    obtain ⟨f, hf⟩ := exists_read_of_readEntries (readEntries_of_readRecord h hv) hv hk rfl
    obtain ⟨hats, hhats⟩ := hread hf
    exact not_both_of_readHats hhats hbody
  | placed hv hbody =>
    obtain ⟨r, hr⟩ := readPositions_of_readRecord h (List.mem_of_getElem? hv)
    obtain ⟨f, hf⟩ := exists_read_of_readPositions hr rfl hv
    obtain ⟨hats, hhats⟩ := hread hf
    exact not_both_of_readHats hhats hbody

end Config

end Reading

/-! ## Hints -/

theorem rel_bind {α β γ δ : Type} {R : α → β → Prop} {S : γ → δ → Prop} {x : Option α} {y : Option β}
    (h : Option.Rel R x y) {f : α → Option γ} {g : β → Option δ} (hfg : ∀ a b, R a b → Option.Rel S (f a) (g b)) :
    Option.Rel S (x.bind f) (y.bind g) := by
  cases h with
  | none => exact .none
  | some h => exact hfg _ _ h

theorem exists_mem_congr {α β : Type} {p : α → Prop} {q : β → Prop} {l : List α} {m : List β}
    (h : List.Forall₂ (fun a b => p a ↔ q b) l m) : (∃ a ∈ l, p a) ↔ ∃ b ∈ m, q b := by
  induction h with
  | nil => simp
  | cons hab _ ih => simp only [List.mem_cons, exists_eq_or_imp, hab, ih]

namespace Config

variable {keys : Keys} {t u : Tree}

/-- Neither tree has a JSON value, or both have one and the same entries are hinted at. -/
def SameStrays (keys : Keys) (t u : Tree) : Prop :=
  Option.Rel (fun v w => strays keys v = strays keys w) t.toJson? u.toJson?

/-- What the keys inside the value of a key are known to be; where the key is not known none is looked at. -/
def Keys.inside (keys : Keys) (key : String) : Keys :=
  (keys.beneath key).getD .leaf

theorem sameStrays_refl (keys : Keys) (t : Tree) : SameStrays keys t t := by
  unfold SameStrays
  cases t.toJson? with
  | none => exact .none
  | some v => exact .some rfl

theorem SameStrays.leaf (h : SameStrays keys t u) : SameStrays .leaf t u := by
  unfold SameStrays at h ⊢
  generalize t.toJson? = v, u.toJson? = w at h ⊢
  cases h with
  | none => exact .none
  | some => exact .some (by rw [strays_leaf, strays_leaf])

theorem straysAt_congr {key : String} {v w : Json} (h : strays (keys.inside key) v = strays (keys.inside key) w) :
    straysAt keys (key, v) = straysAt keys (key, w) := by
  unfold Keys.inside at h
  unfold straysAt
  cases hkey : keys.beneath key with
  | none => rfl
  | some below =>
    rw [hkey] at h
    exact congrArg (List.map (Stray.under key)) h

theorem strays_congr {es fs : List (String × Json)}
    (h : List.Forall₂ (fun a b => a.1 = b.1 ∧ straysAt keys a = straysAt keys b) es fs) :
    strays keys (.object es) = strays keys (.object fs) := by
  rw [strays, strays, straysIn_eq_flatMap, straysIn_eq_flatMap]
  induction h with
  | nil => rfl
  | cons hab _ ih => rw [List.flatMap_cons, List.flatMap_cons, hab.2, ih]

theorem sameStrays_tagged (tag : String) (h : SameStrays (keys.inside (tagKey tag)) t u) :
    SameStrays keys (.tagged tag t) (.tagged tag u) := by
  unfold SameStrays
  rw [toJson?, toJson?, Option.map_eq_bind, Option.map_eq_bind]
  exact rel_bind h fun v w hvw => .some (strays_congr (.cons ⟨rfl, straysAt_congr hvw⟩ .nil))

theorem rel_toJsonEntries? {es fs : List (Tree × Tree)} (h : List.Forall₂ (fun e f =>
      e.1 = f.1 ∧ ∀ key, e.1.keyText? = some key → SameStrays (keys.inside key) e.2 f.2) es fs) :
    Option.Rel (List.Forall₂ fun a b => a.1 = b.1 ∧ straysAt keys a = straysAt keys b) (toJsonEntries? es)
      (toJsonEntries? fs) := by
  induction h with
  | nil => exact .some .nil
  | @cons e f es fs hef _ ih =>
    obtain ⟨k, v⟩ := e
    obtain ⟨_, w⟩ := f
    obtain ⟨rfl, hvw⟩ := hef
    rw [toJsonEntries?, toJsonEntries?]
    cases hk : k.keyText? with
    | none => exact .none
    | some key =>
      exact rel_bind (hvw key hk) fun x y hxy => rel_bind ih fun rows rows' hrows =>
        .some (.cons ⟨rfl, straysAt_congr hxy⟩ hrows)

/-- The same entries are hinted at in maps with the same keys, if they are in their values. -/
theorem sameStrays_map {es fs : List (Tree × Tree)} (h : List.Forall₂ (fun e f =>
      e.1 = f.1 ∧ ∀ key, e.1.keyText? = some key → SameStrays (keys.inside key) e.2 f.2) es fs) :
    SameStrays keys (.map es) (.map fs) := by
  unfold SameStrays
  rw [toJson?, toJson?, Option.map_eq_bind, Option.map_eq_bind]
  exact rel_bind (rel_toJsonEntries? h) fun rows rows' hrows =>
    .some (strays_congr (forall₂_ofList (fun _ _ hab => hab.1) hrows))

/-- No entry of a list is hinted at. -/
theorem sameStrays_list {ts us : List Tree} (h : List.Forall₂ (SameStrays .leaf) ts us) :
    SameStrays keys (.list ts) (.list us) := by
  have hitems : Option.Rel (fun _ _ => True) (toJsonItems? ts) (toJsonItems? us) := by
    induction h with
    | nil => exact .some trivial
    | cons htu _ ih =>
      rw [toJsonItems?, toJsonItems?]
      exact rel_bind htu fun _ _ _ => rel_bind ih fun _ _ _ => .some trivial
  unfold SameStrays
  rw [toJson?, toJson?, Option.map_eq_bind, Option.map_eq_bind]
  exact rel_bind hitems fun _ _ _ => .some rfl

/-! ### In a hat -/

/-- The known keys of a hat. -/
def hatKeys : Keys :=
  (workflowKeys.inside "hats").inside ""

theorem strays_hatKeys (v : Json) : strays hatKeys v =
    ((v.entries.map (·.1)).filter (· ∉ fieldNames hatSlots)).map fun key =>
      Stray.sorted ⟨[], key, fieldNames hatSlots⟩ := by
  have hunknown : strays hatKeys v = (Place.unknown ⟨[], fieldNames hatSlots, v⟩).map Stray.sorted :=
    strays_of_leaves (by decide) (by decide) (by simp) v
  rw [hunknown, Place.unknown, List.filter_map, List.map_map, List.map_map]
  rfl

/-- No known key of a hat is a record. -/
theorem inside_hatKeys (key : String) : hatKeys.inside key = .leaf := by
  unfold Keys.inside
  cases hkey : hatKeys.beneath key with
  | none => rfl
  | some below =>
    have hmem := NameTable.mem_of_lookup hkey
    simp only [List.mem_cons, Prod.mk.injEq, List.not_mem_nil, or_false, ← or_and_right] at hmem
    exact hmem.2

theorem mem_names_toJsonEntries? {es : List (Tree × Tree)} {rows : List (String × Json)}
    (h : toJsonEntries? es = some rows) (key : String) :
    key ∈ (NameTable.ofList rows).names ↔ ∃ e ∈ es, e.1.keyText? = some key := by
  rw [NameTable.mem_names_ofList, List.mem_map]
  refine (exists_mem_congr (((toJsonEntries?_eq_some_iff es rows).1 h).imp ?_)).symm
  rintro e row ⟨hkey, -⟩
  rw [hkey, Option.some.injEq]

/-- Where a key spells the field, so does the other, and neither has the text of an unknown key. -/
theorem keyText?_spelling {k l : Tree} (h : Under Spelling k l) {key : String} (hkey : key ∉ fieldNames hatSlots) :
    k.keyText? = some key ↔ l.keyText? = some key := by
  have hne {a : String} (ha : a ∈ Usage.trigger.fieldNames) : a ≠ key := by
    rintro rfl
    exact nomatch ((find?_answers_eq_none_iff hatSlots a).2 hkey).symm.trans (find?_spelling ha)
  cases h with
  | same | tagged => rfl
  | bare h =>
    obtain ⟨ha, hb⟩ := h
    simp [keyText?, hne ha, hne hb]

theorem keyed_spelling {es ms : List (Tree × Tree)}
    (h : List.Forall₂ RespelledEntry es ms) : KeyedEntries es ↔ KeyedEntries ms := by
  induction h with
  | nil => rfl
  | @cons e m es ms hem _ ih =>
    obtain ⟨k, v⟩ := e
    obtain ⟨l, _⟩ := m
    obtain ⟨hkl, rfl⟩ := hem
    have hkey : k.IsKey ↔ l.IsKey := by
      cases hkl with
      | same | tagged => rfl
      | bare h =>
        obtain ⟨-, -⟩ := h
        rfl
    rw [KeyedEntries, KeyedEntries, ih, hkey]

/-- What is hinted at in a hat are the keys that are unknown, so neither the spelling nor the order matters. -/
theorem sameStrays_hat (h : RespelledHat t u) : SameStrays hatKeys t u := by
  obtain @⟨es, ms, fs, h, hp⟩ := h
  have hkeyed : (toJsonEntries? es).isSome ↔ (toJsonEntries? fs).isSome := by
    rw [isSome_toJsonEntries?_iff, isSome_toJsonEntries?_iff, keyed_spelling h, keyedEntries_iff, keyedEntries_iff]
    simp only [hp.mem_iff]
  unfold SameStrays
  rw [toJson?, toJson?]
  cases hes : toJsonEntries? es with
  | none =>
    have hfs : toJsonEntries? fs = none := by simpa [hes] using hkeyed
    rw [hfs]
    exact .none
  | some rows =>
    obtain ⟨rows', hfs⟩ := Option.isSome_iff_exists.1 (hkeyed.1 (by rw [hes]; rfl))
    have hnames (key : String) (hkey : key ∉ fieldNames hatSlots) :
        key ∈ (NameTable.ofList rows).names ↔ key ∈ (NameTable.ofList rows').names := by
      have hms : (∃ e ∈ es, e.1.keyText? = some key) ↔ ∃ m ∈ ms, m.1.keyText? = some key :=
        exists_mem_congr (h.imp fun _ _ hem => keyText?_spelling hem.1 hkey)
      rw [mem_names_toJsonEntries? hes, mem_names_toJsonEntries? hfs, hms]
      simp only [hp.mem_iff]
    have hascending (table : NameTable Json) :
        (table.names.filter (· ∉ fieldNames hatSlots)).Pairwise (· < ·) :=
      (List.pairwise_map.2 table.ascending).filter _
    rw [hfs]
    refine .some ?_
    rw [strays_hatKeys, strays_hatKeys]
    -- The unknown names ascend in both, so it is enough that they are the same.
    refine congrArg (List.map _) (NameSet.eq_of_ascending (hascending _) (hascending _) fun key => ?_)
    rw [List.mem_filter, List.mem_filter, decide_eq_true_iff]
    exact and_congr_left (hnames key)

/-- In a hat with a tag on it the tag is an unknown key. -/
theorem sameStrays_under {R : Tree → Tree → Prop} (hR : ∀ t u, R t u → SameStrays hatKeys t u) (h : Under R t u) :
    SameStrays hatKeys t u := by
  induction h with
  | same => exact sameStrays_refl _ _
  | bare h => exact hR _ _ h
  | tagged tag _ ih =>
    apply sameStrays_tagged
    rw [inside_hatKeys]
    exact ih.leaf

theorem sameStrays_under_hat (h : Under RespelledHat t u) : SameStrays hatKeys t u :=
  sameStrays_under (fun _ _ => sameStrays_hat) h

/-! ### In a document -/

theorem sameStrays_hats (h : Under RespelledHats t u) : SameStrays (.free hatKeys) t u := by
  cases h with
  | same => exact sameStrays_refl _ _
  | bare h =>
    obtain ⟨h⟩ := h
    exact sameStrays_map (h.imp fun e f hef => ⟨hef.1, fun _ _ => sameStrays_under_hat hef.2⟩)
  | tagged tag h =>
    -- A tag stands where an id would, so the table under it is taken for a hat, and the ids for its keys.
    refine sameStrays_tagged tag (sameStrays_under ?_ h)
    rintro _ _ ⟨h⟩
    refine sameStrays_map (h.imp fun e f hef => ⟨hef.1, fun key _ => ?_⟩)
    rw [inside_hatKeys]
    exact (sameStrays_under_hat hef.2).leaf

/-- No known key of a document is a tag. -/
theorem inside_tagKey (tag : String) : workflowKeys.inside (tagKey tag) = .leaf := by
  have hknown : ∀ name ∈ workflowKeys.names, name.toList.head? ≠ some '!' := by decide
  have hnone : workflowKeys.beneath (tagKey tag) = none := by
    refine (lookup_eq_none_iff_not_mem _ _).2 fun hmem => hknown _ hmem ?_
    rw [tagKey, String.toList_append]
    rfl
  rw [Keys.inside, hnone, Option.getD_none]

theorem eq_text_of_keyText? {k : Tree} {key text : String} (hkey : k.keyText? = some key) (hk : k.untag = .text text) :
    key = text := by
  cases k <;> simp_all [keyText?, untag]

theorem sameStrays_respelled (h : t.Respelled u) : SameStrays workflowKeys t u := by
  induction h with
  | map h =>
    refine sameStrays_map (h.imp ?_)
    rintro ⟨k, v⟩ ⟨_, w⟩ ⟨rfl, rfl | ⟨hk, hvw⟩⟩
    · exact ⟨rfl, fun _ _ => sameStrays_refl _ _⟩
    · refine ⟨rfl, fun key hkey => ?_⟩
      obtain rfl := eq_text_of_keyText? hkey hk
      exact sameStrays_hats hvw
  | list h =>
    have hrest (ts : List Tree) : List.Forall₂ (SameStrays .leaf) ts ts :=
      List.forall₂_same.2 fun _ _ => sameStrays_refl _ _
    exact sameStrays_list (List.rel_append (hrest [_, _]) (.cons (sameStrays_hats h).leaf (hrest _)))
  | tagged tag _ ih =>
    apply sameStrays_tagged
    rw [inside_tagKey]
    exact ih.leaf

/-- Respelled documents have the same hints in the same order. -/
theorem hintsOfTree_respelled (h : t.Respelled u) : hintsOfTree t = hintsOfTree u := by
  have hstrays := sameStrays_respelled h
  unfold SameStrays at hstrays
  unfold hintsOfTree
  generalize t.toJson? = v, u.toJson? = w at hstrays ⊢
  cases hstrays with
  | none => rfl
  | some hvw => simp only [Option.map_some, hints, hintsAt_eq_map, hvw]

end Config

/-! ## Loading -/

namespace Workflow

variable {t u : Tree}

theorem ofTree_respelled (h : t.Respelled u) (format : Format) : (ofTree format t).Agrees (ofTree format u) := by
  refine ⟨hintsOfTree_respelled h, fun w => ?_⟩
  rw [ofTree_eq_ok_iff, ofTree_eq_ok_iff, shape_respelled h]

theorem ofYaml_respelled (h : t.Respelled u) : (ofYaml t).Agrees (ofYaml u) := by
  obtain ⟨ht, hu⟩ := h.untag_ne_null
  rw [ofYaml_of_untag_ne ht, ofYaml_of_untag_ne hu]
  exact ofTree_respelled h .yaml

/-- In whatever hats `triggers` is spelled `subscriptions` or the other way round, a document is loaded alike from every
notation: with the same hints in the same order, as the same workflow or not at all, hence with the same plan or the
same report. A document in which a hat carries both is not loaded, whatever stands there. -/
theorem loads_respelled (t : Tree) :
    (∀ u, t.Respelled u →
      ((ofYaml t).Agrees (ofYaml u) ∧ verdict? (ofYaml t) = verdict? (ofYaml u)) ∧
      ∀ format, (ofTree format t).Agrees (ofTree format u) ∧
        verdict? (ofTree format t) = verdict? (ofTree format u)) ∧
    (∀ body, t.HatOf body → body.CarriesBoth →
      ∀ w, (ofYaml t).result ≠ .ok w ∧ ∀ format, (ofTree format t).result ≠ .ok w) := by
  constructor
  · intro u h
    have hyaml := ofYaml_respelled h
    have htree := ofTree_respelled h
    exact ⟨⟨hyaml, verdict?_congr hyaml⟩, fun format => ⟨htree format, verdict?_congr (htree format)⟩⟩
  · intro body hbody hboth w
    refine ⟨fun hw => ?_, fun format hw => ?_⟩
    · exact not_both_of_shape ((ofYaml_eq_ok_iff t w).1 hw) hbody hboth
    · exact not_both_of_shape ((ofTree_eq_ok_iff format t w).1 hw) hbody hboth

/-- A hat that waits under the older spelling and has an unknown key, and one that waits for nothing. -/
def olderSpelling : Tree :=
  .map [(.text "hats", .map [
    (.text "a", .map [(.text "hue", .null), (.text "model", .text "m"), (.text "subscriptions", .list [.text "go"])]),
    (.text "b", .map [(.text "triggers", .null)])])]

/-- The same with both hats spelled the other way, and the entries of the first in another order. -/
def newerSpelling : Tree :=
  .map [(.text "hats", .map [
    (.text "a", .map [(.text "hue", .null), (.text "triggers", .list [.text "go"]), (.text "model", .text "m")]),
    (.text "b", .map [(.text "subscriptions", .null)])])]

/-- A hat with both spellings, neither of which gives anything. -/
def bothSpellings : Tree :=
  .map [(.text "hats", .map [(.text "a", .map [(.text "triggers", .null), (.text "subscriptions", .null)])])]

theorem respelled_olderSpelling : olderSpelling.Respelled newerSpelling := by
  have hkey {a b : String} (ha : a ∈ Usage.trigger.fieldNames) (hb : b ∈ Usage.trigger.fieldNames) :
      Tree.Under Tree.Spelling (.text a) (.text b) :=
    .bare ⟨ha, hb⟩
  have hfirst : List.Forall₂ Tree.RespelledEntry
      [(.text "hue", .null), (.text "model", .text "m"), (.text "subscriptions", .list [.text "go"])]
      [(.text "hue", .null), (.text "model", .text "m"), (.text "triggers", .list [.text "go"])] :=
    .cons ⟨.same _, rfl⟩ (.cons ⟨.same _, rfl⟩ (.cons ⟨hkey (by decide) (by decide), rfl⟩ .nil))
  have hsecond : List.Forall₂ Tree.RespelledEntry [(.text "triggers", .null)] [(.text "subscriptions", .null)] :=
    .cons ⟨hkey (by decide) (by decide), rfl⟩ .nil
  refine .map (.cons ⟨rfl, .inr ⟨rfl, .bare (.map ?_)⟩⟩ .nil)
  exact .cons ⟨rfl, .bare (.map hfirst (.cons _ (.swap _ _ [])))⟩ (.cons ⟨rfl, .bare (.map hsecond (.refl _))⟩ .nil)

theorem spellings_load : ((ofYaml olderSpelling).Agrees (ofYaml newerSpelling) ∧
      verdict? (ofTree .json olderSpelling) = verdict? (ofTree .json newerSpelling) ∧
      (verdict? (ofTree .json newerSpelling)).isSome) ∧
    ∀ w, (ofYaml bothSpellings).result ≠ .ok w ∧ ∀ format, (ofTree format bothSpellings).result ≠ .ok w := by
  obtain ⟨⟨hyaml, -⟩, htree⟩ := (loads_respelled olderSpelling).1 newerSpelling respelled_olderSpelling
  have hbody : bothSpellings.HatOf (.map [(.text "triggers", .null), (.text "subscriptions", .null)]) :=
    .named rfl (List.mem_singleton_self _) (List.mem_singleton_self _)
  have hboth : Tree.CarriesBoth (.map [(.text "triggers", .null), (.text "subscriptions", .null)]) :=
    ⟨_, .head _, rfl, _, .tail _ (.head _), rfl⟩
  exact ⟨⟨hyaml, (htree .json).2, by decide +kernel⟩, (loads_respelled bothSpellings).2 _ hbody hboth⟩

end Workflow

end Preflight
