import Preflight.Proofs.Document.Reading
/-!
# What is found in a tree

The value of a field and the body kept for a name are found in the tree without
reading it: `field` is the one value given for the field, `body?` the value of
the last entry whose key has the text. Reading agrees: `readRecord_get` for records,
`readTable_spec` for tables, `readNameSet_spec` for sets of names.
-/

namespace Preflight

namespace Tree

/-- The entries of a map, and of nothing else. -/
def entries (t : Tree) : List (Tree × Tree) :=
  match t.untag with
  | .map es => es
  | _ => []

/-- The items of a list, and of nothing else. -/
def items (t : Tree) : List Tree :=
  match t.untag with
  | .list ts => ts
  | _ => []

/-- The keys of a map, and of nothing else. -/
def keys (t : Tree) : List Tree :=
  t.entries.map (·.1)

/-- Whether a key spells one of the names of a field. -/
def spells (names : List String) (k : Tree) : Bool :=
  match k.untag with
  | .text s => names.contains s
  | _ => false

/-- The entries given for the field that goes by some names. -/
def givenFor (names : List String) (es : List (Tree × Tree)) : List (Tree × Tree) :=
  es.filter fun e => e.1.spells names

/-- The value given for the field that goes by some names, or null. -/
def field (names : List String) (t : Tree) : Tree :=
  ((givenFor names t.entries).head?.map (·.2)).getD .null

/-- The value of the last entry whose key has a text. -/
def body? (name : String) (t : Tree) : Option Tree :=
  (t.entries.reverse.find? fun e => e.1.scalarText? == some name).map (·.2)

theorem spells_of_untag {k : Tree} {key : String} (h : k.untag = .text key) (names : List String) :
    k.spells names = names.contains key := by
  rw [spells, h]

theorem givenFor_cons (names : List String) (e : Tree × Tree) (es : List (Tree × Tree)) :
    givenFor names (e :: es) = if e.1.spells names then e :: givenFor names es else givenFor names es :=
  List.filter_cons

theorem mem_givenFor {names : List String} {es : List (Tree × Tree)} {e : Tree × Tree} :
    e ∈ givenFor names es ↔ e ∈ es ∧ e.1.spells names = true :=
  List.mem_filter

end Tree

/-! ## The field of a record -/

section Records
variable {σ α : Type}

/-- A field of a record goes by some names, the first of which is its own; `get` finds what was read for it, and no
other field changes that. -/
structure IsField (slots : List (Slot σ)) (name : String) (others : List String) (read : Read α) (get : σ → α) :
    Prop where
  given : ∀ key ∈ name :: others, ∃ put : α → σ → σ,
    slots.find? (·.answers key) = some (.of name others read put) ∧ ∀ x r, get (put x r) = x
  alone : ∀ slot ∈ slots, slot.name = name → slot.others = others
  kept : ∀ slot ∈ slots, slot.name ≠ name → ∀ x, slot.Keeps fun r => get r = x

variable {slots : List (Slot σ)} {name : String} {others : List String} {read : Read α} {get : σ → α} {d : Dialect}

theorem keeps_get {β : Type} {name' : String} {others' : List String} {read' : Read β} {put : β → σ → σ}
    (h : ∀ y r, get (put y r) = get r) (x : α) : (Slot.of name' others' read' put).Keeps fun r => get r = x :=
  keeps_of (fun _ _ y _ r hr => (h y r).trans hr) name' others'

theorem IsField.name_ne (h : IsField slots name others read get) {slot : Slot σ} {key : String}
    (hslot : slots.find? (·.answers key) = some slot) (hkey : key ∉ name :: others) : slot.name ≠ name := by
  intro hname
  have hothers := h.alone slot (List.mem_of_find?_eq_some hslot) hname
  have hanswers : slot.answers key = true := List.find?_some (p := fun s : Slot σ => s.answers key) hslot
  rw [Slot.answers, Bool.or_eq_true, beq_iff_eq, List.contains_iff_mem, hname, hothers] at hanswers
  exact hkey (List.mem_cons.2 (hanswers.imp_left Eq.symm))

/-- What reading one entry does to a field: nothing, or the entry gives it. -/
theorem readEntries_cons_get (h : IsField slots name others read get) {seen : List String} {e : Tree × Tree}
    {es : List (Tree × Tree)} {start r : σ} (hr : readEntries slots d seen (e :: es) start = .ok r) :
    (e.1.spells (name :: others) = false ∧ ∃ seen' start', (name ∈ seen' ↔ name ∈ seen) ∧ get start' = get start ∧
      readEntries slots d seen' es start' = .ok r) ∨
    (e.1.spells (name :: others) = true ∧ name ∉ seen ∧ ∃ start', read d e.2 = .ok (get start') ∧
      readEntries slots d (name :: seen) es start' = .ok r) := by
  obtain ⟨key, hkey, hr⟩ := (readEntries_cons_eq_ok_iff slots d seen e.1 e.2 es start r).1 hr
  rw [Tree.spells_of_untag hkey]
  by_cases hmem : key ∈ name :: others
  · obtain ⟨put, hput, hget⟩ := h.given key hmem
    obtain ⟨hnone, -⟩ | ⟨slot, f, hslot, hnew, hf, hr⟩ := hr
    · exact nomatch hnone.symm.trans hput
    · cases hslot.symm.trans hput
      obtain ⟨x, hx, rfl⟩ := (map_eq_ok_iff _ _ _).1 hf
      exact .inr ⟨List.contains_iff_mem.2 hmem, hnew, put x start, by rw [hx, hget], hr⟩
  · refine .inl ⟨by simpa using hmem, ?_⟩
    obtain ⟨-, hr⟩ | ⟨slot, f, hslot, -, hf, hr⟩ := hr
    · exact ⟨seen, start, Iff.rfl, rfl, hr⟩
    · have hne := h.name_ne hslot hmem
      have hkept := h.kept slot (List.mem_of_find?_eq_some hslot) hne (get start) d e.2 f hf start rfl
      exact ⟨_, _, by simp [hne.symm], hkept, hr⟩

/-- A field that was given is not given again, and keeps its value. -/
theorem readEntries_given (h : IsField slots name others read get) {seen : List String} (hseen : name ∈ seen)
    {es : List (Tree × Tree)} {start r : σ} (hr : readEntries slots d seen es start = .ok r) :
    Tree.givenFor (name :: others) es = [] ∧ get r = get start := by
  induction es generalizing seen start with
  | nil =>
    cases hr
    exact ⟨rfl, rfl⟩
  | cons e es ih =>
    obtain ⟨hspells, seen', start', hseen', hget, hr⟩ | ⟨-, hnew, -⟩ := readEntries_cons_get h hr
    · obtain ⟨hfilter, hrest⟩ := ih (hseen'.2 hseen) hr
      rw [Tree.givenFor_cons, hspells, if_neg Bool.false_ne_true]
      exact ⟨hfilter, hrest.trans hget⟩
    · exact absurd hseen hnew

/-- A field is given at most once, and what is read for it is found in the record. -/
theorem readEntries_get (h : IsField slots name others read get) {seen : List String} (hseen : name ∉ seen)
    {es : List (Tree × Tree)} {start r : σ} (hr : readEntries slots d seen es start = .ok r) :
    (Tree.givenFor (name :: others) es = [] ∧ get r = get start) ∨
      ∃ e, Tree.givenFor (name :: others) es = [e] ∧ read d e.2 = .ok (get r) := by
  induction es generalizing seen start with
  | nil =>
    cases hr
    exact .inl ⟨rfl, rfl⟩
  | cons e es ih =>
    obtain ⟨hspells, seen', start', hseen', hget, hr⟩ | ⟨hspells, -, start', hread, hr⟩ := readEntries_cons_get h hr
    · rw [Tree.givenFor_cons, hspells, if_neg Bool.false_ne_true, ← hget]
      exact ih (fun hmem => hseen (hseen'.1 hmem)) hr
    · -- From here on the field is among those seen, so no later entry is given for it.
      obtain ⟨hfilter, hget⟩ := readEntries_given h List.mem_cons_self hr
      rw [Tree.givenFor_cons, if_pos hspells, hfilter, hget]
      exact .inr ⟨e, rfl, hread⟩

/-- The field of a record is what is read from the value found for it in the tree; every entry that is given for the
field has that value. -/
theorem readRecord_get (h : IsField slots name others read get) (hd : d.listIsRecord = false) {title : String}
    {start r : σ} {t : Tree} (hr : readRecord title slots start d t = .ok r)
    (hblank : read d .null = .ok (get start)) :
    read d (t.field (name :: others)) = .ok (get r) ∧
      ∀ e ∈ Tree.givenFor (name :: others) t.entries, e.2 = t.field (name :: others) := by
  unfold readRecord at hr
  unfold Tree.field Tree.entries
  split at hr
  · rename_i es ht
    rw [ht]
    obtain ⟨hnone, hget⟩ | ⟨e, hone, hread⟩ := readEntries_get h List.not_mem_nil hr
    · rw [hnone, hget]
      exact ⟨hblank, fun e he => absurd he List.not_mem_nil⟩
    · rw [hone]
      exact ⟨hread, fun e' he => by rw [List.mem_singleton.1 he]; rfl⟩
  · rename_i ht
    rw [ht]
    split at hr <;> cases hr
    exact ⟨hblank, fun e he => absurd he List.not_mem_nil⟩
  · simp [hd, fail] at hr
  · cases hr

end Records

/-! ## Sets and tables -/

theorem readItems_eq_items {d : Dialect} {t : Tree} {items : List Tree} (h : readItems d t = .ok items) :
    t.items = items := by
  unfold readItems at h
  unfold Tree.items
  split at h
  · rename_i ht
    cases h
    rw [ht]
  · rename_i ht
    split at h <;> cases h
    rw [ht]
  · exact nomatch h

theorem readPairs_eq_entries {d : Dialect} {t : Tree} {es : List (Tree × Tree)} (h : readPairs d t = .ok es) :
    t.entries = es := by
  unfold readPairs at h
  unfold Tree.entries
  split at h
  · rename_i ht
    cases h
    rw [ht]
  · rename_i ht
    split at h <;> cases h
    rw [ht]
  · exact nomatch h

/-- The members of a set are the texts of the items of the list, all of which are scalars. -/
theorem readNameSet_spec {d : Dialect} {t : Tree} {names : NameSet} (h : readNameSet d t = .ok names) :
    (∀ item ∈ t.items, item.scalarText?.isSome) ∧
      ∀ name, name ∈ names ↔ ∃ item ∈ t.items, item.scalarText? = some name := by
  obtain ⟨items, hitems, h⟩ := (bind_eq_ok_iff _ _ _).1 h
  obtain ⟨texts, htexts, h⟩ := (bind_eq_ok_iff _ _ _).1 h
  cases h
  rw [readItems_eq_items hitems]
  have hall (item : Tree) (hitem : item ∈ items) : item.hasTag = false ∧ ∃ text, item.scalarText? = some text := by
    obtain ⟨text, htext⟩ := (exists_mapM_iff (readName d) items).1 ⟨texts, htexts⟩ item hitem
    rw [readName_eq_ok_iff] at htext
    exact ⟨htext.1, text, htext.2⟩
  constructor
  · intro item hitem
    exact Option.isSome_iff_exists.2 (hall item hitem).2
  · intro name
    rw [NameSet.mem_ofList, mem_iff_of_mapM htexts]
    refine exists_congr fun item => and_congr_right fun hitem => ?_
    rw [readName_eq_ok_iff, and_iff_right (hall item hitem).1]

section Tables
variable {α β : Type} {R : Tree → α → Prop}

theorem isSome_of_rel {body? : Option Tree} {value? : Option α} (h : Option.Rel R body? value?) :
    body?.isSome = value?.isSome := by
  cases h <;> rfl

theorem rel_map {S : Tree → β → Prop} {f : α → β} {body? : Option Tree} {value? : Option α}
    (h : Option.Rel R body? value?) (hf : ∀ body value, R body value → S body (f value)) :
    Option.Rel S body? (value?.map f) := by
  cases h with
  | none => exact .none
  | some h => exact .some (hf _ _ h)

theorem rel_imp {S : Tree → α → Prop} {body? : Option Tree} {value? : Option α} (h : Option.Rel R body? value?)
    (hRS : ∀ body value, R body value → S body value) : Option.Rel S body? value? := by
  cases h with
  | none => exact .none
  | some h => exact .some (hRS _ _ h)

theorem exists_of_rel_some {body? : Option Tree} {value : α} (h : Option.Rel R body? (some value)) :
    ∃ body, body? = some body ∧ R body value := by
  cases h with
  | some h => exact ⟨_, rfl, h⟩

theorem exists_of_some_rel {body : Tree} {value? : Option α} (h : Option.Rel R (some body) value?) :
    ∃ value, value? = some value ∧ R body value := by
  cases h with
  | some h => exact ⟨_, rfl, h⟩

theorem rel_lookup {es : List (Tree × Tree)} {rows : List (String × α)}
    (h : List.Forall₂ (fun e row => e.1.scalarText? = some row.1 ∧ R e.2 row.2) es rows) (name : String) :
    Option.Rel R ((es.find? fun e => e.1.scalarText? == some name).map (·.2)) (rows.lookup name) := by
  induction h with
  | nil => exact .none
  | @cons e row es rows hrow _ ih =>
    rw [List.find?_cons, NameTable.lookup_cons_eq, hrow.1]
    by_cases hname : name = row.1
    · rw [if_pos hname, hname, beq_self_eq_true]
      exact .some hrow.2
    · rw [if_neg hname, beq_false_of_ne fun heq => hname (Option.some.inj heq).symm]
      exact ih

/-- A table has the last value of each name; all keys are scalars. -/
theorem readTable_spec {read : Read α} {d : Dialect} {t : Tree} {table : NameTable α}
    (h : readTable readName read d t = .ok table) :
    (∀ k ∈ t.keys, k.scalarText?.isSome) ∧
      ∀ name, Option.Rel (fun body value => read d body = .ok value) (t.body? name) (table.get? name) := by
  obtain ⟨es, rows, hes, hrows, rfl⟩ := (readTable_eq_ok_iff _ _ _ _ _).1 h
  unfold Tree.keys Tree.body?
  rw [readPairs_eq_entries hes]
  have hall : List.Forall₂ (fun e row => e.1.scalarText? = some row.1 ∧ read d e.2 = .ok row.2) es rows :=
    hrows.imp fun _ _ hrow => ⟨((readName_eq_ok_iff _ _ _).1 hrow.1).2, hrow.2⟩
  constructor
  · intro k hk
    obtain ⟨e, he, rfl⟩ := List.mem_map.1 hk
    obtain ⟨row, -, htext, -⟩ := exists_of_forall₂_right hall.flip he
    exact Option.isSome_of_eq_some htext
  · intro name
    rw [NameTable.get?_ofList]
    exact rel_lookup (List.rel_reverse hall) name

end Tables

end Preflight
