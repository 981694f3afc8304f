import Preflight.Document.ToJson
import Preflight.Proofs.Document.Reading
/-!
# The order of entries

`Reordered` relates trees that differ only in the order of the entries of their
maps. A reader is order free if it reads two such trees alike, and readers made
of order free ones are order free, provided that no two keys of a map have the
same text. Such trees also have the same JSON value (`toJson?_reordered`).
-/

namespace Preflight.Tree

mutual

/-- Trees that differ only in the order of the entries of their maps. -/
inductive Reordered : Tree → Tree → Prop
  | same (t : Tree) : Reordered t t
  | list {ts us : List Tree} (h : ReorderedItems ts us) : Reordered (.list ts) (.list us)
  | map {es ms fs : List (Tree × Tree)} (h : ReorderedEntries es ms) (hp : ms.Perm fs) :
      Reordered (.map es) (.map fs)
  | tagged {t u : Tree} (tag : String) (h : Reordered t u) : Reordered (.tagged tag t) (.tagged tag u)

/-- Lists of trees that differ, item by item, only in the order of entries. -/
inductive ReorderedItems : List Tree → List Tree → Prop
  | nil : ReorderedItems [] []
  | cons {t u : Tree} {ts us : List Tree} (h : Reordered t u) (hs : ReorderedItems ts us) :
      ReorderedItems (t :: ts) (u :: us)

/-- Entries with the same keys, and values that differ only in the order of entries. -/
inductive ReorderedEntries : List (Tree × Tree) → List (Tree × Tree) → Prop
  | nil : ReorderedEntries [] []
  | cons {v w : Tree} {es fs : List (Tree × Tree)} (k : Tree) (h : Reordered v w) (hs : ReorderedEntries es fs) :
      ReorderedEntries ((k, v) :: es) ((k, w) :: fs)

end

/-- No two of the keys have the same text. -/
def KeysDiffer (text? : Tree → Option String) (es : List (Tree × Tree)) : Prop :=
  es.Pairwise fun a b => ∀ s, text? a.1 = some s → text? b.1 ≠ some s

mutual

/-- In no map of the tree do two keys have the same text. -/
def Distinct (text? : Tree → Option String) : Tree → Prop
  | .list items => DistinctItems text? items
  | .map es => KeysDiffer text? es ∧ DistinctEntries text? es
  | .tagged _ t => t.Distinct text?
  | _ => True

/-- In no map of the items do two keys have the same text. -/
def DistinctItems (text? : Tree → Option String) : List Tree → Prop
  | [] => True
  | t :: ts => t.Distinct text? ∧ DistinctItems text? ts

/-- In no map of the values do two keys have the same text. -/
def DistinctEntries (text? : Tree → Option String) : List (Tree × Tree) → Prop
  | [] => True
  | (_, v) :: es => v.Distinct text? ∧ DistinctEntries text? es

end

/-- The text of a key where a name or a text is read. -/
def name? (t : Tree) : Option String :=
  t.untag.scalarText?

/-! ## What a reader sees of a reordered tree -/

section Sees
variable {text? : Tree → Option String}

theorem forall₂_of_reorderedItems : ∀ {ts us : List Tree}, ReorderedItems ts us → DistinctItems text? ts →
    List.Forall₂ (fun t u => Reordered t u ∧ t.Distinct text?) ts us
  | _, _, .nil, _ => .nil
  | _, _, .cons h hs, hd => .cons ⟨h, hd.1⟩ (forall₂_of_reorderedItems hs hd.2)

theorem forall₂_of_reorderedEntries : ∀ {es ms : List (Tree × Tree)}, ReorderedEntries es ms →
    DistinctEntries text? es → List.Forall₂ (fun e m => e.1 = m.1 ∧ Reordered e.2 m.2 ∧ e.2.Distinct text?) es ms
  | _, _, .nil, _ => .nil
  | _, _, .cons _ h hs, hd => .cons ⟨rfl, h, hd.1⟩ (forall₂_of_reorderedEntries hs hd.2)

/-- Reordered trees without their tags: the same tree, or lists or maps of reordered trees. -/
theorem Reordered.untag_cases : ∀ {t u : Tree}, Reordered t u → t.Distinct text? → t.untag = u.untag ∨
    (∃ ts us, t.untag = .list ts ∧ u.untag = .list us ∧
      List.Forall₂ (fun t u => Reordered t u ∧ t.Distinct text?) ts us) ∨
    ∃ es ms fs, t.untag = .map es ∧ u.untag = .map fs ∧ KeysDiffer text? es ∧
      List.Forall₂ (fun e m => e.1 = m.1 ∧ Reordered e.2 m.2 ∧ e.2.Distinct text?) es ms ∧ ms.Perm fs
  | _, _, .same t, _ => .inl rfl
  | _, _, .list h, hd => .inr (.inl ⟨_, _, rfl, rfl, forall₂_of_reorderedItems h hd⟩)
  | _, _, .map h hp, hd => .inr (.inr ⟨_, _, _, rfl, rfl, hd.1, forall₂_of_reorderedEntries h hd.2, hp⟩)
  | _, _, .tagged _ h, hd => by simpa only [untag] using h.untag_cases hd

theorem Reordered.eq_null_iff {t u : Tree} (h : Reordered t u) : t = .null ↔ u = .null := by
  cases h <;> simp

/-- Where keys differ, so do their texts. -/
theorem nodup_texts {α : Type} {es : List (Tree × Tree)} (hd : KeysDiffer text? es) {rows : List (String × α)}
    (h : List.Forall₂ (fun e row => text? e.1 = some row.1) es rows) : (rows.map (·.1)).Nodup := by
  induction h with
  | nil => simp
  | @cons e row es rows he hrest ih =>
    obtain ⟨hne, hd⟩ := List.pairwise_cons.1 hd
    refine List.nodup_cons.2 ⟨?_, ih hd⟩
    intro hmem
    obtain ⟨row', hrow', hname : row'.1 = row.1⟩ := List.mem_map.1 hmem
    obtain ⟨e', he', htext⟩ := exists_of_forall₂_right hrest hrow'
    exact hne e' he' _ he (hname ▸ htext)

end Sees

/-! ## The JSON value of a reordered tree -/

theorem toJsonEntries?_eq_some_iff (es : List (Tree × Tree)) (rows : List (String × Json)) :
    toJsonEntries? es = some rows ↔
      List.Forall₂ (fun e row => e.1.keyText? = some row.1 ∧ e.2.toJson? = some row.2) es rows := by
  induction es generalizing rows with
  | nil => simp [toJsonEntries?, eq_comm]
  | cons e es ih =>
    obtain ⟨k, v⟩ := e
    simp only [toJsonEntries?, List.forall₂_cons_left_iff, ← ih, Option.bind_eq_bind, Option.bind_eq_some_iff,
      Option.pure_def, Option.some.injEq]
    constructor
    · rintro ⟨s, hs, x, hx, rest, hrest, rfl⟩
      exact ⟨(s, x), rest, ⟨hs, hx⟩, hrest, rfl⟩
    · rintro ⟨row, rest, ⟨hs, hx⟩, hrest, rfl⟩
      exact ⟨row.1, hs, row.2, hx, rest, hrest, rfl⟩

theorem toJsonEntries?_perm {es fs : List (Tree × Tree)} {rows : List (String × Json)}
    (h : toJsonEntries? es = some rows) (hn : (rows.map (·.1)).Nodup) (hp : es.Perm fs) :
    ∃ rows', toJsonEntries? fs = some rows' ∧ NameTable.ofList rows' = .ofList rows := by
  obtain ⟨rows', hrows, hperm⟩ := forall₂_perm ((toJsonEntries?_eq_some_iff es rows).1 h) hp
  exact ⟨rows', (toJsonEntries?_eq_some_iff fs rows').2 hrows, (NameTable.ofList_perm hperm hn).symm⟩

theorem toJsonEntries?_eq_none_of_perm {es fs : List (Tree × Tree)} (h : toJsonEntries? es = none) (hp : es.Perm fs) :
    toJsonEntries? fs = none := by
  refine Option.eq_none_iff_forall_ne_some.2 fun rows hfs => ?_
  obtain ⟨rows', hes, -⟩ := forall₂_perm ((toJsonEntries?_eq_some_iff fs rows).1 hfs) hp.symm
  rw [(toJsonEntries?_eq_some_iff es rows').2 hes] at h
  exact nomatch h

mutual

/-- Reordered trees have the same JSON value. -/
theorem toJson?_reordered : ∀ {t u : Tree}, Reordered t u → t.Distinct keyText? → t.toJson? = u.toJson?
  | _, _, .same t, _ => rfl
  | _, _, .list h, hd => by rw [toJson?, toJson?, toJsonItems?_reordered h hd]
  | _, _, @Reordered.map es ms fs h hp, hd => by
    have hems := toJsonEntries?_reordered h hd.2
    rw [toJson?, toJson?, hems]
    cases hms : toJsonEntries? ms with
    | none => rw [toJsonEntries?_eq_none_of_perm hms hp]
    | some rows =>
      -- The names differ because the keys of `es` do; those of `ms` are the same keys.
      have hes := (toJsonEntries?_eq_some_iff es rows).1 (hems.trans hms)
      have hn := nodup_texts hd.1 (hes.imp fun _ _ he => he.1)
      obtain ⟨rows', hfs, hrows⟩ := toJsonEntries?_perm hms hn hp
      rw [hfs, Option.map_some, Option.map_some, hrows]
  | _, _, .tagged _ h, hd => by rw [toJson?, toJson?, toJson?_reordered h hd]

theorem toJsonItems?_reordered : ∀ {ts us : List Tree}, ReorderedItems ts us → DistinctItems keyText? ts →
    toJsonItems? ts = toJsonItems? us
  | _, _, .nil, _ => rfl
  | _, _, .cons h hs, hd => by
    rw [toJsonItems?, toJsonItems?, toJson?_reordered h hd.1, toJsonItems?_reordered hs hd.2]

theorem toJsonEntries?_reordered : ∀ {es ms : List (Tree × Tree)}, ReorderedEntries es ms →
    DistinctEntries keyText? es → toJsonEntries? es = toJsonEntries? ms
  | _, _, .nil, _ => rfl
  | _, _, .cons k h hs, hd => by
    rw [toJsonEntries?, toJsonEntries?, toJson?_reordered h hd.1, toJsonEntries?_reordered hs hd.2]

end

end Preflight.Tree

namespace Preflight

open Preflight.Tree

/-! ## Order free readers -/

/-- The reader gives the same value for trees that differ only in the order of entries. -/
def OrderFree {α : Type} (read : Read α) : Prop :=
  ∀ d t u, Reordered t u → t.Distinct name? → ∀ a, read d t = .ok a ↔ read d u = .ok a

theorem forall₂_congr {α β γ : Type} {R : α → γ → Prop} {S : β → γ → Prop} {l : List α} {m : List β}
    (h : List.Forall₂ (fun a b => ∀ c, R a c ↔ S b c) l m) (cs : List γ) :
    List.Forall₂ R l cs ↔ List.Forall₂ S m cs := by
  induction h generalizing cs with
  | nil => simp
  | cons hab _ ih => simp only [List.forall₂_cons_left_iff, hab, ih]

theorem orderFree_readText : OrderFree readText := by
  intro d t u h hd s
  simp only [readText_eq_ok_iff]
  rcases h.untag_cases hd with heq | ⟨ts, us, ht, hu, -⟩ | ⟨es, ms, fs, ht, hu, -, -⟩
  · rw [heq]
  · simp [ht, hu]
  · simp [ht, hu]

theorem orderFree_readName : OrderFree readName := by
  intro d t u h _ s
  simp only [readName_eq_ok_iff]
  cases h <;> simp [scalarText?]

theorem orderFree_readOption {α : Type} {read : Read α} (hread : OrderFree read) : OrderFree (readOption read) := by
  intro d t u h hd o
  by_cases ht : t = .null
  · obtain rfl := ht
    obtain rfl := h.eq_null_iff.1 rfl
    rfl
  · have hu : u ≠ .null := fun hu => ht (h.eq_null_iff.2 hu)
    simp only [readOption_of_ne read d ht, readOption_of_ne read d hu, map_eq_ok_iff, hread d t u h hd]

theorem orderFree_map {α β : Type} {read : Read α} (hread : OrderFree read) (f : α → β) :
    OrderFree fun d t => (read d t).map f := by
  intro d t u h hd b
  simp only [map_eq_ok_iff, hread d t u h hd]

theorem orderFree_readNameSet : OrderFree readNameSet := by
  intro d t u h hd s
  simp only [readNameSet, readItems, bind_eq_ok_iff]
  rcases h.untag_cases hd with heq | ⟨ts, us, ht, hu, hitems⟩ | ⟨es, ms, fs, ht, hu, -, -⟩
  · rw [heq]
  · have hnames : ∀ names, ts.mapM (readName d) = .ok names ↔ us.mapM (readName d) = .ok names := by
      simp only [mapM_eq_ok_iff]
      exact forall₂_congr (hitems.imp fun t u htu => orderFree_readName d t u htu.1 htu.2)
    simp [ht, hu, hnames]
  · simp [ht, hu, fail]

/-! ## Tables -/

/-- The reader of keys gives a key its text. -/
def ReadsName (readKey : Read String) : Prop :=
  ∀ d k s, readKey d k = .ok s → name? k = some s

theorem readsName_readText : ReadsName readText := by
  intro d k s h
  rcases (readText_eq_ok_iff d k s).1 h with h | h <;> simp [name?, h, scalarText?]

theorem readsName_readName : ReadsName readName := by
  intro d k s h
  obtain ⟨htag, htext⟩ := (readName_eq_ok_iff d k s).1 h
  have huntag : k.untag = k := by
    cases k <;> simp_all [untag, hasTag]
  rw [name?, huntag, htext]

theorem readsName_of {readKey : Read String} (h : readKey = readText ∨ readKey = readName) : ReadsName readKey := by
  rcases h with rfl | rfl
  · exact readsName_readText
  · exact readsName_readName

theorem nodup_rows {α : Type} {readKey : Read String} (hkey : ReadsName readKey) {read : Read α} {d : Dialect}
    {es : List (Tree × Tree)} (hd : KeysDiffer name? es) {rows : List (String × α)}
    (h : List.Forall₂ (Row readKey read d) es rows) : (rows.map (·.1)).Nodup :=
  nodup_texts hd (h.imp fun e _ he => hkey d e.1 _ he.1)

theorem readTable_of_map {α : Type} {readKey : Read String} {read : Read α} {d : Dialect} {t : Tree}
    {es : List (Tree × Tree)} (ht : t.untag = .map es) (table : NameTable α) :
    readTable readKey read d t = .ok table ↔
      ∃ rows, List.Forall₂ (Row readKey read d) es rows ∧ table = .ofList rows := by
  simp [readTable_eq_ok_iff, readPairs, ht]

/-- Maps are read as one table if their entries are read as the same rows, but for their order. -/
theorem readTable_perm {α : Type} {readKey : Read String} (hkey : ReadsName readKey) {read : Read α} {d : Dialect}
    {t u : Tree} {es ms fs : List (Tree × Tree)} (ht : t.untag = .map es) (hu : u.untag = .map fs)
    (hkeys : KeysDiffer name? es)
    (hrows : ∀ rows, List.Forall₂ (Row readKey read d) es rows ↔ List.Forall₂ (Row readKey read d) ms rows)
    (hp : ms.Perm fs) (table : NameTable α) :
    readTable readKey read d t = .ok table ↔ readTable readKey read d u = .ok table := by
  rw [readTable_of_map ht, readTable_of_map hu]
  constructor
  · rintro ⟨rows, hes, rfl⟩
    obtain ⟨rows', hfs, hperm⟩ := forall₂_perm ((hrows rows).1 hes) hp
    exact ⟨rows', hfs, NameTable.ofList_perm hperm (nodup_rows hkey hkeys hes)⟩
  · rintro ⟨rows', hfs, rfl⟩
    obtain ⟨rows, hms, hperm⟩ := forall₂_perm hfs hp.symm
    have hes := (hrows rows).2 hms
    exact ⟨rows, hes, (NameTable.ofList_perm hperm.symm (nodup_rows hkey hkeys hes)).symm⟩

theorem orderFree_readTable {α : Type} {readKey : Read String} (hkey : ReadsName readKey) {read : Read α}
    (hread : OrderFree read) : OrderFree (readTable readKey read) := by
  intro d t u h hd table
  rcases h.untag_cases hd with heq | ⟨ts, us, ht, hu, -⟩ | ⟨es, ms, fs, ht, hu, hkeys, hvalues, hp⟩
  · simp only [readTable, readPairs, heq]
  · simp [readTable_eq_ok_iff, readPairs, ht, hu, fail]
  · refine readTable_perm hkey ht hu hkeys (forall₂_congr (hvalues.imp ?_)) hp table
    rintro ⟨k, v⟩ ⟨_, w⟩ ⟨rfl, hvw, hdv⟩ row
    rw [Row, Row, hread d v w hvw hdv]

/-! ## Records -/

section Records
variable {σ : Type} {slots : List (Slot σ)}

theorem readPositions_congr (hslots : ∀ slot ∈ slots, OrderFree slot.read) (d : Dialect) {ts us : List Tree}
    (h : List.Forall₂ (fun t u => Reordered t u ∧ t.Distinct name?) ts us) (start r : σ) :
    readPositions d slots ts start = .ok r ↔ readPositions d slots us start = .ok r := by
  induction slots generalizing ts us start with
  | nil => simp [readPositions]
  | cons slot slots ih =>
    cases h with
    | nil => rfl
    | cons htu hrest =>
      have hslot := hslots slot (by simp) d _ _ htu.1 htu.2
      simp only [readPositions, bind_eq_ok_iff, hslot, ih (fun s hs => hslots s (by simp [hs])) hrest]

theorem gives_congr {d : Dialect} {k v l w : Tree}
    (hkey : ∀ key, readFieldName d k = .ok key ↔ readFieldName d l = .ok key)
    (hvalue : ∀ slot ∈ slots, ∀ f, slot.read d v = .ok f ↔ slot.read d w = .ok f) (g : Option (String × (σ → σ))) :
    Gives slots d (k, v) g ↔ Gives slots d (l, w) g := by
  constructor
  · rintro (⟨hk, hslot⟩ | ⟨hk, hslot, hv⟩)
    · exact .nothing ((hkey _).1 hk) hslot
    · exact .change ((hkey _).1 hk) hslot ((hvalue _ (List.mem_of_find?_eq_some hslot) _).1 hv)
  · rintro (⟨hl, hslot⟩ | ⟨hl, hslot, hw⟩)
    · exact .nothing ((hkey _).2 hl) hslot
    · exact .change ((hkey _).2 hl) hslot ((hvalue _ (List.mem_of_find?_eq_some hslot) _).2 hw)

/-- Entries that give a record the same are read alike. -/
theorem readEntries_congr {d : Dialect} {es ms : List (Tree × Tree)}
    (h : List.Forall₂ (fun e m => ∀ g, Gives slots d e g ↔ Gives slots d m g) es ms) (seen : List String)
    (start r : σ) : readEntries slots d seen es start = .ok r ↔ readEntries slots d seen ms start = .ok r := by
  simp only [readEntries_eq_ok_iff]
  exact exists_congr fun given => and_congr_left fun _ => forall₂_congr h given

theorem orderFree_readRecord (hslots : ∀ slot ∈ slots, OrderFree slot.read) (hi : slots.Pairwise Slot.Independent)
    (title : String) (start : σ) : OrderFree (readRecord title slots start) := by
  intro d t u h hd r
  unfold readRecord
  rcases h.untag_cases hd with heq | ⟨ts, us, ht, hu, hitems⟩ | ⟨es, ms, fs, ht, hu, -, hvalues, hp⟩
  · rw [heq]
  · simp only [ht, hu]
    split
    · simp only [bind_eq_ok_iff, readPositions_congr hslots d hitems, hitems.length_eq]
    · simp [fail]
  · have hgives : List.Forall₂ (fun e m => ∀ g, Gives slots d e g ↔ Gives slots d m g) es ms := by
      refine hvalues.imp ?_
      rintro ⟨k, v⟩ ⟨_, w⟩ ⟨rfl, hvw, hdv⟩
      exact gives_congr (fun _ => .rfl) fun slot hslot => hslots slot hslot d v w hvw hdv
    simp only [ht, hu]
    rw [readEntries_congr hgives]
    exact ⟨readEntries_perm hi hp, readEntries_perm hi hp.symm⟩

end Records

end Preflight
