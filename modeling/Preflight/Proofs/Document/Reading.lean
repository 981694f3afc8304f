import Mathlib.Data.List.Forall2
import Mathlib.Data.List.Pairwise
import Mathlib.Data.List.Perm.Basic
import Preflight.Document.Read
import Preflight.Proofs.Names.OfList
/-!
# When reading succeeds

One statement for each reader of a compound value. `readTable_eq_ok_iff`: a
table is read if each of its entries is. `readEntries_eq_ok_iff`: a record is
read if each of its entries is and no field is given twice. Neither condition
looks at the order of the entries, hence `readEntries_perm` and `forall₂_perm`.
-/

namespace Preflight

/-! ## Steps that succeed -/

section Steps
variable {ε α β : Type}

theorem bind_eq_ok_iff (x : Except ε α) (f : α → Except ε β) (b : β) :
    (x >>= f) = .ok b ↔ ∃ a, x = .ok a ∧ f a = .ok b := by
  cases x <;> simp [bind, Except.bind]

theorem map_eq_ok_iff (x : Except ε α) (f : α → β) (b : β) : x.map f = .ok b ↔ ∃ a, x = .ok a ∧ f a = b := by
  cases x <;> simp [Except.map]

theorem toOption_eq_some_iff (x : Except ε α) (a : α) : x.toOption = some a ↔ x = .ok a := by
  cases x <;> simp [Except.toOption]

theorem inEntry_eq_ok_iff (name : String) (x : Except Fault α) (a : α) : inEntry name x = .ok a ↔ x = .ok a := by
  cases x <;> simp [inEntry, Except.mapError]

theorem mapM_eq_ok_iff (f : α → Except ε β) (l : List α) (bs : List β) :
    l.mapM f = .ok bs ↔ List.Forall₂ (fun a b => f a = .ok b) l bs := by
  induction l generalizing bs with
  | nil => simp [pure, Except.pure, eq_comm]
  | cons a l ih =>
    simp only [List.mapM_cons, bind_eq_ok_iff, ih, List.forall₂_cons_left_iff]
    constructor
    · rintro ⟨b, hb, bs', hbs, h⟩
      cases h
      exact ⟨b, bs', hb, hbs, rfl⟩
    · rintro ⟨b, bs', hb, hbs, rfl⟩
      exact ⟨b, hb, bs', hbs, rfl⟩

theorem mem_iff_of_mapM {f : α → Except ε β} {l : List α} {bs : List β} (h : l.mapM f = .ok bs) (b : β) :
    b ∈ bs ↔ ∃ a ∈ l, f a = .ok b := by
  rw [mapM_eq_ok_iff] at h
  induction h with
  | nil => simp
  | cons hab _ ih => simp [ih, hab, eq_comm]

/-- A list is read if each of its items is. -/
theorem exists_mapM_iff (f : α → Except ε β) (l : List α) :
    (∃ bs, l.mapM f = .ok bs) ↔ ∀ a ∈ l, ∃ b, f a = .ok b := by
  induction l with
  | nil => simp [pure, Except.pure]
  | cons a l ih =>
    simp only [List.forall_mem_cons, ← ih, mapM_eq_ok_iff, List.forall₂_cons_left_iff]
    constructor
    · rintro ⟨_, b, bs, hb, hbs, rfl⟩
      exact ⟨⟨b, hb⟩, bs, hbs⟩
    · rintro ⟨⟨b, hb⟩, bs, hbs⟩
      exact ⟨_, b, bs, hb, hbs, rfl⟩

theorem exists_of_forall₂_right {R : α → β → Prop} {l : List α} {bs : List β} (h : List.Forall₂ R l bs) {b : β}
    (hb : b ∈ bs) : ∃ a ∈ l, R a b := by
  induction h with
  | nil => simp at hb
  | cons hab _ ih =>
    rcases List.mem_cons.1 hb with rfl | hb
    · exact ⟨_, by simp, hab⟩
    · obtain ⟨a, ha, hR⟩ := ih hb
      exact ⟨a, List.mem_cons_of_mem _ ha, hR⟩

/-- What is true of a list item by item is true of a rearrangement, with the items rearranged. -/
theorem forall₂_perm {R : α → β → Prop} {l l' : List α} {bs : List β} (h : List.Forall₂ R l bs) (hp : l.Perm l') :
    ∃ bs', List.Forall₂ R l' bs' ∧ bs.Perm bs' := by
  obtain ⟨bs', hbs, hperm⟩ := List.perm_comp_forall₂ hp.symm h
  exact ⟨bs', hbs, hperm.symm⟩

end Steps

/-! ## Scalars -/

theorem readText_eq_ok_iff (d : Dialect) (t : Tree) (s : String) :
    readText d t = .ok s ↔ t.untag = .text s ∨ t.untag = .date s := by
  unfold readText
  split <;> simp_all [fail]

theorem readFieldName_eq_ok_iff (d : Dialect) (t : Tree) (key : String) :
    readFieldName d t = .ok key ↔ t.untag = .text key := by
  unfold readFieldName
  split <;> simp_all [fail]

theorem readOption_of_ne {α : Type} (read : Read α) (d : Dialect) {t : Tree} (h : t ≠ .null) :
    readOption read d t = (read d t).map some := by
  cases t <;> first | rfl | exact absurd rfl h

theorem read_of_readOption {α : Type} {read : Read α} {d : Dialect} {t : Tree} {a : α}
    (h : readOption read d t = .ok (some a)) : read d t = .ok a := by
  by_cases ht : t = .null
  · obtain rfl := ht
    exact nomatch h
  · rw [readOption_of_ne read d ht, map_eq_ok_iff] at h
    obtain ⟨_, h, heq⟩ := h
    cases heq
    exact h

theorem readName_eq_ok_iff (d : Dialect) (t : Tree) (s : String) :
    readName d t = .ok s ↔ t.hasTag = false ∧ t.scalarText? = some s := by
  unfold readName
  split
  · simp_all [fail]
  · split <;> simp_all [fail]

/-! ## Tables -/

section Tables
variable {α : Type} (readKey : Read String) (read : Read α) (d : Dialect)

/-- The entry of a tree is read as the entry of a table. -/
def Row (e : Tree × Tree) (row : String × α) : Prop :=
  readKey d e.1 = .ok row.1 ∧ read d e.2 = .ok row.2

theorem readPair_eq_ok_iff (e : Tree × Tree) (row : String × α) :
    readPair readKey read d e = .ok row ↔ Row readKey read d e row := by
  obtain ⟨name, value⟩ := row
  simp only [readPair, bind_eq_ok_iff, inEntry_eq_ok_iff, pure, Except.pure, Row]
  constructor
  · rintro ⟨_, hk, _, hv, h⟩
    cases h
    exact ⟨hk, hv⟩
  · rintro ⟨hk, hv⟩
    exact ⟨name, hk, value, hv, rfl⟩

/-- A map is read as the table of its rows. -/
theorem readTable_eq_ok_iff (t : Tree) (table : NameTable α) :
    readTable readKey read d t = .ok table ↔
      ∃ es rows, readPairs d t = .ok es ∧ List.Forall₂ (Row readKey read d) es rows ∧ table = .ofList rows := by
  simp only [readTable, bind_eq_ok_iff, mapM_eq_ok_iff, readPair_eq_ok_iff, pure, Except.pure, Except.ok.injEq]
  constructor
  · rintro ⟨es, hes, rows, hrows, rfl⟩
    exact ⟨es, rows, hes, hrows, rfl⟩
  · rintro ⟨es, rows, hes, hrows, rfl⟩
    exact ⟨es, hes, rows, hrows, rfl⟩

/-- Every value of a map that is read as a table is read. -/
theorem exists_read_of_readTable {t : Tree} {table : NameTable α} (h : readTable readKey read d t = .ok table)
    {es : List (Tree × Tree)} (hes : readPairs d t = .ok es) {e : Tree × Tree} (he : e ∈ es) :
    ∃ a, read d e.2 = .ok a := by
  obtain ⟨es', rows, hes', hrows, -⟩ := (readTable_eq_ok_iff readKey read d t table).1 h
  obtain rfl := Except.ok.inj (hes.symm.trans hes')
  obtain ⟨row, -, hrow⟩ := exists_of_forall₂_right hrows.flip he
  exact ⟨row.2, hrow.2⟩

/-- Every value of a table was read. -/
theorem read_of_mem_readTable {t : Tree} {table : NameTable α} (h : readTable readKey read d t = .ok table)
    {e : String × α} (he : e ∈ table.entries) : ∃ v, read d v = .ok e.2 := by
  obtain ⟨es, rows, -, hrows, rfl⟩ := (readTable_eq_ok_iff readKey read d t table).1 h
  have hmem := NameTable.mem_of_get?_ofList ((NameTable.get?_eq_some_iff _ e.1 e.2).2 he)
  obtain ⟨x, -, hx⟩ := exists_of_forall₂_right hrows hmem
  exact ⟨x.2, hx.2⟩

end Tables

/-! ## Records -/

section Records
variable {σ : Type} (slots : List (Slot σ)) (d : Dialect)

/-- What an entry gives a record: nothing if its key names no field, else a field and the change made to it. -/
inductive Gives : Tree × Tree → Option (String × (σ → σ)) → Prop
  | nothing {k v : Tree} {key : String} (hk : readFieldName d k = .ok key)
      (hslot : slots.find? (·.answers key) = none) : Gives (k, v) none
  | change {k v : Tree} {key : String} {slot : Slot σ} {f : σ → σ} (hk : readFieldName d k = .ok key)
      (hslot : slots.find? (·.answers key) = some slot) (hv : slot.read d v = .ok f) :
      Gives (k, v) (some (slot.name, f))

/-- The changes, one after the other. -/
def applyChanges (record : σ) (given : List (String × (σ → σ))) : σ :=
  given.foldl (fun r f => f.2 r) record

/-- No field is given twice, and none that was seen before. -/
def Once (seen : List String) (given : List (String × (σ → σ))) : Prop :=
  (given.map (·.1)).Nodup ∧ ∀ f ∈ given, f.1 ∉ seen

theorem once_cons (seen : List String) (f : String × (σ → σ)) (given : List (String × (σ → σ))) :
    Once seen (f :: given) ↔ f.1 ∉ seen ∧ Once (f.1 :: seen) given := by
  simp only [Once, List.map_cons, List.nodup_cons, List.mem_map, List.mem_cons, not_or]
  constructor
  · rintro ⟨⟨hne, hnd⟩, hseen⟩
    exact ⟨hseen f (.inl rfl), hnd, fun g hg => ⟨fun h => hne ⟨g, hg, h⟩, hseen g (.inr hg)⟩⟩
  · rintro ⟨hf, hnd, hall⟩
    refine ⟨⟨?_, hnd⟩, ?_⟩
    · rintro ⟨g, hg, h⟩
      exact (hall g hg).1 h
    · rintro g (rfl | hg)
      · exact hf
      · exact (hall g hg).2

/-- A record is read if every entry is and no field is given twice. -/
theorem readEntries_eq_ok_iff (seen : List String) (es : List (Tree × Tree)) (start r : σ) :
    readEntries slots d seen es start = .ok r ↔
      ∃ given, List.Forall₂ (Gives slots d) es given ∧ Once seen (given.filterMap id) ∧
        r = applyChanges start (given.filterMap id) := by
  induction es generalizing seen start with
  | nil => simp [readEntries, Once, applyChanges, eq_comm]
  | cons e es ih =>
    obtain ⟨k, v⟩ := e
    simp only [readEntries, bind_eq_ok_iff, List.forall₂_cons_left_iff]
    constructor
    · rintro ⟨key, hk, h⟩
      cases hslot : slots.find? (·.answers key) with
      | none =>
        rw [hslot] at h
        obtain ⟨given, hgiven, honce, rfl⟩ := (ih seen start).1 h
        exact ⟨none :: given, ⟨none, given, .nothing hk hslot, hgiven, rfl⟩, honce, rfl⟩
      | some slot =>
        simp only [hslot] at h
        by_cases hseen : slot.name ∈ seen
        · simp [hseen, fail] at h
        · rw [if_neg (by simpa using hseen), bind_eq_ok_iff] at h
          obtain ⟨f, hv, h⟩ := h
          obtain ⟨given, hgiven, honce, rfl⟩ := (ih _ _).1 h
          refine ⟨some (slot.name, f) :: given, ⟨_, _, .change hk hslot ?_, hgiven, rfl⟩, ?_, rfl⟩
          · exact (inEntry_eq_ok_iff _ _ _).1 hv
          · exact (once_cons seen (slot.name, f) _).2 ⟨hseen, honce⟩
    · rintro ⟨_, ⟨given, rest, hg, hrest, rfl⟩, honce, rfl⟩
      cases hg with
      | nothing hk hslot =>
        refine ⟨_, hk, ?_⟩
        rw [hslot]
        exact (ih seen start).2 ⟨rest, hrest, honce, rfl⟩
      | @change _ _ key slot f hk hslot hv =>
        obtain ⟨hseen, honce⟩ := (once_cons seen (slot.name, f) _).1 honce
        refine ⟨_, hk, ?_⟩
        simp only [hslot]
        rw [if_neg (by simpa using hseen), bind_eq_ok_iff]
        exact ⟨f, (inEntry_eq_ok_iff _ _ _).2 hv, (ih _ _).2 ⟨rest, hrest, honce, rfl⟩⟩

theorem readEntries_cons_eq_ok_iff (seen : List String) (k v : Tree) (es : List (Tree × Tree)) (start r : σ) :
    readEntries slots d seen ((k, v) :: es) start = .ok r ↔
      ∃ key, k.untag = .text key ∧
        ((slots.find? (·.answers key) = none ∧ readEntries slots d seen es start = .ok r) ∨
          ∃ slot f, slots.find? (·.answers key) = some slot ∧ slot.name ∉ seen ∧ slot.read d v = .ok f ∧
            readEntries slots d (slot.name :: seen) es (f start) = .ok r) := by
  rw [readEntries, bind_eq_ok_iff]
  simp only [readFieldName_eq_ok_iff]
  refine exists_congr fun key => and_congr_right fun _ => ?_
  cases slots.find? (·.answers key) with
  | none => simp
  | some slot =>
    by_cases hseen : slot.name ∈ seen
    · simp [hseen, fail]
    · simp [hseen, bind_eq_ok_iff, inEntry_eq_ok_iff]

section Given
variable {slots d}

/-- Every entry that is given for a field is read. -/
theorem exists_read_of_readEntries {seen : List String} {es : List (Tree × Tree)} {start r : σ}
    (h : readEntries slots d seen es start = .ok r) {e : Tree × Tree} (he : e ∈ es) {key : String}
    (hkey : e.1.untag = .text key) {slot : Slot σ} (hslot : slots.find? (·.answers key) = some slot) :
    ∃ f, slot.read d e.2 = .ok f := by
  obtain ⟨given, hgiven, -, -⟩ := (readEntries_eq_ok_iff slots d seen es start r).1 h
  obtain ⟨g, -, hg⟩ := exists_of_forall₂_right hgiven.flip he
  cases hg with
  | nothing hk hnone =>
    obtain rfl : key = _ := Tree.text.inj (hkey.symm.trans ((readFieldName_eq_ok_iff d _ _).1 hk))
    exact nomatch hslot.symm.trans hnone
  | change hk hsome hv =>
    obtain rfl : key = _ := Tree.text.inj (hkey.symm.trans ((readFieldName_eq_ok_iff d _ _).1 hk))
    obtain rfl := Option.some.inj (hslot.symm.trans hsome)
    exact ⟨_, hv⟩

/-- Every item that is given for a field is read. -/
theorem exists_read_of_readPositions {ts : List Tree} {start r : σ} (h : readPositions d slots ts start = .ok r)
    {i : Nat} {slot : Slot σ} (hslot : slots[i]? = some slot) {t : Tree} (ht : ts[i]? = some t) :
    ∃ f, slot.read d t = .ok f := by
  induction slots generalizing ts start i with
  | nil => simp at hslot
  | cons s slots ih =>
    cases ts with
    | nil => simp at ht
    | cons u ts =>
      obtain ⟨f, hf, hrest⟩ := (bind_eq_ok_iff _ _ _).1 h
      cases i with
      | zero =>
        cases hslot
        cases ht
        exact ⟨f, hf⟩
      | succ i => exact ih hrest hslot ht

end Given

/-! ## What every field keeps -/

/-- Whatever is read for the field, the change made to the record keeps the property. -/
def Slot.Keeps (P : σ → Prop) (slot : Slot σ) : Prop :=
  ∀ d t f, slot.read d t = .ok f → ∀ r, P r → P (f r)

theorem keeps_of {α : Type} {P : σ → Prop} {read : Read α} {put : α → σ → σ}
    (h : ∀ d t x, read d t = .ok x → ∀ r, P r → P (put x r)) (name : String) (others : List String) :
    (Slot.of name others read put).Keeps P := by
  intro d t f hf r hr
  obtain ⟨x, hx, rfl⟩ := (map_eq_ok_iff _ _ _).1 hf
  exact h d t x hx r hr

section Keeps
variable {P : σ → Prop} {slots d}

theorem readEntries_keeps (hslots : ∀ slot ∈ slots, slot.Keeps P) {seen : List String} {es : List (Tree × Tree)}
    {start r : σ} (hstart : P start) (h : readEntries slots d seen es start = .ok r) : P r := by
  induction es generalizing seen start with
  | nil =>
    cases h
    exact hstart
  | cons e es ih =>
    simp only [readEntries, bind_eq_ok_iff] at h
    obtain ⟨key, -, h⟩ := h
    cases hslot : slots.find? (·.answers key) with
    | none =>
      rw [hslot] at h
      exact ih hstart h
    | some slot =>
      simp only [hslot] at h
      split at h
      · exact nomatch h
      · obtain ⟨f, hf, h⟩ := (bind_eq_ok_iff _ _ _).1 h
        have hread := (inEntry_eq_ok_iff _ _ _).1 hf
        exact ih (hslots slot (List.mem_of_find?_eq_some hslot) d e.2 f hread start hstart) h

theorem readPositions_keeps (hslots : ∀ slot ∈ slots, slot.Keeps P) {ts : List Tree} {start r : σ} (hstart : P start)
    (h : readPositions d slots ts start = .ok r) : P r := by
  induction slots generalizing ts start with
  | nil =>
    cases h
    exact hstart
  | cons slot slots ih =>
    cases ts with
    | nil =>
      cases h
      exact hstart
    | cons t ts =>
      obtain ⟨f, hf, h⟩ := (bind_eq_ok_iff _ _ _).1 h
      have hslot := hslots slot (by simp) d t f hf start hstart
      exact ih (fun s hs => hslots s (by simp [hs])) hslot h

/-- What holds of the record in which no field is given, and is kept by every field, holds of what is read. -/
theorem readRecord_keeps (hslots : ∀ slot ∈ slots, slot.Keeps P) {title : String} {start r : σ} (hstart : P start)
    {t : Tree} (h : readRecord title slots start d t = .ok r) : P r := by
  unfold readRecord at h
  split at h
  · exact readEntries_keeps hslots hstart h
  · split at h <;> cases h
    exact hstart
  · split at h
    · obtain ⟨r', hr', h⟩ := (bind_eq_ok_iff _ _ _).1 h
      split at h <;> cases h
      exact readPositions_keeps hslots hstart hr'
    · exact nomatch h
  · exact nomatch h

end Keeps

/-! ## The order of a record's entries -/

/-- The changes of two fields can be made in either order. -/
def Slot.Independent (s s' : Slot σ) : Prop :=
  ∀ d t t' f f', s.read d t = .ok f → s'.read d t' = .ok f' → ∀ r, f (f' r) = f' (f r)

instance : Std.Symm (Slot.Independent (σ := σ)) where
  symm _ _ h d t t' f f' hf hf' r := (h d t' t f' f hf' hf r).symm

theorem independent_of {α β : Type} {name name' : String} {others others' : List String} {read : Read α}
    {read' : Read β} {put : α → σ → σ} {put' : β → σ → σ} (h : ∀ x y r, put x (put' y r) = put' y (put x r)) :
    (Slot.of name others read put).Independent (Slot.of name' others' read' put') := by
  intro d t t' f f' hf hf' r
  obtain ⟨x, -, rfl⟩ := (map_eq_ok_iff _ _ _).1 hf
  obtain ⟨y, -, rfl⟩ := (map_eq_ok_iff _ _ _).1 hf'
  exact h x y r

variable {slots d}

theorem exists_slot_of_gives {e : Tree × Tree} {f : String × (σ → σ)} (h : Gives slots d e (some f)) :
    ∃ slot ∈ slots, f.1 = slot.name ∧ slot.read d e.2 = .ok f.2 := by
  cases h with
  | change hk hslot hv => exact ⟨_, List.mem_of_find?_eq_some hslot, rfl, hv⟩

theorem mem_given {es : List (Tree × Tree)} {given : List (Option (String × (σ → σ)))}
    (h : List.Forall₂ (Gives slots d) es given) {f : String × (σ → σ)} (hf : f ∈ given.filterMap id) :
    ∃ e ∈ es, Gives slots d e (some f) := by
  obtain ⟨g, hg, rfl : g = some f⟩ := List.mem_filterMap.1 hf
  exact exists_of_forall₂_right h hg

/-- Changes of independent fields, none given twice, can be made in any order. -/
theorem applyChanges_perm (hi : slots.Pairwise Slot.Independent) {es : List (Tree × Tree)}
    {given : List (Option (String × (σ → σ)))} (h : List.Forall₂ (Gives slots d) es given) {seen : List String}
    (honce : Once seen (given.filterMap id)) {gs : List (String × (σ → σ))} (hp : (given.filterMap id).Perm gs)
    (start : σ) : applyChanges start (given.filterMap id) = applyChanges start gs := by
  refine hp.foldl_eq' ?_ start
  intro f hf g hg r
  by_cases heq : f = g
  · rw [heq]
  · obtain ⟨e, -, he⟩ := mem_given h hf
    obtain ⟨e', -, he'⟩ := mem_given h hg
    obtain ⟨s, hs, hname, hread⟩ := exists_slot_of_gives he
    obtain ⟨s', hs', hname', hread'⟩ := exists_slot_of_gives he'
    -- Two changes of one field would be one change, since no field is given twice.
    have hne : s ≠ s' := by
      rintro rfl
      exact heq (List.inj_on_of_nodup_map honce.1 hf hg (hname.trans hname'.symm))
    exact (hi.forall hs hs' hne d e.2 e'.2 f.2 g.2 hread hread' r).symm

theorem readEntries_perm (hi : slots.Pairwise Slot.Independent) {es fs : List (Tree × Tree)} (hp : es.Perm fs)
    {seen : List String} {start r : σ} (h : readEntries slots d seen es start = .ok r) :
    readEntries slots d seen fs start = .ok r := by
  obtain ⟨given, hgiven, honce, rfl⟩ := (readEntries_eq_ok_iff slots d seen es start r).1 h
  obtain ⟨given', hgiven', hperm⟩ := forall₂_perm hgiven hp
  have hp' := hperm.filterMap id
  have hchanges := applyChanges_perm hi hgiven honce hp' start
  refine (readEntries_eq_ok_iff slots d seen fs start _).2 ⟨given', hgiven', ?_, hchanges⟩
  exact ⟨(hp'.map _).nodup_iff.1 honce.1, fun f hf => honce.2 f (hp'.mem_iff.2 hf)⟩

end Records

end Preflight
