import Preflight.Proofs.Document.Agree
import Preflight.Proofs.Document.Reordered
import Preflight.Proofs.Document.ToJson
/-!
# Order and repetition

`Rearranged` relates trees that differ in the order of the entries of their
maps and in the order and number of the items of their lists. Where no list
stands for a record, a reader that is steady reads two such trees alike, if no
two keys of a map have the same text; readers made of steady ones are steady.
-/

namespace Preflight

namespace Json

mutual

/-- Values with the same objects, whatever stands in their arrays. -/
inductive Alike : Json → Json → Prop
  | same (v : Json) : Alike v v
  | array (vs ws : List Json) : Alike (.array vs) (.array ws)
  | object {es fs : List (String × Json)} (h : AlikeEntries es fs) : Alike (.object es) (.object fs)

/-- Entries with the same names, and values with the same objects. -/
inductive AlikeEntries : List (String × Json) → List (String × Json) → Prop
  | nil : AlikeEntries [] []
  | cons {v w : Json} {es fs : List (String × Json)} (name : String) (h : Alike v w) (hs : AlikeEntries es fs) :
      AlikeEntries ((name, v) :: es) ((name, w) :: fs)

end

theorem alikeEntries_of_forall₂ {es fs : List (String × Json)}
    (h : List.Forall₂ (fun e f => e.1 = f.1 ∧ Alike e.2 f.2) es fs) : AlikeEntries es fs := by
  induction h with
  | nil => exact .nil
  | @cons e f es fs hef _ ih =>
    obtain ⟨name, v⟩ := e
    obtain ⟨_, w⟩ := f
    obtain ⟨rfl, hvw⟩ := hef
    exact .cons name hvw ih

end Json

namespace Tree

mutual

/-- Trees that differ in the order of the entries of their maps, and in the order and number of the items of their
lists. -/
inductive Rearranged : Tree → Tree → Prop
  | same (t : Tree) : Rearranged t t
  | list {ts ms us : List Tree} (h : RearrangedItems ts ms) (hset : ∀ x, x ∈ ms ↔ x ∈ us) :
      Rearranged (.list ts) (.list us)
  | map {es ms fs : List (Tree × Tree)} (h : RearrangedEntries es ms) (hp : ms.Perm fs) :
      Rearranged (.map es) (.map fs)
  | tagged {t u : Tree} (tag : String) (h : Rearranged t u) : Rearranged (.tagged tag t) (.tagged tag u)

/-- Lists of trees that are, item by item, rearranged. -/
inductive RearrangedItems : List Tree → List Tree → Prop
  | nil : RearrangedItems [] []
  | cons {t u : Tree} {ts us : List Tree} (h : Rearranged t u) (hs : RearrangedItems ts us) :
      RearrangedItems (t :: ts) (u :: us)

/-- Entries whose keys and values are, one by one, rearranged. -/
inductive RearrangedEntries : List (Tree × Tree) → List (Tree × Tree) → Prop
  | nil : RearrangedEntries [] []
  | cons {k l v w : Tree} {es fs : List (Tree × Tree)} (hk : Rearranged k l) (h : Rearranged v w)
      (hs : RearrangedEntries es fs) : RearrangedEntries ((k, v) :: es) ((l, w) :: fs)

end

/-! ## What is left as it is -/

theorem Rearranged.eq_null_iff {t u : Tree} (h : Rearranged t u) : t = .null ↔ u = .null := by
  cases h <;> simp

theorem Rearranged.keyText?_eq {t u : Tree} (h : Rearranged t u) : t.keyText? = u.keyText? := by
  cases h <;> rfl

/-- Rearranged trees without their tags: the same tree, or rearranged lists or maps. -/
theorem Rearranged.untag_cases {t u : Tree} (h : Rearranged t u) : t.untag = u.untag ∨
    (∃ ts ms us, t.untag = .list ts ∧ u.untag = .list us ∧ RearrangedItems ts ms ∧ ∀ x, x ∈ ms ↔ x ∈ us) ∨
    ∃ es ms fs, t.untag = .map es ∧ u.untag = .map fs ∧ RearrangedEntries es ms ∧ ms.Perm fs := by
  induction t using untag.induct generalizing u with
  | case1 tag t ih =>
    cases h with
    | same => exact .inl rfl
    | tagged _ h => simpa only [untag] using ih h
  | case2 t htag =>
    cases h with
    | same => exact .inl rfl
    | list h hset => exact .inr (.inl ⟨_, _, _, rfl, rfl, h, hset⟩)
    | map h hp => exact .inr (.inr ⟨_, _, _, rfl, rfl, h, hp⟩)
    | tagged tag h => exact absurd rfl (htag tag _)

/-- What is neither a list nor a map is left as it is. -/
theorem Rearranged.untag_eq_iff {t u x : Tree} (h : Rearranged t u) (hlist : ∀ ts, .list ts ≠ x)
    (hmap : ∀ es, .map es ≠ x) : t.untag = x ↔ u.untag = x := by
  rcases h.untag_cases with heq | ⟨ts, ms, us, ht, hu, -⟩ | ⟨es, ms, fs, ht, hu, -⟩
  · rw [heq]
  · simp [ht, hu, hlist]
  · simp [ht, hu, hmap]

/-! ## What a reader sees -/

section Sees
variable {text? : Tree → Option String}

theorem forall₂_of_rearrangedItems : ∀ {ts us : List Tree}, RearrangedItems ts us → DistinctItems text? ts →
    List.Forall₂ (fun t u => Rearranged t u ∧ t.Distinct text?) ts us
  | _, _, .nil, _ => .nil
  | _, _, .cons h hs, hd => .cons ⟨h, hd.1⟩ (forall₂_of_rearrangedItems hs hd.2)

theorem forall₂_of_rearrangedEntries : ∀ {es ms : List (Tree × Tree)}, RearrangedEntries es ms →
    DistinctEntries text? es →
      List.Forall₂ (fun e m => Rearranged e.1 m.1 ∧ Rearranged e.2 m.2 ∧ e.2.Distinct text?) es ms
  | _, _, .nil, _ => .nil
  | _, _, .cons hk h hs, hd => .cons ⟨hk, h, hd.1⟩ (forall₂_of_rearrangedEntries hs hd.2)

theorem distinct_untag {t : Tree} (h : t.Distinct text?) : t.untag.Distinct text? := by
  induction t using untag.induct with
  | case1 _ _ ih => exact ih h
  | case2 t htag =>
    cases t with
    | tagged tag t => exact absurd rfl (htag tag t)
    | _ => exact h

/-- Where keys differ, rearranged trees without their tags are the same, or lists or maps of such trees. -/
theorem Rearranged.distinct_cases {t u : Tree} (h : Rearranged t u) (hd : t.Distinct text?) : t.untag = u.untag ∨
    (∃ ts ms us, t.untag = .list ts ∧ u.untag = .list us ∧
      List.Forall₂ (fun t m => Rearranged t m ∧ t.Distinct text?) ts ms ∧ ∀ x, x ∈ ms ↔ x ∈ us) ∨
    ∃ es ms fs, t.untag = .map es ∧ u.untag = .map fs ∧ KeysDiffer text? es ∧
      List.Forall₂ (fun e m => Rearranged e.1 m.1 ∧ Rearranged e.2 m.2 ∧ e.2.Distinct text?) es ms ∧ ms.Perm fs := by
  have hd := distinct_untag hd
  rcases h.untag_cases with heq | ⟨ts, ms, us, ht, hu, hitems, hset⟩ | ⟨es, ms, fs, ht, hu, hentries, hp⟩
  · exact .inl heq
  · rw [ht] at hd
    exact .inr (.inl ⟨ts, ms, us, ht, hu, forall₂_of_rearrangedItems hitems hd, hset⟩)
  · rw [ht] at hd
    exact .inr (.inr ⟨es, ms, fs, ht, hu, hd.1, forall₂_of_rearrangedEntries hentries hd.2, hp⟩)

end Sees

/-! ## The JSON value of a rearranged tree -/

theorem keyedItems_iff (ts : List Tree) : KeyedItems ts ↔ ∀ t ∈ ts, t.Keyed := by
  induction ts with
  | nil => simp [KeyedItems]
  | cons t ts ih => rw [KeyedItems, ih, List.forall_mem_cons]

theorem keyedEntries_iff (es : List (Tree × Tree)) : KeyedEntries es ↔ ∀ e ∈ es, e.1.IsKey ∧ e.2.Keyed := by
  induction es with
  | nil => simp [KeyedEntries]
  | cons e es ih => rw [KeyedEntries, ih, List.forall_mem_cons, and_assoc]

mutual

/-- Rearranged trees have a JSON value or none alike. -/
theorem keyed_rearranged : ∀ {t u : Tree}, Rearranged t u → (t.Keyed ↔ u.Keyed)
  | _, _, .same _ => .rfl
  | _, _, .list h hset => by
    rw [Keyed, Keyed, keyedItems_rearranged h, keyedItems_iff, keyedItems_iff]
    simp only [hset]
  | _, _, .map h hp => by
    rw [Keyed, Keyed, keyedEntries_rearranged h, keyedEntries_iff, keyedEntries_iff]
    simp only [hp.mem_iff]
  | _, _, .tagged _ h => by rw [Keyed, Keyed, keyed_rearranged h]

theorem keyedItems_rearranged : ∀ {ts us : List Tree}, RearrangedItems ts us → (KeyedItems ts ↔ KeyedItems us)
  | _, _, .nil => .rfl
  | _, _, .cons h hs => and_congr (keyed_rearranged h) (keyedItems_rearranged hs)

theorem keyedEntries_rearranged : ∀ {es ms : List (Tree × Tree)}, RearrangedEntries es ms →
    (KeyedEntries es ↔ KeyedEntries ms)
  | _, _, .nil => .rfl
  | _, _, .cons hk h hs => by
    rw [KeyedEntries, KeyedEntries, ← isSome_keyText?_iff, ← isSome_keyText?_iff, hk.keyText?_eq, keyed_rearranged h,
      keyedEntries_rearranged hs]

end

mutual

/-- Rearranged trees have JSON values with the same objects. -/
theorem alike_toJson? : ∀ {t u : Tree}, Rearranged t u → t.Distinct keyText? → ∀ {v w : Json}, t.toJson? = some v →
    u.toJson? = some w → v.Alike w
  | _, _, .same t, _, v, w, hv, hw => by
    obtain rfl := Option.some.inj (hv.symm.trans hw)
    exact .same v
  | _, _, .list _ _, _, _, _, hv, hw => by
    obtain ⟨vs, -, rfl⟩ := Option.map_eq_some_iff.1 hv
    obtain ⟨ws, -, rfl⟩ := Option.map_eq_some_iff.1 hw
    exact .array vs ws
  | _, _, @Rearranged.map es ms fs h hp, hd, _, _, hv, hw => by
    obtain ⟨rows, hrows, rfl⟩ := Option.map_eq_some_iff.1 hv
    obtain ⟨rows', hfs, rfl⟩ := Option.map_eq_some_iff.1 hw
    -- The rows of `fs` are those of `ms` in another order, and these go with the rows of `es` one by one.
    obtain ⟨found, hms, hperm⟩ := forall₂_perm ((toJsonEntries?_eq_some_iff fs rows').1 hfs) hp.symm
    have halike := alike_toJsonEntries? h hd.2 hrows ((toJsonEntries?_eq_some_iff ms found).2 hms)
    have hnames : rows.map (·.1) = found.map (·.1) := by
      rw [← List.forall₂_eq_eq_eq, List.forall₂_map_left_iff, List.forall₂_map_right_iff]
      exact halike.imp fun _ _ hab => hab.1
    have hn := nodup_texts hd.1 (((toJsonEntries?_eq_some_iff es rows).1 hrows).imp fun _ _ he => he.1)
    rw [hnames] at hn
    rw [← NameTable.ofList_perm hperm.symm hn]
    exact .object (Json.alikeEntries_of_forall₂ (rel_ofList halike))
  | _, _, .tagged tag h, hd, _, _, hv, hw => by
    obtain ⟨v, hvalue, rfl⟩ := Option.map_eq_some_iff.1 hv
    obtain ⟨w, hvalue', rfl⟩ := Option.map_eq_some_iff.1 hw
    exact .object (.cons _ (alike_toJson? h hd hvalue hvalue') .nil)

theorem alike_toJsonEntries? : ∀ {es ms : List (Tree × Tree)}, RearrangedEntries es ms → DistinctEntries keyText? es →
    ∀ {rows rows' : List (String × Json)}, toJsonEntries? es = some rows → toJsonEntries? ms = some rows' →
      List.Forall₂ (fun a b => a.1 = b.1 ∧ Json.Alike a.2 b.2) rows rows'
  | _, _, .nil, _, _, _, rfl, rfl => .nil
  | _, _, .cons hk h hs, hd, rows, rows', hrows, hrows' => by
    rw [toJsonEntries?_eq_some_iff] at hrows hrows'
    cases hrows with
    | cons he hes =>
      cases hrows' with
      | cons hm hms =>
        refine .cons ⟨?_, alike_toJson? h hd.1 he.2 hm.2⟩ (alike_toJsonEntries? hs hd.2 ?_ ?_)
        · exact Option.some.inj (he.1.symm.trans (hk.keyText?_eq.trans hm.1))
        · exact (toJsonEntries?_eq_some_iff _ _).2 hes
        · exact (toJsonEntries?_eq_some_iff _ _).2 hms

end

end Tree

open Preflight.Tree

/-! ## Steady readers -/

/-- Where no list stands for a record, the reader gives the same value for trees that differ in order and in how often
an item comes in a list. -/
def Steady {α : Type} (read : Read α) : Prop :=
  ∀ d, d.listIsRecord = false → ∀ t u, Rearranged t u → t.Distinct name? → ∀ a, read d t = .ok a ↔ read d u = .ok a

section Scalars
variable (d : Dialect) {t u : Tree} (h : Rearranged t u)
include h

theorem readText_rearranged (s : String) : readText d t = .ok s ↔ readText d u = .ok s := by
  have htext := h.untag_eq_iff (x := .text s) (by simp) (by simp)
  have hdate := h.untag_eq_iff (x := .date s) (by simp) (by simp)
  rw [readText_eq_ok_iff, readText_eq_ok_iff, htext, hdate]

theorem readFieldName_rearranged (s : String) : readFieldName d t = .ok s ↔ readFieldName d u = .ok s := by
  rw [readFieldName_eq_ok_iff, readFieldName_eq_ok_iff, h.untag_eq_iff (by simp) (by simp)]

theorem readName_rearranged (s : String) : readName d t = .ok s ↔ readName d u = .ok s := by
  rw [readName_eq_ok_iff, readName_eq_ok_iff]
  cases h with
  | same => rfl
  | list | map => simp [scalarText?]
  | tagged => simp [hasTag]

end Scalars

theorem steady_readText : Steady readText :=
  fun d _ _ _ h _ => readText_rearranged d h

theorem steady_readOption {α : Type} {read : Read α} (hread : Steady read) : Steady (readOption read) := by
  intro d hd t u h hdistinct o
  by_cases ht : t = .null
  · obtain rfl := ht
    obtain rfl := h.eq_null_iff.1 rfl
    rfl
  · have hu : u ≠ .null := fun hu => ht (h.eq_null_iff.2 hu)
    simp only [readOption_of_ne read d ht, readOption_of_ne read d hu, map_eq_ok_iff, hread d hd t u h hdistinct]

theorem steady_map {α β : Type} {read : Read α} (hread : Steady read) (f : α → β) :
    Steady fun d t => (read d t).map f := by
  intro d hd t u h hdistinct b
  simp only [map_eq_ok_iff, hread d hd t u h hdistinct]

/-! ### Sets -/

/-- What is true of one of the items, or of all of them, is true in whatever order they come, and however often. -/
theorem mem_rearranged {ts ms us : List Tree} (h : List.Forall₂ Rearranged ts ms) (hset : ∀ x, x ∈ ms ↔ x ∈ us)
    {p : Tree → Prop} (hp : ∀ t m, Rearranged t m → (p t ↔ p m)) :
    ((∃ x ∈ ts, p x) ↔ ∃ x ∈ us, p x) ∧ ((∀ x ∈ ts, p x) ↔ ∀ x ∈ us, p x) := by
  simp only [← hset]
  clear hset
  induction h with
  | nil => simp
  | cons htm _ ih => simp only [List.exists_mem_cons_iff, List.forall_mem_cons, hp _ _ htm, ih, and_self]

/-- Items are read as the set of their names, if each has one. -/
theorem readNameSet_of_list {d : Dialect} {t : Tree} {ts : List Tree} (ht : t.untag = .list ts) (s : NameSet) :
    readNameSet d t = .ok s ↔
      (∀ x ∈ ts, ∃ name, readName d x = .ok name) ∧ ∀ name, name ∈ s ↔ ∃ x ∈ ts, readName d x = .ok name := by
  simp only [readNameSet, readItems, ht, bind_eq_ok_iff, Except.ok.injEq, pure, Except.pure, exists_eq_left']
  rw [← exists_mapM_iff]
  constructor
  · rintro ⟨names, hnames, rfl⟩
    exact ⟨⟨names, hnames⟩, fun name => NameSet.mem_ofList.trans (mem_iff_of_mapM hnames name)⟩
  · rintro ⟨⟨names, hnames⟩, hs⟩
    refine ⟨names, hnames, NameSet.ext_mem fun name => ?_⟩
    rw [NameSet.mem_ofList, mem_iff_of_mapM hnames, hs]

theorem steady_readNameSet : Steady readNameSet := by
  intro d _ t u h hdistinct s
  rcases h.distinct_cases hdistinct with heq | ⟨ts, ms, us, ht, hu, hitems, hset⟩ | ⟨es, ms, fs, ht, hu, -⟩
  · simp only [readNameSet, readItems, heq]
  · have hitems : List.Forall₂ Rearranged ts ms := hitems.imp fun _ _ htm => htm.1
    have hname (name : String) := (mem_rearranged hitems hset fun _ _ htm => readName_rearranged d htm name).1
    have hall := (mem_rearranged hitems hset fun _ _ htm => exists_congr (readName_rearranged d htm)).2
    simp only [readNameSet_of_list ht, readNameSet_of_list hu, hname, hall]
  · simp [readNameSet, readItems, ht, hu, bind_eq_ok_iff, fail]

/-! ### Tables and records -/

theorem steady_readTable {α : Type} {readKey : Read String} (hkey : readKey = readText ∨ readKey = readName)
    {read : Read α} (hread : Steady read) : Steady (readTable readKey read) := by
  intro d hd t u h hdistinct table
  have hkeys {k l : Tree} (hkl : Rearranged k l) (s : String) : readKey d k = .ok s ↔ readKey d l = .ok s := by
    rcases hkey with rfl | rfl
    · exact readText_rearranged d hkl s
    · exact readName_rearranged d hkl s
  rcases h.distinct_cases hdistinct with heq | ⟨ts, ms, us, ht, hu, -⟩ | ⟨es, ms, fs, ht, hu, hdiffer, hentries, hp⟩
  · simp only [readTable, readPairs, heq]
  · simp [readTable_eq_ok_iff, readPairs, ht, hu, fail]
  · refine readTable_perm (readsName_of hkey) ht hu hdiffer (forall₂_congr (hentries.imp ?_)) hp table
    rintro ⟨k, v⟩ ⟨l, w⟩ ⟨hkl, hvw, hdv⟩ row
    rw [Row, Row, hkeys hkl, hread d hd v w hvw hdv]

theorem steady_readRecord {σ : Type} {slots : List (Slot σ)} (hslots : ∀ slot ∈ slots, Steady slot.read)
    (hi : slots.Pairwise Slot.Independent) (title : String) (start : σ) : Steady (readRecord title slots start) := by
  intro d hd t u h hdistinct r
  unfold readRecord
  rcases h.distinct_cases hdistinct with heq | ⟨ts, ms, us, ht, hu, -⟩ | ⟨es, ms, fs, ht, hu, -, hentries, hp⟩
  · rw [heq]
  · simp [ht, hu, hd, fail]
  · have hgives : List.Forall₂ (fun e m => ∀ g, Gives slots d e g ↔ Gives slots d m g) es ms := by
      refine hentries.imp ?_
      rintro ⟨k, v⟩ ⟨l, w⟩ ⟨hkl, hvw, hdv⟩
      exact gives_congr (readFieldName_rearranged d hkl) fun slot hslot => hslots slot hslot d hd v w hvw hdv
    simp only [ht, hu]
    rw [readEntries_congr hgives]
    exact ⟨readEntries_perm hi hp, readEntries_perm hi hp.symm⟩

end Preflight
