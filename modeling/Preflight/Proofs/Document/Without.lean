import Preflight.Proofs.Document.ToJson
/-!
# Trees without some of their entries

An entry is found in a tree by the texts of the keys that lead to it, as in the
tree's JSON value: through maps only, and of several entries with one text the
last. `without` removes the entries at given addresses, and `keysAt` are the
keys of those it removes. If no two keys of a map have one text, nothing is
left at these addresses, and nothing is found that was not there before
(`at?_of_without`).
-/

namespace Preflight.Tree

/-- The text by which an entry is found, given the entries after it. -/
def foundBy (k : Tree) (later : List (Tree × Tree)) : Option String :=
  k.keyText?.filter fun key => later.all (·.1.keyText? != some key)

mutual

/-- The tree without the entries at the addresses. -/
def without : Tree → (List String → Bool) → Tree
  | .map es, gone => .map (withoutEntries es gone)
  | t, _ => t

/-- The entries without those at the addresses, nor those inside their values. -/
def withoutEntries : List (Tree × Tree) → (List String → Bool) → List (Tree × Tree)
  | [], _ => []
  | (k, v) :: es, gone =>
    match foundBy k es with
    | none => (k, v) :: withoutEntries es gone
    | some key =>
      if gone [key] then withoutEntries es gone
      else (k, v.without fun rest => gone (key :: rest)) :: withoutEntries es gone

end

mutual

/-- The keys of the entries at the addresses. -/
def keysAt : Tree → (List String → Bool) → List Tree
  | .map es, gone => keysAtEntries es gone
  | _, _ => []

/-- The keys of those entries that are at the addresses, and of those inside the values of the others. -/
def keysAtEntries : List (Tree × Tree) → (List String → Bool) → List Tree
  | [], _ => []
  | (k, v) :: es, gone =>
    (match foundBy k es with
      | none => []
      | some key => if gone [key] then [k] else v.keysAt fun rest => gone (key :: rest)) ++
    keysAtEntries es gone

end

/-- Whether a key is written as a text. -/
def IsText (k : Tree) : Prop :=
  ∃ s, k = .text s

theorem keyText?_of_foundBy {k : Tree} {later : List (Tree × Tree)} {key : String} (h : foundBy k later = some key) :
    k.keyText? = some key :=
  (Option.filter_eq_some_iff.1 h).1

/-- A key that is found by its text and read as a text is written as that text. -/
theorem eq_text_of_foundBy {k : Tree} {later : List (Tree × Tree)} {key key' : String}
    (h : foundBy k later = some key) (hk : k.untag = .text key') : k = .text key ∧ key' = key := by
  have htext := keyText?_of_foundBy h
  cases k with
  | text s =>
    obtain rfl : s = key' := by simpa [untag] using hk
    obtain rfl : s = key := by simpa [keyText?] using htext
    exact ⟨rfl, rfl⟩
  | tagged => cases htext
  | _ => cases hk

mutual

/-- Where nothing is to be removed the tree stays as it is. -/
theorem without_none : ∀ t : Tree, (t.without fun _ => false) = t ∧ (t.keysAt fun _ => false) = []
  | .map es => ⟨congrArg Tree.map (withoutEntries_none es).1, (withoutEntries_none es).2⟩
  | .null | .bool _ | .int _ | .float _ | .text _ | .date _ | .list _ | .tagged _ _ => ⟨rfl, rfl⟩

theorem withoutEntries_none : ∀ es : List (Tree × Tree),
    (withoutEntries es fun _ => false) = es ∧ (keysAtEntries es fun _ => false) = []
  | [] => ⟨rfl, rfl⟩
  | (k, v) :: es => by
    obtain ⟨hes, hkeys⟩ := withoutEntries_none es
    obtain ⟨hv, hkeysv⟩ := without_none v
    rw [withoutEntries, keysAtEntries, hes, hkeys]
    cases foundBy k es with
    | none => exact ⟨rfl, rfl⟩
    | some key => simp only [hv, hkeysv, Bool.false_eq_true, if_false, List.append_nil, and_self]

end

theorem without_eq_null_iff (t : Tree) (gone : List String → Bool) : t.without gone = .null ↔ t = .null := by
  cases t <;> simp [without]

/-! ## What is left -/

mutual

theorem plain_without : ∀ {t : Tree} (gone : List String → Bool), t.Plain → (t.without gone).Plain
  | .map _, gone, h => plainEntries_without gone h
  | .null, _, _ | .bool _, _, _ | .int _, _, _ | .float _, _, _ | .text _, _, _ | .list _, _, _ => trivial

theorem plainEntries_without : ∀ {es : List (Tree × Tree)} (gone : List String → Bool), PlainEntries es →
    PlainEntries (withoutEntries es gone)
  | [], _, _ => trivial
  | (k, v) :: es, gone, h => by
    have hes := plainEntries_without gone h.2
    rw [withoutEntries]
    cases foundBy k es with
    | none => exact ⟨h.1, hes⟩
    | some key =>
      dsimp only
      split
      · exact hes
      · exact ⟨plain_without _ h.1, hes⟩

end

theorem distinct_of_mem {text? : Tree → Option String} {es : List (Tree × Tree)} (h : DistinctEntries text? es)
    {e : Tree × Tree} (he : e ∈ es) : e.2.Distinct text? := by
  induction es with
  | nil => cases he
  | cons d es ih =>
    rcases List.mem_cons.1 he with rfl | he
    · exact h.1
    · exact ih h.2 he

/-- Where keys differ every entry is found by the text of its key. -/
theorem foundBy_of_differ {k v : Tree} {es : List (Tree × Tree)} (h : KeysDiffer keyText? ((k, v) :: es)) :
    foundBy k es = k.keyText? := by
  cases hk : k.keyText? with
  | none => rw [foundBy, hk, Option.filter_none]
  | some key =>
    rw [foundBy, hk, Option.filter_some, if_pos]
    exact List.all_eq_true.2 fun e he => bne_iff_ne.2 ((List.pairwise_cons.1 h).1 e he key hk)

theorem entry?_of_mem {es : List (Tree × Tree)} (h : KeysDiffer keyText? es) {k v : Tree} (he : (k, v) ∈ es)
    {key : String} (hk : k.keyText? = some key) : entry? key (.map es) = some v := by
  induction es with
  | nil => cases he
  | cons d es ih =>
    obtain ⟨hd, hes⟩ := List.pairwise_cons.1 h
    rw [entry?_map, List.reverse_cons, List.find?_append]
    rcases List.mem_cons.1 he with rfl | he
    · have hnone : es.reverse.find? (fun e => e.1.keyText? == some key) = none :=
        List.find?_eq_none.2 fun e he hkey => hd e (List.mem_reverse.1 he) key hk (beq_iff_eq.1 hkey)
      rw [hnone, Option.none_or, List.find?_singleton, if_pos (beq_iff_eq.2 hk), Option.map_some]
    · obtain ⟨e, hfind, heq⟩ := Option.map_eq_some_iff.1 (ih hes he)
      rw [hfind, Option.some_or, Option.map_some, heq]

theorem mem_withoutEntries {es : List (Tree × Tree)} (h : KeysDiffer keyText? es) {gone : List String → Bool}
    {k w : Tree} (hw : (k, w) ∈ withoutEntries es gone) {key : String} (hk : k.keyText? = some key) :
    gone [key] = false ∧ ∃ v, (k, v) ∈ es ∧ w = v.without fun rest => gone (key :: rest) := by
  induction es with
  | nil => cases hw
  | cons d es ih =>
    obtain ⟨k', v'⟩ := d
    obtain ⟨-, hes⟩ := List.pairwise_cons.1 h
    have hrest (hw : (k, w) ∈ withoutEntries es gone) :
        gone [key] = false ∧ ∃ v, (k, v) ∈ (k', v') :: es ∧ w = v.without fun rest => gone (key :: rest) := by
      obtain ⟨hkey, v, hv, heq⟩ := ih hes hw
      exact ⟨hkey, v, List.mem_cons_of_mem _ hv, heq⟩
    rw [withoutEntries, foundBy_of_differ h] at hw
    cases hk' : k'.keyText? with
    | none =>
      simp only [hk', List.mem_cons] at hw
      rcases hw with hw | hw
      · cases hw
        exact nomatch hk.symm.trans hk'
      · exact hrest hw
    | some key' =>
      simp only [hk'] at hw
      cases hgone : gone [key'] with
      | true =>
        rw [if_pos hgone] at hw
        exact hrest hw
      | false =>
        rw [if_neg (by simp [hgone])] at hw
        rcases List.mem_cons.1 hw with hw | hw
        · cases hw
          obtain rfl : key' = key := Option.some.inj (hk'.symm.trans hk)
          exact ⟨hgone, v', List.mem_cons_self, rfl⟩
        · exact hrest hw

/-- Nothing is left at the addresses, and what is left was there before. -/
theorem at?_of_without {t : Tree} (ht : t.Distinct keyText?) {gone : List String → Bool} {address : List String}
    (hne : address ≠ []) {u : Tree} (hu : (t.without gone).at? address = some u) :
    gone address = false ∧ ∃ v, t.at? address = some v := by
  induction address generalizing t gone with
  | nil => exact absurd rfl hne
  | cons key rest ih =>
    obtain ⟨w, hw, hrest⟩ := Option.bind_eq_some_iff.1 hu
    cases t with
    | map es =>
      obtain ⟨⟨k, _⟩, hfind, rfl⟩ := Option.map_eq_some_iff.1 hw
      have hmem := List.mem_reverse.1 (List.mem_of_find?_eq_some hfind)
      have hk : k.keyText? = some key :=
        beq_iff_eq.1 (List.find?_some (p := fun e : Tree × Tree => e.1.keyText? == some key) hfind)
      obtain ⟨hkey, v, hv, rfl⟩ := mem_withoutEntries ht.1 hmem hk
      have hentry := entry?_of_mem ht.1 hv hk
      rw [at?, hentry, Option.bind_some]
      cases rest with
      | nil => exact ⟨hkey, v, rfl⟩
      | cons key' rest => exact ih (distinct_of_mem ht.2 hv) (by simp) hrest
    | _ => cases hw

end Preflight.Tree
