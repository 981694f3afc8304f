import Preflight.Proofs.Document.Reading
/-!
# Readings that agree

Two readings agree if both fail, or both succeed with values that are related.
`agree_readTable`, `agree_readEntries`: tables and records agree if they do
entry by entry. A field that is given once and changes nothing may as well not
be given (`agree_readEntries_insert`), so a record agrees with what it is after
one field was edited by values to which it is indifferent (`agree_readRecord`).
-/

namespace Preflight

/-- Both fail, for whatever reasons, or both succeed with related values. -/
inductive Agree {ε α β : Type} (R : α → β → Prop) : Except ε α → Except ε β → Prop
  | fail (e e' : ε) : Agree R (.error e) (.error e')
  | ok {a : α} {b : β} (h : R a b) : Agree R (.ok a) (.ok b)

namespace Agree

section Steps
variable {ε α β γ δ : Type} {R : α → β → Prop} {S : γ → δ → Prop} {x : Except ε α} {y : Except ε β}

theorem refl {R : α → α → Prop} (x : Except ε α) (h : ∀ a, x = .ok a → R a a) : Agree R x x := by
  cases x with
  | error e => exact .fail e e
  | ok a => exact .ok (h a rfl)

theorem of_iff {x y : Except ε α} (h : ∀ a, x = .ok a ↔ y = .ok a) : Agree Eq x y := by
  cases x with
  | ok a =>
    rw [(h a).1 rfl]
    exact .ok rfl
  | error e =>
    cases y with
    | error e' => exact .fail e e'
    | ok b => exact nomatch (h b).2 rfl

theorem eq_trans {z : Except ε β} (hxy : Agree R x y) (hyz : Agree Eq y z) : Agree R x z := by
  cases hyz with
  | fail e e' =>
    cases hxy with
    | fail => exact .fail _ _
  | ok h =>
    subst h
    exact hxy

theorem map (h : Agree R x y) {f : α → γ} {g : β → δ} (hfg : ∀ a b, R a b → S (f a) (g b)) :
    Agree S (x.map f) (y.map g) := by
  cases h with
  | fail e e' => exact .fail e e'
  | ok h => exact .ok (hfg _ _ h)

theorem bind (h : Agree R x y) {f : α → Except ε γ} {g : β → Except ε δ} (hfg : ∀ a b, R a b → Agree S (f a) (g b)) :
    Agree S (x >>= f) (y >>= g) := by
  cases h with
  | fail e e' => exact .fail e e'
  | ok h => exact hfg _ _ h

theorem mapM {f : α → Except ε γ} {g : β → Except ε δ} {l : List α} {m : List β}
    (h : List.Forall₂ (fun a b => Agree S (f a) (g b)) l m) : Agree (List.Forall₂ S) (l.mapM f) (m.mapM g) := by
  induction h with
  | nil => exact .ok .nil
  | cons hab _ ih =>
    rw [List.mapM_cons, List.mapM_cons]
    refine hab.bind fun c d hcd => ih.bind fun cs ds hcds => ?_
    exact .ok (.cons hcd hcds)

theorem mapError {ε' : Type} (h : Agree R x y) (f g : ε → ε') : Agree R (x.mapError f) (y.mapError g) := by
  cases h with
  | fail e e' => exact .fail _ _
  | ok h => exact .ok h

/-- What is made of related values in the same way is the same. -/
theorem toOption_map_eq (h : Agree R x y) {f : α → γ} {g : β → γ} (hfg : ∀ a b, R a b → f a = g b) :
    x.toOption.map f = y.toOption.map g := by
  cases h with
  | fail e e' => rfl
  | ok h => exact congrArg some (hfg _ _ h)

end Steps

end Agree

/-! ## Tables -/

/-- The same names, with related values. -/
def NameTable.Rel {α β : Type} (R : α → β → Prop) (t : NameTable α) (u : NameTable β) : Prop :=
  List.Forall₂ (fun a b => a.1 = b.1 ∧ R a.2 b.2) t.entries u.entries

section Tables
variable {α β : Type} {R : α → β → Prop}

section Entries
variable {P : String × α → String × β → Prop} (hname : ∀ a b, P a b → a.1 = b.1)
include hname

theorem forall₂_insertEntry {es : List (String × α)} {fs : List (String × β)} (h : List.Forall₂ P es fs)
    {a : String × α} {b : String × β} (hab : P a b) :
    List.Forall₂ P (insertEntry a.1 a.2 es) (insertEntry b.1 b.2 fs) := by
  obtain ⟨name, x⟩ := a
  obtain ⟨_, y⟩ := b
  obtain rfl := hname _ _ hab
  induction h with
  | nil => exact .cons hab .nil
  | @cons c d es fs hcd hrest ih =>
    simp only [insertEntry, ← hname c d hcd]
    split
    · exact .cons hab (.cons hcd hrest)
    · split
      · exact .cons hcd ih
      · exact .cons hab hrest

/-- Lists that are related entry by entry make tables that are. -/
theorem forall₂_ofList {rows : List (String × α)} {rows' : List (String × β)} (h : List.Forall₂ P rows rows') :
    List.Forall₂ P (NameTable.ofList rows).entries (NameTable.ofList rows').entries := by
  have hfold : ∀ (t : NameTable α) (u : NameTable β), List.Forall₂ P t.entries u.entries →
      List.Forall₂ P (rows.foldl (fun t e => t.insert e.1 e.2) t).entries
        (rows'.foldl (fun t e => t.insert e.1 e.2) u).entries := by
    induction h with
    | nil => exact fun _ _ htu => htu
    | cons hab _ ih => exact fun _ _ htu => ih _ _ (forall₂_insertEntry hname htu hab)
  exact hfold .empty .empty .nil

end Entries

theorem rel_ofList {rows : List (String × α)} {rows' : List (String × β)}
    (h : List.Forall₂ (fun a b => a.1 = b.1 ∧ R a.2 b.2) rows rows') :
    (NameTable.ofList rows).Rel R (NameTable.ofList rows') :=
  forall₂_ofList (fun _ _ hab => hab.1) h

namespace NameTable

theorem Rel.refl {R : α → α → Prop} (hR : ∀ a, R a a) (t : NameTable α) : t.Rel R t :=
  List.forall₂_same.2 fun _ _ => ⟨rfl, hR _⟩

theorem Rel.map {γ δ : Type} {S : γ → δ → Prop} {t : NameTable α} {u : NameTable β} (h : t.Rel R u) {f : α → γ}
    {g : β → δ} (hfg : ∀ a b, R a b → S (f a) (g b)) : (t.map f).Rel S (u.map g) := by
  refine List.forall₂_map_left_iff.2 (List.forall₂_map_right_iff.2 (h.imp ?_))
  rintro ⟨_, a⟩ ⟨_, b⟩ ⟨rfl, hab⟩
  exact ⟨rfl, hfg a b hab⟩

theorem Rel.entries_map_eq {γ : Type} {t : NameTable α} {u : NameTable β} (h : t.Rel R u) {f : String × α → γ}
    {g : String × β → γ} (hfg : ∀ name a b, R a b → f (name, a) = g (name, b)) :
    t.entries.map f = u.entries.map g := by
  refine List.forall₂_eq_eq_eq ▸ List.forall₂_map_left_iff.2 (List.forall₂_map_right_iff.2 (h.imp ?_))
  rintro ⟨name, a⟩ ⟨_, b⟩ ⟨rfl, hab⟩
  exact hfg name a b hab

theorem Rel.map_eq {γ : Type} {t : NameTable α} {u : NameTable β} (h : t.Rel R u) {f : α → γ} {g : β → γ}
    (hfg : ∀ a b, R a b → f a = g b) : t.map f = u.map g :=
  NameTable.ext (h.entries_map_eq fun _ a b hab => Prod.ext rfl (hfg a b hab))

end NameTable

/-- Maps with the same keys agree as tables if their values agree. -/
theorem agree_readTable (readKey : Read String) {read : Read α} {read' : Read β} {d : Dialect}
    {es fs : List (Tree × Tree)}
    (h : List.Forall₂ (fun e f => e.1 = f.1 ∧ Agree R (read d e.2) (read' d f.2)) es fs) :
    Agree (NameTable.Rel R) (readTable readKey read d (.map es)) (readTable readKey read' d (.map fs)) := by
  have hpairs : List.Forall₂ (fun e f => Agree (fun a b => a.1 = b.1 ∧ R a.2 b.2) (readPair readKey read d e)
      (readPair readKey read' d f)) es fs := by
    refine h.imp ?_
    rintro ⟨k, v⟩ ⟨_, w⟩ ⟨rfl, hvw⟩
    refine (Agree.refl (R := Eq) (readKey d k) fun _ _ => rfl).bind ?_
    rintro name _ rfl
    exact (hvw.mapError _ _).bind fun a b hab => .ok ⟨rfl, hab⟩
  exact (Agree.mapM hpairs).bind fun rows rows' hrows => .ok (rel_ofList hrows)

end Tables

/-! ## Records -/

section Records
variable {σ : Type} {S : σ → σ → Prop} {slots : List (Slot σ)} {d : Dialect}

/-- The two changes keep related records related. -/
def Alongside (S : σ → σ → Prop) (f g : σ → σ) : Prop :=
  ∀ r r', S r r' → S (f r) (g r')

/-- The field that a key names. -/
def fieldOf (slots : List (Slot σ)) (key : String) : Option String :=
  (slots.find? (·.answers key)).map (·.name)

/-- No entry has a key of the field. -/
def NotGiven (slots : List (Slot σ)) (field : String) (es : List (Tree × Tree)) : Prop :=
  ∀ e ∈ es, ∀ key, e.1.untag = .text key → fieldOf slots key ≠ some field

/-- The entries have one key, and if it is that of a field their values agree. -/
def SameField (S : σ → σ → Prop) (slots : List (Slot σ)) (d : Dialect) (e f : Tree × Tree) : Prop :=
  e.1 = f.1 ∧ ∀ key slot, readFieldName d e.1 = .ok key → slots.find? (·.answers key) = some slot →
    Agree (Alongside S) (slot.read d e.2) (slot.read d f.2)

/-- Whatever is read for the field, its change keeps related records related. -/
def Slot.Respects (S : σ → σ → Prop) (d : Dialect) (slot : Slot σ) : Prop :=
  ∀ t f, slot.read d t = .ok f → Alongside S f f

theorem respects_of {α : Type} {read : Read α} {put : α → σ → σ} (h : ∀ x r r', S r r' → S (put x r) (put x r'))
    (name : String) (others : List String) : (Slot.of name others read put).Respects S d := by
  intro t f hf
  obtain ⟨x, -, rfl⟩ := (map_eq_ok_iff _ _ _).1 hf
  exact h x

theorem sameField_refl (hslots : ∀ slot ∈ slots, slot.Respects S d) (e : Tree × Tree) : SameField S slots d e e :=
  ⟨rfl, fun _ slot _ hslot => .refl _ fun f hf => hslots slot (List.mem_of_find?_eq_some hslot) e.2 f hf⟩

theorem forall₂_sameField_refl (hslots : ∀ slot ∈ slots, slot.Respects S d) (es : List (Tree × Tree)) :
    List.Forall₂ (SameField S slots d) es es :=
  List.forall₂_same.2 fun e _ => sameField_refl hslots e

/-- Records agree if they do entry by entry. -/
theorem agree_readEntries {es fs : List (Tree × Tree)} (h : List.Forall₂ (SameField S slots d) es fs)
    (seen : List String) {r r' : σ} (hr : S r r') :
    Agree S (readEntries slots d seen es r) (readEntries slots d seen fs r') := by
  induction h generalizing seen r r' with
  | nil => exact .ok hr
  | @cons e f es fs hef _ ih =>
    obtain ⟨k, v⟩ := e
    obtain ⟨_, w⟩ := f
    obtain ⟨rfl, hvw⟩ := hef
    rw [readEntries, readEntries]
    refine (Agree.refl (R := fun a b => a = b ∧ readFieldName d k = .ok a) _ fun a ha => ⟨rfl, ha⟩).bind ?_
    rintro key _ ⟨rfl, hkey⟩
    cases hslot : slots.find? (·.answers key) with
    | none => exact ih seen hr
    | some slot =>
      dsimp only
      split
      · exact .fail _ _
      · exact ((hvw key slot hkey hslot).mapError _ _).bind fun g g' hg => ih _ (hg r r' hr)

/-- Whether a field was seen does not matter where it is not given. -/
theorem readEntries_seen {field : String} {es : List (Tree × Tree)} (h : NotGiven slots field es)
    {seen seen' : List String} (hseen : ∀ name, name ≠ field → seen.contains name = seen'.contains name) (r : σ) :
    readEntries slots d seen es r = readEntries slots d seen' es r := by
  induction es generalizing seen seen' r with
  | nil => rfl
  | cons e es ih =>
    obtain ⟨k, v⟩ := e
    obtain ⟨hk, hes⟩ := List.forall_mem_cons.1 h
    rw [readEntries, readEntries]
    cases hkey : readFieldName d k with
    | error e => rfl
    | ok key =>
      simp only [bind, Except.bind]
      cases hslot : slots.find? (·.answers key) with
      | none => exact ih hes hseen r
      | some slot =>
        have hne : slot.name ≠ field := by
          rintro rfl
          refine hk key ((readFieldName_eq_ok_iff d k key).1 hkey) ?_
          rw [fieldOf, hslot, Option.map_some]
        have hcons : ∀ name, name ≠ field →
            (slot.name :: seen).contains name = (slot.name :: seen').contains name := by
          intro name hname
          rw [List.contains_cons, List.contains_cons, hseen name hname]
        simp only [hseen slot.name hne]
        split
        · rfl
        · cases inEntry key (slot.read d v) with
          | error e => rfl
          | ok f => exact ih hes hcons (f r)

/-- A field that is given only once, by a value that keeps the record as it is up to `S`, may as well not be given. -/
theorem agree_readEntries_insert (hind : slots.Pairwise Slot.Independent)
    (hslots : ∀ slot ∈ slots, slot.Respects S d) {key : String} {slot : Slot σ}
    (hslot : slots.find? (·.answers key) = some slot) {before after : List (Tree × Tree)}
    (hfree : NotGiven slots slot.name (before ++ after)) {v : Tree} {f : σ → σ} (hv : slot.read d v = .ok f)
    {start : σ} (hf : S start (f start)) :
    Agree S (readEntries slots d [] (before ++ after) start)
      (readEntries slots d [] (before ++ (.text key, v) :: after) start) := by
  -- The fields are independent, so the new entry may as well come first and change the start.
  have hfirst : Agree Eq (readEntries slots d [] ((.text key, v) :: (before ++ after)) start)
      (readEntries slots d [] (before ++ (.text key, v) :: after) start) :=
    .of_iff fun r => ⟨readEntries_perm hind List.perm_middle.symm, readEntries_perm hind List.perm_middle⟩
  refine .eq_trans ?_ hfirst
  rw [readEntries]
  simp only [readFieldName, Tree.untag, bind, Except.bind, hslot, hv, inEntry, Except.mapError]
  rw [if_neg (by simp)]
  have hseen (name : String) (hname : name ≠ slot.name) : [].contains name = [slot.name].contains name := by
    simp [hname]
  rw [readEntries_seen hfree hseen]
  exact agree_readEntries (forall₂_sameField_refl hslots _) _ hf

/-! ### Changes of one field -/

/-- One field of a record changes: one that was not given is given a value as in `vacant`, or its value changes as in
`edit`. -/
inductive RecordEdit (slots : List (Slot σ)) (vacant : String → Tree → Prop) (edit : String → Tree → Tree → Prop) :
    Tree → Tree → Prop
  | add {before after : List (Tree × Tree)} {key field : String} {v : Tree} (hkey : fieldOf slots key = some field)
      (hfree : NotGiven slots field (before ++ after)) (hv : vacant field v) :
      RecordEdit slots vacant edit (.map (before ++ after)) (.map (before ++ (.text key, v) :: after))
  | change {before after : List (Tree × Tree)} {key field : String} {v w : Tree} (hkey : fieldOf slots key = some field)
      (hvw : edit field v w) :
      RecordEdit slots vacant edit (.map (before ++ (.text key, v) :: after)) (.map (before ++ (.text key, w) :: after))
  /-- The next field of a record that is written as a list. -/
  | append {items : List Tree} {slot : Slot σ} {v : Tree} (hslot : slots[items.length]? = some slot)
      (hv : vacant slot.name v) : RecordEdit slots vacant edit (.list items) (.list (items ++ [v]))
  | changeItem {before after : List Tree} {slot : Slot σ} {v w : Tree} (hslot : slots[before.length]? = some slot)
      (hvw : edit slot.name v w) :
      RecordEdit slots vacant edit (.list (before ++ v :: after)) (.list (before ++ w :: after))

theorem RecordEdit.ne_null {vacant : String → Tree → Prop} {edit : String → Tree → Tree → Prop} {t u : Tree}
    (h : RecordEdit slots vacant edit t u) : t ≠ .null ∧ u ≠ .null := by
  cases h <;> exact ⟨nofun, nofun⟩

/-- The values of the field in `vacant` are read and keep the start of the record, and those that `edit` relates
change it alike. -/
structure Slot.Indifferent (S : σ → σ → Prop) (d : Dialect) (start : σ) (vacant : String → Tree → Prop)
    (edit : String → Tree → Tree → Prop) (slot : Slot σ) : Prop where
  respects : slot.Respects S d
  vacant : ∀ v, vacant slot.name v → ∃ f, slot.read d v = .ok f ∧ S start (f start)
  edit : ∀ v w, edit slot.name v w → Agree (Alongside S) (slot.read d v) (slot.read d w)

theorem indifferent_of {α : Type} {R : α → α → Prop} {read : Read α} {put : α → σ → σ} {start : σ} {blank : α}
    {vacant : String → Tree → Prop} {edit : String → Tree → Tree → Prop} {name : String} (others : List String)
    (hrefl : ∀ x, R x x) (hput : ∀ x y, R x y → Alongside S (put x) (put y)) (hstart : S start start)
    (hblank : put blank start = start) (hvacant : ∀ v, vacant name v → ∃ x, read d v = .ok x ∧ R blank x)
    (hedit : ∀ v w, edit name v w → Agree R (read d v) (read d w)) :
    (Slot.of name others read put).Indifferent S d start vacant edit where
  respects := respects_of (fun x => hput x x (hrefl x)) name others
  vacant := by
    intro v hv
    obtain ⟨x, hx, hbx⟩ := hvacant v hv
    refine ⟨put x, (map_eq_ok_iff _ _ _).2 ⟨x, hx, rfl⟩, ?_⟩
    have h := hput blank x hbx start start hstart
    rwa [hblank] at h
  edit v w hvw := (hedit v w hvw).map hput

/-- A field given at the end of a list may as well change the record from the start. -/
theorem readPositions_append (hind : slots.Pairwise Slot.Independent) {items : List Tree} {slot : Slot σ}
    (hslot : slots[items.length]? = some slot) {v : Tree} {f : σ → σ} (hv : slot.read d v = .ok f) (r : σ) :
    readPositions d slots (items ++ [v]) r = readPositions d slots items (f r) := by
  induction items generalizing slots r with
  | nil =>
    obtain ⟨rest, rfl⟩ := List.head?_eq_some_iff.1 (List.head?_eq_getElem?.trans hslot)
    rw [List.nil_append, readPositions, hv]
    cases rest <;> rfl
  | cons t ts ih =>
    cases slots with
    | nil => simp at hslot
    | cons s rest =>
      rw [List.length_cons, List.getElem?_cons_succ] at hslot
      obtain ⟨hs, hrest⟩ := List.pairwise_cons.1 hind
      rw [List.cons_append, readPositions, readPositions]
      -- The change made last commutes with that of every field before it.
      cases hread : s.read d t with
      | error e => rfl
      | ok g =>
        have hcomm := hs slot (List.mem_of_getElem? hslot) d t v g f hread hv r
        simp only [bind, Except.bind]
        rw [ih hrest hslot, hcomm]

theorem agree_readPositions (hslots : ∀ slot ∈ slots, slot.Respects S d) (items : List Tree) {r r' : σ} (hr : S r r') :
    Agree S (readPositions d slots items r) (readPositions d slots items r') := by
  induction items generalizing slots r r' with
  | nil => cases slots <;> exact .ok hr
  | cons t ts ih =>
    cases slots with
    | nil => exact .ok hr
    | cons slot rest =>
      rw [readPositions, readPositions]
      obtain ⟨hslot, hrest⟩ := List.forall_mem_cons.1 hslots
      exact (Agree.refl _ fun f hf => hslot t f hf).bind fun f g hfg => ih hrest (hfg r r' hr)

theorem agree_readPositions_change (hslots : ∀ slot ∈ slots, slot.Respects S d) {before after : List Tree}
    {slot : Slot σ} (hslot : slots[before.length]? = some slot) {v w : Tree}
    (hvw : Agree (Alongside S) (slot.read d v) (slot.read d w)) {r r' : σ} (hr : S r r') :
    Agree S (readPositions d slots (before ++ v :: after) r) (readPositions d slots (before ++ w :: after) r') := by
  induction before generalizing slots r r' with
  | nil =>
    obtain ⟨rest, rfl⟩ := List.head?_eq_some_iff.1 (List.head?_eq_getElem?.trans hslot)
    rw [List.nil_append, List.nil_append, readPositions, readPositions]
    exact hvw.bind fun f g hfg => agree_readPositions (List.forall_mem_cons.1 hslots).2 after (hfg r r' hr)
  | cons t ts ih =>
    cases slots with
    | nil => simp at hslot
    | cons s rest =>
      rw [List.length_cons, List.getElem?_cons_succ] at hslot
      obtain ⟨hs, hrest⟩ := List.forall_mem_cons.1 hslots
      rw [List.cons_append, List.cons_append, readPositions, readPositions]
      exact (Agree.refl _ fun f hf => hs t f hf).bind fun f g hfg => ih hrest hslot (hfg r r' hr)

/-- Records agree if one field of them changes by values to which the fields are indifferent. -/
theorem agree_readRecord (hind : slots.Pairwise Slot.Independent) {start : σ} (hstart : S start start)
    {vacant : String → Tree → Prop} {edit : String → Tree → Tree → Prop}
    (hslots : ∀ slot ∈ slots, slot.Indifferent S d start vacant edit) (title : String) {t u : Tree}
    (h : RecordEdit slots vacant edit t u) :
    Agree S (readRecord title slots start d t) (readRecord title slots start d u) := by
  have hrespects : ∀ slot ∈ slots, slot.Respects S d := fun slot hslot => (hslots slot hslot).respects
  have hlist {items items' : List Tree} (hlen : slots.length < items.length ↔ slots.length < items'.length)
      (hitems : Agree S (readPositions d slots items start) (readPositions d slots items' start)) :
      Agree S (readRecord title slots start d (.list items)) (readRecord title slots start d (.list items')) := by
    simp only [readRecord, Tree.untag]
    split
    · refine hitems.bind fun r r' hr => ?_
      by_cases hlong : slots.length < items.length
      · rw [if_pos hlong, if_pos (hlen.1 hlong)]
        exact .fail _ _
      · rw [if_neg hlong, if_neg (mt hlen.2 hlong)]
        exact .ok hr
    · exact .fail _ _
  cases h with
  | add hkey hfree hv =>
    obtain ⟨slot, hslot, rfl⟩ := Option.map_eq_some_iff.1 hkey
    obtain ⟨f, hf, hstart⟩ := (hslots slot (List.mem_of_find?_eq_some hslot)).vacant _ hv
    exact agree_readEntries_insert hind hrespects hslot hfree hf hstart
  | @change before after key field v w hkey hvw =>
    obtain ⟨slot, hslot, rfl⟩ := Option.map_eq_some_iff.1 hkey
    refine agree_readEntries (List.rel_append (forall₂_sameField_refl hrespects before) ?_) [] hstart
    refine .cons ⟨rfl, ?_⟩ (forall₂_sameField_refl hrespects after)
    intro key' slot' hkey' hslot'
    obtain rfl : key = key' := by simpa [Tree.untag] using (readFieldName_eq_ok_iff d (.text key) key').1 hkey'
    obtain rfl : slot = slot' := Option.some.inj (hslot.symm.trans hslot')
    exact (hslots slot (List.mem_of_find?_eq_some hslot)).edit v w hvw
  | append hslot hv =>
    have hlt := (List.getElem?_eq_some_iff.1 hslot).1
    obtain ⟨f, hf, hstart⟩ := (hslots _ (List.mem_of_getElem? hslot)).vacant _ hv
    refine hlist ?_ ?_
    · rw [List.length_append, List.length_singleton]
      omega
    · rw [readPositions_append hind hslot hf]
      exact agree_readPositions hrespects _ hstart
  | changeItem hslot hvw =>
    refine hlist ?_ ?_
    · rw [List.length_append, List.length_append, List.length_cons, List.length_cons]
    · exact agree_readPositions_change hrespects hslot ((hslots _ (List.mem_of_getElem? hslot)).edit _ _ hvw) hstart

end Records

end Preflight
