import Preflight.Proofs.Config.Hint
import Preflight.Proofs.Json.Address
/-!
# Stray entries

A hint belongs to one entry, which is found by the keys that lead to it. The
walk collects the entries in `strays`, and the hints are made from these
(`hints_perm_strays`). An entry is among them exactly when it is reached
through objects only and the known keys pass over it (`mem_strays_iff`).
-/

namespace Preflight.Config

/-! ## What the known keys say of an entry -/

/-- What the keys inside the value of a key are known to be; nothing if the key itself is not known. -/
def Keys.beneath : Keys → String → Option Keys
  | .leaf, _ => some .leaf
  | .free each, _ => some each
  | .fixed known, key => known.lookup key

/-- The known keys of a record. -/
def Keys.names : Keys → List String
  | .fixed known => known.map (·.1)
  | _ => []

/-- The entry at an address is one that no reader looks at. -/
inductive Keys.PassesOver : Keys → List String → Prop
  | here {keys : Keys} {key : String} (h : keys.beneath key = none) : PassesOver keys [key]
  | inside {keys below : Keys} {key : String} {rest : List String} (h : keys.beneath key = some below)
      (hrest : PassesOver below rest) : PassesOver keys (key :: rest)

/-- The entry at an address is a known entry of a record. -/
inductive Keys.Knows : Keys → List String → Prop
  | here {known : List (String × Keys)} {key : String} {below : Keys} (h : known.lookup key = some below) :
      Knows (.fixed known) [key]
  | inside {keys below : Keys} {key : String} {rest : List String} (h : keys.beneath key = some below)
      (hrest : Knows below rest) : Knows keys (key :: rest)

theorem Keys.PassesOver.ne_nil {keys : Keys} {address : List String} (h : keys.PassesOver address) : address ≠ [] := by
  rintro rfl
  cases h

theorem Keys.Knows.ne_nil {keys : Keys} {address : List String} (h : keys.Knows address) : address ≠ [] := by
  rintro rfl
  cases h

theorem Keys.not_passesOver_leaf (address : List String) : ¬Keys.leaf.PassesOver address := by
  intro h
  induction address with
  | nil => exact h.ne_nil rfl
  | cons key rest ih =>
    cases h with
    | here h => exact nomatch h
    | inside h hrest =>
      cases h
      exact ih hrest

theorem Keys.not_knows_leaf (address : List String) : ¬Keys.leaf.Knows address := by
  intro h
  induction address with
  | nil => exact h.ne_nil rfl
  | cons key rest ih =>
    cases h with
    | inside h hrest =>
      cases h
      exact ih hrest

/-- A key of a record is known or passed over. -/
theorem Keys.knows_or_passesOver (known : List (String × Keys)) (key : String) :
    (Keys.fixed known).Knows [key] ∨ (Keys.fixed known).PassesOver [key] := by
  cases hkey : known.lookup key with
  | none => exact .inr (.here hkey)
  | some below => exact .inl (.here hkey)

theorem Keys.knows_or_passesOver_inside {keys below : Keys} {key : String} {rest : List String}
    (h : keys.beneath key = some below) (hrest : below.Knows rest ∨ below.PassesOver rest) :
    keys.Knows (key :: rest) ∨ keys.PassesOver (key :: rest) :=
  hrest.imp (.inside h) (.inside h)

/-! ## The entries that are hinted at -/

/-- An entry that is hinted at: the keys that lead to its record, its own key, and the known keys beside it. -/
structure Stray where
  place : List String
  key : String
  siblings : List String
  deriving DecidableEq, Repr

/-- The keys that lead to the entry, its own being the last. -/
def Stray.address (s : Stray) : List String :=
  s.place ++ [s.key]

/-- An entry of a value, seen from outside the entry in which the value stands. -/
def Stray.under (key : String) (s : Stray) : Stray :=
  { s with place := key :: s.place }

/-- The hint at an entry of a value that stands at a path. -/
def Stray.hint (path : String) (s : Stray) : Hint :=
  ⟨join (s.place.foldl join path) s.key, Text.nearest s.key hintReach s.siblings⟩

theorem address_under (key : String) (s : Stray) : (s.under key).address = key :: s.address :=
  rfl

mutual

/-- The entries of a value that are hinted at. -/
def strays (keys : Keys) : Json → List Stray
  | .object es => straysIn keys es
  | _ => []

/-- The entries whose keys are not known, and those hinted at inside the values of the others. -/
def straysIn (keys : Keys) : List (String × Json) → List Stray
  | [] => []
  | (key, v) :: es =>
    (match keys.beneath key with
      | some below => (strays below v).map (.under key)
      | none => [⟨[], key, keys.names⟩]) ++
    straysIn keys es

end

/-- What is hinted at in one entry. -/
def straysAt (keys : Keys) (e : String × Json) : List Stray :=
  match keys.beneath e.1 with
  | some below => (strays below e.2).map (.under e.1)
  | none => [⟨[], e.1, keys.names⟩]

theorem straysIn_eq_flatMap (keys : Keys) (es : List (String × Json)) :
    straysIn keys es = es.flatMap (straysAt keys) := by
  induction es with
  | nil => rfl
  | cons e es ih => rw [straysIn, ih, List.flatMap_cons, straysAt]

mutual

theorem strays_leaf : ∀ v : Json, strays .leaf v = []
  | .object es => straysIn_leaf es
  | .null | .bool _ | .int _ | .float _ | .text _ | .array _ => rfl

theorem straysIn_leaf : ∀ es : List (String × Json), straysIn .leaf es = []
  | [] => rfl
  | (_, v) :: es => by
    show (strays .leaf v).map _ ++ straysIn .leaf es = []
    rw [strays_leaf v, straysIn_leaf es]
    rfl

end

mutual

theorem hintsAt_eq_map (path : String) : ∀ (keys : Keys) (v : Json),
    hintsAt path keys v = (strays keys v).map (Stray.hint path)
  | .free each, .object es => hintsFree_eq_map path each es
  | .fixed known, .object es => hintsFixed_eq_map path known es
  | .leaf, v => by rw [hintsAt_leaf, strays_leaf]; rfl
  | .free _, .null | .free _, .bool _ | .free _, .int _ | .free _, .float _ | .free _, .text _
  | .free _, .array _ => rfl
  | .fixed _, .null | .fixed _, .bool _ | .fixed _, .int _ | .fixed _, .float _ | .fixed _, .text _
  | .fixed _, .array _ => rfl

theorem hintsFree_eq_map (path : String) (each : Keys) : ∀ es : List (String × Json),
    hintsFree path each es = (straysIn (.free each) es).map (Stray.hint path)
  | [] => rfl
  | (key, v) :: es => by
    rw [hintsFree, straysIn, Keys.beneath, List.map_append, List.map_map, hintsFree_eq_map path each es,
      hintsAt_eq_map (join path key) each v]
    rfl

theorem hintsFixed_eq_map (path : String) (known : List (String × Keys)) : ∀ es : List (String × Json),
    hintsFixed path known es = (straysIn (.fixed known) es).map (Stray.hint path)
  | [] => rfl
  | (key, v) :: es => by
    rw [hintsFixed, straysIn, Keys.beneath, List.map_append, hintsFixed_eq_map path known es]
    congr 1
    cases known.lookup key with
    | none => rfl
    | some below =>
      simp only [List.map_map, hintsAt_eq_map (join path key) below v]
      rfl

end

/-- There is one hint for each stray entry of a workflow. -/
theorem hints_perm_strays (v : Json) : (hints v).Perm ((strays workflowKeys v).map (Stray.hint "")) := by
  rw [hints, hintsAt_eq_map]
  exact List.mergeSort_perm _ _

/-! ## Where the stray entries are -/

/-- What is hinted at in an entry is the entry itself or lies in its value. -/
theorem exists_straysAt_iff (keys : Keys) (e : String × Json) (key : String) (rest : List String) :
    (∃ s ∈ straysAt keys e, s.address = key :: rest) ↔
      e.1 = key ∧ ((keys.beneath key = none ∧ rest = []) ∨
        ∃ below, keys.beneath key = some below ∧ ∃ s ∈ strays below e.2, s.address = rest) := by
  unfold straysAt
  cases hkey : keys.beneath e.1 with
  | none =>
    constructor
    · rintro ⟨s, hs, haddress⟩
      obtain rfl := List.mem_singleton.1 hs
      obtain ⟨rfl, rfl⟩ : e.1 = key ∧ [] = rest := List.cons.inj haddress
      exact ⟨rfl, .inl ⟨hkey, rfl⟩⟩
    · rintro ⟨rfl, ⟨-, rfl⟩ | ⟨below, hbelow, -⟩⟩
      · exact ⟨_, List.mem_singleton_self _, rfl⟩
      · exact nomatch hkey.symm.trans hbelow
  | some below =>
    constructor
    · rintro ⟨s, hs, haddress⟩
      obtain ⟨s', hs', rfl⟩ := List.mem_map.1 hs
      obtain ⟨rfl, hrest⟩ : e.1 = key ∧ s'.address = rest := List.cons.inj haddress
      exact ⟨rfl, .inr ⟨below, hkey, s', hs', hrest⟩⟩
    · rintro ⟨rfl, ⟨hnone, -⟩ | ⟨below', hbelow, s, hs, rfl⟩⟩
      · exact nomatch hkey.symm.trans hnone
      · obtain rfl : below = below' := Option.some.inj (hkey.symm.trans hbelow)
        exact ⟨s.under e.1, List.mem_map_of_mem hs, address_under e.1 s⟩

/-- The entries hinted at are those that are reached through objects and passed over. -/
theorem mem_strays_iff (keys : Keys) (v : Json) (address : List String) :
    (∃ s ∈ strays keys v, s.address = address) ↔ keys.PassesOver address ∧ ∃ x, v.Holds address x := by
  induction address generalizing keys v with
  | nil =>
    constructor
    · rintro ⟨s, -, hs⟩
      simp [Stray.address] at hs
    · rintro ⟨h, -⟩
      exact absurd rfl h.ne_nil
  | cons key rest ih =>
    cases v with
    | object es =>
      rw [strays, straysIn_eq_flatMap]
      constructor
      · rintro ⟨s, hs, haddress⟩
        obtain ⟨e, he, hs⟩ := List.mem_flatMap.1 hs
        obtain ⟨rfl, ⟨hnone, rfl⟩ | ⟨below, hbelow, hstray⟩⟩ :=
          (exists_straysAt_iff keys e key rest).1 ⟨s, hs, haddress⟩
        · exact ⟨.here hnone, e.2, .within he (.here e.2)⟩
        · obtain ⟨hpass, x, hx⟩ := (ih below e.2).1 hstray
          exact ⟨.inside hbelow hpass, x, .within he hx⟩
      · rintro ⟨hpass, x, hx⟩
        cases hx with
        | @within _ _ u _ _ hmem hx =>
          have hstray : ∃ s ∈ straysAt keys (key, u), s.address = key :: rest := by
            rw [exists_straysAt_iff]
            cases hpass with
            | here h => exact ⟨rfl, .inl ⟨h, rfl⟩⟩
            | inside h hpass => exact ⟨rfl, .inr ⟨_, h, (ih _ u).2 ⟨hpass, x, hx⟩⟩⟩
          obtain ⟨s, hs, haddress⟩ := hstray
          exact ⟨s, List.mem_flatMap.2 ⟨_, hmem, hs⟩, haddress⟩
    | _ =>
      constructor
      · rintro ⟨s, hs, -⟩
        exact absurd hs List.not_mem_nil
      · rintro ⟨-, x, hx⟩
        exact nomatch hx

/-- Where each name comes once, no two of the entries hinted at are the same. -/
theorem nodup_strays (keys : Keys) {v : Json} (hv : v.Unique) : ((strays keys v).map Stray.address).Nodup := by
  match v, hv with
  | .object es, hv =>
    obtain ⟨hnames, hvalues⟩ := (Json.unique_object_iff es).1 hv
    have hentry (e : String × Json) (he : e ∈ es) : ((straysAt keys e).map Stray.address).Nodup := by
      unfold straysAt
      cases keys.beneath e.1 with
      | none => exact List.nodup_singleton _
      | some below =>
        have hcons := (nodup_strays below (hvalues e he)).map (List.cons_injective (a := e.1))
        rwa [List.map_map] at hcons ⊢
    have hkey {e : String × Json} {a : List String} (ha : a ∈ (straysAt keys e).map Stray.address) :
        a.head? = some e.1 := by
      obtain ⟨s, hs, rfl⟩ := List.mem_map.1 ha
      cases haddress : s.address with
      | nil => simp [Stray.address] at haddress
      | cons key rest => rw [((exists_straysAt_iff keys e key rest).1 ⟨s, hs, haddress⟩).1, List.head?_cons]
    rw [strays, straysIn_eq_flatMap, List.map_flatMap, List.nodup_flatMap]
    refine ⟨hentry, (List.pairwise_map.1 hnames).imp ?_⟩
    intro d e hne a hd he
    exact hne (Option.some.inj ((hkey hd).symm.trans (hkey he)))
  | .null, _ | .bool _, _ | .int _, _ | .float _, _ | .text _, _ | .array _, _ => exact List.nodup_nil
termination_by sizeOf v
decreasing_by exact sizeOf_snd_lt_of_mem he

end Preflight.Config
