import Preflight.Config.Load
import Preflight.Proofs.Config.Clean
import Preflight.Proofs.Config.Shape
import Preflight.Proofs.Document.OfJson
/-!
# The notations agree

Dialects differ in null read as an empty value and in lists read as records. A
JSON value is portable if neither comes up in it: then its shape is the same in
every dialect (`shape_dialect`), and its tree is loaded alike from all notations,
in whatever order the entries stand (`loads_alike`).
-/

namespace Preflight

open Preflight.Tree

namespace Json

/-- The entries of an object. -/
def entries : Json → List (String × Json)
  | .object es => es
  | _ => []

/-- Whether a value is an array. -/
def IsArray (v : Json) : Prop :=
  ∃ items, v = .array items

/-- No array is in place of a record, and no null in place of a value that must be there. -/
structure Portable (v : Json) : Prop where
  root_null : v ≠ .null
  root_array : ¬v.IsArray
  cli_null : ∀ x, ("cli", x) ∈ v.entries → x ≠ .null
  cli_array : ∀ x, ("cli", x) ∈ v.entries → ¬x.IsArray
  hat_array : ∀ x, ("hats", x) ∈ v.entries → ∀ h ∈ x.entries, ¬h.2.IsArray
  event_array : ∀ x, ("events", x) ∈ v.entries → ∀ e ∈ x.entries, ¬e.2.IsArray
  aliases_null : ∀ x, ("aliases", x) ∈ v.entries → x ≠ .null
  backend_null : ∀ x, ("aliases", x) ∈ v.entries → ∀ b ∈ x.entries, b.2 ≠ .null

end Json

/-! ## Readers of values that are there -/

section Readers
variable {d d' : Dialect} {v : Json}

theorem mapM_congr_of_mem {ε α β : Type} {f g : α → Except ε β} {l : List α} (h : ∀ a ∈ l, f a = g a) :
    l.mapM f = l.mapM g := by
  induction l with
  | nil => rfl
  | cons a l ih =>
    obtain ⟨ha, hl⟩ := List.forall_mem_cons.1 h
    rw [List.mapM_cons, List.mapM_cons, ha, ih hl]

theorem readOption_dialect {α : Type} {read : Read α} (h : v ≠ .null → read d (.ofJson v) = read d' (.ofJson v)) :
    readOption read d (.ofJson v) = readOption read d' (.ofJson v) := by
  by_cases hv : v = .null
  · rw [hv]
    rfl
  · have hne : ofJson v ≠ .null := fun hnull => hv ((ofJson_eq_null_iff v).1 hnull)
    rw [readOption_of_ne read d hne, readOption_of_ne read d' hne, h hv]

theorem readItems_dialect (hv : v ≠ .null) : readItems d (.ofJson v) = readItems d' (.ofJson v) := by
  cases v with
  | null => exact absurd rfl hv
  | _ => rfl

theorem readTable_dialect {α : Type} {readKey : Read String} {read : Read α} (hv : v ≠ .null)
    (hkey : ∀ s, readKey d (.text s) = readKey d' (.text s))
    (h : ∀ e ∈ v.entries, read d (.ofJson e.2) = read d' (.ofJson e.2)) :
    readTable readKey read d (.ofJson v) = readTable readKey read d' (.ofJson v) := by
  cases v with
  | object es =>
    have hpairs : (ofJsonEntries es).mapM (readPair readKey read d) =
        (ofJsonEntries es).mapM (readPair readKey read d') := by
      refine mapM_congr_of_mem ?_
      rw [ofJsonEntries_eq_map]
      intro e he
      obtain ⟨e, hmem, rfl⟩ := List.mem_map.1 he
      rw [readPair, readPair, hkey, h e hmem]
    simp only [readTable, readPairs, ofJson, untag, bind, Except.bind, hpairs]
  | null => exact absurd rfl hv
  | _ => rfl

section Records
variable {σ : Type} {slots : List (Slot σ)}

theorem readEntries_dialect {es : List (String × Json)}
    (h : ∀ slot ∈ slots, ∀ e ∈ es, slot.answers e.1 → slot.read d (.ofJson e.2) = slot.read d' (.ofJson e.2))
    (seen : List String) (start : σ) :
    readEntries slots d seen (ofJsonEntries es) start = readEntries slots d' seen (ofJsonEntries es) start := by
  induction es generalizing seen start with
  | nil => rfl
  | cons e es ih =>
    obtain ⟨name, v⟩ := e
    have hrest := ih fun slot hslot e he => h slot hslot e (List.mem_cons_of_mem _ he)
    simp only [ofJsonEntries, readEntries, readFieldName, untag, bind, Except.bind]
    cases hslot : slots.find? (·.answers name) with
    | none => exact hrest seen start
    | some slot =>
      have hanswers := List.find?_some (p := fun s : Slot σ => s.answers name) hslot
      have hread := h slot (List.mem_of_find?_eq_some hslot) (name, v) List.mem_cons_self hanswers
      simp only [hread, hrest]

theorem readRecord_dialect (title : String) (start : σ) (hnull : v ≠ .null) (harray : ¬v.IsArray)
    (h : ∀ slot ∈ slots, ∀ e ∈ v.entries, slot.answers e.1 → slot.read d (.ofJson e.2) = slot.read d' (.ofJson e.2)) :
    readRecord title slots start d (.ofJson v) = readRecord title slots start d' (.ofJson v) := by
  cases v with
  | object es => exact readEntries_dialect h [] start
  | null => exact absurd rfl hnull
  | array items => exact absurd ⟨items, rfl⟩ harray
  | _ => rfl

end Records

end Readers

/-! ## The shape of a portable value -/

namespace Config

section Shape
variable {d d' : Dialect} {v : Json}

theorem readNames_dialect : readNames d (.ofJson v) = readNames d' (.ofJson v) := by
  have hset (hv : v ≠ .null) : readNameSet d (.ofJson v) = readNameSet d' (.ofJson v) := by
    rw [readNameSet, readNameSet, readItems_dialect hv]
    rfl
  rw [readNames, readNames, readOption_dialect hset]

theorem readNamed_dialect {α : Type} {read : Read α} {blank : α}
    (h : ∀ e ∈ v.entries, e.2 ≠ .null → read d (.ofJson e.2) = read d' (.ofJson e.2)) :
    readNamed read blank d (.ofJson v) = readNamed read blank d' (.ofJson v) := by
  have htable (hv : v ≠ .null) :
      readTable readName (readOption read) d (.ofJson v) = readTable readName (readOption read) d' (.ofJson v) :=
    readTable_dialect hv (fun _ => rfl) fun e he => readOption_dialect (h e he)
  rw [readNamed, readNamed, readOption_dialect htable]

theorem readEvent_dialect (hnull : v ≠ .null) (harray : ¬v.IsArray) :
    readEvent d (.ofJson v) = readEvent d' (.ofJson v) := by
  refine readRecord_dialect _ _ hnull harray ?_
  intro slot hslot e _ _
  obtain rfl := List.mem_singleton.1 hslot
  rfl

theorem readDefaults_dialect (hnull : v ≠ .null) (harray : ¬v.IsArray) :
    readDefaults d (.ofJson v) = readDefaults d' (.ofJson v) := by
  refine readRecord_dialect _ _ hnull harray ?_
  intro slot hslot e _ _
  simp only [defaultsSlots, List.mem_cons, List.not_mem_nil, or_false] at hslot
  rcases hslot with rfl | rfl
  all_goals rfl

theorem readHat_dialect (hnull : v ≠ .null) (harray : ¬v.IsArray) :
    readHat d (.ofJson v) = readHat d' (.ofJson v) := by
  have hnames (put : NameSet → Hat → Hat) (x : Json) :
      (readNames d (.ofJson x)).map put = (readNames d' (.ofJson x)).map put := by
    rw [readNames_dialect]
  refine readRecord_dialect _ _ hnull harray ?_
  intro slot hslot e _ _
  simp only [hatSlots, List.mem_cons, List.not_mem_nil, or_false] at hslot
  rcases hslot with rfl | rfl | rfl | rfl | rfl | rfl | rfl
  case inr.inr.inl => exact hnames _ e.2
  case inr.inr.inr.inl => exact hnames _ e.2
  all_goals rfl

theorem readAliases_dialect (hnull : v ≠ .null) (hbackend : ∀ b ∈ v.entries, b.2 ≠ .null) :
    readAliases d (.ofJson v) = readAliases d' (.ofJson v) :=
  readTable_dialect hnull (fun _ => rfl) fun b hb => readTable_dialect (hbackend b hb) (fun _ => rfl) fun _ _ => rfl

/-- A portable value has the same shape in every dialect. -/
theorem shape_dialect (hv : v.Portable) (d d' : Dialect) : shape d (.ofJson v) = shape d' (.ofJson v) := by
  refine readRecord_dialect _ _ hv.root_null hv.root_array ?_
  rintro slot hslot ⟨key, x⟩ he hkey
  simp only [workflowSlots, List.mem_cons, List.not_mem_nil, or_false] at hslot
  rcases hslot with rfl | rfl | rfl | rfl | rfl | rfl
  -- A text is read without a look at the dialect.
  case inl | inr.inl => rfl
  all_goals
    obtain rfl : _ = key := by simpa [Slot.answers, Slot.of] using hkey
    refine congrArg (Except.map _) ?_
  case inr.inr.inl =>
    exact readNamed_dialect fun h hmem hnull => readHat_dialect hnull (hv.hat_array x he h hmem)
  case inr.inr.inr.inl =>
    exact readDefaults_dialect (hv.cli_null x he) (hv.cli_array x he)
  case inr.inr.inr.inr.inl =>
    exact readNamed_dialect fun e hmem hnull => readEvent_dialect hnull (hv.event_array x he e hmem)
  case inr.inr.inr.inr.inr =>
    exact readAliases_dialect (hv.aliases_null x he) (hv.backend_null x he)

end Shape

end Config

/-! ## Loading -/

/-- The same hints in the same order, and the same workflow or none. -/
def Loaded.Agrees (l m : Loaded) : Prop :=
  l.hints = m.hints ∧ ∀ w, l.result = .ok w ↔ m.result = .ok w

namespace Workflow

variable {v : Json} {t u : Tree}

theorem ofYaml_of_reordered (hnull : v ≠ .null) (ht : (ofJson v).Reordered t) : ofYaml t = ofTree .yaml t := by
  refine ofYaml_of_untag_ne ?_
  intro h
  cases v with
  | null => exact hnull rfl
  | _ => cases ht <;> exact nomatch h

theorem ofTree_agrees (hunique : v.Unique) (hv : v.Portable) (format : Format) (ht : (ofJson v).Reordered t) :
    (ofTree .json (.ofJson v)).Agrees (ofTree format t) := by
  constructor
  · have hjson := toJson?_reordered ht (distinct_ofJson (fun _ => rfl) hunique)
    show Config.hintsOfTree (ofJson v) = Config.hintsOfTree t
    rw [Config.hintsOfTree, Config.hintsOfTree, hjson]
  · intro w
    rw [ofTree_eq_ok_iff, ofTree_eq_ok_iff, Config.shape_dialect hv _ format.dialect]
    exact Config.orderFree_shape format.dialect _ _ ht (distinct_ofJson (fun _ => rfl) hunique) w

/-- A portable value is loaded alike from JSON, YAML and TOML, in whatever order the entries stand. What TOML has no
notation for, null and numbers of more than 64 bits, makes no difference to the shape. -/
theorem loads_alike (hunique : v.Unique) (hv : v.Portable) (ht : (ofJson v).Reordered t)
    (hu : (ofJson v).Reordered u) :
    (ofTree .json (.ofJson v)).Agrees (ofYaml t) ∧ (ofTree .json (.ofJson v)).Agrees (ofTree .toml u) := by
  refine ⟨?_, ofTree_agrees hunique hv .toml hu⟩
  rw [ofYaml_of_reordered hv.root_null ht]
  exact ofTree_agrees hunique hv .yaml ht

theorem unread_entry_loads_alike :
    let v : Json := .object [("hats", .object [("a", .object [("hue", .int 3), ("triggers", .array [.int 1])])]),
      ("cli", .object [("model", .null)])]
    let t : Tree := .map [(.text "cli", .map [(.text "model", .null)]),
      (.text "hats", .map [(.text "a", .map [(.text "triggers", .list [.int 1]), (.text "hue", .int 3)])])]
    (ofTree .json (.ofJson v)).Agrees (ofYaml t) ∧ (ofTree .json (.ofJson v)).Agrees (ofTree .toml (.ofJson v)) := by
  intro v t
  have hunique : v.Unique := by simp [v, Json.Unique, Json.UniqueEntries, Json.UniqueItems]
  have hv : v.Portable := by
    constructor
    all_goals simp [v, Json.entries, Json.IsArray]
  have hhat : Reordered (.map [(.text "hue", .int 3), (.text "triggers", .list [.int 1])])
      (.map [(.text "triggers", .list [.int 1]), (.text "hue", .int 3)]) :=
    .map (.cons _ (.same _) (.cons _ (.same _) .nil)) (.swap _ _ [])
  have hhats : Reordered (ofJson (.object [("a", .object [("hue", .int 3), ("triggers", .array [.int 1])])]))
      (.map [(.text "a", .map [(.text "triggers", .list [.int 1]), (.text "hue", .int 3)])]) :=
    .map (.cons _ hhat .nil) (.refl _)
  have ht : (ofJson v).Reordered t := .map (.cons _ hhats (.cons _ (.same _) .nil)) (.swap _ _ [])
  exact loads_alike hunique hv ht (.same _)

end Workflow

end Preflight
