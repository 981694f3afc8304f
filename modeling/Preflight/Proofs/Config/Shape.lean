import Preflight.Config.Shape
import Preflight.Proofs.Document.Reordered
/-!
# The shape of a workflow does not depend on order

A property of readers that is passed on from parts to the whole holds of the
shape (`Hereditary.shape`), since the fields of each record are independent of
each other. To be order free is such a property, hence `orderFree_shape`: trees
that differ only in the order of entries have the same shape.
-/

namespace Preflight.Config

/-! ## Independent fields -/

theorem independent_defaultsSlots : defaultsSlots.Pairwise Slot.Independent := by
  simp only [defaultsSlots, List.pairwise_cons, List.forall_mem_cons, List.not_mem_nil, false_implies, implies_true,
    List.Pairwise.nil, and_true]
  exact independent_of fun _ _ _ => rfl

theorem independent_hatSlots : hatSlots.Pairwise Slot.Independent := by
  simp only [hatSlots, List.pairwise_cons, List.forall_mem_cons, List.not_mem_nil, false_implies, implies_true,
    List.Pairwise.nil, and_true]
  repeat' apply And.intro
  all_goals exact independent_of fun _ _ _ => rfl

theorem independent_workflowSlots : workflowSlots.Pairwise Slot.Independent := by
  simp only [workflowSlots, List.pairwise_cons, List.forall_mem_cons, List.not_mem_nil, false_implies, implies_true,
    List.Pairwise.nil, and_true]
  repeat' apply And.intro
  all_goals exact independent_of fun _ _ _ => rfl

/-! ## From parts to the whole -/

/-- A property of readers that holds of those of single values, and of compound ones if it holds of their parts. -/
structure Hereditary (P : (α : Type) → Read α → Prop) : Prop where
  text : P String readText
  nameSet : P NameSet readNameSet
  option {α : Type} {read : Read α} (h : P α read) : P (Option α) (readOption read)
  map {α β : Type} {read : Read α} (h : P α read) (f : α → β) : P β fun d t => (read d t).map f
  table {α : Type} {readKey : Read String} {read : Read α} (hkey : readKey = readText ∨ readKey = readName)
    (h : P α read) : P (NameTable α) (readTable readKey read)
  record {σ : Type} {slots : List (Slot σ)} (hslots : ∀ slot ∈ slots, P (σ → σ) slot.read)
    (hi : slots.Pairwise Slot.Independent) (title : String) (start : σ) : P σ (readRecord title slots start)

namespace Hereditary

variable {P : (α : Type) → Read α → Prop} (hP : Hereditary P)
include hP

theorem slot {α σ : Type} {read : Read α} (h : P α read) (name : String) (others : List String) (put : α → σ → σ) :
    P (σ → σ) (Slot.of name others read put).read :=
  hP.map h put

theorem freeText : P String readFreeText :=
  hP.map (hP.option hP.text) (·.getD "")

theorem names : P NameSet readNames :=
  hP.map (hP.option hP.nameSet) (·.getD .empty)

theorem override : P Override readOverride :=
  hP.map (hP.option hP.text) _

theorem named {α : Type} {read : Read α} (h : P α read) (blank : α) : P (NameTable α) (readNamed read blank) :=
  hP.map (hP.option (hP.table (.inr rfl) (hP.option h))) _

theorem aliases : P (NameTable (NameTable String)) readAliases :=
  hP.table (.inl rfl) (hP.table (.inl rfl) hP.text)

theorem defaults : P Defaults readDefaults := by
  refine hP.record ?_ independent_defaultsSlots _ _
  simp only [defaultsSlots, List.forall_mem_cons]
  exact ⟨hP.slot hP.override _ _ _, hP.slot hP.override _ _ _, by simp⟩

theorem hat : P Hat readHat := by
  refine hP.record ?_ independent_hatSlots _ _
  simp only [hatSlots, List.forall_mem_cons]
  exact ⟨hP.slot hP.freeText _ _ _, hP.slot hP.freeText _ _ _, hP.slot hP.names _ _ _, hP.slot hP.names _ _ _,
    hP.slot hP.override _ _ _, hP.slot hP.override _ _ _, hP.slot hP.freeText _ _ _, by simp⟩

theorem event : P Event readEvent := by
  refine hP.record ?_ (List.pairwise_singleton _ _) _ _
  intro slot hslot
  obtain rfl := List.mem_singleton.1 hslot
  exact hP.slot hP.freeText _ _ _

theorem shape : P Workflow shape := by
  refine hP.record ?_ independent_workflowSlots _ _
  simp only [workflowSlots, List.forall_mem_cons]
  exact ⟨hP.slot hP.freeText _ _ _, hP.slot hP.freeText _ _ _, hP.slot (hP.named hP.hat _) _ _ _,
    hP.slot hP.defaults _ _ _, hP.slot (hP.named hP.event _) _ _ _, hP.slot hP.aliases _ _ _, by simp⟩

end Hereditary

theorem hereditary_orderFree : Hereditary fun _ read => OrderFree read where
  text := orderFree_readText
  nameSet := orderFree_readNameSet
  option := orderFree_readOption
  map := orderFree_map
  table hkey h := orderFree_readTable (readsName_of hkey) h
  record := orderFree_readRecord

/-- Trees that differ only in the order of entries have the same shape. -/
theorem orderFree_shape : OrderFree shape :=
  hereditary_orderFree.shape

end Preflight.Config
