import Preflight.Graph.Report
/-!
# The order of a report

`Diagnostic.order` compares any two findings, whatever is absent in them, by
what they say of their site (`order_eq_lt_iff`), and is transitive. A report is
thus a sorted rearrangement of the findings it is made of (`perm_ofList`,
`ofList_sorted`), and where the order tells all findings apart it ascends
strictly (`ofList_strict`).
-/

namespace Preflight

theorem compare_eq_lt_iff (x y : String) : compare x y = .lt ↔ x < y :=
  compareOfLessAndEq_eq_lt

theorem compare_eq_eq_iff (x y : String) : compare x y = .eq ↔ x = y :=
  Std.LawfulEqCmp.compare_eq_iff_eq

theorem compare_rank_eq_lt_iff (u v : Usage) : compareOn Usage.rank u v = .lt ↔ u = .trigger ∧ v = .publish := by
  cases u <;> cases v <;> decide

theorem compare_rank_eq_eq_iff (u v : Usage) : compareOn Usage.rank u v = .eq ↔ u = v := by
  cases u <;> cases v <;> decide

end Preflight

namespace Preflight.Diagnostic

open Std

/-! ## What is absent comes first -/

/-- One comes before the other, and what is absent before all else. -/
def Ahead {α : Type} (before : α → α → Prop) : Option α → Option α → Prop
  | none, some _ => True
  | some a, some b => before a b
  | _, none => False

/-- One finding comes before the other: by hat, then by event, both by code point, and a trigger before a publish. -/
def Before (a b : Diagnostic) : Prop :=
  Ahead (· < ·) a.hat b.hat ∨ a.hat = b.hat ∧
    (Ahead (· < ·) a.event b.event ∨ a.event = b.event ∧
      Ahead (fun u v => u = .trigger ∧ v = .publish) a.usage b.usage)

/-- What the order of findings looks at. -/
def key (d : Diagnostic) : Option String × Option String × Option Usage :=
  (d.hat, d.event, d.usage)

theorem absentFirst_eq_lt_iff {α : Type} {cmp : α → α → Ordering} {before : α → α → Prop}
    (h : ∀ x y, cmp x y = .lt ↔ before x y) (a b : Option α) : absentFirst cmp a b = .lt ↔ Ahead before a b := by
  cases a <;> cases b <;> simp [absentFirst, Ahead, h]

theorem absentFirst_eq_eq_iff {α : Type} {cmp : α → α → Ordering} (h : ∀ x y, cmp x y = .eq ↔ x = y)
    (a b : Option α) : absentFirst cmp a b = .eq ↔ a = b := by
  cases a <;> cases b <;> simp [absentFirst, h]

theorem order_eq_lt_iff (a b : Diagnostic) : a.order b = .lt ↔ a.Before b := by
  simp only [order, Before, Ordering.then_eq_lt, absentFirst_eq_lt_iff compare_eq_lt_iff,
    absentFirst_eq_eq_iff compare_eq_eq_iff, absentFirst_eq_lt_iff compare_rank_eq_lt_iff]

theorem order_eq_eq_iff (a b : Diagnostic) : a.order b = .eq ↔ a.key = b.key := by
  simp only [order, key, Ordering.then_eq_eq, absentFirst_eq_eq_iff compare_eq_eq_iff,
    absentFirst_eq_eq_iff compare_rank_eq_eq_iff, Prod.mk.injEq]

/-! ## The order is total and transitive -/

instance orientedCmp_absentFirst {α : Type} {cmp : α → α → Ordering} [OrientedCmp cmp] :
    OrientedCmp (absentFirst cmp) where
  eq_swap {a b} := by
    cases a <;> cases b <;> simp [absentFirst, ← OrientedCmp.eq_swap]

instance transCmp_absentFirst {α : Type} {cmp : α → α → Ordering} [TransCmp cmp] :
    TransCmp (absentFirst cmp) where
  isLE_trans {a b c} hab hbc := by
    cases a <;> cases b <;> cases c <;> try simp_all [absentFirst]; done
    exact @TransCmp.isLE_trans _ cmp _ _ _ _ hab hbc

/-- Findings compared by one of their parts. -/
def orderBy {α : Type} (part : Diagnostic → Option α) (cmp : α → α → Ordering) (a b : Diagnostic) : Ordering :=
  absentFirst cmp (part a) (part b)

instance orientedCmp_orderBy {α : Type} {part : Diagnostic → Option α} {cmp : α → α → Ordering} [OrientedCmp cmp] :
    OrientedCmp (orderBy part cmp) where
  eq_swap {a b} := @OrientedCmp.eq_swap _ (absentFirst cmp) _ (part a) (part b)

instance transCmp_orderBy {α : Type} {part : Diagnostic → Option α} {cmp : α → α → Ordering} [TransCmp cmp] :
    TransCmp (orderBy part cmp) where
  isLE_trans {a b c} := @TransCmp.isLE_trans _ (absentFirst cmp) _ (part a) (part b) (part c)

theorem order_eq_lex : order = compareLex (orderBy (·.hat) compare)
    (compareLex (orderBy (·.event) compare) (orderBy (·.usage) (compareOn Usage.rank))) := by
  funext a b
  rfl

instance transCmp_order : TransCmp order :=
  order_eq_lex ▸ inferInstance

theorem isLE_order_trans (a b c : Diagnostic) (hab : (a.order b).isLE) (hbc : (b.order c).isLE) : (a.order c).isLE :=
  TransCmp.isLE_trans hab hbc

theorem isLE_order_total (a b : Diagnostic) : ((a.order b).isLE || (b.order a).isLE) = true := by
  rw [@OrientedCmp.eq_swap _ order _ b a]
  cases a.order b <;> rfl

theorem not_before_of_isLE {a b : Diagnostic} (h : (a.order b).isLE) : ¬b.Before a := by
  rw [← order_eq_lt_iff, ← OrientedCmp.gt_iff_lt]
  exact fun hgt => nomatch hgt ▸ h

end Preflight.Diagnostic

namespace Preflight.Report

open Std

/-! ## Sorting -/

theorem perm_ofList (found : List Diagnostic) : (ofList found).diagnostics.Perm found :=
  List.mergeSort_perm _ _

theorem ofList_sorted (found : List Diagnostic) :
    (ofList found).diagnostics.Pairwise fun a b => (a.order b).isLE :=
  List.pairwise_mergeSort Diagnostic.isLE_order_trans Diagnostic.isLE_order_total found

/-- Findings that the order tells apart ascend strictly in their report. -/
theorem ofList_strict {found : List Diagnostic} (h : found.Pairwise fun a b => a.order b ≠ .eq) :
    (ofList found).diagnostics.Pairwise fun a b => a.order b = .lt := by
  have hne : (ofList found).diagnostics.Pairwise fun a b => a.order b ≠ .eq := by
    refine ((perm_ofList found).pairwise_iff ?_).2 h
    intro a b hab hba
    exact hab (OrientedCmp.eq_symm hba)
  refine (ofList_sorted found).imp₂ ?_ hne
  intro a b hle hne
  exact (Ordering.isLE_iff_eq_lt_or_eq_eq.1 hle).resolve_right hne

end Preflight.Report
