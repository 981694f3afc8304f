import Preflight.Proofs.Graph.Dangling
/-!
# A report arranges its findings

A report neither drops nor repeats a finding, and those that its order does not
tell apart stay as they were found (`filter_key_ofList`). No two findings of a
check are alike in that order, so their report is the same however they were
come by (`ofList_arranges`).
-/

namespace Preflight.Report

/-- The sorted findings are those that were found, in the order of a report, and those about one site are in the order
in which they were found. -/
structure Arranges (found sorted : List Diagnostic) : Prop where
  perm : sorted.Perm found
  ordered : sorted.Pairwise fun a b => ¬b.Before a
  stable : ∀ key, sorted.filter (·.key = key) = found.filter (·.key = key)

/-- The findings about one site stand in a report as they were found. -/
theorem filter_key_ofList (found : List Diagnostic) (key : Option String × Option String × Option Usage) :
    (ofList found).diagnostics.filter (·.key = key) = found.filter (·.key = key) := by
  -- Findings with one key are in order however they stand, and sorting keeps what is in order as it is.
  have hequal : (found.filter (·.key = key)).Pairwise fun a b => (a.order b).isLE := by
    refine List.pairwise_of_forall_mem_list ?_
    intro a ha b hb
    have hkey : a.key = b.key := by
      rw [of_decide_eq_true (List.mem_filter.1 ha).2, of_decide_eq_true (List.mem_filter.1 hb).2]
    rw [(Diagnostic.order_eq_eq_iff a b).2 hkey]
    rfl
  have hsub : (found.filter (·.key = key)).Sublist (ofList found).diagnostics :=
    List.sublist_mergeSort Diagnostic.isLE_order_trans Diagnostic.isLE_order_total hequal List.filter_sublist
  have hfilter := hsub.filter fun d => decide (d.key = key)
  rw [List.filter_filter] at hfilter
  simp only [Bool.and_self] at hfilter
  refine (hfilter.eq_of_length ?_).symm
  exact ((perm_ofList found).filter _).length_eq.symm

theorem arranges_ofList (found : List Diagnostic) : Arranges found (ofList found).diagnostics where
  perm := perm_ofList found
  ordered := (ofList_sorted found).imp Diagnostic.not_before_of_isLE
  stable := filter_key_ofList found

/-- Where the order tells all findings apart it does not matter in which order they were found. -/
theorem ofList_eq_of_perm {found others : List Diagnostic} (h : others.Perm found)
    (hapart : found.Pairwise fun a b => a.order b ≠ .eq) : ofList others = ofList found := by
  have hothers : others.Pairwise fun a b => a.order b ≠ .eq := by
    refine (h.pairwise_iff ?_).2 hapart
    intro a b hab hba
    exact hab (Std.OrientedCmp.eq_symm hba)
  have hperm := (perm_ofList others).trans (h.trans (perm_ofList found).symm)
  refine congrArg Report.mk (hperm.eq_of_pairwise ?_ (ofList_strict hothers) (ofList_strict hapart))
  intro a b _ _ hab hba
  exact absurd hab (Std.OrientedCmp.not_lt_of_lt hba)

/-- A report arranges any findings by hat, event and usage, whatever is absent in them. The findings of a check have the
same report in whatever order they are given. -/
theorem ofList_arranges :
    (∀ found, Arranges found (ofList found).diagnostics) ∧
    ∀ declared hats found, found.Perm (undeclaredEvents declared hats) →
      ofList found = ofList (undeclaredEvents declared hats) := by
  refine ⟨arranges_ofList, ?_⟩
  intro declared hats found h
  exact ofList_eq_of_perm h (undeclaredEvents_apart declared hats)

theorem unheard_reversed :
    (undeclaredEvents [] unheard.hats).reverse ≠ undeclaredEvents [] unheard.hats ∧
      ofList (undeclaredEvents [] unheard.hats).reverse = ofList (undeclaredEvents [] unheard.hats) := by
  refine ⟨by decide +kernel, ?_⟩
  exact ofList_arranges.2 [] unheard.hats _ (List.reverse_perm _)

end Preflight.Report
