import Mathlib.Algebra.GroupWithZero.Nat
/-!
# The lines of a text

A text has one line more than it has line breaks (`length_lines`). Texts that
are joined by line breaks are the lines of the whole exactly if there is no line
break in any of them (`lines_joined_eq_self_iff`).
-/

namespace Preflight.Text

/-- What stands between the line breaks of a text. -/
def lines (s : String) : List String :=
  (s.toList.splitOn '\n').map String.ofList

theorem lines_append_break (s t : String) : lines (s ++ "\n" ++ t) = lines s ++ lines t := by
  have hsplit := List.splitOn_append_cons_self (a := '\n') s.toList t.toList
  simp [lines, hsplit]

theorem lines_joined (s : String) (ts : List String) :
    lines ("\n".intercalate (s :: ts)) = (s :: ts).flatMap lines := by
  induction ts generalizing s with
  | nil => simp
  | cons t ts ih =>
    rw [String.intercalate_cons_cons, lines_append_break, ih]
    rfl

theorem length_splitOn {α : Type} [DecidableEq α] (a : α) (l : List α) :
    (l.splitOn a).length = l.count a + 1 := by
  induction l with
  | nil => simp
  | cons x l ih =>
    rw [List.splitOn_cons_eq_if_modifyHead, List.count_cons]
    split <;> simp [ih]

theorem length_lines (s : String) : (lines s).length = s.toList.count '\n' + 1 := by
  rw [lines, List.length_map, length_splitOn]

theorem length_lines_joined {ts : List String} (hts : ts ≠ []) :
    (lines ("\n".intercalate ts)).length = ts.length + (ts.map (·.toList.count '\n')).sum := by
  obtain ⟨s, ts, rfl⟩ := List.exists_cons_of_ne_nil hts
  rw [lines_joined, List.length_flatMap]
  simp only [length_lines]
  generalize s :: ts = us
  induction us with
  | nil => rfl
  | cons u us ih => simp only [List.map_cons, List.sum_cons, List.length_cons, ih]; omega

theorem lines_eq_singleton {s : String} (h : '\n' ∉ s.toList) : lines s = [s] := by
  simp [lines, List.splitOn_eq_singleton h]

theorem lines_joined_eq_self_iff {ts : List String} (hts : ts ≠ []) :
    lines ("\n".intercalate ts) = ts ↔ ∀ t ∈ ts, '\n' ∉ t.toList := by
  constructor
  · intro h t ht
    -- Each break in one of the texts would make a line too many.
    have hlength := length_lines_joined hts
    rw [h] at hlength
    have hsum : (ts.map (·.toList.count '\n')).sum = 0 := by omega
    rw [List.sum_eq_zero_iff_forall_eq_nat] at hsum
    exact List.count_eq_zero.1 (hsum _ (List.mem_map_of_mem ht))
  · intro h
    obtain ⟨s, ts, rfl⟩ := List.exists_cons_of_ne_nil hts
    rw [lines_joined]
    generalize s :: ts = us at h
    induction us with
    | nil => rfl
    | cons u us ih =>
      rw [List.forall_mem_cons] at h
      rw [List.flatMap_cons, lines_eq_singleton h.1, ih h.2, List.singleton_append]

/-- Each of the texts that are joined occurs in the whole. -/
theorem infix_joined {s : String} {ts : List String} (h : s ∈ ts) :
    s.toList <:+: ("\n".intercalate ts).toList := by
  induction ts with
  | nil => simp at h
  | cons t ts ih =>
    cases ts with
    | nil => simp_all
    | cons u us =>
      rw [String.intercalate_cons_cons, String.toList_append, String.toList_append]
      rcases List.mem_cons.1 h with rfl | h
      · rw [List.append_assoc]
        exact (List.prefix_append _ _).isInfix
      · exact (ih h).trans (List.suffix_append _ _).isInfix

theorem joined_ne_empty {s : String} {ts : List String} (h : s ∈ ts) (hs : s ≠ "") : "\n".intercalate ts ≠ "" := by
  intro hempty
  have hinfix := infix_joined h
  rw [hempty, String.toList_empty, List.infix_nil, String.toList_eq_nil_iff] at hinfix
  exact hs hinfix

end Preflight.Text
