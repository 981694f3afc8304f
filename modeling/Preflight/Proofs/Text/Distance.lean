import Mathlib.Data.List.Infix
import Mathlib.Order.Bounds.Basic
import Mathlib.Order.MinMax
import Preflight.Text.Distance
/-!
# The distance is the length of a shortest script

A script turns one text into another by edits of one character each. Whatever
the order of its edits, it aligns the two texts with at most as many differences
(`Script.exists_aligned`), and the table of distances holds the fewest
differences with which the texts can be aligned (`shortest_distances`). Hence
`distance_isLeast`: the distance is the least length of a script.
-/

namespace Preflight.Text

/-! ## Scripts -/

/-- One character is inserted, deleted or replaced. -/
inductive Edit : List Char → List Char → Prop
  | insert (before after : List Char) (c : Char) : Edit (before ++ after) (before ++ c :: after)
  | delete (before after : List Char) (c : Char) : Edit (before ++ c :: after) (before ++ after)
  | replace (before after : List Char) (c d : Char) : Edit (before ++ c :: after) (before ++ d :: after)

/-- A number of edits, one after the other, turn the first text into the second. -/
inductive Script : Nat → List Char → List Char → Prop
  | done (s : List Char) : Script 0 s s
  | step {n : Nat} {s t u : List Char} (h : Edit s t) (hs : Script n t u) : Script (n + 1) s u

theorem Edit.cons {s t : List Char} (h : Edit s t) (c : Char) : Edit (c :: s) (c :: t) := by
  cases h with
  | insert before after d => exact .insert (c :: before) after d
  | delete before after d => exact .delete (c :: before) after d
  | replace before after d e => exact .replace (c :: before) after d e

theorem Script.cons {n : Nat} {s t : List Char} (h : Script n s t) (c : Char) : Script n (c :: s) (c :: t) := by
  induction h with
  | done s => exact .done (c :: s)
  | step h _ ih => exact .step (h.cons c) ih

/-! ## Alignments -/

/-- The two texts side by side, with a number of places at which they differ. -/
inductive Aligned : Nat → List Char → List Char → Prop
  | nil : Aligned 0 [] []
  | keep {n : Nat} {s t : List Char} (c : Char) (h : Aligned n s t) : Aligned n (c :: s) (c :: t)
  | replace {n : Nat} {s t : List Char} (c d : Char) (h : Aligned n s t) : Aligned (n + 1) (c :: s) (d :: t)
  | insert {n : Nat} {s t : List Char} (d : Char) (h : Aligned n s t) : Aligned (n + 1) s (d :: t)
  | delete {n : Nat} {s t : List Char} (c : Char) (h : Aligned n s t) : Aligned (n + 1) (c :: s) t

namespace Aligned

theorem append_left (before : List Char) {n : Nat} {s t : List Char} (h : Aligned n s t) :
    Aligned n (before ++ s) (before ++ t) := by
  induction before with
  | nil => exact h
  | cons c before ih => exact .keep c ih

theorem refl (s : List Char) : Aligned 0 s s := by
  simpa using append_left s .nil

theorem symm {n : Nat} {s t : List Char} (h : Aligned n s t) : Aligned n t s := by
  induction h with
  | nil => exact .nil
  | keep c _ ih => exact .keep c ih
  | replace c d _ ih => exact .replace d c ih
  | insert d _ ih => exact .delete d ih
  | delete c _ ih => exact .insert c ih

theorem eq_of_zero {s t : List Char} (h : Aligned 0 s t) : s = t := by
  generalize hn : 0 = n at h
  induction h with
  | nil => rfl
  | keep c _ ih => rw [ih hn]
  | replace | insert | delete => exact absurd hn (by omega)

/-- Two alignments through a text make one without it, with no more differences. -/
theorem trans : ∀ {m n : Nat} {s t u : List Char}, Aligned m s t → Aligned n t u → ∃ k ≤ m + n, Aligned k s u
  -- What is deleted first, or inserted last, is no part of the text between.
  | _, _, _, _, _, .delete c h, h' => by
    obtain ⟨k, hk, hsu⟩ := trans h h'
    exact ⟨k + 1, by omega, .delete c hsu⟩
  | _, _, _, _, _, h, .insert d h' => by
    obtain ⟨k, hk, hsu⟩ := trans h h'
    exact ⟨k + 1, by omega, .insert d hsu⟩
  | _, _, _, _, _, .nil, .nil => ⟨0, by omega, .nil⟩
  | _, _, _, _, _, .keep c h, .keep _ h' => by
    obtain ⟨k, hk, hsu⟩ := trans h h'
    exact ⟨k, hk, .keep c hsu⟩
  | _, _, _, _, _, .keep c h, .replace _ d h' | _, _, _, _, _, .replace c _ h, .keep d h'
  | _, _, _, _, _, .replace c _ h, .replace _ d h' => by
    obtain ⟨k, hk, hsu⟩ := trans h h'
    exact ⟨k + 1, by omega, .replace c d hsu⟩
  | _, _, _, _, _, .keep c h, .delete _ h' | _, _, _, _, _, .replace c _ h, .delete _ h' => by
    obtain ⟨k, hk, hsu⟩ := trans h h'
    exact ⟨k + 1, by omega, .delete c hsu⟩
  | _, _, _, _, _, .insert _ h, .keep d h' | _, _, _, _, _, .insert _ h, .replace _ d h' => by
    obtain ⟨k, hk, hsu⟩ := trans h h'
    exact ⟨k + 1, by omega, .insert d hsu⟩
  | _, _, _, _, _, .insert _ h, .delete _ h' => by
    obtain ⟨k, hk, hsu⟩ := trans h h'
    exact ⟨k, by omega, hsu⟩

/-- The differences can be made one by one. -/
theorem script {n : Nat} {s t : List Char} (h : Aligned n s t) : Script n s t := by
  induction h with
  | nil => exact .done []
  | keep c _ ih => exact ih.cons c
  | @replace n s t c d _ ih => exact .step (.replace [] s c d) (ih.cons d)
  | @insert n s t d _ ih => exact .step (.insert [] s d) (ih.cons d)
  | @delete n s t c _ ih => exact .step (.delete [] s c) ih

end Aligned

theorem Edit.aligned {s t : List Char} (h : Edit s t) : Aligned 1 s t := by
  cases h with
  | insert before after c => exact .append_left before (.insert c (.refl after))
  | delete before after c => exact .append_left before (.delete c (.refl after))
  | replace before after c d => exact .append_left before (.replace c d (.refl after))

/-- No script is shorter than the alignment it leads to. -/
theorem Script.exists_aligned {n : Nat} {s t : List Char} (h : Script n s t) : ∃ k ≤ n, Aligned k s t := by
  induction h with
  | done s => exact ⟨0, by omega, .refl s⟩
  | step h _ ih =>
    obtain ⟨k, hk, htu⟩ := ih
    obtain ⟨j, hj, hsu⟩ := h.aligned.trans htu
    exact ⟨j, by omega, hsu⟩

/-! ## The fewest differences -/

/-- The fewest differences with which the texts can be aligned. -/
abbrev Shortest (s t : List Char) (n : Nat) : Prop :=
  IsLeast {k | Aligned k s t} n

theorem shortest_script {s t : List Char} {n : Nat} (h : Shortest s t n) : IsLeast {k | Script k s t} n := by
  constructor
  · exact h.1.script
  · intro k hk
    obtain ⟨j, hj, hst⟩ := Script.exists_aligned hk
    have := h.2 hst
    omega

theorem Shortest.symm {s t : List Char} {n : Nat} (h : Shortest s t n) : Shortest t s n :=
  ⟨h.1.symm, fun _ hk => h.2 (Aligned.symm hk)⟩

theorem Shortest.cons_nil {s : List Char} {n : Nat} (h : Shortest s [] n) (c : Char) :
    Shortest (c :: s) [] (n + 1) := by
  constructor
  · exact .delete c h.1
  · intro k hk
    cases hk with
    | delete _ hk =>
      have := h.2 hk
      omega

theorem shortest_nil (t : List Char) : Shortest [] t t.length := by
  induction t with
  | nil => exact ⟨.nil, fun _ _ => Nat.zero_le _⟩
  | cons d t ih => exact (ih.symm.cons_nil d).symm

/-- The first place of an alignment is one of three, and what is after it is aligned as well as can be. -/
theorem shortest_cons_cons {s t : List Char} {c d : Char} {here next right : Nat} (hhere : Shortest s (d :: t) here)
    (hnext : Shortest s t next) (hright : Shortest (c :: s) t right) :
    Shortest (c :: s) (d :: t) (min (min (next + if c = d then 0 else 1) (here + 1)) (right + 1)) := by
  constructor
  · have hdiagonal : Aligned (next + if c = d then 0 else 1) (c :: s) (d :: t) := by
      split
      · rename_i hcd
        exact hcd ▸ .keep c hnext.1
      · exact .replace c d hnext.1
    rcases min_choice (min (next + if c = d then 0 else 1) (here + 1)) (right + 1) with h | h
    · rw [h]
      rcases min_choice (next + if c = d then 0 else 1) (here + 1) with h | h
      · rw [h]
        exact hdiagonal
      · rw [h]
        exact .delete c hhere.1
    · rw [h]
      exact .insert d hright.1
  · intro k hk
    cases hk with
    | keep _ hk =>
      have := hnext.2 hk
      rw [if_pos rfl]
      omega
    | replace _ _ hk =>
      have := hnext.2 hk
      split <;> omega
    | insert _ hk =>
      have := hright.2 hk
      omega
    | delete _ hk =>
      have := hhere.2 hk
      omega

/-! ## The table of distances -/

/-- The row holds the fewest differences of a text from each end of another. -/
abbrev ShortestRow (s t : List Char) (row : List Nat) : Prop :=
  List.Forall₂ (Shortest s) t.tails row

theorem exists_head_of_shortestRow {s t : List Char} {row : List Nat} (h : ShortestRow s t row) :
    ∃ n rest, row = n :: rest ∧ Shortest s t n := by
  cases t <;> cases h <;> exact ⟨_, _, rfl, ‹_›⟩

/-- A row made of the row below it holds the fewest differences if that does. -/
theorem shortest_prependRow {s t : List Char} {row : List Nat} (h : ShortestRow s t row) (c : Char) :
    ShortestRow (c :: s) t (prependRow c t row) := by
  induction t generalizing row with
  | nil =>
    obtain ⟨n, rest, rfl, hn⟩ := exists_head_of_shortestRow h
    cases h with
    | cons _ hrest =>
      cases hrest
      exact .cons (hn.cons_nil c) .nil
  | cons d t ih =>
    rw [ShortestRow, List.tails_cons] at h
    cases h with
    | @cons _ here _ rest hhere hrest =>
      obtain ⟨next, below, rfl, hnext⟩ := exists_head_of_shortestRow hrest
      have hrow := ih hrest
      obtain ⟨right, row, hright, hshortest⟩ := exists_head_of_shortestRow hrow
      rw [ShortestRow, List.tails_cons, prependRow, hright]
      rw [hright] at hrow
      exact .cons (shortest_cons_cons hhere hnext hshortest) hrow

/-- Each row of the table holds the fewest differences. -/
theorem shortest_distances (s t : List Char) : ShortestRow s t (distances s t) := by
  induction s with
  | nil =>
    rw [distances]
    induction t with
    | nil => exact .cons (shortest_nil []) .nil
    | cons d t ih =>
      rw [ShortestRow, List.tails_cons, List.length_cons, List.range_succ, List.reverse_append]
      exact .cons (shortest_nil (d :: t)) ih
  | cons c s ih => exact shortest_prependRow ih c

theorem shortest_distance (s t : String) : Shortest s.toList t.toList (distance s t) := by
  obtain ⟨n, rest, hrow, hn⟩ := exists_head_of_shortestRow (shortest_distances s.toList t.toList)
  rw [distance, hrow]
  exact hn

theorem script_distance (s t : String) : IsLeast {n | Script n s.toList t.toList} (distance s t) :=
  shortest_script (shortest_distance s t)

theorem distance_eq_zero_iff (s t : String) : distance s t = 0 ↔ s = t := by
  constructor
  · intro h
    have haligned := (shortest_distance s t).1
    rw [h] at haligned
    exact String.toList_inj.1 (Aligned.eq_of_zero haligned)
  · rintro rfl
    exact Nat.le_zero.1 ((shortest_distance s s).2 (Aligned.refl s.toList))

/-- The distance of two texts is the least number of edits that turn one into the other, so it is zero only for equal
texts, the same in both directions, and never longer than a way through a third text. -/
theorem distance_isLeast (s t : String) :
    IsLeast {n | Script n s.toList t.toList} (distance s t) ∧ (distance s t = 0 ↔ s = t) ∧
      distance s t = distance t s ∧ ∀ u, distance s u ≤ distance s t + distance t u := by
  refine ⟨script_distance s t, distance_eq_zero_iff s t, ?_, ?_⟩
  · exact (shortest_distance s t).unique (shortest_distance t s).symm
  · intro u
    obtain ⟨k, hk, hsu⟩ := (shortest_distance s t).1.trans (shortest_distance t u).1
    have := (shortest_distance s u).2 hsu
    omega

example : distance "café" "cafe" = 1 := by decide +kernel

end Preflight.Text
