import Preflight.Proofs.Text.Template
/-!
# Templates that are joined

Where one text ends and another begins no placeholder is lost or made, unless
the first ends unfinished or a `$` and a `{` meet at the seam (`Splits.join`).
So joined texts are filled one by one (`substitute_append`). What is put into a
text becomes part of the stretch around it, and the placeholders that are left
are found there again, so filling a text twice is filling it once
(`substitute_twice`).
-/

namespace Preflight.Text

/-! ## The seam -/

/-- Two stretches make no new `ab` unless an `a` and a `b` meet. -/
theorem not_infix_append {a b : Char} {l m : List Char} (hl : ¬ [a, b] <:+: l) (hm : ¬ [a, b] <:+: m)
    (hseam : l.getLast? = some a → m.head? ≠ some b) : ¬ [a, b] <:+: l ++ m := by
  induction l with
  | nil => exact hm
  | cons c l ih =>
    rw [List.cons_append]
    rcases l with _ | ⟨x, l⟩
    · apply not_infix_cons hm
      rintro rfl
      exact hseam rfl
    · have hrest : ¬ [a, b] <:+: x :: l := fun hi => hl (hi.trans (List.suffix_cons c _).isInfix)
      apply not_infix_cons
      · exact ih hrest (by simpa using hseam)
      · rintro rfl hx
        obtain rfl : x = b := by simpa using hx
        exact hl (List.prefix_append [c, x] l).isInfix

namespace Template

/-- The stretch with which a template begins. -/
def first (t : Template) : List Char :=
  match t.holes with
  | [] => t.last
  | h :: _ => h.before

/-- The holes of one template, which has no unfinished end, and those of another. The stretch between them is the last
of the one and the first of the other. -/
def join (t u : Template) : Template :=
  match u.holes with
  | [] => ⟨t.holes, t.last ++ u.last, u.tail⟩
  | h :: hs => ⟨t.holes ++ { h with before := t.last ++ h.before } :: hs, u.last, u.tail⟩

variable {t u : Template} {xs ys : List Char}

theorem tail_join (t u : Template) : (t.join u).tail = u.tail := by
  obtain ⟨_ | ⟨h, hs⟩, last, tail⟩ := u <;> rfl

theorem spelled_join (ht : t.tail = []) (u : Template) : (t.join u).spelled = t.spelled ++ u.spelled := by
  obtain ⟨_ | ⟨h, hs⟩, last, tail⟩ := u <;> simp [join, spelled, ht, Hole.spelled, Hole.body]

theorem filled_join (lookup : String → Option String) (ht : t.tail = []) (u : Template) :
    (t.join u).filled lookup = t.filled lookup ++ u.filled lookup := by
  obtain ⟨_ | ⟨h, hs⟩, last, tail⟩ := u
  · simp [join, filled, ht]
  · -- What takes the place of a placeholder does not depend on the stretch before it.
    have hfilled : Hole.filled lookup { h with before := t.last ++ h.before } = h.filled lookup := rfl
    simp [join, filled, ht, hfilled]

theorem map_holes_join {α : Type} {f : Hole → α} (hf : ∀ h before, f { h with before := before } = f h)
    (t u : Template) : (t.join u).holes.map f = t.holes.map f ++ u.holes.map f := by
  obtain ⟨_ | ⟨h, hs⟩, last, tail⟩ := u <;> simp [join, hf]

/-- Templates of two texts that do not meet in a `$` and a `{` make that of the whole. -/
theorem Splits.join (ht : t.Splits xs) (hfinished : t.tail = []) (hu : u.Splits ys)
    (hseam : t.last.getLast? = some '$' → u.first.head? ≠ some '{') : (t.join u).Splits (xs ++ ys) := by
  have hspelled : (t.join u).spelled = xs ++ ys := by rw [spelled_join hfinished, ht.spelled, hu.spelled]
  have htail : (t.join u).tail = [] ∨ ['$', '{'] <+: (t.join u).tail ∧ '}' ∉ (t.join u).tail := by
    rw [tail_join]
    exact hu.tail
  obtain ⟨_ | ⟨h, hs⟩, last, tail⟩ := u
  · exact ⟨hspelled, ht.holes, not_infix_append ht.last hu.last hseam, htail⟩
  · refine ⟨hspelled, ?_, hu.last, htail⟩
    have hh := hu.holes h (by simp)
    intro g hg
    rcases List.mem_append.1 hg with hg | hg
    · exact ht.holes g hg
    · rcases List.mem_cons.1 hg with rfl | hg
      · exact ⟨not_infix_append ht.last hh.before hseam, hh.body, hh.name⟩
      · exact hu.holes g (by simp [hg])

theorem Splits.getLast?_eq (ht : t.Splits xs) (hfinished : t.tail = []) {c : Char} (h : t.last.getLast? = some c) :
    xs.getLast? = some c := by
  rw [← ht.spelled, Template.spelled, hfinished, List.append_nil, List.getLast?_append, h]
  rfl

theorem Splits.head?_eq (ht : t.Splits xs) {c : Char} (h : t.first.head? = some c) : xs.head? = some c := by
  obtain ⟨_ | ⟨g, gs⟩, last, tail⟩ := t
  · have hlast : last.head? = some c := h
    simp [← ht.spelled, Template.spelled, hlast]
  · have hbefore : g.before.head? = some c := h
    simp [← ht.spelled, Template.spelled, hbefore]

/-- The output is the template of the text, whichever way it was found, with each placeholder filled. -/
theorem Splits.substitute_eq {text : String} (ht : t.Splits text.toList) (lookup : String → Option String) :
    substitute lookup text = String.ofList (t.filled lookup) := by
  obtain ⟨u, hu, hfill⟩ := exists_template lookup text.toList
  rw [substitute, hfill, hu.unique ht]

end Template

/-- Joined texts are filled one by one, if each `${` of the first is closed in it and no `${` begins at the seam. -/
theorem substitute_append (lookup : String → Option String) {x y : String} {t : Template} (ht : t.Splits x.toList)
    (hfinished : t.tail = []) (hseam : ¬ (x.toList.getLast? = some '$' ∧ y.toList.head? = some '{')) :
    substitute lookup (x ++ y) = substitute lookup x ++ substitute lookup y := by
  obtain ⟨u, hu, -⟩ := exists_template lookup y.toList
  have hjoin : (t.join u).Splits (x ++ y).toList := by
    rw [String.toList_append]
    apply ht.join hfinished hu
    intro hlast hfirst
    exact hseam ⟨ht.getLast?_eq hfinished hlast, hu.head?_eq hfirst⟩
  rw [hjoin.substitute_eq, ht.substitute_eq, hu.substitute_eq, Template.filled_join lookup hfinished,
    String.ofList_append]

/-- Two `$` meet, and the second begins a placeholder. -/
theorem dollars_append :
    let lookup := fun name => if name = "B" then some "b" else none
    (⟨[⟨['a', '$'], ['A'], some ['$']⟩], ['$'], []⟩ : Template).Splits "a$${A:-$}$".toList ∧
      substitute lookup ("a$${A:-$}$" ++ "${B}\x7b") = substitute lookup "a$${A:-$}$" ++ substitute lookup "${B}\x7b" := by
  intro lookup
  have ht : (⟨[⟨['a', '$'], ['A'], some ['$']⟩], ['$'], []⟩ : Template).Splits "a$${A:-$}$".toList := by
    refine ⟨by decide, ?_, by decide, .inl rfl⟩
    simp only [List.mem_singleton, forall_eq]
    exact ⟨by decide, by decide, by decide⟩
  exact ⟨ht, substitute_append lookup ht rfl (by decide)⟩

/-! ## What is put in -/

/-- What is put in the place of a placeholder, if anything is: for a name, the variable if it is set and not empty (or
has no fallback), else the fallback. -/
def Hole.inserted? (lookup : String → Option String) (h : Hole) : Option (List Char) :=
  let value := (lookup (String.ofList h.name)).filter fun v => v ≠ "" ∨ h.fallback = none
  if IsName h.name then (value.map String.toList) <|> h.fallback else none

/-- What a placeholder says: a name and a fallback. -/
def Hole.content (h : Hole) : List Char × Option (List Char) :=
  (h.name, h.fallback)

/-- Not empty, and without a character of `${`. -/
def Harmless (value : List Char) : Prop :=
  value ≠ [] ∧ '$' ∉ value ∧ '{' ∉ value

instance : DecidablePred Harmless :=
  fun _ => inferInstanceAs (Decidable (_ ∧ _))

/-- The template of a filled placeholder and the stretch before it: one stretch, or the placeholder as it was. -/
def Hole.settled (lookup : String → Option String) (h : Hole) : Template :=
  match h.inserted? lookup with
  | some value => ⟨[], h.before ++ value, []⟩
  | none => ⟨[h], [], []⟩

/-- The template of what comes of a template when its placeholders are filled. -/
def Template.settled (lookup : String → Option String) (t : Template) : Template :=
  t.holes.foldr (fun h u => (h.settled lookup).join u) ⟨[], t.last, t.tail⟩

section Settled
variable {lookup : String → Option String} {h : Hole}

theorem Hole.filled_eq (lookup : String → Option String) (h : Hole) :
    h.filled lookup = (h.inserted? lookup).getD h.spelled := by
  rw [filled, inserted?]
  split <;> rfl

theorem Hole.tail_settled (lookup : String → Option String) (h : Hole) : (h.settled lookup).tail = [] := by
  rw [settled]
  split <;> rfl

/-- Filled once more, a placeholder that was left stays as it is. -/
theorem Hole.filled_settled (lookup : String → Option String) (h : Hole) :
    (h.settled lookup).filled lookup = h.before ++ h.filled lookup := by
  rw [settled, filled_eq]
  split
  · rename_i value hvalue
    simp [Template.filled, hvalue]
  · rename_i hnone
    simp [Template.filled, filled_eq, hnone]

theorem not_infix_of_harmless {before value : List Char} (hbefore : ¬ ['$', '{'] <:+: before) (hv : Harmless value) :
    ¬ ['$', '{'] <:+: before ++ value := by
  obtain ⟨-, hdollar, hbrace⟩ := hv
  apply not_infix_append hbefore
  · intro hi
    exact hdollar (hi.subset (by simp))
  · intro _ hhead
    exact hbrace (List.mem_of_mem_head? hhead)

theorem Hole.splits_settled (hh : h.Proper) (hv : ∀ value ∈ h.inserted? lookup, Harmless value) :
    (h.settled lookup).Splits (h.before ++ h.filled lookup) := by
  rw [settled, filled_eq]
  split
  · rename_i value hvalue
    rw [hvalue]
    refine ⟨by simp [Template.spelled], by simp, ?_, .inl rfl⟩
    exact not_infix_of_harmless hh.before (hv value hvalue)
  · rename_i hnone
    rw [hnone]
    exact ⟨by simp [Template.spelled], by simpa using hh, by simp, .inl rfl⟩

/-- What is put in does not end in a `$`, and a placeholder that is left ends in its brace. -/
theorem Hole.getLast?_settled (hv : ∀ value ∈ h.inserted? lookup, Harmless value) :
    (h.settled lookup).last.getLast? ≠ some '$' := by
  rw [settled]
  split
  · rename_i value hvalue
    obtain ⟨hne, hdollar, -⟩ := hv value hvalue
    rw [List.getLast?_append_of_ne_nil _ hne]
    intro hlast
    exact hdollar (List.mem_of_getLast? hlast)
  · simp

/-- The placeholders left by one hole. -/
theorem Hole.content_settled (lookup : String → Option String) (h : Hole) :
    (h.settled lookup).holes.map content =
      ([h].filter fun h => h.inserted? lookup = none).map content := by
  rw [settled]
  split
  · rename_i value hvalue
    simp [hvalue]
  · rename_i hnone
    simp [hnone]

theorem Template.settled_cons (lookup : String → Option String) (h : Hole) (hs : List Hole) (last tail : List Char) :
    settled lookup ⟨h :: hs, last, tail⟩ = (h.settled lookup).join (settled lookup ⟨hs, last, tail⟩) :=
  rfl

theorem Template.filled_settled (lookup : String → Option String) (t : Template) :
    (t.settled lookup).filled lookup = t.filled lookup := by
  obtain ⟨hs, last, tail⟩ := t
  induction hs with
  | nil => rfl
  | cons h hs ih =>
    rw [settled_cons, filled_join lookup (h.tail_settled lookup), ih, Hole.filled_settled]
    simp [filled]

theorem Template.tail_settled (lookup : String → Option String) (t : Template) : (t.settled lookup).tail = t.tail := by
  obtain ⟨hs, last, tail⟩ := t
  induction hs with
  | nil => rfl
  | cons h hs ih => rw [settled_cons, tail_join, ih]

/-- Of the placeholders those are left in whose place nothing was put. -/
theorem Template.content_settled (lookup : String → Option String) (t : Template) :
    (t.settled lookup).holes.map Hole.content =
      (t.holes.filter fun h => h.inserted? lookup = none).map Hole.content := by
  obtain ⟨hs, last, tail⟩ := t
  induction hs with
  | nil => rfl
  | cons h hs ih =>
    have hcons : h :: hs = [h] ++ hs := rfl
    rw [settled_cons, map_holes_join (fun _ _ => rfl), ih, Hole.content_settled, hcons, List.filter_append,
      List.map_append]

/-- The output has the settled template: no seam of stretches, values and placeholders makes a new `${`. -/
theorem Template.Splits.settled {t : Template} {cs : List Char} (ht : t.Splits cs)
    (hv : ∀ h ∈ t.holes, ∀ value ∈ h.inserted? lookup, Harmless value) :
    (t.settled lookup).Splits (t.filled lookup) := by
  obtain ⟨hs, last, tail⟩ := t
  induction hs generalizing cs with
  | nil => exact ⟨rfl, by simp [Template.settled], ht.last, ht.tail⟩
  | cons h hs ih =>
    obtain ⟨rest, -, hh, hrest⟩ := (splits_cons_iff h hs last tail cs).1 ht
    obtain ⟨hvalue, hvalues⟩ := List.forall_mem_cons.1 hv
    have hfilled : filled lookup ⟨h :: hs, last, tail⟩ = h.before ++ h.filled lookup ++ filled lookup ⟨hs, last, tail⟩ := by
      simp [filled]
    rw [settled_cons, hfilled]
    apply (Hole.splits_settled hh hvalue).join (h.tail_settled lookup) (ih hrest hvalues)
    intro hlast
    exact absurd hlast (Hole.getLast?_settled hvalue)

end Settled

/-- If what is put in is never empty and has neither a `$` nor a `{`, filling the output changes nothing: its
placeholders are those that were left, and its unfinished end is the same. -/
theorem substitute_twice {lookup : String → Option String} {text : String} {t : Template} (ht : t.Splits text.toList)
    (hv : ∀ h ∈ t.holes, ∀ value ∈ h.inserted? lookup, Harmless value) :
    substitute lookup (substitute lookup text) = substitute lookup text ∧
      ∃ u : Template, u.Splits (substitute lookup text).toList ∧ u.tail = t.tail ∧
        u.holes.map Hole.content = (t.holes.filter fun h => h.inserted? lookup = none).map Hole.content := by
  have hsettled : (t.settled lookup).Splits (substitute lookup text).toList := by
    rw [ht.substitute_eq, String.toList_ofList]
    exact ht.settled hv
  refine ⟨?_, t.settled lookup, hsettled, t.tail_settled lookup, t.content_settled lookup⟩
  rw [hsettled.substitute_eq, Template.filled_settled, ht.substitute_eq]

/-- A value between a `$` and a `{`, a placeholder without a name and an unfinished end. -/
theorem settled_twice :
    let lookup := fun name => if name = "A" then some "v" else none
    let t : Template := ⟨[⟨['$'], ['A'], none⟩, ⟨['{'], ['b', ' ', 'c'], none⟩], [], ['$', '{']⟩
    t.Splits "$${A}\x7b${b c}$\x7b".toList ∧ (∀ h ∈ t.holes, ∀ value ∈ h.inserted? lookup, Harmless value) ∧
      substitute lookup (substitute lookup "$${A}\x7b${b c}$\x7b") = substitute lookup "$${A}\x7b${b c}$\x7b" := by
  intro lookup t
  have ht : t.Splits "$${A}\x7b${b c}$\x7b".toList := by
    refine ⟨by decide, ?_, by decide, .inr ⟨by decide, by decide⟩⟩
    simp only [t, List.forall_mem_cons, List.not_mem_nil, false_implies, implies_true, and_true]
    exact ⟨⟨by decide, by decide, by decide⟩, ⟨by decide, by decide, by decide⟩⟩
  have hv : ∀ h ∈ t.holes, ∀ value ∈ h.inserted? lookup, Harmless value := by
    simp [t, lookup, Hole.inserted?, IsName, Harmless]
  exact ⟨ht, hv, (substitute_twice ht hv).1⟩

end Preflight.Text
