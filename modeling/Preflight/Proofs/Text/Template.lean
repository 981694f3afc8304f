import Mathlib
import Preflight.Text.Placeholder
/-!
# The template of a text

A template is what `substitute` sees in a text: plain stretches, placeholders,
and an unfinished end. A text has exactly one (`Splits.unique`), since a stretch
ends at the first `${`, a body at the first `}` and a name at the first `:-`.
`substitute_template`: the output is that template with each placeholder filled.
-/

namespace Preflight.Text

/-- A placeholder and the plain stretch before it. -/
structure Hole where
  before : List Char
  name : List Char
  fallback : Option (List Char)

/-- A text cut from left to right: placeholders with the stretches before them,
the stretch after the last one, and the unfinished end. -/
structure Template where
  holes : List Hole
  last : List Char
  tail : List Char

namespace Hole

/-- What stands between the braces. -/
def body (h : Hole) : List Char :=
  match h.fallback with
  | none => h.name
  | some fallback => h.name ++ ':' :: '-' :: fallback

/-- The placeholder as it is written. -/
def spelled (h : Hole) : List Char :=
  '$' :: '{' :: (h.body ++ ['}'])

/-- The stretch has no `${`, the body no `}`, and the name is all before the first `:-`. -/
structure Proper (h : Hole) : Prop where
  before : ¬ ['$', '{'] <:+: h.before
  body : '}' ∉ h.body
  name : ¬ [':', '-'] <:+: h.name

end Hole

/-- The text that a template was cut from. -/
def Template.spelled (t : Template) : List Char :=
  t.holes.flatMap (fun h => h.before ++ h.spelled) ++ t.last ++ t.tail

/-- The template is a left-to-right cut of the text. -/
structure Template.Splits (t : Template) (cs : List Char) : Prop where
  spelled : t.spelled = cs
  holes : ∀ h ∈ t.holes, h.Proper
  last : ¬ ['$', '{'] <:+: t.last
  tail : t.tail = [] ∨ ['$', '{'] <+: t.tail ∧ '}' ∉ t.tail

/-- The name of a variable: letters, digits and underscores of ASCII, at least one. -/
def IsName (name : List Char) : Prop :=
  name ≠ [] ∧ ∀ c ∈ name, 'a' ≤ c ∧ c ≤ 'z' ∨ 'A' ≤ c ∧ c ≤ 'Z' ∨ '0' ≤ c ∧ c ≤ '9' ∨ c = '_'

instance : DecidablePred IsName :=
  fun _ => inferInstanceAs (Decidable (_ ∧ _))

/-- What takes the place of a placeholder: for a name, the variable if it is set
and not empty (or has no fallback), else the fallback; else what is written. -/
def Hole.filled (lookup : String → Option String) (h : Hole) : List Char :=
  let value := (lookup (String.ofList h.name)).filter fun v => v ≠ "" ∨ h.fallback = none
  if IsName h.name then ((value.map String.toList) <|> h.fallback).getD h.spelled else h.spelled

/-- A template with its placeholders filled. -/
def Template.filled (lookup : String → Option String) (t : Template) : List Char :=
  t.holes.flatMap (fun h => h.before ++ h.filled lookup) ++ t.last ++ t.tail

/-! ## Cutting at the first of two characters -/

section Cut
variable {a b : Char}

theorem eq_nil_of_cut (hab : a ≠ b) {m r r' : List Char} (h : a :: b :: r = m ++ a :: b :: r')
    (hm : ¬ [a, b] <:+: m) : m = [] := by
  rcases m with _ | ⟨x, _ | ⟨y, m⟩⟩
  · rfl
  · simp only [List.cons_append, List.nil_append, List.cons.injEq] at h
    exact absurd h.2.1.symm hab
  · simp only [List.cons_append, List.cons.injEq] at h
    obtain ⟨rfl, rfl, -⟩ := h
    exact absurd (List.prefix_append [_, _] m).isInfix hm

/-- Before the first `ab` there is only one text. -/
theorem cut_unique (hab : a ≠ b) {l l' r r' : List Char} (hl : ¬ [a, b] <:+: l) (hl' : ¬ [a, b] <:+: l')
    (h : l ++ a :: b :: r = l' ++ a :: b :: r') : l = l' ∧ r = r' := by
  rcases List.append_eq_append_iff.1 h with ⟨m, rfl, hm⟩ | ⟨m, rfl, hm⟩
  · have := eq_nil_of_cut hab hm fun hi => hl' (hi.trans (List.suffix_append l m).isInfix)
    subst this
    simp_all
  · have := eq_nil_of_cut hab hm fun hi => hl (hi.trans (List.suffix_append l' m).isInfix)
    subst this
    simp_all

/-- A character in front of a text makes a new `ab` only if the text starts with `b`. -/
theorem not_infix_cons {c : Char} {l : List Char} (hl : ¬ [a, b] <:+: l) (hc : c = a → l.head? ≠ some b) :
    ¬ [a, b] <:+: c :: l := by
  rw [List.infix_cons_iff]
  rintro (hp | hi)
  · rw [List.cons_prefix_cons] at hp
    obtain ⟨rfl, rest, rfl⟩ := hp
    exact hc rfl rfl
  · exact hl hi

/-- Before the first `a` there is only one text. -/
theorem cut_char_unique {l l' r r' : List Char} (hl : a ∉ l) (hl' : a ∉ l') (h : l ++ a :: r = l' ++ a :: r') :
    l = l' ∧ r = r' := by
  rcases List.append_eq_append_iff.1 h with ⟨m, rfl, hm⟩ | ⟨m, rfl, hm⟩
  all_goals
    rcases m with _ | ⟨x, m⟩
    · simp_all
    · simp_all

end Cut

/-! ## A text has one template -/

theorem Hole.ext_body {g h : Hole} (hg : g.Proper) (hh : h.Proper) (hbefore : g.before = h.before)
    (hbody : g.body = h.body) : g = h := by
  obtain ⟨before, name, fallback⟩ := g
  obtain ⟨before', name', fallback'⟩ := h
  have hname := hg.name
  have hname' := hh.name
  have hne : ':' ≠ '-' := by decide
  have hinfix (n f : List Char) : [':', '-'] <:+: n ++ ':' :: '-' :: f := ⟨n, f, by simp⟩
  simp only [Hole.body] at hbody hbefore hname hname'
  subst hbefore
  rcases fallback with _ | fallback <;> rcases fallback' with _ | fallback' <;> simp only at hbody
  · simp [hbody]
  · exact absurd (hbody ▸ hinfix _ _) hname
  · exact absurd (hbody ▸ hinfix _ _) hname'
  · obtain ⟨rfl, rfl⟩ := cut_unique hne hname hname' hbody
    rfl

theorem Template.splits_cons_iff (h : Hole) (hs : List Hole) (last tail cs : List Char) :
    (⟨h :: hs, last, tail⟩ : Template).Splits cs ↔
      ∃ rest, cs = h.before ++ h.spelled ++ rest ∧ h.Proper ∧ (⟨hs, last, tail⟩ : Template).Splits rest := by
  constructor
  · rintro ⟨rfl, hholes, hlast, htail⟩
    refine ⟨_, ?_, hholes h (by simp), rfl, fun g hg => hholes g (by simp [hg]), hlast, htail⟩
    simp [Template.spelled]
  · rintro ⟨rest, rfl, hh, ⟨rfl, hholes, hlast, htail⟩⟩
    refine ⟨by simp [Template.spelled], ?_, hlast, htail⟩
    simpa using ⟨hh, hholes⟩

/-- Without placeholders, what follows the first `${` of a text has no `}`. -/
theorem Template.Splits.not_mem_of_nil {last tail before rest : List Char}
    (ht : (⟨[], last, tail⟩ : Template).Splits (before ++ '$' :: '{' :: rest)) (hb : ¬ ['$', '{'] <:+: before) :
    '}' ∉ rest := by
  have hsp : last ++ tail = before ++ '$' :: '{' :: rest := ht.spelled
  rcases ht.tail with rfl | ⟨⟨unfinished, rfl⟩, hno⟩
  · refine absurd ?_ ht.last
    simp only [List.append_nil] at hsp
    exact ⟨before, rest, by simp [hsp]⟩
  · obtain ⟨-, rfl⟩ := cut_unique (by decide) ht.last hb hsp
    simp at hno
    exact hno

theorem Template.not_splits_cons_of_nil {last tail last' tail' cs : List Char} {h : Hole} {hs : List Hole}
    (ht : (⟨[], last, tail⟩ : Template).Splits cs) (hu : (⟨h :: hs, last', tail'⟩ : Template).Splits cs) : False := by
  obtain ⟨rest, rfl, hh, -⟩ := (splits_cons_iff h hs last' tail' cs).1 hu
  simp only [Hole.spelled, List.append_assoc, List.cons_append] at ht
  have hno := ht.not_mem_of_nil hh.before
  simp at hno

theorem Template.Splits.unique_of_nil {last tail last' tail' cs : List Char}
    (ht : (⟨[], last, tail⟩ : Template).Splits cs) (hu : (⟨[], last', tail'⟩ : Template).Splits cs) :
    last = last' ∧ tail = tail' := by
  have hsp : last ++ tail = last' ++ tail' := ht.spelled.trans hu.spelled.symm
  rcases ht.tail with rfl | ⟨⟨r, rfl⟩, -⟩ <;> rcases hu.tail with rfl | ⟨⟨r', rfl⟩, -⟩
  · simpa using hsp
  · refine absurd ?_ ht.last
    exact ⟨last', r', by simpa using hsp.symm⟩
  · refine absurd ?_ hu.last
    exact ⟨last, r, by simpa using hsp⟩
  · obtain ⟨rfl, rfl⟩ := cut_unique (by decide) ht.last hu.last hsp
    exact ⟨rfl, rfl⟩

/-- A text is cut in one way only. -/
theorem Template.Splits.unique {t u : Template} {cs : List Char} (ht : t.Splits cs) (hu : u.Splits cs) : t = u := by
  obtain ⟨gs, last, tail⟩ := t
  obtain ⟨hs, last', tail'⟩ := u
  induction gs generalizing cs hs with
  | nil =>
    cases hs with
    | nil =>
      obtain ⟨rfl, rfl⟩ := ht.unique_of_nil hu
      rfl
    | cons h hs => exact (not_splits_cons_of_nil ht hu).elim
  | cons g gs ih =>
    cases hs with
    | nil => exact (not_splits_cons_of_nil hu ht).elim
    | cons h hs =>
      obtain ⟨rest, rfl, hg, htr⟩ := (splits_cons_iff g gs last tail cs).1 ht
      obtain ⟨rest', heq, hh, hur⟩ := (splits_cons_iff h hs last' tail' _).1 hu
      simp only [Hole.spelled, List.append_assoc, List.cons_append, List.nil_append] at heq
      obtain ⟨hbefore, heq⟩ := cut_unique (by decide) hg.before hh.before heq
      obtain ⟨hbody, rfl⟩ := cut_char_unique hg.body hh.body heq
      obtain rfl := Hole.ext_body hg hh hbefore hbody
      cases ih htr hs hur
      rfl

/-! ## The pieces of a text as a template -/

/-- A template with one more plain character in front. -/
def Template.push (c : Char) (t : Template) : Template :=
  match t.holes with
  | [] => { t with last := c :: t.last }
  | h :: hs => { t with holes := { h with before := c :: h.before } :: hs }

theorem Template.spelled_push (c : Char) (t : Template) : (t.push c).spelled = c :: t.spelled := by
  obtain ⟨_ | ⟨h, hs⟩, last, tail⟩ := t <;> rfl

theorem Template.filled_push (lookup : String → Option String) (c : Char) (t : Template) :
    (t.push c).filled lookup = c :: t.filled lookup := by
  obtain ⟨_ | ⟨h, hs⟩, last, tail⟩ := t <;> rfl

/-- A plain character in front of a text belongs to the first stretch of its template. -/
theorem Template.Splits.push {t : Template} {c : Char} {cs : List Char} (ht : t.Splits cs)
    (hc : c = '$' → cs.head? ≠ some '{') : (t.push c).Splits (c :: cs) := by
  have hhead (l : List Char) (hl : l <+: cs) : c = '$' → l.head? ≠ some '{' := by
    rintro rfl hbrace
    obtain ⟨r, rfl⟩ := hl
    refine hc rfl ?_
    rw [List.head?_append, hbrace]
    rfl
  refine ⟨by rw [spelled_push, ht.spelled], ?_, ?_, ?_⟩
  all_goals obtain ⟨_ | ⟨h, hs⟩, last, tail⟩ := t
  · exact ht.holes
  · intro g hg
    rcases List.mem_cons.1 hg with rfl | hg
    · have hh := ht.holes h (by simp)
      refine ⟨not_infix_cons hh.before (hhead _ ?_), hh.body, hh.name⟩
      simp [← ht.spelled, Template.spelled]
    · exact ht.holes g (by simp [hg])
  · refine not_infix_cons ht.last (hhead _ ?_)
    simp [← ht.spelled, Template.spelled]
  · exact ht.last
  · exact ht.tail
  · exact ht.tail

theorem body_splitFallback (before body : List Char) :
    (⟨before, (splitFallback body).1, (splitFallback body).2⟩ : Hole).body = body := by
  induction body using splitFallback.induct with
  | case1 => rfl
  | case2 cs => simp [splitFallback, Hole.body]
  | case3 c cs h ih =>
    rw [splitFallback]
    · revert ih
      cases (splitFallback cs).2 <;> simp [Hole.body]
    · exact h

theorem not_infix_splitFallback (body : List Char) : ¬ [':', '-'] <:+: (splitFallback body).1 := by
  induction body using splitFallback.induct with
  | case1 => simp [splitFallback]
  | case2 cs => simp [splitFallback]
  | case3 c cs h ih =>
    rw [splitFallback]
    · refine not_infix_cons ih ?_
      rintro rfl hhead
      -- The name starts as the rest of the body does, so that rest starts with the `-` of a `:-`.
      have hcs : cs.head? = some '-' := by
        rw [← body_splitFallback [] cs, Hole.body]
        cases (splitFallback cs).2 <;> simp [List.head?_append, hhead]
      obtain ⟨rest, rfl⟩ := List.head?_eq_some_iff.1 hcs
      exact h rest rfl rfl
    · exact h

theorem proper_splitFallback {body : List Char} (h : '}' ∉ body) :
    (⟨[], (splitFallback body).1, (splitFallback body).2⟩ : Hole).Proper :=
  ⟨by simp, by rwa [body_splitFallback], not_infix_splitFallback body⟩

theorem not_mem_of_cutAtBrace_none {cs : List Char} (h : cutAtBrace cs = none) : '}' ∉ cs := by
  induction cs with
  | nil => simp
  | cons c cs ih =>
    by_cases hc : c = '}'
    · simp [cutAtBrace, hc] at h
    · simp only [cutAtBrace, if_neg hc, Option.map_eq_none_iff] at h
      simp [ih h, Ne.symm hc]

theorem not_mem_of_cutAtBrace {cs body rest : List Char} (h : cutAtBrace cs = some (body, rest)) : '}' ∉ body := by
  induction cs generalizing body with
  | nil => simp [cutAtBrace] at h
  | cons c cs ih =>
    by_cases hc : c = '}'
    · simp_all [cutAtBrace]
    · simp only [cutAtBrace, if_neg hc, Option.map_eq_some_iff, Prod.mk.injEq, Prod.exists] at h
      obtain ⟨b, r, hb, rfl, rfl⟩ := h
      simp [ih hb, Ne.symm hc]

theorem isVariable_iff (name : List Char) : isVariable name = true ↔ IsName name := by
  have hchar (c : Char) : (c.isAlphanum || c == '_') = true ↔
      'a' ≤ c ∧ c ≤ 'z' ∨ 'A' ≤ c ∧ c ≤ 'Z' ∨ '0' ≤ c ∧ c ≤ '9' ∨ c = '_' := by
    simp only [Char.isAlphanum, Char.isAlpha, Char.isUpper, Char.isLower, Char.isDigit, Char.le_def]
    grind
  simp only [isVariable, IsName, Bool.and_eq_true, List.all_eq_true, hchar]
  simp

theorem fill_slot (lookup : String → Option String) (before name : List Char) (fallback : Option (List Char)) :
    (Piece.slot name fallback).fill lookup = (⟨before, name, fallback⟩ : Hole).filled lookup := by
  have hspell : (Piece.slot name fallback).spell = (⟨before, name, fallback⟩ : Hole).spelled := by
    cases fallback <;> simp [Piece.spell, Hole.spelled, Hole.body]
  simp only [Piece.fill, Hole.filled, isVariable_iff, hspell]
  by_cases hname : IsName name
  · simp only [if_pos hname]
    rcases lookup (String.ofList name) with _ | v <;> rcases fallback with _ | instead
    · simpa using hspell
    · simp
    · simp [Option.filter]
    · by_cases hv : v = "" <;> simp [Option.filter, hv]
  · simp only [if_neg hname]

theorem exists_template (lookup : String → Option String) (cs : List Char) :
    ∃ t : Template, t.Splits cs ∧ (pieces cs).flatMap (Piece.fill lookup) = t.filled lookup := by
  induction cs using pieces.induct with
  | case1 => exact ⟨⟨[], [], []⟩, ⟨rfl, by simp, by simp, .inl rfl⟩, by simp [pieces, Template.filled]⟩
  | case2 cs h =>
    refine ⟨⟨[], [], '$' :: '{' :: cs⟩, ⟨rfl, by simp, by simp, .inr ⟨⟨cs, rfl⟩, ?_⟩⟩, ?_⟩
    · simpa using not_mem_of_cutAtBrace_none h
    · rw [pieces]
      split
      · simp [Piece.fill, Piece.spell, Template.filled]
      · simp_all
  | case3 cs body rest h ih =>
    obtain ⟨⟨hs, last, tail⟩, ht, hfill⟩ := ih
    have hproper := proper_splitFallback (not_mem_of_cutAtBrace h)
    refine ⟨⟨⟨[], (splitFallback body).1, (splitFallback body).2⟩ :: hs, last, tail⟩, ?_, ?_⟩
    · refine (Template.splits_cons_iff _ _ _ _ _).2 ⟨rest, ?_, hproper, ht⟩
      simp [Hole.spelled, body_splitFallback, eq_of_cutAtBrace h]
    · rw [pieces]
      split
      · simp_all
      · rename_i b r h'
        obtain ⟨rfl, rfl⟩ : b = body ∧ r = rest := by simpa [h] using h'.symm
        simp [Template.filled, hfill, fill_slot lookup []]
  | case4 c cs h ih =>
    obtain ⟨t, ht, hfill⟩ := ih
    refine ⟨t.push c, ht.push ?_, ?_⟩
    · rintro rfl hcs
      obtain ⟨rest, rfl⟩ := List.head?_eq_some_iff.1 hcs
      exact h rest rfl rfl
    · rw [pieces, Template.filled_push, ← hfill]
      · simp [Piece.fill, Piece.spell]
      · exact h

/-- A text is cut into placeholders and plain stretches in exactly one way, and
the output is that cut with each placeholder filled. -/
theorem substitute_template (lookup : String → Option String) (text : String) :
    ∃ t : Template, t.Splits text.toList ∧ (∀ u : Template, u.Splits text.toList → u = t) ∧
      substitute lookup text = String.ofList (t.filled lookup) := by
  obtain ⟨t, ht, hfill⟩ := exists_template lookup text.toList
  refine ⟨t, ht, fun u hu => hu.unique ht, ?_⟩
  rw [substitute, hfill]

end Preflight.Text
