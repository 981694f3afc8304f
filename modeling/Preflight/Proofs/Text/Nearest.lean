import Preflight.Proofs.Text.Distance
/-!
# The nearest candidate

A candidate wins if none before it is as near and none after it is nearer. The
scan keeps the one that wins among those it has seen (`leads_nearer`,
`leads_foldl`), so what it finds is the first at the least distance, whatever
else is among the candidates (`nearest_wins`). Where the candidates ascend that
is the least of the nearest (`suggested_nearest`), so it does not depend on the
order in which they were found.
-/

namespace Preflight.Text

/-- Within reach of a text, and not the text itself. -/
def Near (needle : String) (reach : Nat) (candidate : String) : Prop :=
  0 < distance needle candidate ∧ distance needle candidate ≤ reach

instance (needle : String) (reach : Nat) : DecidablePred (Near needle reach) := fun candidate =>
  inferInstanceAs (Decidable (0 < distance needle candidate ∧ distance needle candidate ≤ reach))

/-- A shortest script to the candidate has this many edits, at least one and no more than are in reach. -/
structure Within (needle : String) (reach : Nat) (candidate : String) (n : Nat) : Prop where
  shortest : IsLeast {k | Script k needle.toList candidate.toList} n
  differs : 1 ≤ n
  inReach : n ≤ reach

/-- The candidate between the others is within reach, none before it is as near and none after it is nearer. -/
def Wins (needle : String) (reach : Nat) (before : List String) (c : String) (after : List String) : Prop :=
  ∃ n, Within needle reach c n ∧ (∀ x ∈ before, ∀ k, Within needle reach x k → n < k) ∧
    ∀ x ∈ after, ∀ k, Within needle reach x k → n ≤ k

variable {needle : String} {reach : Nat}

theorem within_iff {c : String} {n : Nat} :
    Within needle reach c n ↔ distance needle c = n ∧ Near needle reach c := by
  have hshortest := script_distance needle c
  constructor
  · rintro ⟨hn, hdiffers, hreach⟩
    obtain rfl := hshortest.unique hn
    exact ⟨rfl, hdiffers, hreach⟩
  · rintro ⟨rfl, hdiffers, hreach⟩
    exact ⟨hshortest, hdiffers, hreach⟩

theorem wins_iff {before after : List String} {c : String} :
    Wins needle reach before c after ↔ Near needle reach c ∧
      (∀ x ∈ before, Near needle reach x → distance needle c < distance needle x) ∧
      ∀ x ∈ after, Near needle reach x → distance needle c ≤ distance needle x := by
  simp only [Wins, within_iff, and_imp, forall_eq', and_assoc, exists_eq_left']

theorem near_iff {c : String} : Near needle reach c ↔ c ≠ needle ∧ ∃ n ≤ reach, Script n needle.toList c.toList := by
  obtain ⟨hscript, hleast⟩ := script_distance needle c
  rw [Near, Nat.pos_iff_ne_zero, Ne, distance_eq_zero_iff, eq_comm]
  refine and_congr_right fun _ => ⟨fun h => ⟨_, h, hscript⟩, ?_⟩
  rintro ⟨n, hn, h⟩
  exact Nat.le_trans (hleast h) hn

theorem not_near_self : ¬Near needle reach needle :=
  fun h => (near_iff.1 h).1 rfl

/-! ## The candidate that wins -/

namespace Wins
variable {before after : List String} {c : String}

theorem near (h : Wins needle reach before c after) : Near needle reach c :=
  (wins_iff.1 h).1

theorem le (h : Wins needle reach before c after) {x : String} (hx : x ∈ before ++ c :: after)
    (hnear : Near needle reach x) : distance needle c ≤ distance needle x := by
  obtain ⟨-, hbefore, hafter⟩ := wins_iff.1 h
  rcases List.mem_append.1 hx with hx | hx
  · exact Nat.le_of_lt (hbefore x hx hnear)
  · rcases List.mem_cons.1 hx with rfl | hx
    · exact Nat.le_refl _
    · exact hafter x hx hnear

/-- A candidate still wins where some of the others are gone. -/
theorem of_sublist (h : Wins needle reach before c after) {before' after' : List String}
    (hbefore : before'.Sublist before) (hafter : after'.Sublist after) : Wins needle reach before' c after' := by
  obtain ⟨hnear, hfirst, hleast⟩ := wins_iff.1 h
  exact wins_iff.2 ⟨hnear, fun x hx => hfirst x (hbefore.subset hx), fun x hx => hleast x (hafter.subset hx)⟩

/-- A candidate still wins where one that is not nearer comes after the others. -/
theorem snoc (h : Wins needle reach before c after) {x : String}
    (hx : Near needle reach x → distance needle c ≤ distance needle x) :
    Wins needle reach before c (after ++ [x]) := by
  obtain ⟨hnear, hfirst, hleast⟩ := wins_iff.1 h
  exact wins_iff.2 ⟨hnear, hfirst, List.forall_mem_append.2 ⟨hleast, by simpa using hx⟩⟩

/-- A candidate that wins is not among those before another one that does. -/
theorem eq_of_prefix (h : Wins needle reach before c after) {others after' : List String} {c' : String}
    (h' : Wins needle reach (before ++ others) c' after') (heq : c :: after = others ++ c' :: after') : c = c' := by
  cases others with
  | nil => exact (List.cons.inj heq).1
  | cons x others =>
    obtain ⟨rfl, rfl⟩ := List.cons.inj heq
    have hlt := (wins_iff.1 h').2.1 c (by simp) h.near
    have hle := h.le (x := c') (by simp) h'.near
    exact absurd hlt (Nat.not_lt.2 hle)

/-- Only one candidate wins. -/
theorem unique (h : Wins needle reach before c after) {before' after' : List String} {c' : String}
    (h' : Wins needle reach before' c' after') (heq : before ++ c :: after = before' ++ c' :: after') : c = c' := by
  rcases List.append_eq_append_iff.1 heq with ⟨others, rfl, hrest⟩ | ⟨others, rfl, hrest⟩
  · exact h.eq_of_prefix h' hrest
  · exact (h'.eq_of_prefix h hrest).symm

end Wins

/-! ## The scan -/

/-- What the scan keeps of the candidates it has seen: the one that wins, with its distance. -/
def Leads (needle : String) (reach : Nat) (seen : List String) : Option (String × Nat) → Prop
  | none => ∀ x ∈ seen, ¬Near needle reach x
  | some (c, n) => distance needle c = n ∧
      ∃ before after, seen = before ++ c :: after ∧ Wins needle reach before c after

theorem nearer_of_not_near {x : String} (h : ¬Near needle reach x) (best : Option (String × Nat)) :
    nearer needle reach best x = best :=
  if_neg fun hx => h ⟨hx.1, hx.2.1⟩

theorem nearer_of_near {x : String} (h : Near needle reach x) (best : Option (String × Nat)) :
    nearer needle reach best x = if best.all (distance needle x < ·.2) then some (x, distance needle x) else best := by
  simp only [nearer, h.1, h.2, true_and]

/-- A further candidate takes the lead exactly if it is nearer than the one that leads. -/
theorem leads_nearer {seen : List String} {best : Option (String × Nat)} (h : Leads needle reach seen best)
    (x : String) : Leads needle reach (seen ++ [x]) (nearer needle reach best x) := by
  by_cases hx : Near needle reach x
  · rw [nearer_of_near hx]
    cases best with
    | none =>
      -- All those seen are out of reach, so none of them stands before this one.
      refine ⟨rfl, seen, [], rfl, wins_iff.2 ⟨hx, ?_, by simp⟩⟩
      exact fun y hy hnear => absurd hnear (h y hy)
    | some b =>
      obtain ⟨c, n⟩ := b
      obtain ⟨rfl, before, after, rfl, hwins⟩ := h
      by_cases hlt : distance needle x < distance needle c
      · rw [if_pos (by simpa using hlt)]
        refine ⟨rfl, before ++ c :: after, [], rfl, wins_iff.2 ⟨hx, ?_, by simp⟩⟩
        exact fun y hy hnear => Nat.lt_of_lt_of_le hlt (hwins.le hy hnear)
      · -- Of two at one distance the earlier keeps the lead.
        rw [if_neg (by simpa using hlt)]
        exact ⟨rfl, before, after ++ [x], by simp, hwins.snoc fun _ => Nat.not_lt.1 hlt⟩
  · rw [nearer_of_not_near hx]
    cases best with
    | none => exact List.forall_mem_append.2 ⟨h, by simpa using hx⟩
    | some b =>
      obtain ⟨c, n⟩ := b
      obtain ⟨hn, before, after, rfl, hwins⟩ := h
      exact ⟨hn, before, after ++ [x], by simp, hwins.snoc fun hnear => absurd hnear hx⟩

theorem leads_foldl {seen : List String} {best : Option (String × Nat)} (h : Leads needle reach seen best)
    (candidates : List String) :
    Leads needle reach (seen ++ candidates) (candidates.foldl (nearer needle reach) best) := by
  induction candidates generalizing seen best with
  | nil => simpa using h
  | cons x xs ih => simpa using ih (leads_nearer h x)

/-- Either no candidate is near, or one of them wins and is found. -/
theorem nearest_cases (needle : String) (reach : Nat) (candidates : List String) :
    (nearest needle reach candidates = none ∧ ∀ x ∈ candidates, ¬Near needle reach x) ∨
      ∃ before c after, candidates = before ++ c :: after ∧ Wins needle reach before c after ∧
        nearest needle reach candidates = some c := by
  have hnothing : Leads needle reach [] none := by simp [Leads]
  have hleads : Leads needle reach candidates (candidates.foldl (nearer needle reach) none) :=
    leads_foldl hnothing candidates
  unfold nearest
  cases hbest : candidates.foldl (nearer needle reach) none with
  | none =>
    rw [hbest] at hleads
    exact .inl ⟨rfl, hleads⟩
  | some b =>
    rw [hbest] at hleads
    obtain ⟨-, before, after, hsplit, hwins⟩ := hleads
    exact .inr ⟨before, b.1, after, hsplit, hwins, rfl⟩

theorem nearest_eq_none_iff (candidates : List String) :
    nearest needle reach candidates = none ↔ ∀ x ∈ candidates, ¬Near needle reach x := by
  rcases nearest_cases needle reach candidates with ⟨h, hnone⟩ | ⟨before, c, after, rfl, hwins, h⟩
  · simpa [h] using hnone
  · simp only [h, reduceCtorEq, false_iff]
    exact fun hnone => hnone c (by simp) hwins.near

theorem nearest_of_wins {before after : List String} {c : String} (h : Wins needle reach before c after) :
    nearest needle reach (before ++ c :: after) = some c := by
  rcases nearest_cases needle reach (before ++ c :: after) with ⟨-, hnone⟩ | ⟨_, c', _, hsplit, hwins, hc'⟩
  · exact absurd h.near (hnone c (by simp))
  · rw [hc', h.unique hwins hsplit]

theorem nearest_eq_some_iff (candidates : List String) (c : String) :
    nearest needle reach candidates = some c ↔
      ∃ before after, candidates = before ++ c :: after ∧ Wins needle reach before c after := by
  constructor
  · intro h
    rcases nearest_cases needle reach candidates with ⟨hnone, -⟩ | ⟨before, c', after, hsplit, hwins, hc'⟩
    · rw [h] at hnone
      cases hnone
    · obtain rfl := Option.some.inj (h.symm.trans hc')
      exact ⟨before, after, hsplit, hwins⟩
  · rintro ⟨before, after, rfl, hwins⟩
    exact nearest_of_wins hwins

theorem nearest_of_sublist {candidates kept : List String} (h : nearest needle reach candidates = none)
    (hkept : kept.Sublist candidates) : nearest needle reach kept = none := by
  rw [nearest_eq_none_iff] at h ⊢
  exact fun x hx => h x (hkept.subset hx)

/-- The text itself counts for nothing among the candidates. -/
theorem nearest_filter_ne (candidates : List String) :
    nearest needle reach (candidates.filter (· ≠ needle)) = nearest needle reach candidates := by
  rcases nearest_cases needle reach candidates with ⟨hnone, -⟩ | ⟨before, c, after, rfl, hwins, hc⟩
  · rw [hnone]
    exact nearest_of_sublist hnone List.filter_sublist
  · have hne : c ≠ needle := by
      rintro rfl
      exact not_near_self hwins.near
    rw [hc, List.filter_append, List.filter_cons_of_pos (by simpa using hne)]
    exact nearest_of_wins (hwins.of_sublist List.filter_sublist List.filter_sublist)

/-- The nearest candidate is the first at the least distance of those within reach, and there is none exactly if none is
within reach. It is never the text itself, whose copies among the candidates make no difference. Nor do any of the
others: without them the result is the same. -/
theorem nearest_wins (needle : String) (reach : Nat) (candidates : List String) :
    (∀ c, nearest needle reach candidates = some c ↔
      ∃ before after, candidates = before ++ c :: after ∧ Wins needle reach before c after) ∧
    (nearest needle reach candidates = none ↔ ∀ x ∈ candidates, ∀ n, ¬Within needle reach x n) ∧
    nearest needle reach candidates ≠ some needle ∧
    nearest needle reach (candidates.filter (· ≠ needle)) = nearest needle reach candidates ∧
    (∀ before c after before' after', candidates = before ++ c :: after → Wins needle reach before c after →
      before'.Sublist before → after'.Sublist after →
        nearest needle reach (before' ++ c :: after') = nearest needle reach candidates) ∧
    ∀ kept, nearest needle reach candidates = none → kept.Sublist candidates → nearest needle reach kept = none := by
  refine ⟨nearest_eq_some_iff candidates, ?_, ?_, nearest_filter_ne candidates, ?_, fun _ => nearest_of_sublist⟩
  · simp only [nearest_eq_none_iff, within_iff, not_and, forall_eq']
  · intro h
    obtain ⟨_, _, -, hwins⟩ := (nearest_eq_some_iff candidates needle).1 h
    exact not_near_self hwins.near
  · rintro before c after before' after' rfl hwins hbefore hafter
    rw [nearest_of_wins hwins, nearest_of_wins (hwins.of_sublist hbefore hafter)]

theorem nearest_cart : Wins "cat" 3 ["coast", "cat"] "cart" ["car", "cat"] ∧
    nearest "cat" 3 ["cat", "cart", "car"] = nearest "cat" 3 ["coast", "cat", "cart", "car", "cat"] ∧
    nearest "cat" 1 ["coast", "cat"] = none ∧ nearest "cat" 1 ["cat"] = none := by
  have hwins : Wins "cat" 3 ["coast", "cat"] "cart" ["car", "cat"] := wins_iff.2 (by decide +kernel)
  have hnone : nearest "cat" 1 ["coast", "cat"] = none := by decide +kernel
  refine ⟨hwins, ?_, hnone, ?_⟩
  · obtain ⟨-, -, -, -, hothers, -⟩ := nearest_wins "cat" 3 ["coast", "cat", "cart", "car", "cat"]
    exact hothers _ _ _ ["cat"] ["car"] rfl hwins (by decide) (by decide)
  · obtain ⟨-, -, -, -, -, hkept⟩ := nearest_wins "cat" 1 ["coast", "cat"]
    exact hkept ["cat"] hnone (by decide)

/-! ## Candidates that ascend -/

/-- Of the candidates that are near the least of those with the least distance, or none if none is near. -/
def Suggested (needle : String) (reach : Nat) (candidates : List String) : Option String → Prop
  | none => ∀ x ∈ candidates, ¬Near needle reach x
  | some s => s ∈ candidates ∧ Near needle reach s ∧ ∀ x ∈ candidates, Near needle reach x →
      distance needle s < distance needle x ∨ distance needle s = distance needle x ∧ s ≤ x

/-- Where the candidates ascend, the nearest is the least of those with the least distance. -/
theorem suggested_nearest {candidates : List String} (h : candidates.Pairwise (· < ·)) :
    Suggested needle reach candidates (nearest needle reach candidates) := by
  rcases nearest_cases needle reach candidates with ⟨hnone, hfar⟩ | ⟨before, c, after, rfl, hwins, hc⟩
  · rw [hnone]
    exact hfar
  · rw [hc]
    obtain ⟨hnear, hfirst, hleast⟩ := wins_iff.1 hwins
    refine ⟨by simp, hnear, ?_⟩
    intro x hx hxnear
    rcases List.mem_append.1 hx with hx | hx
    · exact .inl (hfirst x hx hxnear)
    · rcases List.mem_cons.1 hx with rfl | hx
      · exact .inr ⟨rfl, String.le_refl _⟩
      · have hcx : c < x := (List.pairwise_cons.1 (List.pairwise_append.1 h).2.1).1 x hx
        have hle : c ≤ x := String.not_lt.1 (String.lt_asymm hcx)
        exact (Nat.lt_or_eq_of_le (hleast x hx hxnear)).imp_right fun heq => ⟨heq, hle⟩

theorem Suggested.of_perm {candidates found : List String} {s : Option String} (h : Suggested needle reach candidates s)
    (hp : candidates.Perm found) : Suggested needle reach found s := by
  cases s with
  | none => exact fun x hx => h x (hp.mem_iff.2 hx)
  | some s => exact ⟨hp.mem_iff.1 h.1, h.2.1, fun x hx => h.2.2 x (hp.mem_iff.2 hx)⟩

/-- The candidate is within reach, at the least distance of those that are, and the least of those at that distance. -/
def IsNearest (needle : String) (reach : Nat) (candidates : List String) (c : String) : Prop :=
  c ∈ candidates ∧ ∃ n, Within needle reach c n ∧ ∀ x ∈ candidates, ∀ k, Within needle reach x k → n < k ∨ n = k ∧ c ≤ x

theorem isNearest_iff {candidates : List String} {c : String} :
    IsNearest needle reach candidates c ↔ Suggested needle reach candidates (some c) := by
  simp only [IsNearest, Suggested, within_iff, and_imp, forall_eq', and_assoc, exists_eq_left']

theorem IsNearest.unique {candidates : List String} {c c' : String} (h : IsNearest needle reach candidates c)
    (h' : IsNearest needle reach candidates c') : c = c' := by
  obtain ⟨hc, n, hn, hbest⟩ := h
  obtain ⟨hc', n', hn', hbest'⟩ := h'
  rcases hbest c' hc' n' hn' with hlt | ⟨heq, hle⟩
  · rcases hbest' c hc n hn with hlt' | ⟨heq', -⟩ <;> omega
  · rcases hbest' c hc n hn with hlt' | ⟨-, hle'⟩
    · omega
    · exact String.le_antisymm hle hle'

/-- A suggestion is the nearest candidate, and it is missing exactly if no candidate is within reach. -/
theorem suggested_iff {candidates : List String} {s : Option String} (h : Suggested needle reach candidates s) :
    (∀ c, s = some c ↔ IsNearest needle reach candidates c) ∧
      (s = none ↔ ∀ x ∈ candidates, ∀ n, ¬Within needle reach x n) := by
  cases s with
  | none =>
    have hnone : ∀ x ∈ candidates, ∀ n, ¬Within needle reach x n :=
      fun x hx n hn => h x hx (within_iff.1 hn).2
    refine ⟨fun c => ?_, by simpa using hnone⟩
    simp only [reduceCtorEq, false_iff]
    rintro ⟨hc, n, hn, -⟩
    exact hnone c hc n hn
  | some c =>
    have hc := isNearest_iff.2 h
    refine ⟨fun c' => ?_, ?_⟩
    · rw [Option.some.injEq]
      exact ⟨fun heq => heq ▸ hc, hc.unique⟩
    · simp only [reduceCtorEq, false_iff]
      obtain ⟨hmem, n, hn, -⟩ := hc
      exact fun hnone => hnone c hmem n hn

/-- Sorting brings what ascends back into order. -/
theorem mergeSort_eq_of_ascending {candidates found : List String} (h : candidates.Pairwise (· < ·))
    (hp : found.Perm candidates) : found.mergeSort (· ≤ ·) = candidates := by
  have hsorted : (found.mergeSort (· ≤ ·)).Pairwise fun a b => decide (a ≤ b) = true :=
    List.pairwise_mergeSort (by simpa using fun a b c => String.le_trans) (by simpa using String.le_total) found
  have hcandidates : candidates.Pairwise fun a b => decide (a ≤ b) = true :=
    h.imp fun hlt => decide_eq_true (String.not_lt.1 (String.lt_asymm hlt))
  refine ((List.mergeSort_perm found _).trans hp).eq_of_pairwise ?_ hsorted hcandidates
  intro a b _ _ hab hba
  exact String.le_antisymm (of_decide_eq_true hab) (of_decide_eq_true hba)

end Preflight.Text
