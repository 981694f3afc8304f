import Preflight.Config.Hint
import Preflight.Proofs.Document.OfJson
/-!
# When there is nothing to hint at

There is no hint if every key is known and there is none inside the values
(`hintsFixed_eq_nil_iff`), whatever the order of entries
(`hintsAt_eq_nil_of_reordered`).
-/

namespace Preflight.Config

theorem hintsFree_eq_nil_iff (path : String) (each : Keys) (es : List (String × Json)) :
    hintsFree path each es = [] ↔ ∀ e ∈ es, hintsAt (join path e.1) each e.2 = [] := by
  induction es with
  | nil => simp [hintsFree]
  | cons e es ih =>
    obtain ⟨key, v⟩ := e
    rw [hintsFree, List.append_eq_nil_iff, ih, List.forall_mem_cons]

theorem hintsFixed_eq_nil_iff (path : String) (known : List (String × Keys)) (es : List (String × Json)) :
    hintsFixed path known es = [] ↔
      ∀ e ∈ es, ∃ keys, known.lookup e.1 = some keys ∧ hintsAt (join path e.1) keys e.2 = [] := by
  induction es with
  | nil => simp [hintsFixed]
  | cons e es ih =>
    obtain ⟨key, v⟩ := e
    rw [hintsFixed, List.append_eq_nil_iff, ih, List.forall_mem_cons]
    refine and_congr_left fun _ => ?_
    cases known.lookup key <;> simp

theorem hintsAt_leaf (path : String) (v : Json) : hintsAt path .leaf v = [] := by
  cases v <;> rfl

theorem sizeOf_snd_lt_of_mem {es : List (String × Json)} {e : String × Json} (he : e ∈ es) :
    sizeOf e.2 < sizeOf (Json.object es) := by
  have hmem := List.sizeOf_lt_of_mem he
  obtain ⟨name, v⟩ := e
  simp only [Prod.mk.sizeOf_spec, Json.object.sizeOf_spec] at *
  omega

/-- The order of entries does not decide whether there is a hint. -/
theorem hintsAt_eq_nil_of_reordered {v v' : Json} (hr : (Tree.ofJson v).Reordered (.ofJson v')) {path : String}
    {keys : Keys} (h : hintsAt path keys v = []) : hintsAt path keys v' = [] := by
  -- The recursion is on the value: the keys known of an entry say nothing about how deep it is.
  match v, hr, h with
  | .object es, hr, h =>
    obtain ⟨fs, rfl, hfs⟩ := Tree.object_of_reordered hr
    cases keys with
    | leaf => exact hintsAt_leaf path _
    | free each =>
      rw [hintsAt, hintsFree_eq_nil_iff] at h ⊢
      intro f hf
      obtain ⟨e, he, hkey, hvalue⟩ := hfs f hf
      rw [← hkey]
      exact hintsAt_eq_nil_of_reordered hvalue (h e he)
    | fixed known =>
      rw [hintsAt, hintsFixed_eq_nil_iff] at h ⊢
      intro f hf
      obtain ⟨e, he, hkey, hvalue⟩ := hfs f hf
      obtain ⟨keys, hkeys, hnone⟩ := h e he
      rw [← hkey]
      exact ⟨keys, hkeys, hintsAt_eq_nil_of_reordered hvalue hnone⟩
  | .null, hr, _ | .bool _, hr, _ | .int _, hr, _ | .float _, hr, _ | .text _, hr, _ | .array _, hr, _ =>
    cases v' with
    | object fs => cases hr
    | _ => cases keys <;> rfl
termination_by sizeOf v
decreasing_by all_goals exact sizeOf_snd_lt_of_mem he

end Preflight.Config
