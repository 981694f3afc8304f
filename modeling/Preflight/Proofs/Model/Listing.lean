import Mathlib.Data.List.Forall2
import Preflight.Model.Listing
/-!
# The lines of a listing

Filling up adds blanks to a text and takes nothing away (`exists_gap_padTo`), so
a name and what it stands for can both be read in the line of a shorthand
(`showsShorthand_aliasLine`).
-/

namespace Preflight

/-- A text of blanks only. -/
def Text.IsGap (s : String) : Prop :=
  ∀ c ∈ s.toList, c = ' '

theorem Text.IsGap.append {s t : String} (hs : IsGap s) (ht : IsGap t) : IsGap (s ++ t) := by
  intro c hc
  rw [String.toList_append, List.mem_append] at hc
  rcases hc with hc | hc
  · exact hs c hc
  · exact ht c hc

/-- A text gets a gap after it, as long as it falls short of the width. -/
theorem exists_gap_padTo (width : UInt16) (s : String) :
    ∃ gap, Text.IsGap gap ∧ padTo width s = s ++ gap ∧ gap.length = width.toNat - s.length := by
  refine ⟨String.ofList (List.replicate (width.toNat - s.length) ' '), ?_, rfl, ?_⟩
  · intro c hc
    rw [String.toList_ofList] at hc
    exact List.eq_of_mem_replicate hc
  · rw [String.length_ofList, List.length_replicate]

/-- A line shows a shorthand: after the indent its name, then blanks up to the twelfth character and one more, then the
model. -/
def ShowsShorthand (e : String × String) (line : String) : Prop :=
  ∃ gap, Text.IsGap gap ∧ gap.length = 10 - e.1.length + 1 ∧ line = "  " ++ e.1 ++ gap ++ e.2

theorem showsShorthand_aliasLine (e : String × String) : ShowsShorthand e (aliasLine e) := by
  obtain ⟨gap, hgap, hcell, hlength⟩ := exists_gap_padTo 10 e.1
  have hblank : Text.IsGap " " := by simp [Text.IsGap]
  have hwidth : (10 : UInt16).toNat = 10 := rfl
  have hone : (" ").length = 1 := by decide
  refine ⟨gap ++ " ", hgap.append hblank, ?_, ?_⟩
  · rw [String.length_append, hlength, hwidth, hone]
  · rw [aliasLine, hcell]
    simp only [String.append_assoc]

/-- Some lines show a backend: its title, then a line for each of its shorthands. -/
def ShowsBackend (b : String × NameTable String) (lines : List String) : Prop :=
  ∃ rows, lines = (b.1 ++ ":") :: rows ∧ List.Forall₂ ShowsShorthand b.2.entries rows

theorem showsBackend_rows (b : String × NameTable String) :
    ShowsBackend b ((b.1 ++ ":") :: b.2.entries.map aliasLine) := by
  refine ⟨_, rfl, ?_⟩
  rw [List.forall₂_map_right_iff, List.forall₂_same]
  exact fun e _ => showsShorthand_aliasLine e

end Preflight
