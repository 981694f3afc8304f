import Preflight.Outcome
import Preflight.Proofs.Model.Listing
import Preflight.Proofs.Plan
/-!
# The table of a plan

The first column is as wide as the longest id has octets, and each id is filled
up with blanks to that many characters. No text has more characters than octets
(`length_le_utf8ByteSize`), so each id fits, and the backends stand below one
another whatever the ids are. But the width has 16 bits: there is no table once
an id has more than 65535 octets (`table_aligned`).
-/

namespace Preflight

/-! ## The width of the first column -/

/-- A text has at least one octet for each character. -/
theorem Text.length_le_utf8ByteSize (s : String) : s.length ≤ s.utf8ByteSize := by
  induction s using String.push_induction with
  | empty => simp
  | push s c ih =>
    have hpos := c.utf8Size_pos
    rw [String.length_push, String.utf8ByteSize_push]
    omega

namespace Plan

theorem idWidth_eq (p : Plan) : p.idWidth = (p.hats.map (·.id.utf8ByteSize)).max?.getD 0 := by
  rw [idWidth, List.foldl_max, Nat.zero_max]

/-- The width is the octets of the longest id. -/
theorem longest_idWidth {p : Plan} (hp : p.hats ≠ []) :
    (∃ h ∈ p.hats, h.id.utf8ByteSize = p.idWidth) ∧ ∀ h ∈ p.hats, h.id.utf8ByteSize ≤ p.idWidth := by
  cases hmax : (p.hats.map (·.id.utf8ByteSize)).max? with
  | none => exact absurd (List.map_eq_nil_iff.1 (List.max?_eq_none_iff.1 hmax)) hp
  | some width =>
    rw [idWidth_eq, hmax, Option.getD_some]
    simpa using List.max?_eq_some_iff.1 hmax

theorem utf8ByteSize_id_le_idWidth {p : Plan} {h : ResolvedHat} (hh : h ∈ p.hats) :
    h.id.utf8ByteSize ≤ p.idWidth :=
  (longest_idWidth (List.ne_nil_of_mem hh)).2 h hh

theorem length_id_le_idWidth {p : Plan} {h : ResolvedHat} (hh : h ∈ p.hats) : h.id.length ≤ p.idWidth :=
  Nat.le_trans (Text.length_le_utf8ByteSize h.id) (utf8ByteSize_id_le_idWidth hh)

/-- An id is longer than any width exactly if the longest is. -/
theorem exists_long_id_iff (p : Plan) : (∃ h ∈ p.hats, 65535 < h.id.utf8ByteSize) ↔ 65535 < p.idWidth := by
  constructor
  · rintro ⟨h, hh, hlong⟩
    exact Nat.lt_of_lt_of_le hlong (utf8ByteSize_id_le_idWidth hh)
  · intro hlong
    have hp : p.hats ≠ [] := by
      intro hnil
      simp [idWidth, hnil] at hlong
    obtain ⟨h, hh, hwidth⟩ := (longest_idWidth hp).1
    exact ⟨h, hh, hwidth ▸ hlong⟩

theorem column?_of_le {p : Plan} (h : p.idWidth ≤ 65535) :
    ∃ width : UInt16, p.column? = some width ∧ width.toNat = p.idWidth := by
  have hlt : p.idWidth < UInt16.size := Nat.lt_succ_of_le h
  exact ⟨.ofNat p.idWidth, if_pos hlt, UInt16.toNat_ofNat_of_lt' hlt⟩

theorem text?_eq_none_iff (p : Plan) : p.text? = none ↔ ∃ h ∈ p.hats, 65535 < h.id.utf8ByteSize := by
  rw [exists_long_id_iff, text?, Option.map_eq_none_iff]
  constructor
  · intro hnone
    by_contra hle
    obtain ⟨width, hwidth, -⟩ := column?_of_le (Nat.le_of_not_lt hle)
    simp [hnone] at hwidth
  · intro hlong
    exact if_neg (Nat.not_lt.2 hlong)

end Plan

/-! ## The rows -/

/-- A row shows a hat: after the indent comes the whole id, then nothing but blanks up to the title of the backend, which
begins that many characters into the row. -/
def ResolvedHat.ShownAt (column : Nat) (h : ResolvedHat) (row : String) : Prop :=
  ∃ gap rest, Text.IsGap gap ∧ row = "  " ++ h.id ++ gap ++ "backend=" ++ h.selection.backend ++ rest ∧
    ("  " ++ h.id ++ gap).length = column

theorem shownAt_row {width : UInt16} {h : ResolvedHat} (hid : h.id.length ≤ width.toNat) :
    h.ShownAt (width.toNat + 4) (h.row width) := by
  obtain ⟨gap, hgap, hcell, hlength⟩ := exists_gap_padTo width h.id
  have hblanks : Text.IsGap "  " := by simp [Text.IsGap]
  refine ⟨gap ++ "  ", " (" ++ h.selection.backendSource.describe ++ ")  model=" ++ h.selection.model ++
    " (" ++ h.selection.modelSource.describe ++ ")", hgap.append hblanks, ?_, ?_⟩
  · have htitle : "  backend=" = "  " ++ "backend=" := by decide
    rw [ResolvedHat.row, hcell, htitle]
    simp only [String.append_assoc]
  · have hindent : ("  ").length = 2 := by decide
    simp only [String.length_append, hindent]
    omega

/-- A plan with an id of more than 65535 octets has no table. Any other has a head line, a row for each hat, and the lines
of events; the rows have their backends in one column, four characters past the octets of the longest id. -/
theorem table_aligned (p : Plan) :
    ((∃ h ∈ p.hats, 65535 < h.id.utf8ByteSize) ∧ p.text? = none) ∨
    ((∀ h ∈ p.hats, h.id.utf8ByteSize ≤ 65535) ∧
      ∃ (rows : List String) (column : Nat),
        p.text? = some ("\n".intercalate (p.headLine :: (rows ++ eventsLine "entry events" p.graph.entryEvents ++
          eventsLine "unused events" p.graph.unusedEvents))) ∧
        List.Forall₂ (ResolvedHat.ShownAt column) p.hats rows ∧
        (∀ h ∈ p.hats, h.id.utf8ByteSize + 4 ≤ column) ∧
        (p.hats ≠ [] → ∃ h ∈ p.hats, h.id.utf8ByteSize + 4 = column)) := by
  by_cases hlong : ∃ h ∈ p.hats, 65535 < h.id.utf8ByteSize
  · exact .inl ⟨hlong, p.text?_eq_none_iff.2 hlong⟩
  · have hle : p.idWidth ≤ 65535 := Nat.le_of_not_lt (mt p.exists_long_id_iff.2 hlong)
    obtain ⟨width, hcolumn, hwidth⟩ := Plan.column?_of_le hle
    refine .inr ⟨fun h hh => Nat.le_of_not_lt fun hid => hlong ⟨h, hh, hid⟩, ?_⟩
    refine ⟨p.hats.map (·.row width), width.toNat + 4, ?_, ?_, ?_, ?_⟩
    · rw [Plan.text?, hcolumn]
      rfl
    · rw [List.forall₂_map_right_iff, List.forall₂_same]
      intro h hh
      apply shownAt_row
      rw [hwidth]
      exact Plan.length_id_le_idWidth hh
    · intro h hh
      rw [hwidth]
      exact Nat.add_le_add_right (Plan.utf8ByteSize_id_le_idWidth hh) 4
    · intro hp
      obtain ⟨h, hh, hlongest⟩ := (Plan.longest_idWidth hp).1
      exact ⟨h, hh, by rw [hwidth, hlongest]⟩

/-- Three characters of two octets each make the column six wide, though no id has more than four. -/
example :
    let hat (id : String) : ResolvedHat := ⟨id, "", ⟨"m", "b", .hat, .builtIn⟩, [], []⟩
    let p : Plan := ⟨"", [hat "plan", hat "жук"], ⟨[], []⟩⟩
    p.column?.map (fun width => (p.lines width).tail) = some
      ["  plan    backend=b (built-in)  model=m (hat)", "  жук     backend=b (built-in)  model=m (hat)"] := by
  decide +kernel

/-! ## An id longer than any width -/

/-- A workflow of one hat, of which nothing is said but its id. -/
def Workflow.lone (id : String) : Workflow :=
  { Workflow.empty with hats := NameTable.empty.insert id .empty }

theorem not_dangles_lone (id : String) : ¬ ∃ s, (Workflow.lone id).Dangles s := by
  rintro ⟨⟨hat, event, usage⟩, h, hh, hevent, -⟩
  have hmem := (NameTable.get?_eq_some_iff _ _ _).1 hh
  have hempty : h = .empty := congrArg Prod.snd (List.mem_singleton.1 hmem)
  subst hempty
  cases usage <;> exact NameSet.not_mem_empty event hevent

theorem untabled_of_long {id : String} (hlong : 65535 < id.utf8ByteSize) :
    ∃ p, (Workflow.lone id).check = .ok p ∧ p.hats.length = 1 ∧ p.text? = none ∧
      render (.ok p) .text = .error .columnTooWide ∧ ∃ out, render (.ok p) .json = .ok out := by
  have hhat : Hat.empty.resolve (Workflow.lone id).aliasTable .empty id ∈
      ((Workflow.lone id).plan (Workflow.lone id).aliasTable).hats := List.mem_singleton_self _
  have hnone := (Plan.text?_eq_none_iff _).2 ⟨_, hhat, hlong⟩
  refine ⟨_, (Workflow.checkWith_eq_ok_iff _ _ _).2 ⟨not_dangles_lone id, rfl⟩, rfl, hnone, ?_, _, rfl⟩
  simp only [render, hnone]

theorem le_utf8ByteSize_replicate (n : Nat) (c : Char) : n ≤ (String.ofList (List.replicate n c)).utf8ByteSize := by
  have hlength : (String.ofList (List.replicate n c)).length = n := by
    rw [String.length_ofList, List.length_replicate]
  have := Text.length_le_utf8ByteSize (String.ofList (List.replicate n c))
  omega

/-- A workflow may pass though its plan has no table: its one hat has an id of 65536 letters. The plan is still written as
JSON. -/
theorem longId_untabled :
    ∃ p, (Workflow.lone (String.ofList (List.replicate 65536 'a'))).check = .ok p ∧ p.hats.length = 1 ∧ p.text? = none ∧
      render (.ok p) .text = .error .columnTooWide ∧ ∃ out, render (.ok p) .json = .ok out :=
  untabled_of_long (Nat.lt_of_succ_le (le_utf8ByteSize_replicate 65536 'a'))

end Preflight
