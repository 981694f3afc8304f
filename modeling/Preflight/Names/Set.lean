/-!
Sets of names, listed in ascending order: two sets with the same members are the same set
(`NameSet.ext_mem`), and a set made of a list has the members of the list (`mem_ofList`).
-/

namespace Preflight

/-- A name put into an ascending list that may hold it already. -/
def insertName (name : String) : List String → List String
  | [] => [name]
  | n :: ns =>
    if name < n then name :: n :: ns
    else if n < name then n :: insertName name ns
    else n :: ns

theorem mem_insertName {name x : String} {ns : List String} :
    x ∈ insertName name ns ↔ x = name ∨ x ∈ ns := by
  induction ns with
  | nil => simp [insertName]
  | cons n ns ih =>
    simp only [insertName]
    split
    · simp
    · rename_i hnlt
      split
      · simp only [List.mem_cons, ih]
        constructor
        · rintro (h | h | h) <;> simp [h]
        · rintro (h | h | h) <;> simp [h]
      · rename_i hngt
        have : n = name := String.le_antisymm (String.not_lt.1 hnlt) (String.not_lt.1 hngt)
        simp [this]

theorem ascending_insertName {ns : List String} (h : ns.Pairwise (· < ·)) (name : String) :
    (insertName name ns).Pairwise (· < ·) := by
  induction ns with
  | nil => simp [insertName]
  | cons n ns ih =>
    obtain ⟨hn, hns⟩ := List.pairwise_cons.1 h
    simp only [insertName]
    split
    · rename_i hlt
      refine List.pairwise_cons.2 ⟨fun x hx => ?_, h⟩
      rcases List.mem_cons.1 hx with rfl | hx
      · exact hlt
      · exact String.lt_trans hlt (hn x hx)
    · split
      · rename_i hlt
        refine List.pairwise_cons.2 ⟨fun x hx => ?_, ih hns⟩
        rcases mem_insertName.1 hx with rfl | hx
        · exact hlt
        · exact hn x hx
      · exact h

/-- A finite set of names, listed in ascending order. -/
structure NameSet where
  toList : List String
  ascending : toList.Pairwise (· < ·)

namespace NameSet

/-- The set without members. -/
def empty : NameSet :=
  ⟨[], List.Pairwise.nil⟩

instance : Inhabited NameSet :=
  ⟨empty⟩

/-- The set with one more member. -/
def insert (s : NameSet) (name : String) : NameSet :=
  ⟨insertName name s.toList, ascending_insertName s.ascending name⟩

/-- The set of the names of a list. -/
def ofList (names : List String) : NameSet :=
  names.foldl insert empty

instance : Membership String NameSet :=
  ⟨fun s x => x ∈ s.toList⟩

instance (x : String) (s : NameSet) : Decidable (x ∈ s) :=
  inferInstanceAs (Decidable (x ∈ s.toList))

theorem mem_toList {x : String} {s : NameSet} : x ∈ s.toList ↔ x ∈ s :=
  Iff.rfl

@[simp]
theorem not_mem_empty (x : String) : x ∉ empty :=
  List.not_mem_nil

@[simp]
theorem mem_insert {x name : String} {s : NameSet} : x ∈ s.insert name ↔ x = name ∨ x ∈ s :=
  mem_insertName

theorem mem_foldl_insert {x : String} {names : List String} {s : NameSet} :
    x ∈ names.foldl insert s ↔ x ∈ s ∨ x ∈ names := by
  induction names generalizing s with
  | nil => simp
  | cons n ns ih =>
    rw [List.foldl_cons, ih, mem_insert, List.mem_cons, or_comm (a := x = n), or_assoc]

/-- The set of a list has the members of the list. -/
@[simp]
theorem mem_ofList {x : String} {names : List String} : x ∈ ofList names ↔ x ∈ names := by
  simp [ofList, mem_foldl_insert]

theorem eq_of_ascending {ms ns : List String} (hm : ms.Pairwise (· < ·)) (hn : ns.Pairwise (· < ·))
    (h : ∀ x, x ∈ ms ↔ x ∈ ns) : ms = ns := by
  induction ms generalizing ns with
  | nil =>
    cases ns with
    | nil => rfl
    | cons n ns => exact absurd ((h n).2 (by simp)) (by simp)
  | cons m ms ih =>
    cases ns with
    | nil => exact absurd ((h m).1 (by simp)) (by simp)
    | cons n ns =>
      obtain ⟨hm1, hm2⟩ := List.pairwise_cons.1 hm
      obtain ⟨hn1, hn2⟩ := List.pairwise_cons.1 hn
      have hmn : m = n := by
        rcases List.mem_cons.1 ((h m).1 (by simp)) with rfl | h1
        · rfl
        · rcases List.mem_cons.1 ((h n).2 (by simp)) with rfl | h2
          · rfl
          · exact absurd (String.lt_trans (hn1 m h1) (hm1 n h2)) (String.lt_irrefl _)
      subst hmn
      congr 1
      refine ih hm2 hn2 fun x => ⟨fun hx => ?_, fun hx => ?_⟩
      · rcases List.mem_cons.1 ((h x).1 (by simp [hx])) with rfl | h1
        · exact absurd (hm1 x hx) (String.lt_irrefl _)
        · exact h1
      · rcases List.mem_cons.1 ((h x).2 (by simp [hx])) with rfl | h1
        · exact absurd (hn1 x hx) (String.lt_irrefl _)
        · exact h1

/-- Sets with the same members are the same. -/
theorem ext_mem {s t : NameSet} (h : ∀ x, x ∈ s ↔ x ∈ t) : s = t := by
  cases s; cases t
  simp only [NameSet.mk.injEq]
  exact eq_of_ascending (by assumption) (by assumption) h

end NameSet

end Preflight
