import Preflight.Json.Basic
/-!
# Addresses in a JSON value

An address is a list of keys: it leads from a value through objects to a value
in it (`Json.Holds`). The entry at an address can be deleted or given another
value (`Json.edit`).
-/

namespace Preflight.Json

/-- A value found in another by the keys that lead to it, through objects only. -/
inductive Holds : Json → List String → Json → Prop
  | here (v : Json) : Holds v [] v
  | within {es : List (String × Json)} {key : String} {u x : Json} {rest : List String} (hmem : (key, u) ∈ es)
      (h : Holds u rest x) : Holds (.object es) (key :: rest) x

theorem Holds.append {v u x : Json} {a b : List String} (h : v.Holds a u) (hx : u.Holds b x) : v.Holds (a ++ b) x := by
  induction h with
  | here => exact hx
  | within hmem _ ih => exact .within hmem (ih hx)

/-- The value with the entry at an address deleted, or given another value. -/
def edit (new : Option Json) : List String → Json → Json
  | [key], .object es => .object (es.filterMap fun e => if e.1 = key then new.map (key, ·) else some e)
  | key :: rest, .object es => .object (es.map fun e => if e.1 = key then (key, edit new rest e.2) else e)
  | _, v => v

/-- The value with several entries deleted or given other values, one after the other. -/
def editAll (v : Json) (edits : List (List String × Option Json)) : Json :=
  edits.foldl (fun v e => v.edit e.2 e.1) v

theorem edit_last (new : Option Json) (key : String) (es : List (String × Json)) :
    (Json.object es).edit new [key] =
      .object (es.filterMap fun e => if e.1 = key then new.map (key, ·) else some e) :=
  rfl

theorem edit_within (new : Option Json) (key : String) {rest : List String} (hrest : rest ≠ [])
    (es : List (String × Json)) : (Json.object es).edit new (key :: rest) =
      .object (es.map fun e => if e.1 = key then (key, e.2.edit new rest) else e) := by
  cases rest with
  | nil => exact absurd rfl hrest
  | cons key' rest => rfl

/-- Where there is no object there is no entry to edit. -/
theorem edit_of_not_object {v : Json} (hv : ∀ es, v ≠ .object es) (new : Option Json) (address : List String) :
    v.edit new address = v := by
  cases v with
  | object es => exact absurd rfl (hv es)
  | _ => cases address with
    | nil => rfl
    | cons key rest => cases rest <;> rfl

theorem exists_edit_object (new : Option Json) (address : List String) (es : List (String × Json)) :
    ∃ fs, (Json.object es).edit new address = .object fs := by
  match address with
  | [] => exact ⟨es, rfl⟩
  | [key] => exact ⟨_, edit_last new key es⟩
  | key :: key' :: rest => exact ⟨_, edit_within new key (by simp) es⟩

end Preflight.Json
