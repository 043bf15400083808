import ScanPolicy.Text.Basic

/-!
# Structured values

The values of log records, request bodies and raw settings. Whole numbers and floating-point
numbers are kept apart, and an object keeps its fields in the order in which they were first
written.

- `Json.set`: write a field of an object; a known field keeps its place.
- `Json.merge`: write all fields of one object into another, in order.
- `Json.get?`: the value of a field.
-/

namespace ScanPolicy

/-- A structured value. -/
inductive Json where
  | null
  | bool (b : Bool)
  | int (n : Int)
  | float (x : Float)
  | text (t : String)
  | list (items : List Json)
  | object (fields : List (String × Json))
deriving Inhabited

namespace Json

/-- Write a field: a known one keeps its place, a new one comes last. -/
def set (key : String) (value : Json) : List (String × Json) → List (String × Json)
  | [] => [(key, value)]
  | (k, v) :: rest => if k = key then (k, value) :: rest else (k, v) :: set key value rest

/-- Write all fields of `extra` into `fields`, in order. -/
def merge (fields extra : List (String × Json)) : List (String × Json) :=
  extra.foldl (fun acc f => set f.1 f.2 acc) fields

/-- The value of a field of an object. -/
def get? (key : String) : Json → Option Json
  | object fields => fields.lookup key
  | _ => none

/-- The value of a field, null for an absent one. -/
def field (key : String) (v : Json) : Json := (v.get? key).getD null

/-- The keys after a write are the keys before, and the new one last if it was not there. -/
theorem map_fst_set (key : String) (value : Json) (fields : List (String × Json)) :
    (set key value fields).map Prod.fst =
      if key ∈ fields.map Prod.fst then fields.map Prod.fst else fields.map Prod.fst ++ [key] := by
  induction fields with
  | nil => simp [set]
  | cons f rest ih =>
    obtain ⟨k, v⟩ := f
    by_cases h : k = key
    · simp [set, h]
    · have h' : ¬ key = k := fun e => h e.symm
      simp only [set, h, if_false, List.map_cons, ih, List.mem_cons, h', false_or]
      split <;> simp

end Json

end ScanPolicy
