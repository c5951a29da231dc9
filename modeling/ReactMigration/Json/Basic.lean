import ReactMigration.Decimal.Shortest
import ReactMigration.Text.Quoted

/-!
Values of the JSON format.  Integers and floating-point numbers are kept apart, and the members of
an object stay in the order they were written.
-/

namespace ReactMigration

/-- A JSON value. -/
inductive Json where
  | null
  | bool (value : Bool)
  | int (value : Int)
  | float (value : Float)
  | str (value : String)
  | arr (items : List Json)
  | obj (members : List (String × Json))
  deriving Inhabited

namespace Json

/-- The value of an object's member. -/
def get? (key : String) : Json → Option Json
  | .obj members => (members.find? (·.1 == key)).map (·.2)
  | _ => none

/-- Sets a member: an existing one keeps its place, a new one goes last. -/
def setMember (key : String) (value : Json) : List (String × Json) → List (String × Json)
  | [] => [(key, value)]
  | (k, v) :: rest => if k == key then (k, value) :: rest else (k, v) :: setMember key value rest

/-- How numbers are written in JSON text and in messages. -/
def numberFormat : Decimal.Format :=
  ⟨-4, 16, "inf", "nan"⟩

end Json

end ReactMigration
