import Actionbook.Decimal.Binary64

/-!
# JSON values

Integers and floating-point numbers are kept apart, integers have any size, and the members of an
object keep their order.
-/

namespace Actionbook

/-- A JSON value. -/
inductive Json where
  | null
  | boolean (b : Bool)
  | integer (n : Int)
  | float (x : Binary64)
  | text (s : String)
  | array (items : List Json)
  | object (members : List (String × Json))
deriving Repr

namespace Json

instance : Inhabited Json := ⟨.null⟩

/-- A text, or null where there is none. -/
def ofText? : Option String → Json
  | some s => .text s
  | none => .null

/-- The member of an object with the given name. -/
def member? (name : String) : Json → Option Json
  | .object members => members.lookup name
  | _ => none

end Json

end Actionbook
