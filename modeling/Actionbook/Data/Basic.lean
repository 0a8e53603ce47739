import Actionbook.Data.Moment
import Actionbook.Json.Basic

/-!
# Data

The values that a data document can hold: configurations and snapshots are read as such values
before their shape is known. Mappings keep their entries in order and may have keys of any kind.
Two keys are one if they denote the same thing (`Key`): a truth value is the integer 0 or 1, and a
floating-point number without a fraction is that integer.
-/

namespace Actionbook

/-- A value of a data document. -/
inductive Data where
  | null
  | boolean (b : Bool)
  | integer (n : Int)
  | float (x : Binary64)
  | text (s : String)
  | bytes (b : List UInt8)
  | date (d : Date)
  | moment (m : Moment)
  | list (items : List Data)
  | pair (first second : Data)
  | set (members : List Data)
  | mapping (entries : List (Data × Data))
deriving Repr

namespace Data

instance : Inhabited Data := ⟨.null⟩

/-- What a value denotes as a key. -/
inductive Key where
  | null
  | number (n : Int)
  | fraction (x : Binary64)
  | text (s : String)
  | bytes (b : List UInt8)
  | date (d : Date)
  | moment (hasOffset : Bool) (instant : Int)
deriving DecidableEq, Repr

/-- What a value denotes as a key; collections are no keys. -/
def key? : Data → Option Key
  | .null => some .null
  | .boolean b => some (.number (if b then 1 else 0))
  | .integer n => some (.number n)
  | .float x => some (match x.toInt? with | some n => .number n | none => .fraction x)
  | .text s => some (.text s)
  | .bytes b => some (.bytes b)
  | .date d => some (.date d)
  | .moment m => some (.moment m.offset.isSome m.instant)
  | _ => none

/-- Whether two values are the same key. -/
def sameKey (a b : Data) : Bool :=
  match a.key?, b.key? with
  | some j, some k => j == k
  | _, _ => false

/-- The entries of a mapping; other values have none. -/
def entries : Data → List (Data × Data)
  | .mapping e => e
  | _ => []

def find? (entries : List (Data × Data)) (key : Data) : Option Data :=
  (entries.find? fun e => e.1.sameKey key).map (·.2)

/-- The value of the entry whose key is a text. -/
def field? (entries : List (Data × Data)) (name : String) : Option Data :=
  find? entries (.text name)

/-- Sets an entry: a key that is present keeps its place, a new one goes to the end. -/
def put (entries : List (Data × Data)) (key value : Data) : List (Data × Data) :=
  if entries.any (fun e => e.1.sameKey key) then
    entries.map fun e => if e.1.sameKey key then (e.1, value) else e
  else entries ++ [(key, value)]

/-- Whether a value counts as given: null, false, zero and empty texts and collections do not. -/
def isGiven : Data → Bool
  | .null => false
  | .boolean b => b
  | .integer n => n != 0
  | .float x => !x.isZero
  | .text s => !s.isEmpty
  | .bytes b => !b.isEmpty
  | .date _ => true
  | .moment _ => true
  | .list l => !l.isEmpty
  | .pair _ _ => true
  | .set l => !l.isEmpty
  | .mapping e => !e.isEmpty

/-- The name of a value's kind in messages. -/
def kindName : Data → String
  | .null => "NoneType"
  | .boolean _ => "bool"
  | .integer _ => "int"
  | .float _ => "float"
  | .text _ => "str"
  | .bytes _ => "bytes"
  | .date _ => "date"
  | .moment _ => "datetime"
  | .list _ => "list"
  | .pair _ _ => "tuple"
  | .set _ => "set"
  | .mapping _ => "dict"

/-- A text, or null where there is none. -/
def ofText? : Option String → Data
  | some s => .text s
  | none => .null

/-- A number, or null where there is none. -/
def ofInt? : Option Int → Data
  | some n => .integer n
  | none => .null

end Data

mutual

def Json.toData : Json → Data
  | .null => .null
  | .boolean b => .boolean b
  | .integer n => .integer n
  | .float x => .float x
  | .text s => .text s
  | .array items => .list (Json.itemsToData items)
  | .object members => .mapping (Json.membersToData members)

def Json.itemsToData : List Json → List Data
  | [] => []
  | v :: l => v.toData :: Json.itemsToData l

/-- The members of an object as entries. -/
def Json.membersToData : List (String × Json) → List (Data × Data)
  | [] => []
  | (name, v) :: l => (.text name, v.toData) :: Json.membersToData l

end

end Actionbook
