import Actionbook.Choice
import Actionbook.Json.Writer
import Actionbook.Text.Case

/-!
# Values

A value is what a call passes, a parameter has as default or a step says: a literal, a reference to a
parameter of the surrounding body, or a template that mixes texts and references. A value has three
texts: its canonical form, which is fingerprinted; its source form, which shows in signatures; and its
displayed form, which stands in sentences.
-/

namespace Actionbook

inductive ValueKind where
  | string
  | numeric
  | boolean
  | null
  | variable
  | template
deriving DecidableEq, Repr

namespace ValueKind

def name : ValueKind → String
  | .string => "string"
  | .numeric => "numeric"
  | .boolean => "boolean"
  | .null => "null"
  | .variable => "variable"
  | .template => "template"

def all : List ValueKind := [.string, .numeric, .boolean, .null, .variable, .template]

def ofData (value : Data) : Except UnknownChoice ValueKind :=
  choose "ValueKind" (all.map fun k => (k.name, k)) value

end ValueKind

/-- A literal, a reference or a template. Literals keep the text they were written with. -/
inductive Value where
  | string (text : String)
  | numeric (text : String)
  | boolean (text : String)
  | null (text : String)
  | variable (name : String)
  | template (text : String) (parts : List Value)
deriving Repr

namespace Value

instance : Inhabited Value := ⟨.string ""⟩

mutual

def same : Value → Value → Bool
  | .string s, .string t => s == t
  | .numeric s, .numeric t => s == t
  | .boolean s, .boolean t => s == t
  | .null s, .null t => s == t
  | .variable s, .variable t => s == t
  | .template s l, .template t m => s == t && sameParts l m
  | _, _ => false

/-- Whether two lists of values are the same. -/
def sameParts : List Value → List Value → Bool
  | [], [] => true
  | v :: l, w :: m => same v w && sameParts l m
  | _, _ => false

end

mutual

theorem same_iff (v w : Value) : same v w = true ↔ v = w := by
  cases v with
  | template s l => cases w <;> simp [same, sameParts_iff l]
  | _ => cases w <;> simp [same]

theorem sameParts_iff (l m : List Value) : sameParts l m = true ↔ l = m := by
  cases l with
  | nil => cases m <;> simp [sameParts]
  | cons v l => cases m <;> simp [sameParts, same_iff v, sameParts_iff l]

end

instance : DecidableEq Value := fun v w => decidable_of_iff (same v w = true) (same_iff v w)

def kind : Value → ValueKind
  | .string _ => .string
  | .numeric _ => .numeric
  | .boolean _ => .boolean
  | .null _ => .null
  | .variable _ => .variable
  | .template _ _ => .template

/-- The text a value was written with; the name, for a reference. -/
def text : Value → String
  | .string t => t
  | .numeric t => t
  | .boolean t => t
  | .null t => t
  | .variable t => t
  | .template t _ => t

/-- The parts of a template; other values have none. -/
def parts : Value → List Value
  | .template _ ps => ps
  | _ => []

/-- The value of a kind with the given text and, for a template, the given parts. -/
def make (kind : ValueKind) (text : String) (parts : List Value) : Value :=
  match kind with
  | .string => .string text
  | .numeric => .numeric text
  | .boolean => .boolean text
  | .null => .null text
  | .variable => .variable text
  | .template => .template text parts

mutual

/-- The form that is fingerprinted: the kind with the text, or with the forms of the parts. -/
def canonical : Value → Json
  | .template _ ps => .object [("template", .array (canonicalParts ps))]
  | .string t => .object [("string", .text t)]
  | .numeric t => .object [("numeric", .text t)]
  | .boolean t => .object [("boolean", .text t)]
  | .null t => .object [("null", .text t)]
  | .variable t => .object [("variable", .text t)]

/-- The fingerprinted forms of parts. -/
def canonicalParts : List Value → List Json
  | [] => []
  | v :: l => canonical v :: canonicalParts l

end

/-- A part of a template as text: a reference stands in braces after a dollar sign. -/
def partText : Value → String
  | .string t => t
  | v => "$\x7b" ++ v.text ++ "\x7d"

def templateText (parts : List Value) : String := String.join (parts.map partText)

def quotedSource (s : String) : String := String.ofList (Json.quotedText s.toList)

/-- The form that shows in signatures: texts and templates stand between double quotes, truth values
are in small letters, a reference is its name. -/
def source : Value → String
  | .string t => quotedSource t
  | .template _ ps => quotedSource (templateText ps)
  | .boolean t => Text.lowercase t
  | .null _ => "null"
  | .numeric t => t
  | .variable t => t

/-- The form that stands in sentences: as in signatures, but without quotes, and a reference in
angle brackets. -/
def display : Value → String
  | .string t => t
  | .template _ ps => templateText ps
  | .variable t => "<" ++ t ++ ">"
  | v => v.source

end Value

end Actionbook
