import Actionbook.Xml.Expansion
import Actionbook.Xml.Markup

/-!
# Entities

A document can declare names for pieces of text. A piece may use other names, but none may lead back
to itself.
-/

namespace Actionbook.Xml

/-- What a name stands for. -/
inductive Entity where
  /-- A text. -/
  | internal (text : List Char)
  /-- Something outside of the document. -/
  | external
deriving Repr

/-- What a document declares about an attribute. -/
structure AttributeDeclaration where
  element : List Char
  name : List Char
  /-- Whether values are lists of tokens, so that only one space between two of them counts. -/
  isTokenized : Bool
  /-- The value where none is written. -/
  default? : Option (List Char)
deriving Repr

/-- What a document declares about itself. -/
structure Declarations where
  entities : List (List Char × Entity) := []
  attributes : List AttributeDeclaration := []
  /-- Whether there may be declarations that have not been read. -/
  incomplete : Bool := false
  /-- Whether the document says that it does not need any others. -/
  standalone : Bool := false

namespace Declarations

/-- Whether an unknown name may have been declared elsewhere. -/
def admitsUnknown (d : Declarations) : Bool := d.incomplete && !d.standalone

/-- The length of all texts of entities. -/
def size (d : Declarations) : Nat :=
  (d.entities.map fun e => match e.2 with
    | .internal t => t.length + 1
    | .external => 1).foldr (· + ·) 0

/-- Adds an entity; of several with one name the first counts. -/
def declare (d : Declarations) (name : List Char) (e : Entity) : Declarations :=
  if (d.entities.lookup name).isSome then d else { d with entities := d.entities ++ [(name, e)] }

/-- What is declared about an attribute of an element. -/
def attribute? (d : Declarations) (element name : List Char) : Option AttributeDeclaration :=
  d.attributes.find? fun a => a.element == element && a.name == name

/-- Adds an attribute; of several with one name the first counts. -/
def declareAttribute (d : Declarations) (a : AttributeDeclaration) : Declarations :=
  if (d.attribute? a.element a.name).isSome then d else { d with attributes := d.attributes ++ [a] }

/-- Whether the values of an attribute are lists of tokens. -/
def isTokenized (d : Declarations) (element name : List Char) : Bool :=
  (d.attribute? element name).any (·.isTokenized)

end Declarations

/-- The text of an entity as it is declared: references to characters are replaced, those to entities
stay. -/
def entityText? (s : List Char) : Option (List Char) :=
  match s with
  | [] => some []
  | '%' :: _ => none
  | '&' :: r =>
    match h : reference? r with
    | none => none
    | some (.character c, rest) =>
      have := reference?_length h
      (entityText? rest).map (c :: ·)
    | some (.entity name, rest) =>
      have := reference?_length h
      (entityText? rest).map fun t => '&' :: name ++ ';' :: t
  | c :: r => (entityText? r).map (c :: ·)
termination_by s.length
decreasing_by all_goals (simp only [List.length_cons]; omega)

/-- The value of an attribute: blanks are spaces, references are replaced. Every replacement is as long
as a declared text, so `fuel` is bounded by the lengths of those. -/
def attributeValue? (d : Declarations) : Nat → Place → List Char → Reading (List Char)
  | 0, _, _ => failure
  | _ + 1, _, [] => return []
  | _ + 1, _, '<' :: _ => failure
  | fuel + 1, p, '&' :: r => do
    let (ref, rest) ← reference? r
    let value ← match ref with
      | .character c => pure [c]
      | .entity name =>
        match predefined? name, d.entities.lookup name with
        | some c, _ =>
          p.replace [c] rest
          pure [c]
        | none, some (.internal text) =>
          if p.opened.contains name then failure
          else
            p.replace text rest
            attributeValue? d fuel (p.enter name rest) text
        | none, some .external => failure
        | none, none => if d.admitsUnknown then pure [] else failure
    return value ++ (← attributeValue? d fuel p rest)
  | fuel + 1, p, c :: r => do
    let value ← attributeValue? d fuel p r
    return (if isSpace c then ' ' else c) :: value

/-- A list of tokens: of spaces only one between two other characters is left. -/
def joinTokens (s : List Char) : List Char :=
  (s.foldr (fun c l => if c = ' ' ∧ (l.isEmpty ∨ l.head? = some ' ') then l else c :: l) []).dropWhile
    (· == ' ')

/-- The value of an attribute that is written between quotes inside of markup at `p`. -/
def Declarations.attributeValue? (d : Declarations) (p : Place) (isTokenized : Bool) (s : List Char) :
    Reading (List Char) := do
  let value ← Xml.attributeValue? d (s.length + d.size + 1) p s
  return if isTokenized then joinTokens value else value

end Actionbook.Xml
