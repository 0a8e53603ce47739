import Actionbook.Xml.Element
import Actionbook.Xml.Prolog

/-!
# Reading documents

A document is one element with comments, instructions and a prolog around it. Elements must be
properly nested, also within the texts of entities, attributes must be distinct, and every prefix must
have been declared on the way down from the root.
-/

namespace Actionbook.Xml

/-! ## Namespaces -/

/-- The namespace of names with the prefix `xml`. -/
def xmlNamespace : String := "http://www.w3.org/XML/1998/namespace"

def declarationNamespace : String := "http://www.w3.org/2000/xmlns/"

/-- The namespaces that prefixes stand for, innermost first; the empty prefix is the one of names
without prefix. -/
abbrev Bindings := List (List Char × List Char)

/-- A name with its prefix, which is empty if there is none. -/
structure QName where
  raw : List Char
  pre : List Char
  base : List Char

/-- A name, perhaps with a prefix, at the start of a text. -/
def qname? (s : List Char) : Option (QName × List Char) := do
  let (a, r) ← name? s
  match r with
  | ':' :: r =>
    let (b, rest) ← name? r
    return (⟨a ++ ':' :: b, a, b⟩, rest)
  | _ => return (⟨a, [], a⟩, r)

/-- The prefix that an attribute declares; the empty one, if it declares the namespace of names without
prefix. -/
def declaredPrefix? (q : QName) : Option (List Char) :=
  if q.raw = "xmlns".toList then some []
  else if q.pre = "xmlns".toList then some q.base
  else none

/-- Binds a prefix to a namespace, if that is allowed. -/
def bind? (bindings : Bindings) (pre uri : List Char) : Option Bindings :=
  if uri.isEmpty && !pre.isEmpty then none
  else if pre = "xmlns".toList then none
  else if uri.contains '\x7d' then none
  else if (pre == "xml".toList) != (uri == xmlNamespace.toList) then none
  else if uri = declarationNamespace.toList then none
  else some ((pre, uri) :: bindings)

def namespace? (bindings : Bindings) (pre : List Char) : Option (List Char) :=
  match bindings.lookup pre with
  | some uri => some uri
  | none => if pre = "xml".toList then some xmlNamespace.toList else none

/-- The tag of an element: its name behind its namespace in braces, if it has one. -/
def tag? (bindings : Bindings) (q : QName) : Option String :=
  match namespace? bindings q.pre with
  | some [] => some (String.ofList q.base)
  | some uri => some (String.ofList ('\x7b' :: uri ++ '\x7d' :: q.base))
  | none => if q.pre.isEmpty then some (String.ofList q.base) else none

/-! ## Tags -/

/-- An attribute, with its value as it is written. -/
abbrev Attribute := QName × List Char

/-- Reads the attributes of a tag and its end: whether the element is closed, and what follows. The
first attribute must be divided from what stands in front of it. -/
def attributes? : Nat → List Char → Option (List Attribute × Bool × List Char)
  | 0, _ => none
  | _ + 1, '>' :: rest => some ([], false, rest)
  | _ + 1, '/' :: '>' :: rest => some ([], true, rest)
  | fuel + 1, s =>
    if !startsWithOneOf "" s then none
    else
      match skipSpaces s with
      | '>' :: rest => some ([], false, rest)
      | '/' :: '>' :: rest => some ([], true, rest)
      | s => do
        let (q, r) ← qname? s
        match skipSpaces r with
        | '=' :: r =>
          let (value, r) ← literal? (skipSpaces r)
          let (others, closed, rest) ← attributes? fuel r
          return ((q, value) :: others, closed, rest)
        | _ => none

/-- The attributes that an element has where they are not written. -/
def defaultAttributes (d : Declarations) (element : QName) (written : List Attribute) :
    List Attribute :=
  d.attributes.filterMap fun a => do
    let value ← a.default?
    if a.element = element.raw ∧ !(written.any fun w => w.1.raw == a.name) then
      (qname? a.name).map fun (q, _) => (q, value)
    else none

/-- Whether a list holds nothing twice. -/
def allDistinct {α : Type} [BEq α] : List α → Bool
  | [] => true
  | a :: l => !l.contains a && allDistinct l

/-- The tag of an element whose attributes stand inside of markup at `p`, and the bindings inside of the
element. -/
def openElement? (d : Declarations) (p : Place) (bindings : Bindings) (q : QName)
    (attributes : List Attribute) : Reading (String × Bindings) := do
  if !allDistinct (attributes.map (·.1.raw)) then failure
  let written ← attributes.mapM fun (a, raw) => do
    return (a, ← d.attributeValue? p (d.isTokenized q.raw a.raw) raw)
  let all := written ++ defaultAttributes d q attributes
  let bindings ← all.foldlM (fun bindings (a, value) =>
    match declaredPrefix? a with
    | some pre => bind? bindings pre value
    | none => some bindings) bindings
  let others := all.filter fun (a, _) => (declaredPrefix? a).isNone && !a.pre.isEmpty
  let names ← others.mapM fun (a, _) => do return (← namespace? bindings a.pre, a.base)
  if !allDistinct names then failure
  return (← tag? bindings q, bindings)

/-! ## Content -/

/-- A piece of the content of an element. -/
inductive Item where
  | characters (text : List Char)
  | element (e : Element)

/-- The text in front of the first element. -/
def leadingText : List Item → List Char
  | .characters t :: r => t ++ leadingText r
  | _ => []

/-- The elements among the pieces of content. -/
def elementsOf (items : List Item) : List Element :=
  items.filterMap fun
    | .element e => some e
    | .characters _ => none

/-- An element with the given content. -/
def Element.ofItems (tag : String) (items : List Item) : Element :=
  .make tag (String.ofList (leadingText items)) (elementsOf items)

/-- Whether a character goes on with a line of text. -/
def isPlain (c : Char) : Bool := c != '<' && c != '&' && c != '\n'

/-- Whether a text holds the end of a character section. -/
def endsSection : List Char → Bool
  | ']' :: ']' :: '>' :: _ => true
  | _ :: r => endsSection r
  | [] => false

/-- Looks at the length of replaced texts throughout a character section: at its line breaks and in
front of brackets. -/
def Place.checkSection (p : Place) : List Char → Reading Unit
  | ']' :: ']' :: '>' :: _ => return ()
  | c :: r => do
    if c = '\n' ∨ r.head? = some '\n' ∨ r.head? = some ']' then p.check r
    checkSection p r
  | [] => return ()

mutual

/-- Reads content up to a closing tag or the end of the text. -/
def items? (d : Declarations) (fuel : Nat) (p : Place) (bindings : Bindings) (s : List Char) :
    Reading (List Item × List Char) :=
  match fuel with
  | 0 => failure
  | fuel + 1 => do
    p.check s
    match s with
    | [] => return ([], [])
    | '<' :: '/' :: _ => return ([], s)
    | '<' :: '?' :: r => items? d fuel p bindings (← afterInstruction? r)
    | '<' :: '!' :: '-' :: '-' :: r => items? d fuel p bindings (← afterComment? r)
    | '<' :: '!' :: r =>
      let r ← after? "[CDATA[" r
      p.check r
      p.checkSection r
      let (text, rest) ← upTo? "]]>" r
      let (items, rest) ← items? d fuel p bindings rest
      return (.characters text :: items, rest)
    | '<' :: r =>
      let (e, rest) ← element? d fuel p bindings r
      let (items, rest) ← items? d fuel p bindings rest
      return (.element e :: items, rest)
    | '&' :: r =>
      let (ref, rest) ← reference? r
      let here ← match ref with
        | .character c => pure [Item.characters [c]]
        | .entity name =>
          match predefined? name, d.entities.lookup name with
          | some c, _ =>
            p.replace [c] rest
            pure [Item.characters [c]]
          | none, some (.internal text) =>
            if p.opened.contains name then failure
            else
              p.replace text rest
              match ← items? d fuel (p.enter name rest) bindings text with
              | (items, []) => pure items
              | _ => failure
          | none, _ => failure
      let (items, rest) ← items? d fuel p bindings rest
      return (here ++ items, rest)
    | '\n' :: r =>
      let (items, rest) ← items? d fuel p bindings r
      return (.characters ['\n'] :: items, rest)
    | s =>
      let text := s.takeWhile isPlain
      if endsSection text then failure
      else
        let (items, rest) ← items? d fuel p bindings (s.dropWhile isPlain)
        return (.characters text :: items, rest)

/-- Reads an element whose opening bracket has been read. -/
def element? (d : Declarations) (fuel : Nat) (p : Place) (bindings : Bindings) (s : List Char) :
    Reading (Element × List Char) :=
  match fuel with
  | 0 => failure
  | fuel + 1 => do
    let (q, r) ← qname? s
    let (attributes, closed, r) ← attributes? (r.length + 1) r
    p.check r
    let (tag, inner) ← openElement? d (p.inside r) bindings q attributes
    if closed then return (.make tag "" [], r)
    let (items, r) ← items? d fuel p inner r
    match after? (String.ofList ('<' :: '/' :: q.raw)) r with
    | some r =>
      match skipSpaces r with
      | '>' :: rest => return (.ofItems tag items, rest)
      | _ => failure
    | none => failure

end

/-- Reads the root element of a document, given with unified line breaks, and everything around it.
Every piece of content takes at least one character of the document or stands for a declared text, so
`fuel` is bounded by their lengths. -/
def root? (p : Place) (s : List Char) : Reading Element := do
  let (d, r) ← prolog? p s
  match r with
  | '<' :: r =>
    let (root, r) ← element? d (2 * (r.length + d.size) + 2) p [] r
    let (_, rest) ← misc? p (r.length + 1) false d r
    if rest.isEmpty then return root else failure
  | _ => failure

/-- The root element of a document that is given by its characters. -/
def readCharacters? (document : List Char) : Option Element :=
  let s := Text.unifyBreaks document
  if s.all isDocumentChar then
    (root? (.ofDocument document) (if s.head? = some '\ufeff' then s.drop 1 else s)).run' 0
  else none

def read? (document : String) : Option Element := readCharacters? document.toList

end Actionbook.Xml
