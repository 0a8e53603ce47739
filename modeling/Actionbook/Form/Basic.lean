import Actionbook.Form.Layout

/-!
# Name forms

A form is a text with fields between braces, for which a name is put in. A brace of the text itself is
written twice. Behind the name of a field an index may select one character of the value, behind an
exclamation mark a letter says whether the value is shown as it is or between quotes, and behind a
colon stands its layout, which may contain fields itself.

Behind a point a field may ask for an attribute of the value. Which attributes texts have, and what these
are, is up to the host in which forms are filled in.
-/

namespace Actionbook.Form

/-- A field of a form. -/
structure Field where
  name : List Char
  conversion : Option Char := none
  layout : List Char := []
deriving DecidableEq, Repr

/-- A piece of a form. -/
inductive Piece where
  | char (c : Char)
  | field (f : Field)
  /-- Where the form cannot be read any further. -/
  | stop (e : FormError)
deriving DecidableEq, Repr

/-! ## Reading -/

/-- The name of a field, the sign that ends it and the rest; brackets hold anything. -/
def readName : Bool → List Char → Except FormError (List Char × Char × List Char)
  | _, [] => .error .unclosed
  | inside, c :: r =>
    if inside then do
      let (name, rest) ← readName (c != ']') r
      return (c :: name, rest)
    else if c = '\x7b' then .error .braceInName
    else if c = '\x7d' ∨ c = ':' ∨ c = '!' then .ok ([], c, r)
    else do
      let (name, rest) ← readName (c == '[') r
      return (c :: name, rest)

/-- The layout of a field and the rest; `depth` fields in it are open. -/
def readLayout : Nat → List Char → Except FormError (List Char × List Char)
  | _, [] => .error .unclosedLayout
  | depth, c :: r => do
    if c = '\x7d' then
      match depth with
      | 0 => return ([], r)
      | depth + 1 =>
        let (layout, rest) ← readLayout depth r
        return (c :: layout, rest)
    else
      let (layout, rest) ← readLayout (if c = '\x7b' then depth + 1 else depth) r
      return (c :: layout, rest)

/-- The field behind an opening brace and the rest. -/
def readField (s : List Char) : Except FormError (Field × List Char) := do
  let (name, sign, s) ← readName false s
  if sign = ':' then
    let (layout, rest) ← readLayout 0 s
    return ({ name, layout }, rest)
  else if sign = '!' then
    match s with
    | [] => throw .noConversion
    | c :: s =>
      let conversion := if c = '\u0000' then none else some c
      match s with
      | [] => throw .unclosedLayout
      | d :: s =>
        if d = '\x7d' then return ({ name, conversion }, s)
        else if d = ':' then
          let (layout, rest) ← readLayout 0 s
          return ({ name, conversion, layout }, rest)
        else throw .afterConversion
  else return ({ name }, s)

/-- The pieces of a form, in at most `fuel` steps. -/
def piecesFrom : Nat → List Char → List Piece
  | 0, _ => []
  | _ + 1, [] => []
  | fuel + 1, c :: r =>
    if c = '\x7b' ∨ c = '\x7d' then
      match r with
      | [] => [.stop (if c = '\x7b' then .loneOpening else .loneClosing)]
      | d :: rest =>
        if d = c then .char c :: piecesFrom fuel rest
        else if c = '\x7d' then [.stop .loneClosing]
        else
          match readField r with
          | .ok (f, rest) => .field f :: piecesFrom fuel rest
          | .error e => [.stop e]
    else .char c :: piecesFrom fuel r

def pieces (form : List Char) : List Piece := piecesFrom form.length form

/-! ## Values -/

/-- A value that is no text, as far as fields can show it: as a text, between quotes, and as a layout
says. -/
structure Object where
  text : Except FormError (List Char)
  quoted : Except FormError (List Char)
  layOut : List Char → Except FormError (List Char)

/-- What a field stands for. -/
inductive Selected where
  | text (s : List Char)
  | object (o : Object)

/-- What the filling in of forms leaves to its surroundings. -/
structure Host where
  /-- What is selected of a text by selectors of which the first one is an attribute. -/
  selectAttribute : List Char → List Char → Except FormError Selected := fun _ _ => .error .attribute
  /-- The largest width to which there is room to pad texts. -/
  largestWidth : Nat := Nat.pow 2 26

namespace Selected

def asText : Selected → Except FormError (List Char)
  | .text s => .ok s
  | .object o => o.text

def inQuotes : Selected → Except FormError (List Char)
  | .text s => .ok (Text.quoted (String.ofList s)).toList
  | .object o => o.quoted

def layOut (room : Nat) (layout : List Char) : Selected → Except FormError (List Char)
  | .text s => Form.layOut room layout s
  | .object o => o.layOut layout

end Selected

/-! ## Filling in -/

/-- The name of the only field that stands for something. -/
def fieldName : List Char := "name".toList

/-- What attributes and indices select from a text, in at most `fuel` steps. -/
def selectFrom (host : Host) : Nat → List Char → List Char → Except FormError Selected
  | 0, value, _ => .ok (.text value)
  | _ + 1, value, [] => .ok (.text value)
  | fuel + 1, value, c :: r =>
    if c = '.' then
      match r with
      | [] => .error .emptyAttribute
      | d :: _ => if d = '.' ∨ d = '[' then .error .emptyAttribute else host.selectAttribute value (c :: r)
    else if c = '[' then do
      let index := r.takeWhile (· != ']')
      match r.dropWhile (· != ']') with
      | [] => throw .unclosedIndex
      | _ :: rest =>
        let n ← number? index
        if index.isEmpty then throw .emptyAttribute
        match n with
        | none => throw .noNumber
        | some n =>
          match value[n]? with
          | none => throw .outside
          | some d => selectFrom host fuel [d] rest
    else .error .afterIndex

/-- The value of a field for a name. -/
def lookUp (host : Host) (name field : List Char) : Except FormError Selected := do
  let isSelector (c : Char) : Bool := c == '.' || c == '['
  let start := field.takeWhile fun c => !isSelector c
  let number ← number? start
  if start.isEmpty ∨ number.isSome then throw .numbered
  if start ≠ fieldName then throw .unknownName
  selectFrom host field.length name (field.drop start.length)

/-- A text in which characters beyond ASCII are escaped. -/
def asciiOnly (s : List Char) : List Char :=
  s.flatMap fun c => if c.toNat < 128 then [c] else Text.numericEscape c

/-- The value as a conversion shows it. -/
def convert (conversion : Option Char) (v : Selected) : Except FormError Selected :=
  match conversion with
  | none => .ok v
  | some 's' => .text <$> v.asText
  | some 'r' => .text <$> v.inQuotes
  | some 'a' => (.text <| asciiOnly ·) <$> v.inQuotes
  | some c => .error (.unknownConversion c)

/-- A form, filled in with a name; fields may hold fields `depth` times over. -/
def fillFrom (host : Host) : Nat → List Char → List Char → Except FormError (List Char)
  | 0, _, _ => .error .tooDeep
  | depth + 1, name, form => do
    let texts ← (pieces form).mapM fun
      | .char c => return [c]
      | .stop e => throw e
      | .field f => do
        let value ← convert f.conversion (← lookUp host name f.name)
        let layout ←
          if f.layout.contains '\x7b' then fillFrom host depth name f.layout else pure f.layout
        value.layOut host.largestWidth layout
    return texts.flatten

def fill (form name : String) (host : Host := {}) : Except FormError String :=
  String.ofList <$> fillFrom host 2 name.toList form.toList

end Actionbook.Form
