import Actionbook.Xml.Entity

/-!
# The prolog of a document

In front of its root a document may declare the version it is written in and the type it is of. The
internal part of the type declares entities, elements, attributes and notations; only entities and
the values of attributes matter for what the document says, but all of it must be well formed.
-/

namespace Actionbook.Xml

/-! ## The document's declaration -/

/-- One setting of the declaration, blanks in front required: its name and its value. -/
def setting? : List Char → Option (List Char × List Char × List Char)
  | [] => none
  | b :: s =>
    if !isSpace b then none
    else do
      let s := skipSpaces s
      let name := s.takeWhile fun c => !isSpace c && c != '='
      match skipSpaces (s.drop name.length) with
      | '=' :: r =>
        let (value, rest) ← literal? (skipSpaces r)
        let plain (c : Char) : Bool :=
          c.toNat < 128 && (c.isAlphanum || c == '.' || c == '-' || c == '_')
        let isAscii (c : Char) : Bool := c.toNat < 128
        if value.all plain && name.all isAscii && !name.isEmpty then return (name, value, rest)
        else none
      | _ => none

/-- Whether a document says that it stands alone; `s` is its declaration without the brackets. -/
def standalone? (s : List Char) : Option Bool := do
  let (name, _, r) ← setting? s
  if name ≠ "version".toList then none
  else if (skipSpaces r).isEmpty then return false
  else
    let (name, value, r) ← setting? r
    let (name, value, r) ← if name = "encoding".toList then
        (if (value.head?.map Char.isAlpha).getD false then
          (if (skipSpaces r).isEmpty then some ([], [], []) else setting? r) else none)
      else some (name, value, r)
    if name.isEmpty then return false
    else if name ≠ "standalone".toList ∨ !(skipSpaces r).isEmpty then none
    else if value = "yes".toList then return true
    else if value = "no".toList then return false
    else none

/-! ## Tokens of declarations -/

/-- A token of a declaration. -/
inductive Token where
  /-- A name without a colon. -/
  | name (text : List Char)
  /-- A name with a prefix. -/
  | qualified (text : List Char)
  /-- A name with a mark of repetition behind it. -/
  | repeated (text : List Char) (mark : Char)
  /-- Characters of names that form no name. -/
  | characters (text : List Char)
  /-- A name behind a number sign. -/
  | keyword (text : List Char)
  /-- What stands between quotes, and what follows it in the document. -/
  | literal (text rest : List Char)
  /-- A closing parenthesis, perhaps with a mark of repetition behind it. -/
  | closing (mark : Option Char)
  | sign (c : Char)
deriving DecidableEq, Repr

/-- Whether a text goes on with one of some characters, or with a blank. -/
def startsWithOneOf (signs : String) : List Char → Bool
  | [] => false
  | c :: _ => isSpace c || signs.toList.contains c

/-- The token that a run of name characters and colons is. -/
def nameToken (text : List Char) : Token :=
  let p := text.takeWhile (· ≠ ':')
  let l := text.drop (p.length + 1)
  if !((text.head?.map isNameStart).getD false) then .characters text
  else if p = text then .name text
  else if l.isEmpty || l.contains ':' then .characters text
  else .qualified text

/-- The token at the start of a text that does not start with a blank. -/
def token? : List Char → Option (Token × List Char)
  | [] => none
  | '(' :: r => some (.sign '(', r)
  | ')' :: r =>
    match r with
    | c :: rest =>
      if c = '*' ∨ c = '?' ∨ c = '+' then some (.closing (some c), rest)
      else if startsWithOneOf ">,|)" r then some (.closing none, r) else none
    | [] => none
  | '|' :: r => some (.sign '|', r)
  | ',' :: r => some (.sign ',', r)
  | '%' :: r => if startsWithOneOf "" r then some (.sign '%', r) else none
  | '#' :: r => do
    let (text, rest) ← name? r
    if startsWithOneOf ")>%|" rest then return (.keyword text, rest) else none
  | c :: r =>
    if c = '"' ∨ c = '\x27' then do
      let (text, rest) ← literal? (c :: r)
      if startsWithOneOf ">%[" rest then return (.literal text rest, rest) else none
    else
      let isPart (c : Char) : Bool := isNameChar c || c == ':'
      let text := (c :: r).takeWhile isPart
      match text, (c :: r).dropWhile isPart with
      | [], _ => none
      | _, [] => none
      | text, m :: rest =>
        match nameToken text with
        | .characters t =>
          if startsWithOneOf ">),|[%" (m :: rest) then some (.characters t, m :: rest) else none
        | t =>
          if m = '*' ∨ m = '?' ∨ m = '+' then some (.repeated text m, rest)
          else if startsWithOneOf ">),|[%" (m :: rest) then some (t, m :: rest) else none

/-- The tokens of a declaration up to its closing bracket, and what follows it. -/
def tokens? : Nat → List Char → Option (List Token × List Char)
  | 0, _ => none
  | fuel + 1, s =>
    match skipSpaces s with
    | '>' :: rest => some ([], rest)
    | s => do
      let (t, r) ← token? s
      let (ts, rest) ← tokens? fuel r
      return (t :: ts, rest)

/-! ## Declarations -/

/-- Whether a text can be a public identifier. -/
def isPublicId (s : List Char) : Bool :=
  s.all fun c => c.toNat < 128 && (c.isAlphanum || " \n\r-'()+,./:=?;!*#@$_%".toList.contains c)

/-- Reads an identifier of something outside of the document off a list of tokens. -/
def externalId? : List Token → Option (List Token)
  | .name k :: .literal _ _ :: r => if k = "SYSTEM".toList then some r else none
  | _ => none

/-- As `externalId?`, with a public identifier in front of the other. -/
def anyId? : List Token → Option (List Token)
  | .name k :: .literal id idRest :: .literal place rest :: r =>
    if k = "PUBLIC".toList then (if isPublicId id then some r else none)
    else externalId? (.name k :: .literal id idRest :: .literal place rest :: r)
  | ts => externalId? ts

def isNotation : List Token → Bool
  | [.name _, .name k, .literal s _] =>
    k = "SYSTEM".toList || (k = "PUBLIC".toList && isPublicId s)
  | .name _ :: ts => anyId? ts == some []
  | _ => false

mutual

/-- Reads what can be repeated in the content of an element: a name or a group. -/
def particle? : Nat → List Token → Option (List Token)
  | 0, _ => none
  | _ + 1, .name _ :: r => some r
  | _ + 1, .qualified _ :: r => some r
  | _ + 1, .repeated _ _ :: r => some r
  | fuel + 1, .sign '(' :: r => group? fuel none r
  | _ + 1, _ => none

/-- Reads a group whose opening parenthesis has been read; all its parts are joined by one sign. -/
def group? : Nat → Option Char → List Token → Option (List Token)
  | 0, _, _ => none
  | fuel + 1, joint, ts => do
    match ← particle? fuel ts with
    | .closing _ :: r => return r
    | .sign c :: r =>
      if (c = ',' ∨ c = '|') ∧ (joint = none ∨ joint = some c) then group? fuel (some c) r else none
    | _ => none

end

/-- Whether tokens go on with names for mixed content and close it. -/
def isMixedRest : List Token → Bool
  | [.closing (some '*')] => true
  | .sign '|' :: .name _ :: r => isMixedRest r
  | .sign '|' :: .qualified _ :: r => isMixedRest r
  | _ => false

/-- Whether tokens describe the content of an element. -/
def isContentModel : List Token → Bool
  | [.name k] => k = "EMPTY".toList || k = "ANY".toList
  | .sign '(' :: .keyword k :: r =>
    k = "PCDATA".toList && (r == [.closing none] || isMixedRest r)
  | .sign '(' :: r => group? (2 * r.length + 2) none r == some []
  | _ => false

/-- Reads the choices of an enumeration whose opening parenthesis has been read. -/
def choices? (anyCharacters : Bool) : List Token → Option (List Token)
  | t :: .sign '|' :: r =>
    match t with
    | .name _ => choices? anyCharacters r
    | .qualified _ => if anyCharacters then choices? anyCharacters r else none
    | .characters _ => if anyCharacters then choices? anyCharacters r else none
    | _ => none
  | t :: .closing none :: r =>
    match t with
    | .name _ => some r
    | .qualified _ => if anyCharacters then some r else none
    | .characters _ => if anyCharacters then some r else none
    | _ => none
  | _ => none

/-- Reads the type of an attribute: whether its values are lists of tokens. -/
def attributeType? : List Token → Option (Bool × List Token)
  | .sign '(' :: r => (choices? true r).map (true, ·)
  | .name k :: r =>
    if k = "CDATA".toList then some (false, r)
    else if ["ID", "IDREF", "IDREFS", "ENTITY", "ENTITIES", "NMTOKEN", "NMTOKENS"].contains
        (String.ofList k) then some (true, r)
    else if k = "NOTATION".toList then
      match r with
      | .sign '(' :: r => (choices? false r).map (true, ·)
      | _ => none
    else none
  | _ => none

/-- Reads the default of an attribute: its value, if it has one, and what follows that in the document. -/
def attributeDefault? : List Token → Option (Option (List Char × List Char) × List Token)
  | .literal v rest :: r => some (some (v, rest), r)
  | .keyword k :: .literal v rest :: r =>
    if k = "FIXED".toList then some (some (v, rest), r) else none
  | .keyword k :: r =>
    if k = "IMPLIED".toList ∨ k = "REQUIRED".toList then some (none, r) else none
  | _ => none

/-- The text of a name, with or without prefix. -/
def anyName? : Token → Option (List Char)
  | .name n => some n
  | .qualified n => some n
  | _ => none

/-- Adds the attributes of an element that tokens declare. -/
def declareAttributes? (p : Place) (element : List Char) :
    Nat → Declarations → List Token → Reading Declarations
  | 0, _, _ => failure
  | _ + 1, d, [] => return d
  | fuel + 1, d, t :: r => do
    let name ← anyName? t
    let (isTokenized, r) ← attributeType? r
    let (written, r) ← attributeDefault? r
    let default? ← written.mapM fun (v, rest) => d.attributeValue? (p.inside rest) isTokenized v
    declareAttributes? p element fuel (d.declareAttribute { element, name, isTokenized, default? }) r

/-- Adds the entity that tokens declare. Where declarations have no effect (`ignoring`) its text may be
anything. -/
def declareEntity? (ignoring : Bool) (d : Declarations) : List Token → Option Declarations
  | [.sign '%', .name _, .literal v _] =>
    if ignoring then some d else (entityText? v).map fun _ => d
  | .sign '%' :: .name _ :: ts => if anyId? ts == some [] then some d else none
  | [.name n, .literal v _] =>
    if ignoring then some d else (entityText? v).map fun t => d.declare n (.internal t)
  | .name n :: ts =>
    let declared := if ignoring then d else d.declare n .external
    match anyId? ts with
    | some [] => some declared
    | some [.name k, .name _] => if k = "NDATA".toList then some declared else none
    | _ => none
  | _ => none

/-- A token without what a literal says. -/
def Token.emptied : Token → Token
  | .literal _ rest => .literal [] rest
  | t => t

/-- Adds what a declaration with the given keyword says. After a reference to declarations elsewhere
(`ignoring`) declarations have no effect. -/
def declare? (p : Place) (keyword : List Char) (ts : List Token) (ignoring : Bool) (d : Declarations) :
    Reading Declarations := do
  match String.ofList keyword, ts with
  | "ENTITY", ts => declareEntity? ignoring d ts
  | "ELEMENT", t :: model =>
    let _ ← anyName? t
    if isContentModel model then return d else failure
  | "ATTLIST", t :: ts =>
    let element ← anyName? t
    if ignoring then
      (declareAttributes? p element (ts.length + 1) d (ts.map Token.emptied)).map fun _ => d
    else declareAttributes? p element (ts.length + 1) d ts
  | "NOTATION", ts => if isNotation ts then return d else failure
  | _, _ => failure

/-- Reads the internal part of a document type up to its closing bracket. -/
def subset? (p : Place) : Nat → Bool → Declarations → List Char → Reading (Declarations × List Char)
  | 0, _, _, _ => failure
  | fuel + 1, ignoring, d, s => do
    p.check s
    p.check (skipSpaces s)
    match skipSpaces s with
    | ']' :: rest => return (d, rest)
    | '%' :: r =>
      match name? r with
      | some (_, ';' :: rest) => subset? p fuel (!d.standalone) { d with incomplete := true } rest
      | _ => failure
    | '<' :: '?' :: r => subset? p fuel ignoring d (← afterInstruction? r)
    | '<' :: '!' :: '-' :: '-' :: r => subset? p fuel ignoring d (← afterComment? r)
    | '<' :: '!' :: r =>
      let (keyword, r) ← name? r
      if !startsWithOneOf "" r then failure
      else
        let (ts, rest) ← tokens? (r.length + 1) r
        subset? p fuel ignoring (← declare? p keyword ts ignoring d) rest
    | _ => failure

/-- Reads the head of a document type: its name and where its external part is. The tokens end at the
internal part or at the closing bracket. -/
def typeHead? : Nat → List Char → Option (List Token × List Char)
  | 0, _ => none
  | fuel + 1, s =>
    match skipSpaces s with
    | '>' :: rest => some ([], '>' :: rest)
    | '[' :: rest => some ([], '[' :: rest)
    | s => do
      let (t, r) ← token? s
      let (ts, rest) ← typeHead? fuel r
      return (t :: ts, rest)

/-- Reads a document type whose opening has been read. -/
def documentType? (p : Place) (d : Declarations) (s : List Char) :
    Reading (Declarations × List Char) := do
  if !startsWithOneOf "" s then failure
  else
    let (ts, r) ← typeHead? (s.length + 1) s
    let d ← match ts with
      | [t] => (anyName? t).map fun _ => d
      | t :: ts =>
        if (anyName? t).isSome && anyId? ts == some [] then some { d with incomplete := true } else none
      | [] => none
    match r with
    | '>' :: rest => return (d, rest)
    | '[' :: r =>
      let (d, r) ← subset? p (r.length + 1) false d r
      match skipSpaces r with
      | '>' :: rest => return (d, rest)
      | _ => failure
    | _ => failure

/-- Reads comments, instructions and blanks, and at most one document type if `typed` allows it. -/
def misc? (p : Place) : Nat → Bool → Declarations → List Char → Reading (Declarations × List Char)
  | 0, _, _, _ => failure
  | fuel + 1, typed, d, s => do
    p.check s
    p.check (skipSpaces s)
    match skipSpaces s with
    | '<' :: '?' :: r => misc? p fuel typed d (← afterInstruction? r)
    | '<' :: '!' :: '-' :: '-' :: r => misc? p fuel typed d (← afterComment? r)
    | '<' :: '!' :: r =>
      if !typed then failure
      else
        let (d, rest) ← documentType? p d (← after? "DOCTYPE" r)
        misc? p fuel false d rest
    | s => return (d, s)

/-- Reads everything in front of the root. -/
def prolog? (p : Place) (s : List Char) : Reading (Declarations × List Char) := do
  let (standalone, s) ← match after? "<?xml" s with
    | some r =>
      if startsWithOneOf "?" r then do
        let (inside, rest) ← upTo? "?>" r
        some (← standalone? inside, rest)
      else some (false, s)
    | none => some (false, s)
  misc? p (s.length + 1) true { standalone } s

end Actionbook.Xml
