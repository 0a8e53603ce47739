import Actionbook.Yaml.Tag
import Actionbook.Yaml.Token

/-!
# Building nodes

The tokens of a text form at most one document. Nodes may be given a tag and an anchor; a scalar
without text stands wherever a node is left out.
-/

namespace Actionbook.Yaml

/-- How far the tokens have been used, and what has been declared. -/
structure Builder where
  tokens : List Token
  /-- The anchored nodes, as far as they are complete. -/
  anchors : List (String × Option Node) := []
  /-- What the handles of tags stand for. -/
  handles : List (String × String) := []

/-- A step of building. -/
abbrev Build := StateT Builder (Except Error)

namespace Build

/-- Stops because the text does not follow the format. -/
def fail {α : Type} : Build α := throw .malformed

def peek : Build Token := do
  match (← get).tokens with
  | .failure e :: _ => throw e
  | t :: _ => return t
  | [] => return .finish

/-- Takes the next token. -/
def advance : Build Unit := modify fun s => { s with tokens := s.tokens.drop 1 }

/-- The anchor and the tag in front of a node, in either order. -/
def properties : Build (Option String × Option WrittenTag) := do
  match ← peek with
  | .anchor name =>
    advance
    match ← peek with
    | .tag t => advance; return (some name, some t)
    | _ => return (some name, none)
  | .tag t =>
    advance
    match ← peek with
    | .anchor name => advance; return (some name, some t)
    | _ => return (none, some t)
  | _ => return (none, none)

/-- The tag that a written one stands for. -/
def fullTag (t : WrittenTag) : Build String := do
  match t.handle with
  | none => return t.suffix
  | some h =>
    match (← get).handles.lookup h with
    | some value => return value ++ t.suffix
    | none => fail

def collectionTag (name : String) (tag : Option String) : String :=
  match tag with
  | some t => if t = "!" then standardTag name else t
  | none => standardTag name

def scalarTag (text : String) (plain : Bool) (tag : Option String) : String :=
  match tag with
  | some t => if t = "!" then standardTag (scalarKind text).name else t
  | none => standardTag (if plain then (scalarKind text).name else ScalarKind.text.name)

def aliased (name : String) : Build Node := do
  match (← get).anchors.lookup name with
  | some (some n) => return n
  | some none => return .enclosing name
  | none => fail

/-- Takes note of an anchor whose node is not complete; it must be a new one. -/
def openAnchor (anchor : Option String) : Build Unit := do
  match anchor with
  | none => return
  | some name =>
    if ((← get).anchors.lookup name).isSome then fail
    else modify fun s => { s with anchors := (name, none) :: s.anchors }

/-- Takes note of the node of an anchor. -/
def closeAnchor (anchor : Option String) (n : Node) : Build Node := do
  match anchor with
  | none => return n
  | some name =>
    let n := if n.mentions name then .anchored name n else n
    modify fun s => { s with anchors := s.anchors.map fun a => if a.1 = name then (name, some n) else a }
    return n

mutual

/-- Builds a node. In block context collections may be written by indentation, and as the value of a
mapping a sequence need not be indented. -/
def node (fuel : Nat) (block indentless : Bool) : Build Node := do
  match fuel with
  | 0 => fail
  | fuel + 1 =>
    match ← peek with
    | .alias name => advance; aliased name
    | _ =>
      let (anchor, tag) ← properties
      let tag ← tag.mapM fullTag
      openAnchor anchor
      let n ← content fuel block indentless tag (anchor.isSome || tag.isSome)
      closeAnchor anchor n

/-- Builds what stands behind the anchor and the tag of a node; if it has one, nothing need stand
there. -/
def content (fuel : Nat) (block indentless : Bool) (tag : Option String) (optional : Bool) :
    Build Node := do
  match fuel with
  | 0 => fail
  | fuel + 1 =>
    match ← peek, block, indentless with
    | .blockEntry, _, true => .sequence (collectionTag "seq" tag) <$> indentlessItems fuel
    | .scalar text plain, _, _ => advance; return .scalar (scalarTag text plain tag) text
    | .flowSequenceStart, _, _ => advance; .sequence (collectionTag "seq" tag) <$> flowItems fuel true
    | .flowMappingStart, _, _ => advance; .mapping (collectionTag "map" tag) <$> flowEntries fuel true
    | .blockSequenceStart, true, _ => advance; .sequence (collectionTag "seq" tag) <$> blockItems fuel
    | .blockMappingStart, true, _ => advance; .mapping (collectionTag "map" tag) <$> blockEntries fuel
    | _, _, _ => if optional then return .scalar (scalarTag "" true tag) "" else fail

/-- Builds a node, or the empty one in front of some tokens. -/
def nodeUnless (fuel : Nat) (block indentless : Bool) (ends : Token → Bool) : Build Node := do
  match fuel with
  | 0 => fail
  | fuel + 1 => if ends (← peek) then return Node.empty else node fuel block indentless

/-- Builds the value behind a key, if there is one. -/
def valueUnless (fuel : Nat) (block : Bool) (ends : Token → Bool) : Build Node := do
  match fuel with
  | 0 => fail
  | fuel + 1 =>
    if (← peek) = .value then
      advance
      nodeUnless fuel block block ends
    else return Node.empty

def blockItems (fuel : Nat) : Build (List Node) := do
  match fuel with
  | 0 => fail
  | fuel + 1 =>
    match ← peek with
    | .blockEntry =>
      advance
      let n ← nodeUnless fuel true false fun t => t = .blockEntry ∨ t = .blockEnd
      return n :: (← blockItems fuel)
    | .blockEnd => advance; return []
    | _ => fail

/-- Builds the items of a sequence that is not indented. -/
def indentlessItems (fuel : Nat) : Build (List Node) := do
  match fuel with
  | 0 => fail
  | fuel + 1 =>
    match ← peek with
    | .blockEntry =>
      advance
      let n ← nodeUnless fuel true false fun t =>
        t = .blockEntry ∨ t = .key ∨ t = .value ∨ t = .blockEnd
      return n :: (← indentlessItems fuel)
    | _ => return []

def blockEntries (fuel : Nat) : Build (List (Node × Node)) := do
  match fuel with
  | 0 => fail
  | fuel + 1 =>
    let ends (t : Token) : Bool := t = .key ∨ t = .value ∨ t = .blockEnd
    match ← peek with
    | .key =>
      advance
      let k ← nodeUnless fuel true true ends
      let v ← valueUnless fuel true ends
      return (k, v) :: (← blockEntries fuel)
    | .blockEnd => advance; return []
    | _ => fail

/-- Builds the items of a flow sequence. An item with a key is a mapping of one entry. -/
def flowItems (fuel : Nat) (first : Bool) : Build (List Node) := do
  match fuel with
  | 0 => fail
  | fuel + 1 =>
    if (← peek) = .flowSequenceEnd then
      advance
      return []
    else
      if !first then
        if (← peek) = .flowEntry then advance else fail
      match ← peek with
      | .key =>
        advance
        let ends (t : Token) : Bool := t = .flowEntry ∨ t = .flowSequenceEnd
        let k ← nodeUnless fuel false false fun t => t = .value ∨ ends t
        let v ← valueUnless fuel false ends
        return .mapping (standardTag "map") [(k, v)] :: (← flowItems fuel false)
      | .flowSequenceEnd => advance; return []
      | _ =>
        let n ← node fuel false false
        return n :: (← flowItems fuel false)

/-- Builds the entries of a flow mapping. A node without a colon is a key without value. -/
def flowEntries (fuel : Nat) (first : Bool) : Build (List (Node × Node)) := do
  match fuel with
  | 0 => fail
  | fuel + 1 =>
    if (← peek) = .flowMappingEnd then
      advance
      return []
    else
      if !first then
        if (← peek) = .flowEntry then advance else fail
      match ← peek with
      | .key =>
        advance
        let ends (t : Token) : Bool := t = .flowEntry ∨ t = .flowMappingEnd
        let k ← nodeUnless fuel false false fun t => t = .value ∨ ends t
        let v ← valueUnless fuel false ends
        return (k, v) :: (← flowEntries fuel false)
      | .flowMappingEnd => advance; return []
      | _ =>
        let k ← node fuel false false
        return (k, Node.empty) :: (← flowEntries fuel false)

end

/-- What the handles stand for that every document has. -/
def defaultHandles : List (String × String) := [("!", "!"), ("!!", standardTag "")]

/-- Takes note of the directives of a document. -/
def directives : Nat → Bool → List (String × String) → Build (List (String × String))
  | 0, _, _ => fail
  | fuel + 1, versioned, handles => do
    match ← peek with
    | .versionDirective major _ =>
      if versioned ∨ major ≠ 1 then fail
      advance
      directives fuel true handles
    | .tagDirective h value =>
      if (handles.lookup h).isSome then fail
      advance
      directives fuel versioned ((h, value) :: handles)
    | .otherDirective => advance; directives fuel versioned handles
    | _ => return handles

/-- Takes the markers of the end of documents. -/
def skipEnds : Nat → Build Unit
  | 0 => fail
  | fuel + 1 => do
    if (← peek) = .documentEnd then
      advance
      skipEnds fuel

/-- Whether a token cannot start the content of a document. -/
def endsDocument : Token → Bool
  | .versionDirective _ _ => true
  | .tagDirective _ _ => true
  | .otherDirective => true
  | .documentStart => true
  | .documentEnd => true
  | .finish => true
  | _ => false

/-- Builds the only document, if there is one. -/
def document (fuel : Nat) : Build (Option Node) := do
  let t ← peek
  if endsDocument t && t != .documentEnd then
    if t = .finish then return none
    let handles ← directives fuel false []
    modify fun s => { s with handles := handles ++ defaultHandles }
    if (← peek) ≠ .documentStart then fail
    advance
    let n ← nodeUnless fuel true false endsDocument
    skipEnds fuel
    if (← peek) = .finish then return some n else fail
  else
    modify fun s => { s with handles := defaultHandles }
    let n ← node fuel true false
    skipEnds fuel
    if (← peek) = .finish then return some n else fail

end Build

/-- The node of the only document that tokens form, if there is one. -/
def Node.ofTokens? (tokens : List Token) : Except Error (Option Node) := do
  let (n, s) ← (Build.document (4 * tokens.length + 8)).run { tokens }
  let complete := s.anchors.filterMap fun (name, n) => n.map (name, ·)
  return n.map (Node.unrolled 5 (complete.map fun (name, n) => (name, n.unrolled 5 [])))

end Actionbook.Yaml
