import Actionbook.Yaml.Base64
import Actionbook.Yaml.Node.Builder
import Actionbook.Yaml.Number
import Actionbook.Yaml.Token.Lexer

/-!
# Reading data documents

A node denotes the value that its tag says. Of several errors the first one counts, where collections
are gone through level by level: a scalar is looked at with the collection that it is in, and the
collections in a collection after it.
-/

namespace Actionbook.Yaml

/-! ## Scalars -/

def numberOf (digits : List Char) : Nat := digits.foldl (fun n d => 10 * n + (d.toNat - 48)) 0

/-- The microseconds of a fraction of a second; further digits do not count. -/
def microseconds (fraction : List Char) : Nat :=
  let digits := fraction.take 6
  numberOf (digits ++ List.replicate (6 - digits.length) '0')

/-- The distance from universal time in seconds. -/
def zoneOffset (zone : Option (Char × List Char × List Char)) : Int :=
  match zone with
  | none => 0
  | some (sign, hours, minutes) =>
    let seconds : Int := 3600 * numberOf hours + 60 * numberOf minutes
    if sign = '-' then -seconds else seconds

/-- The date or the moment that a scalar denotes. -/
def timestampOf (text : String) : Except Error Data :=
  match writtenMoment? (dropFinalBreak text.toList) with
  | none => .error .noMoment
  | some w =>
    let (y, m, d) := (numberOf w.year, numberOf w.month, numberOf w.day)
    let made : Except CalendarError Data := match w.time with
      | none => Data.date <$> Date.make y m d
      | some (hour, minute, second) =>
        Data.moment <$> Moment.make y m d (numberOf hour) (numberOf minute) (numberOf second)
          (microseconds w.fraction) (w.zone.map zoneOffset)
    match made with
    | .ok v => .ok v
    | .error e => .error (.calendar e)

/-- The truth value that a scalar denotes. -/
def truthOf (text : String) : Except Error Data :=
  let word := Text.lowercase text
  if ["yes", "true", "on"].contains word then .ok (.boolean true)
  else if ["no", "false", "off"].contains word then .ok (.boolean false)
  else .error .noTruth

/-- The bytes that a scalar denotes. -/
def bytesOf (text : String) : Except Error Data :=
  let s := text.toList
  if s.all fun c => c.toNat < 128 then
    match Base64.decode? s with
    | some b => .ok (.bytes b)
    | none => .error .malformed
  else .error .malformed

def scalarNames : List String := ["null", "bool", "int", "float", "binary", "timestamp", "str"]

def collectionNames : List String := ["seq", "map", "set", "omap", "pairs"]

/-- The name of a tag of the format. -/
def tagName? (names : List String) (tag : String) : Option String :=
  names.find? fun n => standardTag n = tag

/-- The value of a scalar with a tag of the given name. -/
def scalarData (name text : String) : Except Error Data :=
  match name with
  | "null" => .ok .null
  | "bool" => truthOf text
  | "int" => Data.integer <$> integerOf text
  | "float" => Data.float <$> floatOf text
  | "binary" => bytesOf text
  | "timestamp" => timestampOf text
  | _ => .ok (.text text)

/-! ## Mappings -/

def Node.retagged (tag : String) : Node → Node
  | .scalar _ text => .scalar tag text
  | .sequence _ items => .sequence tag items
  | .mapping _ entries => .mapping tag entries
  | n => n

/-- A key of a mapping that denotes a mapping: the sign for the value of the whole is a text there. -/
def asKey (k : Node) : Node :=
  if k.tag == standardTag ScalarKind.value.name then k.retagged (standardTag "str") else k

/-- Whether a key takes over the entries of other mappings. -/
def isMerge (k : Node) : Bool := k.tag == standardTag ScalarKind.merge.name

mutual

/-- The entries of a mapping: first those that are taken over, then its own. -/
def flatten : List (Node × Node) → Except Error (List (Node × Node) × List (Node × Node))
  | [] => .ok ([], [])
  | (k, v) :: l => do
    if isMerge k then
      let here ← takenOver v
      let (others, own) ← flatten l
      return (here ++ others, own)
    else
      let (others, own) ← flatten l
      return (others, (asKey k, v) :: own)

/-- The entries that a mapping, or a list of mappings, gives to another one. -/
def takenOver : Node → Except Error (List (Node × Node))
  | .mapping _ entries => do
    let (others, own) ← flatten entries
    return others ++ own
  | .sequence _ items => takenOverAll items
  | _ => .error .malformed

/-- The entries that mappings give to another one: those of the last mapping first. -/
def takenOverAll : List Node → Except Error (List (Node × Node))
  | [] => .ok []
  | .mapping _ entries :: l => do
    let (others, own) ← flatten entries
    return (← takenOverAll l) ++ others ++ own
  | _ :: _ => .error .malformed

end

def allEntries (entries : List (Node × Node)) : Except Error (List (Node × Node)) := do
  let (others, own) ← flatten entries
  return others ++ own

/-! ## Values -/

mutual

/-- The text of a scalar, or of the value that a mapping gives for itself. -/
def textOf? : Node → Option String
  | .scalar _ text => some text
  | .mapping _ entries => textAmong? entries
  | _ => none

/-- The text of the value that entries give for the whole mapping. -/
def textAmong? : List (Node × Node) → Option String
  | [] => none
  | (k, v) :: l => if k.tag == standardTag ScalarKind.value.name then textOf? v else textAmong? l

end

/-- The value of a node that is looked at with the collection it is in; `none` for a collection. -/
def atOnce (n : Node) : Except Error (Option Data) :=
  match tagName? collectionNames n.tag, tagName? scalarNames n.tag, textOf? n with
  | some _, _, _ => .ok none
  | none, some name, some text =>
    match n with
    | .scalar _ _ => some <$> scalarData name text
    | _ => if name = "timestamp" then .error .momentMapping else some <$> scalarData name text
  | _, _, _ => .error .malformed

/-- The collections among some nodes, which are all looked at. -/
def laterNodes (nodes : List Node) : Except Error (List Node) := do
  let later ← nodes.mapM fun n => do return if (← atOnce n).isNone then some n else none
  return later.filterMap id

/-- The key and the value of an item that is a mapping of one entry. -/
def onlyEntry : Node → Except Error (List Node)
  | .mapping _ [(k, v)] => .ok [k, v]
  | _ => .error .malformed

/-- The collections in a collection, all of whose scalars are looked at. -/
def innerCollections (n : Node) : Except Error (List Node) := do
  match tagName? collectionNames n.tag, n with
  | some "seq", .sequence _ items => laterNodes items
  | some "map", .mapping _ entries => keyed (← allEntries entries)
  | some "set", .mapping _ entries => keyed (← allEntries entries)
  | some "omap", .sequence _ items => paired items
  | some "pairs", .sequence _ items => paired items
  | _, _ => throw .malformed
where
  keyed (entries : List (Node × Node)) : Except Error (List Node) := do
    let later ← entries.mapM fun (k, v) => do
      if (← atOnce k).isNone then throw .malformed
      laterNodes [v]
    return later.flatten
  paired (items : List Node) : Except Error (List Node) := do
    let later ← items.mapM fun n => do laterNodes (← onlyEntry n)
    return later.flatten

/-- Looks at all collections of a queue and at those in them. -/
def lookThrough : Nat → List Node → Except Error Unit
  | 0, _ => .ok ()
  | _ + 1, [] => .ok ()
  | fuel + 1, n :: queue => do lookThrough fuel (queue ++ (← innerCollections n))

/-- The entries of a mapping with the given keys and values: of several equal keys the last value
counts, in the place of the first. -/
def mappingOf (entries : List (Data × Data)) : List (Data × Data) :=
  entries.foldl (fun known (k, v) => Data.put known k v) []

/-- The value of a node in which no error has been found. -/
def toData : Nat → Node → Data
  | 0, _ => .null
  | fuel + 1, n =>
    let entriesOf (entries : List (Node × Node)) : List (Data × Data) :=
      match allEntries entries with
      | .ok l => mappingOf (l.map fun (k, v) => (toData fuel k, toData fuel v))
      | .error _ => []
    match tagName? collectionNames n.tag, n with
    | some "seq", .sequence _ items => .list (items.map (toData fuel))
    | some "map", .mapping _ entries => .mapping (entriesOf entries)
    | some "set", .mapping _ entries => .set ((entriesOf entries).map (·.1))
    | some _, .sequence _ items => .list (items.map fun
        | .mapping _ [(k, v)] => .pair (toData fuel k) (toData fuel v)
        | _ => .null)
    | _, n =>
      match atOnce n with
      | .ok (some v) => v
      | _ => .null

/-- The value of a document. -/
def Node.data (n : Node) : Except Error Data := do
  match ← atOnce n with
  | some v => return v
  | none =>
    lookThrough (n.count + 1) [n]
    return toData (n.count + 1) n

/-- Whether a character may occur in a document. -/
def isDocumentChar (c : Char) : Bool :=
  let n := c.toNat
  n == 9 || n == 10 || n == 13 || (0x20 ≤ n && n ≤ 0x7E) || n == 0x85 ||
    (0xA0 ≤ n && n ≤ 0xFFFD) || n ≥ 0x10000

/-- The value that a text denotes; null if there is no document in it. -/
def read (text : String) : Except Error Data := do
  if !text.toList.all isDocumentChar then throw .malformed
  match ← Node.ofTokens? (tokens text) with
  | none => return .null
  | some n => n.data

end Actionbook.Yaml
