import Actionbook.Data.Basic

/-!
# Members of data

Collections are used by their members, whatever kind they are: a text may be looked for among the keys
of a mapping, the members of a set, the items of a list and the parts of a text, and a list of pairs
will do for a mapping.
-/

namespace Actionbook.Data

/-- Whether a text is a part of another one. -/
def isPart (part : List Char) : List Char → Bool
  | [] => part.isEmpty
  | c :: r => part.isPrefixOf (c :: r) || isPart part r

/-- Whether a value is the given text. -/
def isText (name : String) : Data → Bool
  | .text s => s == name
  | _ => false

/-- Whether a text is among the members of a value; `none` if no text can be. -/
def holds? (name : String) : Data → Option Bool
  | .text s => some (isPart name.toList s.toList)
  | .list l => some (l.any (isText name))
  | .pair a b => some (isText name a || isText name b)
  | .set l => some (l.any (isText name))
  | .mapping e => some (e.any fun e => isText name e.1)
  | _ => none

/-- The members of a value one by one: characters, bytes, items or keys. -/
def members? : Data → Option (List Data)
  | .text s => some (s.toList.map fun c => .text (String.singleton c))
  | .bytes b => some (b.map fun x => .integer x.toNat)
  | .list l => some l
  | .pair a b => some [a, b]
  | .set l => some l
  | .mapping e => some (e.map (·.1))
  | _ => none

/-- Why a value will not do for a mapping. -/
inductive EntryError where
  /-- It has no members, or one of them has none, or a first one is no key. -/
  | unsuitable
  /-- A member has not two members. -/
  | length (position length : Nat)
deriving DecidableEq, Repr

/-- The message of an error; values that will not do at all have none. -/
def EntryError.message? : EntryError → Option String
  | .unsuitable => none
  | .length position n =>
    some ("dictionary update sequence element #" ++ Decimal.integerText position ++ " has length " ++
      Decimal.integerText n ++ "; 2 is required")

/-- The entries that pairs make, after those known so far. -/
def pairEntries : Nat → List (Data × Data) → List Data → Except EntryError (List (Data × Data))
  | _, known, [] => .ok known
  | position, known, v :: l =>
    match v.members? with
    | none => .error .unsuitable
    | some [key, value] =>
      if key.key?.isNone then .error .unsuitable
      else pairEntries (position + 1) (put known key value) l
    | some m => .error (.length position m.length)

/-- The entries of a mapping, or of a value that will do for one. -/
def asEntries : Data → Except EntryError (List (Data × Data))
  | .mapping e => .ok e
  | v =>
    match v.members? with
    | some l => pairEntries 0 [] l
    | none => .error .unsuitable

end Actionbook.Data
