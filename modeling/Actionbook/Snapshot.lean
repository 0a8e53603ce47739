import Actionbook.Signature.Export
import Actionbook.Yaml.Layout
import Actionbook.Yaml.Reader

/-!
# Snapshots

A snapshot is a text that holds signatures, in the order of their names, one line for every fact, so
that two snapshots can be compared line by line. Whatever the format is, a text that would not be read
back as what it was written from is refused.
-/

namespace Actionbook

/-! ## Reading -/

/-- Why a text is no snapshot. -/
inductive SnapshotError where
  /-- The text is no data document. -/
  | unreadable (e : Yaml.Error)
  /-- The document is no list. -/
  | noList (value : Data)
  /-- An entry is no signature. -/
  | entry (position : Nat) (e : SignatureError)
  /-- An entry has the name of an earlier one. -/
  | duplicate (position : Nat) (name : String)

/-- The report of an error. Errors about single values of a document have none. -/
def SnapshotError.diagnostic? : SnapshotError → Option Diagnostic
  | .unreadable .malformed => some { code := "SNAPSHOT_CORRUPT" }
  | .unreadable _ => none
  | .noList v => some {
      code := "SNAPSHOT_CORRUPT"
      context := [("reason", .text ("expected a list of signatures, got " ++ v.kindName))] }
  | .entry position e => some {
      code := "SNAPSHOT_CORRUPT"
      context := [("entry", .integer position), ("reason", .text e.message)] }
  | .duplicate position name => some {
      code := "SNAPSHOT_CORRUPT"
      context := [("entry", .integer position),
        ("reason", .text ("duplicate action word " ++ Text.quoted name))] }

namespace Snapshot

/-- The signatures of entries that are left, after those known so far. -/
def readEntries : Nat → Signatures → List Data → Except SnapshotError Signatures
  | _, known, [] => .ok known
  | position, known, v :: l =>
    match Signature.ofData v with
    | .error e => .error (.entry position e)
    | .ok s =>
      if (known.lookup s.name).isSome then .error (.duplicate position s.name)
      else readEntries (position + 1) (known ++ [(s.name, s)]) l

/-- The signatures that a document holds; none if it is empty. -/
def ofData : Data → Except SnapshotError Signatures
  | .null => .ok []
  | .list l => readEntries 0 [] l
  | v => .error (.noList v)

/-- A format of documents: how outlines are written, and what is read from a text. -/
structure Format where
  write : List Outline → String
  read : String → Except Yaml.Error Data

def Format.load (f : Format) (text : String) : Except SnapshotError Signatures :=
  match f.read text with
  | .error e => .error (.unreadable e)
  | .ok v => ofData v

/-! ## Writing -/

/-- What is written of signatures: one outline for each, in the order of their names. -/
def outlines (signatures : Signatures) : List Outline := signatures.sorted.map (·.2.outline)

/-- Why signatures have no snapshot. -/
inductive WriteError where
  /-- What would be written is no snapshot. -/
  | unreadable (e : SnapshotError)
  /-- The signatures with these names would be read back as others. -/
  | different (names : List String)

def WriteError.diagnostic? : WriteError → Option Diagnostic
  | .unreadable e => e.diagnostic?.map fun d =>
      { code := "SNAPSHOT_ROUND_TRIP", context := [("reason", .text d.message)] }
  | .different names =>
    some { code := "SNAPSHOT_ROUND_TRIP", context := [("names", .list (names.map .text))] }

/-- Whether two collections of signatures have the same one, or none, for a name. -/
def agreeOn (these those : Signatures) (name : String) : Bool :=
  match these.lookup name, those.lookup name with
  | some s, some t => s.sameAs t
  | none, none => true
  | _, _ => false

/-- The names for which two collections of signatures differ. -/
def differences (these those : Signatures) : List String :=
  sortTexts ((distinct ((these ++ those).map (·.1))).filter fun n => !agreeOn these those n)

/-- The text that holds signatures, if it is read back as these. -/
def Format.dump (f : Format) (signatures : Signatures) : Except WriteError String :=
  let text := f.write (outlines signatures)
  match f.load text with
  | .error e => .error (.unreadable e)
  | .ok found =>
    let names := differences found signatures
    if names.isEmpty then .ok text else .error (.different names)

/-! ## The format in use -/

def format : Format where
  write := Yaml.write
  read := Yaml.read

def read (text : String) : Except SnapshotError Signatures := format.load text

def dump (signatures : Signatures) : Except WriteError String := format.dump signatures

end Snapshot

end Actionbook
