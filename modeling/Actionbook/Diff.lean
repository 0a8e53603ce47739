import Actionbook.Signature.Basic
import Actionbook.Warning
import Actionbook.Sorting
import Actionbook.Choice

/-!
# Differences between signatures

Two collections of signatures are compared by name. A name that is only in the old one has been
deleted or renamed, one that is only in the new one has been created or is the new name of another.
Two names are a renaming if each is the only match of the other; where there are several matches
nothing is guessed, but a warning names them.
-/

namespace Actionbook

/-- When an old and a new signature count as those of one action word. -/
abbrev RenameRule := Signature → Signature → Bool

/-- The rules that a configuration can name. -/
inductive RenameMatch where
  | shapeAndBody
  | uid
deriving DecidableEq, Repr

namespace RenameMatch

def name : RenameMatch → String
  | .shapeAndBody => "shape_and_body"
  | .uid => "uid"

/-- All rules, in the order of their names. -/
def all : List RenameMatch := [.shapeAndBody, .uid]

/-- The rule itself: equal parameters and equal known bodies, or equal known identities. -/
def rule : RenameMatch → RenameRule
  | .shapeAndBody => fun old new =>
    old.shape == new.shape && old.bodyHash.isSome && old.bodyHash == new.bodyHash
  | .uid => fun old new => old.uid.isSome && old.uid == new.uid

end RenameMatch

/-- Whether an action word that keeps its name has changed: in its parameters or, if both are known, in
its body. -/
def Signature.changedTo (old new : Signature) : Bool :=
  old.shape != new.shape ||
    (old.bodyHash.isSome && new.bodyHash.isSome && old.bodyHash != new.bodyHash)

/-- What has become of an action word. -/
inductive Change where
  | deleted
  | created
  | renamed
  | signatureChanged
deriving DecidableEq, Repr

namespace Change

def name : Change → String
  | .deleted => "deleted"
  | .created => "created"
  | .renamed => "renamed"
  | .signatureChanged => "signature_changed"

/-- All changes, in the order in which they are told. -/
def all : List Change := [.deleted, .created, .renamed, .signatureChanged]

def ofData (value : Data) : Except UnknownChoice Change :=
  choose "DiffCategory" (all.map fun c => (c.name, c)) value

end Change

/-- An action word that has changed. -/
structure DiffEntry where
  change : Change
  name : String
  newName : Option String := none
  node : Option Handle := none
deriving DecidableEq, Repr

/-- The action words that have changed, by what has become of them. -/
structure Diff where
  deleted : List DiffEntry := []
  created : List DiffEntry := []
  renamed : List DiffEntry := []
  changed : List DiffEntry := []
deriving DecidableEq, Repr

namespace Diff

/-- The action words of one kind of change. -/
def group (d : Diff) : Change → List DiffEntry
  | .deleted => d.deleted
  | .created => d.created
  | .renamed => d.renamed
  | .signatureChanged => d.changed

def entries (d : Diff) : List DiffEntry := Change.all.flatMap d.group

/-- Whether nothing has changed. -/
def isEmpty (d : Diff) : Bool := d.entries.isEmpty

def ofEntries (entries : List DiffEntry) : Diff :=
  let of (c : Change) : List DiffEntry := entries.filter fun e => e.change == c
  { deleted := of .deleted, created := of .created, renamed := of .renamed,
    changed := of .signatureChanged }

end Diff

/-! ## Comparing -/

/-- The names of signatures that are not among others, in order. -/
def namesOnlyIn (these those : Signatures) : List String :=
  sortTexts ((these.map (·.1)).filter fun n => (those.lookup n).isNone)

/-- The names of signatures that are among others, in order. -/
def namesInBoth (these those : Signatures) : List String :=
  sortTexts ((these.map (·.1)).filter fun n => (those.lookup n).isSome)

/-- Whether a rule takes an old and a new name for those of one action word. -/
def matchesUnder (rule : RenameRule) (old new : Signatures) (o n : String) : Bool :=
  match old.lookup o, new.lookup n with
  | some s, some t => rule s t
  | _, _ => false

/-- The new names that an old one matches. -/
def targetsOf (rule : RenameRule) (old new : Signatures) (o : String) : List String :=
  (namesOnlyIn new old).filter fun n => matchesUnder rule old new o n

/-- The old names that a new one matches. -/
def sourcesOf (rule : RenameRule) (old new : Signatures) (n : String) : List String :=
  (namesOnlyIn old new).filter fun o => matchesUnder rule old new o n

/-- The new name of an action word, if it is clear. -/
def newNameOf? (rule : RenameRule) (old new : Signatures) (o : String) : Option String :=
  match targetsOf rule old new o with
  | [n] => if sourcesOf rule old new n = [o] then some n else none
  | _ => none

def nodeOf (new : Signatures) (n : String) : Option Handle := (new.lookup n).bind (·.node)

def diffSignatures (rule : RenameRule) (old new : Signatures) : Diff :=
  let removed := namesOnlyIn old new
  let pairs := removed.filterMap fun o => (newNameOf? rule old new o).map (o, ·)
  { deleted := (removed.filter fun o => !(pairs.map (·.1)).contains o).map fun o =>
      { change := .deleted, name := o }
    created := ((namesOnlyIn new old).filter fun n => !(pairs.map (·.2)).contains n).map fun n =>
      { change := .created, name := n, node := nodeOf new n }
    renamed := pairs.map fun (o, n) =>
      { change := .renamed, name := o, newName := some n, node := nodeOf new n }
    changed := ((namesInBoth old new).filter fun n =>
        matchesUnder Signature.changedTo old new n n).map fun n =>
      { change := .signatureChanged, name := n, node := nodeOf new n } }

def ambiguities (rule : RenameRule) (old new : Signatures) : List Warning :=
  let removed := namesOnlyIn old new
  let taken := removed.filterMap (newNameOf? rule old new)
  let targets := removed.filterMap fun o =>
    let candidates := targetsOf rule old new o
    if candidates.isEmpty || (newNameOf? rule old new o).isSome then none
    else some { concern := .ambiguousTarget o candidates }
  let sources := (namesOnlyIn new old).filterMap fun n =>
    let candidates := sourcesOf rule old new n
    if taken.contains n || candidates.length ≤ 1 then none
    else some { concern := .ambiguousSource n candidates }
  targets ++ sources

end Actionbook
