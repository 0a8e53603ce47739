import Actionbook.Yaml.Error

/-!
# Tokens of data documents

Indentation shows as tokens too: a block collection starts where its first entry stands and ends
before the next token that is indented less.
-/

namespace Actionbook.Yaml

/-- A tag as it is written: its handle, if it has one, and the rest. -/
structure WrittenTag where
  handle : Option String
  suffix : String
deriving DecidableEq, Repr

inductive Token where
  | versionDirective (major minor : Nat)
  | tagDirective (handle value : String)
  | otherDirective
  | documentStart
  | documentEnd
  | blockSequenceStart
  | blockMappingStart
  | blockEnd
  | flowSequenceStart
  | flowSequenceEnd
  | flowMappingStart
  | flowMappingEnd
  | flowEntry
  | blockEntry
  | key
  | value
  | alias (name : String)
  | anchor (name : String)
  | tag (t : WrittenTag)
  | scalar (text : String) (plain : Bool)
  /-- The end of the text. -/
  | finish
  /-- A place from which on no tokens can be read. -/
  | failure (e : Error)
deriving DecidableEq, Repr

end Actionbook.Yaml
