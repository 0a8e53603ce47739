import Actionbook.Config.Error
import Actionbook.Form.Basic
import Actionbook.Graph.Fault
import Actionbook.Naming

/-!
# Output groups

An output group says which files are made for a language: either one file for the whole project, or
one for each scenario or action word, whose name is put into a form. Settings are used as they are
written; only what a path is made of has to be a text.
-/

namespace Actionbook

/-- What files are for. -/
inductive Category where
  | tests
  | stubs
deriving DecidableEq, Repr

namespace Category

def name : Category → String
  | .tests => "test_code"
  | .stubs => "actionwords_stubs"

def ofData (value : Data) : Except UnknownChoice Category :=
  choose "OutputCategory" ([Category.tests, .stubs].map fun c => (c.name, c)) value

end Category

/-- How the files of a group are named. -/
inductive FileNaming where
  /-- One file for the whole project. -/
  | whole (filename : Data)
  /-- A file for each node. -/
  | each (form : Data)

namespace FileNaming

/-- The place for the name in a form. -/
def placeholder : String := "\x7bname\x7d"

/-- The naming with a file name or a form, of which exactly one has to be given. -/
def make (language : Data) (category : Category) (filename form : Data) :
    Except ConfigError FileNaming :=
  match filename, form with
  | .null, .null => .error (.fileNames language category.name)
  | filename, .null => .ok (.whole filename)
  | .null, form =>
    match form.holds? placeholder with
    | none => .error .unsuitable
    | some false => .error (.nameless language form)
    | some true => .ok (.each form)
  | _, _ => .error (.fileNames language category.name)

def filename : FileNaming → Data
  | .whole v => v
  | .each _ => .null

def form : FileNaming → Data
  | .whole _ => .null
  | .each v => v

/-- Whether there is a file for each node. -/
def isPerNode : FileNaming → Bool
  | .whole _ => false
  | .each _ => true

end FileNaming

/-- A group of output files. -/
structure OutputGroup where
  category : Category
  language : Data
  files : FileNaming
  naming : Naming := .snake
  directory : Data := .text ""
  settings : List (Data × Data) := []

/-- Why an output cannot be described. -/
inductive OutputError where
  /-- The node is not there or has no name. -/
  | fault (e : Fault)
  /-- The name does not fit into the form. -/
  | form (e : FormError)
  /-- The form is no text. -/
  | noForm
  /-- The parts of a path are no texts. -/
  | noPath
  /-- Language and path do not identify a file. -/
  | noIdentity

/-- A path in a directory. An absolute path stays as it is, and one slash stands behind the directory
unless it has one. -/
def joinPath (directory path : String) : String :=
  if path.startsWith "/" then path
  else if directory.isEmpty || directory.endsWith "/" then directory ++ path
  else directory ++ "/" ++ path

def joinBytes (directory path : List UInt8) : List UInt8 :=
  if path.head? = some 47 then path
  else if directory.isEmpty || directory.getLast? = some 47 then directory ++ path
  else directory ++ 47 :: path

/-- A path in a directory; texts and bytes do not go together. -/
def joinData : Data → Data → Except OutputError Data
  | .text directory, .text path => .ok (.text (joinPath directory path))
  | .bytes directory, .bytes path => .ok (.bytes (joinBytes directory path))
  | _, _ => .error .noPath

namespace OutputGroup

/-- The name of the file for a name. -/
def filenameFor (g : OutputGroup) (name : String) (host : Form.Host := {}) : Except OutputError Data :=
  match g.files with
  | .whole filename => .ok (if filename.isGiven then filename else .text "")
  | .each (.text form) =>
    match Form.fill form name host with
    | .ok s => .ok (.text s)
    | .error e => .error (.form e)
  | .each _ => .error .noForm

/-- The path of the file for a name. -/
def pathFor (g : OutputGroup) (name : String) (host : Form.Host := {}) : Except OutputError Data := do
  let filename ← g.filenameFor name host
  if g.directory.isGiven then joinData g.directory filename else return filename

end OutputGroup

end Actionbook
