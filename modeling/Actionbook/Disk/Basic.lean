import Actionbook.Decimal.Notation
import Actionbook.Disk.Path
import Actionbook.Text.Quoted

/-!
# Disks

A disk is a directory with files and directories in it. Operations fail with the number and the text
that are usual for their cause. A file is put into place by writing another one next to it and giving
that its name, so that there is no moment at which the file holds anything but its old or its new
content.
-/

namespace Actionbook

/-- What a name in a directory stands for. -/
inductive Entry where
  | file (content : List UInt8)
  | directory
deriving DecidableEq, Repr

/-- The entries of a directory and of all directories in it. -/
structure Disk where
  entries : List (Path × Entry) := []
deriving Repr

/-- Why an operation on a disk fails. -/
inductive DiskError where
  | notFound
  | busy
  | present
  | notDirectory
  | isDirectory
  | longName
deriving DecidableEq, Repr

namespace DiskError

def number : DiskError → Nat
  | .notFound => 2
  | .busy => 16
  | .present => 17
  | .notDirectory => 20
  | .isDirectory => 21
  | .longName => 36

def text : DiskError → String
  | .notFound => "No such file or directory"
  | .busy => "Device or resource busy"
  | .present => "File exists"
  | .notDirectory => "Not a directory"
  | .isDirectory => "Is a directory"
  | .longName => "File name too long"

/-- The message of an error about a path. -/
def message (e : DiskError) (p : Path) : String :=
  "[Errno " ++ Decimal.integerText e.number ++ "] " ++ e.text ++ ": " ++ Text.quoted p.text

end DiskError

namespace Disk

/-! ## Entries -/

/-- What is at a place; the disk itself is a directory. -/
def at? (d : Disk) (place : Path) : Option Entry :=
  if place.isEmpty then some .directory else d.entries.lookup place

def put (d : Disk) (place : Path) (e : Entry) : Disk :=
  { entries := (d.entries.filter fun x => x.1 != place) ++ [(place, e)] }

def erase (d : Disk) (place : Path) : Disk :=
  { entries := d.entries.filter fun x => x.1 != place }

/-- The largest number of bytes in a name. -/
def longestName : Nat := 255

/-- The place that a path leads to from a place. Every place on the way has to be a directory; what is
at the end does not matter. -/
def locateFrom (d : Disk) : Path → Path → Except DiskError Path
  | place, [] => .ok place
  | place, name :: rest =>
    match d.at? place with
    | none => .error .notFound
    | some (.file _) => .error .notDirectory
    | some .directory =>
      if name = Path.above then locateFrom d place.dropLast rest
      else if name.utf8ByteSize > longestName then .error .longName
      else locateFrom d (place ++ [name]) rest

/-- The place that a path leads to. -/
def locate (d : Disk) (p : Path) : Except DiskError Path := d.locateFrom [] p

def isDirectory (d : Disk) (p : Path) : Bool :=
  match d.locate p with
  | .ok place => d.at? place == some .directory
  | .error _ => false

/-- The content of the file at a path. -/
def content (d : Disk) (p : Path) : Except DiskError (List UInt8) := do
  match d.at? (← d.locate p) with
  | none => throw .notFound
  | some .directory => throw .isDirectory
  | some (.file content) => return content

def files (d : Disk) : List Path :=
  d.entries.filterMap fun
    | (place, .file _) => some place
    | _ => none

/-! ## Changes -/

/-- A change of a disk. What it has done before it fails stays done. -/
abbrev Change := ExceptT DiskError (StateM Disk)

def look {α : Type} (f : Disk → Except DiskError α) : Change α := do
  match f (← get) with
  | .ok a => return a
  | .error e => throw e

def makeDirectory (p : Path) : Change Unit := do
  let place ← look (locate · p)
  if ((← get).at? place).isSome then throw .present
  modify fun d => d.put place .directory

/-- Makes sure that there is a directory whose path, from its end, is given, and makes the directories
on the way. -/
def makeDirectoriesUp : List String → Change Unit
  | [] => return
  | name :: up => do
    let p := (name :: up).reverse
    let unlessPresent (e : DiskError) : Change Unit := do
      if !(← get).isDirectory p then throw e
    try makeDirectory p
    catch
      | .notFound => do
        makeDirectoriesUp up
        try makeDirectory p catch e => unlessPresent e
      | e => unlessPresent e

/-- Makes sure that there is a directory at a path. -/
def makeDirectories (p : Path) : Change Unit := makeDirectoriesUp p.reverse

/-- Writes a file. -/
def store (p : Path) (content : List UInt8) : Change Unit := do
  let place ← look (locate · p)
  if (← get).at? place = some .directory then throw .isDirectory
  modify fun d => d.put place (.file content)

/-- Gives the file at a place the path of another one, which it replaces. -/
def move (source : Path) (p : Path) : Change Unit := do
  let content ← look (content · source)
  if p.isEmpty ∨ p.getLast? = some Path.above then throw .busy
  let place ← look (locate · p)
  if (← get).at? place = some .directory then throw .isDirectory
  modify fun d => (d.erase source).put place (.file content)

/-- A name that is not in use at a place, in at most `fuel` tries. -/
def freshName (d : Disk) (place : Path) : Nat → Nat → String
  | 0, n => "tmp" ++ Decimal.integerText n ++ ".tmp"
  | fuel + 1, n =>
    let name := "tmp" ++ Decimal.integerText n ++ ".tmp"
    if (d.at? (place ++ [name])).isNone then name else freshName d place fuel (n + 1)

/-- Puts a file into place: makes its directory, writes another file there and moves that. If this
fails the other file is removed. -/
def putInPlace (p : Path) (content : List UInt8) : Change Unit := do
  makeDirectories p.dropLast
  let directory ← look (locate · p.dropLast)
  let d ← get
  let temporary := directory ++ [d.freshName directory d.entries.length 0]
  store temporary content
  try move temporary p
  catch e => do
    modify fun d => d.erase temporary
    throw e

end Disk

end Actionbook
