import Actionbook.Disk.Basic
import Actionbook.Snapshot
import Actionbook.Text.Breaks
import Actionbook.Text.Utf8

/-!
# Snapshot files

Snapshots are kept in files. A snapshot is checked before anything is written, and put into place as a
whole.
-/

namespace Actionbook

/-- Why a file gives no signatures. -/
inductive SnapshotFileError where
  | missing (p : Path)
  | disk (p : Path) (e : DiskError)
  | encoding (p : Path) (e : Text.Utf8Error)
  | content (e : SnapshotError)

/-- The report of an error, unless it is one about a single value. -/
def SnapshotFileError.diagnostic? : SnapshotFileError → Option Diagnostic
  | .missing p => some { code := "SNAPSHOT_MISSING", context := [("path", .text p.text)] }
  | .disk p e => corrupt p (e.message p)
  | .encoding p e => corrupt p e.message
  | .content e => e.diagnostic?
where
  corrupt (p : Path) (reason : String) : Option Diagnostic :=
    some { code := "SNAPSHOT_CORRUPT", context := [("path", .text p.text), ("reason", .text reason)] }

/-- Why signatures are not written to a file. -/
inductive SnapshotWriteError where
  | content (e : Snapshot.WriteError)
  | disk (e : DiskError)

namespace Snapshot

/-- The name of the file in which a project's snapshot is kept. -/
def fileName : String := "actionwords_signature.yaml"

def load (d : Disk) (p : Path) (f : Format := format) : Except SnapshotFileError Signatures :=
  match d.content p with
  | .error .notFound => .error (.missing p)
  | .error e => .error (.disk p e)
  | .ok bytes =>
    match Text.decode bytes with
    | .error e => .error (.encoding p e)
    | .ok s =>
      match f.load (String.ofList (Text.unifyBreaks s.toList)) with
      | .error e => .error (.content e)
      | .ok found => .ok found

def save (p : Path) (s : Signatures) (f : Format := format) :
    ExceptT SnapshotWriteError (StateM Disk) Path := do
  match f.dump s with
  | .error e => throw (.content e)
  | .ok text =>
    match (← (Disk.putInPlace p (Text.encode text)).run) with
    | .error e => throw (.disk e)
    | .ok () => return p

end Snapshot

end Actionbook
