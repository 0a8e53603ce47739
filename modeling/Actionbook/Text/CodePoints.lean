import Std.Data.HashMap

/-!
# Sets of code points and maps on characters

Properties of characters are tables of a standard. A table is kept as text: blank-separated entries
of hexadecimal numbers, each code point given by its distance from the one before. This module reads
such texts into a searchable set (`CodePoints`) or map (`CharMap`).
-/

namespace Actionbook.Text

/-- The value of a lower-case hexadecimal digit; any other character counts as zero. -/
def hexDigit (c : Char) : Nat :=
  if '0' ≤ c ∧ c ≤ '9' then c.toNat - 48 else if 'a' ≤ c ∧ c ≤ 'f' then c.toNat - 87 else 0

/-- The number that hexadecimal digits denote. -/
def hexValue (digits : List Char) : Nat :=
  digits.foldl (fun n c => 16 * n + hexDigit c) 0

/-- The pieces of a text between the occurrences of a separator. -/
def pieces (sep : Char) : List Char → List (List Char)
  | [] => [[]]
  | c :: r =>
    if c = sep then [] :: pieces sep r
    else
      match pieces sep r with
      | [] => [[c]]
      | p :: ps => (c :: p) :: ps

/-- The entries of a table: blank-separated groups of hexadecimal numbers joined by `sep`. -/
def tableEntries (sep : Char) (lines : List String) : List (List Nat) :=
  lines.flatMap fun line =>
    ((pieces ' ' line.toList).filter (!·.isEmpty)).map fun e => (pieces sep e).map hexValue

/-- A set of code points, as closed ranges that ascend and do not touch. -/
structure CodePoints where
  ranges : Array (Nat × Nat)

namespace CodePoints

/-- Reads a table whose entries are the gap in front of a range and, after `+`, how far the range
extends beyond its first member. -/
def ofLines (lines : List String) : CodePoints :=
  let step (acc : Array (Nat × Nat) × Nat) (entry : List Nat) : Array (Nat × Nat) × Nat :=
    let first := acc.2 + entry.headD 0
    let last := first + entry.getD 1 0
    (acc.1.push (first, last), last + 1)
  ⟨((tableEntries '+' lines).foldl step (#[], 0)).1⟩

/-- Binary search for a range that holds `n` among those with index from `lo` up to `hi`. -/
def searchFrom (ranges : Array (Nat × Nat)) (n lo hi : Nat) : Bool :=
  if lo < hi then
    let mid := (lo + hi) / 2
    match ranges[mid]? with
    | none => false
    | some (first, last) =>
      if n < first then searchFrom ranges n lo mid
      else if last < n then searchFrom ranges n (mid + 1) hi
      else true
  else false
termination_by hi - lo

def contains (s : CodePoints) (c : Char) : Bool :=
  searchFrom s.ranges c.toNat 0 s.ranges.size

end CodePoints

/-- A map that sends some characters to a text and leaves the others alone. -/
structure CharMap where
  targets : Std.HashMap Nat (List Char)

namespace CharMap

/-- Enters runs of characters. A run is the distance of its first member from the previous run's,
its length, the step between members, and the target of the first member; with `moving` the targets
advance by the same step, else they are all the same. -/
def addRuns (m : CharMap) (moving : Bool) (lines : List String) : CharMap :=
  let step (acc : CharMap × Nat) (entry : List Nat) : CharMap × Nat :=
    let first := acc.2 + entry.headD 0
    let stride := entry.getD 2 0
    let target := entry.getD 3 0
    let add (t : Std.HashMap Nat (List Char)) (i : Nat) : Std.HashMap Nat (List Char) :=
      t.insert (first + stride * i) [Char.ofNat (if moving then target + stride * i else target)]
    (⟨(List.range (entry.getD 1 0)).foldl add acc.1.targets⟩, first)
  ((tableEntries '.' lines).foldl step (m, 0)).1

/-- Enters single characters, each as its distance from the previous one and its target's
characters. -/
def addSingles (m : CharMap) (lines : List String) : CharMap :=
  let step (acc : CharMap × Nat) (entry : List Nat) : CharMap × Nat :=
    let code := acc.2 + entry.headD 0
    (⟨acc.1.targets.insert code (entry.tail.map Char.ofNat)⟩, code)
  ((tableEntries '.' lines).foldl step (m, 0)).1

/-- The target of a character, which is the character itself where the map has no entry. -/
def apply (m : CharMap) (c : Char) : List Char :=
  m.targets.getD c.toNat [c]

end CharMap

end Actionbook.Text
