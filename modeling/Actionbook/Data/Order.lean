import Actionbook.Data.Basic
import Actionbook.Sorting

/-!
# The order of data

Numbers, truth values among them, are ordered by value, texts by code point, dates and moments by
time, bytes and lists item by item. Values of different kinds are not ordered, and null is not
ordered even against itself.
-/

namespace Actionbook.Data

/-- A number in units of `2 ^ -1074`, so that integers and floating-point numbers compare. -/
def units? : Data → Option Int
  | .boolean b => some (if b then Int.pow 2 1074 else 0)
  | .integer n => some (n * Int.pow 2 1074)
  | .float x => some x.units
  | _ => none

def compareBytes : List UInt8 → List UInt8 → Ordering
  | [], [] => .eq
  | [], _ :: _ => .lt
  | _ :: _, [] => .gt
  | a :: l, b :: m => (compare a b).then (compareBytes l m)

mutual

/-- The order of two values, if they are ordered. -/
def compare? : Data → Data → Option Ordering
  | .text s, .text t => some (if s < t then .lt else if s = t then .eq else .gt)
  | .bytes b, .bytes c => some (compareBytes b c)
  | .date d, .date e => some (compare d.ordinal e.ordinal)
  | .moment m, .moment n =>
    if m.offset.isSome = n.offset.isSome then some (compare m.instant n.instant) else none
  | .list l, .list m => compareItems? l m
  | .pair a b, .pair c d =>
    if a.sameKey c then compare? b d
    else
      match compare? a c with
      | some .eq => compare? b d
      | other => other
  | a, b =>
    match a.units?, b.units? with
    | some x, some y => some (compare x y)
    | _, _ => none

/-- The order of two lists by their first difference. -/
def compareItems? : List Data → List Data → Option Ordering
  | [], [] => some .eq
  | [], _ :: _ => some .lt
  | _ :: _, [] => some .gt
  | a :: l, b :: m =>
    if a.sameKey b then compareItems? l m
    else
      match compare? a b with
      | some .eq => compareItems? l m
      | other => other

end

/-- Puts a value into an ascending list, if it is ordered against the values it meets. -/
def insert? (a : Data) : List Data → Option (List Data)
  | [] => some [a]
  | b :: l =>
    match compare? a b with
    | some .gt => (insert? a l).map (b :: ·)
    | some _ => some (a :: b :: l)
    | none => none

/-- The values in ascending order, if they are ordered. -/
def sort? : List Data → Option (List Data)
  | [] => some []
  | a :: l => (sort? l).bind (insert? a)

end Actionbook.Data
