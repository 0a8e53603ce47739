import Actionbook.Text.Breaks

/-!
# The length of texts that replace names

A short document can stand for a very long one when its entities use each other. So reading keeps
account of the texts that replace names: once 8 MiB have been read in all, they must not be more than a
hundred times what has been read of the document itself. The quotient is taken with floats of 32 bits.
-/

namespace Actionbook.Xml

/-- A number rounded to the 24 bits of a float; of two that are equally near the even one. -/
def singlePrecision (n : Nat) : Nat :=
  let unit := Nat.pow 2 (Nat.log2 n - 23)
  let twice := 2 * (n % unit)
  if twice > unit ∨ (twice = unit ∧ n / unit % 2 = 1) then (n / unit + 1) * unit else n / unit * unit

/-- Whether texts of `replaced` bytes may stand for names in `own` bytes of a document. A quotient that
is above 100 by `1 / 262144` is still rounded to 100. -/
def tolerates (own replaced : Nat) : Bool :=
  own + replaced < 8388608 || 262144 * singlePrecision (own + replaced) ≤ 26214401 * singlePrecision own

example : tolerates 100000 9900000 = true ∧ tolerates 100000 9900001 = false := by decide

/-- The bytes of a text. -/
def byteLength (s : List Char) : Nat := s.foldl (fun n c => n + c.utf8Size) 0

/-- The bytes of a document that its first `n` characters stand for when line breaks are unified. -/
def bytesBefore : Nat → List Char → Nat
  | 0, _ => 0
  | _, [] => 0
  | n + 1, '\r' :: '\n' :: r => 2 + bytesBefore n r
  | n + 1, c :: r => c.utf8Size + bytesBefore n r

/-- Reading may fail; its state is the bytes of all texts that have replaced a name. -/
abbrev Reading := StateT Nat Option

/-- Where a text stands that is being read. -/
structure Place where
  /-- The names that are being replaced, innermost first. -/
  opened : List (List Char) := []
  /-- The bytes of the whole document. -/
  size : Nat
  /-- The bytes of the document that have been read when a rest is left. -/
  own : List Char → Nat

namespace Place

/-- The place of a document itself. -/
def ofDocument (document : List Char) : Place where
  size := byteLength document
  own rest := bytesBefore ((Text.unifyBreaks document).length - rest.length) document

/-- The place of a value in the markup in front of `rest`. -/
def inside (p : Place) (rest : List Char) : Place :=
  let own := Thunk.mk fun _ => p.own rest
  { p with own := fun _ => own.get }

/-- The place of a text that replaces a name in front of `rest`. -/
def enter (p : Place) (name rest : List Char) : Place :=
  { p.inside rest with opened := name :: p.opened }

/-- Fails if the texts that replace names have become too long when `rest` is left. The first two
conditions spare counting what has been read. -/
def check (p : Place) (rest : List Char) : Reading Unit := do
  let replaced ← get
  if replaced = 0 ∨ p.size + replaced < 8388608 ∨ tolerates (p.own rest) replaced then return ()
  else failure

/-- Takes account of a text that replaces a name in front of `rest`, all of it at once: nothing of the
document itself is read before its end. -/
def replace (p : Place) (text rest : List Char) : Reading Unit := do
  modify (· + byteLength text)
  p.check rest

end Place

end Actionbook.Xml
