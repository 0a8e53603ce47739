import Actionbook.Decimal.Notation
import Actionbook.Text.Quoted

/-!
# UTF-8

Texts are stored in UTF-8. Bytes that are no text are refused with the place of the first fault: a byte
that starts no character, or a character that is broken off, by another byte or by the end.
-/

namespace Actionbook.Text

/-- The bytes of a text. -/
def encode (s : String) : List UInt8 := s.toUTF8.toList

/-- What is wrong with bytes. -/
inductive Utf8Fault where
  | start
  | continuation
  | ending
deriving DecidableEq, Repr

/-- A fault in bytes: where it starts, and the bytes that it spans. -/
structure Utf8Error where
  fault : Utf8Fault
  position : Nat
  bytes : List UInt8
deriving DecidableEq, Repr

/-- How many bytes follow the first byte of a character, and the bounds of the second one. -/
def follow? (b : UInt8) : Option (Nat × UInt8 × UInt8) :=
  if b < 0x80 then some (0, 0x80, 0xBF)
  else if b < 0xC2 then none
  else if b < 0xE0 then some (1, 0x80, 0xBF)
  else if b = 0xE0 then some (2, 0xA0, 0xBF)
  else if b = 0xED then some (2, 0x80, 0x9F)
  else if b < 0xF0 then some (2, 0x80, 0xBF)
  else if b = 0xF0 then some (3, 0x90, 0xBF)
  else if b < 0xF4 then some (3, 0x80, 0xBF)
  else if b = 0xF4 then some (3, 0x80, 0x8F)
  else none

/-- The bytes that continue a character, of which `count` are due. -/
def continuation : Nat → UInt8 → UInt8 → List UInt8 → List UInt8
  | 0, _, _, _ => []
  | _ + 1, _, _, [] => []
  | count + 1, low, high, b :: r =>
    if low ≤ b ∧ b ≤ high then b :: continuation count 0x80 0xBF r else []

/-- The first fault of bytes, of which `position` lie behind, in at most `fuel` steps. -/
def faultFrom : Nat → Nat → List UInt8 → Option Utf8Error
  | 0, _, _ => none
  | _ + 1, _, [] => none
  | fuel + 1, position, b :: r =>
    match follow? b with
    | none => some ⟨.start, position, [b]⟩
    | some (count, low, high) =>
      let found := continuation count low high r
      if found.length = count then faultFrom fuel (position + 1 + count) (r.drop count)
      else if found.length = r.length then some ⟨.ending, position, b :: r⟩
      else some ⟨.continuation, position, b :: found⟩

def decode (bytes : List UInt8) : Except Utf8Error String :=
  match String.fromUTF8? ⟨bytes.toArray⟩ with
  | some s => .ok s
  | none => .error ((faultFrom bytes.length 0 bytes).getD ⟨.start, 0, []⟩)

def Utf8Fault.name : Utf8Fault → String
  | .start => "invalid start byte"
  | .continuation => "invalid continuation byte"
  | .ending => "unexpected end of data"

def Utf8Error.message (e : Utf8Error) : String :=
  let position := Decimal.integerText e.position
  "'utf-8' codec can't decode " ++
    (match e.bytes with
      | [b] => "byte 0x" ++ String.ofList (hexPadded 2 b.toNat) ++ " in position " ++ position
      | l => "bytes in position " ++ position ++ "-" ++
        Decimal.integerText (e.position + l.length - 1)) ++
    ": " ++ e.fault.name

end Actionbook.Text
