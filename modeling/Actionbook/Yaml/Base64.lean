/-!
# Bytes written with 64 characters

Every character gives six bits. Characters outside of the alphabet do not count, and padding ends the
text as soon as it completes a group of four.
-/

namespace Actionbook.Yaml.Base64

/-- The six bits of a character. -/
def sextet? (c : Char) : Option Nat :=
  if 'A' ≤ c ∧ c ≤ 'Z' then some (c.toNat - 65)
  else if 'a' ≤ c ∧ c ≤ 'z' then some (c.toNat - 71)
  else if '0' ≤ c ∧ c ≤ '9' then some (c.toNat + 4)
  else if c = '+' then some 62
  else if c = '/' then some 63
  else none

/-- The bytes of a text. `place` is the number of characters of the current group, `left` are the bits
of the last one that are in no byte yet, and `pads` is the number of padding characters since. -/
def decodeFrom (place left pads : Nat) : List Char → Option (List UInt8)
  | [] => if place = 0 then some [] else none
  | c :: r =>
    if c = '=' then
      if place ≥ 2 then
        if place + pads + 1 ≥ 4 then some [] else decodeFrom place left (pads + 1) r
      else decodeFrom place left pads r
    else
      match sextet? c with
      | none => decodeFrom place left pads r
      | some v =>
        match place with
        | 0 => decodeFrom 1 v 0 r
        | 1 => (decodeFrom 2 (v % 16) 0 r).map (UInt8.ofNat (left * 4 + v / 16) :: ·)
        | 2 => (decodeFrom 3 (v % 4) 0 r).map (UInt8.ofNat (left * 16 + v / 4) :: ·)
        | _ => (decodeFrom 0 0 0 r).map (UInt8.ofNat (left * 64 + v) :: ·)

/-- The bytes of a text, if its groups are complete. -/
def decode? (s : List Char) : Option (List UInt8) := decodeFrom 0 0 0 s

end Actionbook.Yaml.Base64
