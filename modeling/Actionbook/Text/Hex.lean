import Actionbook.Text.CodePoints
import Actionbook.Text.Quoted

/-!
# Bytes in hexadecimal digits

Every byte is written as two lower-case hexadecimal digits.
-/

namespace Actionbook.Text

def hexOfBytes (bytes : List UInt8) : String :=
  String.ofList (bytes.flatMap fun b => hexPadded 2 b.toNat)

/-- The bytes that digits denote; a single digit at the end does not count. -/
def bytesOfHex : List Char → List UInt8
  | a :: b :: r => UInt8.ofNat (hexValue [a, b]) :: bytesOfHex r
  | _ => []

end Actionbook.Text
