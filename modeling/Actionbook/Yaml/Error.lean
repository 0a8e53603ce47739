import Actionbook.Data.Text

/-!
# Errors in data documents

Most errors only say that a text is no document of the format. Others tell why a scalar that looks
like a number, a truth value or a date denotes none.
-/

namespace Actionbook

def CalendarError.message : CalendarError → String
  | .year n => "year " ++ Decimal.integerText n ++ " is out of range"
  | .month => "month must be in 1..12"
  | .day => "day is out of range for month"
  | .hour => "hour must be in 0..23"
  | .minute => "minute must be in 0..59"
  | .second => "second must be in 0..59"
  | .offset s =>
    "offset must be a timedelta strictly between -timedelta(hours=24) and timedelta(hours=24), not " ++
      Data.spanText s

namespace Yaml

/-- Why a text is no data document. -/
inductive Error where
  /-- The text does not follow the format. -/
  | malformed
  /-- A date or a moment is not in the calendar. -/
  | calendar (e : CalendarError)
  /-- A text is no integer in a base. -/
  | noInteger (base : Nat) (text : String)
  /-- An integer has more digits than are read. -/
  | longInteger (digits : Nat)
  /-- A text is no number. -/
  | noNumber (text : String)
  /-- An escape names no character. -/
  | noCharacter
  /-- An escape names no character, and is too large to be tried. -/
  | largeCharacter
  /-- A number has no digits at all. -/
  | noDigits
  /-- A text is no truth value. -/
  | noTruth
  /-- A text is no date or moment. -/
  | noMoment
  /-- A mapping is given for a moment. -/
  | momentMapping
deriving DecidableEq, Repr

/-- The message of an error about a value. -/
def Error.message? : Error → Option String
  | .calendar e => some e.message
  | .noInteger base text =>
    let shown := String.ofList ((Text.quoted text).toList.take 200)
    some ("invalid literal for int() with base " ++ Decimal.integerText base ++ ": " ++ shown)
  | .longInteger digits =>
    some ("Exceeds the limit (4300 digits) for integer string conversion: value has " ++
      Decimal.integerText digits ++ " digits; use sys.set_int_max_str_digits() to increase the limit")
  | .noNumber text => some ("could not convert string to float: " ++ Text.quoted text)
  | .noCharacter => some "chr() arg not in range(0x110000)"
  | _ => none

end Yaml

end Actionbook
