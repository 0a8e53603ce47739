import Actionbook.Choice
import Actionbook.Data.Members
import Actionbook.Diagnostic

/-!
# Faults of configurations

A setting that is not understood is reported with the place it stands at. Values of a wrong shape,
where a mapping or a collection is due, are refused without a report.
-/

namespace Actionbook

/-- Why a configuration cannot be used. -/
inductive ConfigError where
  /-- There is no rule of this name for renamings. -/
  | unknownRule (value : Data) (available : List String)
  /-- No outputs are set up for the language. -/
  | unknownLanguage (language : String) (available : List Data)
  /-- Outputs of the language are set up for a category that there is not. -/
  | unknownCategory (language : String) (category : Data)
  /-- The settings of a group are no mapping. -/
  | groupShape (language category : String)
  /-- There is no naming convention of this name. -/
  | unknownNaming (language : String) (naming : Data)
  /-- A group has both kinds of file names, or none. -/
  | fileNames (language : Data) (category : String)
  /-- The form of file names has no place for the name. -/
  | nameless (language form : Data)
  /-- There is no category of this name. -/
  | unknownChoice (e : UnknownChoice)
  /-- The further settings of a group are no mapping. -/
  | entries (e : Data.EntryError)
  /-- Settings are asked for in a value that is no mapping. -/
  | noSettings
  /-- A value does not allow what is done with it. -/
  | unsuitable

/-- The report of an error about a setting. -/
def ConfigError.diagnostic? (e : ConfigError) : Option Diagnostic :=
  let report (context : List (String × Data)) : Option Diagnostic :=
    some { code := "INVALID_OUTPUT_CONFIG", context }
  let reason (text : String) : String × Data := ("reason", .text text)
  match e with
  | .unknownRule value available =>
    report [("rename_match", value), reason "unknown rename_match",
      ("available", .list (available.map .text))]
  | .unknownLanguage language available =>
    report [("language", .text language), reason "unknown language", ("available", .list available)]
  | .unknownCategory language category =>
    report [("language", .text language), ("category", category), reason "unknown category"]
  | .groupShape language category =>
    report [("language", .text language), ("category", .text category),
      reason "group must be a mapping"]
  | .unknownNaming language naming =>
    report [("language", .text language), ("naming", naming), reason "unknown naming convention"]
  | .fileNames language category =>
    report [("language", language), ("category", .text category),
      reason "exactly one of filename / named_filename is required"]
  | .nameless language form =>
    report [("language", language), ("named_filename", form),
      reason "named_filename must contain \x7bname\x7d"]
  | _ => none

end Actionbook
