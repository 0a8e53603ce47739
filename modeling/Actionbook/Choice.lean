import Actionbook.Data.Text

/-!
# Named choices

Some settings are one of a few names. A value that is none of them is refused with the name of the
setting.
-/

namespace Actionbook

/-- A value that is none of the names of a setting. -/
structure UnknownChoice where
  value : Data
  setting : String

/-- The text of the refusal. -/
def UnknownChoice.message (e : UnknownChoice) : String :=
  e.value.literal ++ " is not a valid " ++ e.setting

/-- The choice with the given name. -/
def choose {α : Type} (setting : String) (choices : List (String × α)) (value : Data) :
    Except UnknownChoice α :=
  match value with
  | .text s =>
    match choices.lookup s with
    | some a => .ok a
    | none => .error ⟨value, setting⟩
  | _ => .error ⟨value, setting⟩

end Actionbook
