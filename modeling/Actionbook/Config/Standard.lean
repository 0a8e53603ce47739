import Actionbook.Data.Basic

/-!
# The standard configuration

The configuration that is used where none is given: renamings are told by shape and body, and tests and
stubs are set up for three languages.
-/

namespace Actionbook.Config

/-- A mapping with texts as keys. -/
def record (entries : List (String × Data)) : Data :=
  .mapping (entries.map fun (k, v) => (.text k, v))

def groupRecord (entries : List (String × String)) (context : List (String × String)) : Data :=
  let texts (l : List (String × String)) : List (String × Data) := l.map fun (k, v) => (k, .text v)
  record (texts entries ++ (if context.isEmpty then [] else [("context", record (texts context))]))

def standard : Data := record [
  ("diff", record [("rename_match", .text "shape_and_body")]),
  ("languages", record [
    ("python", record [
      ("test_code", groupRecord [("named_filename", "test_\x7bname\x7d.py"), ("naming", "snake")]
        [("framework", "pytest")]),
      ("actionwords_stubs", groupRecord [("filename", "actionwords.py"), ("naming", "snake")] [])]),
    ("javascript", record [
      ("test_code", groupRecord [("filename", "project_test.js"), ("naming", "camel")]
        [("framework", "mocha")]),
      ("actionwords_stubs", groupRecord [("filename", "actionwords.js"), ("naming", "camel")] [])]),
    ("gherkin", record [
      ("test_code", groupRecord [("named_filename", "\x7bname\x7d.feature"),
        ("output_directory", "features"), ("naming", "snake")] []),
      ("actionwords_stubs", groupRecord [("filename", "step_definitions.py"),
        ("output_directory", "features/steps"), ("language", "python"), ("naming", "snake")] [])])])]

end Actionbook.Config
