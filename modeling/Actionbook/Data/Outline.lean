import Actionbook.Data.Basic

/-!
# Outlines

The data that documents are written from: texts, null, lists, and records whose fields have names.
-/

namespace Actionbook

/-- A value that a document can be written from. -/
inductive Outline where
  | null
  | text (s : String)
  | list (items : List Outline)
  | record (fields : List (String × Outline))
deriving Repr

namespace Outline

instance : Inhabited Outline := ⟨.null⟩

/-- A text, or null where there is none. -/
def ofText? : Option String → Outline
  | some s => .text s
  | none => .null

mutual

/-- An outline as data: a record is a mapping whose keys are the names of its fields. -/
def data : Outline → Data
  | .null => .null
  | .text s => .text s
  | .list items => .list (itemsData items)
  | .record fields => .mapping (fieldsData fields)

def itemsData : List Outline → List Data
  | [] => []
  | v :: l => v.data :: itemsData l

/-- Fields as the entries of a mapping. -/
def fieldsData : List (String × Outline) → List (Data × Data)
  | [] => []
  | (name, v) :: l => (.text name, v.data) :: fieldsData l

end

@[simp] theorem itemsData_eq_map (l : List Outline) : itemsData l = l.map data := by
  induction l with
  | nil => rfl
  | cons v l ih => simp [itemsData, ih]

@[simp] theorem data_ofText? (s : Option String) : (ofText? s).data = Data.ofText? s := by
  cases s <;> simp [ofText?, Data.ofText?, data]

end Outline

end Actionbook
