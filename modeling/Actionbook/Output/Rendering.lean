import Actionbook.Output.Group
import Actionbook.Graph.Basic
import Actionbook.Report

/-!
# Renderings

A rendering describes a file before it is written: the node it is about, its path and the settings for
whoever writes the text. Two renderings with one language and one path are one file: the first one is
kept, and a warning tells if the other is about another node.
-/

namespace Actionbook

/-- A file that is to be written. -/
structure Rendering where
  node : Handle
  path : Data
  language : Data
  category : Category
  settings : List (Data × Data)
  description : String

/-- The nodes that files are about. -/
inductive Subject where
  | project (p : Project)
  | scenario (s : Scenario)
  | actionWord (w : ActionWord)

namespace Subject

def ofContent? : Content → Option Subject
  | .project p => some (.project p)
  | .scenario s => some (.scenario s)
  | .actionWord w => some (.actionWord w)
  | _ => none

def kind : Subject → String
  | .project _ => "project"
  | .scenario _ => "scenario"
  | .actionWord _ => "actionword"

def name : Subject → String
  | .project p => p.name
  | .scenario s => s.name
  | .actionWord w => w.name

/-- The identifier of a subject: that of its name or, if there is none, its kind and handle. -/
def identifierAt (s : Subject) (naming : Naming) (h : Handle) : String :=
  let made := identifier naming s.name
  if made.isEmpty then s.kind ++ "_" ++ Decimal.integerText h else made

/-- The settings with the nodes of a project that files of a category are made of. -/
def parts (s : Subject) (category : Category) : List (String × Data) :=
  let handles (l : List Handle) : Data := .list (l.map .integer)
  match s, category with
  | .project p, .tests => [("scenarios", handles p.scenarios)]
  | .project p, .stubs => [("actionwords", handles p.actionWords)]
  | _, _ => []

end Subject

namespace Graph

/-- The subject that the node with a handle is. -/
def subject (g : Graph) (h : Handle) : Except Fault Subject := do
  let n ← g.node h
  match Subject.ofContent? n.content with
  | some s => return s
  | none => throw (.wrongKind h "Project | Scenario | ActionWord" n.content.kind)

/-- The nodes for which a group has files. -/
def targets (g : Graph) (group : OutputGroup) : Except Fault (List Handle) := do
  let (root, p) ← g.project
  match group.files, group.category with
  | .whole _, _ => return [root]
  | .each _, .tests => return p.scenarios
  | .each _, .stubs => return p.actionWords

/-- The rendering of a node for a group. -/
def rendering (g : Graph) (group : OutputGroup) (h : Handle) (host : Form.Host := {}) :
    Except OutputError Rendering :=
  match g.subject h with
  | .error e => .error (.fault e)
  | .ok s => do
    let name := s.identifierAt group.naming h
    let fixed : List (String × Data) := [
      ("category", .text group.category.name), ("language", group.language),
      ("naming", .text group.naming.name), ("node_kind", .text s.kind), ("name", .text name)]
    return {
      node := h
      path := ← group.pathFor (if group.files.isPerNode then name else "") host
      language := group.language
      category := group.category
      settings := (fixed ++ s.parts group.category).foldl
        (fun known (k, v) => Data.put known (.text k) v) group.settings
      description :=
        group.category.name ++ " for " ++ s.kind ++ " " ++ Text.quoted s.name }

end Graph

/-! ## One file for a place -/

def Rendering.sameFile (a b : Rendering) : Bool :=
  a.language.sameKey b.language && a.path.sameKey b.path

def Rendering.isIdentified (r : Rendering) : Bool := r.language.key?.isSome && r.path.key?.isSome

/-- A choice of files, on which warnings are reported. -/
abbrev Selection := ExceptT OutputError (StateM Report)

/-- Adds a rendering to those that are kept unless its file is among them. -/
def keep (kept : List Rendering) (r : Rendering) : Selection (List Rendering) := do
  if !r.isIdentified then throw .noIdentity
  match kept.find? r.sameFile with
  | none => return kept ++ [r]
  | some other =>
    if other.node ≠ r.node then
      modify fun report => report.warn ⟨.outputCollision r.path r.language, some r.node⟩
    return kept

/-- Adds the renderings of nodes for a group. -/
def keepAll (g : Graph) (group : OutputGroup) (host : Form.Host) :
    List Rendering → List Handle → Selection (List Rendering)
  | kept, [] => return kept
  | kept, h :: l => do
    match g.rendering group h host with
    | .error e => throw e
    | .ok r => keepAll g group host (← keep kept r) l

def keepGroups (g : Graph) (host : Form.Host) :
    List Rendering → List OutputGroup → Selection (List Rendering)
  | kept, [] => return kept
  | kept, group :: l => do
    match g.targets group with
    | .error e => throw (.fault e)
    | .ok handles => keepGroups g host (← keepAll g group host kept handles) l

/-- The renderings for groups, in the order of the groups and of the nodes in the graph. -/
def selectRenderings (g : Graph) (groups : List OutputGroup) (host : Form.Host := {}) :
    Selection (List Rendering) :=
  keepGroups g host [] groups

/-! ## Files that change -/

/-- Adds a rendering to those that are kept unless its file is among them; nothing is reported. -/
def keepFirst (kept : List Rendering) (r : Rendering) : Except OutputError (List Rendering) :=
  if !r.isIdentified then .error .noIdentity
  else if kept.any r.sameFile then .ok kept
  else .ok (kept ++ [r])

/-- The renderings of a group that changes of some nodes touch: those of the nodes, or that of the whole
project, whose settings then name the nodes. -/
def changedOf (g : Graph) (host : Form.Host) (changed : List Handle) (group : OutputGroup) :
    Except OutputError (List Rendering) :=
  match group.files with
  | .each _ => changed.mapM (g.rendering group · host)
  | .whole _ => do
    let root ← match g.project with
      | .ok (root, _) => pure root
      | .error e => throw (.fault e)
    let r ← g.rendering group root host
    let nodes := Data.list (changed.map .integer)
    return [{ r with settings := Data.put r.settings (.text "changed_actionwords") nodes }]

/-- The renderings for groups that changes of some nodes touch. -/
def changedRenderings (g : Graph) (changed : List Handle) (groups : List OutputGroup)
    (host : Form.Host := {}) : Except OutputError (List Rendering) :=
  groups.foldlM (fun kept group => do (← changedOf g host changed group).foldlM keepFirst kept) []

end Actionbook
