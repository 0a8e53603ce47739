import Actionbook.Binding
import Actionbook.Literal

/-!
# Types of parameters

A parameter has the type it is declared with. Without declaration the first evidence counts: the
values in the data table of its scenario, then the arguments of calls, in document order, and last its
default. An argument that refers to a parameter of the surrounding body shows the type of that
parameter, once it is known; so the calls are gone through until nothing new is learnt.
-/

namespace Actionbook

/-- The types that have been seen for parameters. -/
abbrev Evidence := List (Handle × String)

namespace Evidence

/-- Records a type, unless none is shown or another one has been seen before. -/
def record (e : Evidence) (p : Handle) (type : Option String) : Evidence :=
  match type with
  | none => e
  | some t => if (e.lookup p).isSome then e else e ++ [(p, t)]

/-- The type of a parameter as far as it is known. -/
def typeOf (e : Evidence) (h : Handle) (p : Parameter) : Option String :=
  match p.declaredType with
  | some t => if t.isEmpty then e.lookup h else some t
  | none => e.lookup h

end Evidence

/-- The type that a literal shows, by its tag. -/
def Value.typeTag (v : Value) : Option String := v.literalType.map LiteralType.tag

/-- The evidence of a data table: a name stands for the last parameter of that name. -/
def rowEvidence (parameters : List (Handle × Parameter)) (rows : List Row) (e : Evidence) : Evidence :=
  (rows.flatMap (·.arguments)).foldl (fun e (name, value) =>
    match parameters.reverse.find? fun p => p.2.name == name with
    | some (p, _) => e.record p value.typeTag
    | none => e) e

/-- The type of the parameter that a name means in the body around a call. -/
def variableType (g : Graph) (h : Handle) (name : String) (e : Evidence) :
    Except Fault (Option String) := do
  match ← g.parentOf h with
  | none => return none
  | some (_, owner) =>
    match owner.content.definition? with
    | none => return none
    | some d =>
      match (← g.parametersAt d.parameters).find? fun p => p.2.name == name with
      | some (p, parameter) => return e.typeOf p parameter
      | none => return none

/-- The type that an argument of a call shows. -/
def argumentType (g : Graph) (h : Handle) (value : Value) (e : Evidence) :
    Except Fault (Option String) :=
  match value with
  | .variable name => variableType g h name e
  | v => .ok v.typeTag

def callEvidence (g : Graph) (index : List (String × Handle)) (e : Evidence) (h : Handle) :
    Except Fault Evidence := do
  let c ← g.call h
  match index.lookup c.actionWord with
  | none => return e
  | some target =>
    let parameters ← g.parametersOf target
    let arguments ← g.argumentsOf c
    arguments.zipIdx.foldlM (fun e ((_, a), position) => do
      match matchParameter parameters a position with
      | none => return e
      | some (p, _) => return e.record p (← argumentType g h a.value e)) e

def callsEvidence (g : Graph) (e : Evidence) : Except Fault Evidence := do
  let index ← g.actionWordIndex
  (← g.calls).foldlM (callEvidence g index) e

/-- Goes through the calls until nothing new is learnt. Every round but the last learns the type of
another parameter. -/
def settle (g : Graph) : Nat → Evidence → Except Fault Evidence
  | 0, e => return e
  | fuel + 1, e => do
    let next ← callsEvidence g e
    if next.length = e.length then return e else settle g fuel next

def tableEvidence (g : Graph) : Except Fault Evidence := do
  (← g.scenarios).foldlM (fun e (_, s) => do
    return rowEvidence (← g.parametersAt s.parameters) s.rows e) []

/-- The evidence of the defaults, added to what is known. -/
def defaultEvidence (parameters : List (Handle × Parameter)) (e : Evidence) : Evidence :=
  parameters.foldl (fun e (h, p) => e.record h (p.default.bind Value.typeTag)) e

/-- The evidence of a graph for the given parameters. -/
def gatherEvidence (g : Graph) (parameters : List (Handle × Parameter)) : Except Fault Evidence := do
  let known ← settle g (g.size + 1) (← tableEvidence g)
  let withDefaults := defaultEvidence parameters known
  if withDefaults.length = known.length then return known
  else settle g (g.size + 1) withDefaults

/-- Gives every parameter its type, and reports those without. -/
def addTypes : Work Unit := do
  let parameters ← Work.read fun g => do g.parametersAt (← g.parameters)
  let evidence ← Work.read (gatherEvidence · parameters)
  parameters.forM fun (h, p) => do
    let type := evidence.typeOf h p
    Work.change (·.updateParameter h fun p => { p with type })
    if type.isNone then
      let owner ← Work.read (·.parentOf h)
      let name : Data := match owner.bind (·.2.content.name?) with
        | some name => .ofText? name
        | none => .text "?"
      Work.warn (.untypedParameter p.name name) h

end Actionbook
