import Actionbook.Workspace

/-!
# Binding arguments to parameters

An argument with a name belongs to the first parameter of that name, one without to the parameter at
its position. No parameter takes two arguments of a call: the later one stays without parameter, as
does one that matches none. A call then has its arguments in the order of the parameters they belong
to, and after them the others as they were written.
-/

namespace Actionbook

/-- The parameter for an argument of a call. -/
def matchParameter (parameters : List (Handle × Parameter)) (a : Argument) (position : Nat) :
    Option (Handle × Parameter) :=
  match a.name with
  | some name => parameters.find? fun p => p.2.name == name
  | none => parameters[position]?

/-- The last place of a handle in a list. -/
def lastPlace? (handles : List Handle) (h : Handle) : Option Nat :=
  (handles.zipIdx.reverse.find? fun e => e.1 == h).map (·.2)

/-- The arguments in the order of their parameters, then those that have none. -/
def alignedArguments (parameters : List (Handle × Parameter)) (arguments : List (Handle × Argument)) :
    Except Fault (List Handle) := do
  let bound ← (arguments.filter (·.2.parameter.isSome)).mapM fun (h, a) =>
    match lastPlace? (parameters.map (·.1)) (a.parameter.getD 0) with
    | some place => .ok (place, h)
    | none => .error .foreignArgument
  return (sortBy (fun a b => a.1 ≤ b.1) bound).map (·.2) ++
    (arguments.filter (·.2.parameter.isNone)).map (·.1)

/-- Puts the arguments of a call in order. -/
def alignCall (h : Handle) (parameters : List (Handle × Parameter)) : Work Unit := do
  let ordered ← Work.read fun g => do
    alignedArguments parameters (← g.argumentsOf (← g.call h))
  Work.change (·.updateCall h fun c => { c with ordered })

/-- Binds the arguments of a call that are left, the first of which is at `position`; `bound` holds
the parameters that are taken. -/
def bindArguments (callee : String) (parameters : List (Handle × Parameter)) :
    Nat → List Handle → List (Handle × Argument) → Work Unit
  | _, _, [] => return
  | position, bound, (h, a) :: l => do
    match (matchParameter parameters a position).filter fun p => !bound.contains p.1 with
    | some (p, _) =>
      Work.change (·.updateArgument h fun a => { a with parameter := some p })
      bindArguments callee parameters (position + 1) (p :: bound) l
    | none =>
      Work.change (·.updateArgument h fun a => { a with unresolved := true })
      Work.warn (.unresolvedArgument (a.label position) callee) h
      bindArguments callee parameters (position + 1) bound l

/-- Binds the arguments of a call. `index` tells the action words by name. -/
def bindCall (index : List (String × Handle)) (h : Handle) : Work Unit := do
  let c ← Work.read (·.call h)
  let arguments ← Work.read (·.argumentsOf c)
  arguments.forM fun (a, _) =>
    Work.change (·.updateArgument a fun a => { a with parameter := none, unresolved := false })
  match index.lookup c.actionWord with
  | none =>
    Work.change (·.updateCall h fun c =>
      { c with resolved := some false, target := none, ordered := c.arguments })
    Work.warn (.unresolvedCall c.actionWord) h
  | some target =>
    Work.change (·.updateCall h fun c => { c with resolved := some true, target := some target })
    let parameters ← Work.read (·.parametersOf target)
    bindArguments c.actionWord parameters 0 [] arguments
    alignCall h parameters

def bindCalls : Work Unit := do
  let index ← Work.read Graph.actionWordIndex
  (← Work.read Graph.calls).forM (bindCall index)

/-! ## Defaults -/

/-- Adds an argument for every parameter that is not bound and has a default, and reports those that
have none. -/
def addDefaults (h : Handle) (callee : String) (bound : List Handle) :
    List (Handle × Parameter) → Work Unit
  | [] => return
  | (p, parameter) :: l => do
    if !bound.contains p then
      match parameter.default with
      | none => Work.warn (.missingArgument callee parameter.name) h
      | some value =>
        let a ← Work.add (.argument {
          name := some parameter.name, value, parameter := some p, synthesized := true })
        Work.change (·.setParent a (some h))
        Work.change (·.updateCall h fun c => { c with arguments := c.arguments ++ [a] })
    addDefaults h callee bound l

/-- Completes a call whose action word is known by the defaults of the parameters without argument. -/
def completeCall (h : Handle) : Work Unit := do
  let c ← Work.read (·.call h)
  match c.resolved, c.target with
  | some true, some target =>
    let parameters ← Work.read fun g => do g.parametersAt (← g.actionWord target).parameters
    let arguments ← Work.read (·.argumentsOf c)
    addDefaults h c.actionWord (arguments.filterMap (·.2.parameter)) parameters
    alignCall h parameters
  | _, _ => return

def completeCalls : Work Unit := do
  (← Work.read Graph.calls).forM completeCall

end Actionbook
