import Actionbook.Proofs.Views
import Actionbook.Typing

/-!
# What evidence depends on

A `Recast` changes what nodes hold, but keeps the names and declared types of parameters, who calls what,
and what arguments say. What is read commutes with it, one reader after the other, and so the evidence of
data tables and calls is the same before and after (`tableEvidence_recast`, `settle_recast`). If defaults
stay as well, all evidence is (`Graph.evidence_recast`).

`Graph.stripped` takes away whatever enrichment has found out: types, bindings, targets, orders,
keywords. What plain steps say goes as well. The evidence for types is read off what is left, so it is the
same for two graphs that are stripped to the same (`Graph.evidence_stripped`).
-/

namespace Actionbook

/-! ## Recasting -/

/-- A change of what nodes hold that does not show in names, declared types, calls and arguments. -/
structure Recast where
  actionWord : ActionWord → ActionWord
  parameter : Parameter → Parameter
  call : Call → Call
  argument : Argument → Argument
  step : Step → Step
  definition : ∀ w, (actionWord w).toDefinition = w.toDefinition
  name : ∀ p, (parameter p).name = p.name
  declaredType : ∀ p, (parameter p).declaredType = p.declaredType
  callee : ∀ c, (call c).actionWord = c.actionWord
  arguments : ∀ c, (call c).arguments = c.arguments
  argumentName : ∀ a, (argument a).name = a.name
  value : ∀ a, (argument a).value = a.value

def Content.recast (ρ : Recast) : Content → Content
  | .actionWord w => .actionWord (ρ.actionWord w)
  | .parameter p => .parameter (ρ.parameter p)
  | .call c => .call (ρ.call c)
  | .argument a => .argument (ρ.argument a)
  | .step s => .step (ρ.step s)
  | c => c

def Node.recast (ρ : Recast) (n : Node) : Node := { n with content := n.content.recast ρ }

def Graph.recast (ρ : Recast) (g : Graph) : Graph := { g with nodes := g.nodes.map (Node.recast ρ) }

/-- Nodes with their handles, as `f` changes them. -/
def mapped {α β : Type} (f : α → β) : List (Handle × α) → List (Handle × β) :=
  List.map fun e => (e.1, f e.2)

namespace Content

variable (ρ : Recast) (c : Content)

theorem kind_recast : (c.recast ρ).kind = c.kind := by cases c <;> rfl

theorem children?_recast : (c.recast ρ).children? = c.children? := by
  cases c with
  | actionWord w => simp only [recast, children?, ρ.definition]
  | call c => exact congrArg some (ρ.arguments c)
  | _ => rfl

theorem project?_recast : (c.recast ρ).project? = c.project?.map id := by cases c <;> rfl

theorem scenario?_recast : (c.recast ρ).scenario? = c.scenario?.map id := by cases c <;> rfl

theorem definition?_recast : (c.recast ρ).definition? = c.definition? := by
  cases c with
  | actionWord w => exact congrArg some (ρ.definition w)
  | _ => rfl

theorem actionWord?_recast : (c.recast ρ).actionWord? = c.actionWord?.map ρ.actionWord := by
  cases c <;> rfl

theorem parameter?_recast : (c.recast ρ).parameter? = c.parameter?.map ρ.parameter := by
  cases c <;> rfl

theorem call?_recast : (c.recast ρ).call? = c.call?.map ρ.call := by cases c <;> rfl

theorem argument?_recast : (c.recast ρ).argument? = c.argument?.map ρ.argument := by cases c <;> rfl

end Content

namespace Graph

variable (ρ : Recast) (g : Graph) (h : Handle)

/-! ## Readers -/

theorem size_recast : (g.recast ρ).size = g.size := Array.size_map

theorem node?_recast : (g.recast ρ).node? h = (g.node? h).map (Node.recast ρ) := by
  unfold node? recast
  split <;> simp

theorem content?_recast : (g.recast ρ).content? h = (g.content? h).map (Content.recast ρ) := by
  rw [content?, content?, node?_recast]
  cases g.node? h <;> rfl

theorem parent?_recast : (g.recast ρ).parent? h = g.parent? h := by
  rw [parent?, parent?, node?_recast]
  cases g.node? h <;> rfl

theorem argument?_recast : (g.recast ρ).argument? h = (g.argument? h).map ρ.argument := by
  rw [argument?, argument?, content?_recast]
  cases g.content? h with
  | none => rfl
  | some c => exact c.argument?_recast ρ

theorem parameter?_recast : (g.recast ρ).parameter? h = (g.parameter? h).map ρ.parameter := by
  rw [parameter?, parameter?, content?_recast]
  cases g.content? h with
  | none => rfl
  | some c => exact c.parameter?_recast ρ

theorem kids_recast : (g.recast ρ).kids h = g.kids h := by
  rw [kids, kids, content?_recast]
  cases g.content? h with
  | none => rfl
  | some c => exact congrArg (·.getD []) (c.children?_recast ρ)

theorem node_recast : (g.recast ρ).node h = Node.recast ρ <$> g.node h := by
  rw [node, node, node?_recast]
  cases g.node? h <;> rfl

theorem get_recast {α : Type} {view : Content → Option α} {f : α → α} (expected : NodeKind)
    (hv : ∀ c : Content, view (c.recast ρ) = (view c).map f) :
    (g.recast ρ).get h expected view = f <$> g.get h expected view := by
  rw [get, get, node_recast]
  cases g.node h with
  | error e => rfl
  | ok n =>
    have hview : view (n.recast ρ).content = (view n.content).map f := hv n.content
    simp only [Functor.map, Except.map, bind, Except.bind, hview]
    cases view n.content with
    | some a => rfl
    | none =>
      simp only [Option.map_none, Node.recast, Content.kind_recast]
      rfl

theorem getAll_recast {α : Type} {read read' : Handle → Except Fault α} {f : α → α}
    (hr : ∀ h, read' h = f <$> read h) (l : List Handle) :
    getAll read' l = mapped f <$> getAll read l := by
  unfold getAll
  induction l with
  | nil => rfl
  | cons h l ih =>
    rw [List.mapM_cons, List.mapM_cons, ih, hr]
    simp only [bind_map_left, bind_assoc, pure_bind, map_bind, map_pure, mapped, List.map_cons]

theorem parametersAt_recast (l : List Handle) :
    (g.recast ρ).parametersAt l = mapped ρ.parameter <$> g.parametersAt l :=
  getAll_recast (fun h => g.get_recast ρ h _ (Content.parameter?_recast ρ)) l

theorem argumentsOf_recast (c : Call) :
    (g.recast ρ).argumentsOf (ρ.call c) = mapped ρ.argument <$> g.argumentsOf c := by
  rw [argumentsOf, argumentsOf, ρ.arguments]
  exact getAll_recast (fun h => g.get_recast ρ h _ (Content.argument?_recast ρ)) c.arguments

theorem call_recast : (g.recast ρ).call h = ρ.call <$> g.call h :=
  g.get_recast ρ h _ (Content.call?_recast ρ)

theorem parentOf_recast : (g.recast ρ).parentOf h =
    Option.map (fun e => (e.1, e.2.recast ρ)) <$> g.parentOf h := by
  simp only [parentOf, node_recast, bind_map_left, map_bind]
  refine bind_congr fun n => ?_
  have hparent : (n.recast ρ).parent = n.parent := rfl
  rw [hparent]
  cases n.parent <;> simp

theorem parametersOf_recast :
    (g.recast ρ).parametersOf h = mapped ρ.parameter <$> g.parametersOf h := by
  simp only [parametersOf, node_recast, bind_map_left, map_bind]
  refine bind_congr fun n => ?_
  simp only [Node.recast, Content.definition?_recast]
  cases n.content.definition? with
  | none => rfl
  | some d => exact g.parametersAt_recast ρ d.parameters

theorem project_recast : (g.recast ρ).project = g.project := by
  have hproject : ∀ h, (g.recast ρ).get h .project Content.project? =
      id <$> g.get h .project Content.project? := fun h =>
    g.get_recast ρ h _ (Content.project?_recast ρ)
  have hroot : (g.recast ρ).root = g.root := rfl
  unfold project
  rw [hroot]
  cases g.root with
  | none => rfl
  | some h => simp only [hproject, id_map]

theorem scenarios_recast : (g.recast ρ).scenarios = g.scenarios := by
  have hscenario : (g.recast ρ).scenario = g.scenario := by
    funext h
    have hview := g.get_recast ρ h .scenario (Content.scenario?_recast ρ)
    rwa [id_map] at hview
  rw [scenarios, scenarios, project_recast, hscenario]

theorem actionWordIndex_recast : (g.recast ρ).actionWordIndex = g.actionWordIndex := by
  have hwords : (g.recast ρ).actionWords = mapped ρ.actionWord <$> g.actionWords := by
    simp only [actionWords, project_recast, map_bind]
    exact bind_congr fun p =>
      getAll_recast (fun h => g.get_recast ρ h _ (Content.actionWord?_recast ρ)) p.2.actionWords
  simp only [actionWordIndex, hwords, bind_map_left, mapped, List.foldl_map, ρ.definition]

theorem childHandles_recast : (g.recast ρ).childHandles h = g.childHandles h := by
  simp only [childHandles, node_recast, bind_map_left]
  refine bind_congr fun n => ?_
  rw [Node.recast, Content.children?_recast]

theorem walkStack_recast (fuel : Nat) (l : List Handle) :
    (g.recast ρ).walkStack fuel l = g.walkStack fuel l := by
  induction fuel generalizing l with
  | zero => rfl
  | succ fuel ih =>
    cases l with
    | nil => rfl
    | cons h l => simp only [walkStack, childHandles_recast, ih]

theorem walk_recast : (g.recast ρ).walk = g.walk := by
  have hbreadth : (g.recast ρ).breadth = g.breadth := by
    unfold breadth recast
    rw [Array.foldl_map]
    simp only [Node.recast, Content.children?_recast]
  have hbound : (g.recast ρ).visitBound = g.visitBound := by
    rw [visitBound, visitBound, hbreadth, size_recast]
  unfold walk walkFrom
  rw [hbound]
  simp only [walkStack_recast]
  rfl

theorem parameters_recast : (g.recast ρ).parameters = g.parameters := by
  have hparameter : ∀ h, (((g.recast ρ).node? h).bind (·.content.parameter?)).isSome =
      ((g.node? h).bind (·.content.parameter?)).isSome := fun h => by
    rw [node?_recast]
    cases g.node? h with
    | none => rfl
    | some n => simp [Node.recast, Content.parameter?_recast]
  simp only [parameters, walk_recast, hparameter]

theorem calls_recast : (g.recast ρ).calls = g.calls := by
  have hcall : ∀ h, (((g.recast ρ).node? h).bind (·.content.call?)).isSome =
      ((g.node? h).bind (·.content.call?)).isSome := fun h => by
    rw [node?_recast]
    cases g.node? h with
    | none => rfl
    | some n => simp [Node.recast, Content.call?_recast]
  simp only [calls, walk_recast, hcall]

end Graph

/-! ## Evidence -/

section
variable (ρ : Recast)

theorem find?_mapped {l : List (Handle × Parameter)} (name : String) :
    (mapped ρ.parameter l).find? (·.2.name == name) =
      (l.find? (·.2.name == name)).map fun e => (e.1, ρ.parameter e.2) := by
  rw [mapped, List.find?_map]
  simp only [Function.comp_def, ρ.name]

theorem matchParameter_mapped (l : List (Handle × Parameter)) (a : Argument) (position : Nat) :
    matchParameter (mapped ρ.parameter l) (ρ.argument a) position =
      (matchParameter l a position).map fun e => (e.1, ρ.parameter e.2) := by
  unfold matchParameter
  rw [ρ.argumentName]
  cases a.name with
  | none => exact List.getElem?_map
  | some name => exact find?_mapped ρ name

theorem Evidence.typeOf_recast (e : Evidence) (h : Handle) (p : Parameter) :
    e.typeOf h (ρ.parameter p) = e.typeOf h p := by
  rw [typeOf, typeOf, ρ.declaredType]

variable (g : Graph) (h : Handle) (e : Evidence)

theorem variableType_recast (name : String) :
    variableType (g.recast ρ) h name e = variableType g h name e := by
  simp only [variableType, Graph.parentOf_recast, bind_map_left]
  refine bind_congr fun o => ?_
  rcases o with _ | ⟨p, n⟩
  · rfl
  · simp only [Option.map_some, Node.recast, Content.definition?_recast]
    cases n.content.definition? with
    | none => rfl
    | some d =>
      simp only [Graph.parametersAt_recast, bind_map_left, find?_mapped]
      refine bind_congr fun l => ?_
      cases l.find? (·.2.name == name) with
      | none => rfl
      | some p => exact congrArg pure (e.typeOf_recast ρ p.1 p.2)

theorem callEvidence_recast (index : List (String × Handle)) :
    callEvidence (g.recast ρ) index e h = callEvidence g index e h := by
  have htype : argumentType (g.recast ρ) h = argumentType g h := by
    funext value e
    cases value <;> first | rfl | exact variableType_recast ρ g h e _
  simp only [callEvidence, Graph.call_recast, bind_map_left, htype, ρ.callee]
  refine bind_congr fun c => ?_
  cases index.lookup c.actionWord with
  | none => rfl
  | some t =>
    simp only [Graph.parametersOf_recast, Graph.argumentsOf_recast, bind_map_left]
    refine bind_congr fun l => bind_congr fun args => ?_
    have hzip : (mapped ρ.argument args).zipIdx =
        args.zipIdx.map fun e => ((e.1.1, ρ.argument e.1.2), e.2) := List.zipIdx_map
    rw [hzip, List.foldlM_map]
    congr 1
    funext e a
    simp only [matchParameter_mapped, ρ.value]
    cases matchParameter l a.1.2 a.2 <;> rfl

theorem callsEvidence_recast : callsEvidence (g.recast ρ) = callsEvidence g := by
  have hcall : callEvidence (g.recast ρ) = callEvidence g := by
    funext index e h
    exact callEvidence_recast ρ g h e index
  funext e
  simp only [callsEvidence, Graph.actionWordIndex_recast, Graph.calls_recast, hcall]

theorem settle_recast (fuel : Nat) : settle (g.recast ρ) fuel e = settle g fuel e := by
  induction fuel generalizing e with
  | zero => rfl
  | succ fuel ih => simp only [settle, callsEvidence_recast, ih]

theorem rowEvidence_mapped (l : List (Handle × Parameter)) (rows : List Row) :
    rowEvidence (mapped ρ.parameter l) rows e = rowEvidence l rows e := by
  have hreverse : (mapped ρ.parameter l).reverse = mapped ρ.parameter l.reverse :=
    List.map_reverse.symm
  unfold rowEvidence
  congr 1
  funext e ⟨name, value⟩
  simp only [hreverse, find?_mapped]
  cases l.reverse.find? (·.2.name == name) <;> rfl

theorem tableEvidence_recast : tableEvidence (g.recast ρ) = tableEvidence g := by
  simp only [tableEvidence, Graph.scenarios_recast, Graph.parametersAt_recast, bind_map_left,
    rowEvidence_mapped]

/-- Evidence is the same if defaults stay what they are. -/
theorem gatherEvidence_recast (hd : ∀ p, (ρ.parameter p).default = p.default)
    (l : List (Handle × Parameter)) :
    gatherEvidence (g.recast ρ) (mapped ρ.parameter l) = gatherEvidence g l := by
  have hdefaults : ∀ e, defaultEvidence (mapped ρ.parameter l) e = defaultEvidence l e := by
    intro e
    simp only [defaultEvidence, mapped, List.foldl_map, hd]
  simp only [gatherEvidence, settle_recast, tableEvidence_recast, hdefaults, Graph.size_recast]

end

/-- The evidence of a graph for all of its parameters. -/
def Graph.evidence (g : Graph) : Except Fault Evidence := do
  gatherEvidence g (← g.parametersAt (← g.parameters))

theorem Graph.evidence_recast (ρ : Recast) (hd : ∀ p, (ρ.parameter p).default = p.default)
    (g : Graph) : (g.recast ρ).evidence = g.evidence := by
  simp only [evidence, parameters_recast, parametersAt_recast, bind_map_left,
    gatherEvidence_recast ρ g hd]

/-! ## Stripping -/

def Parameter.stripped (p : Parameter) : Parameter := { p with type := none }

def Argument.stripped (a : Argument) : Argument := { value := a.value, name := a.name }

def Call.stripped (c : Call) : Call :=
  { actionWord := c.actionWord, arguments := c.arguments, keyword := c.keyword }

def ActionWord.stripped (w : ActionWord) : ActionWord := { toDefinition := w.toDefinition }

def Step.stripped (s : Step) : Step := { key := s.key }

/-- A content without what enrichment finds out and what a plain step says. -/
def Content.stripped : Content → Content
  | .actionWord w => .actionWord w.stripped
  | .parameter p => .parameter p.stripped
  | .call c => .call c.stripped
  | .argument a => .argument a.stripped
  | .step s => .step s.stripped
  | c => c

def Node.stripped (n : Node) : Node := { n with content := n.content.stripped }

/-- A graph without what enrichment finds out and what plain steps say. -/
def Graph.stripped (g : Graph) : Graph := { g with nodes := g.nodes.map Node.stripped }

/-- To strip is to recast. -/
def Recast.strip : Recast where
  actionWord := ActionWord.stripped
  parameter := Parameter.stripped
  call := Call.stripped
  argument := Argument.stripped
  step := Step.stripped
  definition _ := rfl
  name _ := rfl
  declaredType _ := rfl
  callee _ := rfl
  arguments _ := rfl
  argumentName _ := rfl
  value _ := rfl

theorem Content.recast_strip (c : Content) : c.recast .strip = c.stripped := by cases c <;> rfl

theorem Content.call?_stripped (c : Content) : c.stripped.call? = c.call?.map Call.stripped := by
  cases c <;> rfl

theorem Evidence.typeOf_stripped (e : Evidence) (h : Handle) (p : Parameter) :
    e.typeOf h p.stripped = e.typeOf h p := rfl

namespace Graph

variable (g : Graph) (h : Handle)

theorem recast_strip : g.recast .strip = g.stripped := by
  have hnode : Node.recast .strip = Node.stripped :=
    funext fun n => by rw [Node.recast, Node.stripped, Content.recast_strip]
  rw [recast, stripped, hnode]

theorem size_stripped : g.stripped.size = g.size := by rw [← recast_strip, size_recast]

theorem content?_stripped : g.stripped.content? h = (g.content? h).map Content.stripped := by
  rw [← recast_strip, content?_recast, funext Content.recast_strip]

theorem parent?_stripped : g.stripped.parent? h = g.parent? h := by
  rw [← recast_strip, parent?_recast]

theorem argument?_stripped : g.stripped.argument? h = (g.argument? h).map Argument.stripped := by
  rw [← recast_strip, argument?_recast]
  rfl

theorem parameter?_stripped : g.stripped.parameter? h = (g.parameter? h).map Parameter.stripped := by
  rw [← recast_strip, parameter?_recast]
  rfl

theorem calls_stripped : g.stripped.calls = g.calls := by rw [← recast_strip, calls_recast]

/-- **Evidence is read off what is left when a graph is stripped.** -/
theorem evidence_stripped : g.stripped.evidence = g.evidence := by
  rw [← recast_strip, evidence_recast .strip fun _ => rfl]

end Graph

end Actionbook
