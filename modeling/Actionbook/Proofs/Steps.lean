import Actionbook.Proofs.Calls
import Actionbook.Sentence.Wording

/-!
# Steps and what they say

`Graph.step?` shows a step of a body: a plain one, or a call with its arguments. Read back, it gives the
step as it was written (`StepState.saying`), arguments that stand for defaults left out; and a scenario
or an action word gives its definition as it was written (`Graph.written?`).
-/

namespace Actionbook

/-- A step of a body: a plain one, or a call with its arguments. -/
inductive StepState where
  | plain (s : Step)
  | call (x : CallState)

namespace StepState

/-- The keyword under which a step is a sentence. -/
def keyword? : StepState → Option String
  | .plain s => (some s.key).filter sentenceKeywords.contains
  | .call x => x.call.keyword.filter sentenceKeywords.contains

/-- The effective keyword of a step after steps of which the last had the effective keyword `last`. -/
def effective (σ : StepState) (last : Option String) : Option String :=
  σ.keyword?.map (effectiveKeyword · last)

/-- An argument as it was written. -/
def writtenArgument (e : Handle × Argument) : WrittenArgument := ⟨e.2.name, e.2.value⟩

/-- The step as it was written. -/
def saying : StepState → WrittenStep
  | .plain s => .plain s.key s.value
  | .call x => .call x.call.actionWord x.call.keyword
      ((x.arguments.filter (!·.2.synthesized)).map writtenArgument)

end StepState

/-- The last effective keyword after steps with the given keywords. -/
def trail (keywords : List (Option String)) : Option String :=
  keywords.foldl (fun last k => (k.map (effectiveKeyword · last)).or last) none

theorem trail_append (keywords : List (Option String)) (k : Option String) :
    trail (keywords ++ [k]) = (k.map (effectiveKeyword · (trail keywords))).or (trail keywords) := by
  simp [trail]

/-- A list is read if each of its elements is. -/
theorem mapM_eq_some {α β : Type} {f : α → Option β} {l : List α} {l' : List β} :
    l.mapM f = some l' ↔ l.map f = l'.map some := by
  induction l generalizing l' with
  | nil => cases l' <;> simp
  | cons a l ih => cases l' <;> simp [List.mapM_cons, Option.bind_eq_some_iff, ih]

namespace Graph

variable {g g' : Graph} {h k : Handle} {x : CallState} {σ : StepState}

def step? (g : Graph) (h : Handle) : Option StepState :=
  ((g.plain? h).map .plain).or ((g.state? h).map .call)

theorem step?_plain {s : Step} (hs : g.plain? h = some s) : g.step? h = some (.plain s) := by
  simp [step?, hs]

theorem step?_call (hx : g.state? h = some x) : g.step? h = some (.call x) := by
  simp [step?, hx, plain?_of_state? hx]

theorem plain?_of_step? {s : Step} (hσ : g.step? h = some (.plain s)) : g.plain? h = some s := by
  unfold step? at hσ
  cases hs : g.plain? h with
  | some t => simpa [hs] using hσ
  | none => cases hx : g.state? h <;> simp [hs, hx] at hσ

theorem state?_of_step? (hσ : g.step? h = some (.call x)) : g.state? h = some x := by
  unfold step? at hσ
  cases hs : g.plain? h with
  | some t => simp [hs] at hσ
  | none => cases hx : g.state? h <;> simp_all

theorem isStep_of_step? (hσ : g.step? h = some σ) : g.IsStep h := by
  cases σ with
  | plain s => exact isStep_of_plain? (plain?_of_step? hσ)
  | call x => exact isStep_of_state? (state?_of_step? hσ)

theorem exists_step (hh : g.IsStep h) : ∃ σ, g.step? h = some σ := by
  rcases isStep_cases hh with ⟨s, hs⟩ | ⟨x, hx⟩
  · exact ⟨_, step?_plain hs⟩
  · exact ⟨_, step?_call hx⟩

theorem Reworked.step?_of_ne (hr : g.Reworked h g') (hs : g.Sound) (hne : k ≠ h) :
    g'.step? k = g.step? k := by
  rw [step?, hr.plain?_of_ne hs hne, hr.state?_of_ne hs hne]
  rfl

/-- The keyword of the step with a handle. -/
def keyword? (g : Graph) (h : Handle) : Option String := (g.step? h).bind StepState.keyword?

/-- The step with a handle, as it was written. -/
def saying (g : Graph) (h : Handle) : Option WrittenStep := (g.step? h).map StepState.saying

/-- A definition as it was written. -/
def written? (g : Graph) (d : Definition) : Option WrittenDefinition :=
  (d.steps.mapM g.saying).map fun steps => {
    name := d.name, uid := d.uid, description := d.description, tags := d.tags,
    parameters := (gather g.parameter? d.parameters).map (·.2.written), steps }

theorem Alike.plain? (ha : g.Alike g') : g'.plain? = g.plain? := by
  funext k
  apply Option.ext
  intro s
  rw [plain?_eq_some, plain?_eq_some, ha.step]

theorem Alike.arguments (ha : g.Alike g') (c : Call) : g'.arguments c = g.arguments c :=
  gather_congr fun a _ => ha.argument? a

theorem Alike.state? (ha : g.Alike g') : g'.state? = g.state? := by
  funext k
  apply Option.ext
  intro x
  rw [state?_eq_some, state?_eq_some, ha.call, ha.arguments]

theorem Alike.step? (ha : g.Alike g') : g'.step? = g.step? := by
  funext k
  rw [Graph.step?, Graph.step?, ha.plain?, ha.state?]

end Graph

end Actionbook
