import Actionbook.Binding
import Actionbook.Literal
import Actionbook.Sentence.Wording

/-!
# Sentences become calls

A plain step under a keyword is a sentence. If it follows the pattern of an action word, a call of
that action word takes its place, with the texts at the placeholders as arguments; the first action
word that fits is taken. After that the effective keywords and the sentences of all calls are
known, and so are the keywords under which each action word is called.
-/

namespace Actionbook

/-- The captured texts that are arguments, by the names of the placeholders. -/
def capturedArguments (names : List String) (word : String) (texts : List String) :
    List (String × String) :=
  ((Sentence.placeholders word).zip texts).filter fun c => names.contains c.1

/-- Gives a captured argument the literal of its parameter's type. -/
def retypeArgument (a : Handle × Argument) : Work Unit := do
  match a.2.parameter with
  | none => return
  | some p =>
    let parameter ← Work.read (·.parameter p)
    Work.change (·.updateArgument a.1 fun a =>
      { a with value := .ofCaptured a.value.text parameter.type })

/-- Puts a call of `word` with the captured texts into the place of a step. -/
def placeCall (index : List (String × Handle)) (h : Handle) (key : String)
    (word : Handle × ActionWord) (texts : List String) : Work Unit := do
  let parameters ← Work.read (·.parametersAt word.2.parameters)
  let arguments ← (capturedArguments (parameters.map (·.2.name)) word.2.name texts).mapM
    fun (name, text) => Work.add (.argument { name := some name, value := .string text })
  Work.replace h (.call { actionWord := word.2.name, arguments, keyword := some key })
  bindCall index h
  (← Work.read fun g => do g.argumentsOf (← g.call h)).forM retypeArgument
  completeCall h

/-- The first action word whose pattern a sentence follows, and the texts at its placeholders. -/
def firstMatch? (words : List (Handle × ActionWord)) (sentence : String) :
    Option ((Handle × ActionWord) × List String) :=
  words.findSome? fun w => (Sentence.captures? w.2.name sentence).map (w, ·)

/-- The sentence that a plain step says. -/
def Step.sentence (s : Step) : String := Sentence.withoutKeyword s.value.display s.key

/-- Puts a call into the place of a step, if it follows the pattern of an action word. -/
def rewriteStep (words : List (Handle × ActionWord)) (index : List (String × Handle)) (h : Handle)
    (s : Step) : Work Bool := do
  match firstMatch? words s.sentence with
  | none => return false
  | some (word, texts) =>
    placeCall index h s.key word texts
    return true

/-- What is known while the steps of bodies are gone through: the last effective keyword of the
body, and the keywords under which action words have been called. -/
structure KeywordTrail where
  last : Option String := none
  used : List (Handle × String) := []

/-- Gives a call its effective keyword and its sentence. -/
def annotateCall (h : Handle) (c : Call) (seen : KeywordTrail) : Work KeywordTrail := do
  let effective := match c.keyword with
    | some a => if sentenceKeywords.contains a then some (effectiveKeyword a seen.last) else none
    | none => none
  Work.change (·.updateCall h fun c => { c with effective })
  let sentence ← Work.read fun g => do g.sentenceOf (← g.call h)
  Work.change (·.updateCall h fun c => { c with sentence := some sentence })
  return {
    last := effective.or seen.last
    used := match effective, c.target with
      | some a, some t => if a.isEmpty then seen.used else seen.used ++ [(t, a)]
      | _, _ => seen.used }

/-- Goes through a step of a body. -/
def normalizeStep (words : List (Handle × ActionWord)) (index : List (String × Handle))
    (seen : KeywordTrail) (h : Handle) : Work KeywordTrail := do
  match (← Work.read (·.node h)).content with
  | .step s =>
    if !sentenceKeywords.contains s.key then return seen
    if ← rewriteStep words index h s then
      annotateCall h (← Work.read (·.call h)) seen
    else
      let effective := effectiveKeyword s.key seen.last
      Work.change (·.updateStep h fun s => { s with effective := some effective })
      Work.warn (.unmatchedSentence s.value.display) h
      return { seen with last := some effective }
  | .call c => annotateCall h c seen
  | _ => return seen

/-- Rewrites the sentences of all bodies and computes what steps and action words say as sentences. -/
def normalizeSentences : Work Unit := do
  let words ← Work.read Graph.actionWords
  let index ← Work.read Graph.actionWordIndex
  words.forM fun (h, w) => Work.change (·.updateActionWord h fun w' =>
    { w' with pattern := some (Sentence.writtenPattern w.name) })
  let scenarios ← Work.read Graph.scenarios
  let bodies := scenarios.map (·.2.steps) ++ words.map (·.2.steps)
  let used ← bodies.foldlM (fun used steps => do
    return (← steps.foldlM (normalizeStep words index) { used }).used) []
  words.forM fun (h, _) => Work.change (·.updateActionWord h fun w =>
    { w with keywords := sortTexts (distinct ((used.filter (·.1 == h)).map (·.2))) })

end Actionbook
