import Actionbook.Proofs.Layers

/-!
# What sentences become

`WrittenStep.spoken` says which call takes the place of a sentence: that of the first action word whose
pattern it follows, with the captured texts as literals of the types of the parameters that they are for.
It needs the names of the action words and the names and types of their parameters only.

* `Enriched.saying_spoken`: a run replaces sentences by just these calls.
* `Enriched.saying`: it changes no step of a body if none is a sentence that follows a pattern.
-/

namespace Actionbook

/-- The arguments that captured texts are, for parameters with the given names and types. -/
def spokenArguments (names : List String) (types : List (Option String))
    (captured : List (String × String)) : List WrittenArgument :=
  (captured.zip (slots names 0 [] (captured.map fun c => some c.1))).map fun e =>
    ⟨some e.1.1, .ofCaptured e.1.2 (e.2.bind fun i => types[i]?.join)⟩

/-- The first of some names whose pattern a sentence follows, and the texts at its placeholders. -/
def firstFit? (words : List String) (sentence : String) : Option (String × List String) :=
  words.findSome? fun word => (Sentence.captures? word sentence).map (word, ·)

/-- What a step says where sentences have become calls. -/
def WrittenStep.spoken (words : List String) (names : String → List String)
    (types : String → List (Option String)) : WrittenStep → WrittenStep
  | .call word keyword args => .call word keyword args
  | .plain key value =>
    if sentenceKeywords.contains key then
      match firstFit? words (Sentence.withoutKeyword value.display key) with
      | some (word, texts) => .call word (some key)
          (spokenArguments (names word) (types word) (capturedArguments (names word) word texts))
      | none => .plain key value
    else .plain key value

/-- What a definition says where sentences have become calls. -/
def WrittenDefinition.spoken (words : List String) (names : String → List String)
    (types : String → List (Option String)) (w : WrittenDefinition) : WrittenDefinition :=
  { w with steps := w.steps.map (·.spoken words names types) }

theorem firstFit?_eq_none {words : List String} {sentence : String} :
    firstFit? words sentence = none ↔ ∀ name ∈ words, Sentence.captures? name sentence = none := by
  simp [firstFit?, List.findSome?_eq_none_iff]

/-- A step that is no sentence of an action word is not replaced. -/
theorem WrittenStep.spoken_eq_self {words : List String} {names : String → List String}
    {types : String → List (Option String)} {s : WrittenStep}
    (hq : ∀ key value, s = .plain key value → sentenceKeywords.contains key = true →
      ∀ name ∈ words, Sentence.captures? name (Sentence.withoutKeyword value.display key) = none) :
    s.spoken words names types = s := by
  cases s with
  | call word keyword args => rfl
  | plain key value =>
    by_cases hk : sentenceKeywords.contains key = true
    · simp only [spoken, hk, if_true, firstFit?_eq_none.2 (hq key value rfl hk)]
    · simp only [spoken, hk, Bool.false_eq_true, if_false]

/-- A definition without sentences stays. -/
theorem WrittenDefinition.spoken_eq_self {words : List String} {names : String → List String}
    {types : String → List (Option String)} {w : WrittenDefinition}
    (hplain : ∀ key value, .plain key value ∈ w.steps → sentenceKeywords.contains key = false) :
    w.spoken words names types = w := by
  have hsteps : w.steps.map (·.spoken words names types) = w.steps := by
    refine (List.map_congr_left fun s hs => ?_).trans (List.map_id _)
    refine WrittenStep.spoken_eq_self fun key value heq hk => ?_
    rw [hplain key value (heq ▸ hs)] at hk
    cases hk
  rw [spoken, hsteps]

/-- Which word a sentence fits first depends on the names only. -/
theorem findSome?_captures {β : Type} {f : Handle × ActionWord → β} (name : β → String)
    (hname : ∀ w, name (f w) = w.2.name) (words : List (Handle × ActionWord)) (sentence : String) :
    (words.map f).findSome? (fun b => (Sentence.captures? (name b) sentence).map (b, ·)) =
      (firstMatch? words sentence).map fun e => (f e.1, e.2) := by
  induction words with
  | nil => rfl
  | cons w words ih =>
    rw [List.map_cons, firstMatch?, List.findSome?_cons, List.findSome?_cons, hname]
    cases Sentence.captures? w.2.name sentence with
    | none => exact ih
    | some texts => rfl

theorem firstMatch?_names {words : List (Handle × ActionWord)} (sentence : String) :
    firstFit? (words.map (·.2.name)) sentence =
      (firstMatch? words sentence).map fun e => (e.1.2.name, e.2) :=
  findSome?_captures id (fun _ => rfl) words sentence

/-- The word that a sentence fits first is the first of its name. -/
theorem find?_of_firstMatch? {words : List (Handle × ActionWord)} {sentence : String}
    {word : Handle × ActionWord} {texts : List String}
    (hm : firstMatch? words sentence = some (word, texts)) :
    words.find? (·.2.name == word.2.name) = some word := by
  induction words with
  | nil => cases hm
  | cons w words ih =>
    rw [firstMatch?, List.findSome?_cons] at hm
    rw [List.find?_cons]
    cases hc : Sentence.captures? w.2.name sentence with
    | some t =>
      rw [hc] at hm
      cases hm
      simp
    | none =>
      rw [hc] at hm
      have hne : (w.2.name == word.2.name) = false := by
        -- a word of the same name would have fitted before
        obtain ⟨w', hw', hfit⟩ := List.exists_of_findSome?_eq_some hm
        obtain ⟨t, ht, heq⟩ := Option.map_eq_some_iff.1 hfit
        cases heq
        simp only [beq_eq_false_iff_ne]
        intro e
        rw [e, ht] at hc
        cases hc
      rw [hne]
      exact ih hm

theorem Value.ofCaptured_none (text : String) : Value.ofCaptured text none = .string text := by
  simp [ofCaptured]

namespace Graph

variable {g g' m : Graph} {h k : Handle} {last : Option String} {σ τ : StepState} {y : CallState}

theorem target?_of_firstMatch? {sentence : String} {word : Handle × ActionWord} {texts : List String}
    (hm : firstMatch? g.words sentence = some (word, texts)) : g.target? word.2.name = some word.1 := by
  rw [target?, find?_of_firstMatch? hm]
  rfl

/-- The types of the parameters of the first declared action word of a name. -/
def formalTypes (g : Graph) (name : String) : List (Option String) :=
  (g.formalsOf name).map (·.2.type)

/-- What a captured argument says once it is retyped. -/
theorem writtenArgument_retyped (g : Graph) (e : Handle × Argument) :
    StepState.writtenArgument (e.1, g.retyped e.2) = ⟨e.2.name,
      ((e.2.parameter.bind g.parameter?).map fun p =>
        Value.ofCaptured e.2.value.text p.type).getD e.2.value⟩ := by
  unfold StepState.writtenArgument retyped
  cases e.2.parameter.bind g.parameter? <;> rfl

/-- Captured arguments that are bound and given their types. -/
theorem written_retyped {formals : List (Handle × Parameter)} {captured : List (String × String)}
    {args : List (Handle × Argument)} (hn : (formals.map (·.1)).Nodup)
    (hp : ∀ p ∈ formals, g.parameter? p.1 = some p.2)
    (hargs : args.map (·.2) = captured.map capturedArgument) :
    (assign formals 0 [] args).map (fun e => StepState.writtenArgument (e.1, g.retyped e.2)) =
      spokenArguments (formals.map (·.2.name)) (formals.map (·.2.type)) captured := by
  have hbound : (assign formals 0 [] args).map (·.2.parameter) = (slots (formals.map (·.2.name)) 0 []
      (args.map (·.2.name))).map fun s => s.bind fun i => formals[i]?.map (·.1) :=
    map_parameter_assign hn (fun _ _ _ => by simp) 0 args
  have hkept : (assign formals 0 [] args).map (·.2.cleared) = captured.map capturedArgument := by
    have hcleared : ((assign formals 0 [] args).map fun e => (e.1, e.2.cleared)).map Prod.snd =
        (args.map fun e => (e.1, e.2.cleared)).map Prod.snd :=
      congrArg (List.map Prod.snd) (map_cleared_assign 0 [] args)
    rw [List.map_map, List.map_map] at hcleared
    have hcaptured := congrArg (List.map Argument.cleared) hargs
    rw [List.map_map, List.map_map] at hcaptured
    exact hcleared.trans hcaptured
  have hnames : args.map (·.2.name) = captured.map fun c => some c.1 := by
    have h := congrArg (List.map Argument.name) hargs
    rw [List.map_map, List.map_map] at h
    exact h
  rw [hnames] at hbound
  -- an argument is what it is apart from its binding, and its binding
  have hsplit : (assign formals 0 [] args).map (fun e => (e.2.cleared, e.2.parameter)) =
      (captured.zip (slots (formals.map (·.2.name)) 0 [] (captured.map fun c => some c.1))).map
        fun e => (capturedArgument e.1, e.2.bind fun i => formals[i]?.map (·.1)) := by
    rw [← List.zip_map', hkept, hbound, List.zip_map]
    rfl
  have hread : (assign formals 0 [] args).map
      (fun e => StepState.writtenArgument (e.1, g.retyped e.2)) =
      ((assign formals 0 [] args).map fun e => (e.2.cleared, e.2.parameter)).map fun e =>
        ⟨e.1.name, ((e.2.bind g.parameter?).map fun p =>
          Value.ofCaptured e.1.value.text p.type).getD e.1.value⟩ := by
    rw [List.map_map]
    exact List.map_congr_left fun e _ => writtenArgument_retyped g e
  rw [hread, hsplit, List.map_map, spokenArguments]
  refine List.map_congr_left fun e _ => ?_
  obtain ⟨⟨name, text⟩, slot⟩ := e
  -- the type of the parameter that the argument is bound to, if there is one
  let shown : Option (Option String) := (slot.bind (formals[·]?)).map (·.2.type)
  have hleft : (((slot.bind fun i => formals[i]?.map (·.1)).bind g.parameter?).map fun p =>
      Value.ofCaptured text p.type) = shown.map (Value.ofCaptured text) := by
    cases slot with
    | none => rfl
    | some i =>
      cases hi : formals[i]? with
      | none => simp [shown, hi]
      | some p => simp [shown, hi, hp p (List.mem_of_getElem? hi)]
  have hright : (slot.bind fun i => (formals.map (·.2.type))[i]?.join) = shown.join := by
    cases slot with
    | none => rfl
    | some i =>
      simp only [shown, Option.bind_some, List.getElem?_map]
  have hshown : (shown.map (Value.ofCaptured text)).getD (.string text) =
      .ofCaptured text shown.join := by
    cases shown with
    | none => exact (Value.ofCaptured_none text).symm
    | some t => rfl
  rw [← hleft, ← hright] at hshown
  exact congrArg (WrittenArgument.mk (some name)) hshown

/-- What the call says that takes the place of a sentence. -/
theorem Placed.saying_spoken {s : Step} {word : Handle × ActionWord} {texts : List String}
    (hs : g.Sound) (hk : sentenceKeywords.contains s.key = true)
    (hm : firstMatch? g.words s.sentence = some (word, texts)) (hy : g.Placed word s.key texts y) :
    (StepState.call y).saying = (StepState.plain s).saying.spoken (g.words.map (·.2.name))
      g.formalNames g.formalTypes := by
  have htarget := target?_of_firstMatch? hm
  have hformals : g.formalsOf word.2.name = g.formals word.1 := by rw [formalsOf, htarget]; rfl
  have hfirst : firstFit? (g.words.map (·.2.name)) (Sentence.withoutKeyword s.value.display s.key) =
      some (word.2.name, texts) := by
    rw [firstMatch?_names]
    exact congrArg (Option.map fun e => (e.1.2.name, e.2)) hm
  have hsaid : (StepState.plain s).saying.spoken (g.words.map (·.2.name)) g.formalNames
      g.formalTypes = .call word.2.name (some s.key) (spokenArguments (g.formalNames word.2.name)
        (g.formalTypes word.2.name) (capturedArguments (g.formalNames word.2.name) word.2.name
          texts)) := by
    simp only [StepState.saying, WrittenStep.spoken, hk, if_true, hfirst]
  rw [hsaid, StepState.saying, hy.actionWord, hy.keyword]
  refine congrArg (WrittenStep.call _ _) ?_
  obtain ⟨args, hargs, hc⟩ := hy
  rw [htarget] at hc
  have hexplicit := ((explicit_start hargs word.2.name s.key).bindTo g.formals
    (some word.1)).retyped g
  -- all arguments have been captured, so that all of them have been written
  have hall : y.writtenArguments = (assign (g.formals word.1) 0 [] args).map
      fun e => StepState.writtenArgument (e.1, g.retyped e.2) := by
    rw [hc.writtenArguments, CallState.writtenArguments,
      List.filter_eq_self.2 fun e he => by rw [hexplicit e he]; rfl]
    exact List.map_map
  rw [formalNames, formalTypes, hformals]
  exact hall.trans (written_retyped (hs.nodup_target htarget)
    (fun p hp => parameter?_of_formalsOf (hformals ▸ hp)) hargs)

/-- **What a run makes of a step** says what the step does with its sentence spoken out. -/
theorem Enriches.saying_spoken (hs : m.Sound) (he : m.Enriches last σ τ) :
    τ.saying = σ.saying.spoken (m.words.map (·.2.name)) m.formalNames m.formalTypes := by
  cases he with
  | other hk => simp only [StepState.saying, WrittenStep.spoken, hk, Bool.false_eq_true, if_false]
  | sentence hk hm =>
    rename_i s
    have hfirst : firstFit? (m.words.map (·.2.name))
        (Sentence.withoutKeyword s.value.display s.key) = none := by
      rw [firstMatch?_names]
      exact congrArg (Option.map fun e => (e.1.2.name, e.2)) hm
    simp only [StepState.saying, WrittenStep.spoken, hk, if_true, hfirst]
  | placed hk hm hy =>
    have hplaced := hy.saying_spoken hs hk hm
    exact hplaced
  | call hy =>
    rename_i x y sentence
    show WrittenStep.call y.call.actionWord y.call.keyword y.writtenArguments =
      .call x.call.actionWord x.call.keyword x.writtenArguments
    rw [hy.actionWord, hy.keyword, hy.writtenArguments, CallState.actionWord_bindTo,
      CallState.keyword_bindTo, CallState.writtenArguments_bindTo]

theorem Enriched.saying_spoken (he : g.Enriched m g') {d : Definition}
    (hd : g.definition? k = some d) (hm : h ∈ d.steps) : g'.saying h =
      (g.saying h).map (·.spoken (g.words.map (·.2.name)) g.formalNames m.formalTypes) := by
  obtain ⟨last, σ, τ, hσ, hτ, hstep⟩ := he.exists_enriches hd hm
  rw [Graph.saying, Graph.saying, hσ, hτ, ← map_name_words_congr he.before.root he.before.fixed,
    ← formalNames_congr he.before.root he.before.fixed]
  exact congrArg some (hstep.saying_spoken he.before.sound)

/-- What a body says after a run. -/
theorem Enriched.map_saying (he : g.Enriched m g') {d : Definition} (hd : g.definition? k = some d)
    {steps : List WrittenStep} (hsteps : d.steps.map g.saying = steps.map some) :
    d.steps.map g'.saying =
      (steps.map (·.spoken (g.words.map (·.2.name)) g.formalNames m.formalTypes)).map some := by
  have hsay : d.steps.map g'.saying = (d.steps.map g.saying).map
      (Option.map (·.spoken (g.words.map (·.2.name)) g.formalNames m.formalTypes)) := by
    rw [List.map_map]
    exact List.map_congr_left fun h hh => he.saying_spoken hd hh
  rw [hsay, hsteps, List.map_map, List.map_map]
  rfl

/-- The types of parameters are known before sentences are looked at. -/
theorem Enriched.formalTypes (he : g.Enriched m g') : g'.formalTypes = m.formalTypes := by
  funext name
  rw [Graph.formalTypes, Graph.formalTypes, formalsOf, formalsOf, he.after.target?, he.formals]

/-- **A run on a graph that says no sentence of an action word** leaves all steps as they were
written. -/
theorem Enriched.saying (he : g.Enriched m g') {d : Definition} (hd : g.definition? k = some d)
    (hm : h ∈ d.steps) (hq : ∀ s, g.plain? h = some s → sentenceKeywords.contains s.key = true →
      firstMatch? g.words s.sentence = none) : g'.saying h = g.saying h := by
  rw [he.saying_spoken hd hm]
  cases hσ : g.step? h with
  | none => rw [Graph.saying, hσ]; rfl
  | some σ =>
    rw [Graph.saying, hσ]
    refine congrArg some (WrittenStep.spoken_eq_self fun key value hs hk => ?_)
    cases σ with
    | call x => cases hs
    | plain s =>
      cases hs
      exact firstMatch?_eq_none.1 (hq s (plain?_of_step? hσ) hk)

end Graph

end Actionbook
