import Actionbook.Proofs.Declarations
import Actionbook.Proofs.Captures
import Actionbook.Proofs.Literals

/-!
# Sentences that quote literals

A sentence restates a call if it quotes the texts that display what the call passes (`Quotes`). Once it has
become a call, it passes these texts read again (`Quotes.shownArguments`). So the two say the same if the
literals are conventional, and something else if one is not.

* `canonicalFrom_paraphrase`, `conventional_of_arranged`: bodies in which sentences restate calls.
* `quoted_literals_are_told`: what such bodies are shown as in a finished graph.
-/

namespace Actionbook

open Work (Ensures)

/-! ## The arguments at the places of parameters -/

/-- Of things with names, or without, the one that takes the parameter at a place. -/
def takenAt? {α : Type} (names : List String) (l : List (Option String × α)) (i : Nat) : Option α :=
  ((l.zip (slots names 0 [] (l.map (·.1)))).find? fun e => e.2 == some i).map (·.1.2)

/-- What a call passes for the parameter at a place. -/
def argumentAt? (names : List String) (args : List WrittenArgument) : Nat → Option Value :=
  takenAt? names (args.map fun a => (a.name, a.value))

/-- The text that is captured for the parameter at a place. -/
def textAt? (names : List String) (captured : List (String × String)) : Nat → Option String :=
  takenAt? names (captured.map fun c => (some c.1, c.2))

theorem argumentAt?_eq (names : List String) (args : List WrittenArgument) (i : Nat) :
    argumentAt? names args i = ((args.zip (slots names 0 [] (args.map (·.name)))).find? fun e =>
      e.2 == some i).map (·.1.value) := by
  rw [argumentAt?, takenAt?, List.map_map, List.zip_map_left, List.find?_map, Option.map_map]
  rfl

theorem textAt?_eq (names : List String) (captured : List (String × String)) (i : Nat) :
    textAt? names captured i =
      ((captured.zip (slots names 0 [] (captured.map fun c => some c.1))).find? fun e =>
        e.2 == some i).map (·.1.2) := by
  rw [textAt?, takenAt?, List.map_map, List.zip_map_left, List.find?_map, Option.map_map]
  rfl

/-- A captured text is passed as a literal of the type of its parameter. -/
theorem argumentAt?_spoken (names : List String) (types : List (Option String))
    (captured : List (String × String)) (i : Nat) :
    argumentAt? names (spokenArguments names types captured) i =
      (textAt? names captured i).map fun t => .ofCaptured t types[i]?.join := by
  rw [argumentAt?_eq, textAt?_eq, zip_spokenArguments, List.find?_map, Option.map_map, Option.map_map]
  refine Option.map_congr fun e he => ?_
  have hslot : e.2 = some i := by simpa using List.find?_some he
  simp only [Function.comp_apply, hslot, Option.bind_some]

/-- If every argument takes a parameter, they are shown parameter by parameter. -/
theorem shownArguments_of_taken {names : List String} {args : List WrittenArgument}
    (h : none ∉ slots names 0 [] (args.map (·.name))) : shownArguments names args =
      (List.range names.length).filterMap fun i =>
        (argumentAt? names args i).map fun v => (names.getD i "", v) := by
  have hrest : (placed names args).filter (fun e => e.1.2.isNone) = [] := by
    refine List.filter_eq_nil_iff.2 fun e he hnone => h ?_
    rw [← Option.isNone_iff_eq_none.1 hnone]
    exact (List.of_mem_zip (List.fst_mem_of_mem_zipIdx he)).2
  rw [shownArguments, arranged, hrest, List.append_nil, List.map_filterMap]
  refine List.filterMap_congr fun i hi => ?_
  have hfirst : ∀ l : List (WrittenArgument × Option Nat),
      l.find? (fun e => e.2 == some i) =
        (l.zipIdx.find? fun e => e.1.2 == some i).map Prod.fst := fun l => by
    conv => lhs; rw [← List.zipIdx_map_fst 0 l]
    rw [List.find?_map]
    rfl
  rw [argumentAt?_eq, hfirst, Option.map_map, Option.map_map]
  refine Option.map_congr fun e he => ?_
  have hslot : e.1.2 = some i := by simpa using List.find?_some he
  have hlt := List.mem_range.1 hi
  simp [hslot, hlt, List.getD_eq_getElem?_getD]

/-- All arguments are shown, and nothing else. -/
theorem mem_shownArguments {names : List String} {args : List WrittenArgument} {v : Value} :
    (∃ name, (name, v) ∈ shownArguments names args) ↔ ∃ a ∈ args, a.value = v := by
  constructor
  · rintro ⟨name, hm⟩
    obtain ⟨e, he, heq⟩ := List.mem_map.1 hm
    obtain ⟨-, rfl⟩ := Prod.mk.inj heq
    exact ⟨_, (List.of_mem_zip (List.fst_mem_of_mem_zipIdx (mem_of_mem_arranged he))).1, rfl⟩
  · rintro ⟨a, ha, rfl⟩
    obtain ⟨e, he, rfl, -⟩ := exists_arranged_of_mem names (fun a : WrittenArgument => a.name) ha
    exact ⟨_, List.mem_map.2 ⟨e, he, rfl⟩⟩

/-! ## Sentences for calls -/

/-- The captured texts display what a call passes: all of them take parameters, as all arguments of the
call do, at each parameter the text displays the argument, and the parameter has the type that the argument
shows. -/
structure Quotes (names : List String) (types : List (Option String))
    (captured : List (String × String)) (args : List WrittenArgument) : Prop where
  taken : none ∉ slots names 0 [] (captured.map fun c => some c.1)
  passed : none ∉ slots names 0 [] (args.map (·.name))
  displayed : ∀ i < names.length,
    textAt? names captured i = (argumentAt? names args i).map Value.display
  typed : ∀ i < names.length, ∀ v ∈ argumentAt? names args i, types[i]?.join = v.typeTag
  literal : ∀ a ∈ args, a.value.Literal

/-- **What is quoted is read again.** -/
theorem Quotes.shownArguments {names : List String} {types : List (Option String)}
    {captured : List (String × String)} {args : List WrittenArgument}
    (hq : Quotes names types captured args) :
    shownArguments names (spokenArguments names types captured) =
      (Actionbook.shownArguments names args).map fun e => (e.1, e.2.reread) := by
  have htaken : none ∉ slots names 0 [] ((spokenArguments names types captured).map (·.name)) := by
    rw [map_name_spokenArguments]
    exact hq.taken
  rw [shownArguments_of_taken htaken, shownArguments_of_taken hq.passed, List.map_filterMap]
  refine List.filterMap_congr fun i hi => ?_
  have hlt := List.mem_range.1 hi
  rw [argumentAt?_spoken, hq.displayed i hlt, Option.map_map, Option.map_map, Option.map_map]
  refine Option.map_congr fun v hv => ?_
  simp only [Function.comp_apply, hq.typed i hlt v hv, Value.reread]

namespace WrittenStep

variable {words : List String} {names : String → List String} {types : String → List (Option String)}
  {last : Option String} {s s' : WrittenStep}

/-- A sentence under a keyword restates a call under the same keyword. -/
inductive Restates (words : List String) (names : String → List String)
    (types : String → List (Option String)) : WrittenStep → WrittenStep → Prop
  | intro {key word : String} {value : Value} {texts : List String} {args : List WrittenArgument}
      (hk : sentenceKeywords.contains key = true)
      (hfit : firstFit? words (Sentence.withoutKeyword value.display key) = some (word, texts))
      (hq : Quotes (names word) (types word) (capturedArguments (names word) word texts) args) :
      Restates words names types (.plain key value) (.call word (some key) args)

/-- All that is passed is conventional. -/
def Conventional : WrittenStep → Prop
  | .plain _ _ => True
  | .call _ _ args => ∀ a ∈ args, a.value.Conventional

theorem Restates.spoken_eq (h : Restates words names types s s') : ∃ word keyword args captured,
    s' = .call word keyword args ∧ s.keyword? = s'.keyword? ∧
      Quotes (names word) (types word) captured args ∧
      s.spoken words names types =
        .call word keyword (spokenArguments (names word) (types word) captured) := by
  obtain ⟨hk, hfit, hq⟩ := h
  refine ⟨_, _, _, _, rfl, rfl, hq, ?_⟩
  simp only [spoken, hk, if_true, hfit]

/-- A sentence that restates a conventional call says the same. -/
theorem Restates.canonical_eq (h : Restates words names types s s') (hs' : s'.Conventional) :
    (s.spoken words names types).canonical names last =
      (s'.spoken words names types).canonical names last := by
  obtain ⟨word, keyword, args, captured, rfl, -, hq, hspoken⟩ := h.spoken_eq
  have hshown : shownArguments (names word) (spokenArguments (names word) (types word) captured) =
      shownArguments (names word) args := by
    refine hq.shownArguments.trans ((List.map_congr_left fun e he => ?_).trans (List.map_id _))
    obtain ⟨a, ha, hv⟩ := mem_shownArguments.1 ⟨e.1, he⟩
    exact Prod.ext rfl (hv ▸ (hq.literal a ha).reread_eq.2 (hs' a ha))
  rw [hspoken]
  simp only [spoken, canonical, hshown]

/-- A call is conventional if a sentence that restates it says the same. -/
theorem Restates.conventional (h : Restates words names types s s')
    (heq : ((s.spoken words names types).canonical names last).arranged =
      ((s'.spoken words names types).canonical names last).arranged) : s'.Conventional := by
  obtain ⟨word, keyword, args, captured, rfl, -, hq, hspoken⟩ := h.spoken_eq
  have harguments := congrArg (Json.member? "arguments") heq
  rw [hspoken, spoken, arguments_of_arranged, arguments_of_arranged, Option.some.injEq,
    Json.array.injEq, hq.shownArguments, List.map_map] at harguments
  intro a ha
  obtain ⟨name, hm⟩ := mem_shownArguments.2 ⟨a, ha, rfl⟩
  have hsame := List.map_inj_left.1 harguments _ hm
  simp only [Function.comp_apply, arranged_canonicalArgument, Json.array.injEq, List.cons.injEq] at hsame
  have hliteral := hq.literal a ha
  have hkind : a.value.kind ≠ .template := by
    rcases hliteral.kind with h | h | h <;> rw [h] <;> decide
  exact hliteral.reread_eq.1
    (Value.eq_of_arranged_canonical (Value.kind_ofCaptured _ _) hkind hsame.2.1)

end WrittenStep

/-! ## Bodies -/

section
variable {words : List String} {names : String → List String} {types : String → List (Option String)}
  {done : List (Option String)} {steps steps' : List WrittenStep}

/-- Two bodies with the same steps, but for sentences of the first one that restate calls. -/
abbrev Paraphrases (words : List String) (names : String → List String)
    (types : String → List (Option String)) : List WrittenStep → List WrittenStep → Prop :=
  List.Forall₂ fun s s' => s = s' ∨ s.Restates words names types s'

theorem keyword?_spoken (words : List String) (names : String → List String)
    (types : String → List (Option String)) (s : WrittenStep) :
    (s.spoken words names types).keyword? = s.keyword? := by
  unfold WrittenStep.spoken
  split
  · rfl
  · split
    · split <;> rfl
    · rfl

theorem keyword?_of_restates {s s' : WrittenStep} (h : s = s' ∨ s.Restates words names types s') :
    s.keyword? = s'.keyword? := by
  rcases h with rfl | h
  · rfl
  · obtain ⟨-, -, -, -, -, hkey, -⟩ := h.spoken_eq
    exact hkey

/-- Bodies say the same if the calls that are restated are conventional. -/
theorem canonicalFrom_paraphrase (h : Paraphrases words names types steps steps')
    (hc : ∀ e ∈ steps.zip steps', e.1 = e.2 ∨ e.2.Conventional) :
    canonicalFrom names done (steps.map (·.spoken words names types)) =
      canonicalFrom names done (steps'.map (·.spoken words names types)) := by
  induction h generalizing done with
  | nil => rfl
  | cons hs hrest ih =>
    rename_i s s' steps steps'
    rw [List.zip_cons_cons, List.forall_mem_cons] at hc
    have hsame : (s.spoken words names types).canonical names (trail done) =
        (s'.spoken words names types).canonical names (trail done) := by
      rcases hs with rfl | hs
      · rfl
      rcases hc.1 with heq | hc
      · cases (show s = s' from heq)
        rfl
      · exact hs.canonical_eq hc
    simp only [List.map_cons, canonicalFrom, hsame, keyword?_spoken, keyword?_of_restates hs, ih hc.2]

/-- The calls that are restated are conventional if the bodies say the same. -/
theorem conventional_of_arranged (h : Paraphrases words names types steps steps')
    (heq : (canonicalFrom names done (steps.map (·.spoken words names types))).map Json.arranged =
      (canonicalFrom names done (steps'.map (·.spoken words names types))).map Json.arranged) :
    ∀ e ∈ steps.zip steps', e.1 = e.2 ∨ e.2.Conventional := by
  induction h generalizing done with
  | nil => nofun
  | cons hs hrest ih =>
    rename_i s s' steps steps'
    simp only [List.map_cons, canonicalFrom, List.cons.injEq, keyword?_spoken,
      keyword?_of_restates hs] at heq
    rw [List.zip_cons_cons, List.forall_mem_cons]
    exact ⟨hs.imp_right fun hs => hs.conventional heq.1, ih heq.2⟩

end

/-! ## Documents -/

namespace Graph

variable {g g' m : Graph} {h h' k k' : Handle}

/-- The body of a scenario or an action word as it was written. -/
def Says (g : Graph) (k : Handle) (steps : List WrittenStep) : Prop :=
  ∃ d, g.definition? k = some d ∧ d.steps.map g.saying = steps.map some

/-- What a body is shown as, and the fingerprint of it. -/
def Displays (g : Graph) (k : Handle) (body : Json) : Prop :=
  g.canonicalSteps (g.body k) = .ok body ∧ g.bodyFingerprint k = .ok (fingerprint body)

/-- What becomes of sentences that restate calls when `g` becomes `g'`. -/
structure TellsQuotes (g g' : Graph) : Prop where
  /-- The call that takes the place of the sentence passes what is quoted, read again. -/
  passed : ∀ h h' said word keyword args, g.saying h = some said →
    g.saying h' = some (.call word keyword args) →
    said.Restates (g.words.map (·.2.name)) g'.formalNames g'.formalTypes (.call word keyword args) →
      ∃ args', g'.saying h = some (.call word keyword args') ∧
        g'.saying h' = some (.call word keyword args) ∧
        shownArguments (g'.formalNames word) args' =
          (shownArguments (g'.formalNames word) args).map fun e => (e.1, e.2.reread)
  /-- The text of a body that is fingerprinted is that of the body that it paraphrases, just if the calls
  that it restates are conventional. -/
  shown : ∀ k k' steps steps', g.Says k steps → g.Says k' steps' →
    Paraphrases (g.words.map (·.2.name)) g'.formalNames g'.formalTypes steps steps' →
      ∃ body body', g'.Displays k body ∧ g'.Displays k' body' ∧
        (body.canonicalText = body'.canonicalText ↔
          ∀ e ∈ steps.zip steps', e.1 = e.2 ∨ e.2.Conventional)

theorem isStep_of_saying {s : WrittenStep} (hs : g.saying h = some s) : g.IsStep h := by
  obtain ⟨σ, hσ, -⟩ := Option.map_eq_some_iff.1 hs
  exact isStep_of_step? hσ

/-- What a step says after a run. -/
theorem Enriched.saying_of_saying (he : g.Enriched m g') (hs : g.Sound) {s : WrittenStep}
    (hsay : g.saying h = some s) : g'.saying h =
      some (s.spoken (g.words.map (·.2.name)) g'.formalNames g'.formalTypes) := by
  obtain ⟨k, d, hd, hm⟩ := hs.exists_body (isStep_of_saying hsay)
  rw [he.saying_spoken hd hm, hsay, formalNames_congr he.follows.root he.follows.fixed, he.formalTypes]
  rfl

/-- What a body is shown as after a run. -/
theorem Enriched.displays (he : g.Enriched m g') (ht : g'.Told) {steps : List WrittenStep}
    (hbody : g.Says k steps) : g'.Displays k (canonicalBody g'.formalNames
      (steps.map (·.spoken (g.words.map (·.2.name)) g'.formalNames g'.formalTypes))) := by
  obtain ⟨d, hd, hsay⟩ := hbody
  have hd' : g'.definition? k = some d := by rw [he.follows.definition?, hd]
  have hsay' := he.map_saying hd hsay
  rw [← he.formalTypes, ← formalNames_congr he.follows.root he.follows.fixed] at hsay'
  have hbody := canonicalSteps_ok he.after.sound ht hd' hsay'
  obtain ⟨c, hc, hcd⟩ := Option.bind_eq_some_iff.1 hd'
  refine ⟨by rw [body_eq hd', hbody], ?_⟩
  simp only [bodyFingerprint, node_ok hc, hcd, hbody, bind, Except.bind]
  rfl

theorem Enriched.tellsQuotes (he : g.Enriched m g') (hs : g.Sound) (ht : g'.Told) :
    g.TellsQuotes g' where
  passed := by
    intro h h' said word keyword args hsaid hcall hrestates
    obtain ⟨_, _, _, captured, heq, -, hq, hspoken⟩ := hrestates.spoken_eq
    cases heq
    refine ⟨_, ?_, he.saying_of_saying hs hcall, hq.shownArguments⟩
    rw [he.saying_of_saying hs hsaid, hspoken]
  shown := by
    intro k k' steps steps' hbody hbody' hparaphrase
    refine ⟨_, _, he.displays ht hbody, he.displays ht hbody', fun htext => ?_, fun hc => ?_⟩
    · have harranged := Json.arranged_of_canonicalText (plain_canonicalBody _ _)
        (plain_canonicalBody _ _) htext
      rw [canonicalBody, canonicalBody, Json.arranged_array, Json.arranged_array,
        Json.array.injEq] at harranged
      exact conventional_of_arranged hparaphrase harranged
    · rw [canonicalBody, canonicalBody, canonicalFrom_paraphrase hparaphrase hc]

end Graph

/-- **Literals that sentences quote.** A number or a truth value of a document is what the text becomes that
displays it, for a parameter of the type that it shows, just if it is conventional. Accordingly, after a run
a sentence and the call that it restates pass the same, and bodies that differ in such steps only have the
same text to be fingerprinted, just if what is quoted is conventional. -/
theorem quoted_literals_are_told {text : String} {strict : Bool} {g : Graph}
    (hg : Design.readGraph text strict = .ok g) (r : Report) :
    (∀ e v, readValue e = .ok v → v.kind = .numeric ∨ v.kind = .boolean →
      (Value.ofCaptured v.display v.typeTag = v ↔ v.Conventional)) ∧
    Ensures enrich ⟨g, r⟩ fun _ s => g.TellsQuotes s.graph := by
  refine ⟨fun e v hv hkind => Value.Literal.reread_eq ⟨⟨e, hv⟩, .inr hkind⟩, ?_⟩
  obtain ⟨d, -, rfl⟩ := Design.exists_of_readGraph hg
  refine (Graph.ensures_enrich d.graph_sound).mono ?_
  rintro _ ⟨g', r'⟩ ⟨m, he⟩
  exact he.tellsQuotes d.graph_sound (Design.told he)

namespace Design

/-- A document with a call in the body of `u` that passes a number and a truth value, and a sentence in the
body of `v` that restates it. -/
abbrev quotingText : String := "<project><name>p</name><actionwords>
  <actionword><name>take \"n\" if \"b\"</name><parameters>
    <parameter><name>n</name></parameter><parameter><name>b</name></parameter></parameters></actionword>
  <actionword><name>u</name><steps><call><actionword>take \"n\" if \"b\"</actionword>
    <annotation>given</annotation><arguments>
      <argument><value><numericliteral>3</numericliteral></value></argument>
      <argument><value><booleanliteral>true</booleanliteral></value></argument>
    </arguments></call></steps></actionword>
  <actionword><name>v</name><steps><action><key>given</key>
    <value><stringliteral>take \"3\" if \"true\"</stringliteral></value></action></steps></actionword>
  </actionwords></project>"

/-- The document with literals that are not conventional. -/
abbrev garblingText : String := "<project><name>p</name><actionwords>
  <actionword><name>take \"n\" if \"b\"</name><parameters>
    <parameter><name>n</name></parameter><parameter><name>b</name></parameter></parameters></actionword>
  <actionword><name>u</name><steps><call><actionword>take \"n\" if \"b\"</actionword>
    <annotation>given</annotation><arguments>
      <argument><value><numericliteral>1e5</numericliteral></value></argument>
      <argument><value><booleanliteral>True</booleanliteral></value></argument>
    </arguments></call></steps></actionword>
  <actionword><name>v</name><steps><action><key>given</key>
    <value><stringliteral>take \"1e5\" if \"true\"</stringliteral></value></action></steps></actionword>
  </actionwords></project>"

/-- The call in the body of `u`. -/
abbrev quotedCall (number truth : String) : WrittenStep :=
  .call "take \"n\" if \"b\"" (some "given") [⟨none, .numeric number⟩, ⟨none, .boolean truth⟩]

/-- The sentence in the body of `v`. -/
abbrev quotingStep (sentence : String) : WrittenStep := .plain "given" (.string sentence)

/-- The design that such a document describes. -/
def quoting (number truth sentence : String) : Design where
  name := "p"
  description := ""
  scenarios := []
  actionWords := [
    untypedWord "take \"n\" if \"b\"" ["n", "b"] [],
    untypedWord "u" [] [quotedCall number truth],
    untypedWord "v" [] [quotingStep sentence]]

abbrev quoted : Design := quoting "3" "true" "take \"3\" if \"true\""

abbrev garbled : Design := quoting "1e5" "True" "take \"1e5\" if \"true\""

set_option maxRecDepth 4000 in
theorem ofText_quoted : ofText quotingText = .ok quoted :=
  ofText_eq_ok (by decide +kernel)

set_option maxRecDepth 4000 in
theorem ofText_garbled : ofText garblingText = .ok garbled :=
  ofText_eq_ok (by decide +kernel)

theorem readGraph_quoted : readGraph quotingText true = .ok quoted.graph :=
  readGraph_eq_ok.2 ⟨_, ofText_quoted, fun _ => by decide, rfl⟩

theorem readGraph_garbled : readGraph garblingText true = .ok garbled.graph :=
  readGraph_eq_ok.2 ⟨_, ofText_garbled, fun _ => by decide, rfl⟩

end Design

theorem literal_three : (Value.numeric "3").Literal :=
  ⟨⟨.make "numericliteral" "3" [], rfl⟩, by decide⟩

theorem literal_true : (Value.boolean "true").Literal :=
  ⟨⟨.make "booleanliteral" "true" [], rfl⟩, by decide⟩

theorem quoted_literals_of_quoted_are_told :
    Design.readGraph Design.quotingText true = .ok Design.quoted.graph ∧
    Ensures enrich ⟨Design.quoted.graph, {}⟩ fun _ s => ∃ body body', s.graph.Displays 8 body ∧
      s.graph.Displays 4 body' ∧ body.canonicalText = body'.canonicalText := by
  refine ⟨Design.readGraph_quoted, ?_⟩
  have hformals : Ensures enrich ⟨Design.quoted.graph, {}⟩ fun _ s =>
      decide (s.graph.formalNames "take \"n\" if \"b\"" = ["n", "b"] ∧
        s.graph.formalTypes "take \"n\" if \"b\"" = [some "int", some "bool"]) = true :=
    Work.ensures_of_check (by decide +kernel)
  refine ((quoted_literals_are_told Design.readGraph_quoted {}).2.and hformals).mono fun _ s ⟨h, hs⟩ => ?_
  obtain ⟨hnames, htypes⟩ := of_decide_eq_true hs
  have hquotes : Quotes ["n", "b"] [some "int", some "bool"] [("n", "3"), ("b", "true")]
      [⟨none, .numeric "3"⟩, ⟨none, .boolean "true"⟩] :=
    { taken := by decide
      passed := by decide
      displayed := by decide
      typed := by decide
      literal := by simp [literal_three, literal_true] }
  have hfit : firstFit? (Design.quoted.graph.words.map (·.2.name)) (Sentence.withoutKeyword
      (Value.string "take \"3\" if \"true\"").display "given") =
        some ("take \"n\" if \"b\"", ["3", "true"]) := by
    rw [Design.names_words]
    decide +kernel
  have hcaptured : capturedArguments ["n", "b"] "take \"n\" if \"b\"" ["3", "true"] =
      [("n", "3"), ("b", "true")] := by decide +kernel
  rw [← hcaptured, ← hnames, ← htypes] at hquotes
  obtain ⟨body, body', hbody, hbody', htext⟩ := h.shown 8 4 _ _ ⟨_, rfl, rfl⟩ ⟨_, rfl, rfl⟩
    (.cons (.inr (.intro (by decide) hfit hquotes)) .nil)
  refine ⟨body, body', hbody, hbody', htext.2 ?_⟩
  simp only [List.zip_cons_cons, List.zip_nil_left, List.forall_mem_singleton]
  refine .inr fun a ha => ?_
  rcases List.mem_cons.1 ha with rfl | ha
  · exact literal_three.reread_eq.1 (by decide)
  · rw [List.mem_singleton.1 ha]
    exact literal_true.reread_eq.1 (by decide)

/-- **A literal that is not conventional is read again as another value**, and bodies that differ in a
sentence that restates a call only have different fingerprints. -/
theorem quoted_literals_may_differ :
    (readValue (.make "numericliteral" "1e5" []) = .ok (.numeric "1e5") ∧
      Value.ofCaptured (Value.numeric "1e5").display (Value.numeric "1e5").typeTag ≠ .numeric "1e5") ∧
    (readValue (.make "booleanliteral" "True" []) = .ok (.boolean "True") ∧
      Value.ofCaptured (Value.boolean "True").display (Value.boolean "True").typeTag ≠
        .boolean "True") ∧
    Design.readGraph Design.garblingText true = .ok Design.garbled.graph ∧
    Ensures enrich ⟨Design.garbled.graph, {}⟩ fun _ s =>
      decide ((s.graph.state? 5).map (fun x => x.arguments.map (·.2.value)) =
          some [.numeric "1e5", .boolean "True"] ∧
        (s.graph.state? 9).map (fun x => x.arguments.map (·.2.value)) =
          some [.string "1e5", .boolean "true"] ∧
        s.graph.formalTypes "take \"n\" if \"b\"" = [some "float", some "bool"] ∧
        (s.graph.bodyFingerprint 4).toOption.isSome ∧ (s.graph.bodyFingerprint 8).toOption.isSome ∧
        (s.graph.bodyFingerprint 8).toOption ≠ (s.graph.bodyFingerprint 4).toOption) = true :=
  ⟨⟨rfl, by decide⟩, ⟨rfl, by decide⟩, Design.readGraph_garbled,
    Work.ensures_of_check (by decide +kernel)⟩

end Actionbook
