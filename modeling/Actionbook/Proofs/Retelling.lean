import Actionbook.Proofs.Captures
import Actionbook.Proofs.Declarations
import Actionbook.Proofs.Reruns

/-!
# Documents with another sentence

Two documents differ in what one plain step of an action word says (`Design.retold`). Types do not depend
on that: the graphs of both are stripped to the same (`Design.stripped_graph_retold`), so that a parameter
has the same type in both after a run. Where both sentences become calls of one word, the calls are
fingerprinted differently as soon as the texts captured for a parameter are told apart
(`said_texts_are_told`); the text at a placeholder that names no parameter is dropped
(`said_text_may_be_lost`).
-/

namespace Actionbook

open Work (Ensures)

/-! ## Another sentence -/

/-- The step with another value, if it is no call. -/
def WrittenStep.retold (value : Value) : WrittenStep → WrittenStep
  | .plain key _ => .plain key value
  | .call word keyword args => .call word keyword args

/-- The definition with another value in the step at the place `j`. -/
def WrittenDefinition.retold (j : Nat) (value : Value) (w : WrittenDefinition) : WrittenDefinition :=
  { w with steps := w.steps.modify j (·.retold value) }

/-- The design with another value in the step at the place `j` of the action word at the place `i`. -/
def Design.retold (d : Design) (i j : Nat) (value : Value) : Design :=
  { d with actionWords := d.actionWords.modify i (·.retold j value) }

theorem map_modify_eq {α β : Type} {f : α → α} {g : α → β} {l : List α} {j : Nat}
    (h : ∀ a, l[j]? = some a → g (f a) = g a) : (l.modify j f).map g = l.map g := by
  refine List.ext_getElem? fun k => ?_
  rw [List.getElem?_map, List.getElem?_map, List.getElem?_modify]
  cases ha : l[k]? with
  | none => rfl
  | some a =>
    by_cases hk : j = k
    · subst hk
      simp [h a ha]
    · simp [hk]

/-- Where one part is laid out to the same but for what steps say, all parts are. -/
theorem layOutAll_modify {α : Type} {contents : Nat → α → List Content} {f : α → α}
    (hf : ∀ place a, (contents place (f a)).map Content.stripped =
      (contents place a).map Content.stripped) (i place : Nat) (l : List α) :
    (layOutAll contents place (l.modify i f)).1 = (layOutAll contents place l).1 ∧
      (layOutAll contents place (l.modify i f)).2.map Content.stripped =
        (layOutAll contents place l).2.map Content.stripped := by
  induction l generalizing i place with
  | nil => simp
  | cons a l ih =>
    cases i with
    | zero =>
      have hlen : (contents place (f a)).length = (contents place a).length := by
        simpa using congrArg List.length (hf place a)
      simp only [List.modify_zero_cons, layOutAll, hlen, List.map_append, hf, and_self]
    | succ i =>
      obtain ⟨htops, hnodes⟩ := ih i (place + (contents place a).length)
      simp only [List.modify_succ_cons, layOutAll, htops, hnodes, List.map_append, and_self]

theorem WrittenStep.stripped_retold (value : Value) (place : Nat) (s : WrittenStep) :
    ((s.retold value).contents place).map Content.stripped = (s.contents place).map Content.stripped := by
  cases s <;> rfl

theorem WrittenDefinition.stripped_retold (j : Nat) (value : Value) (place : Nat)
    (w : WrittenDefinition) : ((w.retold j value).wordContents place).map Content.stripped =
      (w.wordContents place).map Content.stripped := by
  obtain ⟨htops, hnodes⟩ := layOutAll_modify (WrittenStep.stripped_retold value) j
    (place + 1 + w.parameters.length) w.steps
  simp only [wordContents, contents, retold, htops, hnodes, List.map_append, List.map_cons]

namespace Design

variable {d : Design} {i j : Nat} {value : Value}

theorem stripped_graph_retold : (d.retold i j value).graph.stripped = d.graph.stripped := by
  have hcontents : (d.retold i j value).contents.map Content.stripped =
      d.contents.map Content.stripped := by
    obtain ⟨htops, hnodes⟩ := layOutAll_modify (WrittenDefinition.stripped_retold j value) i
      (1 + (layOutAll WrittenScenario.contents 1 d.scenarios).2.length) d.actionWords
    simp only [contents, retold, htops, hnodes, List.map_append, List.map_cons, List.cons_append]
  have hnodes : ∀ e : Design, e.graph.stripped =
      { nodes := ((e.contents.map Content.stripped).map fun content => { content }).toArray,
        root := some 0 } := by
    intro e
    rw [Graph.stripped, graph, List.map_toArray, List.map_map, List.map_map]
    rfl
  rw [hnodes, hnodes, hcontents]

end Design

/-! ## Graphs that are stripped to the same -/

namespace Graph

variable {g g' : Graph}

/-- Types do not depend on what plain steps say: the parameters of all words are the same after runs on
graphs of which one retains the other. -/
theorem Retains.formalsOf_eq {m m' a a' : Graph} (hr : g.Retains g') (hs : g.Sound)
    (he : g.Enriched m a) (he' : g'.Enriched m' a') : a'.formalsOf = a.formalsOf := by
  have hparameter : a'.parameter? = a.parameter? := hr.types_eq hs he.types he'.types
  have hdefinition : ∀ t, a'.definition? t = a.definition? t := fun t => by
    rw [he'.follows.definition?, he.follows.definition?, hr.definition?]
  have htarget : a'.target? = a.target? := by
    rw [he'.follows.target?, he.follows.target?, hr.target?]
  have hformals : a'.formals = a.formals := by
    funext t
    rw [formals, formals, hparameter, hdefinition]
  funext name
  rw [formalsOf, formalsOf, htarget, hformals]

/-! ## Places in bodies -/

/-- The step at the place `j` of the action word at the place `i` has the handle `h`; it is shown as `step`,
and the body of the word as `body`. -/
structure SaysAt (g : Graph) (i j : Nat) (h : Handle) (step body : Json) : Prop where
  word : ∃ w, g.words[i]? = some w ∧ w.2.steps[j]? = some h ∧ g.canonicalSteps w.2.steps = .ok body
  step : g.canonicalStep h = .ok step

/-- What a body is shown as tells what its steps are shown as. -/
theorem SaysAt.exists_items {i j : Nat} {h : Handle} {step body : Json}
    (hshown : g.SaysAt i j h step body) : ∃ items, body = .array items ∧ items[j]? = some step := by
  obtain ⟨⟨w, -, hh, hbody⟩, hstep⟩ := hshown
  obtain ⟨items, hitems, hbody⟩ := bind_eq_ok.1 hbody
  cases hbody
  exact ⟨items, rfl, getElem?_of_mapM_ok hitems hh hstep⟩

/-- What is shown of a step in a finished graph, and of the body around it. -/
theorem Told.exists_saysAt (hs : g.Sound) (ht : g.Told) {i j : Nat} {w : Handle × ActionWord}
    {h : Handle} {steps : List WrittenStep} (hw : g.words[i]? = some w)
    (hh : w.2.steps[j]? = some h) (hsay : w.2.steps.map g.saying = steps.map some) :
    ∃ s last, steps[j]? = some s ∧ g.saying h = some s ∧
      g.SaysAt i j h (s.canonical g.formalNames last) (canonicalBody g.formalNames steps) := by
  have hd := definition?_of_actionWord? (mem_words (List.mem_of_getElem? hw))
  obtain ⟨done, rest, hsplit⟩ := List.append_of_mem (List.mem_of_getElem? hh)
  have hsaid := congrArg (·[j]?) hsay
  simp only [List.getElem?_map, hh, Option.map_some] at hsaid
  obtain ⟨s, hs', hsaying⟩ := Option.map_eq_some_iff.1 hsaid.symm
  obtain ⟨σ, hσ, hσs⟩ := Option.map_eq_some_iff.1 hsaying.symm
  have hstep := canonicalStep_ok hs ht hd hsplit hσ
  rw [hσs] at hstep
  exact ⟨s, _, hs', hsaying.symm, ⟨w, hw, hh, canonicalSteps_ok hs ht hd hsay⟩, hstep⟩

/-- If the step is shown otherwise, the body is, also in the text that is fingerprinted. -/
theorem SaysAt.canonicalText_ne {i j : Nat} {h h' : Handle} {step step' body body' : Json}
    (hshown : g.SaysAt i j h step body) (hshown' : g'.SaysAt i j h' step' body') (hs : step.Plain)
    (hs' : step'.Plain) (hb : body.Plain) (hb' : body'.Plain) (hne : step.arranged ≠ step'.arranged) :
    step.canonicalText ≠ step'.canonicalText ∧ body.canonicalText ≠ body'.canonicalText := by
  refine ⟨fun h => hne (Json.arranged_of_canonicalText hs hs' h), fun h => hne ?_⟩
  have harranged := Json.arranged_of_canonicalText hb hb' h
  obtain ⟨items, rfl, hitem⟩ := hshown.exists_items
  obtain ⟨items', rfl, hitem'⟩ := hshown'.exists_items
  rw [Json.arranged_array, Json.arranged_array, Json.array.injEq] at harranged
  have hat := congrArg (·[j]?) harranged
  simpa only [List.getElem?_map, hitem, hitem', Option.map_some, Option.some.injEq] using hat

/-- A body tells what its steps are shown as. -/
theorem SaysAt.step_eq {i j : Nat} {h h' : Handle} {step step' body : Json}
    (hshown : g.SaysAt i j h step body) (hshown' : g'.SaysAt i j h' step' body) : step = step' := by
  obtain ⟨items, rfl, hitem⟩ := hshown.exists_items
  obtain ⟨items', hitems, hitem'⟩ := hshown'.exists_items
  cases hitems
  exact Option.some.inj (hitem.symm.trans hitem')

/-- The word that the step at the place `j` of the action word at the place `i` calls. -/
def calledAt? (g : Graph) (i j : Nat) : Option String :=
  ((g.words[i]?.bind (·.2.steps[j]?)).bind g.content?).bind Content.callee?

theorem SaysAt.exists_call {i j : Nat} {h : Handle} {step body : Json} {word : String}
    (hshown : g.SaysAt i j h step body) (hword : g.calledAt? i j = some word) :
    ∃ c, g.content? h = some (.call c) ∧ c.actionWord = word := by
  obtain ⟨w, hw, hh, -⟩ := hshown.word
  rw [calledAt?, hw, Option.bind_some, hh, Option.bind_some, Option.bind_eq_some_iff] at hword
  obtain ⟨content, hcontent, hcallee⟩ := hword
  cases content with
  | call c =>
    cases hcallee
    exact ⟨c, hcontent, rfl⟩
  | _ => cases hcallee

/-- The texts at a placeholder that names a parameter of an action word are told apart. -/
def TellsApart (g : Graph) (word : String) (texts texts' : List String) : Prop :=
  ∃ e ∈ (Sentence.placeholders word).zip (texts.zip texts'),
    ∃ p ∈ (g.formalsOf word).find? (·.2.name == e.1), Value.ToldApart p.2.type e.2.1 e.2.2

instance (g : Graph) (word : String) (texts texts' : List String) :
    Decidable (g.TellsApart word texts texts') :=
  inferInstanceAs (Decidable (∃ e ∈ _, ∃ p ∈ List.find? _ _, _))

/-- The texts at all placeholders that name parameters of an action word are the same. -/
def TakesAlike (g : Graph) (word : String) (texts texts' : List String) : Prop :=
  ∀ e ∈ (Sentence.placeholders word).zip (texts.zip texts'), e.1 ∈ g.formalNames word → e.2.1 = e.2.2

/-- The parameter that a placeholder names, by its place. -/
theorem exists_formal_at {word name : String} {p : Handle × Parameter}
    (hp : (g.formalsOf word).find? (·.2.name == name) = some p) :
    ∃ k, (g.formalNames word).findIdx? (· == name) = some k ∧
      (g.formalTypes word)[k]?.join = p.2.type := by
  rw [find?_eq_bind, Option.bind_eq_some_iff] at hp
  obtain ⟨k, hk, hat⟩ := hp
  refine ⟨k, ?_, ?_⟩
  · rw [formalNames, List.findIdx?_map]
    exact hk
  · rw [formalTypes, List.getElem?_map, hat]
    rfl

/-- What a step says that has become a call, by the texts that its pattern captures. -/
theorem SaysAt.spoken_eq {i j : Nat} {h : Handle} {step body : Json} {word key : String} {value : Value}
    {words texts : List String} {names : String → List String} {types : String → List (Option String)}
    (hshown : g.SaysAt i j h step body) (hword : g.calledAt? i j = some word)
    (hsaid : g.saying h = some ((WrittenStep.plain key value).spoken words names types))
    (ht : Sentence.captures? word (Sentence.withoutKeyword value.display key) = some texts) :
    (WrittenStep.plain key value).spoken words names types = .call word (some key)
      (spokenArguments (names word) (types word) (capturedArguments (names word) word texts)) := by
  obtain ⟨c, hc, rfl⟩ := hshown.exists_call hword
  rw [saying, step?_call (state?_call hc), Option.map_some, Option.some.injEq] at hsaid
  obtain ⟨texts', ht', hkey, hargs⟩ := WrittenStep.exists_of_spoken_eq_call hsaid.symm
  cases ht.symm.trans ht'
  rw [← hsaid, StepState.saying, hkey, hargs]

end Graph

namespace Design

variable {d : Design} {i j : Nat} {value value' : Value} {w : WrittenDefinition} {key : String}
  {g g' m m' : Graph}

theorem retains_retold (d : Design) (i j : Nat) (value : Value) :
    d.graph.Retains (d.retold i j value).graph :=
  Graph.retains_of_stripped (d.retold i j value).graph_sound stripped_graph_retold

theorem declared_retold (d : Design) (i j : Nat) (value : Value) :
    (d.retold i j value).declared = d.declared := by
  have hr := d.retains_retold i j value
  rw [← names_words, ← names_words, Graph.map_name_words_congr hr.root hr.fixed]

/-- What is said in a body after a run, by the place of its action word. -/
theorem exists_spoken_at (he : d.graph.Enriched m g) (hw : d.actionWords[i]? = some w) :
    ∃ v u, d.graph.words[i]? = some v ∧ g.words[i]? = some u ∧ u.2.toDefinition = v.2.toDefinition ∧
      u.2.steps.map g.saying =
        (w.steps.map (·.spoken d.declared g.formalNames g.formalTypes)).map some := by
  have hwritten := congrArg (·[i]?) d.written_words
  simp only [List.getElem?_map, hw, Option.map_some] at hwritten
  obtain ⟨v, hv, hwv⟩ := Option.map_eq_some_iff.1 hwritten
  have hwords := congrArg (·[i]?) (Graph.words_congr he.follows.root he.follows.fixed)
  simp only [List.getElem?_map, hv, Option.map_some] at hwords
  obtain ⟨u, hu, huv⟩ := Option.map_eq_some_iff.1 hwords
  have hdefinition : u.2.toDefinition = v.2.toDefinition := congrArg Prod.snd huv
  have hd := Graph.definition?_of_actionWord? (Graph.mem_words (List.mem_of_getElem? hv))
  have hsaid := (Graph.written?_eq_some.1 (he.written? hd hwv)).1
  rw [d.names_words, ← he.formalTypes, ← Graph.formalNames_congr he.follows.root he.follows.fixed] at hsaid
  exact ⟨v, u, hv, hu, hdefinition, hdefinition ▸ hsaid⟩

theorem getElem?_retold (hw : d.actionWords[i]? = some w) :
    (d.retold i j value).actionWords[i]? = some (w.retold j value) := by
  rw [retold, List.getElem?_modify_eq, hw]
  rfl

/-- The step and the body around it, in both documents. -/
theorem exists_saysAt_retold (he : d.graph.Enriched m g)
    (he' : (d.retold i j value').graph.Enriched m' g') (hw : d.actionWords[i]? = some w)
    (hs : w.steps[j]? = some (.plain key value)) :
    ∃ h last last',
      let speak := WrittenStep.spoken d.declared g.formalNames g.formalTypes
      g.saying h = some (speak (.plain key value)) ∧ g'.saying h = some (speak (.plain key value')) ∧
      g.SaysAt i j h ((speak (.plain key value)).canonical g.formalNames last)
        (canonicalBody g.formalNames (w.steps.map speak)) ∧
      g'.SaysAt i j h ((speak (.plain key value')).canonical g.formalNames last')
        (canonicalBody g.formalNames ((w.retold j value').steps.map speak)) := by
  have hr := d.retains_retold i j value'
  have hformals : g'.formalsOf = g.formalsOf := hr.formalsOf_eq d.graph_sound he he'
  have hnames : g'.formalNames = g.formalNames := funext fun name => by
    rw [Graph.formalNames, hformals, Graph.formalNames]
  have htypes : g'.formalTypes = g.formalTypes := funext fun name => by
    rw [Graph.formalTypes, hformals, Graph.formalTypes]
  obtain ⟨v, u, hv, hu, huv, hsay⟩ := exists_spoken_at he hw
  obtain ⟨v', u', hv', hu', huv', hsay'⟩ := exists_spoken_at he' (getElem?_retold hw)
  rw [hnames, htypes, declared_retold] at hsay'
  -- the handles of the steps are the same in both
  have hvv' : v'.2.toDefinition = v.2.toDefinition := by
    have hwords := congrArg (·[i]?) (Graph.words_congr hr.root hr.fixed)
    simp only [List.getElem?_map, hv, hv', Option.map_some, Option.some.injEq, Prod.mk.injEq] at hwords
    exact hwords.2
  obtain ⟨h, hh⟩ : ∃ h, u.2.steps[j]? = some h := by
    have hsaid := congrArg (·[j]?) hsay
    simp only [List.getElem?_map, hs, Option.map_some] at hsaid
    obtain ⟨h, hh, -⟩ := Option.map_eq_some_iff.1 hsaid
    exact ⟨h, hh⟩
  have hh' : u'.2.steps[j]? = some h := by rw [huv', hvv', ← huv, hh]
  obtain ⟨s, last, hat, hsaid, hshown⟩ := (told he).exists_saysAt he.after.sound hu hh hsay
  obtain ⟨s', last', hat', hsaid', hshown'⟩ :=
    (told he').exists_saysAt he'.after.sound hu' hh' hsay'
  rw [List.getElem?_map, hs] at hat
  rw [List.getElem?_map, WrittenDefinition.retold, List.getElem?_modify_eq, hs] at hat'
  cases hat
  cases hat'
  rw [hnames] at hshown'
  exact ⟨h, last, last', hsaid, hsaid', hshown, hshown'⟩

end Design

/-- **What a sentence gives to parameters is told** by the call that takes its place. Two documents are
accepted that differ in what one step of an action word says, and after a run the step is a call of the same
action word in both. If the captured texts are told apart at a placeholder that names a parameter, the
calls are shown otherwise, and so are the bodies that are fingerprinted. If the texts at such placeholders
are the same, calls and bodies are: no text at another placeholder is told. -/
theorem said_texts_are_told {text text' : String} {strict strict' : Bool} {d : Design} {g g' : Graph}
    {i j : Nat} {w : WrittenDefinition} {key : String} {value value' : Value}
    (hd : Design.ofText text = .ok d) (hg : Design.readGraph text strict = .ok g)
    (hd' : Design.ofText text' = .ok (d.retold i j value'))
    (hg' : Design.readGraph text' strict' = .ok g') (hw : d.actionWords[i]? = some w)
    (hs : w.steps[j]? = some (.plain key value)) (r r' : Report) :
    Ensures enrich ⟨g, r⟩ fun _ s => Ensures enrich ⟨g', r'⟩ fun _ s' =>
      ∃ h step step' body body', s.graph.SaysAt i j h step body ∧ s'.graph.SaysAt i j h step' body' ∧
        ∀ word texts texts', s.graph.calledAt? i j = some word → s'.graph.calledAt? i j = some word →
          Sentence.captures? word (Sentence.withoutKeyword value.display key) = some texts →
          Sentence.captures? word (Sentence.withoutKeyword value'.display key) = some texts' →
            (s.graph.TellsApart word texts texts' →
              step.canonicalText ≠ step'.canonicalText ∧ body.canonicalText ≠ body'.canonicalText) ∧
            (s.graph.TakesAlike word texts texts' → step = step' ∧ body = body') := by
  obtain ⟨d₀, hd₀, rfl⟩ := Design.exists_of_readGraph hg
  cases hd.symm.trans hd₀
  obtain ⟨d₀, hd₀, rfl⟩ := Design.exists_of_readGraph hg'
  cases hd'.symm.trans hd₀
  refine (Graph.ensures_enrich d.graph_sound).mono ?_
  rintro - ⟨g, r⟩ ⟨m, he⟩
  refine (Graph.ensures_enrich (d.retold i j value').graph_sound).mono ?_
  rintro - ⟨g', r'⟩ ⟨m', he'⟩
  obtain ⟨h, last, last', hsaid, hsaid', hshown, hshown'⟩ := Design.exists_saysAt_retold he he' hw hs
  refine ⟨h, _, _, _, _, hshown, hshown', fun word texts texts' hword hword' ht ht' => ?_⟩
  have hspoken := hshown.spoken_eq hword hsaid ht
  have hspoken' := hshown'.spoken_eq hword' hsaid' ht'
  have hlen : texts.length = texts'.length := by
    rw [Sentence.length_of_captures? ht, Sentence.length_of_captures? ht']
  constructor
  · rintro ⟨e, hmem, p, hp, hapart⟩
    obtain ⟨k, hk, htype⟩ := Graph.exists_formal_at hp
    refine hshown.canonicalText_ne hshown' (WrittenStep.plain_canonical _ _ _)
      (WrittenStep.plain_canonical _ _ _) (plain_canonicalBody _ _) (plain_canonicalBody _ _) ?_
    rw [hspoken, hspoken']
    exact WrittenStep.arranged_spoken_ne hlen hmem hk (htype ▸ hapart)
  · intro hsame
    have hstep : (WrittenStep.plain key value').spoken d.declared g.formalNames g.formalTypes =
        (WrittenStep.plain key value).spoken d.declared g.formalNames g.formalTypes := by
      rw [hspoken, hspoken', capturedArguments_congr hlen hsame]
    have hsteps : (w.retold j value').steps.map
        (·.spoken d.declared g.formalNames g.formalTypes) =
          w.steps.map (·.spoken d.declared g.formalNames g.formalTypes) :=
      map_modify_eq fun s hat => by
        cases hs.symm.trans hat
        exact hstep
    rw [hsteps] at hshown' ⊢
    exact ⟨hshown.step_eq hshown', rfl⟩

namespace Design

/-- A document in which the body of `w` is a sentence, and the name of the other action word has two
placeholders, of which one names a parameter. -/
abbrev greetingText : String := "<project><name>p</name><actionwords>
  <actionword><name>say \"x\" to \"y\"</name><parameters>
    <parameter><name>x</name></parameter></parameters></actionword>
  <actionword><name>w</name><steps>
    <action><key>given</key><value><stringliteral>say \"a\" to \"b\"</stringliteral></value></action>
    </steps></actionword></actionwords></project>"

/-- The document with another text for the parameter. -/
abbrev partingText : String := "<project><name>p</name><actionwords>
  <actionword><name>say \"x\" to \"y\"</name><parameters>
    <parameter><name>x</name></parameter></parameters></actionword>
  <actionword><name>w</name><steps>
    <action><key>given</key><value><stringliteral>say \"c\" to \"b\"</stringliteral></value></action>
    </steps></actionword></actionwords></project>"

/-- The document with another text for the placeholder that names no parameter. -/
abbrev strayText : String := "<project><name>p</name><actionwords>
  <actionword><name>say \"x\" to \"y\"</name><parameters>
    <parameter><name>x</name></parameter></parameters></actionword>
  <actionword><name>w</name><steps>
    <action><key>given</key><value><stringliteral>say \"a\" to \"d\"</stringliteral></value></action>
    </steps></actionword></actionwords></project>"

/-- The design that the document describes. -/
def greeting : Design where
  name := "p"
  description := ""
  scenarios := []
  actionWords := [
    untypedWord "say \"x\" to \"y\"" ["x"] [],
    untypedWord "w" [] [.plain "given" (.string "say \"a\" to \"b\"")]]

abbrev parting : Design := greeting.retold 1 0 (.string "say \"c\" to \"b\"")

abbrev stray : Design := greeting.retold 1 0 (.string "say \"a\" to \"d\"")

set_option maxRecDepth 4000 in
theorem ofText_greeting : ofText greetingText = .ok greeting :=
  ofText_eq_ok (by decide +kernel)

set_option maxRecDepth 4000 in
theorem ofText_parting : ofText partingText = .ok parting :=
  ofText_eq_ok (by decide +kernel)

set_option maxRecDepth 4000 in
theorem ofText_stray : ofText strayText = .ok stray :=
  ofText_eq_ok (by decide +kernel)

end Design

theorem said_texts_of_greeting_are_told :
    (Design.ofText Design.greetingText = .ok Design.greeting ∧
      Design.readGraph Design.greetingText true = .ok Design.greeting.graph ∧
      Design.ofText Design.partingText = .ok Design.parting ∧
      Design.readGraph Design.partingText true = .ok Design.parting.graph) ∧
    Ensures enrich ⟨Design.greeting.graph, {}⟩ fun _ s =>
      Ensures enrich ⟨Design.parting.graph, {}⟩ fun _ s' =>
        ∃ h step step' body body', s.graph.SaysAt 1 0 h step body ∧
          s'.graph.SaysAt 1 0 h step' body' ∧ step.canonicalText ≠ step'.canonicalText ∧
            body.canonicalText ≠ body'.canonicalText := by
  have hg : Design.readGraph Design.greetingText true = .ok Design.greeting.graph :=
    Design.readGraph_eq_ok.2 ⟨_, Design.ofText_greeting, fun _ => by decide, rfl⟩
  have hg' : Design.readGraph Design.partingText true = .ok Design.parting.graph :=
    Design.readGraph_eq_ok.2 ⟨_, Design.ofText_parting, fun _ => by decide, rfl⟩
  refine ⟨⟨Design.ofText_greeting, hg, Design.ofText_parting, hg'⟩, ?_⟩
  -- in both documents the step becomes a call, and the parameter tells the texts apart
  have hcalled : Ensures enrich ⟨Design.greeting.graph, {}⟩ fun _ s =>
      (s.graph.calledAt? 1 0 == some "say \"x\" to \"y\"" &&
        decide (s.graph.TellsApart "say \"x\" to \"y\"" ["a", "b"] ["c", "b"])) = true :=
    Work.ensures_of_check (by decide +kernel)
  have hcalled' : Ensures enrich ⟨Design.parting.graph, {}⟩ fun _ s =>
      (s.graph.calledAt? 1 0 == some "say \"x\" to \"y\"") = true :=
    Work.ensures_of_check (by decide +kernel)
  refine ((said_texts_are_told Design.ofText_greeting hg Design.ofText_parting hg' rfl rfl {} {}).and
    hcalled).mono fun _ s ⟨htold, hs⟩ => (htold.and hcalled').mono fun _ s' ⟨htold, hs'⟩ => ?_
  obtain ⟨h, step, step', body, body', hshown, hshown', htold⟩ := htold
  rw [Bool.and_eq_true, beq_iff_eq, decide_eq_true_iff] at hs
  exact ⟨h, step, step', body, body', hshown, hshown',
    (htold _ _ _ hs.1 (eq_of_beq hs') (by decide +kernel) (by decide +kernel)).1 hs.2⟩

/-- What there is after a run: the word that the step `h` calls, what the step is shown as, and the
fingerprint of the body of `k`. -/
def enrichAndShow (k h : Handle) : Work (String × String × String) := do
  let _ ← enrich
  let c ← Work.read (·.call h)
  let step ← Work.read (·.canonicalStep h)
  let body ← Work.read (·.bodyFingerprint k)
  return (c.actionWord, step.canonicalText, body)

/-- What `enrichAndShow` finds in the document, and in the one with another text for the placeholder that
names no parameter. -/
abbrev shownGreeting : String × String × String :=
  ("say \"x\" to \"y\"",
    "\x7b\"annotation\": \"given\", \"arguments\": [[\"x\", \x7b\"string\": \"a\"\x7d]], \"call\": \"say \\\"x\\\" to \\\"y\\\"\"\x7d",
    "ffbce0da8afdd8cea9d9307ac5bec8783a6c1ea2ca3e0cf799336e05918953a1")

/-- **A text at a placeholder that names no parameter is lost**: the call that takes the place of the
sentence and the fingerprint of the body stay. -/
theorem said_text_may_be_lost :
    (Design.ofText Design.greetingText = .ok Design.greeting ∧
      Design.readGraph Design.greetingText true = .ok Design.greeting.graph ∧
      Design.ofText Design.strayText =
        .ok (Design.greeting.retold 1 0 (.string "say \"a\" to \"d\"")) ∧
      Design.readGraph Design.strayText true = .ok Design.stray.graph) ∧
    (Sentence.captures? "say \"x\" to \"y\""
        (Sentence.withoutKeyword (Value.string "say \"a\" to \"b\"").display "given") =
          some ["a", "b"] ∧
      Sentence.captures? "say \"x\" to \"y\""
        (Sentence.withoutKeyword (Value.string "say \"a\" to \"d\"").display "given") =
          some ["a", "d"]) ∧
    Ensures enrich ⟨Design.greeting.graph, {}⟩ fun _ s =>
      Ensures enrich ⟨Design.stray.graph, {}⟩ fun _ s' =>
        ∃ c c' step step' body, s.graph.call 4 = .ok c ∧ s'.graph.call 4 = .ok c' ∧
          c.actionWord = "say \"x\" to \"y\"" ∧ c'.actionWord = c.actionWord ∧
          s.graph.canonicalStep 4 = .ok step ∧ s'.graph.canonicalStep 4 = .ok step' ∧
          step.canonicalText = step'.canonicalText ∧
          s.graph.bodyFingerprint 3 = .ok body ∧ s'.graph.bodyFingerprint 3 = .ok body := by
  have hg : Design.readGraph Design.greetingText true = .ok Design.greeting.graph :=
    Design.readGraph_eq_ok.2 ⟨_, Design.ofText_greeting, fun _ => by decide, rfl⟩
  have hg' : Design.readGraph Design.strayText true = .ok Design.stray.graph :=
    Design.readGraph_eq_ok.2 ⟨_, Design.ofText_stray, fun _ => by decide, rfl⟩
  have hshown : Ensures (enrichAndShow 3 4) ⟨Design.greeting.graph, {}⟩ fun shown _ =>
      (shown == shownGreeting) = true := Work.ensures_of_check (by decide +kernel)
  have hshown' : Ensures (enrichAndShow 3 4) ⟨Design.stray.graph, {}⟩ fun shown _ =>
      (shown == shownGreeting) = true := Work.ensures_of_check (by decide +kernel)
  simp only [enrichAndShow, Work.ensures_bind, Work.ensures_read, Work.ensures_pure, beq_iff_eq,
    Prod.mk.injEq] at hshown hshown'
  refine ⟨⟨Design.ofText_greeting, hg, Design.ofText_stray, hg'⟩, by decide +kernel, ?_⟩
  refine hshown.mono fun _ s hs => hshown'.mono fun _ s' hs' => ?_
  obtain ⟨c, hc, step, hstep, body, hbody, hword, htext, rfl⟩ := hs
  obtain ⟨c', hc', step', hstep', body', hbody', hword', htext', rfl⟩ := hs'
  exact ⟨c, c', step, step', _, hc, hc', hword, hword'.trans hword.symm, hstep, hstep',
    htext.trans htext'.symm, hbody, hbody'⟩

end Actionbook
