import Actionbook.Proofs.Documents

/-!
# The order of declarations

Two documents declare the same action words in different orders. What is found under a name is the same
(`find?_name_perm`), and so is everything that a signature tells of an action word but the fingerprint
of its body. A sentence in a body may depend on the order: the first word that it fits is called, and a
captured text is a literal of the type that the first evidence gives to its parameter. `Design.Clear` rules
both out.

* `Design.formalTypes_declared`: declared types are the types of parameters in every run.
* `Design.spoken_redeclared`: a body of clear sentences says the same in both documents.
* `order_is_not_told`: what the two documents export.
-/

namespace Actionbook

open Work (Ensures)

/-! ## Sentences -/

/-- Of names of which a sentence fits one at most, it fits one first if it fits it. -/
theorem firstFit?_eq_some {words : List String} {sentence name : String} {texts : List String}
    (hone : ∀ a ∈ words, ∀ b ∈ words, (Sentence.captures? a sentence).isSome →
      (Sentence.captures? b sentence).isSome → a = b) :
    firstFit? words sentence = some (name, texts) ↔
      name ∈ words ∧ Sentence.captures? name sentence = some texts := by
  constructor
  · intro h
    obtain ⟨word, hword, hfit⟩ := List.exists_of_findSome?_eq_some h
    obtain ⟨t, ht, heq⟩ := Option.map_eq_some_iff.1 hfit
    cases heq
    exact ⟨hword, ht⟩
  · rintro ⟨hname, hfit⟩
    cases hfirst : firstFit? words sentence with
    | none =>
      rw [firstFit?_eq_none.1 hfirst name hname] at hfit
      cases hfit
    | some e =>
      obtain ⟨word, hword, hfit'⟩ := List.exists_of_findSome?_eq_some hfirst
      obtain ⟨t, ht, rfl⟩ := Option.map_eq_some_iff.1 hfit'
      cases hone word hword name hname (by rw [ht]; rfl) (by rw [hfit]; rfl)
      cases ht.symm.trans hfit
      rfl

theorem firstFit?_perm {words words' : List String} {sentence : String} (hp : words'.Perm words)
    (hone : ∀ a ∈ words, ∀ b ∈ words, (Sentence.captures? a sentence).isSome →
      (Sentence.captures? b sentence).isSome → a = b) :
    firstFit? words' sentence = firstFit? words sentence := by
  have hone' : ∀ a ∈ words', ∀ b ∈ words', (Sentence.captures? a sentence).isSome →
      (Sentence.captures? b sentence).isSome → a = b := fun a ha b hb =>
    hone a (hp.subset ha) b (hp.subset hb)
  refine Option.ext fun e => ?_
  obtain ⟨name, texts⟩ := e
  rw [firstFit?_eq_some hone, firstFit?_eq_some hone', hp.mem_iff]

/-- A text is the same literal whatever type its parameter gets if it is written like no number and no
truth value. -/
theorem Value.ofCaptured_of_plain {text : String} (hn : Numeral.isDecimal text.toList = false)
    (ht : isTruthText text = false) (type : Option String) : ofCaptured text type = .string text := by
  simp only [ofCaptured, hn, ht, Bool.and_false, Bool.false_eq_true, if_false]

/-- Captured texts are the same arguments if each of them is the same literal for both types that its
parameter has. -/
theorem spokenArguments_congr {names : List String} {types types' : List (Option String)}
    {captured : List (String × String)}
    (h : ∀ c ∈ captured, ∀ i, names.findIdx? (· == c.1) = some i →
      Value.ofCaptured c.2 types[i]?.join = Value.ofCaptured c.2 types'[i]?.join) :
    spokenArguments names types captured = spokenArguments names types' captured := by
  refine List.map_congr_left fun e he => ?_
  obtain ⟨c, slot⟩ := e
  cases slot with
  | none => rfl
  | some i =>
    have hslot : (some c.1, some i) ∈ (captured.map fun c => some c.1).zip
        (slots names 0 [] (captured.map fun c => some c.1)) := by
      rw [List.zip_map_left]
      exact List.mem_map.2 ⟨(c, some i), he, rfl⟩
    obtain ⟨position, hplace⟩ := exists_place?_of_mem_slots hslot
    exact congrArg (WrittenArgument.mk (some c.1)) (h c (List.of_mem_zip he).1 i hplace)

/-! ## Types -/

/-- The type of a parameter that declares one is the declared one. -/
theorem Evidence.typeOf_declared {e : Evidence} {h : Handle} {p : Parameter} {t : String}
    (ht : p.declaredType = some t) (hne : t ≠ "") : e.typeOf h p = some t := by
  simp [typeOf, ht, hne]

theorem Graph.Types.formals {g m : Graph} (ht : g.Types m) (hf : g.Follows m) :
    ∃ e : Evidence, ∀ h, m.formals h =
      (g.formals h).map fun p => (p.1, { p.2 with type := e.typeOf p.1 p.2 }) := by
  obtain ⟨-, e, -, -, -, -, hm⟩ := ht
  refine ⟨e, fun h => ?_⟩
  rw [Graph.formals, Graph.formals, hf.definition?, gather, gather, List.map_filterMap]
  refine List.filterMap_congr fun k _ => ?_
  rw [hm, Option.map_map, Option.map_map]
  rfl

namespace Design

variable {d d' : Design} {g' m m' : Graph} {w : WrittenDefinition}

/-- **Declared types are the types of parameters** in every run. -/
theorem formalTypes_declared (he : d.graph.Enriched m g')
    (hw : d.actionWords.find? (·.name == w.name) = some w) {i : Nat} {p : WrittenParameter} {t : String}
    (hp : w.parameters[i]? = some p) (ht : p.type = some t) (hne : t ≠ "") :
    (m.formalTypes w.name)[i]?.join = some t := by
  obtain ⟨e, hformals⟩ := he.typed.formals he.before
  obtain ⟨v, hv, -⟩ := exists_word hw
  have htarget : d.graph.target? w.name = some v.1 := by rw [Graph.target?, hv]; rfl
  obtain ⟨a, ha, hwritten⟩ := exists_of_target? htarget
  cases hw.symm.trans ha
  rw [← hwritten, List.getElem?_map, Option.map_eq_some_iff] at hp
  obtain ⟨q, hq, rfl⟩ := hp
  have hof : m.formalsOf w.name = m.formals v.1 := by
    rw [Graph.formalsOf, he.before.target?, htarget]
    rfl
  rw [Graph.formalTypes, hof, hformals, List.map_map, List.getElem?_map, hq]
  exact Evidence.typeOf_declared ht hne

end Design

/-! ## Clear sentences -/

/-- A text that a parameter reads as the same literal wherever it is declared: its type is declared as
well, or the text is written like no number and no truth value. -/
def WrittenParameter.Reads (p : WrittenParameter) (text : String) : Prop :=
  (∃ t ∈ p.type, t ≠ "") ∨ Numeral.isDecimal text.toList = false ∧ Value.isTruthText text = false

/-- A sentence that fits one action word at most, whose parameters read the captured texts as the same
literals wherever they are declared. -/
structure Design.Clear (d : Design) (sentence : String) : Prop where
  fits : ∀ a ∈ d.declared, ∀ b ∈ d.declared, (Sentence.captures? a sentence).isSome →
    (Sentence.captures? b sentence).isSome → a = b
  reads : ∀ w ∈ d.actionWords, ∀ texts ∈ Sentence.captures? w.name sentence,
    ∀ c ∈ capturedArguments (w.parameters.map (·.name)) w.name texts,
      ∀ p ∈ w.parameters.find? (·.name == c.1), p.Reads c.2

/-- The sentence that a step is, without its keyword. -/
def WrittenStep.sentence? : WrittenStep → Option String
  | .plain key value =>
    if sentenceKeywords.contains key then some (Sentence.withoutKeyword value.display key) else none
  | .call _ _ _ => none

/-- All sentences of a body are clear. -/
def Design.ClearIn (d : Design) (w : WrittenDefinition) : Prop :=
  ∀ sentence ∈ w.steps.filterMap WrittenStep.sentence?, d.Clear sentence

instance (p : WrittenParameter) (text : String) : Decidable (p.Reads text) :=
  inferInstanceAs (Decidable ((∃ t ∈ p.type, t ≠ "") ∨ _ = false ∧ _ = false))

instance (d : Design) (sentence : String) : Decidable (d.Clear sentence) :=
  decidable_of_iff (_ ∧ _) ⟨fun h => ⟨h.1, h.2⟩, fun h => ⟨h.fits, h.reads⟩⟩

instance (d : Design) (w : WrittenDefinition) : Decidable (d.ClearIn w) :=
  inferInstanceAs (Decidable (∀ sentence ∈ w.steps.filterMap WrittenStep.sentence?, d.Clear sentence))

/-! ## Signatures by name -/

namespace Signatures

/-- Signatures without the fingerprints of bodies and the nodes that they come from. -/
def outward (s : Signatures) : Signatures :=
  s.map fun e => (e.1, { e.2 with bodyHash := none, node := none })

theorem outward_bare (s : Signatures) : s.bare.outward = s.outward := by
  rw [outward, outward, bare, List.map_map]
  rfl

theorem sorted_outward (s : Signatures) : s.outward.sorted = s.sorted.outward :=
  sortBy_map (fun _ _ => rfl) s

/-- Signatures with different names are all collected. -/
theorem collect_eq_append {l : List (String × Signature)} {known : Signatures}
    (hn : ((known ++ l).map (·.1)).Nodup) : collect l known = known ++ l := by
  induction l generalizing known with
  | nil => exact (List.append_nil known).symm
  | cons e l ih =>
    have hnew : (known.lookup e.1).isSome = false := by
      rw [Option.isSome_eq_false_iff, Option.isNone_iff_eq_none, lookup_eq_none_iff_not_mem]
      rw [List.map_append, List.map_cons] at hn
      exact fun hm => (List.nodup_append.1 hn).2.2 _ hm _ List.mem_cons_self rfl
    rw [collect, List.foldl_cons, ← collect, hnew, if_neg Bool.false_ne_true,
      ih (by rwa [List.append_assoc])]
    exact List.append_assoc _ _ _

/-- Signatures with different names can be put in one order only. -/
theorem sorted_eq_of_perm {s t : Signatures} (hp : s.Perm t) (hn : (s.map (·.1)).Nodup) :
    s.sorted = t.sorted := sortBy_key_eq_of_perm Prod.fst hp hn

end Signatures

/-! ## The same action words in another order -/

theorem find?_name_perm {l l' : List WrittenDefinition} (hp : l'.Perm l)
    (hn : (l.map (·.name)).Nodup) (name : String) :
    l'.find? (·.name == name) = l.find? (·.name == name) := by
  have hkeys : ∀ l : List WrittenDefinition,
      (l.map fun w => (w.name, w)).map (·.1) = l.map (·.name) := fun l => by
    rw [List.map_map]
    rfl
  have hl := lookup_perm (hp.symm.map fun w => (w.name, w)) (hkeys l ▸ hn) name
  rw [lookup_map, lookup_map, Option.map_id', Option.map_id'] at hl
  exact hl.symm

/-- The design declares the action words `words`, in that order. -/
def Design.redeclared (d : Design) (words : List WrittenDefinition) : Design :=
  { d with actionWords := words }

namespace Design

variable {d : Design} {words : List WrittenDefinition} {m m' g g' : Graph} {w : WrittenDefinition}

section
variable (hp : words.Perm d.actionWords) (hn : d.declared.Nodup)
include hp

theorem declared_redeclared : (d.redeclared words).declared.Perm d.declared := hp.map _

/-- The document stays one that is accepted. -/
theorem readGraph_redeclared {text text' : String} {strict : Bool} (hd : ofText text = .ok d)
    (hg : readGraph text strict = .ok g) (hd' : ofText text' = .ok (d.redeclared words)) :
    readGraph text' strict = .ok (d.redeclared words).graph := by
  obtain ⟨d₀, hd₀, hcalled, -⟩ := readGraph_eq_ok.1 hg
  cases hd.symm.trans hd₀
  have hsteps : ∀ s, s ∈ (d.redeclared words).steps ↔ s ∈ d.steps := fun s => by
    have hwords := (hp.flatMap_right (·.steps)).mem_iff (a := s)
    rw [steps, steps, List.mem_append, List.mem_append, redeclared, hwords]
  refine readGraph_eq_ok.2 ⟨_, hd', fun hs name hm => ?_, rfl⟩
  obtain ⟨s, hmem, hname⟩ := List.mem_filterMap.1 hm
  have hdeclared := hcalled hs name (List.mem_filterMap.2 ⟨s, (hsteps s).1 hmem, hname⟩)
  exact (declared_redeclared hp).symm.subset hdeclared

include hn

theorem formalNames_redeclared : (d.redeclared words).formalNames = d.formalNames := by
  funext name
  rw [formalNames, formalNames, parameterNames?, parameterNames?, redeclared, find?_name_perm hp hn]

/-- A text that a parameter reads is the same literal in both documents. -/
theorem ofCaptured_redeclared (he : d.graph.Enriched m g)
    (he' : (d.redeclared words).graph.Enriched m' g') (hw : w ∈ d.actionWords) {i : Nat}
    {p : WrittenParameter} {text : String} (hi : w.parameters[i]? = some p) (hr : p.Reads text) :
    Value.ofCaptured text (m'.formalTypes w.name)[i]?.join =
      .ofCaptured text (m.formalTypes w.name)[i]?.join := by
  have hfind := find?_declared hn hw
  have hfind' : (d.redeclared words).actionWords.find? (·.name == w.name) = some w :=
    (find?_name_perm hp hn _).trans hfind
  rcases hr with ⟨t, ht, hne⟩ | ⟨hdecimal, htruth⟩
  · rw [formalTypes_declared he hfind hi ht hne, formalTypes_declared he' hfind' hi ht hne]
  · rw [Value.ofCaptured_of_plain hdecimal htruth, Value.ofCaptured_of_plain hdecimal htruth]

/-- A clear sentence says the same in both documents. -/
theorem spokenStep_redeclared (he : d.graph.Enriched m g)
    (he' : (d.redeclared words).graph.Enriched m' g') {key : String} {value : Value}
    (hk : sentenceKeywords.contains key = true)
    (hclear : d.Clear (Sentence.withoutKeyword value.display key)) :
    (WrittenStep.plain key value).spoken (d.redeclared words).declared d.formalNames m'.formalTypes =
      (WrittenStep.plain key value).spoken d.declared d.formalNames m.formalTypes := by
  simp only [WrittenStep.spoken, hk, if_true]
  rw [firstFit?_perm (declared_redeclared hp) hclear.fits]
  cases hfirst : firstFit? d.declared (Sentence.withoutKeyword value.display key) with
  | none => rfl
  | some e =>
    obtain ⟨name, texts⟩ := e
    obtain ⟨hname, hfit⟩ := (firstFit?_eq_some hclear.fits).1 hfirst
    obtain ⟨w, hw, rfl⟩ := List.mem_map.1 hname
    have hnames : d.formalNames w.name = w.parameters.map (·.name) := by
      rw [formalNames, parameterNames?, find?_declared hn hw]
      rfl
    refine congrArg (WrittenStep.call w.name (some key)) (spokenArguments_congr fun c hc i hi => ?_)
    rw [hnames] at hc hi
    -- the captured text is for the first parameter of its name
    rw [List.findIdx?_map] at hi
    have hfind : w.parameters.find? (·.name == c.1) = w.parameters[i]? := by
      rw [find?_eq_bind]
      exact congrArg (Option.bind · (w.parameters[·]?)) hi
    obtain ⟨hlt, -⟩ := List.findIdx?_eq_some_iff_getElem.1 hi
    have hget : w.parameters[i]? = some w.parameters[i] := List.getElem?_eq_getElem hlt
    exact ofCaptured_redeclared hp hn he he' hw hget
      (hclear.reads w hw texts hfit c hc _ (hfind.trans hget))

/-- **A body of clear sentences says the same** in both documents, after whatever runs. -/
theorem spoken_redeclared (he : d.graph.Enriched m g)
    (he' : (d.redeclared words).graph.Enriched m' g') (hclear : d.ClearIn w) :
    (d.redeclared words).spoken m'.formalTypes w = d.spoken m.formalTypes w := by
  have hstep : ∀ s ∈ w.steps, s.spoken (d.redeclared words).declared d.formalNames m'.formalTypes =
      s.spoken d.declared d.formalNames m.formalTypes := by
    intro s hs
    cases s with
    | call word keyword arguments => rfl
    | plain key value =>
      by_cases hk : sentenceKeywords.contains key = true
      · have hsaid : (WrittenStep.plain key value).sentence? =
            some (Sentence.withoutKeyword value.display key) := by
          simp only [WrittenStep.sentence?, hk, if_true]
        exact spokenStep_redeclared hp hn he he' hk
          (hclear _ (List.mem_filterMap.2 ⟨_, hs, hsaid⟩))
      · simp only [WrittenStep.spoken, hk, Bool.false_eq_true, if_false]
  rw [spoken, spoken, WrittenDefinition.spoken, WrittenDefinition.spoken,
    formalNames_redeclared hp hn, List.map_congr_left hstep]

/-- What is told of an action word, but for the fingerprint of a body with unclear sentences. -/
theorem signature_redeclared (he : d.graph.Enriched m g)
    (he' : (d.redeclared words).graph.Enriched m' g') {options : ExportOptions}
    (hclear : options.withBody = true → d.ClearIn w) :
    ((d.redeclared words).spoken m'.formalTypes w).signature (d.redeclared words).formalNames options 0 =
      (d.spoken m.formalTypes w).signature d.formalNames options 0 := by
  by_cases hb : options.withBody = true
  · rw [spoken_redeclared hp hn he he' (hclear hb), formalNames_redeclared hp hn]
  · simp only [WrittenDefinition.signature, hb, Bool.false_eq_true, if_false]
    rfl

end

/-- What is exported before it is put in order, if all sentences are clear. -/
theorem entries_redeclared (hp : words.Perm d.actionWords) (hn : d.declared.Nodup)
    (he : d.graph.Enriched m g) (he' : (d.redeclared words).graph.Enriched m' g')
    {options : ExportOptions}
    (hclear : options.withBody = true → ∀ w ∈ d.actionWords, d.ClearIn w) :
    ((d.redeclared words).entries m'.formalTypes options).Perm (d.entries m.formalTypes options) := by
  refine (hp.map _).trans (.of_eq (List.map_congr_left fun w hw => ?_))
  rw [signature_redeclared hp hn he he' fun hb => hclear hb w hw]

/-- Apart from fingerprints and nodes, what is exported is as it was written. -/
theorem outward_entries (d : Design) (types : String → List (Option String)) (options : ExportOptions) :
    Signatures.outward (d.entries types options) =
      d.actionWords.map fun w => (w.name, w.signature (fun _ => []) { withBody := false } 0) := by
  rw [entries, Signatures.outward, List.map_map]
  rfl

theorem names_entries (d : Design) (types : String → List (Option String)) (options : ExportOptions) :
    (d.entries types options).map (·.1) = d.declared := by
  rw [entries, List.map_map]
  rfl

/-- If names are told apart, no signature is left out. -/
theorem bare_exported (hn : d.declared.Nodup) {types : String → List (Option String)}
    {options : ExportOptions} {result : Signatures}
    (h : result.bare = (Signatures.collect (d.entries types options) []).sorted) :
    result.bare = Signatures.sorted (d.entries types options) := by
  have hall : Signatures.collect (d.entries types options) [] = d.entries types options :=
    Signatures.collect_eq_append (by rw [List.nil_append, names_entries]; exact hn)
  rw [h, hall]

theorem lookup_exported (hn : d.declared.Nodup) {types : String → List (Option String)}
    {options : ExportOptions} {result : Signatures}
    (h : result.bare = Signatures.sorted (d.entries types options)) (hw : w ∈ d.actionWords) :
    ∃ x, result.lookup w.name = some x ∧
      x.bare = ((d.spoken types w).signature d.formalNames options 0).bare := by
  have hfound : result.bare.lookup w.name =
      some ((d.spoken types w).signature d.formalNames options 0).bare := by
    rw [h, Signatures.lookup_sorted (by rw [names_entries]; exact hn), entries, lookup_map,
      find?_declared hn hw]
    rfl
  rw [Signatures.lookup_bare] at hfound
  exact Option.map_eq_some_iff.1 hfound

end Design

/-- **Declaration order shows in the fingerprints of bodies with unclear sentences** and nowhere else.
Two documents declare the same action words, whose names are told apart, in different orders. If the one
is accepted, the other one is too, and what they export is the same apart from fingerprints; it is wholly
the same for every word whose body has clear sentences only, so that the snapshots are the same if this is
so of all words. -/
theorem order_is_not_told {text text' : String} {strict : Bool} {d : Design} {g : Graph}
    {words : List WrittenDefinition} (hd : Design.ofText text = .ok d)
    (hg : Design.readGraph text strict = .ok g) (hn : d.declared.Nodup)
    (hp : words.Perm d.actionWords) (hd' : Design.ofText text' = .ok (d.redeclared words))
    (options : ExportOptions) (r r' : Report) :
    ∃ g', Design.readGraph text' strict = .ok g' ∧
      Ensures enrich ⟨g, r⟩ fun _ s => Ensures enrich ⟨g', r'⟩ fun _ s' =>
        Ensures (exportSignatures options) s fun signatures _ =>
          Ensures (exportSignatures options) s' fun signatures' _ =>
            signatures'.outward = signatures.outward ∧
            (∀ w ∈ d.actionWords, (options.withBody = true → d.ClearIn w) →
              ∃ x y, signatures.lookup w.name = some x ∧ signatures'.lookup w.name = some y ∧
                x.bare = y.bare) ∧
            ((options.withBody = true → ∀ w ∈ d.actionWords, d.ClearIn w) →
              signatures'.bare = signatures.bare ∧
                ∀ f : Snapshot.Format, f.dump signatures' = f.dump signatures) := by
  refine ⟨_, Design.readGraph_redeclared hp hd hg hd', ?_⟩
  obtain ⟨d₀, hd₀, rfl⟩ := Design.exists_of_readGraph hg
  cases hd.symm.trans hd₀
  refine (Graph.ensures_enrich d.graph_sound).mono ?_
  rintro - ⟨g₁, r₁⟩ ⟨m, he⟩
  refine (Graph.ensures_enrich (d.redeclared words).graph_sound).mono ?_
  rintro - ⟨g₂, r₂⟩ ⟨m', he'⟩
  have hn' : (d.redeclared words).declared.Nodup :=
    (Design.declared_redeclared hp).nodup_iff.2 hn
  refine (Design.ensures_exportSignatures he options).mono ?_
  rintro signatures - hx
  refine (Design.ensures_exportSignatures he' options).mono ?_
  rintro signatures' - hy
  replace hx := Design.bare_exported hn hx
  replace hy := Design.bare_exported hn' hy
  refine ⟨?outward, ?one, ?all⟩
  case outward =>
    have hout := (hp.map fun w => (w.name, w.signature (fun _ => []) { withBody := false } 0))
    rw [← Design.outward_entries d m.formalTypes options] at hout
    rw [← signatures'.outward_bare, ← signatures.outward_bare, hx, hy, ← Signatures.sorted_outward,
      ← Signatures.sorted_outward, Design.outward_entries]
    exact Signatures.sorted_eq_of_perm hout (by rw [List.map_map]; exact hn')
  case one =>
    intro w hw hclear
    obtain ⟨x, hxw, hbare⟩ := Design.lookup_exported hn hx hw
    obtain ⟨y, hyw, hbare'⟩ := Design.lookup_exported hn' hy (hp.symm.subset hw)
    refine ⟨x, y, hxw, hyw, ?_⟩
    rw [hbare, hbare', Design.signature_redeclared hp hn he he' hclear]
  case all =>
    intro hclear
    have hbare : signatures'.bare = signatures.bare := by
      rw [hx, hy]
      exact Signatures.sorted_eq_of_perm (Design.entries_redeclared hp hn he he' hclear)
        (by rw [Design.names_entries]; exact hn')
    refine ⟨hbare, fun f => ?_⟩
    rw [← f.dump_bare, hbare, f.dump_bare]

namespace Design

/-- A document in which a sentence of `w` holds a number for a parameter whose type depends on the call
that is seen first. -/
abbrev spokenText : String := "<project><name>p</name><actionwords>
  <actionword><name>say \"x\"</name><parameters>
    <parameter><name>x</name></parameter></parameters></actionword>
  <actionword><name>u</name><steps><call><actionword>say \"x\"</actionword><arguments>
    <argument><name>x</name><value><numericliteral>1</numericliteral></value></argument>
    </arguments></call>
    <action><key>given</key><value><stringliteral>say \"no\"</stringliteral></value></action>
    </steps></actionword>
  <actionword><name>w</name><steps><call><actionword>say \"x\"</actionword><arguments>
    <argument><name>x</name><value><stringliteral>a</stringliteral></value></argument>
    </arguments></call>
    <action><key>given</key><value><stringliteral>say \"5\"</stringliteral></value></action>
    </steps></actionword>
  </actionwords></project>"

/-- The document with its action words in reverse order. -/
abbrev backwardText : String := "<project><name>p</name><actionwords>
  <actionword><name>w</name><steps><call><actionword>say \"x\"</actionword><arguments>
    <argument><name>x</name><value><stringliteral>a</stringliteral></value></argument>
    </arguments></call>
    <action><key>given</key><value><stringliteral>say \"5\"</stringliteral></value></action>
    </steps></actionword>
  <actionword><name>u</name><steps><call><actionword>say \"x\"</actionword><arguments>
    <argument><name>x</name><value><numericliteral>1</numericliteral></value></argument>
    </arguments></call>
    <action><key>given</key><value><stringliteral>say \"no\"</stringliteral></value></action>
    </steps></actionword>
  <actionword><name>say \"x\"</name><parameters>
    <parameter><name>x</name></parameter></parameters></actionword>
  </actionwords></project>"

/-- An action word whose parameters have names only. -/
def untypedWord (name : String) (parameters : List String) (steps : List WrittenStep) :
    WrittenDefinition where
  name := name
  uid := none
  description := ""
  tags := []
  parameters := parameters.map fun name => { name, type := none, default := none }
  steps := steps

/-- The word of the document with a clear sentence. -/
def clearWord : WrittenDefinition := untypedWord "u" [] [
  .call "say \"x\"" none [⟨some "x", .numeric "1"⟩], .plain "given" (.string "say \"no\"")]

/-- The design that the document describes. -/
def spokenDesign : Design where
  name := "p"
  description := ""
  scenarios := []
  actionWords := [
    untypedWord "say \"x\"" ["x"] [],
    clearWord,
    untypedWord "w" [] [.call "say \"x\"" none [⟨some "x", .string "a"⟩],
      .plain "given" (.string "say \"5\"")]]

/-- The design of the document with its action words in reverse order. -/
abbrev backward : Design := spokenDesign.redeclared spokenDesign.actionWords.reverse

set_option maxRecDepth 4000 in
theorem ofText_spoken : ofText spokenText = .ok spokenDesign :=
  ofText_eq_ok (by decide +kernel)

set_option maxRecDepth 4000 in
theorem ofText_backward : ofText backwardText = .ok backward :=
  ofText_eq_ok (by decide +kernel)

theorem readGraph_spoken : readGraph spokenText true = .ok spokenDesign.graph :=
  readGraph_eq_ok.2 ⟨_, ofText_spoken, fun _ => by decide, rfl⟩

end Design

theorem order_of_spoken_is_not_told :
    (Design.ofText Design.spokenText = .ok Design.spokenDesign ∧
      Design.readGraph Design.spokenText true = .ok Design.spokenDesign.graph ∧
      Design.spokenDesign.declared.Nodup ∧ Design.spokenDesign.ClearIn Design.clearWord) ∧
    ∃ g', Design.readGraph Design.backwardText true = .ok g' ∧
      Ensures enrich ⟨Design.spokenDesign.graph, {}⟩ fun _ s => Ensures enrich ⟨g', {}⟩ fun _ s' =>
        Ensures (exportSignatures {}) s fun signatures _ =>
          Ensures (exportSignatures {}) s' fun signatures' _ =>
            signatures'.outward = signatures.outward ∧
              ∃ x y, signatures.lookup "u" = some x ∧ signatures'.lookup "u" = some y ∧
                x.bare = y.bare := by
  have hnames : Design.spokenDesign.declared.Nodup := by decide
  have hclear : Design.spokenDesign.ClearIn Design.clearWord := by decide +kernel
  refine ⟨⟨Design.ofText_spoken, Design.readGraph_spoken, hnames, hclear⟩, ?_⟩
  obtain ⟨g', hg', h⟩ := order_is_not_told Design.ofText_spoken Design.readGraph_spoken hnames
    (List.reverse_perm _) Design.ofText_backward {} {} {}
  refine ⟨g', hg', h.mono fun _ s h => h.mono fun _ s' h => h.mono fun x _ h => h.mono fun y _ h => ?_⟩
  exact ⟨h.1, h.2.1 Design.clearWord (by decide) fun _ => hclear⟩

/-- The signatures after a run. -/
def enrichAndExport : Work Signatures := do
  let _ ← enrich
  exportSignatures {}

/-- The fingerprint of the action word of a name. -/
def Signatures.bodyHash? (s : Signatures) (name : String) : Option String :=
  (s.lookup name).bind (·.bodyHash)

/-- **Declaration order may show** in the fingerprint of a body with an unclear sentence. -/
theorem order_may_show :
    (Design.ofText Design.spokenText = .ok Design.spokenDesign ∧
      Design.readGraph Design.spokenText true = .ok Design.spokenDesign.graph ∧
      Design.spokenDesign.declared.Nodup ∧ Design.ofText Design.backwardText = .ok
        (Design.spokenDesign.redeclared Design.spokenDesign.actionWords.reverse)) ∧
    Ensures enrich ⟨Design.spokenDesign.graph, {}⟩ fun _ s =>
      Ensures enrich ⟨Design.backward.graph, {}⟩ fun _ s' =>
        Ensures (exportSignatures {}) s fun signatures _ =>
          Ensures (exportSignatures {}) s' fun signatures' _ =>
            signatures'.lookup "w" ≠ signatures.lookup "w" := by
  have hforward : Ensures enrichAndExport ⟨Design.spokenDesign.graph, {}⟩ fun x _ =>
      (x.bodyHash? "w" == some
        "2e6931d7ee1cddaec049af1230af0518871c276c456e048243de10f3388a3578") = true :=
    Work.ensures_of_check (by decide +kernel)
  have hbackward : Ensures enrichAndExport ⟨Design.backward.graph, {}⟩ fun x _ =>
      (x.bodyHash? "w" == some
        "0d8bfa14f8e024cb6d70bedc9b2a2801c9edaba9648138b9dcdc0fdeb04911be") = true :=
    Work.ensures_of_check (by decide +kernel)
  simp only [enrichAndExport, Work.ensures_bind] at hforward hbackward
  refine ⟨⟨Design.ofText_spoken, Design.readGraph_spoken, by decide, Design.ofText_backward⟩, ?_⟩
  refine hforward.mono fun _ s hx => hbackward.mono fun _ s' hy => hx.mono fun x _ hx =>
    hy.mono fun y _ hy heq => ?_
  have hsame : y.bodyHash? "w" = x.bodyHash? "w" := by
    rw [Signatures.bodyHash?, Signatures.bodyHash?, heq]
  rw [eq_of_beq hx, eq_of_beq hy] at hsame
  revert hsame
  decide

end Actionbook
