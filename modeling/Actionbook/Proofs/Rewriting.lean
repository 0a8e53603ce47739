import Actionbook.Proofs.Declarations
import Actionbook.Proofs.Literals
import Actionbook.Proofs.Spelling

/-!
# What becomes of sentences

A sentence under a keyword is the name of an action word with other texts between its quotes, or it is not:
`Sentence.Fits` says so without any pattern. What a run makes of it (`Graph.Rewritten`) follows from that.

* `Sentence.isSome_captures?`: the pattern of a name is followed by just the sentences that are spelled so.
  The line break that patterns overlook at the end does not count, since sentences have no blanks there.
* `Conveyed`: the arguments of the call. Of several texts for a parameter it takes the first one.
* `sentences_are_rewritten`: what a run makes of the sentences of a document.
-/

namespace Actionbook

open Work (Ensures)

/-! ## Sentences and names -/

namespace Sentence

variable {name sentence : String} {texts texts' : List String}

theorem closed_withoutKeyword (sentence keyword : String) :
    Text.Closed (withoutKeyword sentence keyword).toList := by
  simp only [withoutKeyword]
  split
  · exact Text.closed_trim _
  · exact Text.closed_trim _

/-- With these texts, one for each placeholder and none with a line break, the name is the sentence. -/
structure Fits (name sentence : String) (texts : List String) : Prop where
  each : texts.length = (placeholders name).length
  unbroken : ∀ text ∈ texts, '\n' ∉ text.toList
  spelled : spelled name texts = sentence

/-- With some texts the name is the sentence. -/
def Admits (name sentence : String) : Prop := ∃ texts, Fits name sentence texts

theorem Fits.reads (hf : Fits name sentence texts) :
    Reads (pieces name.toList) sentence.toList (texts.map String.toList) := by
  have hlen : (texts.map String.toList).length = (ownTexts (pieces name.toList)).length := by
    rw [List.length_map, hf.each, placeholders_eq, List.length_map]
  rw [← hf.spelled, Sentence.spelled, String.toList_ofList]
  exact reads_spell hlen (List.forall_mem_map.2 hf.unbroken)

/-- What is captured fits. -/
theorem fits_of_captures? (hs : Text.Closed sentence.toList) (hc : captures? name sentence = some texts) :
    Fits name sentence texts := by
  obtain ⟨-, hn, e, rfl | rfl, heq⟩ := (reads_of_captures? hc).eq_spell
  · refine ⟨length_of_captures? hc, fun text ht => hn _ (List.mem_map_of_mem ht),
      String.toList_injective ?_⟩
    rw [heq, spelled, String.toList_ofList, List.append_nil]
  · exact absurd heq (hs _)

/-- **A sentence follows the pattern of a name if and only if the name admits it.** -/
theorem isSome_captures? (hs : Text.Closed sentence.toList) :
    (captures? name sentence).isSome ↔ Admits name sentence := by
  rw [Option.isSome_iff_exists]
  constructor
  · rintro ⟨texts, hc⟩
    exact ⟨texts, fits_of_captures? hs hc⟩
  · rintro ⟨texts, hf⟩
    obtain ⟨found, hfound⟩ := Option.isSome_iff_exists.1 (isSome_matchPieces hf.reads)
    exact ⟨_, by rw [captures?, hfound]; rfl⟩

theorem captures?_eq_none (hs : Text.Closed sentence.toList) :
    captures? name sentence = none ↔ ¬ Admits name sentence := by
  rw [← isSome_captures? hs, Option.not_isSome_iff_eq_none]

/-- Of all texts that fit, those are captured that are longer at the earlier placeholders. -/
theorem Fits.eq_or_outreaches (hf : Fits name sentence texts')
    (hc : captures? name sentence = some texts) :
    texts' = texts ∨ Outreaches (texts.map String.toList) (texts'.map String.toList) := by
  obtain ⟨found, hfound, rfl⟩ := Option.map_eq_some_iff.1 hc
  rw [map_toList_ofList]
  refine (eq_or_outreaches_of_matchPieces hfound hf.reads).imp_left fun heq => ?_
  rw [← map_toList_ofList found] at heq
  exact List.map_injective_iff.2 (fun _ _ => String.toList_injective) heq

end Sentence

open Sentence (Admits Fits)

theorem Step.closed_sentence (s : Step) : Text.Closed s.sentence.toList :=
  Sentence.closed_withoutKeyword _ _

/-! ## Captured texts as arguments -/

/-- The arguments that texts become which have been captured for the names of parameters. The first text
for a name belongs to the first parameter of that name and is a literal of its type; `seen` are the names
for which there have been texts before. Another text for the same name belongs to no parameter and stays as
it is. -/
inductive Conveyed (formals : List (Handle × Parameter)) :
    List String → List (String × String) → List Argument → Prop
  | nil {seen : List String} : Conveyed formals seen [] []
  | first {seen : List String} {name text : String} {p : Handle × Parameter}
      {captured : List (String × String)} {args : List Argument} (hseen : name ∉ seen)
      (hp : formals.find? (·.2.name == name) = some p)
      (h : Conveyed formals (name :: seen) captured args) :
      Conveyed formals seen ((name, text) :: captured)
        ({ name := some name, value := .ofCaptured text p.2.type, parameter := some p.1 } :: args)
  | further {seen : List String} {name text : String} {captured : List (String × String)}
      {args : List Argument} (hseen : name ∈ seen) (h : Conveyed formals seen captured args) :
      Conveyed formals seen ((name, text) :: captured)
        ({ name := some name, value := .string text, unresolved := true } :: args)

/-- Captured arguments that are bound and given their types: the parameters of the names `seen` are
`taken`. -/
theorem conveyed_assign {g : Graph} {formals : List (Handle × Parameter)}
    (hn : (formals.map (·.1)).Nodup) (hp : ∀ p ∈ formals, g.parameter? p.1 = some p.2)
    {captured : List (String × String)} {args : List (Handle × Argument)}
    (hargs : args.map (·.2) = captured.map capturedArgument)
    (hnamed : ∀ c ∈ captured, c.1 ∈ formals.map (·.2.name)) {taken : List Handle} {seen : List String}
    (htaken : ∀ name p, formals.find? (·.2.name == name) = some p → (p.1 ∈ taken ↔ name ∈ seen))
    (position : Nat) : Conveyed formals seen captured
      ((assign formals position taken args).map fun e => g.retyped e.2) := by
  induction captured generalizing args taken seen position with
  | nil =>
    rw [List.map_nil, List.map_eq_nil_iff] at hargs
    subst hargs
    exact .nil
  | cons c captured ih =>
    obtain ⟨name, text⟩ := c
    obtain ⟨e, args, rfl, he, hargs⟩ := List.map_eq_cons_iff.1 hargs
    have hnamed' := fun c hc => hnamed c (List.mem_cons_of_mem _ hc)
    obtain ⟨p, hfind⟩ : ∃ p, formals.find? (·.2.name == name) = some p := by
      obtain ⟨p, hpm, hname⟩ := List.mem_map.1 (hnamed _ List.mem_cons_self)
      exact Option.isSome_iff_exists.1 (List.find?_isSome.2 ⟨p, hpm, by simp [hname]⟩)
    have hmem := List.mem_of_find?_eq_some hfind
    have hfree : freeParameter formals taken e.2 position =
        (some p).filter fun p => !taken.contains p.1 := by
      rw [← hfind, he]
      rfl
    by_cases hseen : name ∈ seen
    · have hin := (htaken name p hfind).2 hseen
      have hfree : freeParameter formals taken e.2 position = none := by rw [hfree]; simp [hin]
      rw [assign_none hfree, List.map_cons, he]
      exact .further hseen (ih hargs hnamed' htaken _)
    · have hout := fun hin => hseen ((htaken name p hfind).1 hin)
      have hfree : freeParameter formals taken e.2 position = some p := by
        rw [hfree]
        exact Option.filter_eq_some_iff.2 ⟨rfl, by simpa using hout⟩
      rw [assign_some hfree, List.map_cons, he]
      have hretyped : g.retyped ((capturedArgument (name, text)).boundTo p.1) =
          { name := some name, value := .ofCaptured text p.2.type, parameter := some p.1 } := by
        simp only [Graph.retyped, Argument.boundTo, Option.bind_some, hp p hmem]
        rfl
      rw [hretyped]
      refine .first hseen hfind (ih hargs hnamed' (fun name' q hq => ?_) _)
      -- one more parameter is taken, and one more name has been seen
      have hsame : q.1 = p.1 ↔ name' = name := by
        constructor
        · intro h
          cases List.inj_on_of_nodup_map hn (List.mem_of_find?_eq_some hq) hmem h
          have hname : p.2.name = name := by simpa using List.find?_some hfind
          have hname' : p.2.name = name' := by simpa using List.find?_some hq
          exact hname'.symm.trans hname
        · rintro rfl
          rw [Option.some.inj (hq.symm.trans hfind)]
      rw [List.mem_cons, List.mem_cons, hsame, htaken name' q hq]

namespace Graph

variable {g g' m : Graph} {h k : Handle} {s : Step}

/-! ## Calls for sentences -/

/-- The arguments of a call that do not stand for defaults. -/
def explicitArguments (g : Graph) (c : Call) : List Argument :=
  ((g.arguments c).filter (!·.2.synthesized)).map (·.2)

/-- The call `c` stands for the sentence of the step `s`: it is a call of the action word `word`, and in the
sentence `texts` stand for the placeholders of the name of this. -/
structure StandsFor (g : Graph) (s : Step) (word : Handle × ActionWord) (texts : List String)
    (c : Call) : Prop where
  actionWord : c.actionWord = word.2.name
  keyword : c.keyword = some s.key
  resolved : c.resolved = some true
  target : c.target = some word.1
  fits : Fits word.2.name s.sentence texts
  /-- Of all texts that fit these are the longest, the earlier placeholders first. -/
  longest : ∀ texts', Fits word.2.name s.sentence texts' →
    texts' = texts ∨ Sentence.Outreaches (texts.map String.toList) (texts'.map String.toList)
  arguments : Conveyed (g.formals word.1) []
    (capturedArguments ((g.formals word.1).map (·.2.name)) word.2.name texts) (g.explicitArguments c)

/-- What a run from `g` to `g'` makes of the step `s` under a keyword. -/
structure Rewritten (g g' : Graph) (h : Handle) (s : Step) : Prop where
  iff : (∃ c, g'.content? h = some (.call c)) ↔ ∃ word ∈ g.words, Admits word.2.name s.sentence
  /-- The call is one of the first action word that admits the sentence. -/
  first : ∀ c, g'.content? h = some (.call c) → ∃ before word after texts,
    g.words = before ++ word :: after ∧ (∀ w ∈ before, ¬ Admits w.2.name s.sentence) ∧
      g'.StandsFor s word texts c
  stays : (¬ ∃ word ∈ g.words, Admits word.2.name s.sentence) →
    ∃ effective, g'.content? h = some (.step { s with effective := some effective })

/-- The arguments of the call that takes the place of a sentence. -/
theorem Placed.conveyed {word : Handle × ActionWord} {key : String} {texts : List String}
    {y : CallState} (hs : g.Sound) (hword : g.target? word.2.name = some word.1)
    (hy : g.Placed word key texts y) : Conveyed (g.formals word.1) []
      (capturedArguments ((g.formals word.1).map (·.2.name)) word.2.name texts)
      ((y.arguments.filter (!·.2.synthesized)).map (·.2)) := by
  obtain ⟨args, hargs, hc⟩ := hy
  rw [hword] at hc
  have hexplicit := ((explicit_start hargs word.2.name key).bindTo g.formals
    (some word.1)).retyped g
  have hformals : g.formalsOf word.2.name = g.formals word.1 := by rw [formalsOf, hword]; rfl
  rw [CallState.Completed.filter_arguments hc,
    List.filter_eq_self.2 fun e he => by rw [hexplicit e he]; rfl, CallState.retyped, List.map_map]
  exact conveyed_assign (hs.nodup_target hword)
    (fun p hp => parameter?_of_formalsOf (hformals ▸ hp)) hargs
    (fun c hc => List.contains_iff_mem.1 (List.mem_filter.1 hc).2)
    (fun _ _ _ => iff_of_false List.not_mem_nil List.not_mem_nil) 0

/-- The first action word that admits a sentence, found while the graph is gone through or before. -/
theorem exists_first_word (hf : g.Follows m) {word : Handle × ActionWord} {texts : List String}
    (hm : firstMatch? m.words s.sentence = some (word, texts)) : ∃ before v after,
      g.words = before ++ v :: after ∧ (∀ w ∈ before, ¬ Admits w.2.name s.sentence) ∧
        Sentence.captures? v.2.name s.sentence = some texts ∧
          v.1 = word.1 ∧ v.2.name = word.2.name := by
  let shown (w : Handle × ActionWord) : Handle × String := (w.1, w.2.name)
  have hsame : m.words.map shown = g.words.map shown := by
    have h := congrArg (List.map fun w => (w.1, w.2.name)) (words_congr hf.root hf.fixed)
    rw [List.map_map, List.map_map] at h
    exact h
  have hshows : ∀ x : Graph, _ = (firstMatch? x.words s.sentence).map fun e => (shown e.1, e.2) :=
    fun x => findSome?_captures Prod.snd (fun _ => rfl) x.words s.sentence
  have hfirst := hshows m
  rw [hsame, hshows g, hm] at hfirst
  obtain ⟨⟨v, texts'⟩, hv, hshown⟩ := Option.map_eq_some_iff.1 hfirst
  obtain ⟨before, w, after, hsplit, hw, hbefore⟩ := List.findSome?_eq_some_iff.1 hv
  obtain ⟨texts'', hcaptured, heq⟩ := Option.map_eq_some_iff.1 hw
  cases heq
  obtain ⟨hword, rfl⟩ := Prod.mk.inj hshown
  obtain ⟨hhandle, hname⟩ := Prod.mk.inj hword
  refine ⟨before, v, after, hsplit, fun w hw => ?_, hcaptured, hhandle, hname⟩
  rw [← Sentence.captures?_eq_none s.closed_sentence, ← Option.map_eq_none_iff]
  exact hbefore w hw

/-- The call that takes the place of a sentence stands for it. -/
theorem Enriched.standsFor (he : g.Enriched m g') {v word : Handle × ActionWord} {texts : List String}
    {y : CallState} {effective : Option String} {sentence : String} {c : Call}
    (hcaptured : Sentence.captures? v.2.name s.sentence = some texts) (hhandle : v.1 = word.1)
    (hname : v.2.name = word.2.name) (htarget : m.target? word.2.name = some word.1)
    (hy : m.Placed word s.key texts y) (hz : g'.state? h = some (y.annotated effective sentence))
    (hc : g'.content? h = some (.call c)) : g'.StandsFor s v texts c := by
  obtain ⟨hcontent, hargs⟩ := state?_eq_some.1 hz
  cases hcontent.symm.trans hc
  obtain ⟨hresolved, hcallee⟩ := hy.resolved htarget
  have hconveyed := hy.conveyed he.before.sound htarget
  rw [← he.formals, ← hhandle, ← hname] at hconveyed
  exact {
    actionWord := hy.actionWord.trans hname.symm
    keyword := hy.keyword
    resolved := hresolved
    target := hcallee.trans (congrArg some hhandle.symm)
    fits := Sentence.fits_of_captures? s.closed_sentence hcaptured
    longest := fun texts' hf => hf.eq_or_outreaches hcaptured
    arguments := by
      rw [explicitArguments, ← hargs]
      exact hconveyed }

/-- **What a run makes of a sentence.** -/
theorem Enriched.rewritten (he : g.Enriched m g') {d : Definition} (hd : g.definition? k = some d)
    (hmem : h ∈ d.steps) (hs : g.plain? h = some s) (hk : sentenceKeywords.contains s.key = true) :
    g.Rewritten g' h s := by
  obtain ⟨last, σ, τ, hσ, hτ, hstep⟩ := he.exists_enriches hd hmem
  rw [step?_plain hs] at hσ
  cases hσ
  cases hstep with
  | other hk' =>
    rw [hk] at hk'
    cases hk'
  | sentence _ hm =>
    have hcontent := plain?_eq_some.1 (plain?_of_step? hτ)
    have hcall : ∀ c, g'.content? h ≠ some (.call c) := fun c hc => by
      rw [hcontent] at hc
      cases hc
    have hnone : ¬ ∃ word ∈ g.words, Admits word.2.name s.sentence := by
      rintro ⟨word, hword, hfit⟩
      rw [firstMatch?_eq_none, map_name_words_congr he.before.root he.before.fixed] at hm
      exact (Sentence.captures?_eq_none s.closed_sentence).1
        (hm _ (List.mem_map_of_mem hword)) hfit
    exact ⟨iff_of_false (fun ⟨c, hc⟩ => hcall c hc) hnone, fun c hc => absurd hc (hcall c),
      fun _ => ⟨_, hcontent⟩⟩
  | placed hkey hm hy =>
    rename_i word texts y sentence
    obtain ⟨before, v, after, hsplit, hbefore, hcaptured, hhandle, hname⟩ := exists_first_word he.before hm
    have hcontent := (state?_eq_some.1 (state?_of_step? hτ)).1
    have hstands : ∀ c, g'.content? h = some (.call c) → g'.StandsFor s v texts c := fun c =>
      he.standsFor hcaptured hhandle hname (target?_of_firstMatch? hm) hy (state?_of_step? hτ)
    have hfit : ∃ word ∈ g.words, Admits word.2.name s.sentence :=
      ⟨v, hsplit ▸ List.mem_append_right _ List.mem_cons_self, texts, (hstands _ hcontent).fits⟩
    exact ⟨iff_of_true ⟨_, hcontent⟩ hfit,
      fun c hc => ⟨before, v, after, texts, hsplit, hbefore, hstands c hc⟩,
      fun hnone => absurd hfit hnone⟩

end Graph

end Actionbook
