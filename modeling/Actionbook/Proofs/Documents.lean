import Actionbook.Proofs.CanonicalText
import Actionbook.Proofs.Snapshots

/-!
# What a document says of its action words

* `Design.named_of_ofText`: in a document that is accepted no name is empty.
* `Design.unknownCall?_eq_none`: strict reading looks at the names that are called, and at no more.
* `Design.ensures_exportSignatures`: what a document exports, by its action words and the types that a
  run gives their parameters.
* `Design.ensures_exportSignatures_of_unsaid`: a document without sentences exports `Design.signatures`,
  for which types do not matter.
-/

namespace Actionbook

open Work (Ensures)
open Xml (Element)

/-! ## Reading -/

theorem bind_eq_ok {ε α β : Type} {x : Except ε α} {f : α → Except ε β} {b : β} :
    (x >>= f) = .ok b ↔ ∃ a, x = .ok a ∧ f a = .ok b := by
  cases x with
  | error e => exact iff_of_false nofun (by rintro ⟨a, h, -⟩; cases h)
  | ok a => exact ⟨fun h => ⟨a, rfl, h⟩, by rintro ⟨a, h, hf⟩; cases h; exact hf⟩

/-- What a list is made into comes from its elements. -/
theorem exists_of_mapM_ok {ε α β : Type} {f : α → Except ε β} {l : List α} {l' : List β}
    (h : l.mapM f = .ok l') {b : β} (hb : b ∈ l') : ∃ a ∈ l, f a = .ok b := by
  induction l generalizing l' with
  | nil => cases h; cases hb
  | cons a l ih =>
    rw [List.mapM_cons] at h
    obtain ⟨c, ha, h⟩ := bind_eq_ok.1 h
    obtain ⟨l'', hl, h⟩ := bind_eq_ok.1 h
    cases h
    rcases List.mem_cons.1 hb with rfl | hb
    · exact ⟨a, List.mem_cons_self, ha⟩
    · obtain ⟨a', ha', hb'⟩ := ih hl hb
      exact ⟨a', List.mem_cons_of_mem _ ha', hb'⟩

/-- What a list is made into has something for each of its elements. -/
theorem mem_of_mapM_ok {ε α β : Type} {f : α → Except ε β} {l : List α} {l' : List β}
    (h : l.mapM f = .ok l') {a : α} (ha : a ∈ l) : ∃ b ∈ l', f a = .ok b := by
  induction l generalizing l' with
  | nil => cases ha
  | cons c l ih =>
    rw [List.mapM_cons] at h
    obtain ⟨b, hb, h⟩ := bind_eq_ok.1 h
    obtain ⟨l'', hl, h⟩ := bind_eq_ok.1 h
    cases h
    rcases List.mem_cons.1 ha with rfl | ha
    · exact ⟨b, List.mem_cons_self, hb⟩
    · obtain ⟨b', hb', hf⟩ := ih hl ha
      exact ⟨b', List.mem_cons_of_mem _ hb', hf⟩

/-- Something is made of a list if something is made of each of its elements. -/
theorem exists_mapM_ok {ε α β : Type} {f : α → Except ε β} {l : List α}
    (h : ∀ a ∈ l, ∃ b, f a = .ok b) : ∃ l', l.mapM f = .ok l' := by
  induction l with
  | nil => exact ⟨[], rfl⟩
  | cons a l ih =>
    obtain ⟨b, hb⟩ := h a List.mem_cons_self
    obtain ⟨l', hl⟩ := ih fun c hc => h c (List.mem_cons_of_mem _ hc)
    exact ⟨b :: l', by rw [List.mapM_cons, hb, hl]; rfl⟩

/-- The places stay. -/
theorem getElem?_of_mapM_ok {ε α β : Type} {f : α → Except ε β} {l : List α} {l' : List β} {j : Nat}
    {a : α} {b : β} (h : l.mapM f = .ok l') (ha : l[j]? = some a) (hb : f a = .ok b) :
    l'[j]? = some b := by
  induction l generalizing l' j with
  | nil => cases ha
  | cons c l ih =>
    rw [List.mapM_cons] at h
    obtain ⟨b', hb', h⟩ := bind_eq_ok.1 h
    obtain ⟨l'', hl, h⟩ := bind_eq_ok.1 h
    cases h
    cases j with
    | zero =>
      cases ha
      cases hb.symm.trans hb'
      rfl
    | succ j => exact (ih hl ha :)

/-- What a list of other things is made into. -/
theorem mapM_map_ok {ε α β : Type} {f f' : α → Except ε β} {k : α → α} {φ : β → β}
    (hf : ∀ a b, f a = .ok b → f' (k a) = .ok (φ b)) {l : List α} {l' : List β}
    (h : l.mapM f = .ok l') : (l.map k).mapM f' = .ok (l'.map φ) := by
  induction l generalizing l' with
  | nil =>
    cases h
    rfl
  | cons a l ih =>
    rw [List.mapM_cons] at h
    obtain ⟨b, hb, h⟩ := bind_eq_ok.1 h
    obtain ⟨l'', hl, h⟩ := bind_eq_ok.1 h
    cases h
    rw [List.map_cons, List.mapM_cons, hf a b hb, ih hl]
    rfl

theorem requiredChild_ne_empty {e : Element} {tag owner t : String}
    (h : requiredChild e tag owner = .ok t) : t ≠ "" := by
  unfold requiredChild childText? at h
  dsimp only at h
  split at h
  · rename_i ht
    cases h
    split at ht
    · cases ht
    · rename_i hne
      cases ht
      simpa using hne
  · cases h

/-- The name of a definition and those of its parameters are not empty. -/
structure WrittenDefinition.Named (w : WrittenDefinition) : Prop where
  name : w.name ≠ ""
  parameters : ∀ p ∈ w.parameters, p.name ≠ ""

theorem readParameter_name {e : Element} {p : WrittenParameter} (h : readParameter e = .ok p) :
    p.name ≠ "" := by
  obtain ⟨name, hname, h⟩ := bind_eq_ok.1 h
  have hp : p.name = name := by
    split at h
    · cases h
      rfl
    · obtain ⟨default, -, h⟩ := bind_eq_ok.1 h
      cases h
      rfl
  exact hp ▸ requiredChild_ne_empty hname

/-- The name and the parameters of a definition are read from its element. -/
theorem readDefinition_parameters {owner : String} {e : Element} {w : WrittenDefinition}
    (h : readDefinition owner e = .ok w) : requiredChild e "name" owner = .ok w.name ∧
      (e.grandchildren "parameters" "parameter").mapM readParameter = .ok w.parameters := by
  obtain ⟨name, hname, h⟩ := bind_eq_ok.1 h
  obtain ⟨tags, -, h⟩ := bind_eq_ok.1 h
  obtain ⟨parameters, hparameters, h⟩ := bind_eq_ok.1 h
  have hw : w.name = name ∧ w.parameters = parameters := by
    split at h
    · cases h
      exact ⟨rfl, rfl⟩
    · obtain ⟨steps, -, h⟩ := bind_eq_ok.1 h
      cases h
      exact ⟨rfl, rfl⟩
  exact ⟨hw.1 ▸ hname, hw.2 ▸ hparameters⟩

theorem readDefinition_named {owner : String} {e : Element} {w : WrittenDefinition}
    (h : readDefinition owner e = .ok w) : w.Named := by
  obtain ⟨hname, hparameters⟩ := readDefinition_parameters h
  refine ⟨requiredChild_ne_empty hname, fun p hp => ?_⟩
  obtain ⟨e, -, he⟩ := exists_of_mapM_ok hparameters hp
  exact readParameter_name he

/-! ## Calls -/

theorem filterMap_layOutAll {α β : Type} (contents : Nat → α → List Content) {φ : Content → Option β}
    {ψ : α → List β} (h : ∀ place a, (contents place a).filterMap φ = ψ a) (place : Nat) (l : List α) :
    (layOutAll contents place l).2.filterMap φ = l.flatMap ψ := by
  induction l generalizing place with
  | nil => rfl
  | cons a l ih => rw [layOutAll, List.filterMap_append, h, ih, List.flatMap_cons]

/-- `φ` reads off the nodes of a step what `ψ` says of it, and nothing off nodes that belong to no step. -/
structure ReadsSteps {β : Type} (φ : Content → Option β) (ψ : WrittenStep → Option β) : Prop where
  step : ∀ place (s : WrittenStep), (s.contents place).filterMap φ = (ψ s).toList
  other : ∀ c : Content, c.kind ≠ .call → c.kind ≠ .step → φ c = none

section
variable {β : Type} {φ : Content → Option β} {ψ : WrittenStep → Option β} (hr : ReadsSteps φ ψ)
include hr

theorem ReadsSteps.definition {wrap : Definition → Content} (hwrap : ∀ d, φ (wrap d) = none)
    (place : Nat) (w : WrittenDefinition) :
    (w.contents wrap place).filterMap φ = w.steps.filterMap ψ := by
  have hparameters : (w.parameters.map WrittenParameter.content).filterMap φ = [] := by
    refine List.filterMap_eq_nil_iff.2 (List.forall_mem_map.2 fun p _ => ?_)
    exact hr.other _ nofun nofun
  simp only [WrittenDefinition.contents, List.cons_append, List.filterMap_cons, hwrap,
    List.filterMap_append, hparameters, filterMap_layOutAll WrittenStep.contents hr.step,
    List.nil_append, ← List.filterMap_eq_flatMap_toList]

end

/-- The name that a node calls. -/
def Content.callee? (c : Content) : Option String := c.call?.map (·.actionWord)

theorem readsSteps_callee : ReadsSteps Content.callee? WrittenStep.callee? where
  step := by
    intro place s
    cases s with
    | plain key value => rfl
    | call word keyword args =>
      have hargs : (args.map WrittenArgument.content).filterMap Content.callee? = [] := by
        simp [WrittenArgument.content, Content.callee?, Content.call?]
      rw [WrittenStep.contents, List.filterMap_cons, hargs]
      rfl
  other := by
    rintro (_ | _ | _ | _ | _ | _ | _ | _) hcall hstep <;> first | rfl | exact absurd rfl hcall

namespace Design

variable {d : Design} {g g' m : Graph} {r : Report}

/-- The steps of all bodies. -/
def steps (d : Design) : List WrittenStep := d.scenarios.flatMap (·.steps) ++ d.actionWords.flatMap (·.steps)

/-- The names of the action words. -/
def declared (d : Design) : List String := d.actionWords.map (·.name)

/-- The names that are called. -/
def called (d : Design) : List String := d.steps.filterMap WrittenStep.callee?

/-- The action words of a document are read from its elements. -/
theorem exists_of_ofText {text : String} (h : ofText text = .ok d) :
    ∀ w ∈ d.actionWords, ∃ e, readDefinition "actionword" e = .ok w := by
  unfold ofText at h
  split at h
  · unfold ofElement at h
    split at h
    · obtain ⟨_, hthrow, -⟩ := bind_eq_ok.1 h
      cases hthrow
    obtain ⟨name, -, h⟩ := bind_eq_ok.1 h
    obtain ⟨scenarios, -, h⟩ := bind_eq_ok.1 h
    obtain ⟨words, hwords, h⟩ := bind_eq_ok.1 h
    cases h
    intro w hw
    obtain ⟨e, -, he⟩ := exists_of_mapM_ok hwords hw
    exact ⟨e, he⟩
  · cases h

theorem named_of_ofText {text : String} (h : ofText text = .ok d) : ∀ w ∈ d.actionWords, w.Named := by
  intro w hw
  obtain ⟨e, he⟩ := exists_of_ofText h w hw
  exact readDefinition_named he

/-- What is read off the nodes of all steps. -/
theorem filterMap_contents {β : Type} {φ : Content → Option β} {ψ : WrittenStep → Option β}
    (hr : ReadsSteps φ ψ) (d : Design) : d.contents.filterMap φ = d.steps.filterMap ψ := by
  have hproject : ∀ p, φ (.project p) = none := fun _ => hr.other _ nofun nofun
  have hscenario : ∀ s, φ (.scenario s) = none := fun _ => hr.other _ nofun nofun
  have hword : ∀ w, φ (.actionWord w) = none := fun _ => hr.other _ nofun nofun
  have hscenarios := filterMap_layOutAll WrittenScenario.contents
    (fun place s => hr.definition (fun _ => hscenario _) place s.toWrittenDefinition) 1 d.scenarios
  have hwords := fun place => filterMap_layOutAll WrittenDefinition.wordContents
    (fun place w => hr.definition (fun _ => hword _) place w) place d.actionWords
  simp only [contents, List.cons_append, List.filterMap_cons, List.filterMap_append, hscenarios,
    hwords, hproject]
  simp [steps, List.filterMap_flatMap]

/-- Strict reading refuses calls of names that are not declared. -/
theorem unknownCall?_eq_none : d.unknownCall? = none ↔ ∀ name ∈ d.called, name ∈ d.declared := by
  have hall : d.unknownCall? = none ↔ ∀ e ∈ d.contents.zipIdx, ∀ name, e.1.callee? = some name →
      name ∈ d.declared := by
    rw [unknownCall?, List.findSome?_eq_none_iff]
    refine forall₂_congr fun e _ => ?_
    obtain ⟨c, i⟩ := e
    cases hc : c.call? with
    | none => simp [hc, Content.callee?]
    | some call => simp [hc, Content.callee?, declared]
  rw [hall, called, ← filterMap_contents readsSteps_callee]
  simp only [List.mem_filterMap]
  constructor
  · rintro h name ⟨c, hc, hname⟩
    obtain ⟨e, he, rfl⟩ : ∃ e ∈ d.contents.zipIdx, e.1 = c := by
      rw [← List.zipIdx_map_fst 0 d.contents] at hc
      exact List.mem_map.1 hc
    exact h e he name hname
  · exact fun h e he name hname => h name ⟨e.1, List.fst_mem_of_mem_zipIdx he, hname⟩

/-- What strict reading lets through. -/
theorem readGraph_eq_ok {text : String} {strict : Bool} : readGraph text strict = .ok g ↔
    ∃ d, ofText text = .ok d ∧ (strict → ∀ name ∈ d.called, name ∈ d.declared) ∧ d.graph = g := by
  unfold readGraph
  cases ofText text with
  | error e => simp [bind, Except.bind]
  | ok d =>
    cases strict with
    | false => simp [bind, Except.bind, pure, Except.pure]
    | true =>
      cases hunknown : d.unknownCall? with
      | none =>
        have hcalled := unknownCall?_eq_none.1 hunknown
        simpa [bind, Except.bind, hunknown, pure, Except.pure] using fun _ => hcalled
      | some e =>
        have hcalled : ¬ ∀ name ∈ d.called, name ∈ d.declared :=
          mt unknownCall?_eq_none.2 (by simp [hunknown])
        simpa [bind, Except.bind, hunknown, throw, throwThe, MonadExceptOf.throw] using
          fun h => absurd h hcalled

/-- The action words of the graph have the names that the design gives them. -/
theorem names_words (d : Design) : d.graph.words.map (·.2.name) = d.declared := by
  have hnames := congrArg (List.map (Option.map WrittenDefinition.name)) d.written_words
  have hshown : ∀ w ∈ d.graph.words,
      (d.graph.written? w.2.toDefinition).map (·.name) = some w.2.name := fun w hw => by
    have hd := Graph.definition?_of_actionWord? (Graph.mem_words hw)
    obtain ⟨a, ha⟩ := d.graph_sound.exists_written hd
    rw [ha, (Graph.written?_eq_some.1 ha).2]
    rfl
  rw [List.map_map, List.map_map] at hnames
  have hsome : (d.graph.words.map (·.2.name)).map some = d.declared.map some := by
    rw [List.map_map, declared, List.map_map]
    exact (List.map_congr_left hshown).symm.trans hnames
  exact List.map_injective_iff.2 (Option.some_injective _) hsome

/-- The parameters of the first declared action word of a name, as they were written. -/
theorem exists_of_target? {name : String} {t : Handle} (ht : d.graph.target? name = some t) :
    ∃ a, d.actionWords.find? (·.name == name) = some a ∧
      (d.graph.formals t).map (·.2.written) = a.parameters := by
  obtain ⟨w, hw, rfl⟩ := Option.map_eq_some_iff.1 ht
  have hfind := find?_words d.written_words name
  rw [hw, Option.map_some, eq_comm, Option.map_eq_some_iff] at hfind
  obtain ⟨a, ha, hwritten⟩ := hfind
  have hd := Graph.definition?_of_actionWord? (Graph.mem_words (List.mem_of_find?_eq_some hw))
  refine ⟨a, ha, ?_⟩
  rw [(Graph.written?_eq_some.1 hwritten.symm).2, Graph.formals_eq hd]

/-- The first of the action words with distinct names that has a name is the only one. -/
theorem find?_declared (hn : d.declared.Nodup) {w : WrittenDefinition}
    (hw : w ∈ d.actionWords) :
    d.actionWords.find? (·.name == w.name) = some w := by
  have hkeys : (d.actionWords.map fun w => (w.name, w)).map (·.1) = d.declared := by
    rw [List.map_map]
    rfl
  have hl := lookup_of_nodup (hkeys ▸ hn) (List.mem_map_of_mem (f := fun w => (w.name, w)) hw)
  rwa [lookup_map, Option.map_id'] at hl

/-! ## Signatures -/

/-- The names of the parameters of an action word; a name that is not declared has none. -/
def formalNames (d : Design) (name : String) : List String := (d.parameterNames? name).getD []

/-- The signature of an action word, without a node. -/
def signatureOf (d : Design) (w : WrittenDefinition) : Signature := w.signature d.formalNames {} 0

/-- The signatures of the action words, without nodes. -/
def signatures (d : Design) : Signatures :=
  (Signatures.collect (d.actionWords.map fun w => (w.name, d.signatureOf w)) []).sorted

/-- No step is a sentence. -/
def Unsaid (d : Design) : Prop :=
  ∀ key value, .plain key value ∈ d.steps → sentenceKeywords.contains key = false

theorem lookup_signatures (d : Design) (name : String) :
    d.signatures.lookup name = (d.actionWords.find? (·.name == name)).map d.signatureOf := by
  rw [signatures, Signatures.lookup_sorted_collect, lookup_map]

theorem nodup_signatures (d : Design) : (d.signatures.map (·.1)).Nodup :=
  ((Signatures.sorted_perm _).map _).nodup_iff.2 (Signatures.nodup_collect _ List.nodup_nil)

theorem sorted_signatures (d : Design) : d.signatures.sorted = d.signatures :=
  sortBy_eq_self (Signatures.sorted_sorted _)

theorem proper_signatures (hd : ∀ w ∈ d.actionWords, w.Named) : d.signatures.Proper := by
  have hmem : ∀ e ∈ d.signatures, ∃ w ∈ d.actionWords, (w.name, d.signatureOf w) = e := fun e he =>
    List.mem_map.1 (Signatures.mem_of_mem_collect ((Signatures.sorted_perm _).subset he))
  refine ⟨fun e he => ?_, fun e he => ?_, d.nodup_signatures⟩
  · obtain ⟨w, -, rfl⟩ := hmem e he
    rfl
  · obtain ⟨w, hw, rfl⟩ := hmem e he
    refine ⟨(hd w hw).name, fun p hp => ?_⟩
    obtain ⟨q, hq, rfl⟩ := List.mem_map.1 hp
    exact (hd w hw).parameters q hq

/-- What the design says of an action word when its sentences are calls. -/
def spoken (d : Design) (types : String → List (Option String)) (w : WrittenDefinition) :
    WrittenDefinition := w.spoken d.declared d.formalNames types

/-- What is exported of the action words when their parameters have the given types, without nodes and
before it is put in order. -/
def entries (d : Design) (types : String → List (Option String)) (options : ExportOptions) :
    List (String × Signature) :=
  d.actionWords.map fun w => (w.name, ((d.spoken types w).signature d.formalNames options 0).bare)

/-- After a run, the signatures in the graph are made from the action words with their sentences spoken
out. -/
theorem bare_entries (he : d.graph.Enriched m g') (options : ExportOptions) :
    Signatures.bare (g'.entries options) = d.entries m.formalTypes options := by
  have hf := he.follows
  have hbefore : d.graph.formalNames = d.formalNames := funext d.formalNames_graph
  have hnames : g'.formalNames = d.formalNames :=
    (Graph.formalNames_congr hf.root hf.fixed).trans hbefore
  -- the action words of the graph, read as they were written
  let shown : Option WrittenDefinition → String × Signature := fun o =>
    (o.map fun w => (w.name, ((d.spoken m.formalTypes w).signature d.formalNames options 0).bare)).getD
      ("", { name := "" })
  have hshown : ∀ w ∈ d.graph.words, (w.2.name, (g'.signature options w.1 w.2.toDefinition).bare) =
      shown (d.graph.written? w.2.toDefinition) := by
    intro w hw
    have hd := Graph.definition?_of_actionWord? (Graph.mem_words hw)
    obtain ⟨a, hwritten⟩ := d.graph_sound.exists_written hd
    have hafter := he.written? hd hwritten
    rw [d.names_words, hbefore] at hafter
    rw [Graph.signature_eq _ _ hafter, hwritten, hnames]
    have hname : w.2.name = a.name := by rw [(Graph.written?_eq_some.1 hwritten).2]
    exact Prod.ext hname rfl
  have hwords : g'.entries options = d.graph.words.map fun w =>
      (w.2.name, g'.signature options w.1 w.2.toDefinition) := by
    have h := congrArg (List.map fun e : Handle × Definition =>
      (e.2.name, g'.signature options e.1 e.2)) (Graph.words_congr hf.root hf.fixed)
    rw [List.map_map, List.map_map] at h
    exact h
  rw [hwords, Signatures.bare, List.map_map]
  calc d.graph.words.map _ = d.graph.words.map fun w => shown (d.graph.written? w.2.toDefinition) :=
        List.map_congr_left hshown
    _ = (d.actionWords.map some).map shown := by rw [← d.written_words, List.map_map]; rfl
    _ = _ := by rw [List.map_map]; rfl

/-- **What a document exports** after a run, apart from the nodes: the signatures of its action words
with their sentences spoken out. -/
theorem ensures_exportSignatures (he : d.graph.Enriched m g') (options : ExportOptions) :
    Ensures (exportSignatures options) ⟨g', r⟩ fun result _ =>
      result.bare = (Signatures.collect (d.entries m.formalTypes options) []).sorted := by
  refine (Graph.ensures_exportSignatures he.after.sound (Design.told he) _).mono ?_
  rintro result - rfl
  rw [← Signatures.sorted_bare, Signatures.bare_collect, bare_entries he options]
  rfl

/-- A document without sentences exports the signatures that it has, apart from the nodes. -/
theorem ensures_exportSignatures_of_unsaid (he : d.graph.Enriched m g') (hplain : d.Unsaid)
    (attach : Bool) : Ensures (exportSignatures { attachNodes := attach }) ⟨g', r⟩ fun result _ =>
      result.bare = d.signatures := by
  refine (ensures_exportSignatures he _).mono fun result _ hresult => hresult.trans ?_
  rw [signatures]
  refine congrArg (fun l => (Signatures.collect l []).sorted) (List.map_congr_left fun w hw => ?_)
  have hsteps : ∀ key value, .plain key value ∈ w.steps → sentenceKeywords.contains key = false :=
    fun key value hm => hplain key value (List.mem_append_right _ (List.mem_flatMap.2 ⟨w, hw, hm⟩))
  rw [spoken, WrittenDefinition.spoken_eq_self hsteps]
  rfl

end Design

end Actionbook
