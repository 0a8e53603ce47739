import Actionbook.Proofs.Steps

/-!
# The graph of a design

A design is laid out in blocks: `Graph.Holds g place l` says that the contents `l` stand in `g` from
`place` on. A block of a step or a definition is read back as what it was laid out from.

* `Design.graph_sound`: the graph of a design is sound.
* `Design.written_words`: reading its action words back gives those of the design.
* `Design.raw`: no call in it has a target, and no argument stands for a default.
-/

namespace Actionbook

/-- A content that enrichment has not touched. -/
def Content.Raw : Content → Prop
  | .call c => c.target = none
  | .argument a => a.synthesized = false
  | _ => True

/-- An argument as it is laid out. -/
def WrittenArgument.argument (a : WrittenArgument) : Argument := { name := a.name, value := a.value }

def Content.kids (c : Content) : List Handle := c.children?.getD []

namespace Graph

variable {g : Graph} {n m : Nat} {h : Handle} {l l' : List Content}

/-! ## Blocks -/

/-- The contents `l` stand in the graph from `place` on. -/
def Holds (g : Graph) (place : Nat) (l : List Content) : Prop :=
  ∀ i c, l[i]? = some c → g.content? ((place + i : Nat) : Int) = some c

theorem holds_cons {c : Content} :
    g.Holds n (c :: l) ↔ g.content? (n : Int) = some c ∧ g.Holds (n + 1) l := by
  constructor
  · intro hh
    refine ⟨hh 0 c rfl, fun i d hd => ?_⟩
    have := hh (i + 1) d hd
    rwa [show n + (i + 1) = n + 1 + i by omega] at this
  · rintro ⟨hc, hh⟩ i d hd
    cases i with
    | zero =>
      cases hd
      exact hc
    | succ i =>
      have := hh i d hd
      rwa [show n + 1 + i = n + (i + 1) by omega] at this

theorem holds_append : g.Holds n (l ++ l') ↔ g.Holds n l ∧ g.Holds (n + l.length) l' := by
  induction l generalizing n with
  | nil => simp [Holds]
  | cons c l ih =>
    rw [List.cons_append, holds_cons, holds_cons, ih, and_assoc, List.length_cons,
      show n + 1 + l.length = n + (l.length + 1) by omega]

/-- The nodes of a block are read back one by one. -/
theorem gather_holds {α β : Type} (view : Content → Option α) {f : β → Content} {k : β → α}
    {l : List β} (hv : ∀ b, view (f b) = some (k b)) (hh : g.Holds n (l.map f)) :
    gather (fun h => (g.content? h).bind view) (handlesFrom n l.length) =
      (handlesFrom n l.length).zip (l.map k) := by
  induction l generalizing n with
  | nil => rfl
  | cons b l ih =>
    obtain ⟨hb, hl⟩ := holds_cons.1 hh
    rw [List.length_cons, handlesFrom_succ, gather_cons (a := k b) (by simp [hb, hv]), ih hl]
    rfl

/-- The nodes of a block are of the kind they are laid out as. -/
theorem kind?_holds {α : Type} {f : α → Content} {t : NodeKind} {l : List α}
    (ht : ∀ a, (f a).kind = t) (hh : g.Holds n (l.map f)) :
    ∀ h ∈ handlesFrom n l.length, g.kind? h = some t := by
  intro h hm
  obtain ⟨i, hi, rfl⟩ := mem_handlesFrom.1 hm
  have := hh i (f l[i]) (by simp [hi])
  rw [kind_eq this, ht]

section
variable {α : Type} {contents : Nat → α → List Content} {as : List α}

/-- Parts that are laid out one after the other are held each at its handle. -/
theorem layOutAll_holds (hh : g.Holds n (layOutAll contents n as).2) :
    List.Forall₂ (fun h a => ∃ m : Nat, h = (m : Int) ∧ g.Holds m (contents m a))
      (layOutAll contents n as).1 as := by
  induction as generalizing n with
  | nil => exact .nil
  | cons a as ih =>
    obtain ⟨h1, h2⟩ := holds_append.1 hh
    exact .cons ⟨n, rfl, h1⟩ (ih h2)

/-- What holds of every part holds of all handles. -/
theorem layOutAll_tops {P : Handle → Prop} (hh : g.Holds n (layOutAll contents n as).2)
    (hP : ∀ (m : Nat) a, g.Holds m (contents m a) → P (m : Int)) :
    ∀ h ∈ (layOutAll contents n as).1, P h := by
  have hblocks := layOutAll_holds hh
  intro h hm
  obtain ⟨i, hi, rfl⟩ := List.getElem_of_mem hm
  obtain ⟨m, e, hm'⟩ := hblocks.get hi (hblocks.length_eq ▸ hi)
  rw [List.get_eq_getElem] at e
  exact e ▸ hP m _ hm'

theorem layOutAll_map {β : Type} {f : Handle → Option β} {k : α → β}
    (hh : g.Holds n (layOutAll contents n as).2)
    (hf : ∀ (m : Nat) a, g.Holds m (contents m a) → f (m : Int) = some (k a)) :
    (layOutAll contents n as).1.map f = as.map fun a => some (k a) := by
  have hblocks := layOutAll_holds hh
  clear hh
  generalize (layOutAll contents n as).1 = tops at hblocks
  induction hblocks with
  | nil => rfl
  | cons hb _ ih =>
    obtain ⟨m, rfl, hm⟩ := hb
    rw [List.map_cons, List.map_cons, hf m _ hm, ih]

/-- What holds of the contents of every part holds of all of them. -/
theorem layOutAll_all {P : Content → Prop} (hh : g.Holds n (layOutAll contents n as).2)
    (hP : ∀ m a, g.Holds m (contents m a) → ∀ c ∈ contents m a, P c) :
    ∀ c ∈ (layOutAll contents n as).2, P c := by
  induction as generalizing n with
  | nil => exact fun c hc => (List.not_mem_nil hc).elim
  | cons a as ih =>
    obtain ⟨h1, h2⟩ := holds_append.1 hh
    intro c hc
    rcases List.mem_append.1 hc with hc | hc
    · exact hP n a h1 c hc
    · exact ih h2 c hc

/-- The handles `tops` and the children in a block are the handles of the block. -/
def Covers (place : Nat) (tops : List Handle) (l : List Content) : Prop :=
  (tops ++ l.flatMap Content.kids).Perm (handlesFrom place l.length)

theorem layOutAll_covers (hc : ∀ m a, Covers m [(m : Int)] (contents m a)) :
    Covers n (layOutAll contents n as).1 (layOutAll contents n as).2 := by
  induction as generalizing n with
  | nil => exact .refl _
  | cons a as ih =>
    have h1 := hc n a
    have h2 := ih (n := n + (contents n a).length)
    unfold Covers at h1 h2 ⊢
    simp only [layOutAll, List.length_append, handlesFrom_add, List.flatMap_append]
    refine List.Perm.trans ?_ (h1.append h2)
    simp only [List.cons_append, List.nil_append]
    refine List.Perm.cons _ ?_
    rw [← List.append_assoc, ← List.append_assoc]
    exact List.perm_append_comm.append_right _

end

theorem flatMap_kids_holds (hh : g.Holds n l) :
    (handlesFrom n l.length).flatMap g.kids = l.flatMap Content.kids := by
  induction l generalizing n with
  | nil => rfl
  | cons c l ih =>
    obtain ⟨hc, hl⟩ := holds_cons.1 hh
    have hkids : g.kids (n : Int) = c.kids := by simp [Graph.kids, hc, Content.kids]
    rw [List.length_cons, handlesFrom_succ, List.flatMap_cons, List.flatMap_cons, hkids, ih hl]

/-! ## Steps -/

/-- A step is read back as it was laid out. -/
theorem saying_holds {s : WrittenStep} (hh : g.Holds n (s.contents n)) :
    g.saying (n : Int) = some s ∧ g.IsStep (n : Int) := by
  cases s with
  | plain key value =>
    obtain ⟨hc, -⟩ := holds_cons.1 hh
    have hp := plain?_eq_some.2 hc
    exact ⟨by simp [saying, step?_plain hp, StepState.saying], isStep_of_plain? hp⟩
  | call actionWord keyword args =>
    obtain ⟨hc, hargs⟩ := holds_cons.1 hh
    have hgather : gather g.argument? (handlesFrom (n + 1) args.length) =
        (handlesFrom (n + 1) args.length).zip (args.map WrittenArgument.argument) :=
      gather_holds Content.argument? (fun _ => rfl) hargs
    have hall : ∀ e ∈ (handlesFrom (n + 1) args.length).zip (args.map WrittenArgument.argument),
        (!e.2.synthesized) = true := by
      intro e he
      obtain ⟨a, -, ha⟩ := List.mem_map.1 (List.of_mem_zip he).2
      rw [← ha]
      rfl
    have hsnd : ((handlesFrom (n + 1) args.length).zip (args.map WrittenArgument.argument)).map (·.2) =
        args.map WrittenArgument.argument :=
      List.map_snd_zip (by simp [length_handlesFrom])
    have hread : ((handlesFrom (n + 1) args.length).zip
        (args.map WrittenArgument.argument)).map StepState.writtenArgument = args := by
      calc _ = (((handlesFrom (n + 1) args.length).zip
              (args.map WrittenArgument.argument)).map (·.2)).map fun a => ⟨a.name, a.value⟩ := by
            rw [List.map_map]
            rfl
        _ = args := by
            rw [hsnd, List.map_map]
            exact List.map_id' args
    refine ⟨?_, isStep_of_state? (state?_call hc)⟩
    simp only [saying, step?_call (state?_call hc), Option.map_some, StepState.saying, arguments,
      hgather, List.filter_eq_self.2 hall, hread]

theorem step_fits {s : WrittenStep} (hh : g.Holds n (s.contents n)) :
    ∀ c ∈ s.contents n, c.Fits g ∧ c.Raw := by
  cases s with
  | plain key value =>
    intro c hc
    obtain rfl := List.mem_singleton.1 hc
    exact ⟨trivial, trivial⟩
  | call actionWord keyword args =>
    intro c hc
    rcases List.mem_cons.1 hc with rfl | hc
    · exact ⟨kind?_holds (fun _ => rfl) (holds_cons.1 hh).2, rfl⟩
    · obtain ⟨a, -, rfl⟩ := List.mem_map.1 hc
      exact ⟨trivial, rfl⟩

theorem step_covers (n : Nat) (s : WrittenStep) : Covers n [(n : Int)] (s.contents n) := by
  cases s with
  | plain key value => exact .refl _
  | call actionWord keyword args =>
    have hnil : (args.map WrittenArgument.content).flatMap Content.kids = [] := by
      rw [List.flatMap_map]
      exact List.flatMap_eq_nil_iff.2 fun _ _ => rfl
    unfold Covers WrittenStep.contents
    rw [List.flatMap_cons, hnil, List.append_nil, List.length_cons, List.length_map, handlesFrom_succ]
    exact .refl _

/-! ## Definitions -/

theorem content_of_definition? {c : Content} {d : Definition} (hd : c.definition? = some d) :
    c.kids = d.parameters ++ d.steps ∧ c.Raw ∧ ∀ g, d.Fits g → c.Fits g := by
  cases c <;> simp only [Content.definition?, reduceCtorEq, Option.some.injEq] at hd <;> subst hd <;>
    exact ⟨rfl, trivial, fun _ => id⟩

section
variable {wrap : Definition → Content}

/-- A definition is read back as it was laid out. -/
theorem written_holds {d : WrittenDefinition} (hh : g.Holds n (d.contents wrap n)) :
    ∃ own, g.content? (n : Int) = some (wrap own) ∧ g.written? own = some d ∧ own.Fits g := by
  obtain ⟨hself, hrest⟩ := holds_cons.1 hh
  obtain ⟨hparams, hsteps⟩ := holds_append.1 hrest
  rw [List.length_map] at hsteps
  have hblocks := layOutAll_holds hsteps
  have hread : gather g.parameter? (handlesFrom (n + 1) d.parameters.length) =
      (handlesFrom (n + 1) d.parameters.length).zip (d.parameters.map fun p =>
        ({ name := p.name, declaredType := p.type, default := p.default } : Parameter)) :=
    gather_holds Content.parameter? (fun _ => rfl) hparams
  refine ⟨_, hself, ?_, kind?_holds (fun _ => rfl) hparams,
    layOutAll_tops hsteps fun m s hm => (saying_holds hm).2⟩
  have hsaid := layOutAll_map (f := g.saying) (k := id) hsteps fun m s hm => (saying_holds hm).1
  have hsteps' : (layOutAll WrittenStep.contents (n + 1 + d.parameters.length) d.steps).1.mapM
      g.saying = some d.steps := mapM_eq_some.2 hsaid
  have hparams' : ((handlesFrom (n + 1) d.parameters.length).zip (d.parameters.map fun p =>
      ({ name := p.name, declaredType := p.type, default := p.default } : Parameter))).map
      (·.2.written) = d.parameters := by
    calc _ = (((handlesFrom (n + 1) d.parameters.length).zip (d.parameters.map fun p =>
            ({ name := p.name, declaredType := p.type, default := p.default } : Parameter))).map
            (·.2)).map Parameter.written := by
          rw [List.map_map]
          rfl
      _ = d.parameters := by
          rw [List.map_snd_zip (by simp [length_handlesFrom]), List.map_map]
          exact List.map_id' d.parameters
  simp only [written?, hsteps', hread, hparams', Option.map_some]

variable (hwrap : ∀ d, (wrap d).definition? = some d)
include hwrap

theorem definition_fits {d : WrittenDefinition} (hh : g.Holds n (d.contents wrap n)) :
    ∀ c ∈ d.contents wrap n, c.Fits g ∧ c.Raw := by
  obtain ⟨own, hown, -, hfits⟩ := written_holds hh
  obtain ⟨hself, hrest⟩ := holds_cons.1 hh
  obtain ⟨-, hsteps⟩ := holds_append.1 hrest
  intro c hc
  rcases List.mem_cons.1 hc with rfl | hc
  · rw [hself, Option.some.injEq] at hown
    rw [hown]
    obtain ⟨-, hraw, hfit⟩ := content_of_definition? (hwrap own)
    exact ⟨hfit g hfits, hraw⟩
  · rcases List.mem_append.1 hc with hc | hc
    · obtain ⟨p, -, rfl⟩ := List.mem_map.1 hc
      exact ⟨trivial, trivial⟩
    · rw [List.length_map] at hsteps
      exact layOutAll_all hsteps (fun m s hm => step_fits hm) c hc

theorem definition_covers (n : Nat) (d : WrittenDefinition) :
    Covers n [(n : Int)] (d.contents wrap n) := by
  have hsteps : Covers (n + 1 + d.parameters.length)
      (layOutAll WrittenStep.contents (n + 1 + d.parameters.length) d.steps).1
      (layOutAll WrittenStep.contents (n + 1 + d.parameters.length) d.steps).2 :=
    layOutAll_covers step_covers
  have hnil : (d.parameters.map WrittenParameter.content).flatMap Content.kids = [] := by
    rw [List.flatMap_map]
    exact List.flatMap_eq_nil_iff.2 fun _ _ => rfl
  unfold Covers at hsteps ⊢
  unfold WrittenDefinition.contents
  simp only [List.cons_append, List.nil_append, List.flatMap_cons, List.flatMap_append, hnil,
    List.length_cons, List.length_append, List.length_map]
  rw [(content_of_definition? (hwrap _)).1, handlesFrom_succ, handlesFrom_add]
  refine List.Perm.cons _ ?_
  rw [List.append_assoc]
  exact hsteps.append_left _

end

end Graph

/-! ## The design -/

namespace Design

open Actionbook.Graph

variable (d : Design)

theorem holds : d.graph.Holds 0 d.contents := by
  intro i c hc
  rw [Nat.zero_add, content?, node?_ofNat]
  simp [graph, hc]

theorem size_graph : d.graph.size = d.contents.length := by simp [Graph.size, graph]

theorem parent?_graph (h : Handle) : d.graph.parent? h = none := by
  unfold parent? node?
  split
  · simp only [graph, List.getElem?_toArray, List.getElem?_map]
    cases d.contents[h.toNat]? <;> rfl
  · rfl

/-- Every node is one of those laid out. -/
theorem mem_contents {h : Handle} {c : Content} (hc : d.graph.content? h = some c) :
    c ∈ d.contents := by
  obtain ⟨n, hn, rfl⟩ := mem_handles.1 (mem_handles_of_content? hc)
  rw [size_graph] at hn
  have := d.holds n d.contents[n] (List.getElem?_eq_getElem hn)
  rw [Nat.zero_add] at this
  rw [this] at hc
  cases hc
  exact List.getElem_mem hn

/-- The scenarios and the nodes that belong to them. -/
def storyBlock : List Handle × List Content := layOutAll WrittenScenario.contents 1 d.scenarios

/-- The action words and the nodes that belong to them. -/
def wordBlock : List Handle × List Content :=
  layOutAll WrittenDefinition.wordContents (1 + d.storyBlock.2.length) d.actionWords

/-- The project as it is laid out. -/
def project : Project where
  name := d.name
  description := d.description
  scenarios := d.storyBlock.1
  actionWords := d.wordBlock.1

theorem contents_eq :
    d.contents = .project d.project :: (d.storyBlock.2 ++ d.wordBlock.2) := rfl

theorem holds_parts : d.graph.content? 0 = some (.project d.project) ∧
    d.graph.Holds 1 d.storyBlock.2 ∧ d.graph.Holds (1 + d.storyBlock.2.length) d.wordBlock.2 := by
  have hh := d.holds
  rw [contents_eq] at hh
  obtain ⟨hroot, hrest⟩ := holds_cons.1 hh
  exact ⟨hroot, holds_append.1 hrest⟩

theorem story_holds {g : Graph} {n : Nat} {s : WrittenScenario} (hh : g.Holds n (s.contents n)) :
    ∃ sc, g.scenario? (n : Int) = some sc ∧ g.written? sc.toDefinition = some s.toWrittenDefinition := by
  obtain ⟨own, hc, hw, -⟩ := written_holds hh
  exact ⟨_, content?_scenario.2 hc, hw⟩

theorem word_holds {g : Graph} {n : Nat} {w : WrittenDefinition}
    (hh : g.Holds n (w.wordContents n)) :
    ∃ aw, g.actionWord? (n : Int) = some aw ∧ g.written? aw.toDefinition = some w := by
  obtain ⟨own, hc, hw, -⟩ := written_holds hh
  exact ⟨_, content?_actionWord.2 hc, hw⟩

/-- The nodes of a design have the kinds that they must have, and enrichment has not touched them. -/
theorem contents_fit {c : Content} (hc : c ∈ d.contents) : c.Fits d.graph ∧ c.Raw := by
  obtain ⟨-, hstories, hwords⟩ := d.holds_parts
  rw [contents_eq] at hc
  rcases List.mem_cons.1 hc with rfl | hc
  · refine ⟨⟨layOutAll_tops hstories fun m s hm => ?_, layOutAll_tops hwords fun m w hm => ?_⟩, trivial⟩
    · obtain ⟨sc, hsc, -⟩ := story_holds hm
      exact isSome_scenario?.1 (Option.isSome_of_eq_some hsc)
    · obtain ⟨aw, haw, -⟩ := word_holds hm
      exact kind?_of_actionWord? haw
  · rcases List.mem_append.1 hc with hc | hc
    · exact layOutAll_all hstories (fun m s hm => definition_fits (fun _ => rfl) hm) c hc
    · exact layOutAll_all hwords (fun m w hm => definition_fits (fun _ => rfl) hm) c hc

theorem fits {h : Handle} {c : Content} (hc : d.graph.content? h = some c) : c.Fits d.graph :=
  (d.contents_fit (d.mem_contents hc)).1

/-- No call of a design has a target, and no argument stands for a default. -/
theorem raw {h : Handle} {c : Content} (hc : d.graph.content? h = some c) : c.Raw :=
  (d.contents_fit (d.mem_contents hc)).2

theorem append_shuffle {α : Type} (a b c d : List α) :
    (a ++ b ++ (c ++ d)).Perm (a ++ c ++ (b ++ d)) := by
  have hswap : (b ++ c ++ d).Perm (c ++ b ++ d) := List.perm_append_comm.append_right d
  simp only [List.append_assoc] at hswap ⊢
  exact hswap.append_left a

/-- Every node of a design but the project is listed once. -/
theorem listed : d.graph.Listed 0 := by
  have hcovers : Covers 0 [0] d.contents := by
    have hstories : Covers 1 d.storyBlock.1 d.storyBlock.2 :=
      layOutAll_covers fun m s => definition_covers (fun _ => rfl) m s.toWrittenDefinition
    have hwords : Covers (1 + d.storyBlock.2.length) d.wordBlock.1 d.wordBlock.2 :=
      layOutAll_covers fun m w => definition_covers (fun _ => rfl) m w
    have hkids : (Content.project d.project).kids = d.storyBlock.1 ++ d.wordBlock.1 := rfl
    unfold Covers at hstories hwords ⊢
    rw [contents_eq, List.flatMap_cons, List.flatMap_append, hkids, List.length_cons,
      List.length_append, handlesFrom_succ, handlesFrom_add]
    exact List.Perm.cons _ ((append_shuffle _ _ _ _).trans (hstories.append hwords))
  have hkids := flatMap_kids_holds d.holds
  unfold Covers at hcovers
  unfold Listed
  rw [handles_eq_handlesFrom, size_graph, hkids]
  exact hcovers

/-- **The graph of a design is sound.** -/
theorem graph_sound : d.graph.Sound where
  fits := fun _ _ => d.fits
  rooted := ⟨0, d.project, rfl, d.holds_parts.1, d.listed⟩
  honest := by
    intro h p hp
    rw [parent?_graph] at hp
    cases hp
  bound := by
    intro h c hc t ht
    have hraw : c.target = none := d.raw hc
    rw [hraw] at ht
    cases ht

theorem outline?_graph : d.graph.outline? = some d.project := by
  have hroot : d.graph.root = some 0 := rfl
  simp [outline?, hroot, d.holds_parts.1, Content.project?]

/-- **Reading the action words back gives those of the design.** -/
theorem written_words :
    d.graph.words.map (fun w => d.graph.written? w.2.toDefinition) = d.actionWords.map some := by
  obtain ⟨-, -, hwords⟩ := d.holds_parts
  have hread := layOutAll_map (f := fun h => (d.graph.definition? h).bind d.graph.written?) (k := id)
    hwords fun m w hm => by
      obtain ⟨aw, haw, hw⟩ := word_holds hm
      simp [definition?_of_actionWord? haw, hw]
  have hgather : (gather d.graph.actionWord? d.wordBlock.1).map
      (fun w => d.graph.written? w.2.toDefinition) =
      d.wordBlock.1.map fun h => (d.graph.definition? h).bind d.graph.written? := by
    refine map_gather (f := fun w : ActionWord => d.graph.written? w.toDefinition) fun h hh => ?_
    obtain ⟨aw, haw⟩ := Option.isSome_iff_exists.1 (d.graph_sound.isSome_word d.outline?_graph h hh)
    exact ⟨aw, haw, by simp [definition?_of_actionWord? haw]⟩
  rw [words, outline?_graph]
  exact hgather.trans hread

end Design

end Actionbook
