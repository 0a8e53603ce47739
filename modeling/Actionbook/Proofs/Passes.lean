import Actionbook.Proofs.Layout
import Actionbook.Proofs.Links
import Actionbook.Proofs.Normalizing
import Actionbook.Proofs.Typing

/-!
# The passes in any order

Every pass takes a sound graph to a sound graph that follows it, without a fault (`ensures_pass`). A
graph that is read is sound, so the passes may be run in any order and as often as one likes:
`passes_keep_tree` says what is left of such a run for those who only see readers of the graph.
-/

namespace Actionbook

open Work (Ensures)

/-- Every pass ends well, whatever was done to a sound graph before. -/
theorem Graph.ensures_pass {g : Graph} {r : Report} (hs : g.Sound) (pass : Pass) :
    Ensures pass.run ⟨g, r⟩ fun _ s => g.Follows s.graph ∧ (pass = .link → s.graph.Linked) := by
  cases pass with
  | link => exact (ensures_linkParents hs).mono fun _ s hl => ⟨hl.1, fun _ => hl.2.1⟩
  | type =>
    exact (ensures_addTypes hs).mono fun _ s ⟨⟨_, _, ht⟩, _⟩ => ⟨.of_alike hs ht.toAlike, nofun⟩
  | bind => exact (ensures_bindCalls hs).mono fun _ s hb => ⟨hb.1.toFollows, nofun⟩
  | complete => exact (ensures_completeCalls hs).mono fun _ s hb => ⟨hb.1.toFollows, nofun⟩
  | normalize => exact (ensures_normalizeSentences hs).mono fun _ s hn => ⟨hn.1.toFollows, nofun⟩

/-- Passes in any order: nodes stay linked from the first linking on. -/
theorem Graph.ensures_passes {g : Graph} {r : Report} (hs : g.Sound) (passes : List Pass) :
    Ensures (passes.forM Pass.run) ⟨g, r⟩ fun _ s =>
      g.Follows s.graph ∧ (.link ∈ passes → s.graph.Linked) := by
  refine Work.ensures_forM (s := ⟨g, r⟩)
    (fun done s => g.Follows s.graph ∧ (Pass.link ∈ done → s.graph.Linked))
    ⟨.refl hs, nofun⟩ ?_
  rintro done pass rest ⟨g', r'⟩ - ⟨hf, hlinked⟩
  refine (ensures_pass hf.sound pass).mono fun _ s hp => ⟨hf.trans hp.1, fun hm => ?_⟩
  rcases List.mem_append.1 hm with hm | hm
  · exact hp.1.linked (hlinked hm)
  · exact hp.2 (List.mem_singleton.1 hm).symm

/-- A text that is read gives the graph of a design. -/
theorem Design.exists_of_readGraph {text : String} {strict : Bool} {g : Graph}
    (hg : readGraph text strict = .ok g) : ∃ d, ofText text = .ok d ∧ g = d.graph := by
  unfold readGraph at hg
  cases ht : ofText text with
  | error e => simp [ht, bind, Except.bind] at hg
  | ok d =>
    refine ⟨d, rfl, ?_⟩
    simp only [ht, bind, Except.bind] at hg
    split at hg
    · split at hg
      · cases hg
      · cases hg
        rfl
    · cases hg
      rfl

theorem Design.sound_of_readGraph {text : String} {strict : Bool} {g : Graph}
    (hg : readGraph text strict = .ok g) : g.Sound := by
  obtain ⟨d, -, rfl⟩ := exists_of_readGraph hg
  exact d.graph_sound

/-! ## A document -/

namespace Design

theorem ofText_ofList (l : List Char) : ofText (String.ofList l) =
    (Xml.readCharacters? l).elim (.error .malformed) ofElement := by
  have h : Xml.read? (String.ofList l) = Xml.readCharacters? l :=
    congrArg Xml.readCharacters? String.toList_ofList
  cases hr : Xml.readCharacters? l with
  | none => simp only [ofText, h, hr, Option.elim]
  | some root => simp only [ofText, h, hr, Option.elim]

theorem ok_of_toOption {ε α : Type} {x : Except ε α} {a : α} (h : x.toOption = some a) :
    x = .ok a := by
  cases x with
  | error e => cases h
  | ok b => exact congrArg Except.ok (Option.some.inj h)

/-- Reading a document whose text is given comes down to an evaluation. -/
theorem ofText_eq_ok {l : List Char} {d : Design}
    (h : ((Xml.readCharacters? l).elim (.error .malformed) ofElement).toOption = some d) :
    ofText (String.ofList l) = .ok d := by
  rw [ofText_ofList]
  exact ok_of_toOption h

/-- A document with a sentence that is a call, and a call that lacks an argument. -/
abbrev sampleText : String := "<project><name>p</name>
  <scenarios><scenario><name>s</name><steps>
    <action><key>given</key><value><stringliteral>w</stringliteral></value></action>
  </steps></scenario></scenarios>
  <actionwords><actionword><name>w</name><steps>
    <call><actionword>t</actionword></call>
  </steps></actionword><actionword><name>t</name><parameters>
    <parameter><name>x</name><default><numericliteral>1</numericliteral></default></parameter>
  </parameters></actionword></actionwords>
  </project>"

/-- The action word that the sentence calls. -/
def sampleWord : WrittenDefinition where
  name := "w"
  uid := none
  description := ""
  tags := []
  parameters := []
  steps := [.call "t" none []]

/-- The design that the document describes. -/
def sample : Design where
  name := "p"
  description := ""
  scenarios := [{
    name := "s", uid := none, description := "", tags := [], parameters := [], rows := []
    steps := [.plain "given" (.string "w")] }]
  actionWords := [sampleWord, {
    name := "t", uid := none, description := "", tags := [], steps := []
    parameters := [{ name := "x", type := none, default := some (.numeric "1") }] }]

-- the characters of the text are too many for the usual depth
set_option maxRecDepth 4000 in
theorem ofText_sample : ofText sampleText = .ok sample :=
  ofText_eq_ok (by decide +kernel)

theorem readGraph_sample : readGraph sampleText true = .ok sample.graph := by
  have h : sample.unknownCall? = none := by decide
  unfold readGraph
  rw [ofText_sample]
  simp only [bind, Except.bind, if_true, h]
  rfl

end Design

/-! ## What readers see -/

namespace Graph

variable {g : Graph} {h : Handle} {n : Node}

theorem content?_of_node (hn : g.node h = .ok n) : g.content? h = some n.content := by
  unfold node at hn
  split at hn
  · rename_i hn'
    cases hn
    simp [content?, hn']
  · cases hn

theorem mem_handles_of_node (hn : g.node h = .ok n) : h ∈ g.handles :=
  mem_handles_of_content? (content?_of_node hn)

theorem parent?_of_node (hn : g.node h = .ok n) : g.parent? h = n.parent := by
  unfold node at hn
  split at hn
  · rename_i hn'
    cases hn
    simp [parent?, hn']
  · cases hn

/-- A node is among the children of another. -/
def Lists (g : Graph) (p h : Handle) : Prop := ∃ l, g.childHandles p = .ok l ∧ h ∈ l

/-- The root is a project, and the walk from there visits every node exactly once. -/
def Whole (g : Graph) : Prop :=
  (∃ r p, g.project = .ok (r, p)) ∧ ∃ visits, g.walk = .ok visits ∧ visits.Perm g.handles

/-- The root has no parent, and the parent of any other node is the one node that lists it. -/
def ParentsAgree (g : Graph) : Prop :=
  ∀ h n, g.node h = .ok n →
    (g.root = some h → n.parent = none) ∧
      (g.root ≠ some h → ∃ p, n.parent = some p ∧ ∀ q, g.Lists q h ↔ q = p)

theorem Sound.whole (hs : g.Sound) : g.Whole := by
  obtain ⟨r, p, hp, -⟩ := hs.project_ok
  exact ⟨⟨r, p, hp⟩, hs.walk_ok⟩

theorem Sound.lists (hs : g.Sound) {p : Handle} : g.Lists p h ↔ h ∈ g.kids p := by
  constructor
  · rintro ⟨l, hl, hm⟩
    rwa [kids_of_childHandles hl]
  · exact fun hm => ⟨_, hs.childHandles_ok (mem_handles_of_mem_kids hm), hm⟩

/-- Links that are there are right in a sound graph; linking makes them all be there. -/
theorem Sound.parentsAgree (hs : g.Sound) (hl : g.Linked) : g.ParentsAgree := by
  intro h n hn
  obtain ⟨r, p, hr, -, hlisted⟩ := hs.rooted
  have hh := mem_handles_of_node hn
  rw [← parent?_of_node hn]
  refine ⟨fun e => ?root, fun e => ?other⟩
  case root =>
    rw [hr] at e
    cases e
    rw [Option.eq_none_iff_forall_ne_some]
    exact fun q hq => hlisted.root_not_mem (hs.honest h q hq)
  case other =>
    obtain ⟨q, hq⟩ := hl h hh e
    refine ⟨q, hq, fun k => ?_⟩
    rw [hs.lists]
    constructor
    · exact fun hk => hlisted.eq_of_mem hk (hs.honest h q hq)
    · rintro rfl
      exact hs.honest h k hq

end Graph

/-- **Passes in any order, as often as one likes**, on a graph that is read: none of them stops, the
graph stays a tree, and its parent links are right from the first linking on. -/
theorem passes_keep_tree {text : String} {strict : Bool} {g : Graph}
    (hg : Design.readGraph text strict = .ok g) (r : Report) (passes : List Pass) :
    Ensures (passes.forM Pass.run) ⟨g, r⟩ fun _ s =>
      s.graph.Whole ∧ (.link ∈ passes → s.graph.ParentsAgree) :=
  (Graph.ensures_passes (Design.sound_of_readGraph hg) passes).mono fun _ _ hf =>
    ⟨hf.1.sound.whole, fun hm => hf.1.sound.parentsAgree (hf.2 hm)⟩

theorem passes_keep_sample : Design.readGraph Design.sampleText true = .ok Design.sample.graph ∧
    Ensures ([.normalize, .complete, .link, .bind, .type, .normalize, .complete].forM Pass.run)
      ⟨Design.sample.graph, {}⟩ fun _ s => s.graph.Whole ∧
        (.link ∈ [Pass.normalize, .complete, .link, .bind, .type, .normalize, .complete] →
          s.graph.ParentsAgree) :=
  ⟨Design.readGraph_sample, passes_keep_tree Design.readGraph_sample {} _⟩

end Actionbook
