import Actionbook.Proofs.Assignment
import Actionbook.Proofs.Tree

/-!
# Sound graphs

`Graph.Sound g`: every node lists nodes of the kinds it must have, every node but the root is listed
once, a parent link points to the node that lists its child, and the arguments of a call that has a
target are bound to its parameters (`Bound`). It holds of the graph of a design and is kept by every
pass: a pass changes a graph by steps of two sorts, and each keeps soundness.

* `Graph.Reworked g h g'`: only the step `h` and its arguments have changed, and new arguments may
  have been added to it (`Reworked.sound`).
* `Graph.Alike g g'`: only what enrichment notes down at action words and parameters has changed
  (`Alike.sound`); if parent links have changed as well, the graphs still resemble each other
  (`Resembles.sound`).
-/

namespace Actionbook

/-! ## The parts of a content that enrichment never changes -/

namespace Content

/-- A content without what enrichment notes down at action words and parameters. -/
def bare : Content → Content
  | .actionWord w => .actionWord { toDefinition := w.toDefinition }
  | .parameter p => .parameter { p with type := none }
  | c => c

/-- What stays of a content for good: all of it for a node that is no step and no argument. -/
def fixed : Content → Option Content
  | .call _ => none
  | .argument _ => none
  | .step _ => none
  | c => some c.bare

@[simp] theorem fixed_bare (c : Content) : c.bare.fixed = c.fixed := by cases c <;> rfl

@[simp] theorem kind_bare (c : Content) : c.bare.kind = c.kind := by cases c <;> rfl

@[simp] theorem children?_bare (c : Content) : c.bare.children? = c.children? := by cases c <;> rfl

@[simp] theorem argument?_bare (c : Content) : c.bare.argument? = c.argument? := by cases c <;> rfl

theorem definition?_fixed (c : Content) : c.fixed.bind definition? = c.definition? := by
  cases c <;> rfl

theorem project?_fixed (c : Content) : c.fixed.bind project? = c.project? := by cases c <;> rfl

theorem scenario?_fixed (c : Content) : c.fixed.bind scenario? = c.scenario? := by cases c <;> rfl

end Content

namespace Graph

/-- What stays for good at a handle. -/
def fixed (g : Graph) (h : Handle) : Option Content := (g.content? h).bind Content.fixed

def outline? (g : Graph) : Option Project := g.root.bind fun r => (g.content? r).bind Content.project?

section
variable {g g' : Graph} {h : Handle}

theorem definition?_eq_fixed : g.definition? h = (g.fixed h).bind Content.definition? := by
  unfold definition? fixed
  cases g.content? h with
  | none => rfl
  | some c => exact c.definition?_fixed.symm

theorem scenario?_eq_fixed : g.scenario? h = (g.fixed h).bind Content.scenario? := by
  unfold scenario? fixed
  cases g.content? h with
  | none => rfl
  | some c => exact c.scenario?_fixed.symm

theorem kind?_actionWord_congr (hf : g'.fixed = g.fixed) (hk : g.kind? h = some .actionWord) :
    g'.kind? h = some .actionWord := by
  have e : ∀ x : Graph, x.kind? h = some .actionWord ↔
      (x.fixed h).map Content.kind = some .actionWord := by
    intro x
    unfold kind? fixed
    cases x.content? h with
    | none => simp
    | some c => cases c <;> simp [Content.fixed, Content.bare, Content.kind]
  rw [e, hf, ← e]
  exact hk

theorem definition?_congr (hf : g'.fixed = g.fixed) : g'.definition? h = g.definition? h := by
  rw [definition?_eq_fixed, hf, ← definition?_eq_fixed]

theorem scenario?_congr (hf : g'.fixed = g.fixed) : g'.scenario? h = g.scenario? h := by
  rw [scenario?_eq_fixed, hf, ← scenario?_eq_fixed]

theorem outline?_congr (hr : g'.root = g.root) (hf : g'.fixed = g.fixed) :
    g'.outline? = g.outline? := by
  have : ∀ k, (g'.content? k).bind Content.project? = (g.content? k).bind Content.project? := by
    intro k
    have e : ∀ x : Graph, (x.content? k).bind Content.project? = (x.fixed k).bind Content.project? := by
      intro x
      unfold fixed
      cases x.content? k with
      | none => rfl
      | some c => exact c.project?_fixed.symm
    rw [e, e, hf]
  simp [outline?, hr, this]

end

end Graph

/-! ## Soundness -/

/-- The parameters and steps of a definition are parameters and steps. -/
def Definition.Fits (g : Graph) (d : Definition) : Prop :=
  (∀ p ∈ d.parameters, g.kind? p = some .parameter) ∧ ∀ s ∈ d.steps, g.IsStep s

/-- The nodes that a content lists have the kinds that they must have. -/
def Content.Fits (g : Graph) : Content → Prop
  | .blank => False
  | .project p => (∀ s ∈ p.scenarios, g.kind? s = some .scenario) ∧
      ∀ w ∈ p.actionWords, g.kind? w = some .actionWord
  | .scenario s => s.toDefinition.Fits g
  | .actionWord w => w.toDefinition.Fits g
  | .call c => ∀ a ∈ c.arguments, g.kind? a = some .argument
  | .parameter _ => True
  | .argument _ => True
  | .step _ => True

/-- The target of a call is an action word, and the arguments are bound to its parameters. -/
def Call.Consistent (g : Graph) (c : Call) : Prop :=
  ∀ t, c.target = some t → g.kind? t = some .actionWord ∧ ∀ d, g.definition? t = some d →
    Bound d.parameters (g.arguments c)

/-- The invariant of all passes (module doc). -/
structure Graph.Sound (g : Graph) : Prop where
  fits : ∀ h c, g.content? h = some c → c.Fits g
  rooted : ∃ r p, g.root = some r ∧ g.content? r = some (.project p) ∧ g.Listed r
  honest : ∀ h p, g.parent? h = some p → h ∈ g.kids p
  bound : ∀ h c, g.content? h = some (.call c) → c.Consistent g

/-- Every node but the root is linked to a parent. -/
def Graph.Linked (g : Graph) : Prop := ∀ h ∈ g.handles, g.root ≠ some h → ∃ p, g.parent? h = some p

/-! ## Levels -/

/-- How many levels there may be below a node of a kind. -/
def NodeKind.rank : NodeKind → Nat
  | .project => 3
  | .scenario => 2
  | .actionWord => 2
  | .call => 1
  | _ => 0

/-- How many levels there may be below a node. -/
def Graph.rank (g : Graph) (h : Handle) : Nat := ((g.kind? h).map NodeKind.rank).getD 0

namespace Graph

variable {g g' : Graph} {h k : Handle}

theorem rank_eq {t : NodeKind} (hk : g.kind? h = some t) : g.rank h = t.rank := by simp [rank, hk]

theorem rank_le (g : Graph) (h : Handle) : g.rank h ≤ 3 := by
  unfold rank
  cases g.kind? h with
  | none => simp
  | some t => cases t <;> simp [NodeKind.rank]

theorem IsStep.rank_le (hs : g.IsStep h) : g.rank h ≤ 1 := by
  rcases hs with hk | hk <;> simp [rank_eq hk, NodeKind.rank]

theorem kids_eq {c : Content} {l : List Handle} (hc : g.content? h = some c)
    (hl : c.children? = some l) : g.kids h = l := by
  simp [kids, hc, hl]

theorem kind_eq {c : Content} (hc : g.content? h = some c) : g.kind? h = some c.kind := by
  simp [kind?, hc]

/-- A node that is not blank has a list of children. -/
theorem childHandles_of_kind (hh : h ∈ g.handles) (hkind : g.kind? h ≠ some .blank) :
    g.childHandles h = .ok (g.kids h) := by
  obtain ⟨c, hc⟩ := content?_of_mem hh
  unfold childHandles
  rw [node_ok hc]
  cases c with
  | blank => exact absurd (kind_eq hc) hkind
  | _ => exact congrArg Except.ok (kids_eq hc rfl).symm

/-- Every node but the root is of a kind with levels of its own. -/
theorem kids_of_kind {t : NodeKind} (hk : g.kind? h = some t)
    (ht : t = .parameter ∨ t = .argument ∨ t = .step) : g.kids h = [] := by
  obtain ⟨c, hc, rfl⟩ := Option.map_eq_some_iff.1 hk
  rcases ht with ht | ht | ht <;> cases c <;> simp [Content.kind] at ht <;> exact kids_eq hc rfl

namespace Sound

variable (hs : g.Sound)
include hs

theorem lower : ∀ h, ∀ k ∈ g.kids h, g.rank k < g.rank h := by
  intro h k hk
  obtain ⟨c, hc⟩ := content?_of_mem (mem_handles_of_mem_kids hk)
  have hfit := hs.fits h c hc
  rw [rank_eq (kind_eq hc)]
  have steps : ∀ d : Definition, d.Fits g → k ∈ d.parameters ++ d.steps → g.rank k < 2 := by
    intro d hd hm
    rcases List.mem_append.1 hm with hm | hm
    · rw [rank_eq (hd.1 k hm)]
      decide
    · exact Nat.lt_succ_of_le (hd.2 k hm).rank_le
  cases c with
  | blank => exact hfit.elim
  | project p =>
    rw [kids_eq hc rfl] at hk
    rcases List.mem_append.1 hk with hm | hm
    · rw [rank_eq (hfit.1 k hm)]
      exact Nat.lt_succ_self 2
    · rw [rank_eq (hfit.2 k hm)]
      exact Nat.lt_succ_self 2
  | scenario s =>
    rw [kids_eq hc rfl] at hk
    exact steps s.toDefinition hfit hk
  | actionWord w =>
    rw [kids_eq hc rfl] at hk
    exact steps w.toDefinition hfit hk
  | call c =>
    rw [kids_eq hc rfl] at hk
    rw [rank_eq (hfit k hk)]
    exact Nat.zero_lt_one
  | parameter p =>
    rw [kids_eq hc rfl] at hk
    cases hk
  | argument a =>
    rw [kids_eq hc rfl] at hk
    cases hk
  | step s =>
    rw [kids_eq hc rfl] at hk
    cases hk

theorem kind_ne_blank (hh : h ∈ g.handles) : g.kind? h ≠ some .blank := by
  obtain ⟨c, hc⟩ := content?_of_mem hh
  intro hblank
  rw [kind_eq hc] at hblank
  cases c with
  | blank => exact hs.fits h _ hc
  | _ => cases hblank

theorem childHandles_ok (hh : h ∈ g.handles) : g.childHandles h = .ok (g.kids h) :=
  childHandles_of_kind hh (hs.kind_ne_blank hh)

theorem exists_tree : ∃ r p, g.root = some r ∧ g.content? r = some (.project p) ∧
    g.Tree r g.rank ∧ ∀ h ∈ g.handles, g.rank h ≤ g.rank r := by
  obtain ⟨r, p, hr, hp, hl⟩ := hs.rooted
  refine ⟨r, p, hr, hp, ⟨hl, hs.lower, fun h => hs.childHandles_ok⟩, fun h _ => ?_⟩
  rw [rank_eq (kind_eq hp)]
  exact g.rank_le h

theorem walk_ok : ∃ visits, g.walk = .ok visits ∧ visits.Perm g.handles := by
  obtain ⟨r, p, hr, hp, ht, hb⟩ := hs.exists_tree
  exact ht.walk_perm hr hb

end Sound

/-! ## Steps of a pass -/

/-- Only the step `h` and its arguments have changed, and it may have got new arguments. -/
structure Reworked (g : Graph) (h : Handle) (g' : Graph) : Prop where
  root : g'.root = g.root
  before : g.IsStep h
  after : g'.IsStep h
  grown : ∃ n, g'.size = g.size + n ∧ g'.kids h = g.kids h ++ handlesFrom g.size n
  arguments : ∀ a ∈ g'.kids h, g'.kind? a = some .argument
  elsewhere : ∀ k, k ≠ h → k ∉ g'.kids h → g'.node? k = g.node? k
  parent : ∀ k ∈ g.handles, g'.parent? k = g.parent? k
  adopted : ∀ k ∈ g'.kids h, k ∉ g.handles → g'.parent? k = some h

/-- Only parent links and what enrichment notes down at action words and parameters have changed. -/
structure Resembles (g g' : Graph) : Prop where
  root : g'.root = g.root
  size : g'.size = g.size
  bare : ∀ k, (g'.content? k).map Content.bare = (g.content? k).map Content.bare

/-- Only what enrichment notes down at action words and parameters has changed. -/
structure Alike (g g' : Graph) : Prop extends Resembles g g' where
  parent : ∀ k, g'.parent? k = g.parent? k

theorem content?_congr (hn : g'.node? k = g.node? k) : g'.content? k = g.content? k := by
  simp [content?, hn]

theorem kids_congr (hc : g'.content? k = g.content? k) : g'.kids k = g.kids k := by
  simp [kids, hc]

theorem kind?_congr (hc : g'.content? k = g.content? k) : g'.kind? k = g.kind? k := by
  simp [kind?, hc]

/-- A list of lists in which one has grown, and to which others without elements were added. -/
theorem flatMap_grown {f f' : Handle → List Handle} {new l : List Handle} (hl : l.Nodup)
    (hh : h ∈ l) (hf : f' h = f h ++ new) (he : ∀ k ∈ l, k ≠ h → f' k = f k) :
    (l.flatMap f').Perm (l.flatMap f ++ new) := by
  obtain ⟨l₁, l₂, rfl⟩ := List.append_of_mem hh
  have hnot := List.nodup_middle.1 hl
  have h1 : l₁.flatMap f' = l₁.flatMap f := List.flatMap_congr fun k hk =>
    he k (by simp [hk]) fun e => (List.nodup_cons.1 hnot).1 (e ▸ List.mem_append_left _ hk)
  have h2 : l₂.flatMap f' = l₂.flatMap f := List.flatMap_congr fun k hk =>
    he k (by simp [hk]) fun e => (List.nodup_cons.1 hnot).1 (e ▸ List.mem_append_right _ hk)
  simp only [List.flatMap_append, List.flatMap_cons, h1, h2, hf, List.append_assoc]
  have hswap : (new ++ l₂.flatMap f).Perm (l₂.flatMap f ++ new) := List.perm_append_comm
  exact (hswap.append_left (f h)).append_left _

namespace Reworked

variable (hr : g.Reworked h g')
include hr

theorem handles : ∃ n, g'.handles = g.handles ++ handlesFrom g.size n ∧
    g'.kids h = g.kids h ++ handlesFrom g.size n := by
  obtain ⟨n, hn, hk⟩ := hr.grown
  refine ⟨n, ?_, hk⟩
  rw [handles_eq_handlesFrom, handles_eq_handlesFrom, hn, handlesFrom_add, Nat.zero_add]

theorem subset (hk : k ∈ g.handles) : k ∈ g'.handles := by
  obtain ⟨n, hn, -⟩ := hr.handles
  rw [hn]
  exact List.mem_append_left _ hk

theorem kids_subset (p : Handle) (hk : k ∈ g.kids p) : p = h → k ∈ g'.kids h := by
  rintro rfl
  obtain ⟨n, -, hkids⟩ := hr.handles
  rw [hkids]
  exact List.mem_append_left _ hk

/-- New nodes are arguments of the step. -/
theorem mem_kids_of_new (hk : k ∈ g'.handles) (hn : k ∉ g.handles) : k ∈ g'.kids h := by
  obtain ⟨n, hh, hkids⟩ := hr.handles
  rw [hh] at hk
  rw [hkids]
  exact List.mem_append_right _ ((List.mem_append.1 hk).resolve_left hn)

/-- The arguments that were there stay there. -/
theorem mem_kids_old (hk : k ∈ g'.kids h) (hold : k ∈ g.handles) : k ∈ g.kids h := by
  obtain ⟨n, -, hkids⟩ := hr.handles
  rw [hkids] at hk
  rcases List.mem_append.1 hk with hk | hk
  · exact hk
  · obtain ⟨i, -, rfl⟩ := mem_handlesFrom.1 hk
    obtain ⟨m, hm, e⟩ := mem_handles.1 hold
    have := Int.ofNat.inj e
    omega

theorem kids_kind (hs : g.Sound) (hk : k ∈ g.kids h) : g.kind? k = some .argument := by
  rcases isStep_iff.1 hr.before with ⟨s, hc⟩ | ⟨c, hc⟩
  · rw [kids_eq hc rfl] at hk
    cases hk
  · rw [kids_eq hc rfl] at hk
    exact hs.fits h _ hc k hk

/-- A node keeps its kind, unless it is the step itself. -/
theorem kind_of_ne (hs : g.Sound) (hk : k ∈ g.handles) (hne : k ≠ h) : g'.kind? k = g.kind? k := by
  by_cases hm : k ∈ g'.kids h
  · rw [hr.arguments k hm, hr.kids_kind hs (hr.mem_kids_old hm hk)]
  · exact kind?_congr (content?_congr (hr.elsewhere k hne hm))

theorem kind_eq_of {t : NodeKind} (hs : g.Sound) (hk : g.kind? k = some t) (h1 : t ≠ .step)
    (h2 : t ≠ .call) : g'.kind? k = some t := by
  by_cases e : k = h
  · subst e
    rcases hr.before with hb | hb <;> rw [hb] at hk <;> simp_all
  · rw [hr.kind_of_ne hs (mem_handles_of_kind? hk) e, hk]

theorem isStep_of (hs : g.Sound) (hk : g.IsStep k) : g'.IsStep k := by
  by_cases e : k = h
  · exact e ▸ hr.after
  · unfold IsStep
    rw [hr.kind_of_ne hs hk.mem_handles e]
    exact hk

theorem fits_of (hs : g.Sound) {c : Content} (hc : c.Fits g) : c.Fits g' := by
  have hd : ∀ d : Definition, d.Fits g → d.Fits g' := fun d hd =>
    ⟨fun p hp => hr.kind_eq_of hs (hd.1 p hp) (by simp) (by simp),
      fun s hs' => hr.isStep_of hs (hd.2 s hs')⟩
  cases c with
  | blank => exact hc.elim
  | project p =>
    exact ⟨fun s hm => hr.kind_eq_of hs (hc.1 s hm) (by simp) (by simp),
      fun w hm => hr.kind_eq_of hs (hc.2 w hm) (by simp) (by simp)⟩
  | scenario s => exact hd _ hc
  | actionWord w => exact hd _ hc
  | call c => exact fun a ha => hr.kind_eq_of hs (hc a ha) (by simp) (by simp)
  | parameter _ => trivial
  | argument _ => trivial
  | step _ => trivial

theorem kids_of_ne (hs : g.Sound) (hne : k ≠ h) : g'.kids k = g.kids k := by
  by_cases hm : k ∈ g'.kids h
  · rw [kids_of_kind (hr.arguments k hm) (by simp)]
    by_cases hk : k ∈ g.handles
    · rw [kids_of_kind (hr.kids_kind hs (hr.mem_kids_old hm hk)) (by simp)]
    · rw [kids_eq_nil hk]
  · exact kids_congr (content?_congr (hr.elsewhere k hne hm))

theorem kids_mono (hs : g.Sound) (p : Handle) (hk : k ∈ g.kids p) : k ∈ g'.kids p := by
  by_cases e : p = h
  · exact e ▸ hr.kids_subset p hk e
  · rwa [hr.kids_of_ne hs e]

theorem listed (hs : g.Sound) {r : Handle} (hl : g.Listed r) : g'.Listed r := by
  obtain ⟨n, hh, hkids⟩ := hr.handles
  have hnew : (handlesFrom g.size n).flatMap g'.kids = [] := by
    rw [List.flatMap_eq_nil_iff]
    intro k hk
    refine kids_of_kind (hr.arguments k ?_) (by simp)
    rw [hkids]
    exact List.mem_append_right _ hk
  have hold := flatMap_grown g.nodup_handles hr.before.mem_handles hkids
    fun k _ hne => hr.kids_of_ne hs hne
  unfold Listed
  rw [hh, List.flatMap_append, hnew, List.append_nil]
  calc (r :: g.handles.flatMap g'.kids).Perm
        (r :: (g.handles.flatMap g.kids ++ handlesFrom g.size n)) := hold.cons r
    List.Perm _ (g.handles ++ handlesFrom g.size n) := List.Perm.append_right _ hl

theorem fixed (hs : g.Sound) : g'.fixed = g.fixed := by
  funext k
  have step : ∀ x : Graph, x.IsStep k → x.fixed k = none := by
    intro x hx
    rcases isStep_iff.1 hx with ⟨s, hc⟩ | ⟨c, hc⟩ <;> simp [Graph.fixed, hc, Content.fixed]
  have argument : ∀ x : Graph, x.kind? k = some .argument → x.fixed k = none := by
    intro x hx
    obtain ⟨a, ha⟩ := Option.isSome_iff_exists.1 (isSome_argument?.2 hx)
    simp [Graph.fixed, content?_argument.1 ha, Content.fixed]
  by_cases e : k = h
  · subst e
    rw [step _ hr.after, step _ hr.before]
  · by_cases hm : k ∈ g'.kids h
    · rw [argument _ (hr.arguments k hm)]
      by_cases hk : k ∈ g.handles
      · rw [argument _ (hr.kids_kind hs (hr.mem_kids_old hm hk))]
      · simp [Graph.fixed, content?_eq_none hk]
    · simp [Graph.fixed, content?_congr (hr.elsewhere k e hm)]

/-- A call elsewhere stays, and so do its arguments. -/
theorem call_of_ne (hs : g.Sound) (hne : k ≠ h) {c : Call} (hc : g.content? k = some (.call c)) :
    g'.content? k = some (.call c) ∧ g'.arguments c = g.arguments c := by
  obtain ⟨r, p, hroot, hp, hl⟩ := hs.rooted
  have hm : k ∉ g'.kids h := by
    intro hm
    have := hr.kids_kind hs (hr.mem_kids_old hm (mem_handles_of_content? hc))
    rw [kind_eq hc] at this
    cases this
  refine ⟨by rw [content?_congr (hr.elsewhere k hne hm), hc], gather_congr fun a ha => ?_⟩
  have hka : a ∈ g.kids k := by rwa [kids_eq hc rfl]
  have hah : a ≠ h := by
    rintro rfl
    have h1 := hs.fits k _ hc a ha
    rcases hr.before with hb | hb <;> rw [hb] at h1 <;> cases h1
  have hnot : a ∉ g'.kids h := fun hm' =>
    hne (hl.eq_of_mem hka (hr.mem_kids_old hm' (hl.kid_mem hka)))
  simp [argument?, content?_congr (hr.elsewhere a hah hnot)]

/-- No call is new elsewhere. -/
theorem call_of_ne' (hne : k ≠ h) {c : Call} (hc : g'.content? k = some (.call c)) :
    g.content? k = some (.call c) := by
  have hm : k ∉ g'.kids h := by
    intro hm
    have := hr.arguments k hm
    rw [kind_eq hc] at this
    cases this
  rw [← content?_congr (hr.elsewhere k hne hm), hc]

/-- A call elsewhere stays consistent. -/
theorem consistent_of_ne (hs : g.Sound) (hne : k ≠ h) {c : Call}
    (hc : g'.content? k = some (.call c)) : c.Consistent g' := by
  have hold := hr.call_of_ne' hne hc
  intro t ht
  obtain ⟨hw, hb⟩ := hs.bound k c hold t ht
  refine ⟨hr.kind_eq_of hs hw (by simp) (by simp), fun d hd => ?_⟩
  rw [definition?_congr (hr.fixed hs)] at hd
  rw [(hr.call_of_ne hs hne hold).2]
  exact hb d hd

theorem honest (hs : g.Sound) : ∀ k p, g'.parent? k = some p → k ∈ g'.kids p := by
  intro k p hp
  by_cases hk : k ∈ g.handles
  · rw [hr.parent k hk] at hp
    exact hr.kids_mono hs p (hs.honest k p hp)
  · have hk' : k ∈ g'.handles := by
      apply Classical.byContradiction
      intro hno
      rw [parent?_eq_none hno] at hp
      cases hp
    have hm := hr.mem_kids_of_new hk' hk
    rw [hr.adopted k hm hk] at hp
    cases hp
    exact hm

/-- **Reworking a step keeps a graph sound**, if the step is consistent afterwards. -/
theorem sound (hs : g.Sound) (hc : ∀ c, g'.content? h = some (.call c) → c.Consistent g') :
    g'.Sound where
  fits := by
    intro k c hk
    by_cases e : k = h
    · subst e
      rcases isStep_iff.1 hr.after with ⟨s, hs'⟩ | ⟨d, hd⟩
      · rw [hk] at hs'
        cases hs'
        trivial
      · rw [hk] at hd
        cases hd
        intro a ha
        exact hr.arguments a (by rwa [kids_eq hk rfl])
    · by_cases hm : k ∈ g'.kids h
      · have := hr.arguments k hm
        rw [kind_eq hk] at this
        cases c <;> simp [Content.kind] at this
        trivial
      · rw [content?_congr (hr.elsewhere k e hm)] at hk
        exact hr.fits_of hs (hs.fits k c hk)
  rooted := by
    obtain ⟨r, p, hroot, hp, hl⟩ := hs.rooted
    have hfix : g'.fixed r = some (.project p) := by
      rw [hr.fixed hs]
      simp [Graph.fixed, hp, Content.fixed, Content.bare]
    refine ⟨r, p, hr.root ▸ hroot, ?_, hr.listed hs hl⟩
    obtain ⟨c, hc, hcf⟩ := Option.bind_eq_some_iff.1 hfix
    rw [hc]
    cases c <;> simp [Content.fixed, Content.bare] at hcf ⊢
    exact hcf
  honest := hr.honest hs
  bound := by
    intro k c hk
    by_cases e : k = h
    · subst e
      exact hc c hk
    · exact hr.consistent_of_ne hs e hk

theorem linked (hl : g.Linked) : g'.Linked := by
  intro k hk hroot
  rw [hr.root] at hroot
  by_cases hold : k ∈ g.handles
  · rw [hr.parent k hold]
    exact hl k hold hroot
  · exact ⟨h, hr.adopted k (hr.mem_kids_of_new hk hold) hold⟩

theorem trans {g'' : Graph} (hr' : g'.Reworked h g'') : g.Reworked h g'' where
  root := hr'.root.trans hr.root
  before := hr.before
  after := hr'.after
  grown := by
    obtain ⟨n, hn, hk⟩ := hr.grown
    obtain ⟨m, hm, hk'⟩ := hr'.grown
    refine ⟨n + m, by omega, ?_⟩
    rw [hk', hk, hn, handlesFrom_add, List.append_assoc]
  arguments := hr'.arguments
  elsewhere := by
    intro k hne hm
    rw [hr'.elsewhere k hne hm]
    exact hr.elsewhere k hne fun hk => hm (hr'.kids_subset h hk rfl)
  parent := by
    intro k hk
    rw [hr'.parent k (hr.subset hk), hr.parent k hk]
  adopted := by
    intro k hk hnew
    by_cases hold : k ∈ g'.handles
    · rw [hr'.parent k hold]
      exact hr.adopted k (hr'.mem_kids_old hk hold) hnew
    · exact hr'.adopted k hk hold

end Reworked

theorem Reworked.refl (hs : g.Sound) (hh : g.IsStep h) : g.Reworked h g where
  root := rfl
  before := hh
  after := hh
  grown := ⟨0, rfl, by simp [handlesFrom]⟩
  arguments := by
    intro k hk
    rcases isStep_iff.1 hh with ⟨s, hc⟩ | ⟨c, hc⟩
    · rw [kids_eq hc rfl] at hk
      cases hk
    · rw [kids_eq hc rfl] at hk
      exact hs.fits h _ hc k hk
  elsewhere := fun _ _ _ => rfl
  parent := fun _ _ => rfl
  adopted := by
    intro k hk hnew
    obtain ⟨r, p, -, -, hl⟩ := hs.rooted
    exact absurd (hl.kid_mem hk) hnew

namespace Resembles

variable (ha : g.Resembles g')
include ha

theorem handles : g'.handles = g.handles := by simp [Graph.handles, ha.size]

theorem kids (k : Handle) : g'.kids k = g.kids k := by
  have e : ∀ x : Graph, x.kids k = (((x.content? k).map Content.bare).bind Content.children?).getD [] := by
    intro x
    unfold Graph.kids
    cases x.content? k <;> simp
  rw [e, e, ha.bare]

theorem kind? (k : Handle) : g'.kind? k = g.kind? k := by
  have e : ∀ x : Graph, x.kind? k = ((x.content? k).map Content.bare).map Content.kind := by
    intro x
    unfold Graph.kind?
    cases x.content? k <;> simp
  rw [e, e, ha.bare]

theorem argument? (k : Handle) : g'.argument? k = g.argument? k := by
  have e : ∀ x : Graph, x.argument? k = ((x.content? k).map Content.bare).bind Content.argument? := by
    intro x
    unfold Graph.argument?
    cases x.content? k <;> simp
  rw [e, e, ha.bare]

theorem fixed : g'.fixed = g.fixed := by
  funext k
  have e : ∀ x : Graph, x.fixed k = ((x.content? k).map Content.bare).bind Content.fixed := by
    intro x
    unfold Graph.fixed
    cases x.content? k <;> simp
  rw [e, e, ha.bare]

theorem isStep (k : Handle) : g'.IsStep k ↔ g.IsStep k := by simp [IsStep, ha.kind?]

theorem call {k : Handle} {c : Call} :
    g'.content? k = some (.call c) ↔ g.content? k = some (.call c) := by
  have e : ∀ x : Graph, x.content? k = some (.call c) ↔
      (x.content? k).map Content.bare = some (.call c) := by
    intro x
    cases x.content? k with
    | none => simp
    | some d => cases d <;> simp [Content.bare]
  rw [e, e, ha.bare]

theorem step {k : Handle} {s : Step} :
    g'.content? k = some (.step s) ↔ g.content? k = some (.step s) := by
  have e : ∀ x : Graph, x.content? k = some (.step s) ↔
      (x.content? k).map Content.bare = some (.step s) := by
    intro x
    cases x.content? k with
    | none => simp
    | some d => cases d <;> simp [Content.bare]
  rw [e, e, ha.bare]

theorem fits_iff (c c' : Content) (hb : c'.bare = c.bare) : c'.Fits g' ↔ c.Fits g := by
  cases c <;> cases c' <;> simp [Content.bare] at hb <;>
    simp_all [Content.Fits, Definition.Fits, ha.kind?, ha.isStep]

/-- A graph that resembles a sound one is sound, if its parent links point to parents. -/
theorem sound (hs : g.Sound) (honest : ∀ k p, g'.parent? k = some p → k ∈ g.kids p) : g'.Sound where
  fits := by
    intro k c hk
    have hb := ha.bare k
    rw [hk, Option.map_some] at hb
    obtain ⟨d, hd, hdb⟩ := Option.map_eq_some_iff.1 hb.symm
    exact (ha.fits_iff d c hdb.symm).2 (hs.fits k d hd)
  rooted := by
    obtain ⟨r, p, hroot, hp, hl⟩ := hs.rooted
    refine ⟨r, p, ha.root ▸ hroot, ?_, ?_⟩
    · have hb := ha.bare r
      rw [hp, Option.map_some] at hb
      obtain ⟨d, hd, hdb⟩ := Option.map_eq_some_iff.1 hb
      rw [hd]
      cases d <;> simp [Content.bare] at hdb ⊢
      exact hdb
    · have : g'.kids = g.kids := funext ha.kids
      unfold Listed at hl ⊢
      rwa [ha.handles, this]
  honest := by
    intro k p hp
    rw [ha.kids]
    exact honest k p hp
  bound := by
    intro k c hk t ht
    obtain ⟨hw, hb⟩ := hs.bound k c (ha.call.1 hk) t ht
    refine ⟨by rw [ha.kind?, hw], fun d hd => ?_⟩
    rw [definition?_congr ha.fixed] at hd
    rw [Graph.arguments, gather_congr fun a _ => ha.argument? a]
    exact hb d hd

end Resembles

namespace Alike

variable (ha : g.Alike g')
include ha

/-- **A graph that is alike is sound.** -/
theorem sound (hs : g.Sound) : g'.Sound :=
  ha.toResembles.sound hs fun k p hp => hs.honest k p (ha.parent k ▸ hp)

theorem linked (hl : g.Linked) : g'.Linked := by
  intro k hk hroot
  rw [ha.handles] at hk
  rw [ha.root] at hroot
  rw [ha.parent]
  exact hl k hk hroot

end Alike

theorem Alike.refl (g : Graph) : g.Alike g := ⟨⟨rfl, rfl, fun _ => rfl⟩, fun _ => rfl⟩

theorem Alike.trans {g'' : Graph} (ha : g.Alike g') (ha' : g'.Alike g'') : g.Alike g'' :=
  ⟨⟨ha'.root.trans ha.root, ha'.size.trans ha.size, fun k => (ha'.bare k).trans (ha.bare k)⟩,
    fun k => (ha'.parent k).trans (ha.parent k)⟩

/-- Writing what enrichment notes down leaves a graph alike. -/
theorem alike_setContent {c c' : Content} (hc : g.content? h = some c) (hb : c'.bare = c.bare) :
    g.Alike (g.setContent h c') := by
  refine ⟨⟨root_setContent, size_setContent, fun k => ?_⟩, fun k => parent?_setContent⟩
  rw [content?_setContent (mem_handles_of_content? hc)]
  split
  · rename_i e
    rw [e, hc, Option.map_some, Option.map_some, hb]
  · rfl

end Graph

end Actionbook
