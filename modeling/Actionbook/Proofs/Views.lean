import Actionbook.Design.Layout
import Actionbook.Graph.Walk
import Mathlib.Data.List.Nodup

/-!
# What a graph shows at a handle

Proofs look at a graph through a few views: the content and the parent at a handle (`content?`,
`parent?`), the kind (`kind?`), the children as a plain list (`kids`). The two basic writers of proofs
are `setContent` and `append`; every operation on a well-formed graph amounts to some of them, and
`node?_setContent`, `node?_append_left` and `node?_append_right` say what they do to the views.
-/

namespace Actionbook

namespace Graph

/-! ## Views -/

def content? (g : Graph) (h : Handle) : Option Content := (g.node? h).map (·.content)

/-- The parent that the node with a handle is linked to. -/
def parent? (g : Graph) (h : Handle) : Option Handle := (g.node? h).bind (·.parent)

/-- The kind of the node with a handle. -/
def kind? (g : Graph) (h : Handle) : Option NodeKind := (g.content? h).map Content.kind

/-- The handles that the node with a handle lists as its children. -/
def kids (g : Graph) (h : Handle) : List Handle := ((g.content? h).bind Content.children?).getD []

def argument? (g : Graph) (h : Handle) : Option Argument := (g.content? h).bind Content.argument?

def parameter? (g : Graph) (h : Handle) : Option Parameter := (g.content? h).bind Content.parameter?

def actionWord? (g : Graph) (h : Handle) : Option ActionWord :=
  (g.content? h).bind Content.actionWord?

def scenario? (g : Graph) (h : Handle) : Option Scenario := (g.content? h).bind Content.scenario?

/-- The scenario or action word with a handle. -/
def definition? (g : Graph) (h : Handle) : Option Definition :=
  (g.content? h).bind Content.definition?

/-- Whether a node is a step of a body: a plain one or a call. -/
def IsStep (g : Graph) (h : Handle) : Prop := g.kind? h = some .step ∨ g.kind? h = some .call

section
variable {g : Graph} {h k : Handle}

theorem mem_handles : h ∈ g.handles ↔ ∃ n : Nat, n < g.size ∧ h = (n : Int) := by
  simp only [handles, List.mem_map, List.mem_range, Int.ofNat_eq_natCast, eq_comm]

theorem nodup_handles (g : Graph) : g.handles.Nodup :=
  List.Nodup.map (fun _ _ => Int.ofNat.inj) List.nodup_range

theorem isSome_node? : (g.node? h).isSome ↔ h ∈ g.handles := by
  rw [mem_handles]
  by_cases h0 : (0 : Int) ≤ h
  · obtain ⟨n, rfl⟩ := Int.eq_ofNat_of_zero_le h0
    simp only [node?_ofNat, size, isSome_getElem?]
    constructor
    · exact fun hn => ⟨n, hn, rfl⟩
    · rintro ⟨m, hm, e⟩
      exact Int.ofNat.inj e ▸ hm
  · have : ∀ n : Nat, h ≠ (n : Int) := fun n e => h0 (e ▸ Int.natCast_nonneg n)
    simp [node?, h0, this]

theorem mem_handles_of_content? {c : Content} (hc : g.content? h = some c) : h ∈ g.handles := by
  obtain ⟨n, hn, -⟩ := Option.map_eq_some_iff.1 hc
  exact isSome_node?.1 (by simp [hn])

theorem mem_handles_of_kind? {t : NodeKind} (hk : g.kind? h = some t) : h ∈ g.handles := by
  obtain ⟨c, hc, -⟩ := Option.map_eq_some_iff.1 hk
  exact mem_handles_of_content? hc

theorem content?_of_mem (hh : h ∈ g.handles) : ∃ c, g.content? h = some c := by
  obtain ⟨n, hn⟩ := Option.isSome_iff_exists.1 (isSome_node?.2 hh)
  exact ⟨n.content, by simp [content?, hn]⟩

theorem node?_eq_none (hh : h ∉ g.handles) : g.node? h = none := by
  rw [← isSome_node?] at hh
  simpa using hh

theorem content?_eq_none (hh : h ∉ g.handles) : g.content? h = none := by
  simp [content?, node?_eq_none hh]

theorem parent?_eq_none (hh : h ∉ g.handles) : g.parent? h = none := by
  simp [parent?, node?_eq_none hh]

theorem node?_eq_map (g : Graph) (h : Handle) :
    g.node? h = (g.content? h).map fun content => ⟨content, g.parent? h⟩ := by
  unfold content? parent?
  cases g.node? h <;> rfl

theorem node?_eq {c : Content} (hc : g.content? h = some c) :
    g.node? h = some ⟨c, g.parent? h⟩ := by
  obtain ⟨n, hn, rfl⟩ := Option.map_eq_some_iff.1 hc
  simp [hn, parent?]

theorem kids_eq_nil (hh : h ∉ g.handles) : g.kids h = [] := by
  simp [kids, content?_eq_none hh]

theorem mem_handles_of_mem_kids (hk : k ∈ g.kids h) : h ∈ g.handles := by
  apply Classical.byContradiction
  intro hh
  rw [kids_eq_nil hh] at hk
  cases hk

theorem IsStep.mem_handles (hs : g.IsStep h) : h ∈ g.handles :=
  hs.elim mem_handles_of_kind? mem_handles_of_kind?

/-- A node is a step of a body if it is a plain step or a call. -/
theorem isStep_iff : g.IsStep h ↔
    (∃ s, g.content? h = some (.step s)) ∨ ∃ c, g.content? h = some (.call c) := by
  unfold IsStep kind?
  cases g.content? h with
  | none => simp
  | some c => cases c <;> simp [Content.kind]

/-- Two graphs are one if they have the same root and show the same nodes. -/
theorem ext_node? {g g' : Graph} (hr : g.root = g'.root) (hn : ∀ k, g.node? k = g'.node? k) :
    g = g' := by
  obtain ⟨nodes, root⟩ := g
  obtain ⟨nodes', root'⟩ := g'
  simp only at hr
  subst hr
  congr 1
  apply Array.ext_getElem?
  intro i
  have := hn (i : Nat)
  rwa [node?_ofNat, node?_ofNat] at this

end

/-! ## Reading -/

section
variable {g : Graph} {h : Handle}

theorem get_ok {α : Type} {expected : NodeKind} {view : Content → Option α} {c : Content} {a : α}
    (hc : g.content? h = some c) (ha : view c = some a) : g.get h expected view = .ok a := by
  simp only [get, node, node?_eq hc, bind, Except.bind, ha]
  rfl

theorem node_ok {c : Content} (hc : g.content? h = some c) : g.node h = .ok ⟨c, g.parent? h⟩ := by
  simp [node, node?_eq hc]

theorem call_ok {c : Call} (hc : g.content? h = some (.call c)) : g.call h = .ok c := get_ok hc rfl

theorem argument_ok {a : Argument} (ha : g.argument? h = some a) : g.argument h = .ok a := by
  obtain ⟨c, hc, hv⟩ := Option.bind_eq_some_iff.1 ha
  exact get_ok hc hv

theorem parameter_ok {p : Parameter} (hp : g.parameter? h = some p) : g.parameter h = .ok p := by
  obtain ⟨c, hc, hv⟩ := Option.bind_eq_some_iff.1 hp
  exact get_ok hc hv

theorem actionWord_ok {w : ActionWord} (hw : g.actionWord? h = some w) : g.actionWord h = .ok w := by
  obtain ⟨c, hc, hv⟩ := Option.bind_eq_some_iff.1 hw
  exact get_ok hc hv

theorem scenario_ok {s : Scenario} (hs : g.scenario? h = some s) : g.scenario h = .ok s := by
  obtain ⟨c, hc, hv⟩ := Option.bind_eq_some_iff.1 hs
  exact get_ok hc hv

theorem content?_argument {a : Argument} :
    g.argument? h = some a ↔ g.content? h = some (.argument a) := by
  unfold argument?
  cases g.content? h with
  | none => simp
  | some c => cases c <;> simp [Content.argument?]

theorem content?_parameter {p : Parameter} :
    g.parameter? h = some p ↔ g.content? h = some (.parameter p) := by
  unfold parameter?
  cases g.content? h with
  | none => simp
  | some c => cases c <;> simp [Content.parameter?]

theorem content?_actionWord {w : ActionWord} :
    g.actionWord? h = some w ↔ g.content? h = some (.actionWord w) := by
  unfold actionWord?
  cases g.content? h with
  | none => simp
  | some c => cases c <;> simp [Content.actionWord?]

theorem content?_scenario {s : Scenario} :
    g.scenario? h = some s ↔ g.content? h = some (.scenario s) := by
  unfold scenario?
  cases g.content? h with
  | none => simp
  | some c => cases c <;> simp [Content.scenario?]

/-- The nodes among the given ones that a view shows, with their handles. -/
def gather {α : Type} (view : Handle → Option α) (handles : List Handle) : List (Handle × α) :=
  handles.filterMap fun h => (view h).map (h, ·)

theorem mem_gather {α : Type} {view : Handle → Option α} {l : List Handle} {e : Handle × α} :
    e ∈ gather view l ↔ e.1 ∈ l ∧ view e.1 = some e.2 := by
  obtain ⟨h, a⟩ := e
  simp only [gather, List.mem_filterMap, Option.map_eq_some_iff, Prod.mk.injEq]
  constructor
  · rintro ⟨k, hk, b, hb, rfl, rfl⟩
    exact ⟨hk, hb⟩
  · rintro ⟨hk, hb⟩
    exact ⟨h, hk, a, hb, rfl, rfl⟩

theorem gather_cons {α : Type} {view : Handle → Option α} {h : Handle} {l : List Handle} {a : α}
    (ha : view h = some a) : gather view (h :: l) = (h, a) :: gather view l := by
  simp [gather, ha]

theorem gather_append {α : Type} {view : Handle → Option α} {l l' : List Handle} :
    gather view (l ++ l') = gather view l ++ gather view l' := by
  simp [gather]

theorem gather_congr {α : Type} {view view' : Handle → Option α} {l : List Handle}
    (hv : ∀ h ∈ l, view h = view' h) : gather view l = gather view' l :=
  List.filterMap_congr fun h hh => by rw [hv h hh]

/-- If the view shows all of the nodes, their handles are the given ones. -/
theorem map_fst_gather {α : Type} {view : Handle → Option α} {l : List Handle}
    (hv : ∀ h ∈ l, (view h).isSome) : (gather view l).map (·.1) = l := by
  induction l with
  | nil => rfl
  | cons h l ih =>
    obtain ⟨a, ha⟩ := Option.isSome_iff_exists.1 (hv h List.mem_cons_self)
    rw [gather_cons ha, List.map_cons, ih fun k hk => hv k (List.mem_cons_of_mem _ hk)]

/-- What is read of the nodes that a view shows, if it shows all of them. -/
theorem map_gather {α β : Type} {view : Handle → Option α} {l : List Handle} {f : α → β}
    {f' : Handle → β} (hv : ∀ h ∈ l, ∃ a, view h = some a ∧ f' h = f a) :
    (gather view l).map (fun e => f e.2) = l.map f' := by
  induction l with
  | nil => rfl
  | cons h l ih =>
    obtain ⟨a, ha, hf⟩ := hv h List.mem_cons_self
    rw [gather_cons ha, List.map_cons, List.map_cons, hf, ih fun k hk => hv k (List.mem_cons_of_mem _ hk)]

def arguments (g : Graph) (c : Call) : List (Handle × Argument) := gather g.argument? c.arguments

theorem getAll_ok {α : Type} {read : Handle → Except Fault α} {view : Handle → Option α}
    {l : List Handle} (hr : ∀ h a, view h = some a → read h = .ok a)
    (hv : ∀ h ∈ l, (view h).isSome) : getAll read l = .ok (gather view l) := by
  induction l with
  | nil => rfl
  | cons h l ih =>
    obtain ⟨a, ha⟩ := Option.isSome_iff_exists.1 (hv h List.mem_cons_self)
    have hl := ih fun k hk => hv k (List.mem_cons_of_mem _ hk)
    unfold getAll at hl ⊢
    rw [List.mapM_cons, hr h a ha, hl, gather_cons ha]
    rfl

/-- A fold in which no step faults gives a result, with what every step keeps. -/
theorem exists_foldlM_inv {α β ε : Type} {f : β → α → Except ε β} {l : List α} {inv : β → Prop} {b : β}
    (step : ∀ b, inv b → ∀ a ∈ l, ∃ b', f b a = .ok b' ∧ inv b') (start : inv b) :
    ∃ b', l.foldlM f b = .ok b' ∧ inv b' := by
  induction l generalizing b with
  | nil => exact ⟨b, rfl, start⟩
  | cons a l ih =>
    obtain ⟨b₁, h₁, hb₁⟩ := step b start a List.mem_cons_self
    obtain ⟨b₂, h₂, hb₂⟩ := ih (fun b hb c hc => step b hb c (List.mem_cons_of_mem _ hc)) hb₁
    exact ⟨b₂, by rw [List.foldlM_cons, h₁]; exact h₂, hb₂⟩

/-- A fold in which no step faults gives a result. -/
theorem exists_foldlM {α β ε : Type} {f : β → α → Except ε β} {l : List α}
    (step : ∀ b, ∀ a ∈ l, ∃ b', f b a = .ok b') (b : β) : ∃ b', l.foldlM f b = .ok b' := by
  have h : ∃ b', l.foldlM f b = .ok b' ∧ True := exists_foldlM_inv
    (fun b _ a ha => (step b a ha).imp fun _ hb => ⟨hb, trivial⟩) trivial
  exact h.imp fun _ hb => hb.1

theorem isSome_argument? : (g.argument? h).isSome ↔ g.kind? h = some .argument := by
  unfold argument? kind?
  cases g.content? h with
  | none => simp
  | some c => cases c <;> simp [Content.argument?, Content.kind]

theorem isSome_parameter? : (g.parameter? h).isSome ↔ g.kind? h = some .parameter := by
  unfold parameter? kind?
  cases g.content? h with
  | none => simp
  | some c => cases c <;> simp [Content.parameter?, Content.kind]

theorem isSome_actionWord? : (g.actionWord? h).isSome ↔ g.kind? h = some .actionWord := by
  unfold actionWord? kind?
  cases g.content? h with
  | none => simp
  | some c => cases c <;> simp [Content.actionWord?, Content.kind]

theorem kind?_of_actionWord? {w : ActionWord} (hw : g.actionWord? h = some w) :
    g.kind? h = some .actionWord :=
  isSome_actionWord?.1 (Option.isSome_of_eq_some hw)

theorem isSome_scenario? : (g.scenario? h).isSome ↔ g.kind? h = some .scenario := by
  unfold scenario? kind?
  cases g.content? h with
  | none => simp
  | some c => cases c <;> simp [Content.scenario?, Content.kind]

end

/-! ## Writing -/

/-- Puts a content into the place of another. -/
def setContent (g : Graph) (h : Handle) (c : Content) : Graph := g.updateContent h fun _ => c

/-- Adds nodes. -/
def append (g : Graph) (l : List Node) : Graph := { g with nodes := g.nodes ++ l.toArray }

section
variable {g : Graph} {h k : Handle} {c : Content} {l : List Node}

@[simp] theorem root_update {f : Node → Node} : (g.update h f).root = g.root := by
  unfold update
  split <;> rfl

@[simp] theorem size_update {f : Node → Node} : (g.update h f).size = g.size := by
  unfold update
  split <;> simp [size]

@[simp] theorem handles_update {f : Node → Node} : (g.update h f).handles = g.handles := by
  simp [handles]

@[simp] theorem root_setContent : (g.setContent h c).root = g.root := root_update

@[simp] theorem size_setContent : (g.setContent h c).size = g.size := size_update

@[simp] theorem handles_setContent : (g.setContent h c).handles = g.handles := handles_update

theorem node?_setContent : (g.setContent h c).node? k =
    if k = h then (g.node? k).map fun n => { n with content := c } else g.node? k :=
  node?_update g h k _

@[simp] theorem parent?_setContent : (g.setContent h c).parent? k = g.parent? k := by
  unfold parent?
  rw [node?_setContent]
  split
  · cases g.node? k <;> rfl
  · rfl

theorem content?_setContent (hh : h ∈ g.handles) : (g.setContent h c).content? k =
    if k = h then some c else g.content? k := by
  unfold content?
  rw [node?_setContent]
  split
  · rename_i e
    obtain ⟨n, hn⟩ := Option.isSome_iff_exists.1 (isSome_node?.2 (e ▸ hh))
    simp [hn]
  · rfl

theorem content?_setContent_of_ne (hne : k ≠ h) : (g.setContent h c).content? k = g.content? k := by
  simp [content?, node?_setContent, hne]

@[simp] theorem root_setParent {p : Option Handle} : (g.setParent h p).root = g.root := root_update

@[simp] theorem size_setParent {p : Option Handle} : (g.setParent h p).size = g.size := size_update

@[simp] theorem handles_setParent {p : Option Handle} : (g.setParent h p).handles = g.handles :=
  handles_update

theorem node?_setParent {p : Option Handle} : (g.setParent h p).node? k =
    if k = h then (g.node? k).map fun n => { n with parent := p } else g.node? k :=
  node?_update g h k _

theorem content?_setParent {p : Option Handle} : (g.setParent h p).content? = g.content? := by
  funext k
  unfold content?
  rw [node?_setParent]
  split
  · cases g.node? k <;> rfl
  · rfl

theorem parent?_setParent {p : Option Handle} (hh : h ∈ g.handles) :
    (g.setParent h p).parent? k = if k = h then p else g.parent? k := by
  unfold parent?
  rw [node?_setParent]
  split
  · rename_i e
    obtain ⟨n, hn⟩ := Option.isSome_iff_exists.1 (isSome_node?.2 (e ▸ hh))
    simp [hn]
  · rfl

@[simp] theorem root_append : (g.append l).root = g.root := rfl

@[simp] theorem size_append : (g.append l).size = g.size + l.length := by simp [append, size]

theorem node?_append_left (hk : k ∈ g.handles) : (g.append l).node? k = g.node? k := by
  obtain ⟨n, hn, rfl⟩ := mem_handles.1 hk
  rw [node?_ofNat, node?_ofNat]
  simp only [size] at hn
  simp [append, Array.getElem?_append, hn]

theorem node?_append_right (i : Nat) : (g.append l).node? ((g.size + i : Nat) : Int) = l[i]? := by
  rw [node?_ofNat]
  have : ¬ g.nodes.size + i < g.nodes.size := by omega
  simp [append, Array.getElem?_append, size, this]

theorem content?_append_left (hk : k ∈ g.handles) : (g.append l).content? k = g.content? k := by
  simp [content?, node?_append_left hk]

theorem parent?_append_left (hk : k ∈ g.handles) : (g.append l).parent? k = g.parent? k := by
  simp [parent?, node?_append_left hk]

theorem length_handlesFrom {n m : Nat} : (handlesFrom n m).length = m := by simp [handlesFrom]

theorem mem_handlesFrom {n m : Nat} :
    k ∈ handlesFrom n m ↔ ∃ i : Nat, i < m ∧ k = ((n + i : Nat) : Int) := by
  simp only [handlesFrom, List.mem_map, List.mem_range, eq_comm]

theorem handlesFrom_add {n m m' : Nat} :
    handlesFrom n (m + m') = handlesFrom n m ++ handlesFrom (n + m) m' := by
  simp only [handlesFrom, List.range_add, List.map_append, List.map_map]
  congr 1
  apply List.map_congr_left
  intro i _
  simp only [Function.comp, Nat.add_assoc]

theorem handlesFrom_succ {n m : Nat} :
    handlesFrom n (m + 1) = (n : Handle) :: handlesFrom (n + 1) m := by
  rw [Nat.add_comm, handlesFrom_add]
  rfl

theorem handles_append : (g.append l).handles = g.handles ++ handlesFrom g.size l.length := by
  simp only [handles, size_append, List.range_add, List.map_append, List.map_map]
  rfl

theorem handles_eq_handlesFrom : g.handles = handlesFrom 0 g.size := by
  simp [handles, handlesFrom]

/-- A handle of a graph with added nodes is an old one or that of an added node. -/
theorem handle_cases (g : Graph) (l : List Node) (k : Handle) : k ∈ g.handles ∨
    (∃ i n, l[i]? = some n ∧ k = ((g.size + i : Nat) : Int)) ∨ (g.append l).node? k = none := by
  by_cases hk : k ∈ (g.append l).handles
  · rw [handles_append] at hk
    rcases List.mem_append.1 hk with hk | hk
    · exact .inl hk
    · obtain ⟨i, hi, rfl⟩ := mem_handlesFrom.1 hk
      exact .inr (.inl ⟨i, l[i], List.getElem?_eq_getElem hi, rfl⟩)
  · exact .inr (.inr (node?_eq_none hk))

theorem new_not_mem (g : Graph) (i : Nat) : ((g.size + i : Nat) : Int) ∉ g.handles := by
  intro hm
  obtain ⟨n, hn, e⟩ := mem_handles.1 hm
  have := Int.ofNat.inj e
  omega

theorem not_mem_handlesFrom {m : Nat} (hk : k ∈ g.handles) : k ∉ handlesFrom g.size m := by
  intro hm
  obtain ⟨i, -, rfl⟩ := mem_handlesFrom.1 hm
  exact new_not_mem g i hk

/-! ## Laws of writing -/

theorem updateContent_eq {f : Content → Content} (hc : g.content? h = some c) :
    g.updateContent h f = g.setContent h (f c) := by
  apply ext_node?
  · rw [root_setContent]
    exact root_update
  · intro k
    rw [node?_setContent]
    unfold updateContent
    rw [node?_update]
    split
    · rename_i e
      rw [e, node?_eq hc]
      rfl
    · rfl

theorem updateCall_eq {x : Call} {f : Call → Call} (hc : g.content? h = some (.call x)) :
    g.updateCall h f = g.setContent h (.call (f x)) := updateContent_eq hc

theorem updateArgument_eq {x : Argument} {f : Argument → Argument} (ha : g.argument? h = some x) :
    g.updateArgument h f = g.setContent h (.argument (f x)) :=
  updateContent_eq (content?_argument.1 ha)

theorem updateParameter_eq {x : Parameter} {f : Parameter → Parameter}
    (hp : g.parameter? h = some x) : g.updateParameter h f = g.setContent h (.parameter (f x)) :=
  updateContent_eq (content?_parameter.1 hp)

theorem updateActionWord_eq {x : ActionWord} {f : ActionWord → ActionWord}
    (hw : g.actionWord? h = some x) : g.updateActionWord h f = g.setContent h (.actionWord (f x)) :=
  updateContent_eq (content?_actionWord.1 hw)

theorem updateStep_eq {x : Step} {f : Step → Step} (hs : g.content? h = some (.step x)) :
    g.updateStep h f = g.setContent h (.step (f x)) := updateContent_eq hs

theorem setContent_self (hc : g.content? h = some c) : g.setContent h c = g := by
  apply ext_node? root_setContent
  intro k
  rw [node?_setContent]
  split
  · rename_i e
    rw [e, node?_eq hc]
    rfl
  · rfl

theorem setContent_setContent {c' : Content} :
    (g.setContent h c).setContent h c' = g.setContent h c' := by
  apply ext_node?
  · simp
  · intro k
    simp only [node?_setContent]
    split
    · cases g.node? k <;> rfl
    · rfl

theorem setContent_comm {c' : Content} (hne : h ≠ k) :
    (g.setContent h c).setContent k c' = (g.setContent k c').setContent h c := by
  apply ext_node?
  · simp
  · intro j
    simp only [node?_setContent]
    by_cases e : j = h <;> by_cases e' : j = k <;> simp_all

theorem setContent_append (hh : h ∈ g.handles) :
    (g.setContent h c).append l = (g.append l).setContent h c := by
  apply ext_node?
  · simp
  · intro k
    have hsize : (g.setContent h c).size = g.size := size_setContent
    have hhandles : (g.setContent h c).handles = g.handles := handles_setContent
    rcases handle_cases (g.setContent h c) l k with hk | ⟨i, n, hi, rfl⟩ | hk
    · rw [node?_append_left hk, node?_setContent, node?_setContent,
        node?_append_left (hhandles ▸ hk)]
    · have hne : ((g.size + i : Nat) : Int) ≠ h := fun e => new_not_mem g i (e ▸ hh)
      rw [node?_append_right, hi, hsize, node?_setContent, if_neg hne, node?_append_right, hi]
    · rw [hk]
      have hk' : k ∉ ((g.setContent h c).append l).handles := fun hm => by
        rw [← isSome_node?, hk] at hm
        cases hm
      rw [handles_append, hsize, hhandles, ← handles_append] at hk'
      have : k ∉ ((g.append l).setContent h c).handles := by rwa [handles_setContent]
      rw [node?_eq_none this]

theorem append_nil : g.append [] = g := by simp [append]

theorem append_append {l' : List Node} : (g.append l).append l' = g.append (l ++ l') := by
  simp [append]

theorem add_setParent {p : Option Handle} :
    (g.add c).1.setParent g.size p = g.append [⟨c, p⟩] := by
  apply ext_node?
  · exact root_update
  · intro k
    unfold setParent
    rw [node?_update]
    have hadd : (g.add c).1 = g.append [⟨c, none⟩] := by simp [add, append]
    rw [hadd]
    rcases handle_cases g [⟨c, p⟩] k with hk | ⟨i, n, hi, rfl⟩ | hk
    · have hne : k ≠ g.size := fun e => new_not_mem g 0 (by simpa using e ▸ hk)
      rw [if_neg hne, node?_append_left hk, node?_append_left hk]
    · obtain ⟨rfl, rfl⟩ : i = 0 ∧ n = ⟨c, p⟩ := by
        cases i with
        | zero => exact ⟨rfl, by simpa using hi.symm⟩
        | succ i => simp at hi
      have hzero : ((g.size + 0 : Nat) : Int) = g.size := rfl
      rw [if_pos hzero, node?_append_right, node?_append_right]
      rfl
    · rw [hk]
      have hk' : k ∉ (g.append [⟨c, p⟩]).handles := fun hm => by
        rw [← isSome_node?, hk] at hm
        cases hm
      have hno : (g.append [⟨c, none⟩]).node? k = none := by
        apply node?_eq_none
        rw [handles_append] at hk' ⊢
        exact hk'
      rw [hno]
      split <;> rfl

end

/-! ## Writing arguments -/

/-- Puts arguments into the places of others. -/
def setArguments (g : Graph) (args : List (Handle × Argument)) : Graph :=
  args.foldl (fun g e => g.setContent e.1 (.argument e.2)) g

section
variable {g : Graph} {h k : Handle} {c : Content} {args args' : List (Handle × Argument)}

@[simp] theorem setArguments_nil : g.setArguments [] = g := rfl

theorem setArguments_cons {e : Handle × Argument} :
    g.setArguments (e :: args) = (g.setContent e.1 (.argument e.2)).setArguments args := rfl

@[simp] theorem root_setArguments : (g.setArguments args).root = g.root := by
  induction args generalizing g with
  | nil => rfl
  | cons e args ih => rw [setArguments_cons, ih, root_setContent]

@[simp] theorem size_setArguments : (g.setArguments args).size = g.size := by
  induction args generalizing g with
  | nil => rfl
  | cons e args ih => rw [setArguments_cons, ih, size_setContent]

@[simp] theorem handles_setArguments : (g.setArguments args).handles = g.handles := by
  simp [handles]

@[simp] theorem parent?_setArguments : (g.setArguments args).parent? k = g.parent? k := by
  induction args generalizing g with
  | nil => rfl
  | cons e args ih => rw [setArguments_cons, ih, parent?_setContent]

theorem node?_setArguments_of_not_mem (hk : k ∉ args.map (·.1)) :
    (g.setArguments args).node? k = g.node? k := by
  induction args generalizing g with
  | nil => rfl
  | cons e args ih =>
    rw [List.map_cons, List.mem_cons, not_or] at hk
    rw [setArguments_cons, ih hk.2, node?_setContent, if_neg hk.1]

theorem node?_setArguments {a : Argument} (hn : (args.map (·.1)).Nodup) (hk : (k, a) ∈ args) :
    (g.setArguments args).node? k = (g.node? k).map fun n => { n with content := .argument a } := by
  induction args generalizing g with
  | nil => cases hk
  | cons e args ih =>
    obtain ⟨hnot, hn⟩ := List.nodup_cons.1 hn
    rw [setArguments_cons]
    rcases List.mem_cons.1 hk with rfl | hk
    · rw [node?_setArguments_of_not_mem hnot, node?_setContent, if_pos rfl]
    · have hne : k ≠ e.1 := by
        rintro rfl
        exact hnot (List.mem_map.2 ⟨_, hk, rfl⟩)
      rw [ih hn hk, node?_setContent, if_neg hne]

theorem argument?_setArguments {a : Argument} (hn : (args.map (·.1)).Nodup) (hk : (k, a) ∈ args)
    (hh : k ∈ g.handles) : (g.setArguments args).argument? k = some a := by
  obtain ⟨n, hn'⟩ := Option.isSome_iff_exists.1 (isSome_node?.2 hh)
  simp [argument?, content?, node?_setArguments hn hk, hn', Content.argument?]

theorem setArguments_setContent (hh : h ∉ args.map (·.1)) :
    (g.setContent h c).setArguments args = (g.setArguments args).setContent h c := by
  induction args generalizing g with
  | nil => rfl
  | cons e args ih =>
    rw [List.map_cons, List.mem_cons, not_or] at hh
    rw [setArguments_cons, setArguments_cons, setContent_comm hh.1, ih hh.2]

theorem setArguments_setArguments (hn : (args.map (·.1)).Nodup) (he : args'.map (·.1) = args.map (·.1)) :
    (g.setArguments args').setArguments args = g.setArguments args := by
  apply ext_node?
  · simp
  · intro k
    by_cases hk : k ∈ args.map (·.1)
    · obtain ⟨⟨k, a⟩, hm, rfl⟩ := List.mem_map.1 hk
      obtain ⟨⟨k', a'⟩, hm', e⟩ := List.mem_map.1 (he ▸ hk)
      cases e
      rw [node?_setArguments hn hm, node?_setArguments hn hm,
        node?_setArguments (he ▸ hn) hm', Option.map_map]
      rfl
    · rw [node?_setArguments_of_not_mem hk, node?_setArguments_of_not_mem (he ▸ hk),
        node?_setArguments_of_not_mem hk]

/-- Writing arguments that stand there already changes nothing. -/
theorem setArguments_self (ha : ∀ e ∈ args, g.argument? e.1 = some e.2) : g.setArguments args = g := by
  induction args generalizing g with
  | nil => rfl
  | cons e args ih =>
    have he := content?_argument.1 (ha e List.mem_cons_self)
    rw [setArguments_cons, setContent_self he, ih fun d hd => ha d (List.mem_cons_of_mem _ hd)]

end

end Graph

end Actionbook
