import Actionbook.Proofs.Documents

/-!
# Calls that bind the same

What a call says after enrichment is its keyword, its word and, parameter by parameter, the values that
the arguments which were written give (`Graph.Done.canonicalArguments_ok`). So two calls say the same if
they bind the same (`SeenCall.Agrees`), in whatever order, by name or by position, and whatever defaults
stand beside: `agreeing_calls_say_the_same`.
-/

namespace Actionbook

open Work (Ensures)

/-! ## What a call binds -/

/-- A call as it is seen in a graph, with its arguments and with the parameters of its target. -/
structure SeenCall where
  call : Call
  arguments : List (Handle × Argument)
  formals : List (Handle × Parameter)

namespace SeenCall

/-- The values that arguments which were written give to a parameter. -/
def given (v : SeenCall) (p : Handle) : List Value :=
  (v.arguments.filter fun e => !e.2.synthesized && e.2.parameter == some p).map (·.2.value)

/-- Two calls of one word with one keyword that bind the same to parameters of the same names: at every
place, arguments that were written give the same value in both, or there are none in both. -/
structure Agrees (v w : SeenCall) : Prop where
  word : v.call.actionWord = w.call.actionWord
  keyword : v.call.shownKeyword = w.call.shownKeyword
  resolved : ∀ e ∈ v.arguments ++ w.arguments, e.2.unresolved = false
  names : v.formals.map (·.2.name) = w.formals.map (·.2.name)
  given : ∀ (i : Nat) (p q : Handle × Parameter), v.formals[i]? = some p → w.formals[i]? = some q →
    (∃ a ∈ v.given p.1, a ∈ w.given q.1) ∨ v.given p.1 = [] ∧ w.given q.1 = []

/-- What is fingerprinted of the arguments. -/
def canonicalArguments (v : SeenCall) : List Json :=
  v.formals.flatMap fun p => (v.given p.1).map fun a => canonicalArgument (p.2.name, a)

/-- What is fingerprinted of the call. -/
def canonical (v : SeenCall) : Json :=
  .object [
    ("call", .text v.call.actionWord),
    ("annotation", .ofText? v.call.shownKeyword),
    ("arguments", .array v.canonicalArguments)]

variable {v w : SeenCall} {p : Handle} {a : Value}

/-- No parameter is given two values. -/
theorem given_eq_singleton (hb : Bound (v.formals.map (·.1)) v.arguments) (ha : a ∈ v.given p) :
    v.given p = [a] := by
  have hgiven : v.given p = ((v.arguments.filter fun e => e.2.parameter == some p).filter
      fun e => !e.2.synthesized).map (·.2.value) := by
    rw [given, List.filter_filter]
  obtain ⟨e, he, rfl⟩ := List.mem_map.1 ha
  obtain ⟨he, hkeep⟩ := List.mem_filter.1 he
  rw [Bool.and_eq_true, beq_iff_eq] at hkeep
  have hone : [e].filter (fun e => !e.2.synthesized) = [e] :=
    List.filter_eq_self.2 (List.forall_mem_singleton.2 hkeep.1)
  rw [hgiven, hb.filter_eq he hkeep.2, hone]
  rfl

/-- Calls that agree are fingerprinted with the same arguments. -/
theorem Agrees.canonicalArguments_eq (h : v.Agrees w) (hv : Bound (v.formals.map (·.1)) v.arguments)
    (hw : Bound (w.formals.map (·.1)) w.arguments) : v.canonicalArguments = w.canonicalArguments := by
  have hgiven : ∀ (i : Nat) (p q : Handle × Parameter), v.formals[i]? = some p →
      w.formals[i]? = some q → v.given p.1 = w.given q.1 := fun i p q hp hq => by
    rcases h.given i p q hp hq with ⟨a, hva, hwa⟩ | ⟨hnone, hnone'⟩
    · rw [given_eq_singleton hv hva, given_eq_singleton hw hwa]
    · rw [hnone, hnone']
  unfold canonicalArguments
  rw [List.flatMap_def, List.flatMap_def]
  refine congrArg List.flatten (List.ext_getElem? fun i => ?_)
  have hname := congrArg (·[i]?) h.names
  simp only [List.getElem?_map] at hname ⊢
  cases hp : v.formals[i]? with
  | none =>
    cases hq : w.formals[i]? with
    | none => rfl
    | some q => simp [hp, hq] at hname
  | some p =>
    cases hq : w.formals[i]? with
    | none => simp [hp, hq] at hname
    | some q =>
      have hname : p.2.name = q.2.name := by simpa [hp, hq] using hname
      rw [Option.map_some, Option.map_some, hgiven i p q hp hq, hname]

theorem Agrees.canonical_eq (h : v.Agrees w) (hv : Bound (v.formals.map (·.1)) v.arguments)
    (hw : Bound (w.formals.map (·.1)) w.arguments) : v.canonical = w.canonical := by
  rw [canonical, canonical, h.word, h.keyword, h.canonicalArguments_eq hv hw]

end SeenCall

/-- A call whose target is known, as it is seen. -/
def Graph.seenCall (g : Graph) (h : Handle) : Except Fault SeenCall := do
  let call ← g.call h
  let arguments ← g.argumentsOf call
  match call.target with
  | some t => return { call, arguments, formals := ← g.parametersOf t }
  | none => throw .missingPart

namespace Graph

variable {g : Graph} {h : Handle} {v w : SeenCall}

/-- What runs bring about: calls are laid out, bound and completed. -/
structure Done (g : Graph) : Prop where
  sound : g.Sound
  told : g.Told
  finished : ∀ h z, g.state? h = some z → z.Finished g.formals (g.target? z.call.actionWord)

/-- What is seen of a call in a graph that has been enriched. -/
theorem Done.exists_of_seenCall (hs : g.Done) (hv : g.seenCall h = .ok v) :
    ∃ x, g.state? h = some x ∧ g.content? h = some (.call x.call) ∧ v.call = x.call ∧
      v.arguments = x.arguments ∧ v.formals = g.formalsOf x.call.actionWord ∧
      Bound (v.formals.map (·.1)) v.arguments := by
  obtain ⟨c, hc, hv⟩ := bind_eq_ok.1 hv
  obtain ⟨args, hargs, hv⟩ := bind_eq_ok.1 hv
  have hc := content?_of_call hc
  have hx := state?_call hc
  have hargs' := hs.sound.argumentsOf_ok hc
  cases hargs.symm.trans hargs'
  have hfin := hs.finished h _ hx
  cases htarget : c.target with
  | none =>
    rw [htarget] at hv
    cases hv
  | some t =>
    rw [htarget] at hv
    obtain ⟨formals, hformals, hv⟩ := bind_eq_ok.1 hv
    cases hv
    unfold CallState.Finished at hfin
    split at hfin
    · rename_i t' ht'
      cases hfin.target.symm.trans htarget
      obtain ⟨w, hw, rfl⟩ := Option.map_eq_some_iff.1 ht'
      have hd := definition?_of_actionWord? (mem_words (List.mem_of_find?_eq_some hw))
      cases hformals.symm.trans (hs.sound.parametersOf_ok hd)
      refine ⟨_, hx, hc, rfl, rfl, ?_, hfin.bound⟩
      rw [formalsOf, ht']
      rfl
    · cases hfin.target.symm.trans htarget

theorem keyOf_eq {e : (Handle × Argument) × Nat} {p : Handle × Parameter}
    (he : e.1.2.parameter = some p.1) (hp : g.parameter? p.1 = some p.2) : g.keyOf e = p.2.name := by
  simp [keyOf, he, hp]

/-- **What is fingerprinted of a call without unresolved arguments**, parameter by parameter. -/
theorem Done.canonicalArguments_ok (hs : g.Done) (hv : g.seenCall h = .ok v)
    (hall : ∀ e ∈ v.arguments, e.2.unresolved = false) :
    g.canonicalArguments v.call = .ok v.canonicalArguments := by
  obtain ⟨x, hx, -, hcall, hargs, hformals, hb⟩ := hs.exists_of_seenCall hv
  have hl := hs.told.laid h x hx
  rw [← hformals] at hl
  have hp : ∀ p ∈ v.formals, g.parameter? p.1 = some p.2 := fun p hp =>
    parameter?_of_formalsOf (hformals ▸ hp)
  rw [hcall, canonicalArguments_arranged hs.sound hx ?shown hl.ordered hl.bound]
  case shown =>
    intro e he p hep
    obtain ⟨q, hq, rfl⟩ := List.mem_map.1 (hl.bound e he p hep)
    exact Option.isSome_of_eq_some (hp q hq)
  have hn : (x.arguments.zipIdx.filterMap fun e => e.1.2.parameter).Nodup := by
    have h := hb.nodup_parameters
    rw [hargs, ← List.zipIdx_map_fst 0 x.arguments, List.filterMap_map] at h
    exact h
  have hsome : ∀ e ∈ x.arguments.zipIdx, e.1.2.parameter.isSome := fun e he => by
    have hm := hargs ▸ List.fst_mem_of_mem_zipIdx he
    rcases hb.flagged e.1 hm with ⟨-, p, -, hp⟩ | ⟨hu, -⟩
    · exact Option.isSome_of_eq_some hp
    · rw [hall e.1 hm] at hu
      cases hu
  rw [arranged_eq_flatMap hn hsome, List.filter_flatMap, List.map_flatMap, List.flatMap_map,
    SeenCall.canonicalArguments]
  refine congrArg Except.ok (List.flatMap_congr fun p hmem => ?_)
  -- the places of the arguments do not matter once they are bound
  have hplaces : v.given p.1 = ((x.arguments.zipIdx.filter fun e => e.1.2.parameter == some p.1).filter
      fun e => !e.1.2.synthesized).map fun e => e.1.2.value := by
    conv => lhs; rw [SeenCall.given, hargs, ← List.zipIdx_map_fst 0 x.arguments, List.filter_map,
      List.map_map]
    rw [List.filter_filter]
    rfl
  rw [hplaces, List.map_map]
  refine List.map_congr_left fun e he => ?_
  have hkey : e.1.2.parameter = some p.1 := by
    simpa using (List.mem_filter.1 (List.mem_filter.1 he).1).2
  rw [keyOf_eq hkey (hp p hmem)]
  rfl

/-- What a call says. -/
theorem Done.canonicalStep_ok (hs : g.Done) (hv : g.seenCall h = .ok v)
    (hall : ∀ e ∈ v.arguments, e.2.unresolved = false) :
    g.canonicalStep h = .ok v.canonical := by
  have hargs := hs.canonicalArguments_ok hv hall
  obtain ⟨x, hx, hc, hcall, -⟩ := hs.exists_of_seenCall hv
  rw [SeenCall.canonical, hcall]
  rw [hcall] at hargs
  simp only [canonicalStep, node_ok hc, call_ok hc, hargs, bind, Except.bind]
  rfl

end Graph

/-- One run or several bring this about for a graph that has been read. -/
theorem Design.ensures_done (d : Design) {r : Report} {n : Nat} (hn : 1 ≤ n) :
    Ensures (enrichTimes n) ⟨d.graph, r⟩ fun _ s => s.graph.Done := by
  obtain ⟨n, rfl⟩ := Nat.exists_eq_add_of_le' hn
  rw [enrichTimes, Work.ensures_bind]
  refine (Graph.ensures_enrich d.graph_sound).mono ?_
  rintro - ⟨g, r⟩ ⟨m, he⟩
  refine (Graph.ensures_enrichTimes Graph.Done he.after.sound
    ⟨he.after.sound, Design.told he, fun h z => he.finished⟩ (fun g g' m _ hs he => ?_) n).mono
      fun _ s h => h.2
  exact ⟨he.after.sound, he.told hs.sound hs.told.allLayered, fun h z => he.finished⟩

/-- **A call says what it binds.** Two calls of enriched graphs that bind the same say the same, which is the
word, the keyword and what is bound: order and names of arguments make no difference, nor do the arguments
that stand for defaults. -/
theorem agreeing_calls_say_the_same {text₁ text₂ : String} {strict₁ strict₂ : Bool} {g₁ g₂ : Graph}
    (hg₁ : Design.readGraph text₁ strict₁ = .ok g₁) (hg₂ : Design.readGraph text₂ strict₂ = .ok g₂)
    (r₁ r₂ : Report) {n₁ n₂ : Nat} (hn₁ : 1 ≤ n₁) (hn₂ : 1 ≤ n₂) :
    Ensures (enrichTimes n₁) ⟨g₁, r₁⟩ fun _ s₁ => Ensures (enrichTimes n₂) ⟨g₂, r₂⟩ fun _ s₂ =>
      ∀ h₁ h₂ v w, s₁.graph.seenCall h₁ = .ok v → s₂.graph.seenCall h₂ = .ok w → v.Agrees w →
        s₁.graph.canonicalStep h₁ = .ok v.canonical ∧ s₂.graph.canonicalStep h₂ = .ok v.canonical := by
  obtain ⟨d₁, -, rfl⟩ := Design.exists_of_readGraph hg₁
  obtain ⟨d₂, -, rfl⟩ := Design.exists_of_readGraph hg₂
  refine (d₁.ensures_done hn₁).mono fun _ s₁ hs₁ => (d₂.ensures_done hn₂).mono ?_
  intro _ s₂ hs₂ h₁ h₂ v w hv hw hagree
  obtain ⟨hall₁, hall₂⟩ := List.forall_mem_append.1 hagree.resolved
  obtain ⟨-, -, -, -, -, -, hb₁⟩ := hs₁.exists_of_seenCall hv
  obtain ⟨-, -, -, -, -, -, hb₂⟩ := hs₂.exists_of_seenCall hw
  refine ⟨hs₁.canonicalStep_ok hv hall₁, ?_⟩
  rw [hagree.canonical_eq hb₁ hb₂]
  exact hs₂.canonicalStep_ok hw hall₂

/-! ## Spellings -/

namespace SeenCall

variable {v w : SeenCall}

/-- The names of the parameters with the values that are given to them. -/
def bindings (v : SeenCall) : List (String × List Value) :=
  v.formals.map fun p => (p.2.name, v.given p.1)

theorem Agrees.of_bindings (hword : v.call.actionWord = w.call.actionWord)
    (hkeyword : v.call.shownKeyword = w.call.shownKeyword)
    (hv : ∀ e ∈ v.arguments, e.2.unresolved = false) (hw : ∀ e ∈ w.arguments, e.2.unresolved = false)
    (h : v.bindings = w.bindings) : v.Agrees w where
  word := hword
  keyword := hkeyword
  resolved := List.forall_mem_append.2 ⟨hv, hw⟩
  names := by
    have hnames := congrArg (List.map Prod.fst) h
    rw [bindings, bindings, List.map_map, List.map_map] at hnames
    exact hnames
  given := by
    intro i p q hp hq
    have hgiven := congrArg (fun l : List (String × List Value) => l[i]?) h
    simp only [bindings, List.getElem?_map, hp, hq, Option.map_some, Option.some.injEq,
      Prod.mk.injEq] at hgiven
    rw [← hgiven.2]
    cases hgiven' : v.given p.1 with
    | nil => exact .inr ⟨rfl, rfl⟩
    | cons a l => exact .inl ⟨a, List.mem_cons_self, List.mem_cons_self⟩

end SeenCall

/-- Whether a call of a word shows no keyword, has no unresolved argument, and binds what is given. -/
def Graph.bindsPlainly (g : Graph) (h : Handle) (word : String) (bindings : List (String × List Value)) :
    Bool :=
  match g.seenCall h with
  | .ok v => v.call.actionWord == word && v.call.shownKeyword == none &&
      v.arguments.all (fun e => !e.2.unresolved) && v.bindings == bindings
  | .error _ => false

theorem Graph.exists_of_bindsPlainly {g : Graph} {h : Handle} {word : String}
    {bindings : List (String × List Value)} (hb : g.bindsPlainly h word bindings = true) :
    ∃ v, g.seenCall h = .ok v ∧ v.call.actionWord = word ∧ v.call.shownKeyword = none ∧
      (∀ e ∈ v.arguments, e.2.unresolved = false) ∧ v.bindings = bindings := by
  unfold bindsPlainly at hb
  split at hb
  · rename_i v hv
    simp only [Bool.and_eq_true, beq_iff_eq, List.all_eq_true, Bool.not_eq_true'] at hb
    exact ⟨v, hv, hb.1.1.1, hb.1.1.2, hb.1.2, hb.2⟩
  · cases hb

namespace Design

/-- A call with one argument by its position and one by its name. -/
abbrev mixedText : String := "<project><name>p</name><actionwords>
  <actionword><name>w</name><steps><call><actionword>t</actionword><arguments>
    <argument><value><numericliteral>1</numericliteral></value></argument>
    <argument><name>y</name><value><numericliteral>2</numericliteral></value></argument>
  </arguments></call></steps></actionword>
  <actionword><name>t</name><parameters>
    <parameter><name>x</name></parameter><parameter><name>y</name></parameter>
    <parameter><name>z</name><default><numericliteral>3</numericliteral></default></parameter>
  </parameters></actionword></actionwords>
  </project>"

/-- The call with both arguments by their names, in the other order, and with another default. -/
abbrev namedText : String := "<project><name>p</name><actionwords>
  <actionword><name>t</name><parameters>
    <parameter><name>x</name></parameter><parameter><name>y</name></parameter>
    <parameter><name>z</name><default><stringliteral>a</stringliteral></default></parameter>
  </parameters></actionword>
  <actionword><name>w</name><steps><call><actionword>t</actionword><arguments>
    <argument><name>y</name><value><numericliteral>2</numericliteral></value></argument>
    <argument><name>x</name><value><numericliteral>1</numericliteral></value></argument>
  </arguments></call></steps></actionword></actionwords>
  </project>"

/-- The action word that is called, with a default for its last parameter. -/
def calledWord (v : Value) : WrittenDefinition where
  name := "t"
  uid := none
  description := ""
  tags := []
  parameters := [{ name := "x", type := none, default := none },
    { name := "y", type := none, default := none }, { name := "z", type := none, default := some v }]
  steps := []

/-- The action word that calls it. -/
def callingWord (args : List WrittenArgument) : WrittenDefinition where
  name := "w"
  uid := none
  description := ""
  tags := []
  parameters := []
  steps := [.call "t" none args]

/-- The design that `mixedText` describes. -/
def mixed : Design where
  name := "p"
  description := ""
  scenarios := []
  actionWords := [callingWord [⟨none, .numeric "1"⟩, ⟨some "y", .numeric "2"⟩],
    calledWord (.numeric "3")]

/-- The design that `namedText` describes. -/
def named : Design where
  name := "p"
  description := ""
  scenarios := []
  actionWords := [calledWord (.string "a"),
    callingWord [⟨some "y", .numeric "2"⟩, ⟨some "x", .numeric "1"⟩]]

set_option maxRecDepth 4000 in
theorem readGraph_mixed : readGraph mixedText true = .ok mixed.graph :=
  readGraph_eq_ok.2 ⟨_, ofText_eq_ok (by decide +kernel), fun _ => by decide, rfl⟩

set_option maxRecDepth 4000 in
theorem readGraph_named : readGraph namedText true = .ok named.graph :=
  readGraph_eq_ok.2 ⟨_, ofText_eq_ok (by decide +kernel), fun _ => by decide, rfl⟩

end Design

theorem spellings_say_the_same :
    (Design.readGraph Design.mixedText true = .ok Design.mixed.graph ∧
      Design.readGraph Design.namedText true = .ok Design.named.graph ∧ 1 ≤ 1) ∧
    Ensures (enrichTimes 1) ⟨Design.mixed.graph, {}⟩ fun _ s₁ =>
      Ensures (enrichTimes 1) ⟨Design.named.graph, {}⟩ fun _ s₂ =>
        ∃ v : SeenCall, v.call.actionWord = "t" ∧ v.call.shownKeyword = none ∧
          v.bindings = [("x", [.numeric "1"]), ("y", [.numeric "2"]), ("z", [])] ∧
          s₁.graph.canonicalStep 2 = .ok v.canonical ∧ s₂.graph.canonicalStep 6 = .ok v.canonical := by
  let bindings : List (String × List Value) := [("x", [.numeric "1"]), ("y", [.numeric "2"]), ("z", [])]
  have hmixed : Ensures (enrichTimes 1) ⟨Design.mixed.graph, {}⟩ fun _ s =>
      s.graph.bindsPlainly 2 "t" bindings = true := Work.ensures_of_check (by decide +kernel)
  have hnamed : Ensures (enrichTimes 1) ⟨Design.named.graph, {}⟩ fun _ s =>
      s.graph.bindsPlainly 6 "t" bindings = true := Work.ensures_of_check (by decide +kernel)
  refine ⟨⟨Design.readGraph_mixed, Design.readGraph_named, by decide⟩, ?_⟩
  have hsame := agreeing_calls_say_the_same Design.readGraph_mixed Design.readGraph_named {} {}
    (Nat.le_refl 1) (Nat.le_refl 1)
  refine (hsame.and hmixed).mono fun _ s₁ h₁ => (h₁.1.and hnamed).mono fun _ s₂ h₂ => ?_
  obtain ⟨v, hv, hword, hkeyword, hall, hbindings⟩ := Graph.exists_of_bindsPlainly h₁.2
  obtain ⟨w, hw, hword', hkeyword', hall', hbindings'⟩ := Graph.exists_of_bindsPlainly h₂.2
  exact ⟨v, hword, hkeyword, hbindings, h₂.1 2 6 v w hv hw (.of_bindings (hword.trans hword'.symm)
    (hkeyword.trans hkeyword'.symm) hall hall' (hbindings.trans hbindings'.symm))⟩

end Actionbook
