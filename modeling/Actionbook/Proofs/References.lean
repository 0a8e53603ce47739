import Actionbook.Proofs.DocumentOrder
import Actionbook.Proofs.Documents
import Actionbook.Proofs.Settling

/-!
# Unknown references

Strict reading looks for calls of unknown names before anything else is known of a document; a run finds
them when it binds calls, in the middle of other work. The two agree, call by call and in the order of the
document (`Design.ensures_enrich_unknownCalls`): binding goes through the calls as the walk does, and typing,
completing and normalizing report other things. As the warnings of a whole run are known up to order only,
those with one code are followed apart from the others (`Report.Tells`).

* `strict_reading_refuses_first_unresolved_call`: what strict reading says of a document, by the warnings of
  a run.
-/

namespace Actionbook

open Work (Ensures)

/-! ## Warnings of one kind -/

namespace Report

/-- The report has been given warnings, and those for which `p` holds are `told`, in this order. -/
def Tells (p : Warning → Bool) (r : Report) (told : List Warning) (r' : Report) : Prop :=
  ∃ ws, r' = r.warnAll ws ∧ ws.filter p = told

variable {p : Warning → Bool} {r r' r'' : Report} {due told told' : List Warning}

theorem Tells.refl (r : Report) : r.Tells p [] r := ⟨[], rfl, rfl⟩

theorem Tells.trans (ht : r.Tells p told r') (ht' : r'.Tells p told' r'') :
    r.Tells p (told ++ told') r'' := by
  obtain ⟨ws, rfl, rfl⟩ := ht
  obtain ⟨ws', rfl, rfl⟩ := ht'
  exact ⟨ws ++ ws', (List.foldl_append).symm, List.filter_append _ _⟩

/-- The order does not matter where there is at most one warning of the kind. -/
theorem Gains.tells (hg : r.Gains due r') (hd : (due.filter p).length ≤ 1) :
    r.Tells p (due.filter p) r' := by
  obtain ⟨ws, rfl, hws⟩ := hg
  refine ⟨ws, rfl, ?_⟩
  have hperm : (ws.filter p).Perm (due.filter p) := hws.filter p
  match hf : due.filter p with
  | [] =>
    rw [hf] at hperm
    exact hperm.eq_nil
  | [w] =>
    rw [hf] at hperm
    exact hperm.eq_singleton
  | w :: w' :: l =>
    rw [hf, List.length_cons, List.length_cons] at hd
    omega

theorem Gains.tells_nil (hg : r.Gains due r') (hd : ∀ w ∈ due, p w = false) : r.Tells p [] r' := by
  have hnil : due.filter p = [] := List.filter_eq_nil_iff.2 fun w hw => by rw [hd w hw]; exact nofun
  have ht := hg.tells (p := p) (by rw [hnil]; exact Nat.zero_le _)
  rwa [hnil] at ht

theorem Tells.since (ht : r.Tells p told r') : (r'.since r.mark).filter p = told := by
  obtain ⟨ws, rfl, h⟩ := ht
  rwa [since_mark_warnAll]

end Report

/-- The warning says that a call names no action word. -/
def Warning.tellsUnknownCall (w : Warning) : Bool := w.concern.code == "UNRESOLVED_CALL"

theorem tellsUnknownCall_of_mem_unresolvedArguments {callee : String} {position : Nat}
    {args : List (Handle × Argument)} {w : Warning}
    (hw : w ∈ unresolvedArguments callee position args) : w.tellsUnknownCall = false := by
  obtain ⟨⟨e, i⟩, -, hw⟩ := List.mem_flatMap.1 hw
  dsimp only at hw
  split at hw
  · rw [List.mem_singleton.1 hw]
    rfl
  · cases hw

namespace CallState

variable {formals : Handle → List (Handle × Parameter)} {h : Handle} {x y : CallState} {w : Warning}

theorem filter_unresolved (h : Handle) (x : CallState) : (x.unresolved h).filter (·.tellsUnknownCall) =
    if x.call.resolved = some false then [⟨.unresolvedCall x.call.actionWord, some h⟩] else [] := by
  have harguments : (unresolvedArguments x.call.actionWord 0 x.arguments).filter (·.tellsUnknownCall) = [] :=
    List.filter_eq_nil_iff.2 fun w hw => by
      rw [tellsUnknownCall_of_mem_unresolvedArguments hw]
      exact nofun
  rw [unresolved, List.filter_append, harguments, List.append_nil]
  split <;> rfl

theorem tellsUnknownCall_of_mem_missing (hw : w ∈ x.missing formals h) : w.tellsUnknownCall = false := by
  unfold missing at hw
  split at hw
  · obtain ⟨p, -, rfl⟩ := List.mem_map.1 hw
    rfl
  · cases hw

end CallState

namespace Graph

variable {g g' m : Graph} {h : Handle} {r : Report} {x y : CallState} {σ τ : StepState}
  {last : Option String} {w : Warning}

theorem tellsUnknownCall_of_mem_untyped (hw : w ∈ g.untyped h) : w.tellsUnknownCall = false := by
  unfold untyped at hw
  split at hw
  · split at hw
    · rw [List.mem_singleton.1 hw]
      rfl
    · cases hw
  · cases hw

/-! ## The calls of unknown names -/

/-- The warning for a call that names no action word. -/
def unknownCallAt (g : Graph) (h : Handle) : Option Warning :=
  match (g.content? h).bind Content.call? with
  | some c =>
    if (g.target? c.actionWord).isSome then none else some ⟨.unresolvedCall c.actionWord, some h⟩
  | none => none

theorem unknownCallAt_of_state? (hx : g.state? h = some x) : (g.unknownCallAt h).toList =
    ((x.bindTo g.formals (g.target? x.call.actionWord)).unresolved h).filter (·.tellsUnknownCall) := by
  obtain ⟨hc, -⟩ := state?_eq_some.1 hx
  rw [CallState.filter_unresolved, unknownCallAt, hc]
  simp only [Option.bind_some, Content.call?]
  cases ht : g.target? x.call.actionWord <;> simp [CallState.bindTo]

theorem Resembles.unknownCallAt (hr : g.Resembles g') : g'.unknownCallAt = g.unknownCallAt := by
  funext h
  have hcall : (g'.content? h).bind Content.call? = (g.content? h).bind Content.call? := by
    refine Option.ext fun c => ?_
    have hiff : ∀ x : Graph, (x.content? h).bind Content.call? = some c ↔
        x.content? h = some (.call c) := fun x => by
      cases x.content? h with
      | none => simp
      | some d => cases d <;> simp [Content.call?]
    rw [hiff, hiff, hr.call]
  rw [Graph.unknownCallAt, Graph.unknownCallAt, hcall, target?_congr hr.root hr.fixed]

/-! ## The walk -/

theorem Sound.walk_eq_below (hs : g.Sound) {root : Handle} (hroot : g.root = some root) :
    g.walk = .ok (g.below 4 root) := by
  obtain ⟨r, p, hr, hp, ht, -⟩ := hs.exists_tree
  rw [hroot] at hr
  cases hr
  rw [ht.walk_eq hroot, rank_eq (kind_eq hp)]
  rfl

theorem Resembles.walk (hr : g.Resembles g') (hs : g.Sound) (hs' : g'.Sound) : g'.walk = g.walk := by
  obtain ⟨root, p, hroot, -⟩ := hs.exists_tree
  have hbelow : ∀ n h, g'.below n h = g.below n h := fun n => by
    induction n with
    | zero => exact fun _ => rfl
    | succ n ih => exact fun h => by rw [below, below, hr.kids, funext ih]
  rw [hs.walk_eq_below hroot, hs'.walk_eq_below (hr.root.trans hroot), hbelow]

/-! ## Passes -/

/-- **Binding tells of the calls of unknown names in the order of the walk.** -/
theorem ensures_bindCalls_tells (hs : g.Sound) {visits : List Handle} (hw : g.walk = .ok visits) :
    Ensures bindCalls ⟨g, r⟩ fun _ s =>
      r.Tells (·.tellsUnknownCall) (visits.filterMap g.unknownCallAt) s.report := by
  obtain ⟨index, hi, hlookup⟩ := hs.actionWordIndex_ok
  obtain ⟨calls, hcalls, -⟩ := hs.calls_ok
  -- nodes that are no calls say nothing
  have hvisits : calls.filterMap g.unknownCallAt = visits.filterMap g.unknownCallAt := by
    have hfilter : calls = visits.filter fun h => ((g.content? h).bind Content.call?).isSome := by
      simp only [Graph.calls, hw, bind, Except.bind, pure, Except.pure, Except.ok.injEq] at hcalls
      rw [← hcalls]
      refine List.filter_congr fun h _ => ?_
      unfold content?
      cases g.node? h <;> rfl
    rw [hfilter, List.filterMap_filter]
    refine List.filterMap_congr fun h _ => ?_
    unfold unknownCallAt
    cases (g.content? h).bind Content.call? <;> rfl
  unfold bindCalls
  simp only [Work.ensures_bind, Work.ensures_read]
  refine ⟨index, hi, calls, hcalls, ?_⟩
  rw [← hvisits]
  refine (ensures_forM_calls (P := fun _ _ => True) (fun done s =>
    r.Tells (·.tellsUnknownCall) (done.filterMap g.unknownCallAt) s.report) hs hcalls (.refl r) ?_).mono
    fun _ _ h => h.2
  rintro done h x ⟨g', r'⟩ hnot hx hv htells
  refine (ensures_bindCall hv.sound ((hv.left h hnot).trans hx) fun t ht => ?_).mono ?_
  · rw [hlookup, ← hv.toFollows.target?] at ht
    exact kind?_of_target? ht
  rintro _ ⟨g'', r''⟩ ⟨hb, hgain⟩
  refine ⟨_, trivial, hb, ?_⟩
  rw [hlookup, hv.formals] at hgain
  have htold := unknownCallAt_of_state? hx
  have hone : ((g.unknownCallAt h).toList).length ≤ 1 := by cases g.unknownCallAt h <;> simp
  rw [htold] at hone
  have hstep := hgain.tells hone
  rw [← htold] at hstep
  have := htells.trans hstep
  rw [List.filterMap_append]
  cases hu : g.unknownCallAt h <;> simpa [List.filterMap_cons, hu] using this

/-- Normalizing tells of no call that its name is unknown. -/
theorem Normalizes.news (hn : g.Normalizes g.words last σ τ) (hw : w ∈ σ.news g.formals h τ) :
    w.tellsUnknownCall = false := by
  cases hn with
  | other hk =>
    simp only [StepState.news, StepState.due, hk] at hw
    cases hw
  | sentence hk hm =>
    simp only [StepState.news, StepState.due, hk, if_true] at hw
    rw [List.mem_singleton.1 hw]
    rfl
  | placed hk hm hy =>
    rename_i s word texts y sentence
    have hresolved : y.call.resolved = some true := (hy.resolved (target?_of_firstMatch? hm)).1
    rcases List.mem_append.1 hw with hw | hw
    · rw [CallState.unresolved, if_neg (by simp [CallState.annotated, hresolved]), List.nil_append] at hw
      exact tellsUnknownCall_of_mem_unresolvedArguments hw
    · exact CallState.tellsUnknownCall_of_mem_missing hw
  | call => cases hw

theorem Normalized.news (hs : g.Sound) (hn : g.Normalized g') (hw : w ∈ g.steps.flatMap (g.news g')) :
    w.tellsUnknownCall = false := by
  obtain ⟨h, hh, hw⟩ := List.mem_flatMap.1 hw
  obtain ⟨k, d, hd, hm⟩ := hs.exists_body (hs.mem_steps.1 hh)
  obtain ⟨done, rest, hsplit⟩ := List.append_of_mem hm
  obtain ⟨σ, τ, hσ, hτ, hnorm⟩ := hn.normal k d done h rest hd hsplit
  rw [news_eq hσ hτ] at hw
  exact hnorm.news hw

/-- **A run tells of the calls of unknown names in the order of the walk**, and of no others. -/
theorem ensures_enrich_tells (hs : g.Sound) {visits : List Handle} (hw : g.walk = .ok visits) :
    Ensures enrich ⟨g, r⟩ fun warnings _ =>
      warnings.filter (·.tellsUnknownCall) = visits.filterMap g.unknownCallAt := by
  unfold enrich
  simp only [Pass.all, Work.ensures_bind, Work.ensures_get, Work.ensures_pure, List.forM_eq_forM,
    List.forM_cons, List.forM_nil, Work.ensures_announcing, Pass.run]
  refine ((ensures_linkParents hs).silent silent_linkParents).mono ?_
  rintro - ⟨g₁, r₁⟩ ⟨⟨hf₁, -, hr₁⟩, rfl⟩
  refine (ensures_addTypes hf₁.sound).mono ?_
  rintro - ⟨g₂, r₂⟩ ⟨⟨e, -, ht₂⟩, hgain₂⟩
  have ha₂ := ht₂.toAlike
  have hf₂ := Follows.of_alike hf₁.sound ha₂
  have hwalk : g₂.walk = .ok visits := by
    rw [ha₂.toResembles.walk hf₁.sound hf₂.sound, hr₁.resembles.walk hs hf₁.sound, hw]
  have hunknown : g₂.unknownCallAt = g.unknownCallAt := by
    rw [ha₂.toResembles.unknownCallAt, hr₁.resembles.unknownCallAt]
  refine ((ensures_bindCalls hf₂.sound).and (ensures_bindCalls_tells hf₂.sound hwalk)).mono ?_
  rintro - ⟨g₃, r₃⟩ ⟨⟨hb₃, -⟩, htells₃⟩
  refine (ensures_completeCalls hb₃.sound).mono ?_
  rintro - ⟨g₄, r₄⟩ ⟨hc₄, hgain₄⟩
  refine (ensures_normalizeSentences hc₄.sound).mono ?_
  rintro - ⟨g₅, r₅⟩ ⟨hn₅, -, hgain₅⟩
  have htells₂ := hgain₂.tells_nil (p := (·.tellsUnknownCall)) fun w hw => by
    obtain ⟨h, -, hw⟩ := List.mem_flatMap.1 hw
    exact tellsUnknownCall_of_mem_untyped hw
  have htells₄ := hgain₄.tells_nil (p := (·.tellsUnknownCall)) fun w hw => by
    obtain ⟨h, -, hw⟩ := List.mem_flatMap.1 hw
    cases hx : g₄.state? h with
    | none => simp [hx] at hw
    | some x =>
      rw [hx] at hw
      exact CallState.tellsUnknownCall_of_mem_missing hw
  have htells₅ := hgain₅.tells_nil (p := (·.tellsUnknownCall)) fun w => hn₅.news hc₄.sound
  rw [hunknown] at htells₃
  simpa using (((htells₂.trans htells₃).trans htells₄).trans htells₅).since

end Graph

/-! ## Documents -/

namespace Design

variable (d : Design) {text : String} {r : Report}

theorem isSome_target?_graph (name : String) :
    (d.graph.target? name).isSome = d.actionWords.any (·.name == name) := by
  have hnames : (d.graph.words.map (·.2.name)).any (· == name) = d.declared.any (· == name) :=
    congrArg (List.any · (· == name)) d.names_words
  rw [Graph.target?, Option.isSome_map, List.isSome_find?]
  rw [declared, List.any_map, List.any_map] at hnames
  exact hnames

/-- The first call that strict reading refuses is the first of which a run tells. -/
theorem head?_unknownCalls : (d.graph.handles.filterMap d.graph.unknownCallAt).head? =
    d.unknownCall?.map fun e => ⟨.unresolvedCall e.2, some e.1⟩ := by
  have hhandles : d.graph.handles = d.contents.zipIdx.map fun e => (e.2 : Handle) := by
    rw [Graph.handles, size_graph, List.range_eq_range', ← List.zipIdx_map_snd 0 d.contents,
      List.map_map]
    rfl
  rw [hhandles, unknownCall?, List.map_findSome?, ← List.head?_filterMap, List.filterMap_map]
  refine congrArg List.head? (List.filterMap_congr fun e he => ?_)
  have hc := d.holds e.2 e.1 (List.mk_mem_zipIdx_iff_getElem?.1 he)
  rw [Nat.zero_add] at hc
  simp only [Function.comp_apply, Graph.unknownCallAt, hc, Option.bind_some]
  cases e.1.call? with
  | none => rfl
  | some c =>
    simp only [d.isSome_target?_graph]
    split <;> rfl

/-- A run on the graph of a document tells of the calls of unknown names, in the order of the document. -/
theorem ensures_enrich_unknownCalls : Ensures enrich ⟨d.graph, r⟩ fun warnings _ =>
    warnings.filter (·.tellsUnknownCall) = d.graph.handles.filterMap d.graph.unknownCallAt :=
  Graph.ensures_enrich_tells d.graph_sound d.walk_graph

theorem readGraph_strict (hd : ofText text = .ok d) : readGraph text true =
    match d.unknownCall? with
    | some e => .error (.unknownActionWord e.1 e.2)
    | none => .ok d.graph := by
  unfold readGraph
  rw [hd]
  cases hunknown : d.unknownCall? <;> simp [bind, Except.bind, hunknown, throw, throwThe,
    MonadExceptOf.throw, pure, Except.pure]

theorem exists_call_of_unknownCall? {e : Handle × String} (he : d.unknownCall? = some e) :
    ∃ c, d.graph.call e.1 = .ok c ∧ c.actionWord = e.2 := by
  obtain ⟨x, hx, hfound⟩ := List.exists_of_findSome?_eq_some he
  have hc := d.holds x.2 x.1 (List.mk_mem_zipIdx_iff_getElem?.1 hx)
  rw [Nat.zero_add] at hc
  cases hx1 : x.1 <;> simp only [hx1, Content.call?, reduceCtorEq] at hfound
  rename_i c
  split at hfound
  · cases hfound
  · cases hfound
    exact ⟨c, Graph.call_ok (hc.trans (congrArg some hx1)), rfl⟩

end Design

/-- After a run no call that stands for a sentence is unresolved. -/
theorem Graph.Enriched.resolved {g m g' : Graph} (he : g.Enriched m g') {h : Handle} {s : Step} {x : CallState}
    (hs : g.plain? h = some s) (hx : g'.state? h = some x) : x.call.resolved = some true := by
  obtain ⟨last, σ, hσ, hstep⟩ := he.exists_step (isStep_of_state? hx) (step?_call hx)
  rw [step?_plain hs] at hσ
  cases hσ
  cases hstep with
  | placed hk hm hy => exact (hy.resolved (target?_of_firstMatch? hm)).1

/-- **Strict reading and binding agree.** A document that is read if calls may name anything is refused by
strict reading exactly if a run on its graph reports a call that names no action word: the error is about the
call that is reported first, and about its name. Otherwise strict reading gives the same graph. No call that a
run makes of a sentence is unresolved. -/
theorem strict_reading_refuses_first_unresolved_call {text : String} {g : Graph}
    (hg : Design.readGraph text false = .ok g) (r : Report) :
    Ensures enrich ⟨g, r⟩ fun warnings s =>
      (match warnings.find? (·.concern.code == "UNRESOLVED_CALL") with
        | none => Design.readGraph text true = .ok g
        | some w => ∃ h c e, w = ⟨.unresolvedCall c.actionWord, some h⟩ ∧ g.call h = .ok c ∧
          Design.readGraph text true = .error e ∧ e.diagnostic = {
            code := "PARSE_ERROR_REFERENCE", node := some h
            context := [("actionword", .text c.actionWord)] }) ∧
      ∀ h n p c, g.node h = .ok n → n.content = .step p → s.graph.call h = .ok c →
        c.resolved = some true := by
  obtain ⟨d, hd, rfl⟩ := Design.exists_of_readGraph hg
  refine (d.ensures_enrich_unknownCalls.and (Graph.ensures_enrich d.graph_sound)).mono ?_
  rintro warnings ⟨g', r'⟩ ⟨hwarnings, m, he⟩
  refine ⟨?_, fun h n p c hn hp hc => ?sentences⟩
  case sentences =>
    have hplain : d.graph.plain? h = some p :=
      Graph.plain?_eq_some.2 ((Graph.content?_of_node hn).trans (congrArg some hp))
    exact he.resolved hplain (Graph.state?_call (Graph.content?_of_call hc))
  have hfirst : warnings.find? (·.concern.code == "UNRESOLVED_CALL") =
      d.unknownCall?.map fun e => ⟨.unresolvedCall e.2, some e.1⟩ := by
    rw [← d.head?_unknownCalls, ← hwarnings, List.head?_filter]
    rfl
  rw [hfirst, d.readGraph_strict hd]
  cases hunknown : d.unknownCall? with
  | none => rfl
  | some e =>
    obtain ⟨c, hc, hname⟩ := d.exists_call_of_unknownCall? hunknown
    exact ⟨e.1, c, _, by rw [hname], hc, rfl, by rw [hname, DesignError.diagnostic]⟩

namespace Design

/-- A document with a sentence that is a call, and calls of two unknown names. -/
abbrev unboundText : String := "<project><name>p</name>
  <scenarios><scenario><name>s</name><steps>
    <action><key>given</key><value><stringliteral>w</stringliteral></value></action>
    <call><actionword>u</actionword></call>
  </steps></scenario></scenarios>
  <actionwords><actionword><name>w</name><steps>
    <call><actionword>v</actionword></call>
  </steps></actionword></actionwords>
  </project>"

/-- The design that the document describes. -/
def unbound : Design where
  name := "p"
  description := ""
  scenarios := [{
    name := "s", uid := none, description := "", tags := [], parameters := [], rows := []
    steps := [.plain "given" (.string "w"), .call "u" none []] }]
  actionWords := [{
    name := "w", uid := none, description := "", tags := [], parameters := []
    steps := [.call "v" none []] }]

-- the characters of the text are too many for the usual depth
set_option maxRecDepth 4000 in
theorem ofText_unbound : ofText unboundText = .ok unbound :=
  ofText_eq_ok (by decide +kernel)

end Design

-- the characters of the texts are too many for the usual depth
set_option maxRecDepth 4000 in
/-- Of two unknown names strict reading is stopped by the first. A document without any is read. -/
theorem strict_reading_refuses_first_of_unbound :
    (Design.readGraph Design.unboundText false = .ok Design.unbound.graph ∧
      Design.readGraph Design.unboundText true = .error (.unknownActionWord 3 "u") ∧
      Ensures enrich ⟨Design.unbound.graph, {}⟩ fun warnings s =>
        warnings.find? (·.concern.code == "UNRESOLVED_CALL") = some ⟨.unresolvedCall "u", some 3⟩ ∧
          ∃ c, s.graph.call 2 = .ok c ∧ c.resolved = some true) ∧
    Design.readGraph Design.sampleText false = .ok Design.sample.graph ∧
      Ensures enrich ⟨Design.sample.graph, {}⟩ fun warnings _ =>
        warnings.find? (·.concern.code == "UNRESOLVED_CALL") = none := by
  have hunbound : Design.readGraph Design.unboundText false = .ok Design.unbound.graph :=
    Design.readGraph_eq_ok.2 ⟨_, Design.ofText_unbound, nofun, rfl⟩
  have hsample : Design.readGraph Design.sampleText false = .ok Design.sample.graph :=
    Design.readGraph_eq_ok.2 ⟨_, Design.ofText_sample, nofun, rfl⟩
  have hrefused : Design.readGraph Design.unboundText true = .error (.unknownActionWord 3 "u") := by
    have hunknown : Design.unbound.unknownCall? = some (3, "u") := by decide
    rw [Design.readGraph_strict _ Design.ofText_unbound, hunknown]
  refine ⟨⟨hunbound, hrefused, ?unbound⟩, hsample, ?sample⟩
  case unbound =>
    have hcall : Ensures enrich ⟨Design.unbound.graph, {}⟩ fun _ s =>
        (s.graph.call 2).toOption.isSome = true := Work.ensures_of_check (by decide +kernel)
    refine ((strict_reading_refuses_first_unresolved_call hunbound {}).and hcall).mono ?_
    rintro warnings s ⟨⟨hfirst, hsentences⟩, hcall⟩
    constructor
    · split at hfirst
      · exact nomatch hrefused.symm.trans hfirst
      · rename_i w hw
        obtain ⟨h, c, e, rfl, -, he, hdiagnostic⟩ := hfirst
        obtain rfl : DesignError.unknownActionWord 3 "u" = e := Except.error.inj (hrefused.symm.trans he)
        obtain rfl : 3 = h := Option.some.inj (congrArg Diagnostic.node hdiagnostic)
        have hcontext := congrArg Diagnostic.context hdiagnostic
        have hname : "u" = c.actionWord := Data.text.inj (Prod.mk.inj (List.cons.inj hcontext).1).2
        rw [hw, ← hname]
    · obtain ⟨c, hc⟩ := Option.isSome_iff_exists.1 hcall
      exact ⟨c, Design.ok_of_toOption hc, hsentences 2 _ _ c rfl rfl (Design.ok_of_toOption hc)⟩
  case sample =>
    refine (strict_reading_refuses_first_unresolved_call hsample {}).mono ?_
    rintro warnings s ⟨hfirst, -⟩
    split at hfirst
    · rename_i hnone
      exact hnone
    · obtain ⟨h, c, e, -, -, he, -⟩ := hfirst
      exact nomatch Design.readGraph_sample.symm.trans he

end Actionbook
