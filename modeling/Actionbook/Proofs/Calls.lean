import Actionbook.Proofs.Reading

/-!
# Calls with their arguments

`Graph.state?` shows a call together with its arguments. Whatever is done to a call writes its arguments
anew, adds some, and writes the call: `Graph.put`. It reworks the call (`put_reworked`), what is written
is what the call shows (`state?_put`), and all other calls and plain steps stay as they are
(`Reworked.state?_of_ne`, `Reworked.plain?_of_ne`).
-/

namespace Actionbook

/-- A call with its arguments. -/
structure CallState where
  call : Call
  arguments : List (Handle × Argument)

/-- The plain step that a node is. -/
def Content.plain? : Content → Option Step
  | .step s => some s
  | _ => none

namespace Graph

/-- The call with a handle, and its arguments. -/
def state? (g : Graph) (h : Handle) : Option CallState :=
  ((g.content? h).bind Content.call?).map fun c => ⟨c, g.arguments c⟩

def plain? (g : Graph) (h : Handle) : Option Step := (g.content? h).bind Content.plain?

variable {g g' : Graph} {h k : Handle} {x y : CallState}

theorem state?_eq_some :
    g.state? h = some x ↔ g.content? h = some (.call x.call) ∧ x.arguments = g.arguments x.call := by
  unfold state?
  obtain ⟨c, args⟩ := x
  cases g.content? h with
  | none => simp
  | some d => cases d <;> simp +contextual [Content.call?, eq_comm]

theorem state?_call {c : Call} (hc : g.content? h = some (.call c)) :
    g.state? h = some ⟨c, g.arguments c⟩ := state?_eq_some.2 ⟨hc, rfl⟩

theorem plain?_eq_some {s : Step} : g.plain? h = some s ↔ g.content? h = some (.step s) := by
  unfold plain?
  cases g.content? h with
  | none => simp
  | some d => cases d <;> simp [Content.plain?]

theorem plain?_of_state? (hx : g.state? h = some x) : g.plain? h = none := by
  rw [plain?, (state?_eq_some.1 hx).1]
  rfl

/-- A node is a step of a body if it is a plain step or a call. -/
theorem isStep_cases (hh : g.IsStep h) : (∃ s, g.plain? h = some s) ∨ ∃ x, g.state? h = some x := by
  rcases isStep_iff.1 hh with ⟨s, hs⟩ | ⟨c, hc⟩
  · exact .inl ⟨s, plain?_eq_some.2 hs⟩
  · exact .inr ⟨_, state?_call hc⟩

theorem isStep_of_plain? {s : Step} (hs : g.plain? h = some s) : g.IsStep h :=
  isStep_iff.2 (.inl ⟨s, plain?_eq_some.1 hs⟩)

theorem isStep_of_state? (hx : g.state? h = some x) : g.IsStep h :=
  isStep_iff.2 (.inr ⟨x.call, (state?_eq_some.1 hx).1⟩)

theorem kids_of_state? (hx : g.state? h = some x) : g.kids h = x.call.arguments :=
  kids_eq (state?_eq_some.1 hx).1 rfl

theorem kids_of_plain? {s : Step} (hs : g.plain? h = some s) : g.kids h = [] :=
  kids_eq (plain?_eq_some.1 hs) rfl

theorem Sound.map_fst_of_state? (hs : g.Sound) (hx : g.state? h = some x) :
    x.arguments.map (·.1) = x.call.arguments := by
  obtain ⟨hc, ha⟩ := state?_eq_some.1 hx
  rw [ha, hs.map_fst_arguments hc]

theorem Sound.nodup_of_state? (hs : g.Sound) (hx : g.state? h = some x) :
    (x.arguments.map (·.1)).Nodup := by
  rw [hs.map_fst_of_state? hx]
  exact hs.nodup_arguments (state?_eq_some.1 hx).1

theorem argument?_of_state? (hx : g.state? h = some x) {e : Handle × Argument}
    (he : e ∈ x.arguments) : g.argument? e.1 = some e.2 := by
  rw [(state?_eq_some.1 hx).2] at he
  exact (mem_gather.1 he).2

/-- The arguments are read if they are all there. -/
theorem argumentsOf_of_state? (hx : g.state? h = some x)
    (hfull : x.arguments.map (·.1) = x.call.arguments) : g.argumentsOf x.call = .ok x.arguments := by
  rw [(state?_eq_some.1 hx).2]
  refine getAll_ok (fun _ _ => argument_ok) fun a ha => ?_
  rw [← hfull] at ha
  obtain ⟨e, he, rfl⟩ := List.mem_map.1 ha
  exact Option.isSome_of_eq_some (argument?_of_state? hx he)

/-- The call with a handle has been reworked, and what it is now. -/
structure Becomes (g : Graph) (h : Handle) (y : CallState) (g' : Graph) : Prop where
  reworked : g.Reworked h g'
  sound : g'.Sound
  state : g'.state? h = some y

theorem Becomes.refl (hs : g.Sound) (hx : g.state? h = some x) : g.Becomes h x g :=
  ⟨.refl hs (isStep_of_state? hx), hs, hx⟩

theorem Becomes.trans {g'' : Graph} (hb : g.Becomes h x g') (hb' : g'.Becomes h y g'') :
    g.Becomes h y g'' := ⟨hb.reworked.trans hb'.reworked, hb'.sound, hb'.state⟩

/-! ## What stays when another step is reworked -/

namespace Reworked

variable (hr : g.Reworked h g')
include hr

theorem plain?_of_ne (hs : g.Sound) (hne : k ≠ h) : g'.plain? k = g.plain? k := by
  by_cases hm : k ∈ g'.kids h
  · obtain ⟨a, ha⟩ := Option.isSome_iff_exists.1 (isSome_argument?.2 (hr.arguments k hm))
    have hnew : g'.plain? k = none := by simp [plain?, content?_argument.1 ha, Content.plain?]
    rw [hnew]
    by_cases hk : k ∈ g.handles
    · obtain ⟨b, hb⟩ := Option.isSome_iff_exists.1
        (isSome_argument?.2 (hr.kids_kind hs (hr.mem_kids_old hm hk)))
      simp [plain?, content?_argument.1 hb, Content.plain?]
    · simp [plain?, content?_eq_none hk]
  · simp [plain?, content?_congr (hr.elsewhere k hne hm)]

theorem state?_of_ne (hs : g.Sound) (hne : k ≠ h) : g'.state? k = g.state? k := by
  cases hx : g.state? k with
  | some x =>
    obtain ⟨hc, ha⟩ := state?_eq_some.1 hx
    obtain ⟨hc', ha'⟩ := hr.call_of_ne hs hne hc
    exact state?_eq_some.2 ⟨hc', ha.trans ha'.symm⟩
  | none =>
    rw [Option.eq_none_iff_forall_ne_some]
    intro x hx'
    have hc := hr.call_of_ne' hne (state?_eq_some.1 hx').1
    rw [state?_call hc] at hx
    cases hx

/-- What is seen of nodes other than steps and arguments stays. -/
theorem view_eq {α : Type} {view : Content → Option α}
    (hview : ∀ c : Content, c.kind = .step ∨ c.kind = .call ∨ c.kind = .argument → view c = none)
    (hs : g.Sound) (k : Handle) : (g'.content? k).bind view = (g.content? k).bind view := by
  have unseen : ∀ x : Graph, x.IsStep k ∨ x.kind? k = some .argument →
      (x.content? k).bind view = none := by
    intro x hx
    cases hc : x.content? k with
    | none => rfl
    | some c =>
      refine hview c ?_
      rw [IsStep, kind_eq hc, Option.some.injEq, Option.some.injEq, Option.some.injEq, or_assoc] at hx
      exact hx
  by_cases e : k = h
  · subst e
    rw [unseen _ (.inl hr.after), unseen _ (.inl hr.before)]
  · by_cases hm : k ∈ g'.kids h
    · rw [unseen _ (.inr (hr.arguments k hm))]
      by_cases hk : k ∈ g.handles
      · rw [unseen _ (.inr (hr.kids_kind hs (hr.mem_kids_old hm hk)))]
      · rw [content?_eq_none hk]
        rfl
    · rw [content?_congr (hr.elsewhere k e hm)]

theorem parameter? (hs : g.Sound) (k : Handle) : g'.parameter? k = g.parameter? k :=
  hr.view_eq (fun c hc => by cases c <;> simp [Content.kind, Content.parameter?] at hc ⊢) hs k

theorem actionWord? (hs : g.Sound) (k : Handle) : g'.actionWord? k = g.actionWord? k :=
  hr.view_eq (fun c hc => by cases c <;> simp [Content.kind, Content.actionWord?] at hc ⊢) hs k

theorem formals (hs : g.Sound) : g'.formals = g.formals := by
  funext k
  rw [Graph.formals, Graph.formals, definition?_congr (hr.fixed hs)]
  exact gather_congr fun p _ => hr.parameter? hs p

end Reworked

/-! ## Writing a call -/

/-- The handles of new arguments with what they are. -/
def newArguments (g : Graph) (new : List Argument) : List (Handle × Argument) :=
  (handlesFrom g.size new.length).zip new

/-- Writes the arguments of a call that are there, adds others, and writes the call. -/
def put (g : Graph) (h : Handle) (old : List (Handle × Argument)) (new : List Argument) (c : Call) :
    Graph :=
  ((g.setArguments old).append (new.map fun a => ⟨.argument a, some h⟩)).setContent h (.call c)

theorem map_fst_newArguments (g : Graph) (new : List Argument) :
    (g.newArguments new).map (·.1) = handlesFrom g.size new.length :=
  List.map_fst_zip (by simp [length_handlesFrom])

theorem map_snd_newArguments (g : Graph) (new : List Argument) :
    (g.newArguments new).map (·.2) = new :=
  List.map_snd_zip (by simp [length_handlesFrom])

theorem mem_newArguments {new : List Argument} {e : Handle × Argument}
    (he : e ∈ g.newArguments new) : ∃ i, e.1 = ((g.size + i : Nat) : Int) ∧ new[i]? = some e.2 := by
  obtain ⟨i, hi⟩ := List.mem_iff_getElem?.1 he
  obtain ⟨h1, h2⟩ := List.getElem?_zip_eq_some.1 hi
  refine ⟨i, ?_, h2⟩
  simp only [handlesFrom, List.getElem?_map, Option.map_eq_some_iff] at h1
  obtain ⟨j, hj, e⟩ := h1
  rw [List.getElem?_range (by have := (List.getElem?_eq_some_iff.1 hj).1; simpa using this)] at hj
  cases hj
  exact e.symm

section
variable {old : List (Handle × Argument)} {new : List Argument} {c : Call}

@[simp] theorem root_put : (g.put h old new c).root = g.root := by simp [put]

@[simp] theorem size_put : (g.put h old new c).size = g.size + new.length := by simp [put]

theorem handles_put : (g.put h old new c).handles = g.handles ++ handlesFrom g.size new.length := by
  simp [put, handles_append]

theorem setContent_eq_put : g.setContent h (.call c) = g.put h [] [] c := by
  simp [put, append_nil]

theorem put_nil : g.put h old [] c = (g.setArguments old).setContent h (.call c) := by
  simp [put, append_nil]

theorem put_setContent {c' : Call} :
    (g.put h old new c).setContent h (.call c') = g.put h old new c' := setContent_setContent

/-- Arguments that stand there already need not be written. -/
theorem put_self {args : List (Handle × Argument)}
    (ha : ∀ e ∈ args, g.argument? e.1 = some e.2) : g.put h args new c = g.put h [] new c := by
  rw [put, setArguments_self ha]
  rfl

/-- Of two writings of the arguments the second one counts. -/
theorem put_setArguments {args : List (Handle × Argument)} (hn : (args.map (·.1)).Nodup)
    (he : old.map (·.1) = args.map (·.1)) (hno : h ∉ args.map (·.1)) :
    (g.put h old [] c).setArguments args = g.put h args [] c := by
  rw [put_nil, put_nil, setArguments_setContent hno, setArguments_setArguments hn he]

/-- Further arguments are written after those that are new already. -/
theorem put_put {more : List Argument} {c' : Call} (hh : h ∈ g.handles) :
    (g.put h old new c).put h [] more c' = g.put h old (new ++ more) c' := by
  have hh' : h ∈ ((g.setArguments old).append (new.map fun a => ⟨.argument a, some h⟩)).handles := by
    rw [handles_append, handles_setArguments]
    exact List.mem_append_left _ hh
  simp only [put, setArguments_nil]
  rw [setContent_append hh', append_append, setContent_setContent, List.map_append]

theorem node?_put_of_ne (hne : k ≠ h) : (g.put h old new c).node? k =
    ((g.setArguments old).append (new.map fun a => ⟨.argument a, some h⟩)).node? k := by
  unfold put
  rw [node?_setContent, if_neg hne]

theorem node?_put_old (hne : k ≠ h) (hk : k ∈ g.handles) :
    (g.put h old new c).node? k = (g.setArguments old).node? k := by
  rw [node?_put_of_ne hne, node?_append_left (by rwa [handles_setArguments])]

theorem argument?_put_old (hn : (old.map (·.1)).Nodup) (ho : ∀ e ∈ old, e.1 ∈ g.handles)
    (hno : h ∉ old.map (·.1)) {e : Handle × Argument} (he : e ∈ old) :
    (g.put h old new c).argument? e.1 = some e.2 := by
  have hne : e.1 ≠ h := fun e' => hno (e' ▸ List.mem_map_of_mem he)
  have hnode : (g.put h old new c).node? e.1 = (g.setArguments old).node? e.1 :=
    node?_put_old hne (ho e he)
  unfold argument?
  rw [content?_congr hnode]
  exact argument?_setArguments hn he (ho e he)

variable (hh : h ∈ g.handles) (hn : (old.map (·.1)).Nodup) (ho : ∀ e ∈ old, e.1 ∈ g.handles)
  (hno : h ∉ old.map (·.1))
include hh

theorem content?_put_self : (g.put h old new c).content? h = some (.call c) := by
  unfold put
  rw [content?_setContent (by rw [handles_append, handles_setArguments]; exact List.mem_append_left _ hh),
    if_pos rfl]

theorem node?_put_new (i : Nat) : (g.put h old new c).node? ((g.size + i : Nat) : Int) =
    new[i]?.map fun a => ⟨.argument a, some h⟩ := by
  have hne : ((g.size + i : Nat) : Int) ≠ h := fun e => new_not_mem g i (e ▸ hh)
  have hsize : (g.setArguments old).size = g.size := size_setArguments
  rw [node?_put_of_ne hne, ← hsize, node?_append_right, List.getElem?_map]

include hn ho hno

theorem gather_put : gather (g.put h old new c).argument?
    (old.map (·.1) ++ handlesFrom g.size new.length) = old ++ g.newArguments new := by
  have key : ∀ l : List (Handle × Argument),
      (∀ e ∈ l, (g.put h old new c).argument? e.1 = some e.2) →
      gather (g.put h old new c).argument? (l.map (·.1)) = l := by
    intro l
    induction l with
    | nil => intro _; rfl
    | cons e l ih =>
      intro hl
      rw [List.map_cons, gather_cons (hl e List.mem_cons_self),
        ih fun d hd => hl d (List.mem_cons_of_mem _ hd)]
  rw [gather_append, key old fun e he => argument?_put_old hn ho hno he,
    ← map_fst_newArguments, key]
  intro e he
  obtain ⟨i, hi, ha⟩ := mem_newArguments he
  rw [hi, argument?, content?, node?_put_new hh, ha]
  rfl

end

section
variable {old : List (Handle × Argument)} {new : List Argument} {c : Call}
  (hs : g.Sound) (hstep : g.IsStep h) (hold : old.map (·.1) = g.kids h)
include hs hstep hold

theorem old_facts : h ∈ g.handles ∧ (old.map (·.1)).Nodup ∧ (∀ e ∈ old, e.1 ∈ g.handles) ∧
    h ∉ old.map (·.1) := by
  obtain ⟨r, p, -, -, hl⟩ := hs.rooted
  refine ⟨hstep.mem_handles, hold ▸ hl.nodup_kids, fun e he => ?_, fun hm => ?_⟩
  · exact hl.kid_mem (h := h) (hold ▸ List.mem_map_of_mem he)
  · rw [hold] at hm
    exact absurd (hs.lower h h hm) (Nat.lt_irrefl _)

variable (hc : c.arguments = g.kids h ++ handlesFrom g.size new.length)
include hc

theorem state?_put : (g.put h old new c).state? h = some ⟨c, old ++ g.newArguments new⟩ := by
  obtain ⟨hh, hn, ho, hno⟩ := old_facts hs hstep hold
  rw [state?_call (content?_put_self hh), arguments, hc, ← hold, gather_put hh hn ho hno]

/-- **Writing a call reworks it.** -/
theorem put_reworked : g.Reworked h (g.put h old new c) := by
  obtain ⟨hh, hn, ho, hno⟩ := old_facts hs hstep hold
  have hkids : (g.put h old new c).kids h = g.kids h ++ handlesFrom g.size new.length := by
    rw [kids_eq (content?_put_self hh) rfl, hc]
  have harg : ∀ a ∈ (g.put h old new c).kids h, (g.put h old new c).kind? a = some .argument := by
    intro a ha
    rw [hkids, ← hold, ← map_fst_newArguments, ← List.map_append] at ha
    obtain ⟨e, he, rfl⟩ := List.mem_map.1 ha
    have hall : gather (g.put h old new c).argument? _ = old ++ g.newArguments new :=
      gather_put hh hn ho hno
    rw [← hall] at he
    exact isSome_argument?.1 (Option.isSome_of_eq_some (mem_gather.1 he).2)
  refine ⟨root_put, hstep, isStep_iff.2 (.inr ⟨c, content?_put_self hh⟩),
    ⟨new.length, size_put, hkids⟩, harg, fun k hne hm => ?_, fun k hk => ?_, fun k hm hk => ?_⟩
  · rw [hkids, List.mem_append, not_or, ← hold] at hm
    by_cases hk : k ∈ g.handles
    · rw [node?_put_old hne hk, node?_setArguments_of_not_mem hm.1]
    · rw [node?_eq_none hk, node?_eq_none]
      rw [handles_put, List.mem_append, not_or]
      exact ⟨hk, hm.2⟩
  · by_cases hne : k = h
    · subst hne
      rw [put, parent?_setContent, parent?_append_left (by rwa [handles_setArguments]),
        parent?_setArguments]
    · have hnode : (g.put h old new c).node? k = (g.setArguments old).node? k :=
        node?_put_old hne hk
      rw [parent?, hnode]
      exact parent?_setArguments
  · rw [hkids] at hm
    rcases List.mem_append.1 hm with hm | hm
    · obtain ⟨r, p, -, -, hl⟩ := hs.rooted
      exact absurd (hl.kid_mem hm) hk
    · obtain ⟨i, hi, rfl⟩ := mem_handlesFrom.1 hm
      rw [parent?, node?_put_new hh, List.getElem?_eq_getElem hi]
      rfl

/-- Writing a call keeps a graph sound, if the call is consistent. -/
theorem put_sound (hcons : ∀ t, c.target = some t → g.kind? t = some .actionWord ∧
    ∀ d, g.definition? t = some d → Bound d.parameters (old ++ g.newArguments new)) :
    (g.put h old new c).Sound := by
  have hr := put_reworked hs hstep hold hc
  refine hr.sound hs fun c' hc' => ?_
  obtain ⟨hh, hn, ho, hno⟩ := old_facts hs hstep hold
  rw [content?_put_self hh] at hc'
  cases hc'
  intro t ht
  obtain ⟨hw, hb⟩ := hcons t ht
  refine ⟨hr.kind_eq_of hs hw (by simp) (by simp), fun d hd => ?_⟩
  rw [definition?_congr (hr.fixed hs)] at hd
  have harg := (state?_eq_some.1 (state?_put hs hstep hold hc)).2
  rw [← harg]
  exact hb d hd

end

section
variable {old : List (Handle × Argument)} {c : Call}
  (hs : g.Sound) (hstep : g.IsStep h) (hold : old.map (·.1) = g.kids h) (hc : c.arguments = g.kids h)
include hs hstep hold hc

theorem state?_put_nil : (g.put h old [] c).state? h = some ⟨c, old⟩ := by
  have hput : (g.put h old [] c).state? h = some ⟨c, old ++ g.newArguments []⟩ :=
    state?_put hs hstep hold (by simp [hc, handlesFrom])
  simpa [newArguments] using hput

theorem put_nil_reworked : g.Reworked h (g.put h old [] c) :=
  put_reworked hs hstep hold (by simp [hc, handlesFrom])

theorem put_nil_sound (hcons : ∀ t, c.target = some t → g.kind? t = some .actionWord ∧
    ∀ d, g.definition? t = some d → Bound d.parameters old) : (g.put h old [] c).Sound :=
  put_sound hs hstep hold (by simp [hc, handlesFrom]) (by simpa [newArguments] using hcons)

end

end Graph

end Actionbook
