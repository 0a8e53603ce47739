import Actionbook.Fingerprint
import Actionbook.Proofs.Slots
import Actionbook.Proofs.Steps

/-!
# What a body says

`canonicalBody names steps` is what a body of written steps says if `names` tells the names of the
parameters of action words. It mentions no graph. A finished graph says just this of its bodies
(`canonicalSteps_ok`): handles, types, and the arguments that stand for defaults leave no trace.
-/

namespace Actionbook

/-! ## What written steps say -/

/-- Written arguments with the places of their parameters and their own. -/
def placed (names : List String) (args : List WrittenArgument) :
    List ((WrittenArgument × Option Nat) × Nat) :=
  (args.zip (slots names 0 [] (args.map (·.name)))).zipIdx

/-- Written arguments in the order of their parameters, under the names of these. -/
def shownArguments (names : List String) (args : List WrittenArgument) : List (String × Value) :=
  (arranged (fun e => e.1.2) (List.range names.length) (placed names args)).map fun e =>
    ((e.1.2.bind (names[·]?)).getD (Argument.label { name := e.1.1.name } e.2), e.1.1.value)

/-- The fingerprinted form of an argument. -/
def canonicalArgument (e : String × Value) : Json := .array [.text e.1, e.2.canonical]

namespace WrittenStep

/-- The keyword under which a step is a sentence. -/
def keyword? : WrittenStep → Option String
  | .plain key _ => (some key).filter sentenceKeywords.contains
  | .call _ keyword _ => keyword.filter sentenceKeywords.contains

/-- The keyword that a call shows after steps of which the last had the effective keyword `last`. -/
def shownKeyword (keyword last : Option String) : Option String :=
  Call.shownKeyword {
    keyword, effective := (keyword.filter sentenceKeywords.contains).map (effectiveKeyword · last) }

/-- What a step says after steps of which the last had the effective keyword `last`. -/
def canonical (names : String → List String) (last : Option String) : WrittenStep → Json
  | .plain key value => .object [("step", .text key), ("value", value.canonical)]
  | .call word keyword args => .object [
      ("call", .text word),
      ("annotation", .ofText? (shownKeyword keyword last)),
      ("arguments", .array ((shownArguments (names word) args).map canonicalArgument))]

end WrittenStep

/-- What steps say after steps with the keywords `done`. -/
def canonicalFrom (names : String → List String) : List (Option String) → List WrittenStep → List Json
  | _, [] => []
  | done, s :: l => s.canonical names (trail done) :: canonicalFrom names (done ++ [s.keyword?]) l

/-- What a body says. -/
def canonicalBody (names : String → List String) (steps : List WrittenStep) : Json :=
  .array (canonicalFrom names [] steps)

/-- Only the names of the parameters of the words that are called matter. -/
theorem canonicalFrom_congr {names names' : String → List String} {done : List (Option String)}
    {steps : List WrittenStep}
    (h : ∀ word keyword args, .call word keyword args ∈ steps → names word = names' word) :
    canonicalFrom names done steps = canonicalFrom names' done steps := by
  induction steps generalizing done with
  | nil => rfl
  | cons s l ih =>
    have hs : s.canonical names (trail done) = s.canonical names' (trail done) := by
      cases s with
      | plain key value => rfl
      | call word keyword args =>
        rw [WrittenStep.canonical, WrittenStep.canonical, h word keyword args List.mem_cons_self]
    rw [canonicalFrom, canonicalFrom, hs, ih fun word keyword args hm =>
      h word keyword args (List.mem_cons_of_mem _ hm)]

@[simp] theorem StepState.keyword?_saying (σ : StepState) : σ.saying.keyword? = σ.keyword? := by
  cases σ <;> rfl

/-! ## Calls -/

namespace CallState

/-- A call of a word with the parameters `formals`: the arguments that were written come first, each
bound by its name or position, and all are in the order of the parameters. -/
structure Laid (formals : List (Handle × Parameter)) (x : CallState) : Prop where
  layers : ∃ written filled, x.arguments = written ++ filled ∧
    (∀ e ∈ written, e.2.synthesized = false) ∧ (∀ e ∈ filled, e.2.synthesized = true) ∧
    written.map (·.2.parameter) =
      (slots (formals.map (·.2.name)) 0 [] (written.map (·.2.name))).map fun s =>
        s.bind fun i => formals[i]?.map (·.1)
  bound : ∀ e ∈ x.arguments, ∀ p, e.2.parameter = some p → p ∈ formals.map (·.1)
  ordered : x.call.ordered = (aligned (formals.map (·.1)) x.arguments).map (·.1)

end CallState

theorem lookup_of_nodup {κ β : Type} [BEq κ] [LawfulBEq κ] {l : List (κ × β)} {k : κ} {b : β}
    (hn : (l.map (·.1)).Nodup) (hm : (k, b) ∈ l) : l.lookup k = some b := by
  obtain ⟨before, after, rfl⟩ := List.append_of_mem hm
  rw [List.map_append, List.map_cons, List.nodup_append] at hn
  refine List.lookup_eq_some_iff.2 ⟨before, after, rfl, fun p hp => ?_⟩
  have hne := hn.2.2 p.1 (List.mem_map_of_mem hp) k List.mem_cons_self
  simpa using Ne.symm hne

theorem mem_of_lookup {κ β : Type} [BEq κ] [LawfulBEq κ] {l : List (κ × β)} {k : κ} {b : β}
    (h : l.lookup k = some b) : (k, b) ∈ l := by
  obtain ⟨before, after, rfl, -⟩ := List.lookup_eq_some_iff.1 h
  exact List.mem_append_right _ List.mem_cons_self

theorem filterMap_unless {α β : Type} (p : α → Bool) (f : α → β) (l : List α) :
    l.filterMap (fun a => if p a then none else some (f a)) = (l.filter (!p ·)).map f := by
  induction l with
  | nil => rfl
  | cons a l ih => cases h : p a <;> simp [h, ih]

theorem eq_of_mem_zip {α β γ : Type} {f : α → γ} {f' : β → γ} {l : List α} {l' : List β} {e : α × β}
    (h : l.map f = l'.map f') (he : e ∈ l.zip l') : f e.1 = f' e.2 := by
  induction l generalizing l' with
  | nil => cases he
  | cons a l ih =>
    cases l' with
    | nil => cases he
    | cons b l' =>
      simp only [List.map_cons, List.cons.injEq] at h
      rcases List.mem_cons.1 he with rfl | he
      · exact h.1
      · exact ih h.2 he

namespace Graph

variable {g : Graph} {h : Handle} {x : CallState} {formals : List (Handle × Parameter)}

/-- The name under which an argument at a position is fingerprinted. -/
def keyOf (g : Graph) (e : (Handle × Argument) × Nat) : String :=
  ((e.1.2.parameter.bind g.parameter?).map (·.name)).getD (e.1.2.label e.2)

theorem argumentKey_ok {e : (Handle × Argument) × Nat}
    (he : ∀ p, e.1.2.parameter = some p → (g.parameter? p).isSome) :
    g.argumentKey e.1.2 e.2 = .ok (g.keyOf e) := by
  unfold argumentKey keyOf
  cases hp : e.1.2.parameter with
  | none => rfl
  | some p =>
    obtain ⟨q, hq⟩ := Option.isSome_iff_exists.1 (he p hp)
    simp only [parameter_ok hq, bind, Except.bind, Option.bind_some, hq]
    rfl

/-- The names under which the arguments of a call are fingerprinted. -/
def keysOf (g : Graph) (x : CallState) : List (Handle × String) :=
  x.arguments.zipIdx.map fun e => (e.1.1, g.keyOf e)

theorem argumentKeys_ok (hs : g.Sound) (hx : g.state? h = some x)
    (hp : ∀ e ∈ x.arguments, ∀ p, e.2.parameter = some p → (g.parameter? p).isSome) :
    g.argumentKeys x.call = .ok (g.keysOf x) := by
  simp only [argumentKeys, argumentsOf_of_state? hx (hs.map_fst_of_state? hx), bind, Except.bind]
  refine mapM_ok fun e he => ?_
  show (g.argumentKey e.1.2 e.2).bind _ = _
  rw [argumentKey_ok (hp e.1 (List.fst_mem_of_mem_zipIdx he))]
  rfl

theorem lookup_keysOf (hs : g.Sound) (hx : g.state? h = some x) {e : (Handle × Argument) × Nat}
    (he : e ∈ x.arguments.zipIdx) : (g.keysOf x).reverse.lookup e.1.1 = some (g.keyOf e) := by
  refine lookup_of_nodup ?_ (List.mem_reverse.2
    (List.mem_map_of_mem (f := fun e => (e.1.1, g.keyOf e)) he))
  have hfst : (g.keysOf x).map (·.1) = x.arguments.map (·.1) := by
    conv => rhs; rw [← List.zipIdx_map_fst 0 x.arguments, List.map_map]
    rw [keysOf, List.map_map]
    rfl
  rw [List.map_reverse, List.nodup_reverse, hfst]
  exact hs.nodup_of_state? hx

/-- The arguments that are fingerprinted are all, in the order of the parameters. -/
theorem shown_arranged (hs : g.Sound) (hx : g.state? h = some x) {order : List Handle}
    (horder : x.call.ordered = (aligned order x.arguments).map (·.1))
    (hin : ∀ e ∈ x.arguments, ∀ p, e.2.parameter = some p → p ∈ order) :
    (if x.call.ordered.isEmpty then x.call.arguments else x.call.ordered) =
      (arranged (fun e => e.1.2.parameter) order x.arguments.zipIdx).map fun e => e.1.1 := by
  have hord : x.call.ordered =
      (arranged (fun e => e.1.2.parameter) order x.arguments.zipIdx).map fun e => e.1.1 := by
    rw [horder, aligned_eq_arranged]
    conv => lhs; rw [← List.zipIdx_map_fst 0 x.arguments]
    rw [arranged_map, List.map_map]
    rfl
  split
  · rename_i hempty
    -- the order is empty only if there are no arguments at all
    have hnil : aligned order x.arguments = [] := by
      rw [horder] at hempty
      simpa using hempty
    have hargs := eq_nil_of_arranged hin hnil
    rw [← hord, horder, hnil, ← hs.map_fst_of_state? hx, hargs]
  · exact hord

/-- The arguments that were written, in the order of the parameters. -/
theorem canonicalArguments_arranged (hs : g.Sound) (hx : g.state? h = some x)
    (hp : ∀ e ∈ x.arguments, ∀ p, e.2.parameter = some p → (g.parameter? p).isSome)
    {order : List Handle} (horder : x.call.ordered = (aligned order x.arguments).map (·.1))
    (hin : ∀ e ∈ x.arguments, ∀ p, e.2.parameter = some p → p ∈ order) :
    g.canonicalArguments x.call = .ok (((arranged (fun e => e.1.2.parameter) order
      x.arguments.zipIdx).filter (!·.1.2.synthesized)).map fun e =>
        canonicalArgument (g.keyOf e, e.1.2.value)) := by
  unfold canonicalArguments
  simp only [argumentKeys_ok hs hx hp, shown_arranged hs hx horder hin, bind, Except.bind]
  rw [List.mapM_map, mapM_ok (g := fun e => if e.1.2.synthesized then none else
    some (canonicalArgument (g.keyOf e, e.1.2.value))) fun e he => ?_]
  · show Except.ok _ = _
    rw [List.filterMap_map]
    exact congrArg Except.ok (filterMap_unless _ _ _)
  · have hm := mem_of_mem_arranged he
    have harg := argument_ok (argument?_of_state? hx (List.fst_mem_of_mem_zipIdx hm))
    simp only [Function.comp_apply, harg, lookup_keysOf hs hx hm]
    split <;> rfl

end Graph

/-! ## Arguments with the places of their parameters -/

section
variable {formals : List (Handle × Parameter)} {written : List (Handle × Argument)}

/-- The handle of the parameter at a place. -/
def handleAt (formals : List (Handle × Parameter)) (i : Nat) : Handle :=
  (formals[i]?.map (·.1)).getD 0

theorem handleAt_eq {i : Nat} (hi : i < formals.length) : handleAt formals i = formals[i].1 := by
  simp [handleAt, hi]

theorem map_handleAt_range (formals : List (Handle × Parameter)) :
    (List.range formals.length).map (handleAt formals) = formals.map (·.1) := by
  refine List.ext_getElem (by simp) fun i hi _ => ?_
  rw [List.length_map, List.length_range] at hi
  simp [handleAt_eq hi]

theorem handleAt_inj (hn : (formals.map (·.1)).Nodup) {i j : Nat} (hi : i < formals.length)
    (hj : j < formals.length) (h : handleAt formals i = handleAt formals j) : i = j := by
  rw [handleAt_eq hi, handleAt_eq hj] at h
  refine (List.getElem?_inj (by simpa using hi) hn).1 ?_
  simp [hi, hj, h]

/-- Arguments with the places of the parameters that they take by their names, and their own. -/
def withPlaces (names : List String) (args : List (Handle × Argument)) :
    List (((Handle × Argument) × Option Nat) × Nat) :=
  (args.zip (slots names 0 [] (args.map (·.2.name)))).zipIdx

theorem zipIdx_eq_withPlaces (names : List String) (args : List (Handle × Argument)) :
    args.zipIdx = (withPlaces names args).map fun e => (e.1.1, e.2) := by
  have hlen : args.length ≤ (slots names 0 [] (args.map (·.2.name))).length := by
    simp [length_slots]
  conv => lhs; rw [← List.map_fst_zip hlen]
  rw [List.zipIdx_map]
  rfl

theorem placed_eq_withPlaces (names : List String) (args : List (Handle × Argument)) :
    placed names (args.map StepState.writtenArgument) =
      (withPlaces names args).map fun e => ((StepState.writtenArgument e.1.1, e.1.2), e.2) := by
  have hnames : WrittenArgument.name ∘ StepState.writtenArgument = fun e => e.2.name := rfl
  rw [placed, List.map_map, hnames, List.zip_map_left, List.zipIdx_map]
  rfl

theorem lt_of_mem_withPlaces {names : List String} {e : ((Handle × Argument) × Option Nat) × Nat}
    {i : Nat} (he : e ∈ withPlaces names written) (hi : e.1.2 = some i) : i < names.length :=
  slots_lt (hi ▸ (List.of_mem_zip (List.fst_mem_of_mem_zipIdx he)).2)

/-- Being in the order of the parameters is being in the order of their places. -/
theorem arranged_withPlaces (hn : (formals.map (·.1)).Nodup)
    (hkey : ∀ e ∈ withPlaces (formals.map (·.2.name)) written,
      e.1.1.2.parameter = e.1.2.map (handleAt formals)) :
    arranged (fun e => e.1.2.parameter) (formals.map (·.1)) written.zipIdx =
      (arranged (fun e => e.1.2) (List.range formals.length)
        (withPlaces (formals.map (·.2.name)) written)).map fun e => (e.1.1, e.2) := by
  rw [zipIdx_eq_withPlaces (formals.map (·.2.name)), arranged_map, ← map_handleAt_range,
    arranged_rename _ hkey fun e he i hi j hj h => ?_]
  have hlt := lt_of_mem_withPlaces he hi
  rw [List.length_map] at hlt
  exact handleAt_inj hn hlt (List.mem_range.1 hj) h

/-- Arguments that stand for defaults leave no trace. -/
theorem filter_arranged_synthesized {order : List Handle} {args filled : List (Handle × Argument)}
    (hargs : args = written ++ filled) (hwritten : ∀ e ∈ written, e.2.synthesized = false)
    (hfilled : ∀ e ∈ filled, e.2.synthesized = true) :
    (arranged (fun e => e.1.2.parameter) order args.zipIdx).filter (!·.1.2.synthesized) =
      arranged (fun e => e.1.2.parameter) order written.zipIdx := by
  rw [hargs, List.zipIdx_append, Nat.zero_add]
  refine filter_arranged_append (fun e he => ?_) fun e he => ?_
  · simp [hwritten e.1 (List.fst_mem_of_mem_zipIdx he)]
  · simp [hfilled e.1 (List.fst_mem_of_mem_zipIdx he)]

theorem filter_written {args filled : List (Handle × Argument)}
    (hargs : args = written ++ filled) (hwritten : ∀ e ∈ written, e.2.synthesized = false)
    (hfilled : ∀ e ∈ filled, e.2.synthesized = true) :
    args.filter (!·.2.synthesized) = written := by
  rw [hargs, List.filter_append, List.filter_eq_self.2 fun e he => by simp [hwritten e he],
    List.filter_eq_nil_iff.2 fun e he => by simp [hfilled e he], List.append_nil]

end

namespace Graph

variable {g : Graph} {h : Handle} {x : CallState} {formals : List (Handle × Parameter)}

/-- The arguments that were written show under the names of the parameters at their places. -/
theorem arranged_shown (hl : x.Laid formals) (hn : (formals.map (·.1)).Nodup)
    (hp : ∀ q ∈ formals, g.parameter? q.1 = some q.2) :
    ((arranged (fun e => e.1.2.parameter) (formals.map (·.1)) x.arguments.zipIdx).filter
      (!·.1.2.synthesized)).map (fun e => canonicalArgument (g.keyOf e, e.1.2.value)) =
    (shownArguments (formals.map (·.2.name)) ((x.arguments.filter (!·.2.synthesized)).map
      StepState.writtenArgument)).map canonicalArgument := by
  obtain ⟨written, filled, hargs, hwritten, hfilled, hslots⟩ := hl.layers
  have hat : ∀ e ∈ withPlaces (formals.map (·.2.name)) written,
      e.1.1.2.parameter = e.1.2.bind fun i => formals[i]?.map (·.1) := fun e he =>
    eq_of_mem_zip hslots (List.fst_mem_of_mem_zipIdx he)
  have hlt : ∀ e ∈ withPlaces (formals.map (·.2.name)) written, ∀ i, e.1.2 = some i →
      i < formals.length := fun e he i hi => by
    have := lt_of_mem_withPlaces he hi
    rwa [List.length_map] at this
  have hkey : ∀ e ∈ withPlaces (formals.map (·.2.name)) written,
      e.1.1.2.parameter = e.1.2.map (handleAt formals) := by
    intro e he
    rw [hat e he]
    cases hi : e.1.2 with
    | none => rfl
    | some i => simp [handleAt, hlt e he i hi]
  -- both sides go through the arguments with the places of their parameters
  rw [filter_arranged_synthesized hargs hwritten hfilled, filter_written hargs hwritten hfilled,
    arranged_withPlaces hn hkey, shownArguments, placed_eq_withPlaces, arranged_map,
    List.length_map]
  simp only [List.map_map]
  refine List.map_congr_left fun e he => congrArg canonicalArgument (Prod.ext ?_ rfl)
  have he := mem_of_mem_arranged he
  show g.keyOf (e.1.1, e.2) = (e.1.2.bind ((formals.map (·.2.name))[·]?)).getD _
  unfold keyOf
  rw [hat e he]
  cases hi : e.1.2 with
  | none => rfl
  | some i =>
    have hget := List.getElem?_eq_getElem (hlt e he i hi)
    simp [hget, hp _ (List.getElem_mem (hlt e he i hi))]

/-! ## Bodies -/

/-- Every call is laid out, and has the effective keyword that its place in its body gives it. -/
structure Told (g : Graph) : Prop where
  laid : ∀ h x, g.state? h = some x → x.Laid (g.formalsOf x.call.actionWord)
  effective : ∀ k d done h rest x, g.definition? k = some d → d.steps = done ++ h :: rest →
    g.state? h = some x →
      x.call.effective = (StepState.call x).effective (trail (done.map g.keyword?))

theorem canonicalArguments_ok (hs : g.Sound) (ht : g.Told) (hx : g.state? h = some x) :
    g.canonicalArguments x.call = .ok ((shownArguments (g.formalNames x.call.actionWord)
      ((x.arguments.filter (!·.2.synthesized)).map StepState.writtenArgument)).map
        canonicalArgument) := by
  have hl := ht.laid h x hx
  have hn := hs.nodup_formalsOf x.call.actionWord
  have hp : ∀ q ∈ g.formalsOf x.call.actionWord, g.parameter? q.1 = some q.2 :=
    fun q hq => parameter?_of_formalsOf hq
  rw [canonicalArguments_arranged hs hx ?_ hl.ordered hl.bound, arranged_shown hl hn hp]
  · rfl
  · intro e he p hep
    obtain ⟨q, hq, rfl⟩ := List.mem_map.1 (hl.bound e he p hep)
    exact Option.isSome_of_eq_some (hp q hq)

theorem canonicalStep_ok (hs : g.Sound) (ht : g.Told) {k : Handle} {d : Definition}
    {done rest : List Handle} {σ : StepState} (hd : g.definition? k = some d)
    (hsplit : d.steps = done ++ h :: rest) (hσ : g.step? h = some σ) :
    g.canonicalStep h = .ok (σ.saying.canonical g.formalNames (trail (done.map g.keyword?))) := by
  cases σ with
  | plain s =>
    have hc := plain?_eq_some.1 (plain?_of_step? hσ)
    simp only [canonicalStep, node_ok hc, bind, Except.bind]
    rfl
  | call x =>
    have hx := state?_of_step? hσ
    have hc := (state?_eq_some.1 hx).1
    have heff := ht.effective k d done h rest x hd hsplit hx
    have hshown : x.call.shownKeyword =
        WrittenStep.shownKeyword x.call.keyword (trail (done.map g.keyword?)) := by
      unfold WrittenStep.shownKeyword Call.shownKeyword
      rw [heff]
      rfl
    simp only [canonicalStep, node_ok hc, call_ok hc, canonicalArguments_ok hs ht hx, hshown, bind,
      Except.bind]
    rfl

/-- **What a finished graph says of a body** depends on what its steps were written as, and on the
names of the parameters of the words that they call. -/
theorem canonicalSteps_ok (hs : g.Sound) (ht : g.Told) {k : Handle} {d : Definition}
    {steps : List WrittenStep} (hd : g.definition? k = some d)
    (hsteps : d.steps.map g.saying = steps.map some) :
    g.canonicalSteps d.steps = .ok (canonicalBody g.formalNames steps) := by
  -- over the steps that are left, for the keywords of those before decide on the one to show
  have hmap : ∀ rest done steps, d.steps = done ++ rest → rest.map g.saying = steps.map some →
      rest.mapM g.canonicalStep = .ok (canonicalFrom g.formalNames (done.map g.keyword?) steps) := by
    intro rest
    induction rest with
    | nil =>
      intro done steps _ hsay
      cases steps with
      | nil => rfl
      | cons s l => cases hsay
    | cons h rest ih =>
      intro done steps hsplit hsay
      cases steps with
      | nil => cases hsay
      | cons s l =>
        simp only [List.map_cons, List.cons.injEq] at hsay
        obtain ⟨σ, hσ, hs'⟩ := Option.map_eq_some_iff.1 hsay.1
        have hkey : g.keyword? h = s.keyword? := by
          rw [keyword?, hσ, ← hs', StepState.keyword?_saying]
          rfl
        have hnext := ih (done ++ [h]) l (by simp [hsplit]) hsay.2
        rw [List.map_append, List.map_singleton, hkey] at hnext
        rw [List.mapM_cons, canonicalStep_ok hs ht hd hsplit hσ, hnext, hs']
        rfl
  simp only [canonicalSteps, hmap d.steps [] steps rfl hsteps, bind, Except.bind]
  rfl

end Graph

end Actionbook
