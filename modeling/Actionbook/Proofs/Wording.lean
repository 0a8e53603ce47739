import Actionbook.Proofs.Placing
import Actionbook.Proofs.Steps

/-!
# The sentence that a call says

`CallState.sentence` is the sentence of a call as it follows from the call, its arguments and the names
of the parameters that they are bound to. On a sound graph this is what is computed for it
(`Sound.sentenceOf_eq`). `Graph.Worded` says that a call has its sentence; that stays when other steps are
reworked.
-/

namespace Actionbook

/-- What stands before the sentence of a call: its effective keyword, if it has one, and a blank. -/
def Call.opening (c : Call) : String :=
  match c.effective with
  | none => ""
  | some keyword => if keyword.isEmpty then "" else Text.capitalized keyword ++ " "

namespace CallState

/-- The displayed arguments of a call, by the names of the parameters that they are bound to. -/
def displayed (parameter? : Handle → Option Parameter) (x : CallState) : List (String × String) :=
  x.arguments.filterMap fun e =>
    (e.2.parameter.bind parameter?).map fun p => (p.name, e.2.value.display)

/-- The sentence of a call without its keyword. -/
def plainSentence (parameter? : Handle → Option Parameter) (x : CallState) : String :=
  match x.call.target with
  | none => x.call.actionWord
  | some _ =>
    Sentence.filled (fun name => (x.displayed parameter?).reverse.lookup name) x.call.actionWord

/-- The sentence of a call. -/
def sentence (parameter? : Handle → Option Parameter) (x : CallState) : String :=
  x.call.opening ++ x.plainSentence parameter?

end CallState

namespace Graph

variable {g g' : Graph} {h k : Handle} {x : CallState}

/-- The parameters that the arguments of a call with a target are bound to are there. -/
theorem Sound.isSome_bound {t : Handle} (hs : g.Sound) (hx : g.state? h = some x)
    (ht : x.call.target = some t) {e : Handle × Argument} (he : e ∈ x.arguments) {p : Handle}
    (hp : e.2.parameter = some p) : (g.parameter? p).isSome := by
  obtain ⟨hc, ha⟩ := state?_eq_some.1 hx
  obtain ⟨hw, hb⟩ := hs.bound h x.call hc t ht
  obtain ⟨w, -, hd⟩ := exists_definition hw
  exact hs.isSome_parameter hd p ((hb _ hd).mem_of_parameter (ha ▸ he) hp)

theorem Sound.displayedArguments_eq {t : Handle} (hs : g.Sound) (hx : g.state? h = some x)
    (ht : x.call.target = some t) :
    g.displayedArguments x.call = .ok (x.displayed g.parameter?) := by
  simp only [displayedArguments, argumentsOf_of_state? hx (hs.map_fst_of_state? hx), bind, Except.bind,
    CallState.displayed]
  have hbound : ∀ e ∈ x.arguments, ∀ p, e.2.parameter = some p → ∃ q, g.parameter? p = some q :=
    fun e he p hp => Option.isSome_iff_exists.1 (hs.isSome_bound hx ht he hp)
  generalize x.arguments = args at hbound
  induction args with
  | nil => rfl
  | cons e args ih =>
    have hrest := ih fun e' he' => hbound e' (List.mem_cons_of_mem _ he')
    cases hp : e.2.parameter with
    | none =>
      rw [List.filter_cons_of_neg (by simp [hp]), List.filterMap_cons_none (by simp [hp]), hrest]
    | some p =>
      obtain ⟨q, hq⟩ := hbound e List.mem_cons_self p hp
      rw [List.filter_cons_of_pos (by simp [hp]), List.mapM_cons, hrest,
        List.filterMap_cons_some (b := (q.name, e.2.value.display)) (by simp [hp, hq])]
      simp only [hp, Option.getD_some, parameter_ok hq, bind, Except.bind, pure, Except.pure]

/-- **The sentence that is computed for a call** follows from the call and its arguments. -/
theorem Sound.sentenceOf_eq (hs : g.Sound) (hx : g.state? h = some x) :
    g.sentenceOf x.call = .ok (x.sentence g.parameter?) := by
  have hplain : g.plainSentence x.call = .ok (x.plainSentence g.parameter?) := by
    unfold plainSentence CallState.plainSentence
    cases ht : x.call.target with
    | none => rfl
    | some t =>
      simp only [hs.displayedArguments_eq hx ht, bind, Except.bind]
      rfl
  simp only [sentenceOf, hplain, bind, Except.bind, CallState.sentence, Call.opening]
  cases x.call.effective with
  | none => simp [pure, Except.pure]
  | some keyword =>
    dsimp only
    split
    · simp [pure, Except.pure]
    · rfl

/-- A node that is a call has its sentence. -/
def Worded (g : Graph) (h : Handle) : Prop :=
  ∀ x, g.state? h = some x → x.call.sentence = some (x.sentence g.parameter?)

theorem worded_of_plain? {s : Step} (hp : g.plain? h = some s) : g.Worded h := fun x hx => by
  rw [plain?_of_state? hx] at hp
  cases hp

theorem Worded.congr (hstate : g'.state? h = g.state? h) (hp : g'.parameter? = g.parameter?)
    (hw : g.Worded h) : g'.Worded h := fun x hx => by
  rw [hp]
  exact hw x (hstate ▸ hx)

/-- A call keeps its sentence when another step is reworked. -/
theorem Worded.of_reworked (hs : g.Sound) (hr : g.Reworked k g') (hne : h ≠ k) (hw : g.Worded h) :
    g'.Worded h :=
  hw.congr (hr.state?_of_ne hs hne) (funext (hr.parameter? hs))

end Graph

end Actionbook
