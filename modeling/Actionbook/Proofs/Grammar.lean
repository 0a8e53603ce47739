import Actionbook.Design.Layout

/-!
# The grammar of test designs

What a tree of elements must be like to describe a test design, said without the reader: `IsValue` for
values, `IsCall` and `IsAction` for steps, `IsDefinition` and `IsScenario` for bodies, `IsProject` for the
root. `Accepts reading P` says that a reading succeeds exactly if `P` holds and refuses the structure of
the document otherwise; it goes through sequences and lists (`Accepts.bind`, `accepts_mapM`), and there is
one lemma for each reader. `documents_are_read_by_the_grammar` puts them together.
-/

namespace Actionbook

open Xml (Element)

namespace Grammar

/-- A text with a character that is not blank. -/
def Nonblank (t : String) : Prop := ∃ c ∈ t.toList, Text.isBlank c = false

/-- The first child with a tag has a text that is not blank. -/
def Gives (e : Element) (tag : String) : Prop := ∃ c, e.child? tag = some c ∧ Nonblank c.text

/-! ## Values -/

/-- A reference to a parameter. -/
def IsVariable (e : Element) : Prop := e.tag = "variable" ∧ Gives e "name"

/-- A literal, a reference, or a template of texts and references. -/
inductive IsValue (e : Element) : Prop where
  | string (tag : e.tag = "stringliteral")
  | null (tag : e.tag = "nullliteral")
  | number (tag : e.tag = "numericliteral") (text : Nonblank e.text)
  | truth (tag : e.tag = "booleanliteral")
      (text : Text.lowercase (Text.trimmed e.text) = "true" ∨ Text.lowercase (Text.trimmed e.text) = "false")
  | variable (reference : IsVariable e)
  | template (tag : e.tag = "template")
      (parts : ∀ c ∈ e.children, c.tag = "stringliteral" ∨ IsVariable c)

/-- The only child is a value. -/
def HoldsValue (e : Element) : Prop := ∃ v, e.children = [v] ∧ IsValue v

/-- The first child `value` holds a value. -/
def HasValue (e : Element) : Prop := ∃ v, e.child? "value" = some v ∧ HoldsValue v

/-! ## Steps -/

/-- A call names an action word, and its arguments have values. -/
structure IsCall (e : Element) : Prop where
  tag : e.tag = "call"
  callee : Gives e "actionword"
  arguments : ∀ a ∈ e.grandchildren "arguments" "argument", HasValue a

/-- A plain step has a value or none. -/
structure IsAction (e : Element) : Prop where
  tag : e.tag = "action"
  value : ∀ v, e.child? "value" = some v → HoldsValue v

/-! ## Bodies -/

structure IsParameter (e : Element) : Prop where
  name : Gives e "name"
  default : ∀ d, e.child? "default" = some d → HoldsValue d

/-- A scenario or an action word, apart from the data table. -/
structure IsDefinition (e : Element) : Prop where
  name : Gives e "name"
  tags : ∀ t ∈ e.grandchildren "tags" "tag", Gives t "key"
  parameters : ∀ p ∈ e.grandchildren "parameters" "parameter", IsParameter p
  steps : ∀ s, e.child? "steps" = some s → ∀ c ∈ s.children, IsCall c ∨ IsAction c

structure IsScenario (e : Element) : Prop where
  definition : IsDefinition e
  rows : ∀ r ∈ e.grandchildren "datatable" "dataset",
    ∀ a ∈ r.grandchildren "arguments" "argument", HasValue a ∧ Gives a "name"

/-- The root of a test design. -/
structure IsProject (e : Element) : Prop where
  tag : e.tag = "project"
  name : Gives e "name"
  scenarios : ∀ s ∈ e.grandchildren "scenarios" "scenario", IsScenario s
  actionWords : ∀ w ∈ e.grandchildren "actionwords" "actionword", IsDefinition w

/-! ## Accepting -/

/-- A reading succeeds exactly if `P` holds, and refuses the structure of the document otherwise. -/
structure Accepts {α : Type} (reading : Except DesignError α) (P : Prop) : Prop where
  iff : (∃ a, reading = .ok a) ↔ P
  refused : ∀ e, reading = .error e → e.diagnostic.code = "PARSE_ERROR_STRUCTURE"

section
variable {α β : Type} {reading : Except DesignError α} {P Q : Prop}

theorem accepts_ok {a : α} (hP : P) : Accepts (.ok a : Except DesignError α) P :=
  ⟨iff_of_true ⟨a, rfl⟩ hP, fun _ h => by cases h⟩

theorem accepts_error {e : DesignError} (he : e.diagnostic.code = "PARSE_ERROR_STRUCTURE") (hP : ¬ P) :
    Accepts (.error e : Except DesignError α) P := by
  refine ⟨iff_of_false ?_ hP, fun _ h => ?_⟩
  · rintro ⟨a, h⟩
    cases h
  · cases h
    exact he

theorem Accepts.congr (h : Accepts reading P) (hPQ : P ↔ Q) : Accepts reading Q :=
  ⟨h.iff.trans hPQ, h.refused⟩

/-- One reading after another. -/
theorem Accepts.bind {next : α → Except DesignError β} (h : Accepts reading P)
    (hnext : ∀ a, reading = .ok a → Accepts (next a) Q) : Accepts (reading >>= next) (P ∧ Q) := by
  cases hr : reading with
  | ok a =>
    have hP : P := h.iff.1 ⟨a, hr⟩
    exact (hnext a hr).congr (and_iff_right hP).symm
  | error e =>
    have hP : ¬ P := fun hP => by
      obtain ⟨a, ha⟩ := h.iff.2 hP
      cases hr.symm.trans ha
    exact accepts_error (h.refused e hr) fun hPQ => hP hPQ.1

/-- What is made of a reading makes no difference. -/
theorem Accepts.map {f : α → β} (h : Accepts reading P) : Accepts (f <$> reading) P := by
  cases hr : reading with
  | ok a => exact accepts_ok (h.iff.1 ⟨a, hr⟩)
  | error e =>
    refine accepts_error (h.refused e hr) fun hP => ?_
    obtain ⟨a, ha⟩ := h.iff.2 hP
    cases hr.symm.trans ha

theorem Accepts.bind_pure {f : α → β} (h : Accepts reading P) :
    Accepts (reading >>= fun a => pure (f a)) P :=
  (h.bind fun _ _ => accepts_ok trivial).congr (and_iff_left trivial)

/-- A list is read if each of its elements is. -/
theorem accepts_mapM {f : β → Except DesignError α} {R : β → Prop} {l : List β}
    (h : ∀ b ∈ l, Accepts (f b) (R b)) : Accepts (l.mapM f) (∀ b ∈ l, R b) := by
  induction l with
  | nil => exact accepts_ok (List.forall_mem_nil _)
  | cons b l ih =>
    rw [List.mapM_cons]
    have hrest := ih fun c hc => h c (List.mem_cons_of_mem _ hc)
    exact ((h b List.mem_cons_self).bind fun _ _ => hrest.map).congr List.forall_mem_cons.symm

end

/-! ## Texts -/

theorem trimRight_eq_nil {s : List Char} :
    Text.trimRight s = [] ↔ ∀ c ∈ s, Text.isBlank c = true := by
  induction s with
  | nil => simp [Text.trimRight]
  | cons c s ih =>
    have hcons : Text.trimRight (c :: s) =
        if (Text.trimRight s).isEmpty && Text.isBlank c then [] else c :: Text.trimRight s := rfl
    rw [hcons, List.forall_mem_cons, ← ih]
    by_cases hs : Text.trimRight s = [] <;> by_cases hc : Text.isBlank c <;> simp [hs, hc]

theorem forall_mem_dropWhile {p : Char → Bool} {s : List Char} :
    (∀ c ∈ s.dropWhile p, p c = true) ↔ ∀ c ∈ s, p c = true := by
  induction s with
  | nil => simp
  | cons c s ih => by_cases hc : p c <;> simp [hc, ih]

/-- Something is left of a text if not all of it is blank. -/
theorem nonblank_iff {t : String} : Nonblank t ↔ (Text.trimmed t).isEmpty = false := by
  have hblank : Text.trim t.toList = [] ↔ ∀ c ∈ t.toList, Text.isBlank c = true :=
    trimRight_eq_nil.trans forall_mem_dropWhile
  have hempty : (Text.trimmed t).isEmpty = true ↔ Text.trim t.toList = [] := by simp [Text.trimmed]
  rw [← Bool.not_eq_true, hempty, hblank]
  simp [Nonblank]

theorem gives_iff {e : Element} {tag : String} :
    Gives e tag ↔ (childText e tag).isEmpty = false := by
  unfold Gives childText
  cases e.child? tag with
  | none => simp
  | some c => simp [nonblank_iff]

theorem accepts_requiredChild (e : Element) (tag owner : String) :
    Accepts (requiredChild e tag owner) (Gives e tag) := by
  unfold requiredChild childText?
  dsimp only
  cases ht : (childText e tag).isEmpty with
  | true => exact accepts_error rfl (by simp [gives_iff, ht])
  | false => exact accepts_ok (gives_iff.2 ht)

/-! ## Reading values -/

theorem accepts_readVariable {e : Element} (tag : e.tag = "variable") :
    Accepts (readVariable e) (IsVariable e) :=
  (accepts_requiredChild e "name" "variable").map.congr (and_iff_right tag).symm

theorem accepts_readPart (e : Element) :
    Accepts (readPart e) (e.tag = "stringliteral" ∨ IsVariable e) := by
  unfold readPart
  split
  next tag => exact accepts_ok (.inl tag)
  next notText =>
    split
    next tag => exact (accepts_readVariable tag).congr (or_iff_right notText).symm
    next notVariable => exact accepts_error rfl fun h => h.elim notText fun h => notVariable h.1

theorem isValue_iff {e : Element} : IsValue e ↔ e.tag = "stringliteral" ∨ e.tag = "nullliteral" ∨
    (e.tag = "numericliteral" ∧ Nonblank e.text) ∨
    (e.tag = "booleanliteral" ∧ (Text.lowercase (Text.trimmed e.text) = "true" ∨
      Text.lowercase (Text.trimmed e.text) = "false")) ∨
    IsVariable e ∨
    (e.tag = "template" ∧ ∀ c ∈ e.children, c.tag = "stringliteral" ∨ IsVariable c) := by
  constructor
  · rintro (tag | tag | ⟨tag, text⟩ | ⟨tag, text⟩ | reference | ⟨tag, parts⟩)
    · exact .inl tag
    · exact .inr (.inl tag)
    · exact .inr (.inr (.inl ⟨tag, text⟩))
    · exact .inr (.inr (.inr (.inl ⟨tag, text⟩)))
    · exact .inr (.inr (.inr (.inr (.inl reference))))
    · exact .inr (.inr (.inr (.inr (.inr ⟨tag, parts⟩))))
  · rintro (tag | tag | ⟨tag, text⟩ | ⟨tag, text⟩ | reference | ⟨tag, parts⟩)
    · exact .string tag
    · exact .null tag
    · exact .number tag text
    · exact .truth tag text
    · exact .variable reference
    · exact .template tag parts

theorem accepts_readValue (e : Element) : Accepts (readValue e) (IsValue e) := by
  unfold readValue
  dsimp only
  split
  next tag => exact accepts_ok (.string tag)
  next tag =>
    split
    next hblank => exact accepts_error rfl (by simp [isValue_iff, IsVariable, tag, nonblank_iff, hblank])
    next hgiven => exact accepts_ok (.number tag (nonblank_iff.2 (by simpa using hgiven)))
  next tag =>
    split
    next htruth => exact accepts_ok (.truth tag (by simpa [Value.isTruthText] using htruth))
    next hother =>
      exact accepts_error rfl (by simpa [isValue_iff, IsVariable, tag, Value.isTruthText] using hother)
  next tag => exact accepts_ok (.null tag)
  next tag => exact (accepts_readVariable tag).congr (by simp [isValue_iff, tag])
  next tag =>
    refine (accepts_mapM fun c _ => accepts_readPart c).map.congr ?_
    simp [isValue_iff, IsVariable, tag]
  next => exact accepts_error rfl (by simp_all [isValue_iff, IsVariable])

theorem accepts_onlyValue (e : Element) (owner : String) :
    Accepts (onlyValue e owner) (HoldsValue e) := by
  unfold onlyValue HoldsValue
  split
  next v hv => exact (accepts_readValue v).congr (by simp [hv])
  next hcount =>
    refine accepts_error rfl ?_
    rintro ⟨v, hv, -⟩
    exact hcount v hv

/-! ## Reading steps -/

theorem accepts_readArgument (callee : String) (e : Element) :
    Accepts (readArgument callee e) (HasValue e) := by
  unfold readArgument HasValue
  cases hv : e.child? "value" with
  | none => exact accepts_error rfl (by simp)
  | some v => exact (accepts_onlyValue v "argument").map.congr (by simp)

theorem accepts_readStep (e : Element) : Accepts (readStep e) (IsCall e ∨ IsAction e) := by
  unfold readStep
  split
  next tag =>
    refine ((accepts_requiredChild e "actionword" "call").bind fun callee _ =>
      (accepts_mapM fun a _ => accepts_readArgument callee a).bind_pure).congr ?_
    constructor
    · exact fun h => .inl ⟨tag, h.1, h.2⟩
    · rintro (h | h)
      · exact ⟨h.callee, h.arguments⟩
      · exact absurd (tag.symm.trans h.tag) (by decide)
  next tag =>
    have hstep : IsCall e ∨ IsAction e ↔ ∀ v, e.child? "value" = some v → HoldsValue v := by
      constructor
      · rintro (h | h)
        · exact absurd (tag.symm.trans h.tag) (by decide)
        · exact h.value
      · exact fun h => .inr ⟨tag, h⟩
    dsimp only
    rw [hstep]
    cases hv : e.child? "value" with
    | none => exact accepts_ok fun _ hv => by cases hv
    | some v => exact (accepts_onlyValue v "action").bind_pure.congr (by simp)
  next hcall haction => exact accepts_error rfl fun h => h.elim (hcall ·.tag) (haction ·.tag)

/-! ## Reading bodies -/

theorem accepts_readTag (e : Element) : Accepts (readTag e) (Gives e "key") := by
  refine ((accepts_requiredChild e "key" "tag").bind fun key _ => ?_).congr (and_iff_left trivial)
  split
  · exact accepts_ok trivial
  · exact accepts_ok trivial

theorem accepts_readParameter (e : Element) : Accepts (readParameter e) (IsParameter e) := by
  refine ((accepts_requiredChild e "name" "parameter").bind
    (Q := ∀ d, e.child? "default" = some d → HoldsValue d) fun name _ => ?_).congr
    ⟨fun h => ⟨h.1, h.2⟩, fun h => ⟨h.name, h.default⟩⟩
  cases hd : e.child? "default" with
  | none => exact accepts_ok fun _ hv => by cases hv
  | some d => exact (accepts_onlyValue d "default").map.bind_pure.congr (by simp)

theorem accepts_readDefinition (owner : String) (e : Element) :
    Accepts (readDefinition owner e) (IsDefinition e) := by
  refine ((accepts_requiredChild e "name" owner).bind fun name _ =>
    (accepts_mapM fun t _ => accepts_readTag t).bind fun tags _ =>
      (accepts_mapM fun p _ => accepts_readParameter p).bind
        (Q := ∀ s, e.child? "steps" = some s → ∀ c ∈ s.children, IsCall c ∨ IsAction c)
        fun parameters _ => ?_).congr
    ⟨fun h => ⟨h.1, h.2.1, h.2.2.1, h.2.2.2⟩, fun h => ⟨h.name, h.tags, h.parameters, h.steps⟩⟩
  cases hs : e.child? "steps" with
  | none => exact accepts_ok fun _ hv => by cases hv
  | some s => exact (accepts_mapM fun c _ => accepts_readStep c).bind_pure.congr (by simp)

theorem accepts_readCell (e : Element) : Accepts (readCell e) (HasValue e ∧ Gives e "name") := by
  unfold readCell
  cases hv : e.child? "value" with
  | none => exact accepts_error rfl (by simp [HasValue, hv])
  | some v =>
    refine ((accepts_requiredChild e "name" "dataset argument").bind fun name _ =>
      (accepts_onlyValue v "dataset").bind_pure).congr ?_
    simp [HasValue, hv, and_comm]

theorem accepts_readRow (e : Element) : Accepts (readRow e)
    (∀ a ∈ e.grandchildren "arguments" "argument", HasValue a ∧ Gives a "name") :=
  (accepts_mapM fun a _ => accepts_readCell a).bind_pure

theorem accepts_readScenario (e : Element) : Accepts (readScenario e) (IsScenario e) :=
  ((accepts_readDefinition "scenario" e).bind fun _ _ =>
    (accepts_mapM fun r _ => accepts_readRow r).bind_pure).congr
    ⟨fun h => ⟨h.1, h.2⟩, fun h => ⟨h.definition, h.rows⟩⟩

/-! ## Reading documents -/

theorem accepts_ofElement (root : Element) : Accepts (Design.ofElement root) (IsProject root) := by
  unfold Design.ofElement
  split
  next tag => exact accepts_error rfl fun h => tag h.tag
  next tag =>
    refine ((accepts_requiredChild root "name" "project").bind fun _ _ =>
      (accepts_mapM fun s _ => accepts_readScenario s).bind fun _ _ =>
        (accepts_mapM fun w _ => accepts_readDefinition "actionword" w).bind_pure).congr ?_
    exact ⟨fun h => ⟨Decidable.not_not.1 tag, h.1, h.2.1, h.2.2⟩,
      fun h => ⟨h.name, h.scenarios, h.actionWords⟩⟩

/-- References are not looked at. -/
theorem accepts_readGraph {text : String} {root : Element} (hread : Xml.read? text = some root) :
    Accepts (Design.readGraph text false) (IsProject root) := by
  have hdesign : Accepts (Design.ofText text) (IsProject root) := by
    simp only [Design.ofText, hread, accepts_ofElement]
  exact hdesign.bind_pure

end Grammar

open Grammar in
/-- **Documents are read by the grammar, and by nothing else.** A tree of elements describes a design, and
a text with that tree is read, exactly if the tree is a project. Otherwise the error is one in the
structure; a text without a tree is refused as such. -/
theorem documents_are_read_by_the_grammar (root : Element) :
    Accepts (Design.ofElement root) (IsProject root) ∧
      (∀ text, Xml.read? text = some root → Accepts (Design.readGraph text false) (IsProject root)) ∧
      ∀ text strict, Xml.read? text = none → ∃ e, Design.readGraph text strict = .error e ∧
        e.diagnostic.code = "PARSE_ERROR_XML" := by
  refine ⟨accepts_ofElement root, fun text => accepts_readGraph, fun text strict hnone => ?_⟩
  have htext : Design.ofText text = .error .malformed := by simp only [Design.ofText, hnone]
  exact ⟨.malformed, by rw [Design.readGraph, htext]; rfl, rfl⟩

end Actionbook
