import Actionbook.Proofs.Codec

/-!
# Entries of snapshots

An entry of a snapshot may be data of any shape. It is a signature if its parts have the shapes in which they
are written (`Data.IsSignature`); which other values say that there are no parameters is left open there. The
reader takes everything that does not count as given for no parameters, and not only null.

The reader looks at one part after the other. For each of its steps there is one lemma that says what it takes
and what it complains of; `Signature.ofData_cases` puts them together.
-/

namespace Actionbook

/-! ## Shapes -/

namespace Data

/-- The text under a key, if there is one. -/
def text? (entries : List (Data × Data)) (field : String) : Option String :=
  match field? entries field with
  | some (.text s) => some s
  | _ => none

/-- There is a text under a key, and it is not empty. -/
def HasText (entries : List (Data × Data)) (field : String) : Prop :=
  ∃ s, s ≠ "" ∧ field? entries field = some (.text s)

/-- If there is anything under a key, it is null or a text. -/
def MayHaveText (entries : List (Data × Data)) (field : String) : Prop :=
  ∀ v, field? entries field = some v → v = .null ∨ ∃ s, v = .text s

/-- A mapping with the parts of a parameter. -/
structure IsParameter (v : Data) : Prop where
  mapping : v = .mapping v.entries
  name : HasText v.entries "name"
  default : MayHaveText v.entries "default"

/-- A mapping with the parts of a signature. A value that is `omitted` stands for no parameters. -/
structure IsSignature (omitted : Data → Prop) (v : Data) : Prop where
  mapping : v = .mapping v.entries
  name : HasText v.entries "name"
  parameters : ∀ p, field? v.entries "parameters" = some p →
    omitted p ∨ ∃ l, p = .list l ∧ ∀ item ∈ l, item.IsParameter
  uid : MayHaveText v.entries "uid"
  bodyHash : MayHaveText v.entries "body_hash"

/-- The items under a key; anything but a list has none. -/
def items (entries : List (Data × Data)) (field : String) : List Data :=
  match field? entries field with
  | some (.list l) => l
  | _ => []

end Data

/-- The parameter in a mapping, whatever else is in it. -/
def ParameterSignature.within (v : Data) : ParameterSignature where
  name := (Data.text? v.entries "name").getD ""
  default := Data.text? v.entries "default"

/-- The signature in a mapping, whatever else is in it. -/
def Signature.within (v : Data) : Signature where
  name := (Data.text? v.entries "name").getD ""
  parameters := (Data.items v.entries "parameters").map .within
  uid := Data.text? v.entries "uid"
  bodyHash := Data.text? v.entries "body_hash"

namespace SignatureError

/-- What an error says of data that is to be a parameter: this part of it is none. -/
inductive BlamesParameter (item : Data) : SignatureError → Prop
  | mapping (h : item ≠ .mapping item.entries) : BlamesParameter item (.parameter item)
  | name (h : ¬ Data.HasText item.entries "name") : BlamesParameter item (.required "name")
  | default (h : ¬ Data.MayHaveText item.entries "default") : BlamesParameter item (.optional "default")

/-- What an error says of data that is to be a signature: this part of it is none. -/
inductive Blames (v : Data) : SignatureError → Prop
  | mapping (h : v ≠ .mapping v.entries) : Blames v (.entry v)
  | name (h : ¬ Data.HasText v.entries "name") : Blames v (.required "name")
  | parameters {p : Data} (hp : Data.field? v.entries "parameters" = some p) (hgiven : p.isGiven = true)
      (hlist : ∀ l, p ≠ .list l) : Blames v .parameters
  | parameter {item : Data} {e : SignatureError} (hitem : item ∈ Data.items v.entries "parameters")
      (he : e.BlamesParameter item) : Blames v e
  | uid (h : ¬ Data.MayHaveText v.entries "uid") : Blames v (.optional "uid")
  | bodyHash (h : ¬ Data.MayHaveText v.entries "body_hash") : Blames v (.optional "body_hash")

end SignatureError

/-! ## Steps of the reader -/

variable {entries : List (Data × Data)} {field : String}

theorem requiredText_cases (entries : List (Data × Data)) (field : String) :
    (Data.HasText entries field ∧
        requiredText entries field = .ok ((Data.text? entries field).getD "")) ∨
      (¬ Data.HasText entries field ∧ requiredText entries field = .error (.required field)) := by
  unfold requiredText Data.HasText Data.text?
  split
  · rename_i s hs
    simp only [hs, Option.some.injEq, Data.text.injEq, Option.getD_some]
    by_cases hempty : s = ""
    · right
      simp [hempty]
    · left
      simp [hempty]
  · rename_i hother
    right
    refine ⟨?_, rfl⟩
    rintro ⟨s, -, hs⟩
    exact hother s hs

theorem optionalText_cases (entries : List (Data × Data)) (field : String) :
    (Data.MayHaveText entries field ∧ optionalText entries field = .ok (Data.text? entries field)) ∨
      (¬ Data.MayHaveText entries field ∧ optionalText entries field = .error (.optional field)) := by
  unfold optionalText Data.MayHaveText Data.text?
  split
  · rename_i hnone
    simp [hnone]
  · rename_i hnull
    simp [hnull]
  · rename_i s hs
    simp [hs]
  · rename_i v hnull htext hv
    right
    refine ⟨fun h => ?_, rfl⟩
    rcases h v hv with rfl | ⟨s, rfl⟩
    · exact hnull rfl
    · exact htext s rfl

/-- The parameters are taken if they are a list, or if they do not count as given. -/
theorem parameterData_cases (entries : List (Data × Data)) :
    ((∀ p, Data.field? entries "parameters" = some p → p.isGiven = false ∨ ∃ l, p = .list l) ∧
        Signature.parameterData entries = .ok (Data.items entries "parameters")) ∨
      ∃ p, Data.field? entries "parameters" = some p ∧ p.isGiven = true ∧ (∀ l, p ≠ .list l) ∧
        Signature.parameterData entries = .error .parameters := by
  unfold Signature.parameterData Data.items
  cases hp : Data.field? entries "parameters" with
  | none => simp
  | some p =>
    cases hgiven : p.isGiven with
    | false =>
      -- a list that does not count as given is empty
      cases p <;> simp_all [Data.isGiven]
    | true => cases p <;> simp_all [Data.isGiven]

theorem ParameterSignature.ofData_cases (item : Data) :
    (item.IsParameter ∧ ParameterSignature.ofData item = .ok (.within item)) ∨
      (¬ item.IsParameter ∧
        ∃ e, ParameterSignature.ofData item = .error e ∧ e.BlamesParameter item) := by
  by_cases hmapping : item = .mapping item.entries
  · have hread : ParameterSignature.ofData item = (do
        let name ← requiredText item.entries "name"
        return { name, default := ← optionalText item.entries "default" }) := by
      rw [hmapping]
      rfl
    rw [hread]
    rcases requiredText_cases item.entries "name" with ⟨hname, hn⟩ | ⟨hname, hn⟩
    · rcases optionalText_cases item.entries "default" with ⟨hdefault, hd⟩ | ⟨hdefault, hd⟩
      · rw [hn, hd]
        exact .inl ⟨⟨hmapping, hname, hdefault⟩, rfl⟩
      · rw [hn, hd]
        exact .inr ⟨fun h => hdefault h.default, _, rfl, .default hdefault⟩
    · rw [hn]
      exact .inr ⟨fun h => hname h.name, _, rfl, .name hname⟩
  · refine .inr ⟨fun h => hmapping h.mapping, .parameter item, ?_, .mapping hmapping⟩
    cases item with
    | mapping entries => exact absurd rfl hmapping
    | _ => rfl

/-- The parameters are read one by one, up to the first that is none. -/
theorem mapM_ofData_cases (l : List Data) :
    ((∀ item ∈ l, item.IsParameter) ∧
        l.mapM ParameterSignature.ofData = .ok (l.map .within)) ∨
      ∃ item ∈ l, ¬ item.IsParameter ∧
        ∃ e, l.mapM ParameterSignature.ofData = .error e ∧ e.BlamesParameter item := by
  induction l with
  | nil => exact .inl ⟨List.forall_mem_nil _, rfl⟩
  | cons item l ih =>
    rw [List.mapM_cons]
    rcases ParameterSignature.ofData_cases item with ⟨hitem, hread⟩ | ⟨hitem, e, hread, he⟩
    · rcases ih with ⟨hl, hrest⟩ | ⟨other, hother, hno, e, hrest, he⟩
      · rw [hread, hrest]
        exact .inl ⟨List.forall_mem_cons.2 ⟨hitem, hl⟩, rfl⟩
      · rw [hread, hrest]
        exact .inr ⟨other, List.mem_cons_of_mem _ hother, hno, e, rfl, he⟩
    · rw [hread]
      exact .inr ⟨item, List.mem_cons_self, hitem, e, rfl, he⟩

/-! ## Signatures -/

/-- The items under the key of the parameters are parameters: a list that does not count as given has none. -/
theorem Data.IsSignature.isParameter {v item : Data} (h : v.IsSignature (·.isGiven = false))
    (hitem : item ∈ Data.items v.entries "parameters") : item.IsParameter := by
  unfold Data.items at hitem
  split at hitem
  · rename_i l hl
    rcases h.parameters _ hl with hnot | ⟨_, ⟨⟩, hall⟩
    · have hempty : l = [] := by simpa [Data.isGiven] using hnot
      rw [hempty] at hitem
      cases hitem
    · exact hall item hitem
  · cases hitem

/-- Data is read as the signature that is in it, or complained of for a part that is none. -/
theorem Signature.ofData_cases (v : Data) :
    (v.IsSignature (·.isGiven = false) ∧ Signature.ofData v = .ok (.within v)) ∨
      (¬ v.IsSignature (·.isGiven = false) ∧ ∃ e, Signature.ofData v = .error e ∧ e.Blames v) := by
  by_cases hmapping : v = .mapping v.entries
  case neg =>
    refine .inr ⟨fun h => hmapping h.mapping, .entry v, ?_, .mapping hmapping⟩
    cases v with
    | mapping entries => exact absurd rfl hmapping
    | _ => rfl
  case pos =>
    have hread : Signature.ofData v = (do
        let parameters ← parameterData v.entries
        let name ← requiredText v.entries "name"
        let parameters ← parameters.mapM ParameterSignature.ofData
        let uid ← optionalText v.entries "uid"
        let bodyHash ← optionalText v.entries "body_hash"
        return { name, parameters, uid, bodyHash }) := by
      rw [hmapping]
      rfl
    rw [hread]
    rcases parameterData_cases v.entries with ⟨hgiven, hd⟩ | ⟨p, hp, hgiven, hlist, hd⟩ <;> rw [hd]
    case inr =>
      refine .inr ⟨fun h => ?_, _, rfl, .parameters hp hgiven hlist⟩
      rcases h.parameters p hp with hnot | ⟨l, hl, -⟩
      · rw [hgiven] at hnot
        cases hnot
      · exact hlist l hl
    rcases requiredText_cases v.entries "name" with ⟨hname, hn⟩ | ⟨hname, hn⟩ <;> rw [hn]
    case inr => exact .inr ⟨fun h => hname h.name, _, rfl, .name hname⟩
    rcases mapM_ofData_cases (Data.items v.entries "parameters") with
      ⟨hall, hm⟩ | ⟨item, hitem, hno, e, hm, he⟩
    case inr =>
      simp only [bind, Except.bind, hm]
      exact .inr ⟨fun h => hno (h.isParameter hitem), e, rfl, .parameter hitem he⟩
    rcases optionalText_cases v.entries "uid" with ⟨huid, hu⟩ | ⟨huid, hu⟩
    case inr =>
      simp only [bind, Except.bind, hm, hu]
      exact .inr ⟨fun h => huid h.uid, _, rfl, .uid huid⟩
    rcases optionalText_cases v.entries "body_hash" with ⟨hhash, hb⟩ | ⟨hhash, hb⟩
    case inr =>
      simp only [bind, Except.bind, hm, hu, hb]
      exact .inr ⟨fun h => hhash h.bodyHash, _, rfl, .bodyHash hhash⟩
    simp only [bind, Except.bind, hm, hu, hb]
    refine .inl ⟨⟨hmapping, hname, fun p hp => ?_, huid, hhash⟩, rfl⟩
    refine (hgiven p hp).imp_right ?_
    rintro ⟨l, rfl⟩
    exact ⟨l, rfl, by simpa only [Data.items, hp] using hall⟩

/-- **Which data is taken for a signature.** It is data with the parts of one, where everything that does not
count as given stands for no parameters; what is read is what these parts say. Any other data is refused, with
an error about a part that has not its shape. What has been read is written as data that is read as the same. -/
theorem signatures_are_accepted_by_shape (v : Data) :
    (∀ s, Signature.ofData v = .ok s ↔ v.IsSignature (·.isGiven = false) ∧ s = .within v) ∧
      ((∃ e, Signature.ofData v = .error e ∧ e.Blames v) ↔ ¬ v.IsSignature (·.isGiven = false)) ∧
      ∀ s, Signature.ofData v = .ok s → Signature.ofData s.outline.data = .ok s := by
  rcases Signature.ofData_cases v with ⟨hshape, hread⟩ | ⟨hshape, e, hread, he⟩
  · refine ⟨fun s => ?_, ?_, fun s hs => ?_⟩
    · rw [hread, Except.ok.injEq, and_iff_right hshape, eq_comm]
    · exact iff_of_false (by rw [hread]; rintro ⟨e, h, -⟩; cases h) (not_not_intro hshape)
    · have hbare : s.bare = s := by
        rw [hread] at hs
        cases hs
        rfl
      rw [Signature.ofData_outline (Signature.named_of_ofData hs), hbare]
  · refine ⟨fun s => ?_, iff_of_true ⟨e, hread, he⟩ hshape, fun s hs => ?_⟩
    · exact iff_of_false (by rw [hread]; exact nofun) fun h => hshape h.1
    · rw [hread] at hs
      cases hs

/-- An entry whose parameters are an empty text. -/
def entryWithoutParameters : Data := .mapping [(.text "name", .text "a"), (.text "parameters", .text "")]

/-- **An empty text is taken for no parameters**, although it is neither null nor a list. -/
theorem empty_text_is_taken_for_parameters :
    (∃ s, Signature.ofData entryWithoutParameters = .ok s ∧ s.parameters = []) ∧
      ¬ entryWithoutParameters.IsSignature (· = .null) := by
  refine ⟨⟨{ name := "a" }, rfl, rfl⟩, fun h => ?_⟩
  rcases h.parameters (.text "") rfl with hnull | ⟨l, hl, -⟩
  · cases hnull
  · cases hl

end Actionbook
