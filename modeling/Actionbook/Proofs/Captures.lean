import Actionbook.Proofs.CanonicalText
import Actionbook.Proofs.Sentences
import Actionbook.Proofs.Spelling

/-!
# What captured texts tell

A sentence that has become a call shows the texts at its placeholders as arguments, under the names of
parameters. Two such calls of one action word show different arguments if the texts at a placeholder that
names a parameter are told apart (`WrittenStep.arranged_spoken_ne`): arguments are shown in an order that
depends on names only, each of them is shown, and a literal tells the text that it was made of, but for
the letter case of a truth value (`Value.ofCaptured_ne`).

Texts at other placeholders are no arguments (`capturedArguments_eq`).
-/

namespace Actionbook

/-! ## Literals -/

theorem Json.arranged_textMember (name t : String) :
    (Json.object [(name, .text t)]).arranged = .object [(name, .text t)] := by
  rw [arranged_object]
  rfl

namespace Value

/-- Two texts that a parameter of a type tells apart: they differ, and not just in the letter case of a
truth value. -/
def ToldApart (type : Option String) (t t' : String) : Prop :=
  t ≠ t' ∧ ¬ (type = some LiteralType.bool.tag ∧ isTruthText t = true ∧
    Text.lowercase t = Text.lowercase t')

instance (type : Option String) (t t' : String) : Decidable (ToldApart type t t') :=
  inferInstanceAs (Decidable (_ ∧ ¬ _))

variable {type type' : Option String} {t t' : String}

theorem ToldApart.untyped (h : ToldApart type t t') : ToldApart none t t' := ⟨h.1, nofun⟩

/-- What a captured text becomes. -/
theorem ofCaptured_cases (t : String) (type : Option String) :
    ofCaptured t type = .numeric t ∨ ofCaptured t type = .string t ∨
      type = some LiteralType.bool.tag ∧ isTruthText t = true ∧
        ofCaptured t type = .boolean (Text.lowercase t) := by
  unfold ofCaptured
  split
  · exact .inl rfl
  · split
    · rename_i hbool
      simp only [Bool.and_eq_true, beq_iff_eq] at hbool
      exact .inr (.inr ⟨hbool.1, hbool.2, rfl⟩)
    · exact .inr (.inl rfl)

/-- Texts that are told apart are different literals, whatever the type of the other one. -/
theorem ofCaptured_ne (h : ToldApart type t t') : ofCaptured t type ≠ ofCaptured t' type' := by
  intro heq
  rcases ofCaptured_cases t type with hv | hv | ⟨hbool, htruth, hv⟩ <;>
    rcases ofCaptured_cases t' type' with hv' | hv' | ⟨-, -, hv'⟩ <;>
      simp only [hv, hv', reduceCtorEq, numeric.injEq, string.injEq, boolean.injEq] at heq
  · exact h.1 heq
  · exact h.1 heq
  · exact h.2 ⟨hbool, htruth, heq⟩

/-- Values other than templates are told by their fingerprinted forms. -/
theorem eq_of_arranged_canonical {v w : Value} (hv : v.kind ≠ .template) (hw : w.kind ≠ .template)
    (h : v.canonical.arranged = w.canonical.arranged) : v = w := by
  cases v <;> cases w <;> simp_all [canonical, kind, Json.arranged_textMember]

theorem kind_ofCaptured (t : String) (type : Option String) : (ofCaptured t type).kind ≠ .template := by
  rcases ofCaptured_cases t type with hv | hv | ⟨-, -, hv⟩ <;> rw [hv] <;> exact nofun

end Value

/-! ## Arguments -/

/-- The texts that are arguments are those at placeholders that name parameters; two sentences go
through their placeholders side by side. -/
theorem capturedArguments_eq (names : List String) (word : String) {texts texts' : List String}
    (hlen : texts.length = texts'.length) :
    capturedArguments names word texts =
        (((Sentence.placeholders word).zip (texts.zip texts')).filter (names.contains ·.1)).map
          (fun e => (e.1, e.2.1)) ∧
      capturedArguments names word texts' =
        (((Sentence.placeholders word).zip (texts.zip texts')).filter (names.contains ·.1)).map
          fun e => (e.1, e.2.2) := by
  have hfst : (Sentence.placeholders word).zip texts =
      ((Sentence.placeholders word).zip (texts.zip texts')).map fun e => (e.1, e.2.1) := by
    conv => lhs; rw [← List.map_fst_zip hlen.le, List.zip_map_right]
    rfl
  have hsnd : (Sentence.placeholders word).zip texts' =
      ((Sentence.placeholders word).zip (texts.zip texts')).map fun e => (e.1, e.2.2) := by
    conv => lhs; rw [← List.map_snd_zip hlen.ge, List.zip_map_right]
    rfl
  rw [capturedArguments, capturedArguments, hfst, hsnd, List.filter_map, List.filter_map]
  exact ⟨rfl, rfl⟩

/-- Texts at other placeholders make no difference. -/
theorem capturedArguments_congr {names texts texts' : List String} {word : String}
    (hlen : texts.length = texts'.length)
    (hsame : ∀ e ∈ (Sentence.placeholders word).zip (texts.zip texts'), e.1 ∈ names → e.2.1 = e.2.2) :
    capturedArguments names word texts' = capturedArguments names word texts := by
  obtain ⟨hfst, hsnd⟩ := capturedArguments_eq names word hlen
  rw [hfst, hsnd]
  refine List.map_congr_left fun e he => ?_
  obtain ⟨hmem, hnamed⟩ := List.mem_filter.1 he
  rw [hsame e hmem (List.contains_iff_mem.1 hnamed)]

/-- Captured texts with the places of the parameters that they are for, and their own. -/
def capturedPlaces {α : Type} (names : List String) (captured : List (String × α)) :
    List (((String × α) × Option Nat) × Nat) :=
  (captured.zip (slots names 0 [] (captured.map fun c => some c.1))).zipIdx

theorem map_name_spokenArguments (names : List String) (types : List (Option String))
    (captured : List (String × String)) :
    (spokenArguments names types captured).map (·.name) = captured.map fun c => some c.1 := by
  have hlen : captured.length = (slots names 0 [] (captured.map fun c => some c.1)).length := by
    rw [length_slots, List.length_map]
  rw [spokenArguments, List.map_map]
  conv => rhs; rw [← List.map_fst_zip hlen.le, List.map_map]
  rfl

/-- Captured texts take the same parameters as literals. -/
theorem zip_spokenArguments (names : List String) (types : List (Option String))
    (captured : List (String × String)) : (spokenArguments names types captured).zip
        (slots names 0 [] ((spokenArguments names types captured).map (·.name))) =
      (captured.zip (slots names 0 [] (captured.map fun c => some c.1))).map fun e =>
        (⟨some e.1.1, .ofCaptured e.1.2 (e.2.bind fun i => types[i]?.join)⟩, e.2) := by
  have hlen : captured.length = (slots names 0 [] (captured.map fun c => some c.1)).length := by
    rw [length_slots, List.length_map]
  rw [map_name_spokenArguments]
  conv => lhs; rw [← List.map_snd_zip hlen.ge]
  rw [spokenArguments, List.zip_map']

/-- What is shown of captured texts: each one as a literal, in the order of the parameters. -/
theorem shownArguments_spoken (names : List String) (types : List (Option String))
    (captured : List (String × String)) :
    shownArguments names (spokenArguments names types captured) =
      (arranged (fun e => e.1.2) (List.range names.length) (capturedPlaces names captured)).map
        fun e => ((e.1.2.bind (names[·]?)).getD (Argument.label { name := some e.1.1.1 } e.2),
          .ofCaptured e.1.1.2 (e.1.2.bind fun i => types[i]?.join)) := by
  rw [shownArguments, placed, zip_spokenArguments, List.zipIdx_map, arranged_map, List.map_map]
  rfl

/-- Nothing is left out that takes a parameter or none. -/
theorem exists_arranged_of_mem {α : Type} (names : List String) (name : α → Option String) {l : List α}
    {a : α} (ha : a ∈ l) : ∃ e ∈ arranged (fun e => e.1.2) (List.range names.length)
      (l.zip (slots names 0 [] (l.map name))).zipIdx, e.1.1 = a ∧
        ∀ i, e.1.2 = some i → ∃ position, place? names (name a) position = some i := by
  let spots := slots names 0 [] (l.map name)
  have hlen : l.length = spots.length := by rw [length_slots, List.length_map]
  obtain ⟨i, hi, rfl⟩ := List.getElem_of_mem ha
  have hi' : i < spots.length := hlen ▸ hi
  have hmem : ((l[i], spots[i]), i) ∈ (l.zip spots).zipIdx := by
    rw [List.mem_zipIdx_iff_getElem?, List.getElem?_zip_eq_some]
    exact ⟨List.getElem?_eq_getElem hi, List.getElem?_eq_getElem hi'⟩
  have hkeys : (l.zip spots).zipIdx.filterMap (fun e => e.1.2) = spots.filterMap id := by
    have hsnd : ((l.zip spots).zipIdx.map Prod.fst).map Prod.snd = spots := by
      rw [List.zipIdx_map_fst, List.map_snd_zip hlen.ge]
    have h := congrArg (List.filterMap id) hsnd
    rw [List.map_map, List.filterMap_map] at h
    exact h
  refine ⟨_, mem_arranged ?_ (fun k hk => ?_) hmem, rfl, fun k hk => ?_⟩
  · rw [hkeys]
    exact (nodup_slots _ _ _ _).1
  · have hslot : some k ∈ spots := List.mem_of_getElem hk
    exact List.mem_range.2 (slots_lt hslot)
  · have hslot : (name l[i], some k) ∈ (l.map name).zip (slots names 0 [] (l.map name)) := by
      rw [List.zip_map_left]
      exact List.mem_map.2 ⟨(l[i], spots[i]), List.fst_mem_of_mem_zipIdx hmem, Prod.ext rfl hk⟩
    exact exists_place?_of_mem_slots hslot

/-- No captured text is left out. -/
theorem exists_capturedPlace {α : Type} (names : List String) {captured : List (String × α)}
    {c : String × α} (hc : c ∈ captured) : ∃ e ∈ arranged (fun e => e.1.2) (List.range names.length)
      (capturedPlaces names captured), e.1.1 = c ∧
        ∀ i, e.1.2 = some i → names.findIdx? (· == c.1) = some i := by
  obtain ⟨e, he, hec, hplace⟩ := exists_arranged_of_mem names (fun c => some c.1) hc
  refine ⟨e, he, hec, fun i hi => ?_⟩
  obtain ⟨position, hi⟩ := hplace i hi
  exact hi

theorem capturedPlaces_map {α β : Type} (names : List String) (f : α → β) (captured : List (String × α)) :
    capturedPlaces names (captured.map fun c => (c.1, f c.2)) =
      (capturedPlaces names captured).map fun e => (((e.1.1.1, f e.1.1.2), e.1.2), e.2) := by
  rw [capturedPlaces, List.map_map, List.zip_map_left, List.zipIdx_map]
  rfl

theorem arranged_canonicalArgument (a : String × Value) :
    (canonicalArgument a).arranged = .array [.text a.1, a.2.canonical.arranged] :=
  Json.arranged_array _

/-- Two sentences that go through the same placeholders and show the same have the same literals there. -/
theorem ofCaptured_of_shown {names : List String} {types types' : List (Option String)}
    {l : List (String × String × String)} {e : String × String × String} (he : e ∈ l)
    (h : (shownArguments names (spokenArguments names types (l.map fun e => (e.1, e.2.1)))).map
        (fun a => (canonicalArgument a).arranged) =
      (shownArguments names (spokenArguments names types' (l.map fun e => (e.1, e.2.2)))).map
        fun a => (canonicalArgument a).arranged) :
    ∃ slot : Option Nat, (∀ i, slot = some i → names.findIdx? (· == e.1) = some i) ∧
      Value.ofCaptured e.2.1 (slot.bind fun i => types[i]?.join) =
        .ofCaptured e.2.2 (slot.bind fun i => types'[i]?.join) := by
  obtain ⟨a, ha, rfl, hslot⟩ := exists_capturedPlace names he
  refine ⟨a.1.2, hslot, Value.eq_of_arranged_canonical
    (Value.kind_ofCaptured _ _) (Value.kind_ofCaptured _ _) ?_⟩
  -- both sentences show their literals in the same order
  rw [shownArguments_spoken, shownArguments_spoken, capturedPlaces_map names Prod.fst,
    capturedPlaces_map names Prod.snd, arranged_map, arranged_map] at h
  simp only [List.map_map] at h
  have hsame := List.map_inj_left.1 h a ha
  simp only [Function.comp_apply, arranged_canonicalArgument, Json.array.injEq, List.cons.injEq] at hsame
  exact hsame.2.1

/-! ## Steps -/

namespace WrittenStep

variable {names : String → List String} {types types' : List (Option String)}
  {last last' keyword keyword' : Option String} {word : String} {texts texts' : List String}

/-- The arguments in what a call says, the members of objects in the order of their names. -/
theorem arguments_of_arranged (names : String → List String) (last keyword : Option String)
    (word : String) (args : List WrittenArgument) :
    ((WrittenStep.call word keyword args).canonical names last).arranged.member? "arguments" =
      some (.array ((shownArguments (names word) args).map fun a => (canonicalArgument a).arranged)) := by
  rw [canonical, Json.arranged_object, (sortBy_members _ _ _).2]
  refine congrArg some ((Json.arranged_array _).trans ?_)
  rw [List.map_map]
  rfl

/-- A plain step becomes a call only as a sentence that follows the pattern of the word. -/
theorem exists_of_spoken_eq_call {words : List String} {formals : String → List String}
    {types : String → List (Option String)} {key : String} {value : Value} {args : List WrittenArgument}
    (h : (plain key value).spoken words formals types = call word keyword args) :
    ∃ texts, Sentence.captures? word (Sentence.withoutKeyword value.display key) = some texts ∧
      keyword = some key ∧ args = spokenArguments (formals word) (types word)
        (capturedArguments (formals word) word texts) := by
  rw [spoken] at h
  split at h
  · split at h
    · rename_i found texts hfirst
      cases h
      obtain ⟨name, -, hfit⟩ := List.exists_of_findSome?_eq_some hfirst
      obtain ⟨texts', hcaptured, heq⟩ := Option.map_eq_some_iff.1 hfit
      cases heq
      exact ⟨texts, hcaptured, rfl, rfl⟩
    · cases h
  · cases h

/-- **A text that is told apart shows**: two sentences that are calls of one action word say something
else if the texts differ at a placeholder that names a parameter. -/
theorem arranged_spoken_ne (hlen : texts.length = texts'.length) {e : String × String × String}
    (he : e ∈ (Sentence.placeholders word).zip (texts.zip texts')) {i : Nat}
    (hi : (names word).findIdx? (· == e.1) = some i)
    (hapart : Value.ToldApart types[i]?.join e.2.1 e.2.2) :
    ((call word keyword (spokenArguments (names word) types
        (capturedArguments (names word) word texts))).canonical names last).arranged ≠
      ((call word keyword' (spokenArguments (names word) types'
        (capturedArguments (names word) word texts'))).canonical names last').arranged := by
  intro h
  have harguments := congrArg (Json.member? "arguments") h
  rw [arguments_of_arranged, arguments_of_arranged, Option.some.injEq, Json.array.injEq] at harguments
  obtain ⟨hfst, hsnd⟩ := capturedArguments_eq (names word) word hlen
  rw [hfst, hsnd] at harguments
  obtain ⟨hlt, hfound, -⟩ := List.findIdx?_eq_some_iff_getElem.1 hi
  have hnamed : (names word).contains e.1 = true := by
    rw [← eq_of_beq hfound]
    exact List.contains_iff_mem.2 (List.getElem_mem hlt)
  obtain ⟨slot, hslot, hliteral⟩ :=
    ofCaptured_of_shown (List.mem_filter.2 ⟨he, hnamed⟩) harguments
  cases slot with
  | none => exact Value.ofCaptured_ne hapart.untyped hliteral
  | some k =>
    cases hi.symm.trans (hslot k rfl)
    exact Value.ofCaptured_ne hapart hliteral

end WrittenStep

end Actionbook
