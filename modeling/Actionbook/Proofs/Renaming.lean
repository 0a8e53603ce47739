import Actionbook.Proofs.Differences
import Actionbook.Proofs.Publishing

/-!
# Renaming an action word

An action word gets another name, and everybody who calls it calls it by this name
(`Design.rename`). What is told of it, by comparing the new document with a snapshot of the old one:
the words that call it have changed, no others, and the word itself has been renamed, unless it calls
itself (`renaming_is_told`).

* `Design.formalNames_rename`: every name still means the same parameters.
* `Design.canonicalBody_rename`: a body that does not call the word says what it has said.
* `canonicalText_rename_ne`: one that calls it does not.
-/

namespace Actionbook

/-! ## Renaming -/

/-- What a name is after `a` has been renamed to `b`. -/
def renamedTo (a b name : String) : String := if name = a then b else name

def WrittenStep.rename (a b : String) : WrittenStep → WrittenStep
  | .call word keyword arguments => .call (renamedTo a b word) keyword arguments
  | .plain key value => .plain key value

def WrittenDefinition.rename (a b : String) (w : WrittenDefinition) : WrittenDefinition :=
  { w with name := renamedTo a b w.name, steps := w.steps.map (·.rename a b) }

/-- Renames an action word and all calls of it. -/
def Design.rename (d : Design) (a b : String) : Design where
  name := d.name
  description := d.description
  scenarios := d.scenarios.map fun s => { s with steps := s.steps.map (·.rename a b) }
  actionWords := d.actionWords.map (·.rename a b)

/-- Whether a body calls a word. -/
def WrittenDefinition.Calls (w : WrittenDefinition) (name : String) : Prop :=
  some name ∈ w.steps.map WrittenStep.callee?

instance (w : WrittenDefinition) (name : String) : Decidable (w.Calls name) :=
  inferInstanceAs (Decidable (some name ∈ w.steps.map WrittenStep.callee?))

section
variable {a b c : String} {s : WrittenStep} {w : WrittenDefinition} {d : Design}

theorem renamedTo_self (a b : String) : renamedTo a b a = b := if_pos rfl

theorem renamedTo_of_ne (h : c ≠ a) : renamedTo a b c = c := if_neg h

/-- Names stay apart, but for the new one. -/
theorem renamedTo_inj {n : String} (hn : n ≠ b) (hc : c ≠ b) :
    renamedTo a b n = renamedTo a b c ↔ n = c := by
  by_cases h : n = a <;> by_cases h' : c = a <;> simp_all [renamedTo, eq_comm]

theorem WrittenStep.callee?_rename (a b : String) (s : WrittenStep) :
    (s.rename a b).callee? = s.callee?.map (renamedTo a b) := by
  cases s <;> rfl

theorem WrittenStep.rename_eq_self (h : s.callee? ≠ some a) : s.rename a b = s := by
  cases s with
  | plain key value => rfl
  | call word keyword arguments =>
    have hne : word ≠ a := fun e => h (congrArg some e)
    rw [rename, renamedTo_of_ne hne]

theorem find?_congr {α : Type} {p q : α → Bool} {l : List α} (h : ∀ x ∈ l, p x = q x) :
    l.find? p = l.find? q := by
  induction l with
  | nil => rfl
  | cons x l ih =>
    rw [List.find?_cons, List.find?_cons, h x List.mem_cons_self,
      ih fun y hy => h y (List.mem_cons_of_mem _ hy)]

namespace Design

theorem steps_rename (d : Design) (a b : String) :
    (d.rename a b).steps = d.steps.map (·.rename a b) := by
  simp only [steps, rename, WrittenDefinition.rename, List.map_append, List.map_flatMap,
    List.flatMap_map]

theorem called_rename (d : Design) (a b : String) :
    (d.rename a b).called = d.called.map (renamedTo a b) := by
  rw [called, called, steps_rename, List.filterMap_map, List.map_filterMap]
  exact List.filterMap_congr fun s _ => s.callee?_rename a b

theorem declared_rename (d : Design) (a b : String) :
    (d.rename a b).declared = d.declared.map (renamedTo a b) := by
  simp only [declared, rename, List.map_map]
  rfl

theorem unsaid_rename (h : d.Unsaid) : (d.rename a b).Unsaid := by
  intro key value hm
  rw [steps_rename] at hm
  obtain ⟨s, hs, heq⟩ := List.mem_map.1 hm
  cases s with
  | plain key' value' =>
    cases heq
    exact h key value hs
  | call word keyword arguments => cases heq

/-- The document stays one that is accepted. -/
theorem readGraph_rename {text text' : String} {strict : Bool} {g : Graph}
    (hd : ofText text = .ok d) (hg : readGraph text strict = .ok g)
    (hd' : ofText text' = .ok (d.rename a b)) :
    readGraph text' strict = .ok (d.rename a b).graph := by
  obtain ⟨d₀, hd₀, hcalled, -⟩ := readGraph_eq_ok.1 hg
  cases hd.symm.trans hd₀
  refine readGraph_eq_ok.2 ⟨_, hd', fun hs name hm => ?_, rfl⟩
  rw [called_rename] at hm
  obtain ⟨n, hn, rfl⟩ := List.mem_map.1 hm
  rw [declared_rename]
  exact List.mem_map_of_mem (hcalled hs n hn)

/-- What is declared under a name is what has been declared under the old one. -/
theorem find?_rename (hb : b ∉ d.declared) (hc : c ≠ b) :
    (d.rename a b).actionWords.find? (·.name == renamedTo a b c) =
      (d.actionWords.find? (·.name == c)).map (·.rename a b) := by
  rw [rename, List.find?_map]
  refine congrArg _ (find?_congr fun w hw => ?_)
  have hne : w.name ≠ b := fun e => hb (e ▸ List.mem_map_of_mem hw)
  have hiff := renamedTo_inj (a := a) hne hc
  simpa [WrittenDefinition.rename] using hiff

theorem formalNames_rename (hb : b ∉ d.declared) (hc : c ≠ b) :
    (d.rename a b).formalNames (renamedTo a b c) = d.formalNames c := by
  rw [formalNames, formalNames, parameterNames?, parameterNames?, find?_rename hb hc, Option.map_map]
  rfl

end Design

/-! ## Bodies -/

/-- A body that does not call the word says what it has said. -/
theorem Design.canonicalBody_rename (hw : w ∈ d.actionWords) (hb : b ∉ d.declared)
    (hb' : b ∉ d.called) (h : ¬ w.Calls a) :
    canonicalBody (d.rename a b).formalNames (w.rename a b).steps =
      canonicalBody d.formalNames w.steps := by
  have hsteps : (w.rename a b).steps = w.steps := by
    refine (List.map_congr_left fun s hs => ?_).trans (List.map_id _)
    exact s.rename_eq_self fun e => h (List.mem_map.2 ⟨s, hs, e⟩)
  rw [hsteps, canonicalBody, canonicalBody]
  refine congrArg Json.array (canonicalFrom_congr fun word keyword arguments hm => ?_)
  have hcalled : word ∈ d.called := List.mem_filterMap.2
    ⟨_, List.mem_append_right _ (List.mem_flatMap.2 ⟨w, hw, hm⟩), rfl⟩
  have hne : word ≠ a := fun e => h (List.mem_map.2 ⟨_, hm, congrArg some e⟩)
  rw [← formalNames_rename (a := a) hb (fun e => hb' (e ▸ hcalled)), renamedTo_of_ne hne]

/-- A body that calls the word says something else. -/
theorem canonicalText_rename_ne {names names' : String → List String} (hne : a ≠ b) (h : w.Calls a) :
    (canonicalBody names w.steps).canonicalText ≠
      (canonicalBody names' (w.rename a b).steps).canonicalText := by
  intro heq
  have hcallees := callees_of_canonicalText heq
  obtain ⟨s, hs, hsa⟩ := List.mem_map.1 h
  have hsame : ∀ s ∈ w.steps, s.callee? = (s.rename a b).callee? := by
    rw [WrittenDefinition.rename, List.map_map] at hcallees
    exact List.map_inj_left.1 hcallees
  have hab := hsame s hs
  rw [WrittenStep.callee?_rename, hsa, Option.map_some, renamedTo_self] at hab
  exact hne (Option.some.inj hab)

end

/-! ## Signatures -/

/-- The texts of the bodies of the action words, which are fingerprinted. -/
def Design.bodyTexts (d : Design) : List String :=
  d.actionWords.map fun w => (canonicalBody d.formalNames w.steps).canonicalText

/-- No text of the one list has the digest of another text of the other one. -/
def Sha256.TellsApart (l l' : List String) : Prop :=
  ∀ s ∈ l, ∀ t ∈ l', hexDigest s.toUTF8.toList = hexDigest t.toUTF8.toList → s = t

instance (l l' : List String) : Decidable (Sha256.TellsApart l l') :=
  inferInstanceAs (Decidable (∀ s ∈ l, ∀ t ∈ l', _ → s = t))

section
variable {a b : String} {w : WrittenDefinition} {d : Design}

theorem Design.shape_signatureOf_rename (d d' : Design) (a b : String) (w : WrittenDefinition) :
    (d'.signatureOf (w.rename a b)).shape = (d.signatureOf w).shape := rfl

/-- The fingerprint stays if and only if the word is not called. -/
theorem Design.bodyHash_rename (hw : w ∈ d.actionWords) (hab : a ≠ b) (hb : b ∉ d.declared)
    (hb' : b ∉ d.called) (hsha : Sha256.TellsApart d.bodyTexts (d.rename a b).bodyTexts) :
    (d.signatureOf w).bodyHash = ((d.rename a b).signatureOf (w.rename a b)).bodyHash ↔
      ¬ w.Calls a := by
  have hhash : ∀ (d : Design) w, (d.signatureOf w).bodyHash =
      some (fingerprint (canonicalBody d.formalNames w.steps)) := fun _ _ => rfl
  rw [hhash, hhash, Option.some.injEq]
  constructor
  · intro h hcalls
    refine canonicalText_rename_ne hab hcalls (hsha _ (List.mem_map_of_mem hw) _ ?_ h)
    exact List.mem_map.2 ⟨w.rename a b, List.mem_map_of_mem hw, rfl⟩
  · intro h
    rw [canonicalBody_rename hw hb hb' h]

theorem Design.changedTo_rename (hw : w ∈ d.actionWords) (hab : a ≠ b) (hb : b ∉ d.declared)
    (hb' : b ∉ d.called) (hsha : Sha256.TellsApart d.bodyTexts (d.rename a b).bodyTexts) :
    (d.signatureOf w).changedTo ((d.rename a b).signatureOf (w.rename a b)) = true ↔ w.Calls a := by
  have hhash := bodyHash_rename hw hab hb hb' hsha
  simp only [Signature.changedTo, shape_signatureOf_rename d, bne_self_eq_false, Bool.false_or,
    Bool.and_eq_true, bne_iff_ne, ne_eq, hhash, not_not]
  exact and_iff_right ⟨rfl, rfl⟩

theorem Design.shapeAndBody_rename (hw : w ∈ d.actionWords) (hab : a ≠ b) (hb : b ∉ d.declared)
    (hb' : b ∉ d.called) (hsha : Sha256.TellsApart d.bodyTexts (d.rename a b).bodyTexts) :
    RenameMatch.shapeAndBody.rule (d.signatureOf w) ((d.rename a b).signatureOf (w.rename a b)) = true ↔
      ¬ w.Calls a := by
  have hhash := bodyHash_rename hw hab hb hb' hsha
  simp only [RenameMatch.rule, shape_signatureOf_rename d, beq_self_eq_true, Bool.true_and,
    Bool.and_eq_true, beq_iff_eq, hhash]
  exact and_iff_right rfl

/-! ## What is told -/

theorem mem_map_renamedTo {l : List String} {n : String} (ha : a ∈ l) (hb : b ∉ l) :
    n ∈ l.map (renamedTo a b) ↔ n = b ∨ n ∈ l ∧ n ≠ a := by
  rw [List.mem_map]
  constructor
  · rintro ⟨m, hm, rfl⟩
    by_cases h : m = a
    · exact .inl (if_pos h)
    · rw [renamedTo_of_ne h]
      exact .inr ⟨hm, h⟩
  · rintro (rfl | ⟨hn, hne⟩)
    · exact ⟨a, ha, renamedTo_self a n⟩
    · exact ⟨n, hn, renamedTo_of_ne hne⟩

theorem Design.mem_names_signatures {n : String} :
    n ∈ d.signatures.map (·.1) ↔ n ∈ d.declared := by
  rw [mem_names, lookup_signatures, Option.isSome_map, List.find?_isSome]
  simp [declared]

/-- What a rule says of a word with its old name and with its new one. -/
theorem Design.matchesUnder_rename (rule : RenameRule) {new : Signatures}
    (hrule : ∀ s t, rule s t.bare = rule s t) (hbare : new.bare = (d.rename a b).signatures)
    (hn : d.declared.Nodup) (hw : w ∈ d.actionWords) (hb : b ∉ d.declared) :
    matchesUnder rule d.signatures new w.name (renamedTo a b w.name) =
      rule (d.signatureOf w) ((d.rename a b).signatureOf (w.rename a b)) := by
  have hne : w.name ≠ b := fun e => hb (e ▸ List.mem_map_of_mem hw)
  have hold : d.signatures.lookup w.name = some (d.signatureOf w) := by
    rw [lookup_signatures, find?_declared hn hw]
    rfl
  have hnew : (new.lookup (renamedTo a b w.name)).map Signature.bare =
      some ((d.rename a b).signatureOf (w.rename a b)) := by
    rw [← Signatures.lookup_bare, hbare, lookup_signatures, find?_rename hb hne, find?_declared hn hw]
    rfl
  obtain ⟨t, ht, hts⟩ := Option.map_eq_some_iff.1 hnew
  rw [matchesUnder, hold, ht, ← hts]
  exact (hrule _ t).symm

/-- What is told of signatures in which one word has got another name. -/
theorem Design.diff_rename {new : Signatures} (hbare : new.bare = (d.rename w.name b).signatures)
    (hn : d.declared.Nodup) (hw : w ∈ d.actionWords) (hb : b ∉ d.declared) (hb' : b ∉ d.called)
    (hsha : Sha256.TellsApart d.bodyTexts (d.rename w.name b).bodyTexts) :
    let δ := diffSignatures RenameMatch.shapeAndBody.rule d.signatures new
    δ.changed.map (·.name) = sortTexts
        ((d.actionWords.filter fun v => v.name ≠ w.name ∧ v.Calls w.name).map (·.name)) ∧
      if w.Calls w.name then
        δ.deleted.map (·.name) = [w.name] ∧ δ.created.map (·.name) = [b] ∧ δ.renamed = []
      else
        δ.renamed.map (fun e => (e.name, e.newName)) = [(w.name, some b)] ∧ δ.deleted = [] ∧
          δ.created = [] := by
  have ha : w.name ∈ d.declared := List.mem_map_of_mem hw
  have hab : w.name ≠ b := fun e => hb (e ▸ ha)
  have hold : ∀ n, n ∈ d.signatures.map (·.1) ↔ n ∈ d.declared := fun n => mem_names_signatures
  have hnew : ∀ n, n ∈ new.map (·.1) ↔ n = b ∨ n ∈ d.declared ∧ n ≠ w.name := fun n => by
    rw [← new.names_bare, hbare, mem_names_signatures, declared_rename, mem_map_renamedTo ha hb]
  have hnodup : (new.map (·.1)).Nodup := by
    rw [← new.names_bare, hbare]
    exact nodup_signatures _
  refine ⟨changed_diff_eq_sortTexts d.nodup_signatures (hn.sublist (List.filter_sublist.map _))
    fun n => ?changed, ?renamed⟩
  case changed =>
    rw [hold, hnew]
    constructor
    · intro hm
      obtain ⟨v, hv, rfl⟩ := List.mem_map.1 hm
      obtain ⟨hv, hcalls⟩ := List.mem_filter.1 hv
      obtain ⟨hne, hcalls⟩ : v.name ≠ w.name ∧ v.Calls w.name := by simpa using hcalls
      have hdecl : v.name ∈ d.declared := List.mem_map_of_mem hv
      refine ⟨⟨hdecl, .inr ⟨hdecl, hne⟩⟩, ?_⟩
      have hmatch := matchesUnder_rename Signature.changedTo (fun _ _ => rfl) hbare hn hv hb
      rw [renamedTo_of_ne hne] at hmatch
      rw [hmatch, changedTo_rename hv hab hb hb' hsha]
      exact hcalls
    · rintro ⟨⟨hdecl, hin⟩, hchanged⟩
      obtain ⟨v, hv, rfl⟩ := List.mem_map.1 hdecl
      have hne : v.name ≠ w.name := hin.elim (fun e => absurd (e ▸ hdecl) hb) (·.2)
      have hmatch := matchesUnder_rename Signature.changedTo (fun _ _ => rfl) hbare hn hv hb
      rw [renamedTo_of_ne hne] at hmatch
      rw [hmatch, changedTo_rename hv hab hb hb' hsha] at hchanged
      exact List.mem_map.2 ⟨v, List.mem_filter.2 ⟨hv, by simp [hne, hchanged]⟩, rfl⟩
  case renamed =>
    have hgone : namesOnlyIn d.signatures new = [w.name] :=
      namesOnlyIn_eq_singleton d.nodup_signatures fun n => by
        rw [hold, hnew]
        constructor
        · rintro ⟨hdecl, hnot⟩
          by_contra hne
          exact hnot (.inr ⟨hdecl, hne⟩)
        · rintro rfl
          exact ⟨ha, by rintro (e | ⟨-, hne⟩); exacts [hab e, hne rfl]⟩
    have hcome : namesOnlyIn new d.signatures = [b] :=
      namesOnlyIn_eq_singleton hnodup fun n => by
        rw [hold, hnew]
        constructor
        · rintro ⟨rfl | ⟨hdecl, -⟩, hnot⟩
          · rfl
          · exact absurd hdecl hnot
        · rintro rfl
          exact ⟨.inl rfl, hb⟩
    have hmatch := matchesUnder_rename RenameMatch.shapeAndBody.rule (fun _ _ => rfl)
      hbare hn hw hb
    rw [renamedTo_self] at hmatch
    have htold := diff_of_single RenameMatch.shapeAndBody.rule hgone hcome
    simp only [hmatch, shapeAndBody_rename hw hab hb hb' hsha] at htold
    by_cases hcalls : w.Calls w.name
    · rw [if_pos hcalls]
      rwa [if_neg (not_not.2 hcalls)] at htold
    · rw [if_neg hcalls]
      rwa [if_pos hcalls] at htold

end

open Publisher (Yields) in
/-- **What is told of a renaming.** An action word of a document, whose names are told apart and which
has no sentences, gets a name that is neither declared nor called there. Compared with a snapshot of the
document, the words that have changed are those that call it. It has been renamed itself, unless it calls
itself: then it is taken for another word. -/
theorem renaming_is_told {f : Snapshot.Format} {text text' b : String} {strict : Bool} {d : Design} {g : Graph}
    {w : WrittenDefinition} {p q : Publisher}
    (hd : Design.ofText text = .ok d) (hg : Design.readGraph text strict = .ok g)
    (hn : d.declared.Nodup) (hplain : d.Unsaid)
    (hw : w ∈ d.actionWords) (hb : b ∉ d.declared) (hb' : b ∉ d.called)
    (hd' : Design.ofText text' = .ok (d.rename w.name b))
    (hyaml : f.RoundTrips (Snapshot.outlines d.signatures))
    (hsha : Sha256.TellsApart d.bodyTexts (d.rename w.name b).bodyTexts)
    (hq : Config.renameMatch q.config = .ok .shapeAndBody) :
    Yields (do Publisher.exportSnapshot (← Publisher.build text strict) f) p fun snapshot _ =>
      Yields (do Publisher.diff snapshot (← Publisher.build text' strict) f) q fun δ _ =>
        δ.changed.map (·.name) = sortTexts
            ((d.actionWords.filter fun v => v.name ≠ w.name ∧ v.Calls w.name).map (·.name)) ∧
          if w.Calls w.name then
            δ.deleted.map (·.name) = [w.name] ∧ δ.created.map (·.name) = [b] ∧ δ.renamed = []
          else
            δ.renamed.map (fun e => (e.name, e.newName)) = [(w.name, some b)] ∧ δ.deleted = [] ∧
              δ.created = [] := by
  have hg' := Design.readGraph_rename hd hg hd'
  obtain ⟨d₀, hd₀, rfl⟩ := Design.exists_of_readGraph hg
  cases hd.symm.trans hd₀
  simp only [Publisher.yields_bind]
  refine (Publisher.yields_build hg).mono ?_
  rintro g₁ p₁ ⟨-, m₁, he₁⟩
  refine (Publisher.yields_exportSnapshot he₁ hplain (Design.named_of_ofText hd) hyaml).mono ?_
  rintro snapshot - hread
  refine (Publisher.yields_build hg').mono ?_
  rintro g₂ q₂ ⟨hconfig, m₂, he₂⟩
  refine (Publisher.yields_diff hread he₂ (Design.unsaid_rename hplain) (hconfig ▸ hq)).mono ?_
  rintro δ - ⟨new, hbare, rfl⟩
  exact Design.diff_rename hbare hn hw hb hb' hsha

namespace Design

/-- The document of `otherText` with another name for the word that is called. -/
abbrev renamedText : String := "<project><name>q</name>
  <actionwords><actionword><name>u</name><parameters><parameter><name>x</name>
    <type>text</type><default><numericliteral>2</numericliteral></default></parameter>
  </parameters></actionword><actionword><name>w</name><steps>
    <call><actionword>u</actionword></call>
  </steps></actionword></actionwords>
  </project>"

set_option maxRecDepth 4000 in
theorem ofText_renamed : ofText renamedText = .ok (other.rename "t" "u") :=
  ofText_eq_ok (by decide +kernel)

/-- The signatures of the document of `otherText`. -/
def otherSignatures : Signatures := [
  ("t", {
    name := "t"
    parameters := [{ name := "x", default := some "2" }]
    bodyHash := some "4f53cda18c2baa0c0354bb5f9a3ecbe5ed12ab4d8e11ba873c2f11161202b945" }),
  ("w", {
    name := "w"
    bodyHash := some "29cdf47510259ee23a9fdbfcd16ecc8c8af1710a080e11e64f60c2cf13c04b28" })]

theorem signatures_other : other.signatures = otherSignatures := by decide +kernel

theorem roundTrips_other : Snapshot.format.RoundTrips (Snapshot.outlines other.signatures) := by
  rw [signatures_other]
  decide +kernel

/-- The word of the document that is called. -/
def otherWord : WrittenDefinition where
  name := "t"
  uid := none
  description := ""
  tags := []
  parameters := [{ name := "x", type := some "text", default := some (.numeric "2") }]
  steps := []

end Design

open Publisher (Yields) in
theorem renaming_of_other :
    (Design.ofText Design.otherText = .ok Design.other ∧
      Design.readGraph Design.otherText true = .ok Design.other.graph ∧
      Design.ofText Design.renamedText = .ok (Design.other.rename "t" "u")) ∧
    Yields (do Publisher.exportSnapshot (← Publisher.build Design.otherText true))
        (.make .null "python" []) fun snapshot _ =>
      Yields (do Publisher.diff snapshot (← Publisher.build Design.renamedText true))
          (.make .null "python" []) fun δ _ =>
        δ.changed.map (·.name) = ["w"] ∧
          δ.renamed.map (fun e => (e.name, e.newName)) = [("t", some "u")] ∧ δ.deleted = [] ∧
            δ.created = [] := by
  have hg : Design.readGraph Design.otherText true = .ok Design.other.graph :=
    Design.readGraph_eq_ok.2 ⟨_, Design.ofText_other, fun _ => by decide, rfl⟩
  refine ⟨⟨Design.ofText_other, hg, Design.ofText_renamed⟩, ?_⟩
  have hplain : Design.other.Unsaid := by
    intro key value hm
    simp [Design.steps, Design.other, Design.sampleWord] at hm
  have hcallers : (Design.other.actionWords.filter fun v =>
      v.name ≠ Design.otherWord.name ∧ v.Calls Design.otherWord.name).map (·.name) = ["w"] := by decide
  have hself : ¬ Design.otherWord.Calls Design.otherWord.name := by decide
  have h := renaming_is_told (b := "u") (w := Design.otherWord) (p := .make .null "python" [])
    (q := .make .null "python" []) Design.ofText_other hg (by decide) hplain (by decide)
    (by decide) (by decide) Design.ofText_renamed Design.roundTrips_other
    (by decide +kernel) rfl
  simp only [hcallers, if_neg hself] at h
  exact h

end Actionbook
