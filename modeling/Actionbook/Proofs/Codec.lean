import Actionbook.Proofs.Declarations
import Actionbook.Proofs.Differences
import Actionbook.Proofs.Publishing
import Actionbook.Proofs.Renaming

/-!
# Snapshots are faithful

What is loaded has each signature under its name, and no name is empty, whatever the format reads
(`Snapshot.Format.proper_of_load`). As a snapshot is only written if it is loaded as what it holds, the
signatures have to be of this kind (`Snapshot.Format.proper_of_dump`); a format that reads back what it
writes asks for no more. What a document exports is of this kind (`Design.proper_exported`), and there is no
difference between signatures that agree (`isEmpty_diff`).

* `Snapshot.Format.dump_eq_ok_iff`: when a snapshot is written.
* `Snapshot.Format.dump_congr`: neither the order of the signatures nor their nodes matter.
* `snapshots_are_faithful`: the whole of it.
-/

namespace Actionbook

open Publisher (Yields)

/-- Two collections have the same signature, apart from its node, or none for each name. -/
def Signatures.Agree (s t : Signatures) : Prop :=
  ∀ k, (s.lookup k).map Signature.bare = (t.lookup k).map Signature.bare

/-! ## Loading -/

theorem requiredText_ne_empty {entries : List (Data × Data)} {field t : String}
    (h : requiredText entries field = .ok t) : t ≠ "" := by
  unfold requiredText at h
  split at h
  · split at h
    · cases h
    · rename_i hne
      cases h
      simpa using hne
  · cases h

theorem ParameterSignature.name_of_ofData {v : Data} {p : ParameterSignature} (h : ofData v = .ok p) :
    p.name ≠ "" := by
  unfold ofData at h
  split at h
  · obtain ⟨name, hname, h⟩ := bind_eq_ok.1 h
    obtain ⟨default, -, h⟩ := bind_eq_ok.1 h
    cases h
    exact requiredText_ne_empty hname
  · cases h

theorem Signature.named_of_ofData {v : Data} {s : Signature} (h : ofData v = .ok s) : s.Named := by
  unfold ofData at h
  split at h
  · obtain ⟨data, -, h⟩ := bind_eq_ok.1 h
    obtain ⟨name, hname, h⟩ := bind_eq_ok.1 h
    obtain ⟨parameters, hparameters, h⟩ := bind_eq_ok.1 h
    obtain ⟨uid, -, h⟩ := bind_eq_ok.1 h
    obtain ⟨bodyHash, -, h⟩ := bind_eq_ok.1 h
    cases h
    refine ⟨requiredText_ne_empty hname, fun p hp => ?_⟩
    obtain ⟨v, -, hv⟩ := exists_of_mapM_ok hparameters hp
    exact ParameterSignature.name_of_ofData hv
  · cases h

namespace Signatures

variable {s t : Signatures}

theorem proper_nil : Proper [] := ⟨List.forall_mem_nil _, List.forall_mem_nil _, List.nodup_nil⟩

theorem Proper.append {x : Signature} (hs : s.Proper) (hx : x.Named) (hnew : s.lookup x.name = none) :
    Proper (s ++ [(x.name, x)]) := by
  refine ⟨fun e he => ?keys, fun e he => ?named, ?nodup⟩
  case keys =>
    rcases List.mem_append.1 he with he | he
    · exact hs.keys e he
    · rw [List.mem_singleton.1 he]
  case named =>
    rcases List.mem_append.1 he with he | he
    · exact hs.named e he
    · rw [List.mem_singleton.1 he]
      exact hx
  case nodup =>
    rw [List.map_append]
    refine hs.nodup.append (List.nodup_singleton _) (List.disjoint_singleton.2 ?_)
    exact lookup_eq_none_iff_not_mem.1 hnew

/-- Agreeing with proper signatures, those with different names are proper. -/
theorem Proper.of_agree (hs : s.Proper) (ha : s.Agree t) (hn : (t.map (·.1)).Nodup) : t.Proper := by
  have hfind : ∀ e ∈ t, ∃ x, (e.1, x) ∈ s ∧ x.bare = e.2.bare := fun e he => by
    have hk := ha e.1
    rw [lookup_of_nodup hn he, Option.map_some, Option.map_eq_some_iff] at hk
    obtain ⟨x, hx, hbare⟩ := hk
    exact ⟨x, mem_of_lookup hx, hbare⟩
  refine ⟨fun e he => ?_, fun e he => ?_, hn⟩
  · obtain ⟨x, hx, hbare⟩ := hfind e he
    have hname : x.bare.name = e.2.bare.name := congrArg Signature.name hbare
    exact (hs.keys _ hx).trans hname
  · obtain ⟨x, hx, hbare⟩ := hfind e he
    have hname : x.bare.name = e.2.bare.name := congrArg Signature.name hbare
    have hparameters : x.bare.parameters = e.2.bare.parameters := congrArg Signature.parameters hbare
    have hnamed := hs.named _ hx
    exact ⟨fun h => hnamed.name (hname.trans h), fun p hp => hnamed.parameters p (hparameters ▸ hp)⟩

end Signatures

namespace Snapshot

variable {f : Format} {s t found : Signatures} {text : String}

theorem proper_of_readEntries {position : Nat} {known : Signatures} {l : List Data} (hk : known.Proper)
    (h : readEntries position known l = .ok found) : found.Proper := by
  induction l generalizing position known with
  | nil =>
    cases h
    exact hk
  | cons v l ih =>
    unfold readEntries at h
    split at h
    · cases h
    · rename_i x hx
      split at h
      · cases h
      · rename_i hnew
        exact ih (hk.append (Signature.named_of_ofData hx) (by rwa [Bool.not_eq_true,
          Option.isSome_eq_false_iff, Option.isNone_iff_eq_none] at hnew)) h

/-- Errors about entries are reported. -/
theorem reported_of_readEntries {position : Nat} {known : Signatures} {l : List Data} {e : SnapshotError}
    (h : readEntries position known l = .error e) : e.diagnostic?.isSome = true := by
  induction l generalizing position known with
  | nil => cases h
  | cons v l ih =>
    unfold readEntries at h
    split at h
    · cases h
      rfl
    · split at h
      · cases h
        rfl
      · exact ih h

namespace Format

/-- **What is loaded** has each signature under its name, and no name is empty. -/
theorem proper_of_load (h : f.load text = .ok found) : found.Proper := by
  unfold load at h
  split at h
  · cases h
  · unfold ofData at h
    split at h
    · cases h
      exact Signatures.proper_nil
    · exact proper_of_readEntries Signatures.proper_nil h
    · cases h

end Format

/-! ## Writing -/

theorem agreeOn_iff {k : String} : agreeOn s t k = true ↔
    (s.lookup k).map Signature.bare = (t.lookup k).map Signature.bare := by
  unfold agreeOn
  cases s.lookup k <;> cases t.lookup k <;> simp [Signature.sameAs]

theorem differences_eq_nil_iff : differences s t = [] ↔ s.Agree t := by
  have hsorted : ∀ l : List String, sortTexts l = [] ↔ l = [] := fun l => by
    rw [← List.length_eq_zero_iff, (sortTexts_perm l).length_eq, List.length_eq_zero_iff]
  rw [differences, hsorted, List.filter_eq_nil_iff]
  constructor
  · intro h k
    by_cases hk : k ∈ (s ++ t).map (·.1)
    · exact agreeOn_iff.1 (by simpa using h k (mem_distinct.2 hk))
    · rw [List.map_append, List.mem_append, not_or] at hk
      rw [lookup_eq_none_iff_not_mem.2 hk.1, lookup_eq_none_iff_not_mem.2 hk.2]
  · intro h k _
    simp [agreeOn_iff.2 (h k)]

namespace Format

/-- A snapshot is written if it is loaded as the signatures that it holds. -/
theorem dump_eq_ok_iff : f.dump s = .ok text ↔
    text = f.write (outlines s) ∧ ∃ found, f.load text = .ok found ∧ found.Agree s := by
  unfold dump
  cases hload : f.load (f.write (outlines s)) with
  | error e =>
    simp only [hload]
    refine iff_of_false (fun h => by cases h) ?_
    rintro ⟨rfl, found, hfound, -⟩
    cases hload.symm.trans hfound
  | ok found =>
    simp only [hload]
    by_cases hagree : found.Agree s
    · rw [differences_eq_nil_iff.2 hagree]
      constructor
      · intro h
        cases h
        exact ⟨rfl, found, hload, hagree⟩
      · rintro ⟨rfl, -⟩
        rfl
    · rw [if_neg (by rwa [List.isEmpty_iff, differences_eq_nil_iff])]
      refine iff_of_false (fun h => by cases h) ?_
      rintro ⟨rfl, found', hfound, hagree'⟩
      cases hload.symm.trans hfound
      exact hagree hagree'

/-- A snapshot is only written of signatures that stand under their names, none of them empty. -/
theorem proper_of_dump (hn : (s.map (·.1)).Nodup) (h : f.dump s = .ok text) : s.Proper := by
  obtain ⟨-, found, hfound, hagree⟩ := dump_eq_ok_iff.1 h
  exact (proper_of_load hfound).of_agree hagree hn

/-- A format that reads back what it writes refuses signatures as those of no snapshot. -/
theorem code_of_dump_eq_error {e : WriteError} (hf : f.RoundTrips (outlines s))
    (h : f.dump s = .error e) :
    ∃ d, e.diagnostic? = some d ∧ d.code = "SNAPSHOT_ROUND_TRIP" := by
  unfold dump at h
  dsimp only at h
  split at h
  · rename_i error hload
    cases h
    rw [load, hf] at hload
    obtain ⟨d, hd⟩ := Option.isSome_iff_exists.1 (reported_of_readEntries hload)
    exact ⟨_, congrArg (Option.map _) hd, rfl⟩
  · split at h
    · cases h
    · cases h
      exact ⟨_, rfl, rfl⟩

/-- **A snapshot depends neither on the order of the signatures nor on their nodes.** -/
theorem dump_congr (hn : (s.map (·.1)).Nodup) (hp : s.bare.Perm t.bare) : f.dump t = f.dump s := by
  have hnames : (s.bare.map (·.1)).Nodup := s.names_bare ▸ hn
  have houtlines : outlines t.bare = outlines s.bare := by
    rw [outlines, outlines, Signatures.sorted_eq_of_perm hp hnames]
  have hdifferences : ∀ found, differences found t.bare = differences found s.bare := fun found => by
    have hagree : ∀ k, agreeOn found t.bare k = agreeOn found s.bare k := fun k => by
      rw [agreeOn, agreeOn, lookup_perm hp hnames]
    refine sortTexts_eq_of_perm (sortTexts_sorted _) ((sortTexts_perm _).trans ?_)
    simp only [hagree]
    refine (List.Perm.filter _ ?_)
    refine (List.perm_ext_iff_of_nodup (nodup_distinct _) (nodup_distinct _)).2 fun k => ?_
    simp only [mem_distinct, List.map_append, List.mem_append, (hp.map (·.1)).mem_iff]
  rw [← dump_bare, ← f.dump_bare s]
  simp only [dump, houtlines, hdifferences]

end Format

end Snapshot

/-! ## Comparing what agrees -/

namespace Signatures

variable {s t : Signatures}

theorem agree_of_bare (h : s.bare = t.bare) : s.Agree t := fun k => by
  rw [← lookup_bare, ← lookup_bare, h]

theorem Agree.trans {u : Signatures} (h : s.Agree t) (h' : t.Agree u) : s.Agree u := fun k =>
  (h k).trans (h' k)

theorem Agree.mem_names_iff (h : s.Agree t) {n : String} : n ∈ s.map (·.1) ↔ n ∈ t.map (·.1) := by
  have hk := congrArg Option.isSome (h n)
  rw [Option.isSome_map, Option.isSome_map] at hk
  rw [mem_names, mem_names, hk]

end Signatures

theorem changedTo_of_bare {s t : Signature} (h : s.bare = t.bare) : s.changedTo t = false := by
  have hself : s.bare.changedTo s.bare = false := by simp [Signature.changedTo]
  have ht : s.bare.changedTo t.bare = false := h ▸ hself
  exact ht

/-- There is no difference between signatures that agree. -/
theorem isEmpty_diff {old new : Signatures} (h : old.Agree new) (rule : RenameRule) :
    (diffSignatures rule old new).isEmpty = true := by
  have hgone : namesOnlyIn old new = [] := List.eq_nil_iff_forall_not_mem.2 fun n hn =>
    (mem_namesOnlyIn.1 hn).2 (h.mem_names_iff.1 (mem_namesOnlyIn.1 hn).1)
  have hcome : namesOnlyIn new old = [] := List.eq_nil_iff_forall_not_mem.2 fun n hn =>
    (mem_namesOnlyIn.1 hn).2 (h.mem_names_iff.2 (mem_namesOnlyIn.1 hn).1)
  have hsame : (namesInBoth old new).filter
      (fun n => matchesUnder Signature.changedTo old new n n) = [] := by
    refine List.filter_eq_nil_iff.2 fun n _ => ?_
    have hk := h n
    unfold matchesUnder
    cases hs : old.lookup n with
    | none => simp
    | some s =>
      cases ht : new.lookup n with
      | none => simp
      | some t =>
        rw [hs, ht] at hk
        simp [changedTo_of_bare (Option.some.inj hk)]
  simp [Diff.isEmpty, Diff.entries, Change.all, Diff.group, diffSignatures, hgone, hcome, hsame]

/-! ## What documents export -/

namespace Design

variable {d : Design}

/-- What a document exports stands under its names, none of them empty. -/
theorem proper_exported (hd : ∀ w ∈ d.actionWords, w.Named) (types : String → List (Option String))
    (options : ExportOptions) : (Signatures.collect (d.entries types options) []).sorted.Proper := by
  have hmem : ∀ e ∈ Signatures.collect (d.entries types options) [], ∃ w ∈ d.actionWords,
      (w.name, ((d.spoken types w).signature d.formalNames options 0).bare) = e := fun e he =>
    List.mem_map.1 (Signatures.mem_of_mem_collect he)
  refine Signatures.Proper.sorted ⟨fun e he => ?_, fun e he => ?_, ?_⟩
  · obtain ⟨w, -, rfl⟩ := hmem e he
    rfl
  · obtain ⟨w, hw, rfl⟩ := hmem e he
    refine ⟨(hd w hw).name, fun p hp => ?_⟩
    obtain ⟨q, hq, rfl⟩ := List.mem_map.1 hp
    exact (hd w hw).parameters q hq
  · exact Signatures.nodup_collect _ List.nodup_nil

end Design

namespace Publisher

variable {d : Design} {g m : Graph} {p : Publisher}

/-- What a publisher exports of an enriched document, with or without nodes. -/
theorem yields_signatures_of_enriched (he : d.graph.Enriched m g) (attach : Bool) :
    Yields (signatures g { attachNodes := attach }) p fun result p' => p'.config = p.config ∧
      result.bare = (Signatures.collect (d.entries m.formalTypes {}) []).sorted := by
  simp only [signatures, yields_bind, yields_pure]
  refine (yields_workOn (Design.ensures_exportSignatures he _)).mono ?_
  rintro result p' ⟨hp, hbare⟩
  exact ⟨by rw [hp], hbare⟩

/-- The snapshot of a document is read back as signatures that agree with those it exports. -/
theorem yields_exportSnapshot_of_enriched {f : Snapshot.Format} {exported : Signatures} (he : d.graph.Enriched m g)
    (hnamed : ∀ w ∈ d.actionWords, w.Named)
    (hexported : exported.bare = (Signatures.collect (d.entries m.formalTypes {}) []).sorted)
    (hyaml : f.RoundTrips (Snapshot.outlines exported)) :
    Yields (exportSnapshot g f) p fun text p' => p'.config = p.config ∧
      ∃ old, f.load text = .ok old ∧ old.Agree exported := by
  simp only [exportSnapshot, yields_bind]
  refine (yields_signatures_of_enriched he false).mono ?_
  rintro result p' ⟨hp, hresult⟩
  have hproper : result.Proper :=
    Signatures.proper_of_bare (hresult ▸ Design.proper_exported hnamed m.formalTypes {})
  have hbare : result.bare = exported.bare := hresult.trans hexported.symm
  rw [← Snapshot.outlines_bare, ← hbare, Snapshot.outlines_bare] at hyaml
  have hdump := Snapshot.Format.dump_ok hyaml hproper
  obtain ⟨-, old, hold, hagree⟩ := Snapshot.Format.dump_eq_ok_iff.1 hdump
  rw [hdump, yields_check_ok]
  exact ⟨hp, old, hold, hagree.trans (Signatures.agree_of_bare hbare)⟩

/-- Compared with signatures that agree with those it exports, a document has not changed. -/
theorem yields_diff_of_agree {f : Snapshot.Format} {exported old : Signatures} {text : String} {rule : RenameMatch}
    (he : d.graph.Enriched m g)
    (hexported : exported.bare = (Signatures.collect (d.entries m.formalTypes {}) []).sorted)
    (hread : f.load text = .ok old) (hold : old.Agree exported)
    (hrule : Config.renameMatch p.config = .ok rule) :
    Yields (diff text g f) p fun δ _ => δ.isEmpty = true := by
  refine yields_diff_iff.2 ⟨old, hread, (yields_signatures_of_enriched he true).mono ?_⟩
  rintro new p' ⟨hp, hnew⟩
  refine ⟨rule, hp ▸ hrule, isEmpty_diff (hold.trans (Signatures.agree_of_bare ?_)) _⟩
  rw [hexported, hnew]

end Publisher

/-- **Snapshots are faithful.** Whatever the format, a snapshot is only written if it is loaded as the
signatures that it holds. If the format reads back what it writes of them, a snapshot is written exactly if
all signatures stand under their names, none of them empty, and otherwise the signatures are refused as
those of no snapshot. Neither order nor nodes matter. So every document that is accepted has a snapshot, and
there is no difference between the two. -/
theorem snapshots_are_faithful (f : Snapshot.Format) {s : Signatures} (hn : (s.map (·.1)).Nodup) :
    (∀ text, f.dump s = .ok text → ∃ found, f.load text = .ok found ∧ (found.map (·.1)).Nodup ∧
      found.Agree s) ∧
    (f.RoundTrips (Snapshot.outlines s) →
      ((∃ text, f.dump s = .ok text) ↔ s.Proper) ∧
        ∀ e, f.dump s = .error e → ∃ d, e.diagnostic? = some d ∧ d.code = "SNAPSHOT_ROUND_TRIP") ∧
    (∀ t, s.bare.Perm t.bare → f.dump t = f.dump s) ∧
    ∀ text strict g₀ p rule, Design.readGraph text strict = .ok g₀ →
      Config.renameMatch p.config = .ok rule →
        Yields (Publisher.build text strict) p fun g q =>
          Yields (Publisher.signatures g {}) q fun exported _ =>
            f.RoundTrips (Snapshot.outlines exported) →
              Yields (Publisher.exportSnapshot g f) q fun snapshot q' =>
                Yields (Publisher.diff snapshot g f) q' fun δ _ => δ.isEmpty = true := by
  refine ⟨fun text h => ?faithful, fun hf => ⟨⟨?proper, ?written⟩, ?refused⟩, ?congr, ?document⟩
  case faithful =>
    obtain ⟨-, found, hfound, hagree⟩ := Snapshot.Format.dump_eq_ok_iff.1 h
    exact ⟨found, hfound, (Snapshot.Format.proper_of_load hfound).nodup, hagree⟩
  case proper =>
    rintro ⟨text, h⟩
    exact Snapshot.Format.proper_of_dump hn h
  case written => exact fun hs => ⟨_, Snapshot.Format.dump_ok hf hs⟩
  case refused => exact fun e => Snapshot.Format.code_of_dump_eq_error hf
  case congr => exact fun t hp => Snapshot.Format.dump_congr hn hp
  case document =>
    intro text strict g₀ p rule hg hrule
    obtain ⟨d, hd, rfl⟩ := Design.exists_of_readGraph hg
    refine (Publisher.yields_build hg).mono ?_
    rintro g q ⟨hconfig, m, he⟩
    refine (Publisher.yields_signatures_of_enriched he false).mono ?_
    rintro exported - ⟨-, hexported⟩ hyaml
    refine (Publisher.yields_exportSnapshot_of_enriched he (Design.named_of_ofText hd) hexported
      hyaml).mono ?_
    rintro snapshot q' ⟨hconfig', old, hread, hagree⟩
    have hrule' : Config.renameMatch q'.config = .ok rule := by rw [hconfig', hconfig, hrule]
    exact Publisher.yields_diff_of_agree he hexported hread hagree hrule'

/-- Two signatures under the names of each other. -/
def swappedSignatures : Signatures := [("t", { name := "w" }), ("w", { name := "t" })]

theorem snapshots_of_other_are_faithful :
    ((Design.otherSignatures.map (·.1)).Nodup ∧
      Snapshot.format.RoundTrips (Snapshot.outlines Design.otherSignatures) ∧
      ∃ text, Snapshot.format.dump Design.otherSignatures = .ok text) ∧
    ((swappedSignatures.map (·.1)).Nodup ∧
      Snapshot.format.RoundTrips (Snapshot.outlines swappedSignatures) ∧
      ¬ ∃ text, Snapshot.format.dump swappedSignatures = .ok text) ∧
    Design.readGraph Design.otherText true = .ok Design.other.graph ∧
      Yields (Publisher.build Design.otherText true) (.make .null "python" []) fun g q =>
        Yields (Publisher.exportSnapshot g) q fun snapshot q' =>
          Yields (Publisher.diff snapshot g) q' fun δ _ => δ.isEmpty = true := by
  have hn : (Design.otherSignatures.map (·.1)).Nodup := by decide
  have hyaml : Snapshot.format.RoundTrips (Snapshot.outlines Design.otherSignatures) :=
    Design.signatures_other ▸ Design.roundTrips_other
  have hn' : (swappedSignatures.map (·.1)).Nodup := by decide
  have hyaml' : Snapshot.format.RoundTrips (Snapshot.outlines swappedSignatures) := by decide +kernel
  have hg : Design.readGraph Design.otherText true = .ok Design.other.graph :=
    Design.readGraph_eq_ok.2 ⟨_, Design.ofText_other, fun _ => by decide, rfl⟩
  obtain ⟨-, hexact, -, hdocument⟩ := snapshots_are_faithful Snapshot.format hn
  obtain ⟨-, hexact', -, -⟩ := snapshots_are_faithful Snapshot.format hn'
  refine ⟨⟨hn, hyaml, (hexact hyaml).1.2 ?proper⟩, ⟨hn', hyaml', ?swapped⟩, hg, ?document⟩
  case proper =>
    exact Design.signatures_other ▸ Design.proper_signatures (Design.named_of_ofText Design.ofText_other)
  case swapped =>
    intro h
    exact absurd (((hexact' hyaml').1.1 h).keys _ List.mem_cons_self) (by decide)
  case document =>
    obtain ⟨g, q, hbuild, exported, q₁, hexport, h⟩ :=
      hdocument _ true _ (.make .null "python" []) .shapeAndBody hg rfl
    refine ⟨g, q, hbuild, h ?_⟩
    have hplain : Design.other.Unsaid := by
      intro key value hm
      simp [Design.steps, Design.other, Design.sampleWord] at hm
    obtain ⟨-, m, he⟩ := (Publisher.yields_of_run hbuild).1 (Publisher.yields_build hg)
    have hbare := ((Publisher.yields_of_run hexport).1
      (Publisher.yields_signatures he hplain false)).2
    rw [← Snapshot.outlines_bare, hbare]
    exact Design.roundTrips_other

end Actionbook
