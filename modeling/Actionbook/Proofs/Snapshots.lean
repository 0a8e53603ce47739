import Actionbook.Proofs.Signatures
import Actionbook.Proofs.Sorting
import Actionbook.Snapshot

/-!
# Snapshots are read back

A format that reads back the data it writes (`Format.RoundTrips`) makes a codec of signatures: what
`Format.dump` writes is read back in the order of the names, apart from the nodes (`Format.load_write`),
and it refuses nothing if all signatures stand under their names and no name is empty
(`Format.dump_ok`).
-/

namespace Actionbook

/-! ## Signatures by name -/

theorem lookup_mapValues {α β : Type} (f : α → β) (l : List (String × α)) (k : String) :
    (l.map fun e => (e.1, f e.2)).lookup k = (l.lookup k).map f := by
  rw [lookup_map (β := β) (·.1) (fun e => f e.2) l k]
  have hl := lookup_map (·.1) (·.2) l k
  rw [show (l.map fun e => (e.1, e.2)) = l from List.map_id l] at hl
  rw [hl, Option.map_map]
  rfl

namespace Signature

@[simp] theorem bare_bare (s : Signature) : s.bare.bare = s.bare := rfl

theorem bare_sameAs (s : Signature) : s.bare.sameAs s = true := by
  rw [sameAs, bare_bare, beq_self_eq_true]

/-- A signature whose names are not empty. -/
structure Named (s : Signature) : Prop where
  name : s.name ≠ ""
  parameters : ∀ p ∈ s.parameters, p.name ≠ ""

end Signature

namespace Signatures

variable {s : Signatures}

/-- Signatures without the nodes they come from. -/
def bare (s : Signatures) : Signatures := s.map fun e => (e.1, e.2.bare)

/-- Signatures that stand under their names, each name once and none of them empty. -/
structure Proper (s : Signatures) : Prop where
  keys : ∀ e ∈ s, e.1 = e.2.name
  named : ∀ e ∈ s, e.2.Named
  nodup : (s.map (·.1)).Nodup

theorem sorted_perm (s : Signatures) : s.sorted.Perm s := sortBy_perm _ _

theorem sorted_sorted (s : Signatures) : s.sorted.Pairwise fun a b => textLe a.1 b.1 :=
  sortBy_key_sorted Prod.fst s

theorem sorted_bare (s : Signatures) : s.bare.sorted = s.sorted.bare :=
  sortBy_map (fun _ _ => rfl) s

theorem lookup_bare (s : Signatures) (k : String) : s.bare.lookup k = (s.lookup k).map (·.bare) :=
  lookup_mapValues Signature.bare s k

theorem lookup_sorted (hn : (s.map (·.1)).Nodup) (k : String) : s.sorted.lookup k = s.lookup k :=
  lookup_perm s.sorted_perm ((s.sorted_perm.map _).nodup_iff.2 hn) k

/-- What is collected has been there. -/
theorem mem_of_mem_collect {l : List (String × Signature)} {known : Signatures}
    {e : String × Signature} (he : e ∈ collect l known) : e ∈ known ++ l := by
  induction l generalizing known with
  | nil => simpa [collect] using he
  | cons a l ih =>
    rw [collect, List.foldl_cons, ← collect] at he
    have h := ih he
    split at h
    · exact List.mem_append.2 ((List.mem_append.1 h).imp_right (List.mem_cons_of_mem _))
    · simpa using h

theorem bare_collect (l : List (String × Signature)) (known : Signatures) :
    (collect l known).bare = collect (bare l) known.bare := by
  induction l generalizing known with
  | nil => rfl
  | cons a l ih =>
    have hknown : (known.bare.lookup a.1).isSome = (known.lookup a.1).isSome := by
      rw [lookup_bare, Option.isSome_map]
    have hbare : bare (a :: l) = (a.1, a.2.bare) :: bare l := rfl
    have happend : (known ++ [a]).bare = known.bare ++ [(a.1, a.2.bare)] := List.map_append
    rw [hbare, collect, collect, List.foldl_cons, List.foldl_cons, ← collect, ← collect, ih, hknown]
    split
    · rfl
    · rw [happend]

theorem Proper.sorted (hs : s.Proper) : s.sorted.Proper where
  keys := fun e he => hs.keys e (s.sorted_perm.subset he)
  named := fun e he => hs.named e (s.sorted_perm.subset he)
  nodup := (s.sorted_perm.map _).nodup_iff.2 hs.nodup

theorem names_bare (s : Signatures) : s.bare.map (·.1) = s.map (·.1) := by
  rw [bare, List.map_map]
  rfl

/-- Nodes do not count. -/
theorem proper_of_bare (hs : s.bare.Proper) : s.Proper := by
  have hmem : ∀ e ∈ s, (e.1, e.2.bare) ∈ s.bare := fun e he => List.mem_map_of_mem he
  exact {
    keys := fun e he => hs.keys (e.1, e.2.bare) (hmem e he)
    named := fun e he => ⟨(hs.named _ (hmem e he)).name, (hs.named _ (hmem e he)).parameters⟩
    nodup := s.names_bare ▸ hs.nodup }

end Signatures

/-! ## Data of outlines -/

namespace Outline

mutual

/-- Whether data is that of an outline. -/
def isData : Outline → Data → Bool
  | .null, .null => true
  | .text s, .text t => t == s
  | .list l, .list items => areItems l items
  | .record l, .mapping entries => areEntries l entries
  | _, _ => false

def areItems : List Outline → List Data → Bool
  | [], [] => true
  | o :: l, v :: items => o.isData v && areItems l items
  | _, _ => false

def areEntries : List (String × Outline) → List (Data × Data) → Bool
  | [], [] => true
  | (name, o) :: l, (.text key, v) :: entries => key == name && o.isData v && areEntries l entries
  | _, _ => false

end

mutual

theorem isData_iff (o : Outline) (v : Data) : o.isData v = true ↔ v = o.data := by
  cases o with
  | null => cases v <;> simp [isData, data]
  | text s => cases v <;> simp [isData, data]
  | list l => cases v <;> simp [isData, data, areItems_iff l]
  | record l => cases v <;> simp [isData, data, areEntries_iff l]

theorem areItems_iff (l : List Outline) (items : List Data) :
    areItems l items = true ↔ items = l.map data := by
  cases l with
  | nil => cases items <;> simp [areItems]
  | cons o l => cases items <;> simp [areItems, isData_iff o, areItems_iff l]

theorem areEntries_iff (l : List (String × Outline)) (entries : List (Data × Data)) :
    areEntries l entries = true ↔ entries = fieldsData l := by
  cases l with
  | nil => cases entries <;> simp [areEntries, fieldsData]
  | cons f l =>
    obtain ⟨name, o⟩ := f
    cases entries with
    | nil => simp [areEntries, fieldsData]
    | cons e entries =>
      obtain ⟨key, v⟩ := e
      cases key <;> simp [areEntries, fieldsData, isData_iff o, areEntries_iff l, and_assoc]

end

end Outline

/-! ## Reading what is written -/

@[simp] theorem optionalText_ofText? {entries : List (Data × Data)} {field : String}
    {t : Option String} (h : Data.field? entries field = some (.ofText? t)) :
    optionalText entries field = .ok t := by
  cases t <;> simp [optionalText, h, Data.ofText?]

theorem requiredText_ok {entries : List (Data × Data)} {field t : String} (ht : t ≠ "")
    (h : Data.field? entries field = some (.text t)) : requiredText entries field = .ok t := by
  simp [requiredText, h, ht]

theorem ParameterSignature.ofData_outline {p : ParameterSignature} (hp : p.name ≠ "") :
    ParameterSignature.ofData p.outline.data = .ok p := by
  simp only [outline, Outline.data, Outline.fieldsData, Outline.data_ofText?, ofData]
  rw [requiredText_ok hp (by rfl), optionalText_ofText? (t := p.default) (by rfl)]
  rfl

theorem Signature.ofData_outline {s : Signature} (hs : s.Named) :
    Signature.ofData s.outline.data = .ok s.bare := by
  have hparameters : (s.parameters.map (Outline.data ∘ ParameterSignature.outline)).mapM
      ParameterSignature.ofData = .ok s.parameters := by
    rw [List.mapM_map]
    refine (mapM_ok fun p hp => ?_).trans (congrArg Except.ok (List.map_id _))
    exact ParameterSignature.ofData_outline (hs.parameters p hp)
  have hlist : ∀ entries l, Data.field? entries "parameters" = some (.list l) →
      parameterData entries = .ok l := by
    intro entries l h
    cases l <;> simp [parameterData, h, Data.isGiven]
  simp only [outline, Outline.data, Outline.fieldsData, Outline.data_ofText?,
    Outline.itemsData_eq_map, List.map_map, ofData]
  rw [hlist _ _ (by rfl), requiredText_ok hs.name (by rfl),
    optionalText_ofText? (t := s.uid) (by rfl), optionalText_ofText? (t := s.bodyHash) (by rfl)]
  simp only [bind, Except.bind]
  rw [hparameters]
  rfl

namespace Snapshot

theorem readEntries_ok {l : List Signature} (position : Nat) {known : Signatures}
    (hl : ∀ s ∈ l, s.Named) (hn : (known.map (·.1) ++ l.map (·.name)).Nodup) :
    readEntries position known (l.map fun s => s.outline.data) =
      .ok (known ++ l.map fun s => (s.name, s.bare)) := by
  induction l generalizing position known with
  | nil => simp [readEntries]
  | cons s l ih =>
    have hnew : known.lookup s.name = none := by
      rw [lookup_eq_none_iff_not_mem]
      exact fun hm => (List.nodup_append.1 hn).2.2 s.name hm s.name (by simp) rfl
    rw [List.map_cons, readEntries, Signature.ofData_outline (hl s List.mem_cons_self)]
    simp only [Signature.bare, hnew, Option.isSome_none, Bool.false_eq_true, if_false]
    rw [ih _ (fun t ht => hl t (List.mem_cons_of_mem _ ht)) (by simpa using hn)]
    simp [Signature.bare]

theorem outlines_bare (s : Signatures) : outlines s.bare = outlines s := by
  rw [outlines, outlines, Signatures.sorted_bare, Signatures.bare, List.map_map]
  rfl

/-- Nodes make no difference. -/
theorem differences_bare (found s : Signatures) : differences found s.bare = differences found s := by
  have hagree : ∀ name, agreeOn found s.bare name = agreeOn found s name := fun name => by
    rw [agreeOn, agreeOn, Signatures.lookup_bare]
    cases found.lookup name <;> cases s.lookup name <;> rfl
  rw [differences, differences, List.map_append, List.map_append, Signatures.names_bare]
  simp only [hagree]

namespace Format

variable {f : Format} {s : Signatures}

theorem dump_bare (f : Format) (s : Signatures) : f.dump s.bare = f.dump s := by
  simp only [dump, outlines_bare, differences_bare]

/-- What is written of outlines is read back as their data. -/
def RoundTrips (f : Format) (l : List Outline) : Prop :=
  f.read (f.write l) = .ok (.list (l.map Outline.data))

instance (f : Format) (l : List Outline) : Decidable (f.RoundTrips l) :=
  match h : f.read (f.write l) with
  | .ok (.list items) => decidable_of_iff (Outline.areItems l items = true) (by
      rw [RoundTrips, h, Outline.areItems_iff, Except.ok.injEq, Data.list.injEq])
  | .ok .null | .ok (.boolean _) | .ok (.integer _) | .ok (.float _) | .ok (.text _)
  | .ok (.bytes _) | .ok (.date _) | .ok (.moment _) | .ok (.pair _ _) | .ok (.set _)
  | .ok (.mapping _) | .error _ => isFalse (by simp [RoundTrips, h])

/-- Signatures are read back as they are, in the order of their names, but without their nodes. -/
theorem load_write (hf : f.RoundTrips (outlines s)) (hs : s.Proper) :
    f.load (f.write (outlines s)) = .ok s.sorted.bare := by
  have hp := hs.sorted
  have hkeys : s.sorted.map (·.2.name) = s.sorted.map (·.1) :=
    List.map_congr_left fun e he => (hp.keys e he).symm
  have hnamed : ∀ t ∈ s.sorted.map (·.2), t.Named := by
    intro t ht
    obtain ⟨e, he, rfl⟩ := List.mem_map.1 ht
    exact hp.named e he
  have hnodup : (([] : Signatures).map (·.1) ++ (s.sorted.map (·.2)).map (·.name)).Nodup := by
    rw [List.map_map]
    exact hkeys ▸ hp.nodup
  have hentries := readEntries_ok 0 hnamed hnodup
  have hbare : (s.sorted.map (·.2)).map (fun t => (t.name, t.bare)) = s.sorted.bare := by
    rw [List.map_map, Signatures.bare]
    exact List.map_congr_left fun e he => Prod.ext (hp.keys e he).symm rfl
  have hdata : (outlines s).map Outline.data = (s.sorted.map (·.2)).map fun t => t.outline.data := by
    simp [outlines]
  rw [load, hf]
  simp only [ofData, hdata, hentries, hbare, List.nil_append]

/-- Nothing is different from what it is read back as. -/
theorem differences_sorted_bare (hn : (s.map (·.1)).Nodup) : differences s.sorted.bare s = [] := by
  have hagree : ∀ name, agreeOn s.sorted.bare s name = true := by
    intro name
    rw [agreeOn, Signatures.lookup_bare, Signatures.lookup_sorted hn]
    cases s.lookup name with
    | none => rfl
    | some t => exact t.bare_sameAs
  have hnone : ∀ l : List String, l.filter (fun n => !agreeOn s.sorted.bare s n) = [] := fun l =>
    List.filter_eq_nil_iff.2 fun n _ => by simp [hagree n]
  rw [differences, hnone]
  rfl

/-- **A format that reads back what it writes refuses no proper signatures.** -/
theorem dump_ok (hf : f.RoundTrips (outlines s)) (hs : s.Proper) :
    f.dump s = .ok (f.write (outlines s)) := by
  simp only [dump, load_write hf hs, differences_sorted_bare hs.nodup]
  rfl

end Format

end Snapshot

end Actionbook
