import Actionbook.Proofs.Sentences
import Actionbook.Signature.Export

/-!
# Signatures of enriched graphs

The signature of an action word is made from its definition as it was written and the names of the
parameters of the words that it calls (`WrittenDefinition.signature`).

* `ensures_exportSignatures`: what is exported after a run.
* `reenrichment_keeps_fingerprints`: further runs change no fingerprint.
* `signature_is_local`: what else stands in a document does not matter.
-/

namespace Actionbook

open Work (Ensures)

/-! ## Collecting signatures -/

/-- The first signature of every name, after those known so far. -/
def Signatures.collect (l : List (String × Signature)) (known : Signatures) : Signatures :=
  l.foldl (fun known e => if (known.lookup e.1).isSome then known else known ++ [e]) known

theorem lookup_eq_none_iff_not_mem {α β : Type} [DecidableEq α] {l : List (α × β)} {k : α} :
    l.lookup k = none ↔ k ∉ l.map (·.1) := by
  rw [List.lookup_eq_none_iff, List.mem_map]
  constructor
  · rintro h ⟨e, he, rfl⟩
    simpa using h e he
  · intro h e he
    have : k ≠ e.1 := fun heq => h ⟨e, he, heq.symm⟩
    simpa using this

theorem lookup_map {α β : Type} (key : α → String) (f : α → β) (l : List α) (k : String) :
    (l.map fun a => (key a, f a)).lookup k = (l.find? (key · == k)).map f := by
  induction l with
  | nil => rfl
  | cons a l ih =>
    rw [List.map_cons, List.lookup_cons, List.find?_cons, ih]
    by_cases hk : key a = k
    · simp [hk]
    · have h1 : (key a == k) = false := by simpa using hk
      have h2 : (k == key a) = false := by simpa using Ne.symm hk
      simp [h1, h2]

theorem lookup_perm {β : Type} {l l' : List (String × β)} (hp : l.Perm l') (hn : (l.map (·.1)).Nodup)
    (k : String) : l.lookup k = l'.lookup k := by
  have hn' : (l'.map (·.1)).Nodup := (hp.map _).nodup_iff.1 hn
  cases hl : l.lookup k with
  | some b =>
    exact (lookup_of_nodup hn' (hp.subset (mem_of_lookup hl))).symm
  | none =>
    rw [lookup_eq_none_iff_not_mem] at hl
    refine (lookup_eq_none_iff_not_mem.2 fun hm => hl ?_).symm
    exact (hp.map _).symm.subset hm

namespace Signatures

theorem lookup_collect (l : List (String × Signature)) (known : Signatures) (k : String) :
    (collect l known).lookup k = (known.lookup k).or (l.lookup k) := by
  have hl : l.map (fun e => (e.1, e.2)) = l := List.map_id l
  rw [collect, Graph.lookup_foldl_first (·.1) (·.2) l known k, ← lookup_map, hl]

theorem nodup_collect (l : List (String × Signature)) {known : Signatures}
    (hn : (known.map (·.1)).Nodup) : ((collect l known).map (·.1)).Nodup := by
  induction l generalizing known with
  | nil => exact hn
  | cons e l ih =>
    rw [collect, List.foldl_cons, ← collect]
    refine ih ?_
    split
    · exact hn
    · rename_i hnew
      have hnot := lookup_eq_none_iff_not_mem.1 (Option.not_isSome_iff_eq_none.1 hnew)
      rw [List.map_append, List.map_singleton]
      exact List.Nodup.append hn (List.nodup_singleton _) (List.disjoint_singleton.2 hnot)

/-- Putting signatures in order does not change what is found under a name. -/
theorem lookup_sorted_collect (l : List (String × Signature)) (k : String) :
    (collect l []).sorted.lookup k = l.lookup k := by
  have hperm : (collect l []).sorted.Perm (collect l []) := sortBy_perm _ _
  rw [lookup_perm hperm ((hperm.map _).nodup_iff.2 (nodup_collect l List.nodup_nil)),
    lookup_collect]
  rfl

end Signatures

/-! ## What is exported -/

/-- The signature of an action word with a handle, by its definition as it was written and the names
of the parameters of action words. -/
def WrittenDefinition.signature (names : String → List String) (options : ExportOptions) (h : Handle)
    (d : WrittenDefinition) : Signature where
  name := d.name
  parameters := d.parameters.map fun p => ⟨p.name, p.default.map Value.source⟩
  uid := d.uid
  bodyHash := if options.withBody then some (fingerprint (canonicalBody names d.steps)) else none
  node := if options.attachNodes then some h else none

theorem ensures_exportFrom {options : ExportOptions} {g : Graph} {r : Report}
    {words : List (Handle × ActionWord)} {known : Signatures} {sig : Handle × ActionWord → Signature}
    (h : ∀ w ∈ words, g.signatureOf options w.1 w.2 = .ok (sig w)) :
    Ensures (exportFrom options words known) ⟨g, r⟩ fun result _ =>
      result = Signatures.collect (words.map fun w => (w.2.name, sig w)) known := by
  induction words generalizing known r with
  | nil => exact Work.ensures_pure.2 rfl
  | cons w words ih =>
    have hrest : ∀ w' ∈ words, g.signatureOf options w'.1 w'.2 = .ok (sig w') := fun w' hw' =>
      h w' (List.mem_cons_of_mem _ hw')
    unfold exportFrom Signatures.collect
    rw [List.map_cons, List.foldl_cons]
    by_cases hin : (known.lookup w.2.name).isSome
    · simp only [hin, if_true, Work.ensures_bind, Work.ensures_warn]
      exact ih hrest
    · simp only [hin, if_false, Work.ensures_bind, Work.ensures_read, Bool.false_eq_true]
      exact ⟨sig w, h w List.mem_cons_self, ih hrest⟩

namespace Graph

variable {g g' : Graph} {h k : Handle} {r : Report} {d : Definition} {w : WrittenDefinition}

theorem written?_eq_some : g.written? d = some w ↔ d.steps.map g.saying = w.steps.map some ∧
    w = { name := d.name, uid := d.uid, description := d.description, tags := d.tags,
          parameters := (gather g.parameter? d.parameters).map (·.2.written), steps := w.steps } := by
  rw [written?, Option.map_eq_some_iff]
  constructor
  · rintro ⟨steps, hsteps, rfl⟩
    exact ⟨mapM_eq_some.1 hsteps, rfl⟩
  · rintro ⟨hsteps, hw⟩
    exact ⟨w.steps, mapM_eq_some.2 hsteps, hw.symm⟩

theorem Sound.exists_written (hs : g.Sound) (hd : g.definition? k = some d) :
    ∃ w, g.written? d = some w := by
  have hsay : ∀ l : List Handle, (∀ h ∈ l, g.IsStep h) → ∃ l', l.mapM g.saying = some l' := by
    intro l hl
    induction l with
    | nil => exact ⟨[], rfl⟩
    | cons h l ih =>
      obtain ⟨σ, hσ⟩ := Graph.exists_step (hl h List.mem_cons_self)
      obtain ⟨l', hl'⟩ := ih fun h' hh' => hl h' (List.mem_cons_of_mem _ hh')
      have hh : g.saying h = some σ.saying := by rw [saying, hσ]; rfl
      exact ⟨σ.saying :: l', by rw [List.mapM_cons, hh, hl']; rfl⟩
  obtain ⟨steps, hsteps⟩ := hsay d.steps (hs.definition_fits hd).2
  exact ⟨_, by rw [written?, hsteps]; rfl⟩

theorem writtenParameters_congr (hf : g'.fixed = g.fixed) (l : List Handle) :
    (gather g'.parameter? l).map (·.2.written) = (gather g.parameter? l).map (·.2.written) := by
  have hp := congrArg (List.map Prod.snd) (gather_parameter_congr hf l)
  rwa [List.map_map, List.map_map] at hp

/-- A definition stays as it was written if its steps do. -/
theorem written?_congr (hf : g'.fixed = g.fixed) (hsay : ∀ h ∈ d.steps, g'.saying h = g.saying h) :
    g'.written? d = g.written? d := by
  have hsteps : ∀ l, d.steps.mapM g'.saying = some l ↔ d.steps.mapM g.saying = some l := fun l => by
    rw [mapM_eq_some, mapM_eq_some, List.map_congr_left hsay]
  rw [written?, written?, Option.ext hsteps, writtenParameters_congr hf]

/-- **What a definition says after a run** is what it was written to say, with its sentences spoken
out. -/
theorem Enriched.written? {m : Graph} (he : g.Enriched m g') (hd : g.definition? k = some d)
    (hw : g.written? d = some w) :
    g'.written? d = some (w.spoken (g.words.map (·.2.name)) g.formalNames m.formalTypes) := by
  obtain ⟨hsteps, hw⟩ := written?_eq_some.1 hw
  refine written?_eq_some.2 ⟨?steps, ?rest⟩
  case steps => exact he.map_saying hd hsteps
  case rest =>
    rw [writtenParameters_congr he.follows.fixed, WrittenDefinition.spoken, hw]

/-- The signature of an action word by its definition as it was written. -/
def signature (g : Graph) (options : ExportOptions) (h : Handle) (d : Definition) : Signature :=
  ((g.written? d).map (·.signature g.formalNames options h)).getD { name := d.name }

theorem signature_eq (options : ExportOptions) (h : Handle) (hw : g.written? d = some w) :
    g.signature options h d = w.signature g.formalNames options h := by
  rw [signature, hw]
  rfl

theorem signatureOf_ok (hs : g.Sound) (ht : g.Told) (options : ExportOptions) {word : ActionWord}
    (hd : g.definition? h = some word.toDefinition) (hw : g.written? word.toDefinition = some w) :
    g.signatureOf options h word = .ok (w.signature g.formalNames options h) := by
  obtain ⟨hsteps, hw⟩ := written?_eq_some.1 hw
  have hbody := canonicalSteps_ok hs ht hd hsteps
  have hformals : (g.formals h).map (fun p => ParameterSignature.mk p.2.name
      (p.2.default.map Value.source)) = w.parameters.map fun p =>
        ⟨p.name, p.default.map Value.source⟩ := by
    rw [hw, formals_eq hd, List.map_map]
    rfl
  unfold signatureOf WrittenDefinition.signature
  rw [hs.parametersAt_ok hd]
  by_cases hb : options.withBody
  · simp only [hb, if_true, hbody, hformals, bind, Except.bind, Functor.map, Except.map]
    rw [hw]
    rfl
  · simp only [hb, if_false, hformals, bind, Except.bind, Bool.false_eq_true]
    rw [hw]
    rfl

/-- What is exported of a graph, before it is put in order. -/
def entries (g : Graph) (options : ExportOptions) : List (String × Signature) :=
  g.words.map fun w => (w.2.name, g.signature options w.1 w.2.toDefinition)

theorem signatureOf_words (hs : g.Sound) (ht : g.Told) (options : ExportOptions) :
    ∀ w ∈ g.words, g.signatureOf options w.1 w.2 = .ok (g.signature options w.1 w.2.toDefinition) := by
  intro w hw
  have hd := definition?_of_actionWord? (mem_words hw)
  obtain ⟨d, hwritten⟩ := hs.exists_written hd
  rw [signatureOf_ok hs ht options hd hwritten, signature_eq options w.1 hwritten]

theorem ensures_exportSignatures (hs : g.Sound) (ht : g.Told) (options : ExportOptions) :
    Ensures (exportSignatures options) ⟨g, r⟩ fun result _ =>
      result = (Signatures.collect (g.entries options) []).sorted := by
  simp only [exportSignatures, Work.ensures_bind, Work.ensures_read, Work.ensures_pure]
  refine ⟨g.words, hs.actionWords_ok, ?_⟩
  exact (ensures_exportFrom (signatureOf_words hs ht options)).mono fun result _ hresult => by
    rw [hresult, entries]

theorem entries_congr (hf : g.Follows g') (options : ExportOptions)
    (hsay : ∀ k d h, g.definition? k = some d → h ∈ d.steps → g'.saying h = g.saying h) :
    g'.entries options = g.entries options := by
  have e : ∀ x : Graph, x.entries options = (x.words.map fun w => (w.1, w.2.toDefinition)).map
      fun e => (e.2.name, x.signature options e.1 e.2) := by
    intro x
    rw [entries, List.map_map]
    rfl
  rw [e, e, words_congr hf.root hf.fixed]
  refine List.map_congr_left fun e he => ?_
  obtain ⟨w, hw, rfl⟩ := List.mem_map.1 he
  have hd := definition?_of_actionWord? (mem_words hw)
  rw [signature, signature, written?_congr hf.fixed fun h hh => hsay w.1 _ h hd hh,
    formalNames_congr hf.root hf.fixed]

end Graph

/-! ## Further runs -/

/-- Two states of a workspace have the same bodies and the same signatures. -/
structure Workspace.SaysTheSame (s t : Workspace) : Prop where
  definitions : ∀ h, t.graph.definition? h = s.graph.definition? h
  bodies : ∀ h d, s.graph.definition? h = some d → ∃ body,
    s.graph.canonicalSteps d.steps = .ok body ∧ t.graph.canonicalSteps d.steps = .ok body
  signatures : ∀ options, ∃ signatures,
    Ensures (exportSignatures options) s (fun result _ => result = signatures) ∧
    Ensures (exportSignatures options) t fun result _ => result = signatures

theorem Graph.Follows.saysTheSame {g g' : Graph} {r r' : Report} (hf : g.Follows g') (hs : g.Sound)
    (ht : g.Told) (ht' : g'.Told)
    (hsay : ∀ k d h, g.definition? k = some d → h ∈ d.steps → g'.saying h = g.saying h) :
    Workspace.SaysTheSame ⟨g, r⟩ ⟨g', r'⟩ where
  definitions := hf.definition?
  bodies := by
    intro h d hd
    obtain ⟨w, hw⟩ := hs.exists_written hd
    obtain ⟨hsteps, -⟩ := Graph.written?_eq_some.1 hw
    refine ⟨_, Graph.canonicalSteps_ok hs ht hd hsteps, ?_⟩
    rw [← Graph.formalNames_congr hf.root hf.fixed]
    refine Graph.canonicalSteps_ok hf.sound ht' ((hf.definition? h).trans hd) ?_
    rw [← hsteps]
    exact List.map_congr_left fun k hk => hsay h d k hd hk
  signatures := by
    intro options
    refine ⟨_, Graph.ensures_exportSignatures hs ht options, ?_⟩
    rw [← Graph.entries_congr hf options hsay]
    exact Graph.ensures_exportSignatures hf.sound ht' options

/-- **Enriching a graph again moves no fingerprint**: after any number of runs all bodies and all
signatures are what they are after one run. -/
theorem reenrichment_keeps_fingerprints {text : String} {strict : Bool} {g : Graph}
    (hg : Design.readGraph text strict = .ok g) (r : Report) {n : Nat} (hn : 1 ≤ n) :
    Ensures (enrichTimes 1) ⟨g, r⟩ fun _ once =>
      Ensures (enrichTimes n) ⟨g, r⟩ fun _ often => once.SaysTheSame often := by
  obtain ⟨design, -, rfl⟩ := Design.exists_of_readGraph hg
  obtain ⟨n, rfl⟩ := Nat.exists_eq_add_of_le' hn
  obtain ⟨warnings, ⟨g₁, r₁⟩, hrun, m, he⟩ := Graph.ensures_enrich (r := r) design.graph_sound
  have ht := Design.told he
  have hs₁ := he.after.sound
  simp only [enrichTimes, Work.ensures_bind, Work.ensures_pure, Work.ensures_of_run hrun]
  -- what the first run has brought about is kept by every further one
  refine (Graph.ensures_enrichTimes (fun g' => g₁.Follows g' ∧ g'.Told ∧ g'.Quiet ∧
      ∀ k d h, g₁.definition? k = some d → h ∈ d.steps → g'.saying h = g₁.saying h) hs₁
    ⟨.refl hs₁, ht, he.quiet, fun _ _ _ _ _ => rfl⟩ ?_ n).mono ?_
  · rintro g' g'' m' hs' ⟨hf', ht', hq', hsay'⟩ he'
    refine ⟨hf'.trans he'.follows, he'.told hs' ht'.allLayered, he'.quiet, fun k d h hd hh => ?_⟩
    rw [he'.saying ((hf'.definition? k).trans hd) hh (hq' h), hsay' k d h hd hh]
  · rintro - ⟨g', r'⟩ ⟨-, hf, ht', -, hsay⟩
    exact hf.saysTheSame hs₁ ht ht' hsay

theorem reenrichment_of_sample :
    Design.readGraph Design.sampleText true = .ok Design.sample.graph ∧ 1 ≤ 3 ∧
    Ensures (enrichTimes 1) ⟨Design.sample.graph, {}⟩ fun _ once =>
      Ensures (enrichTimes 3) ⟨Design.sample.graph, {}⟩ fun _ often => once.SaysTheSame often :=
  ⟨Design.readGraph_sample, by decide,
    reenrichment_keeps_fingerprints Design.readGraph_sample {} (by decide)⟩

/-! ## Locality -/

namespace Design

variable {d : Design} {a : WrittenDefinition} {name : String}

/-- The names of the parameters of the first declared action word of a name. -/
def parameterNames? (d : Design) (name : String) : Option (List String) :=
  (d.actionWords.find? (·.name == name)).map fun a => a.parameters.map (·.name)

/-- Going through the action words of a design and of its graph side by side. -/
theorem find?_words {words : List (Handle × ActionWord)} {l : List WrittenDefinition} {g : Graph}
    (h : words.map (fun w => g.written? w.2.toDefinition) = l.map some) (name : String) :
    (words.find? (·.2.name == name)).map (fun w => g.written? w.2.toDefinition) =
      (l.find? (·.name == name)).map some := by
  induction words generalizing l with
  | nil => cases l with
    | nil => rfl
    | cons a l => cases h
  | cons w words ih =>
    cases l with
    | nil => cases h
    | cons a l =>
      simp only [List.map_cons, List.cons.injEq] at h
      have hname : a.name = w.2.name := by rw [(Graph.written?_eq_some.1 h.1).2]
      rw [List.find?_cons, List.find?_cons, hname]
      by_cases hn : w.2.name = name
      · simp [hn, h.1]
      · have hne : (w.2.name == name) = false := by simpa using hn
        simp only [hne]
        exact ih h.2

/-- The first declared action word of a name, in the graph. -/
theorem exists_word (ha : d.actionWords.find? (·.name == name) = some a) :
    ∃ w, d.graph.words.find? (·.2.name == name) = some w ∧
      d.graph.written? w.2.toDefinition = some a := by
  have h := find?_words d.written_words name
  rw [ha, Option.map_some, Option.map_eq_some_iff] at h
  exact h

theorem formalNames_graph (d : Design) (name : String) :
    d.graph.formalNames name = (d.parameterNames? name).getD [] := by
  have h := find?_words d.written_words name
  unfold Graph.formalNames Graph.formalsOf Graph.target? parameterNames?
  cases hw : d.graph.words.find? (·.2.name == name) with
  | none =>
    rw [hw, Option.map_none, eq_comm, Option.map_eq_none_iff] at h
    rw [h]
    rfl
  | some w =>
    rw [hw, Option.map_some, eq_comm, Option.map_eq_some_iff] at h
    obtain ⟨a, ha, hwritten⟩ := h
    have hd := Graph.definition?_of_actionWord? (Graph.mem_words (List.mem_of_find?_eq_some hw))
    rw [ha]
    show (d.graph.formals w.1).map (·.2.name) = a.parameters.map (·.name)
    rw [(Graph.written?_eq_some.1 hwritten.symm).2, Graph.formals_eq hd, List.map_map]
    rfl

/-- After a run, the definition of an action word whose steps are no sentences still reads as it was
written. -/
theorem written?_of_enriched {g' m : Graph} {w : Handle × ActionWord} (he : d.graph.Enriched m g')
    (hw : w ∈ d.graph.words) (hwritten : d.graph.written? w.2.toDefinition = some a)
    (hplain : ∀ key value, .plain key value ∈ a.steps → sentenceKeywords.contains key = false) :
    g'.written? w.2.toDefinition = some a := by
  have hd := Graph.definition?_of_actionWord? (Graph.mem_words hw)
  rw [he.written? hd hwritten, WrittenDefinition.spoken_eq_self hplain]

/-- The signature of an action word whose steps are no sentences, after a run: it is made from the
definition as it was written. -/
theorem lookup_entries {g' m : Graph} (he : d.graph.Enriched m g')
    (ha : d.actionWords.find? (·.name == name) = some a)
    (hplain : ∀ key value, .plain key value ∈ a.steps → sentenceKeywords.contains key = false)
    (options : ExportOptions) : ∃ h, (g'.entries options).lookup name =
      some (a.signature d.graph.formalNames options h) := by
  obtain ⟨w, hw, hwritten⟩ := exists_word ha
  have hf := he.follows
  have hfind : (g'.words.map fun w => (w.1, w.2.toDefinition)).find? (·.2.name == name) =
      some (w.1, w.2.toDefinition) := by
    rw [Graph.words_congr hf.root hf.fixed, List.find?_map]
    exact congrArg (Option.map fun w => (w.1, w.2.toDefinition)) hw
  rw [List.find?_map, Option.map_eq_some_iff] at hfind
  obtain ⟨w', hw', heq⟩ := hfind
  have hwritten' : g'.written? w'.2.toDefinition = some a := by
    have hdef : w'.2.toDefinition = w.2.toDefinition := congrArg Prod.snd heq
    rw [hdef]
    exact written?_of_enriched he (List.mem_of_find?_eq_some hw) hwritten hplain
  refine ⟨w'.1, ?_⟩
  rw [Graph.entries, lookup_map, ← Graph.formalNames_congr hf.root hf.fixed,
    ← Graph.signature_eq options w'.1 hwritten']
  exact congrArg (Option.map fun w => g'.signature options w.1 w.2.toDefinition) hw'

end Design

/-- **The signature of an action word is local.** Two documents have the same first declaration of an
action word, with no sentences in its body, and for every word that is called there the same names of
parameters. Then they give it the same signature, whatever else stands in them. -/
theorem signature_is_local {text₁ text₂ : String} {strict₁ strict₂ : Bool} {d₁ d₂ : Design}
    {g₁ g₂ : Graph} {name : String} {a : WrittenDefinition}
    (ht₁ : Design.ofText text₁ = .ok d₁) (hg₁ : Design.readGraph text₁ strict₁ = .ok g₁)
    (ht₂ : Design.ofText text₂ = .ok d₂) (hg₂ : Design.readGraph text₂ strict₂ = .ok g₂)
    (ha₁ : d₁.actionWords.find? (·.name == name) = some a)
    (ha₂ : d₂.actionWords.find? (·.name == name) = some a)
    (hplain : ∀ key value, .plain key value ∈ a.steps → sentenceKeywords.contains key = false)
    (hcalled : ∀ word keyword arguments, .call word keyword arguments ∈ a.steps →
      d₁.parameterNames? word = d₂.parameterNames? word)
    (options : ExportOptions) (r₁ r₂ : Report) :
    Ensures enrich ⟨g₁, r₁⟩ fun _ s₁ => Ensures enrich ⟨g₂, r₂⟩ fun _ s₂ =>
      Ensures (exportSignatures options) s₁ fun signatures₁ _ =>
        Ensures (exportSignatures options) s₂ fun signatures₂ _ =>
          ∃ x y, signatures₁.lookup name = some x ∧ signatures₂.lookup name = some y ∧
            x.bare = y.bare := by
  obtain ⟨d₁', ht₁', rfl⟩ := Design.exists_of_readGraph hg₁
  obtain ⟨d₂', ht₂', rfl⟩ := Design.exists_of_readGraph hg₂
  cases ht₁.symm.trans ht₁'
  cases ht₂.symm.trans ht₂'
  refine (Graph.ensures_enrich d₁.graph_sound).mono ?_
  rintro - ⟨g₁, r₁⟩ ⟨m₁, he₁⟩
  refine (Graph.ensures_enrich d₂.graph_sound).mono ?_
  rintro - ⟨g₂, r₂⟩ ⟨m₂, he₂⟩
  refine (Graph.ensures_exportSignatures he₁.after.sound (Design.told he₁) options).mono ?_
  rintro _ - rfl
  refine (Graph.ensures_exportSignatures he₂.after.sound (Design.told he₂) options).mono ?_
  rintro _ - rfl
  obtain ⟨h₁, hx⟩ := Design.lookup_entries he₁ ha₁ hplain options
  obtain ⟨h₂, hy⟩ := Design.lookup_entries he₂ ha₂ hplain options
  refine ⟨_, _, (Signatures.lookup_sorted_collect _ name).trans hx,
    (Signatures.lookup_sorted_collect _ name).trans hy, ?_⟩
  have hbody : canonicalFrom d₁.graph.formalNames [] a.steps =
      canonicalFrom d₂.graph.formalNames [] a.steps :=
    canonicalFrom_congr fun word keyword arguments hm => by
      rw [Design.formalNames_graph, Design.formalNames_graph, hcalled word keyword arguments hm]
  simp only [Signature.bare, WrittenDefinition.signature, canonicalBody, hbody]

namespace Design

/-- The document of `sampleText` without its scenario, with the action words in another order, and with
another type and default for the word that is called. -/
abbrev otherText : String := "<project><name>q</name>
  <actionwords><actionword><name>t</name><parameters><parameter><name>x</name>
    <type>text</type><default><numericliteral>2</numericliteral></default></parameter>
  </parameters></actionword><actionword><name>w</name><steps>
    <call><actionword>t</actionword></call>
  </steps></actionword></actionwords>
  </project>"

/-- The design that it describes. -/
def other : Design where
  name := "q"
  description := ""
  scenarios := []
  actionWords := [{
    name := "t", uid := none, description := "", tags := [], steps := []
    parameters := [{ name := "x", type := some "text", default := some (.numeric "2") }] }, sampleWord]

set_option maxRecDepth 4000 in
theorem ofText_other : ofText otherText = .ok other :=
  ofText_eq_ok (by decide +kernel)

theorem readGraph_other : readGraph otherText false = .ok other.graph := by
  unfold readGraph
  rw [ofText_other]
  rfl

end Design

theorem signature_of_sample :
    (Design.ofText Design.sampleText = .ok Design.sample ∧
      Design.readGraph Design.sampleText true = .ok Design.sample.graph ∧
      Design.ofText Design.otherText = .ok Design.other ∧
      Design.readGraph Design.otherText false = .ok Design.other.graph) ∧
    Ensures enrich ⟨Design.sample.graph, {}⟩ fun _ s₁ =>
      Ensures enrich ⟨Design.other.graph, {}⟩ fun _ s₂ =>
        Ensures (exportSignatures {}) s₁ fun signatures₁ _ =>
          Ensures (exportSignatures {}) s₂ fun signatures₂ _ =>
            ∃ x y, signatures₁.lookup "w" = some x ∧ signatures₂.lookup "w" = some y ∧
              x.bare = y.bare := by
  refine ⟨⟨Design.ofText_sample, Design.readGraph_sample, Design.ofText_other,
    Design.readGraph_other⟩, ?_⟩
  have hfirst : Design.sample.actionWords.find? (·.name == "w") = some Design.sampleWord := by decide
  have hfirst' : Design.other.actionWords.find? (·.name == "w") = some Design.sampleWord := by decide
  have hnames : Design.sample.parameterNames? "t" = Design.other.parameterNames? "t" := by decide
  have hsteps : Design.sampleWord.steps = [.call "t" none []] := rfl
  refine signature_is_local Design.ofText_sample Design.readGraph_sample Design.ofText_other
    Design.readGraph_other hfirst hfirst' (fun key value hm => ?_)
    (fun word keyword arguments hm => ?_) {} {} {}
  · simp [hsteps] at hm
  · rw [hsteps, List.mem_singleton] at hm
    cases hm
    exact hnames

end Actionbook
