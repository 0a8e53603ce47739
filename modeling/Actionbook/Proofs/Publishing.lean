import Actionbook.Proofs.Documents
import Actionbook.Publisher

/-!
# What publishers yield

`Publisher.Yields work p post`: started by the publisher `p`, the work ends without an error, and `post`
holds of its result and of the publisher it ends with. For a document without sentences:

* `yields_build`: reading and enriching it.
* `yields_exportSnapshot`: its snapshot is read back as its signatures.
* `yields_diff`: its difference from a snapshot is that of its signatures.
-/

namespace Actionbook.Publisher

open Work (Ensures)

variable {α β : Type} {p : Publisher} {post : α → Publisher → Prop}

/-- Work of a publisher that starts as `p` ends without an error, and with `post`. -/
def Yields (work : Publishing α) (p : Publisher) (post : α → Publisher → Prop) : Prop :=
  ∃ a p', work.run.run p = (.ok a, p') ∧ post a p'

theorem yields_of_run {work : Publishing α} {a : α} {p' : Publisher}
    (h : work.run.run p = (.ok a, p')) : Yields work p post ↔ post a p' := by
  constructor
  · rintro ⟨b, t, hr, hp⟩
    rw [h] at hr
    cases hr
    exact hp
  · exact fun hp => ⟨a, p', h, hp⟩

/-! ## Basic steps -/

@[simp] theorem yields_pure {a : α} : Yields (pure a) p post ↔ post a p := yields_of_run rfl

@[simp] theorem yields_get {post : Publisher → Publisher → Prop} :
    Yields (get : Publishing Publisher) p post ↔ post p p := yields_of_run rfl

@[simp] theorem yields_modify {f : Publisher → Publisher} {post : PUnit → Publisher → Prop} :
    Yields (modify f : Publishing PUnit) p post ↔ post ⟨⟩ (f p) := yields_of_run rfl

@[simp] theorem yields_check_ok {ε : Type} {cause : ε → PublishError} {a : α} :
    Yields (check cause (.ok a)) p post ↔ post a p := yields_of_run rfl

theorem not_yields_of_run {work : Publishing α} {e : PublishError} {p' : Publisher}
    (h : work.run.run p = (.error e, p')) : ¬ Yields work p post := by
  rintro ⟨b, t, hr, -⟩
  rw [h] at hr
  cases hr

@[simp] theorem not_yields_throw {e : PublishError} : ¬ Yields (throw e : Publishing α) p post :=
  not_yields_of_run rfl

theorem yields_check {ε : Type} {cause : ε → PublishError} {x : Except ε α} :
    Yields (check cause x) p post ↔ ∃ a, x = .ok a ∧ post a p := by
  cases x with
  | error e => exact iff_of_false (not_yields_of_run rfl) (by rintro ⟨a, h, -⟩; cases h)
  | ok a => simp

/-- Whether the work, when it is run, ends without an error and with something that is looked for. -/
def finds (work : Publishing α) (p : Publisher) (found : α → Publisher → Bool) : Bool :=
  match work.run.run p with
  | (.ok a, t) => found a t
  | (.error _, _) => false

theorem yields_of_finds {work : Publishing α} {found : α → Publisher → Bool}
    (h : finds work p found = true) : Yields work p fun a t => found a t = true := by
  unfold finds at h
  rcases hw : work.run.run p with ⟨e | a, t⟩
  · rw [hw] at h
    cases h
  · rw [hw] at h
    exact ⟨a, t, hw, h⟩

@[simp] theorem yields_bind {work : Publishing β} {next : β → Publishing α} :
    Yields (work >>= next) p post ↔ Yields work p fun b p' => Yields (next b) p' post := by
  rcases hw : work.run.run p with ⟨e | b, t⟩
  · have h : (work >>= next).run.run p = (.error e, t) := by
      simp only [ExceptT.run_bind, StateT.run_bind, hw]
      rfl
    exact iff_of_false (not_yields_of_run h) (not_yields_of_run hw)
  · have h : (work >>= next).run.run p = (next b).run.run t := by
      simp only [ExceptT.run_bind, StateT.run_bind, hw]
      rfl
    rw [yields_of_run hw]
    simp only [Yields, h]

theorem Yields.mono {work : Publishing α} {post' : α → Publisher → Prop}
    (h : Yields work p post) (hp : ∀ a p', post a p' → post' a p') : Yields work p post' := by
  obtain ⟨a, p', hr, hpost⟩ := h
  exact ⟨a, p', hr, hp a p' hpost⟩

theorem yields_workOn_iff {g : Graph} {work : Work β} {post : β × Graph → Publisher → Prop} :
    Yields (workOn g work) p post ↔
      Ensures work ⟨g, p.report⟩ fun b w => post (b, w.graph) { p with report := w.report } := by
  simp only [workOn, yields_bind, yields_get]
  rcases hw : work.run.run ⟨g, p.report⟩ with ⟨e | b, w⟩
  · have hwork : work.run { graph := g, report := p.report } = (.error e, w) := hw
    simp only [hwork, yields_bind, yields_modify, yields_check]
    exact iff_of_false (by rintro ⟨a, h, -⟩; cases h) (Work.not_ensures_of_run hw)
  · have hwork : work.run { graph := g, report := p.report } = (.ok b, w) := hw
    simp only [hwork, yields_bind, yields_modify, yields_check_ok, yields_pure, Work.ensures_of_run hw]

/-- Work on a graph changes nothing of a publisher but the report. -/
theorem yields_workOn {g : Graph} {work : Work β} {mid : β → Workspace → Prop}
    (h : Ensures work ⟨g, p.report⟩ mid) : Yields (workOn g work) p fun result p' =>
      p' = { p with report := p'.report } ∧ mid result.1 ⟨result.2, p'.report⟩ :=
  yields_workOn_iff.2 (h.mono fun _ _ hmid => ⟨rfl, hmid⟩)

/-! ## Reading, exporting and comparing -/

variable {d : Design} {g m : Graph} {f : Snapshot.Format} {text : String} {strict : Bool}

theorem yields_build (hg : Design.readGraph text strict = .ok d.graph) :
    Yields (build text strict) p fun g p' => p'.config = p.config ∧ ∃ m, d.graph.Enriched m g := by
  simp only [build, hg, yields_bind, yields_pure]
  refine (yields_workOn (Graph.ensures_enrich d.graph_sound)).mono ?_
  rintro result p' ⟨hp, he⟩
  exact ⟨by rw [hp], he⟩

theorem yields_signatures (he : d.graph.Enriched m g) (hplain : d.Unsaid) (attach : Bool) :
    Yields (signatures g { attachNodes := attach }) p fun result p' =>
      p'.config = p.config ∧ result.bare = d.signatures := by
  simp only [signatures, yields_bind, yields_pure]
  refine (yields_workOn (Design.ensures_exportSignatures_of_unsaid he hplain attach)).mono ?_
  rintro result p' ⟨hp, hbare⟩
  exact ⟨by rw [hp], hbare⟩

/-- **The snapshot of a document** is read back as the signatures of its action words. -/
theorem yields_exportSnapshot (he : d.graph.Enriched m g) (hplain : d.Unsaid)
    (hnamed : ∀ w ∈ d.actionWords, w.Named)
    (hyaml : f.RoundTrips (Snapshot.outlines d.signatures)) :
    Yields (exportSnapshot g f) p fun text _ => f.load text = .ok d.signatures := by
  simp only [exportSnapshot, yields_bind]
  refine (yields_signatures he hplain false).mono ?_
  rintro result p' ⟨-, hbare⟩
  have hproper : result.Proper := Signatures.proper_of_bare (hbare ▸ Design.proper_signatures hnamed)
  rw [← hbare, Snapshot.outlines_bare] at hyaml
  rw [Snapshot.Format.dump_ok hyaml hproper, yields_check_ok, Snapshot.Format.load_write hyaml hproper,
    ← Signatures.sorted_bare, hbare, Design.sorted_signatures]

/-- A difference is that of the signatures of a snapshot that can be read from those of the graph. -/
theorem yields_diff_iff {post : Diff → Publisher → Prop} :
    Yields (diff text g f) p post ↔ ∃ old, f.load text = .ok old ∧
      Yields (signatures g { attachNodes := true }) p fun new p' =>
        ∃ rule, Config.renameMatch p'.config = .ok rule ∧
          post (diffSignatures rule.rule old new)
            { p' with report := (ambiguities rule.rule old new).foldl Report.warn p'.report } := by
  unfold diff
  cases f.load text with
  | error e =>
    refine iff_of_false (fun h => ?_) (by rintro ⟨old, h, -⟩; cases h)
    dsimp only at h
    split at h <;> simp at h
  | ok old =>
    simp only [yields_bind, yields_pure, yields_get, yields_check, yields_modify, Except.ok.injEq,
      exists_eq_left']

/-- **The difference of a document from a snapshot** is that of its signatures. -/
theorem yields_diff {old : Signatures} {rule : RenameMatch} (hread : f.load text = .ok old)
    (he : d.graph.Enriched m g) (hplain : d.Unsaid)
    (hrule : Config.renameMatch p.config = .ok rule) :
    Yields (diff text g f) p fun δ _ =>
      ∃ new, Signatures.bare new = d.signatures ∧ δ = diffSignatures rule.rule old new := by
  refine yields_diff_iff.2 ⟨old, hread, (yields_signatures he hplain true).mono ?_⟩
  rintro new p' ⟨hp, hbare⟩
  exact ⟨rule, hp ▸ hrule, new, hbare, rfl⟩

end Actionbook.Publisher
