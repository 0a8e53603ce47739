import Actionbook.Proofs.Codec

/-!
# Bad snapshots

An earlier snapshot is loaded or refused, and a publisher tells its listeners of a snapshot that is refused.
There is one gap: a text that is a document of the format, but for a scalar that looks like a number, a truth
value or a date and denotes none, is refused without a report (`Snapshot.Format.unreported_iff`).

* `Publisher.Answers`: an earlier snapshot is compared with a graph, or every listener is told of it.
* `Publisher.bad_snapshots_are_told`: this is so exactly if no scalar is to blame.
-/

namespace Actionbook

/-! ## Reports of errors -/

namespace SnapshotError

variable {e : SnapshotError}

theorem diagnostic?_eq_none_iff : e.diagnostic? = none ↔ ∃ v, v ≠ .malformed ∧ e = .unreadable v := by
  cases e with
  | unreadable v => cases v <;> simp [diagnostic?]
  | noList v => simp [diagnostic?]
  | entry position e => simp [diagnostic?]
  | duplicate position name => simp [diagnostic?]

/-- Whatever is wrong with a snapshot, it is reported in one way, and of no node. -/
theorem code_of_diagnostic? {d : Diagnostic} (h : e.diagnostic? = some d) :
    d.code = "SNAPSHOT_CORRUPT" ∧ d.node = none := by
  cases e with
  | unreadable v =>
    cases v <;> simp only [diagnostic?, reduceCtorEq, Option.some.injEq] at h
    subst h
    exact ⟨rfl, rfl⟩
  | noList v =>
    cases h
    exact ⟨rfl, rfl⟩
  | entry position e =>
    cases h
    exact ⟨rfl, rfl⟩
  | duplicate position name =>
    cases h
    exact ⟨rfl, rfl⟩

end SnapshotError

/-- A text is refused without a report exactly if the format finds fault with a value in it. -/
theorem Snapshot.Format.unreported_iff {f : Format} {text : String} {e : SnapshotError} :
    f.load text = .error e ∧ e.diagnostic? = none ↔
      ∃ v, v ≠ .malformed ∧ f.read text = .error v ∧ e = .unreadable v := by
  unfold load
  cases hread : f.read text with
  | error v =>
    constructor
    · rintro ⟨h, hnone⟩
      cases h
      obtain ⟨w, hw, h⟩ := SnapshotError.diagnostic?_eq_none_iff.1 hnone
      cases h
      exact ⟨v, hw, rfl, rfl⟩
    · rintro ⟨w, hw, h, rfl⟩
      cases h
      exact ⟨rfl, SnapshotError.diagnostic?_eq_none_iff.2 ⟨v, hw, rfl⟩⟩
  | ok v =>
    refine iff_of_false ?_ (by rintro ⟨w, -, h, -⟩; cases h)
    rintro ⟨h, hnone⟩
    cases v <;> simp only [ofData, reduceCtorEq] at h <;> try cases h <;> cases hnone
    have hsome := reported_of_readEntries h
    rw [hnone] at hsome
    cases hsome

namespace Publisher

variable {α β : Type} {p : Publisher} {text : String} {g : Graph} {old : Signatures} {e : SnapshotError}

/-! ## Work that reads no snapshot -/

/-- The work never stops because of an earlier snapshot. -/
def BlamesNoSnapshot (work : Publishing α) : Prop :=
  ∀ p e p', work.run.run p ≠ (.error (.snapshot e), p')

namespace BlamesNoSnapshot

theorem pure (a : α) : BlamesNoSnapshot (Pure.pure a) := by
  rintro p e p' ⟨⟩

theorem get : BlamesNoSnapshot (MonadState.get : Publishing Publisher) := by
  rintro p e p' ⟨⟩

theorem modify (f : Publisher → Publisher) : BlamesNoSnapshot (modify f : Publishing PUnit) := by
  rintro p e p' ⟨⟩

theorem check {ε : Type} {cause : ε → PublishError} (hc : ∀ x e, cause x ≠ .snapshot e)
    (x : Except ε α) : BlamesNoSnapshot (check cause x) := by
  cases x with
  | ok a => exact pure a
  | error x =>
    intro p e p' h
    exact hc x e (Except.error.inj (Prod.mk.inj h).1)

theorem bind {work : Publishing β} {next : β → Publishing α} (hw : BlamesNoSnapshot work)
    (hn : ∀ b, BlamesNoSnapshot (next b)) : BlamesNoSnapshot (work >>= next) := by
  intro p e p' h
  rw [ExceptT.run_bind, StateT.run_bind] at h
  rcases hr : work.run.run p with ⟨x | b, t⟩
  · rw [hr] at h
    cases h
    exact hw p e t hr
  · rw [hr] at h
    exact hn b t e p' h

theorem workOn (g : Graph) (work : Work α) : BlamesNoSnapshot (workOn g work) :=
  get.bind fun _ => (modify _).bind fun _ => (check nofun _).bind fun _ => pure _

end BlamesNoSnapshot

/-! ## Comparing with an earlier snapshot -/

/-- The comparison of a graph with the signatures that an earlier snapshot holds. -/
def compareWith (old : Signatures) (g : Graph) : Publishing Diff := do
  let new ← signatures g { attachNodes := true }
  let rule := (← check .config (Config.renameMatch (← get).config)).rule
  modify fun p => { p with report := (ambiguities rule old new).foldl Report.warn p.report }
  return diffSignatures rule old new

theorem blamesNoSnapshot_compareWith (old : Signatures) (g : Graph) :
    BlamesNoSnapshot (compareWith old g) := by
  have hsignatures : BlamesNoSnapshot (signatures g { attachNodes := true }) :=
    (BlamesNoSnapshot.workOn g _).bind fun _ => .pure _
  refine hsignatures.bind fun new => BlamesNoSnapshot.get.bind fun p => ?_
  exact (BlamesNoSnapshot.check nofun _).bind fun rule => (BlamesNoSnapshot.modify _).bind fun _ => .pure _

theorem diff_of_read_ok (h : Snapshot.read text = .ok old) : diff text g = compareWith old g := by
  unfold diff
  rw [show Snapshot.format.load text = .ok old from h]
  rfl

/-- A snapshot that cannot be read stops the comparison at once; listeners are told if there is a report. -/
theorem run_diff_of_read_error (h : Snapshot.read text = .error e) :
    (diff text g).run.run p = (.error (.snapshot e), match e.diagnostic? with
      | some d => { p with report := p.report.fail d }
      | none => p) := by
  unfold diff
  rw [show Snapshot.format.load text = .error e from h]
  dsimp only
  cases e.diagnostic? <;> rfl

/-- What a publisher makes of an earlier snapshot: it is compared, and nothing is found wrong with it, or every
listener is told once, nothing else changes, and the error is passed on. -/
def Answers (p : Publisher) (text : String) (g : Graph) : Prop :=
  (∃ old, Snapshot.read text = .ok old ∧ old.Proper ∧
    (diff text g).run.run p = (compareWith old g).run.run p ∧
    ∀ e p', (diff text g).run.run p ≠ (.error (.snapshot e), p')) ∨
  ∃ e d p', Snapshot.read text = .error e ∧ e.diagnostic? = some d ∧ d.code = "SNAPSHOT_CORRUPT" ∧
    (diff text g).run.run p = (.error (.snapshot e), p') ∧
    p' = { p with report.events := p.report.events ++
      p.report.listeners.map (⟨·, .error, "SNAPSHOT_CORRUPT", none⟩) }

theorem answers_of_read_ok (h : Snapshot.read text = .ok old) : p.Answers text g := by
  refine .inl ⟨old, h, Snapshot.Format.proper_of_load h, by rw [diff_of_read_ok h], ?_⟩
  rw [diff_of_read_ok h]
  exact blamesNoSnapshot_compareWith old g p

theorem answers_iff_of_read_error (h : Snapshot.read text = .error e) :
    p.Answers text g ↔ e.diagnostic?.isSome = true := by
  constructor
  · rintro (⟨old, hold, -⟩ | ⟨e', d, p', he, hd, -⟩)
    · exact nomatch h.symm.trans hold
    · obtain rfl : e = e' := Except.error.inj (h.symm.trans he)
      exact Option.isSome_of_eq_some hd
  · intro hsome
    obtain ⟨d, hd⟩ := Option.isSome_iff_exists.1 hsome
    obtain ⟨hcode, hnode⟩ := SnapshotError.code_of_diagnostic? hd
    refine .inr ⟨e, d, _, h, hd, hcode, run_diff_of_read_error h, ?_⟩
    rw [hd]
    simp only [Report.fail, Report.announce, hcode, hnode]

/-- **Bad snapshots are told.** For every text, a publisher either compares a graph with the signatures that the
text holds or tells every listener once that the snapshot is corrupt, unless the fault is with a scalar that
denotes no value. Then the publisher stops as well, but nobody is told. -/
theorem bad_snapshots_are_told (p : Publisher) (text : String) (g : Graph) :
    (p.Answers text g ↔ ∀ v, Yaml.read text = .error v → v = .malformed) ∧
      ∀ v, Yaml.read text = .error v → v ≠ .malformed →
        (diff text g).run.run p = (.error (.snapshot (.unreadable v)), p) := by
  have hgap : ∀ e, Snapshot.read text = .error e ∧ e.diagnostic? = none ↔
      ∃ v, v ≠ .malformed ∧ Yaml.read text = .error v ∧ e = .unreadable v :=
    fun _ => Snapshot.Format.unreported_iff
  refine ⟨?_, fun v hv hne => ?silent⟩
  case silent =>
    obtain ⟨hread, hnone⟩ := (hgap _).2 ⟨v, hne, hv, rfl⟩
    rw [run_diff_of_read_error hread, hnone]
  cases hread : Snapshot.read text with
  | ok old =>
    refine iff_of_true (answers_of_read_ok hread) fun v hv => ?_
    by_contra hne
    exact nomatch hread.symm.trans ((hgap _).2 ⟨v, hne, hv, rfl⟩).1
  | error e =>
    rw [answers_iff_of_read_error hread]
    constructor
    · intro hsome v hv
      by_contra hne
      obtain ⟨he, hnone⟩ := (hgap _).2 ⟨v, hne, hv, rfl⟩
      obtain rfl : e = .unreadable v := Except.error.inj (hread.symm.trans he)
      rw [hnone] at hsome
      cases hsome
    · intro hv
      refine Option.ne_none_iff_isSome.1 fun hnone => ?_
      obtain ⟨v, hne, hv', -⟩ := (hgap e).1 ⟨hread, hnone⟩
      exact hne (hv v hv')

/-- A text that is a date of a thirteenth month is refused, and the listener is not told. -/
theorem bad_date_is_not_told :
    let p := make (.mapping []) "python" ["L"]
    Yaml.read "2020-13-01" = .error (.calendar .month) ∧
      Snapshot.read "2020-13-01" = .error (.unreadable (.calendar .month)) ∧
      (∀ g, (diff "2020-13-01" g).run.run p = (.error (.snapshot (.unreadable (.calendar .month))), p)) ∧
      ∀ g, ¬ p.Answers "2020-13-01" g := by
  intro p
  have hyaml : Yaml.read "2020-13-01" = .error (.calendar .month) := by rfl
  have hread : Snapshot.read "2020-13-01" = .error (.unreadable (.calendar .month)) := by
    rw [Snapshot.read, Snapshot.Format.load, show Snapshot.format.read = Yaml.read from rfl, hyaml]
  refine ⟨hyaml, hread, fun g => run_diff_of_read_error hread, fun g => ?_⟩
  rw [answers_iff_of_read_error hread]
  exact Bool.false_ne_true

end Publisher

end Actionbook
