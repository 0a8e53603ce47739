import Actionbook.Enrichment

/-!
# Reasoning about work

`Work.Ensures work s post`: started at `s`, the work ends without a fault, and `post` holds of its
result and of the workspace it ends with. There is one equation for each basic step, so that a sequence
of steps is taken apart by `simp`; loops are gone through with an invariant on the elements done
(`ensures_forM`, `ensures_foldlM`).
-/

namespace Actionbook.Work

variable {α β : Type}

/-- Work that starts at `s` ends without a fault, and with `post`. -/
def Ensures (work : Work α) (s : Workspace) (post : α → Workspace → Prop) : Prop :=
  ∃ a s', work.run.run s = (.ok a, s') ∧ post a s'

variable {s : Workspace} {post : α → Workspace → Prop}

theorem ensures_of_run {work : Work α} {a : α} {s' : Workspace} (h : work.run.run s = (.ok a, s')) :
    Ensures work s post ↔ post a s' := by
  constructor
  · rintro ⟨b, t, hr, hp⟩
    rw [h] at hr
    cases hr
    exact hp
  · exact fun hp => ⟨a, s', h, hp⟩

theorem not_ensures_of_run {work : Work α} {e : Fault} {s' : Workspace}
    (h : work.run.run s = (.error e, s')) : ¬ Ensures work s post := by
  rintro ⟨b, t, hr, -⟩
  rw [h] at hr
  cases hr

/-- What is found by running the work. -/
theorem ensures_of_check {work : Work α} {check : α → Workspace → Bool}
    (h : (match work.run.run s with
      | (.ok a, t) => check a t
      | (.error _, _) => false) = true) : Ensures work s fun a t => check a t = true := by
  rcases hw : work.run.run s with ⟨e | a, t⟩
  · rw [hw] at h
    cases h
  · rw [hw] at h
    exact ⟨a, t, hw, h⟩

/-! ## Basic steps -/

theorem run_bind_of_ok {work : Work β} {next : β → Work α} {b : β} {t : Workspace}
    (h : work.run.run s = (.ok b, t)) : (work >>= next).run.run s = (next b).run.run t := by
  simp only [ExceptT.run_bind, StateT.run_bind, h]
  rfl

theorem run_bind_of_error {work : Work β} {next : β → Work α} {e : Fault} {t : Workspace}
    (h : work.run.run s = (.error e, t)) : (work >>= next).run.run s = (.error e, t) := by
  simp only [ExceptT.run_bind, StateT.run_bind, h]
  rfl

@[simp] theorem ensures_pure {a : α} : Ensures (pure a) s post ↔ post a s := ensures_of_run rfl

@[simp] theorem ensures_bind {work : Work β} {next : β → Work α} :
    Ensures (work >>= next) s post ↔ Ensures work s fun b s' => Ensures (next b) s' post := by
  rcases hw : work.run.run s with ⟨e | b, t⟩
  · exact iff_of_false (not_ensures_of_run (run_bind_of_error hw)) (not_ensures_of_run hw)
  · rw [ensures_of_run hw]
    simp only [Ensures, run_bind_of_ok hw]

@[simp] theorem ensures_get {post : Workspace → Workspace → Prop} :
    Ensures (get : Work Workspace) s post ↔ post s s := ensures_of_run rfl

@[simp] theorem ensures_throw {e : Fault} : ¬ Ensures (throw e : Work α) s post :=
  not_ensures_of_run rfl

@[simp] theorem ensures_read {f : Graph → Except Fault α} :
    Ensures (Work.read f) s post ↔ ∃ a, f s.graph = .ok a ∧ post a s := by
  unfold Work.read
  rw [ensures_bind, ensures_get]
  cases f s.graph with
  | error e => simp
  | ok a => simp

theorem run_read_of_ok {f : Graph → Except Fault α} {a : α} (h : f s.graph = .ok a) :
    (Work.read f).run.run s = (.ok a, s) := by
  have hget : (get : Work Workspace).run.run s = (.ok s, s) := rfl
  unfold Work.read
  rw [run_bind_of_ok hget, h]
  rfl

@[simp] theorem ensures_change {f : Graph → Graph} {post : Unit → Workspace → Prop} :
    Ensures (Work.change f) s post ↔ post () { s with graph := f s.graph } := ensures_of_run rfl

@[simp] theorem ensures_add {content : Content} {post : Handle → Workspace → Prop} :
    Ensures (Work.add content) s post ↔
      post s.graph.size { s with graph := (s.graph.add content).1 } := ensures_of_run rfl

@[simp] theorem ensures_warn {concern : Concern} {node : Handle} {post : Unit → Workspace → Prop} :
    Ensures (Work.warn concern node) s post ↔
      post () { s with report := s.report.warn ⟨concern, some node⟩ } := ensures_of_run rfl

theorem ensures_replace {h : Handle} {content : Content} {g : Graph}
    {post : Unit → Workspace → Prop} (hg : s.graph.replace h content = (g, .ok ())) :
    Ensures (Work.replace h content) s post ↔ post () { s with graph := g } := by
  unfold Work.replace
  simp [hg]

/-! ## Consequences -/

theorem Ensures.mono {work : Work α} {post' : α → Workspace → Prop}
    (h : Ensures work s post) (hp : ∀ a s', post a s' → post' a s') : Ensures work s post' := by
  obtain ⟨a, s', hr, hpost⟩ := h
  exact ⟨a, s', hr, hp a s' hpost⟩

theorem Ensures.and {work : Work α} {post' : α → Workspace → Prop}
    (h : Ensures work s post) (h' : Ensures work s post') :
    Ensures work s fun a s' => post a s' ∧ post' a s' := by
  obtain ⟨a, s', hr, hp⟩ := h
  exact ⟨a, s', hr, hp, (ensures_of_run hr).1 h'⟩

/-- Faults are passed on, so that work that ends well is not changed by announcing them. -/
@[simp] theorem ensures_announcing {work : Work α} :
    Ensures work.announcing s post ↔ Ensures work s post := by
  rcases hw : work.run.run s with ⟨e | b, t⟩
  · have h : ∃ t', work.announcing.run.run s = (.error e, t') := by
      simp only [Work.announcing, tryCatch, tryCatchThe, MonadExceptOf.tryCatch, ExceptT.tryCatch,
        ExceptT.run, ExceptT.mk, StateT.run, bind, StateT.bind] at hw ⊢
      rw [hw]
      dsimp only
      cases e.diagnostic? <;> exact ⟨_, rfl⟩
    obtain ⟨t', h⟩ := h
    exact iff_of_false (not_ensures_of_run h) (not_ensures_of_run hw)
  · have h : work.announcing.run.run s = (.ok b, t) := by
      simp only [Work.announcing, tryCatch, tryCatchThe, MonadExceptOf.tryCatch, ExceptT.tryCatch,
        ExceptT.run, ExceptT.mk, StateT.run, bind, StateT.bind] at hw ⊢
      rw [hw]
      rfl
    rw [ensures_of_run h, ensures_of_run hw]

/-! ## Faults -/

/-- Work that starts at `s` ends with a fault, and with `post`. -/
def Stops (work : Work α) (s : Workspace) (post : Fault → Workspace → Prop) : Prop :=
  ∃ e s', work.run.run s = (.error e, s') ∧ post e s'

/-- Work stops if its first part ends well and the rest stops. -/
theorem Stops.bind {work : Work β} {next : β → Work α} {post : Fault → Workspace → Prop}
    (h : Ensures work s fun b s' => Stops (next b) s' post) : Stops (work >>= next) s post := by
  obtain ⟨b, t, hw, e, s', hr, hp⟩ := h
  exact ⟨e, s', (run_bind_of_ok hw).trans hr, hp⟩

/-! ## Loops -/

/-- A loop keeps an invariant on the elements that are done. -/
theorem ensures_forM {l : List β} {f : β → Work Unit} (inv : List β → Workspace → Prop)
    (start : inv [] s)
    (step : ∀ done b rest t, l = done ++ b :: rest → inv done t →
      Ensures (f b) t fun _ t' => inv (done ++ [b]) t') :
    Ensures (l.forM f) s fun _ s' => inv l s' := by
  suffices ∀ rest done t, l = done ++ rest → inv done t →
      Ensures (rest.forM f) t fun _ s' => inv l s' from this l [] s rfl start
  intro rest
  induction rest with
  | nil =>
    intro done t hl hd
    rw [List.append_nil] at hl
    subst hl
    simpa using hd
  | cons b rest ih =>
    intro done t hl hd
    simp only [List.forM_eq_forM, List.forM_cons, ensures_bind]
    exact (step done b rest t hl hd).mono fun _ t' ht => ih (done ++ [b]) t' (by simp [hl]) ht

/-- A fold keeps an invariant on the elements that are done and the value so far. -/
theorem ensures_foldlM {γ : Type} {l : List β} {f : γ → β → Work γ} {c : γ}
    (inv : List β → γ → Workspace → Prop) (start : inv [] c s)
    (step : ∀ done b rest c t, l = done ++ b :: rest → inv done c t →
      Ensures (f c b) t fun c' t' => inv (done ++ [b]) c' t') :
    Ensures (l.foldlM f c) s fun c' s' => inv l c' s' := by
  suffices ∀ rest done c t, l = done ++ rest → inv done c t →
      Ensures (rest.foldlM f c) t fun c' s' => inv l c' s' from this l [] c s rfl start
  intro rest
  induction rest with
  | nil =>
    intro done c t hl hd
    rw [List.append_nil] at hl
    subst hl
    simpa using hd
  | cons b rest ih =>
    intro done c t hl hd
    simp only [List.foldlM_cons, ensures_bind]
    exact (step done b rest c t hl hd).mono fun c' t' ht => ih (done ++ [b]) c' t' (by simp [hl]) ht

end Actionbook.Work
