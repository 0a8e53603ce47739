import Actionbook.Proofs.Work
import Mathlib.Data.List.Nodup
import Mathlib.Data.List.Perm.Basic

/-!
# What work reports

Work only ever adds to a report. `Report.Gains r due r'` says that the report has grown by the warnings
`due`, in some order; it composes like the work itself. Most work adds nothing (`Work.Silent`), which is
seen from its steps alone, without regard to the graph.
-/

namespace Actionbook

namespace Report

/-- Warns of several things, one after the other. -/
def warnAll (r : Report) (ws : List Warning) : Report := ws.foldl warn r

/-- The report has been given the warnings `due`, in some order. -/
def Gains (r : Report) (due : List Warning) (r' : Report) : Prop :=
  ∃ ws, r' = r.warnAll ws ∧ ws.Perm due

variable {r r' r'' : Report} {w : Warning} {ws due due' : List Warning}

theorem warnings_warnAll (r : Report) (ws : List Warning) :
    (r.warnAll ws).warnings = r.warnings ++ ws := by
  induction ws generalizing r with
  | nil => exact (List.append_nil _).symm
  | cons w ws ih =>
    have hw : (r.warn w).warnings = r.warnings ++ [w] := rfl
    rw [warnAll, List.foldl_cons, ← warnAll, ih, hw, List.append_assoc]
    rfl

theorem warnAll_append_singleton (r : Report) (ws : List Warning) (w : Warning) :
    r.warnAll (ws ++ [w]) = (r.warnAll ws).warn w := List.foldl_append

/-- The warnings after a mark are those given since then. -/
theorem since_mark_warnAll (r : Report) (ws : List Warning) : (r.warnAll ws).since r.mark = ws := by
  have hnonneg : ¬ ((r.mark : Nat) : Int) < 0 := by omega
  rw [since, if_neg hnonneg, Int.toNat_natCast, warnings_warnAll, mark, List.drop_left]

namespace Gains

theorem refl (r : Report) : r.Gains [] r := ⟨[], rfl, .refl _⟩

theorem warn (r : Report) (w : Warning) : r.Gains [w] (r.warn w) := ⟨[w], rfl, .refl _⟩

theorem trans (hg : r.Gains due r') (hg' : r'.Gains due' r'') : r.Gains (due ++ due') r'' := by
  obtain ⟨ws, rfl, hws⟩ := hg
  obtain ⟨ws', rfl, hws'⟩ := hg'
  exact ⟨ws ++ ws', (List.foldl_append).symm, hws.append hws'⟩

theorem perm (hg : r.Gains due r') (hp : due.Perm due') : r.Gains due' r' := by
  obtain ⟨ws, hr, hws⟩ := hg
  exact ⟨ws, hr, hws.trans hp⟩

/-- What a report has gained is what has been told since. -/
theorem since (hg : r.Gains due r') : (r'.since r.mark).Perm due := by
  obtain ⟨ws, rfl, hws⟩ := hg
  rwa [since_mark_warnAll]

end Gains

end Report

/-- What is collected from two lists is the same, up to order, if they have the same elements with
something to collect. -/
theorem perm_flatMap_of_support {α β : Type} {f : α → List β} {l l' : List α} (hn : l.Nodup)
    (hn' : l'.Nodup) (hf : ∀ a, f a ≠ [] → (a ∈ l ↔ a ∈ l')) : (l.flatMap f).Perm (l'.flatMap f) := by
  classical
  have drop : ∀ l : List α, l.flatMap f = (l.filter fun a => f a ≠ []).flatMap f := by
    intro l
    induction l with
    | nil => rfl
    | cons a l ih =>
      by_cases ha : f a = []
      · simpa [ha] using ih
      · simpa [List.filter_cons, ha] using ih
  rw [drop l, drop l']
  refine List.Perm.flatMap_right _ ((List.perm_ext_iff_of_nodup (hn.filter _) (hn'.filter _)).2
    fun a => ?_)
  simp only [List.mem_filter, decide_eq_true_eq]
  exact and_congr_left fun ha => hf a ha

/-- What the elements of a list give in turn, each of them in view of those before it. -/
def inTurn {α β : Type} (f : List α → α → Option β) (l : List α) : List β :=
  l.zipIdx.filterMap fun e => f (l.take e.2) e.1

theorem inTurn_append_singleton {α β : Type} (f : List α → α → Option β) (l : List α) (a : α) :
    inTurn f (l ++ [a]) = inTurn f l ++ (f l a).toList := by
  have hearlier : l.zipIdx.filterMap (fun e => f ((l ++ [a]).take e.2) e.1) = inTurn f l := by
    refine List.filterMap_congr fun e he => ?_
    have hlt : e.2 < l.length := by simpa using List.snd_lt_of_mem_zipIdx he
    rw [List.take_append_of_le_length (Nat.le_of_lt hlt)]
  rw [inTurn, List.zipIdx_append, List.filterMap_append, hearlier]
  cases hf : f l a <;> simp [hf]

namespace Work

variable {α β γ : Type}

/-- Work that reports nothing. -/
def Silent (work : Work α) : Prop := ∀ s, (work.run.run s).2.report = s.report

/-- Silent work leaves the report as it is. -/
theorem Ensures.silent {work : Work α} {s : Workspace} {post : α → Workspace → Prop}
    (hq : Silent work) (he : Ensures work s post) :
    Ensures work s fun a s' => post a s' ∧ s'.report = s.report := by
  obtain ⟨a, s', hr, hp⟩ := he
  have hrep := hq s
  rw [hr] at hrep
  exact ⟨a, s', hr, hp, hrep⟩

namespace Silent

theorem pure (a : α) : Silent (Pure.pure a : Work α) := fun _ => rfl

theorem throw (e : Fault) : Silent (MonadExcept.throw e : Work α) := fun _ => rfl

theorem get : Silent (MonadState.get : Work Workspace) := fun _ => rfl

theorem change (f : Graph → Graph) : Silent (Work.change f) := fun _ => rfl

theorem bind {work : Work β} {next : β → Work α} (hw : Silent work) (hn : ∀ b, Silent (next b)) :
    Silent (work >>= next) := by
  intro s
  have hrep := hw s
  rcases hr : work.run.run s with ⟨e | b, t⟩
  · rw [Work.run_bind_of_error hr]
    rwa [hr] at hrep
  · rw [Work.run_bind_of_ok hr, hn b t]
    rwa [hr] at hrep

theorem read (f : Graph → Except Fault α) : Silent (Work.read f) := by
  refine bind get fun w => ?_
  cases f w.graph with
  | error e => exact throw e
  | ok a => exact pure a

end Silent

end Work

end Actionbook
