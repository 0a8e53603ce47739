import Actionbook.Form.Basic
import Actionbook.Proofs.Documents

/-!
# What forms make of names

A form whose layouts hold no fields (`Form.Flat`) is filled in piece by piece. If it asks for no attribute
(`Form.AttributeFree`), whether that succeeds has nothing to do with the name, as long as there is one: what
can be filled in with a name of one character can be filled in with any name (`Form.exists_fill_iff`). Attributes
are up to the host, and nothing is said of them here. What comes out is then put together from parts
(`Form.Part`), unless a field shows its value between quotes: characters of the form, names, and first
characters of names, which are padded and cut.

The length of what a part makes of a name depends on the length of the name alone, and grows with it. So if
two names give the same text, they give the same text part by part (`Form.Part.fill_eq_of_flatMap_eq`), and the
names are the same if a part shows all of a name (`Form.Part.eq_of_flatMap_eq`).
-/

namespace Actionbook.Form

/-! ## Layouts -/

namespace Layout

variable {l : Layout} {s t : List Char} {c : Char}

/-- What is left of a text when it is cut. -/
def kept (l : Layout) (s : List Char) : List Char :=
  match l.precision with
  | some n => s.take n
  | none => s

/-- The number of characters by which a text is padded. -/
def padding (l : Layout) (s : List Char) : Nat := l.width.getD 0 - (l.kept s).length

/-- The number of those that go in front of it. -/
def before (l : Layout) (s : List Char) : Nat :=
  match l.alignment with
  | .right => l.padding s
  | .center => l.padding s / 2
  | _ => 0

theorem apply_eq (l : Layout) (s : List Char) : l.apply s =
    List.replicate (l.before s) l.filling ++ l.kept s ++
      List.replicate (l.padding s - l.before s) l.filling := rfl

theorem before_le_padding (l : Layout) (s : List Char) : l.before s ≤ l.padding s := by
  unfold before
  split <;> omega

theorem length_apply (l : Layout) (s : List Char) :
    (l.apply s).length = max (l.width.getD 0) (l.kept s).length := by
  have hbefore := l.before_le_padding s
  have hpadding : l.padding s = l.width.getD 0 - (l.kept s).length := rfl
  simp only [apply_eq, List.length_append, List.length_replicate]
  omega

theorem length_kept_le (h : s.length ≤ t.length) : (l.kept s).length ≤ (l.kept t).length := by
  unfold kept
  split
  · simp only [List.length_take]
    omega
  · exact h

theorem before_le (h : s.length ≤ t.length) : l.before t ≤ l.before s := by
  have hkept := length_kept_le (l := l) h
  unfold before padding
  split <;> omega

theorem kept_eq_nil_iff (hs : s ≠ []) (ht : t ≠ []) : l.kept s = [] ↔ l.kept t = [] := by
  unfold kept
  split <;> simp [hs, ht]

theorem apply_eq_nil_iff (hs : s ≠ []) (ht : t ≠ []) : l.apply s = [] ↔ l.apply t = [] := by
  simp only [← List.length_eq_zero_iff, length_apply, Nat.max_eq_zero_iff]
  simp only [List.length_eq_zero_iff, kept_eq_nil_iff hs ht]

/-- What a longer text starts with, if it is not a character of the text, a shorter one starts with as well. -/
theorem head?_apply (hs : s ≠ []) (hlen : s.length ≤ t.length) (hc : c ∉ t)
    (h : (l.apply t).head? = some c) : (l.apply s).head? = some c := by
  have ht : t ≠ [] := fun e => hs (List.length_eq_zero_iff.1 (by rw [e] at hlen; simpa using hlen))
  have hbefore := before_le (l := l) hlen
  rw [apply_eq] at h ⊢
  cases hb : l.before t with
  | succ n =>
    obtain ⟨m, hm⟩ : ∃ m, l.before s = m + 1 := ⟨l.before s - 1, by omega⟩
    rw [hb] at h
    rw [hm]
    exact h
  | zero =>
    rw [hb] at h
    cases hk : l.kept t with
    | cons d r =>
      rw [hk] at h
      cases h
      have hmem : c ∈ l.kept t := hk ▸ List.mem_cons_self
      have hsub : (l.kept t).Sublist t := by
        unfold kept
        split
        · exact List.take_sublist _ _
        · exact .refl _
      exact absurd (hsub.subset hmem) hc
    | nil =>
      -- neither text leaves anything, so both are padded alike
      have hks := (kept_eq_nil_iff hs ht).2 hk
      have hpadding : l.padding s = l.padding t := by rw [padding, padding, hks, hk]
      have hsame : l.before s = l.before t := by rw [before, before, hpadding]
      rw [hk] at h
      rw [hks, hpadding, hsame, hb]
      exact h

/-- A text that is not cut can be told from what it is padded to. -/
theorem sublist_of_apply_eq (hp : l.precision = none) (hl : l.width = none ∨ l.filling ∉ s)
    (h : l.apply s = l.apply t) : s.Sublist t := by
  have hkept : ∀ u, l.kept u = u := fun u => by rw [kept, hp]
  rcases hl with hw | hfilling
  · have hself : ∀ u, l.apply u = u := fun u => by
      have hpadding : l.padding u = 0 := by rw [padding, hw, Option.getD_none, Nat.zero_sub]
      have hbefore : l.before u = 0 := Nat.le_zero.1 (hpadding ▸ l.before_le_padding u)
      rw [apply_eq, hpadding, hbefore, hkept]
      exact List.append_nil u
    rw [hself, hself] at h
    exact h ▸ .refl s
  · have hfilter : ∀ u, (l.apply u).filter (· != l.filling) = u.filter (· != l.filling) := fun u => by
      simp [apply_eq, hkept, List.filter_append]
    have hs : s.filter (· != l.filling) = s := List.filter_eq_self.2 fun c hc =>
      bne_iff_ne.2 fun e => hfilling (e ▸ hc)
    have heq := congrArg (List.filter (· != l.filling)) h
    rw [hfilter, hfilter, hs] at heq
    exact heq ▸ List.filter_sublist

theorem apply_eq_of_take_eq {n : Nat} (hp : l.precision = some n) (h : s.take n = t.take n) :
    l.apply s = l.apply t := by
  have hkept : l.kept s = l.kept t := by simp only [kept, hp, h]
  have hpadding : l.padding s = l.padding t := by rw [padding, padding, hkept]
  rw [apply_eq, apply_eq, before, before, hkept, hpadding]

end Layout

/-! ## Parts -/

/-- A part of what a form makes of names. -/
inductive Part where
  | char (c : Char)
  /-- The name. -/
  | name (l : Layout)
  /-- The first character of the name. -/
  | first (l : Layout)

namespace Part

variable {p : Part} {parts : List Part} {s t : List Char} {c : Char}

def fill (s : List Char) : Part → List Char
  | .char c => [c]
  | .name l => l.apply s
  | .first l => l.apply (s.take 1)

/-- The part shows all of a name. -/
def IsWhole : Part → Prop
  | .name l => l.precision = none
  | _ => False

/-- The part shows all of a name, and does not pad it with one of its characters. -/
def Shows (s : List Char) : Part → Prop
  | .name l => l.precision = none ∧ (l.width = none ∨ l.filling ∉ s)
  | _ => False

theorem length_fill_le (h : s.length ≤ t.length) : (p.fill s).length ≤ (p.fill t).length := by
  cases p with
  | char c => exact Nat.le_refl _
  | name l =>
    have hkept := Layout.length_kept_le (l := l) h
    simp only [fill, Layout.length_apply]
    omega
  | first l =>
    have hkept := Layout.length_kept_le (l := l) (s := s.take 1) (t := t.take 1)
      (by simp only [List.length_take]; omega)
    simp only [fill, Layout.length_apply]
    omega

theorem fill_eq_nil_iff (hs : s ≠ []) (ht : t ≠ []) : p.fill s = [] ↔ p.fill t = [] := by
  cases p with
  | char c => exact Iff.rfl
  | name l => exact Layout.apply_eq_nil_iff hs ht
  | first l => exact Layout.apply_eq_nil_iff (by simpa using hs) (by simpa using ht)

theorem head?_fill (hs : s ≠ []) (hlen : s.length ≤ t.length) (hc : c ∉ t)
    (h : (p.fill t).head? = some c) : (p.fill s).head? = some c := by
  cases p with
  | char d => exact h
  | name l => exact Layout.head?_apply hs hlen hc h
  | first l =>
    exact Layout.head?_apply (by simpa using hs) (by simp only [List.length_take]; omega)
      (fun hmem => hc ((List.take_sublist _ _).subset hmem)) h

theorem sublist_of_fill_eq (hp : p.Shows s) (h : p.fill s = p.fill t) : s.Sublist t := by
  cases p with
  | name l => exact Layout.sublist_of_apply_eq hp.1 hp.2 h
  | _ => exact hp.elim

/-! ## All parts of a form -/

theorem length_flatMap_fill_le (h : s.length ≤ t.length) :
    (parts.flatMap (·.fill s)).length ≤ (parts.flatMap (·.fill t)).length := by
  induction parts with
  | nil => exact Nat.le_refl _
  | cons p parts ih =>
    have hp := length_fill_le (p := p) h
    simp only [List.flatMap_cons, List.length_append]
    omega

/-- **Texts are compared part by part**: each part can only grow with the name. -/
theorem fill_eq_of_flatMap_eq (hlen : s.length ≤ t.length)
    (h : parts.flatMap (·.fill s) = parts.flatMap (·.fill t)) : ∀ p ∈ parts, p.fill s = p.fill t := by
  induction parts with
  | nil => exact List.forall_mem_nil _
  | cons p parts ih =>
    have hp := length_fill_le (p := p) hlen
    have hparts : (parts.flatMap (·.fill s)).length ≤ (parts.flatMap (·.fill t)).length :=
      length_flatMap_fill_le hlen
    rw [List.flatMap_cons, List.flatMap_cons] at h
    have hlength := congrArg List.length h
    rw [List.length_append, List.length_append] at hlength
    obtain ⟨hhead, htail⟩ := List.append_inj h (by omega)
    exact List.forall_mem_cons.2 ⟨hhead, ih htail⟩

theorem head?_flatMap_fill (hs : s ≠ []) (hlen : s.length ≤ t.length) (hc : c ∉ t)
    (h : (parts.flatMap (·.fill t)).head? = some c) : (parts.flatMap (·.fill s)).head? = some c := by
  have ht : t ≠ [] := fun e => hs (List.length_eq_zero_iff.1 (by rw [e] at hlen; simpa using hlen))
  induction parts with
  | nil => exact h
  | cons p parts ih =>
    rw [List.flatMap_cons, List.head?_append] at h ⊢
    cases hp : p.fill t with
    | nil =>
      rw [hp] at h
      rw [(fill_eq_nil_iff hs ht).2 hp]
      exact ih h
    | cons d r =>
      rw [hp] at h
      rw [head?_fill hs hlen hc (by rw [hp]; exact h)]
      rfl

/-- **A name can be told** from what parts make of it, if one of them shows all of it. -/
theorem eq_of_flatMap_eq (hs : ∃ p ∈ parts, p.Shows s) (ht : ∃ p ∈ parts, p.Shows t)
    (h : parts.flatMap (·.fill s) = parts.flatMap (·.fill t)) : s = t := by
  have hfill : ∀ p ∈ parts, p.fill s = p.fill t := by
    rcases Nat.le_total s.length t.length with hlen | hlen
    · exact fill_eq_of_flatMap_eq hlen h
    · exact fun p hp => (fill_eq_of_flatMap_eq hlen h.symm p hp).symm
  obtain ⟨p, hp, hshows⟩ := hs
  obtain ⟨q, hq, hshows'⟩ := ht
  exact (sublist_of_fill_eq hshows (hfill p hp)).antisymm
    (sublist_of_fill_eq hshows' (hfill q hq).symm)

/-- If no part shows all of a name, only so many characters of a name count. -/
theorem exists_flatMap_eq (h : ∀ p ∈ parts, ¬ p.IsWhole) : ∃ n, ∀ s t : List Char,
    s.take n = t.take n → parts.flatMap (·.fill s) = parts.flatMap (·.fill t) := by
  induction parts with
  | nil => exact ⟨0, fun _ _ _ => rfl⟩
  | cons p parts ih =>
    obtain ⟨n, hn⟩ := ih fun q hq => h q (List.mem_cons_of_mem _ hq)
    obtain ⟨m, hm⟩ : ∃ m, ∀ s t : List Char, s.take m = t.take m → p.fill s = p.fill t := by
      cases p with
      | char c => exact ⟨0, fun _ _ _ => rfl⟩
      | name l =>
        obtain ⟨m, hm⟩ := Option.ne_none_iff_exists'.1 (h _ List.mem_cons_self)
        exact ⟨m, fun s t => Layout.apply_eq_of_take_eq hm⟩
      | first l => exact ⟨1, fun s t e => congrArg l.apply e⟩
    have htake : ∀ {k : Nat} {s t : List Char}, k ≤ max m n →
        s.take (max m n) = t.take (max m n) → s.take k = t.take k := fun {k s t} hk e => by
      have hboth := congrArg (List.take k) e
      rwa [List.take_take, List.take_take, Nat.min_eq_left hk] at hboth
    refine ⟨max m n, fun s t e => ?_⟩
    rw [List.flatMap_cons, List.flatMap_cons, hm s t (htake (Nat.le_max_left ..) e),
      hn s t (htake (Nat.le_max_right ..) e)]

end Part

/-! ## Fields -/

theorem mapM_congr {ε α β : Type} {f g : α → Except ε β} {l : List α} (h : ∀ a ∈ l, f a = g a) :
    l.mapM f = l.mapM g := by
  induction l with
  | nil => rfl
  | cons a l ih =>
    rw [List.mapM_cons, List.mapM_cons, h a List.mem_cons_self,
      ih fun b hb => h b (List.mem_cons_of_mem _ hb)]

variable {host : Host} {name : List Char} {f : Field} {form : List Char}

/-- What a field without fields in its layout shows of a name. -/
def Field.fill (host : Host) (name : List Char) (f : Field) : Except FormError (List Char) := do
  (← convert f.conversion (← lookUp host name f.name)).layOut host.largestWidth f.layout

def Piece.fill (host : Host) (name : List Char) : Piece → Except FormError (List Char)
  | .char c => .ok [c]
  | .field f => f.fill host name
  | .stop e => .error e

/-- No layout of the form holds a field. -/
def Flat (form : List Char) : Prop := ∀ f, .field f ∈ pieces form → '\x7b' ∉ f.layout

/-- No field of the form asks for an attribute. -/
def AttributeFree (form : List Char) : Prop := ∀ f, .field f ∈ pieces form → '.' ∉ f.name

theorem fillFrom_of_flat (hf : Flat form) (depth : Nat) :
    fillFrom host (depth + 1) name form = List.flatten <$> (pieces form).mapM (·.fill host name) := by
  unfold fillFrom
  rw [map_eq_pure_bind]
  refine congrArg (· >>= fun texts => pure texts.flatten) (mapM_congr fun p hp => ?_)
  cases p with
  | char c => rfl
  | stop e => rfl
  | field f =>
    have hlayout : f.layout.contains '\x7b' = false := by simpa using hf f hp
    simp only [hlayout]
    rfl

/-- What indices select of a name is the name itself or its first character, or there may be nothing to
select. -/
theorem selectFrom_cases (host : Host) (fuel : Nat) {selector : List Char} (hdot : '.' ∉ selector) :
    ((fuel = 0 ∨ selector = []) ∧ ∀ s, selectFrom host fuel s selector = .ok (.text s)) ∨
      (fuel ≠ 0 ∧ selector ≠ [] ∧ ∀ c r, selectFrom host fuel (c :: r) selector = .ok (.text [c])) ∨
      ∀ c, ∃ e, selectFrom host fuel [c] selector = .error e := by
  induction fuel generalizing selector with
  | zero => exact .inl ⟨.inl rfl, fun _ => by simp [selectFrom]⟩
  | succ fuel ih =>
    cases selector with
    | nil => exact .inl ⟨.inr rfl, fun _ => by simp [selectFrom]⟩
    | cons c r =>
      refine .inr ?_
      rw [List.mem_cons, not_or] at hdot
      have hdot' : c ≠ '.' := Ne.symm hdot.1
      by_cases hopen : c = '['
      · subst hopen
        match hdrop : r.dropWhile (· != ']'), hn : number? (r.takeWhile (· != ']')),
          hempty : (r.takeWhile (· != ']')).isEmpty with
        | [], _, _ => exact .inr fun d => ⟨_, by simp [selectFrom, hdrop]; rfl⟩
        | _ :: _, .error e, _ => exact .inr fun d => ⟨_, by simp [selectFrom, hdrop, hn]; rfl⟩
        | _ :: _, .ok n, true => exact .inr fun d => ⟨_, by simp [selectFrom, hdrop, hn, hempty]; rfl⟩
        | _ :: _, .ok none, false =>
          exact .inr fun d => ⟨_, by simp [selectFrom, hdrop, hn, hempty]; rfl⟩
        | _ :: _, .ok (some (n + 1)), false =>
          exact .inr fun d => ⟨_, by simp [selectFrom, hdrop, hn, hempty]; rfl⟩
        | _ :: rest, .ok (some 0), false =>
          have hstep : ∀ d r', selectFrom host (fuel + 1) (d :: r') ('[' :: r) =
              selectFrom host fuel [d] rest := fun d r' => by
            simp [selectFrom, hdrop, hn, hempty]; rfl
          have hrest : '.' ∉ rest := fun h => hdot.2 <|
            (List.dropWhile_sublist _).subset (hdrop ▸ List.mem_cons_of_mem _ h)
          simp only [hstep]
          rcases ih hrest with ⟨-, hwhole⟩ | ⟨-, -, hfirst⟩ | hfails
          · exact .inl ⟨nofun, nofun, fun d _ => hwhole [d]⟩
          · exact .inl ⟨nofun, nofun, fun d _ => hfirst d []⟩
          · exact .inr hfails
      · refine .inr fun d => ?_
        simp only [selectFrom, hdot', hopen, if_false]
        exact ⟨_, rfl⟩

/-- Where a name is asked for, its value is the name itself only if nothing is selected of it. -/
theorem lookUp_cases (host : Host) {field : List Char} (hdot : '.' ∉ field) :
    (field = fieldName ∧ ∀ s, lookUp host s field = .ok (.text s)) ∨
      (field ≠ fieldName ∧ ∀ c r, lookUp host (c :: r) field = .ok (.text [c])) ∨
      ∀ c, ∃ e, lookUp host [c] field = .error e := by
  unfold lookUp
  dsimp only
  have hprefix := List.prefix_iff_eq_append.1 (List.takeWhile_prefix (l := field) fun c =>
    !(c == '.' || c == '['))
  generalize field.takeWhile (fun c => !(c == '.' || c == '[')) = start at hprefix ⊢
  by_cases hname : start = fieldName
  · subst hname
    have hnumber : number? fieldName = .ok none := by decide
    have hselector : field.drop fieldName.length = [] ↔ field = fieldName := by
      constructor
      · intro h
        rw [← hprefix, h, List.append_nil]
      · rintro rfl
        exact List.drop_length
    have hfield : field ≠ [] := by
      rintro rfl
      cases hprefix
    simp only [hnumber, bind, Except.bind]
    have hdot' : '.' ∉ field.drop fieldName.length := fun h => hdot ((List.drop_sublist _ _).subset h)
    rcases selectFrom_cases host field.length hdot' with
      ⟨hnone, hwhole⟩ | ⟨-, hsome, hfirst⟩ | hfails
    · refine .inl ⟨hselector.1 (hnone.resolve_left fun h => hfield (List.length_eq_zero_iff.1 h)), ?_⟩
      exact hwhole
    · exact .inr (.inl ⟨fun h => hsome (hselector.2 h), hfirst⟩)
    · exact .inr (.inr hfails)
  · refine .inr (.inr fun c => ?_)
    cases hnumber : number? start with
    | error e => exact ⟨e, rfl⟩
    | ok n =>
      simp only [bind, Except.bind]
      split <;> exact ⟨_, rfl⟩

/-- Without attributes only texts are selected. -/
theorem exists_text_of_lookUp {field : List Char} (hdot : '.' ∉ field) {c : Char} {v : Selected}
    (h : lookUp host [c] field = .ok v) : ∃ s, v = .text s := by
  rcases lookUp_cases host hdot with ⟨-, hwhole⟩ | ⟨-, hfirst⟩ | hfails
  · exact ⟨_, Except.ok.inj (h.symm.trans (hwhole _))⟩
  · exact ⟨_, Except.ok.inj (h.symm.trans (hfirst _ _))⟩
  · obtain ⟨e, he⟩ := hfails c
    exact nomatch he.symm.trans h

/-- Whether a text can be shown depends on the conversion alone. -/
theorem convert_cases (conversion : Option Char) :
    (∀ s, ∃ t, convert conversion (.text s) = .ok (.text t)) ∨
      ∀ s, ∃ e, convert conversion (.text s) = .error e := by
  cases conversion with
  | none => exact .inl fun s => ⟨s, rfl⟩
  | some c =>
    unfold convert
    split <;> first | exact .inl fun s => ⟨_, rfl⟩ | exact .inr fun s => ⟨_, rfl⟩

/-- Whether a text can be laid out depends on the layout and the room for it alone. -/
theorem layOut_cases (room : Nat) (layout : List Char) :
    (∃ l, Layout.read layout = .ok l ∧ ∀ s, layOut room layout s = .ok (l.apply s)) ∨
      ∀ s, ∃ e, layOut room layout s = .error e := by
  cases layout with
  | nil =>
    refine .inl ⟨{}, rfl, fun s => ?_⟩
    have happly : ({} : Layout).apply s = s := by simp [Layout.apply]
    rw [happly]
    rfl
  | cons c r =>
    unfold layOut
    simp only [List.isEmpty_cons, Bool.false_eq_true, if_false]
    cases hread : Layout.read (c :: r) with
    | error e => exact .inr fun s => ⟨e, rfl⟩
    | ok l =>
      cases hcheck : l.check room with
      | error e => exact .inr fun s => ⟨e, by simp [hcheck, bind, Except.bind]⟩
      | ok _ => exact .inl ⟨l, rfl, fun s => by simp [hcheck, bind, Except.bind, pure, Except.pure]⟩

namespace Field

/-- The field shows its value as it is, not between quotes. -/
def Unquoted (f : Field) : Prop := f.conversion = none ∨ f.conversion = some 's'

/-- The field shows all of a name. -/
def IsWhole (f : Field) : Prop :=
  f.name = fieldName ∧ ∃ l, Layout.read f.layout = .ok l ∧ l.precision = none

/-- The field shows all of a name, and does not pad it with one of its characters. -/
def Shows (f : Field) (name : List Char) : Prop :=
  f.name = fieldName ∧ ∃ l, Layout.read f.layout = .ok l ∧ l.precision = none ∧
    (l.width = none ∨ l.filling ∉ name)

theorem exists_fill (hdot : '.' ∉ f.name) {c : Char} {v : List Char} (h : f.fill host [c] = .ok v)
    (hn : name ≠ []) : ∃ v, f.fill host name = .ok v := by
  obtain ⟨d, r, rfl⟩ := List.exists_cons_of_ne_nil hn
  obtain ⟨u, hu, h⟩ := bind_eq_ok.1 h
  obtain ⟨u', hu', h⟩ := bind_eq_ok.1 h
  obtain ⟨s, rfl⟩ := exists_text_of_lookUp hdot hu
  obtain ⟨w, hw⟩ : ∃ w, lookUp host (d :: r) f.name = .ok (.text w) := by
    rcases lookUp_cases host hdot with ⟨-, hwhole⟩ | ⟨-, hfirst⟩ | hfails
    · exact ⟨_, hwhole _⟩
    · exact ⟨_, hfirst _ _⟩
    · obtain ⟨e, he⟩ := hfails c
      exact nomatch he.symm.trans hu
  obtain ⟨s', w', rfl, hw'⟩ : ∃ s' w', u' = .text s' ∧ convert f.conversion (.text w) = .ok (.text w') := by
    rcases convert_cases f.conversion with hsome | hfails
    · obtain ⟨s', hs'⟩ := hsome s
      obtain ⟨w', hw'⟩ := hsome w
      exact ⟨s', w', Except.ok.inj (hu'.symm.trans hs'), hw'⟩
    · obtain ⟨e, he⟩ := hfails s
      exact nomatch he.symm.trans hu'
  obtain ⟨v', hv'⟩ : ∃ v', layOut host.largestWidth f.layout w' = .ok v' := by
    rcases layOut_cases host.largestWidth f.layout with ⟨l, -, hl⟩ | hfails
    · exact ⟨_, hl _⟩
    · obtain ⟨e, he⟩ := hfails s'
      exact nomatch he.symm.trans h
  exact ⟨v', bind_eq_ok.2 ⟨_, hw, bind_eq_ok.2 ⟨_, hw', hv'⟩⟩⟩

/-- A field that shows its value as it is is a part of what the form makes of names. -/
theorem exists_part (hdot : '.' ∉ f.name) (hu : f.Unquoted) {c : Char} {v : List Char}
    (h : f.fill host [c] = .ok v) :
    ∃ p : Part, (p.IsWhole → f.IsWhole) ∧ (∀ s, f.Shows s → p.Shows s) ∧
      ∀ s ≠ [], f.fill host s = .ok (p.fill s) := by
  obtain ⟨u, hvalue, -⟩ := bind_eq_ok.1 h
  have hconvert : ∀ s, convert f.conversion (.text s) = .ok (.text s) := by
    rcases hu with hu | hu <;> exact fun s => by rw [hu]; rfl
  have hfill : ∀ s w, lookUp host s f.name = .ok (.text w) →
      f.fill host s = layOut host.largestWidth f.layout w := fun s w hw => by
    rw [fill, hw]
    show (convert f.conversion (.text w) >>= (·.layOut host.largestWidth f.layout)) = _
    rw [hconvert]
    rfl
  rcases layOut_cases host.largestWidth f.layout with ⟨l, hread, hl⟩ | hlayout
  · rcases lookUp_cases host hdot with ⟨hname, hwhole⟩ | ⟨hname, hfirst⟩ | hfails
    · refine ⟨.name l, fun hp => ⟨hname, l, hread, hp⟩, ?_, fun s _ => ?_⟩
      · rintro s ⟨-, l', hread', hp, hfilling⟩
        obtain rfl : l = l' := Except.ok.inj (hread.symm.trans hread')
        exact ⟨hp, hfilling⟩
      · rw [hfill s s (hwhole s), hl]
        rfl
    · refine ⟨.first l, False.elim, fun s hs => absurd hs.1 hname, fun s hs => ?_⟩
      obtain ⟨d, r, rfl⟩ := List.exists_cons_of_ne_nil hs
      rw [hfill _ _ (hfirst d r), hl]
      rfl
    · obtain ⟨e, he⟩ := hfails c
      exact nomatch he.symm.trans hvalue
  · obtain ⟨w, rfl⟩ := exists_text_of_lookUp hdot hvalue
    obtain ⟨e, he⟩ := hlayout w
    exact nomatch ((hfill _ _ hvalue).trans he).symm.trans h

end Field

/-! ## Forms -/

theorem fillFrom_eq_ok_iff (hf : Flat form) {depth : Nat} {v : List Char} :
    fillFrom host (depth + 1) name form = .ok v ↔
      ∃ texts, (pieces form).mapM (·.fill host name) = .ok texts ∧ texts.flatten = v := by
  rw [fillFrom_of_flat hf, map_eq_pure_bind, bind_eq_ok]
  simp only [pure, Except.pure, Except.ok.injEq]

theorem Piece.exists_fill {p : Piece} (hdot : ∀ f, p = .field f → '.' ∉ f.name) {c : Char}
    {v : List Char} (h : p.fill host [c] = .ok v) (hn : name ≠ []) : ∃ v, p.fill host name = .ok v := by
  cases p with
  | char d => exact ⟨_, rfl⟩
  | field f => exact Field.exists_fill (hdot f rfl) h hn
  | stop e => cases h

/-- **One name tells for all**: a form that can be filled in with a name of one character can be filled in with
every name. -/
theorem exists_fill_iff (hf : Flat form) (ha : AttributeFree form) (depth : Nat) (c : Char) :
    (∀ s ≠ [], ∃ v, fillFrom host (depth + 1) s form = .ok v) ↔
      ∃ v, fillFrom host (depth + 1) [c] form = .ok v := by
  refine ⟨fun h => h [c] (List.cons_ne_nil _ _), ?_⟩
  rintro ⟨v, h⟩ s hs
  obtain ⟨texts, htexts, -⟩ := (fillFrom_eq_ok_iff hf).1 h
  obtain ⟨texts', htexts'⟩ := exists_mapM_ok fun p hp => by
    obtain ⟨u, -, hu⟩ := mem_of_mapM_ok htexts hp
    exact Piece.exists_fill (by rintro f rfl; exact ha f hp) hu hs
  exact ⟨_, (fillFrom_eq_ok_iff hf).2 ⟨texts', htexts', rfl⟩⟩

/-- Pieces that show values as they are make parts of names. -/
theorem exists_parts_of_pieces {l : List Piece} (ha : ∀ f, .field f ∈ l → '.' ∉ f.name)
    (hu : ∀ f, .field f ∈ l → f.Unquoted) {c : Char} {texts : List (List Char)}
    (h : l.mapM (·.fill host [c]) = .ok texts) :
    ∃ parts : List Part, (∀ s ≠ [], l.mapM (·.fill host s) = .ok (parts.map (·.fill s))) ∧
      (∀ f, .field f ∈ l → ∀ s, f.Shows s → ∃ p ∈ parts, p.Shows s) ∧
      ((∀ f, .field f ∈ l → ¬ f.IsWhole) → ∀ p ∈ parts, ¬ p.IsWhole) := by
  induction l generalizing texts with
  | nil => exact ⟨[], fun _ _ => rfl, fun _ => nofun, fun _ => List.forall_mem_nil _⟩
  | cons x l ih =>
    rw [List.mapM_cons] at h
    obtain ⟨v, hv, h⟩ := bind_eq_ok.1 h
    obtain ⟨texts', htexts, -⟩ := bind_eq_ok.1 h
    obtain ⟨parts, hfill, hshows, hwhole⟩ := ih (fun f hf => ha f (List.mem_cons_of_mem _ hf))
      (fun f hf => hu f (List.mem_cons_of_mem _ hf)) htexts
    obtain ⟨p, hp, hpshows, hpwhole⟩ : ∃ p : Part, (∀ s ≠ [], x.fill host s = .ok (p.fill s)) ∧
        (∀ f, x = .field f → ∀ s, f.Shows s → p.Shows s) ∧
        (p.IsWhole → ∃ f, x = .field f ∧ f.IsWhole) := by
      cases x with
      | char d => exact ⟨.char d, fun _ _ => rfl, nofun, False.elim⟩
      | stop e => cases hv
      | field f =>
        obtain ⟨p, hw, hs, hp⟩ := Field.exists_part (ha f List.mem_cons_self) (hu f List.mem_cons_self) hv
        refine ⟨p, hp, ?_, fun h => ⟨f, rfl, hw h⟩⟩
        rintro f' ⟨⟩
        exact hs
    refine ⟨p :: parts, fun s hs => ?fills, fun f hf s hfs => ?shows, fun hnone => ?whole⟩
    case fills =>
      rw [List.mapM_cons, hp s hs, hfill s hs]
      rfl
    case shows =>
      rcases List.mem_cons.1 hf with hf | hf
      · exact ⟨p, List.mem_cons_self, hpshows f hf.symm s hfs⟩
      · obtain ⟨q, hq, hqs⟩ := hshows f hf s hfs
        exact ⟨q, List.mem_cons_of_mem _ hq, hqs⟩
    case whole =>
      refine List.forall_mem_cons.2 ⟨fun h => ?_, hwhole fun f hf => hnone f (List.mem_cons_of_mem _ hf)⟩
      obtain ⟨f, rfl, hf⟩ := hpwhole h
      exact hnone f List.mem_cons_self hf

/-- All fields of the form show their values as they are. -/
def Unquoted (form : List Char) : Prop := ∀ f, .field f ∈ pieces form → f.Unquoted

/-- A field of the form shows all of a name, and does not pad it with one of its characters. -/
def Shows (form name : List Char) : Prop := ∃ f, .field f ∈ pieces form ∧ f.Shows name

/-- **A form is made of parts**, if it can be filled in at all. -/
theorem exists_parts (hf : Flat form) (ha : AttributeFree form) (hu : Unquoted form) {depth : Nat} {c : Char}
    {v : List Char} (h : fillFrom host (depth + 1) [c] form = .ok v) :
    ∃ parts : List Part,
      (∀ s ≠ [], fillFrom host (depth + 1) s form = .ok (parts.flatMap (·.fill s))) ∧
      (∀ s, Shows form s → ∃ p ∈ parts, p.Shows s) ∧
      ((∀ f, .field f ∈ pieces form → ¬ f.IsWhole) → ∀ p ∈ parts, ¬ p.IsWhole) := by
  obtain ⟨texts, htexts, -⟩ := (fillFrom_eq_ok_iff hf).1 h
  obtain ⟨parts, hfill, hshows, hwhole⟩ := exists_parts_of_pieces ha hu htexts
  refine ⟨parts, fun s hs => ?_, ?_, hwhole⟩
  · exact (fillFrom_eq_ok_iff hf).2 ⟨_, hfill s hs, (List.flatMap_def ..).symm⟩
  · rintro s ⟨f, hmem, hs⟩
    exact hshows f hmem s hs

end Actionbook.Form
