import Actionbook.Config.Basic
import Actionbook.Proofs.Forms
import Actionbook.Proofs.Identifiers

/-!
# What is checked of configurations

The output groups of a configuration are checked when they are read, and used when files are named. The checks
have gaps. A value of a wrong shape is refused, but only some shapes are reported (`Config.Shaped`). A form for
file names is looked through for the place of the name as a text, which it may hold without showing the name.

* `Config.shaped_of_ok`, `Config.reported_of_error`: what is accepted, and what is reported.
* `OutputGroup.exists_pathFor_all_iff`: a form gives paths to all names or to none of one character.
* `OutputGroup.eq_of_pathFor_eq`, `OutputGroup.exists_pathFor_eq`: when names can be told by their paths.
-/

namespace Actionbook

/-! ## Paths -/

theorem startsWith_slash {s : String} : s.startsWith "/" = true ↔ s.toList.head? = some '/' := by
  rw [String.startsWith_string_iff, show "/".toList = ['/'] from rfl]
  cases s.toList <;> simp [eq_comm]

/-- A path that is not absolute stands behind its directory. -/
theorem exists_toList_joinPath {directory : String} (hd : directory ≠ "") :
    ∃ front : List Char, front ≠ [] ∧ ∀ path : String, (joinPath directory path).toList =
      if path.toList.head? = some '/' then path.toList else front ++ path.toList := by
  have hlist : directory.toList ≠ [] := by simpa using hd
  by_cases hclosed : directory.isEmpty || directory.endsWith "/"
  · refine ⟨directory.toList, hlist, fun path => ?_⟩
    simp only [joinPath, startsWith_slash, hclosed, if_true]
    split <;> simp
  · refine ⟨directory.toList ++ ['/'], by simp, fun path => ?_⟩
    simp only [joinPath, startsWith_slash, hclosed]
    split <;> simp

/-- Paths in one directory are the same only for the same file names, if these are made of names of different
length: the longer one is absolute only if the shorter one is. -/
theorem eq_of_joinPath_eq {directory s t : String} (hd : directory ≠ "")
    (hlen : s.toList.length ≤ t.toList.length)
    (habsolute : t.toList.head? = some '/' → s.toList.head? = some '/')
    (h : joinPath directory s = joinPath directory t) : s = t := by
  obtain ⟨front, hfront, hjoin⟩ := exists_toList_joinPath hd
  have hlists := congrArg String.toList h
  rw [hjoin, hjoin] at hlists
  by_cases ht : t.toList.head? = some '/'
  · rw [if_pos ht, if_pos (habsolute ht)] at hlists
    exact String.toList_inj.1 hlists
  · rw [if_neg ht] at hlists
    split at hlists
    · have hlength := congrArg List.length hlists
      have hpos := List.length_pos_iff.2 hfront
      rw [List.length_append] at hlength
      omega
    · exact String.toList_inj.1 (List.append_cancel_left hlists)

namespace Form

theorem fill_eq_ok_iff {host : Host} {form name : String} {s : String} :
    fill form name host = .ok s ↔ fillFrom host 2 name.toList form.toList = .ok s.toList := by
  unfold fill
  cases fillFrom host 2 name.toList form.toList with
  | error e => exact iff_of_false nofun nofun
  | ok v =>
    show Except.ok (String.ofList v) = Except.ok s ↔ _
    rw [Except.ok.injEq, Except.ok.injEq, ← String.toList_inj, String.toList_ofList]

end Form

namespace OutputGroup

variable {g : OutputGroup} {host : Form.Host} {form m n : String} {c : Char}

/-- The group has a directory that is a text, or none. -/
def HasPlace (g : OutputGroup) : Prop := g.directory.isGiven = true → ∃ d, g.directory = .text d

/-- The path of a file with a name of its own. -/
def placed (g : OutputGroup) (filename : String) : Except OutputError Data :=
  if g.directory.isGiven then joinData g.directory (.text filename) else .ok (.text filename)

theorem exists_placed_iff {s : String} : (∃ p, g.placed s = .ok p) ↔ g.HasPlace := by
  unfold placed HasPlace
  cases g.directory.isGiven with
  | false => simp
  | true => cases g.directory <;> simp [joinData]

theorem eq_of_placed_eq {s t : String} (hplace : g.HasPlace) (hlen : s.toList.length ≤ t.toList.length)
    (habsolute : t.toList.head? = some '/' → s.toList.head? = some '/')
    (h : g.placed s = g.placed t) : s = t := by
  unfold placed at h
  cases hgiven : g.directory.isGiven with
  | false =>
    rw [hgiven] at h
    exact Data.text.inj (Except.ok.inj h)
  | true =>
    obtain ⟨d, hd⟩ := hplace hgiven
    rw [hgiven, hd] at h
    rw [hd] at hgiven
    have hne : d ≠ "" := by simpa [Data.isGiven] using hgiven
    exact eq_of_joinPath_eq hne hlen habsolute (Data.text.inj (Except.ok.inj h))

theorem pathFor_of_fill {name s : String} (hg : g.files = .each (.text form))
    (h : Form.fill form name host = .ok s) : g.pathFor name host = g.placed s := by
  simp only [pathFor, filenameFor, hg, h]
  rfl

theorem exists_pathFor_iff {name : String} (hg : g.files = .each (.text form)) :
    (∃ p, g.pathFor name host = .ok p) ↔ g.HasPlace ∧ ∃ s, Form.fill form name host = .ok s := by
  cases hfill : Form.fill form name host with
  | error e =>
    have herror : g.pathFor name host = .error (.form e) := by
      simp only [pathFor, filenameFor, hg, hfill]
      rfl
    rw [herror]
    exact iff_of_false (fun ⟨_, h⟩ => nomatch h) (fun ⟨_, _, h⟩ => nomatch h)
  | ok s =>
    rw [pathFor_of_fill hg hfill, exists_placed_iff]
    exact ⟨fun h => ⟨h, s, rfl⟩, And.left⟩

/-- **One name tells for all**: if a name of one character has a path, all names have. -/
theorem exists_pathFor_all_iff (hg : g.files = .each (.text form)) (hflat : Form.Flat form.toList)
    (hfree : Form.AttributeFree form.toList) (host : Form.Host) (c : Char) :
    (∀ name ≠ "", ∃ p, g.pathFor name host = .ok p) ↔
      ∃ p, g.pathFor (String.singleton c) host = .ok p := by
  refine ⟨fun h => h _ (String.singleton_ne_empty), fun h name hn => ?_⟩
  obtain ⟨hplace, s, hs⟩ := (exists_pathFor_iff hg).1 h
  rw [Form.fill_eq_ok_iff, String.toList_singleton] at hs
  obtain ⟨v, hv⟩ := (Form.exists_fill_iff hflat hfree 1 c).2 ⟨_, hs⟩ name.toList (by simpa using hn)
  refine (exists_pathFor_iff hg).2 ⟨hplace, String.ofList v, ?_⟩
  rw [Form.fill_eq_ok_iff, String.toList_ofList]
  exact hv

/-- What a form makes of names, as a text for each name. -/
theorem exists_fill_parts (hg : g.files = .each (.text form)) (hflat : Form.Flat form.toList)
    (hfree : Form.AttributeFree form.toList) (hu : Form.Unquoted form.toList)
    (h : ∃ p, g.pathFor (String.singleton c) host = .ok p) :
    g.HasPlace ∧ ∃ parts : List Form.Part,
      (∀ name ≠ "", g.pathFor name host = g.placed (String.ofList (parts.flatMap (·.fill name.toList)))) ∧
      (∀ name, Form.Shows form.toList name → ∃ p ∈ parts, p.Shows name) ∧
      ((∀ f, .field f ∈ Form.pieces form.toList → ¬ f.IsWhole) → ∀ p ∈ parts, ¬ p.IsWhole) := by
  obtain ⟨hplace, s, hs⟩ := (exists_pathFor_iff hg).1 h
  rw [Form.fill_eq_ok_iff, String.toList_singleton] at hs
  obtain ⟨parts, hfill, hshows, hwhole⟩ := Form.exists_parts hflat hfree hu hs
  refine ⟨hplace, parts, fun name hn => pathFor_of_fill hg ?_, hshows, hwhole⟩
  rw [Form.fill_eq_ok_iff, String.toList_ofList]
  exact hfill _ (by simpa using hn)

/-- **Different names have different paths**, if they have no slash and the form shows all of them. -/
theorem eq_of_pathFor_eq (hg : g.files = .each (.text form)) (hflat : Form.Flat form.toList)
    (hfree : Form.AttributeFree form.toList) (hu : Form.Unquoted form.toList)
    (hc : ∃ p, g.pathFor (String.singleton c) host = .ok p)
    (hm : m ≠ "") (hn : n ≠ "") (hmslash : '/' ∉ m.toList) (hnslash : '/' ∉ n.toList)
    (hmshows : Form.Shows form.toList m.toList) (hnshows : Form.Shows form.toList n.toList)
    (h : g.pathFor m host = g.pathFor n host) : m = n := by
  obtain ⟨hplace, parts, hpath, hshows, -⟩ := exists_fill_parts hg hflat hfree hu hc
  rw [hpath m hm, hpath n hn] at h
  have hlists : ∀ s t : List Char, s ≠ [] → '/' ∉ t → s.length ≤ t.length →
      g.placed (String.ofList (parts.flatMap (·.fill s))) =
        g.placed (String.ofList (parts.flatMap (·.fill t))) →
      parts.flatMap (·.fill s) = parts.flatMap (·.fill t) := by
    intro s t hs ht hlen hplaced
    refine String.ofList_inj.1 (eq_of_placed_eq hplace ?_ ?_ hplaced) <;>
      simp only [String.toList_ofList]
    · exact Form.Part.length_flatMap_fill_le hlen
    · exact Form.Part.head?_flatMap_fill hs hlen ht
  refine String.toList_inj.1 (Form.Part.eq_of_flatMap_eq (hshows _ hmshows) (hshows _ hnshows) ?_)
  rcases Nat.le_total m.toList.length n.toList.length with hlen | hlen
  · exact hlists _ _ (by simpa using hm) hnslash hlen h
  · exact (hlists _ _ (by simpa using hn) hmslash hlen h.symm).symm

/-- If no field shows all of a name, names that start alike have one path. -/
theorem exists_pathFor_eq (hg : g.files = .each (.text form)) (hflat : Form.Flat form.toList)
    (hfree : Form.AttributeFree form.toList) (hu : Form.Unquoted form.toList)
    (hc : ∃ p, g.pathFor (String.singleton c) host = .ok p)
    (hcut : ∀ f, .field f ∈ Form.pieces form.toList → ¬ f.IsWhole) :
    ∃ k, ∀ m n : String, m ≠ "" → n ≠ "" → m.toList.take k = n.toList.take k →
      g.pathFor m host = g.pathFor n host := by
  obtain ⟨-, parts, hpath, -, hwhole⟩ := exists_fill_parts hg hflat hfree hu hc
  obtain ⟨k, hk⟩ := Form.Part.exists_flatMap_eq (hwhole hcut)
  refine ⟨k, fun m n hm hn htake => ?_⟩
  rw [hpath m hm, hpath n hn, hk _ _ htake]

end OutputGroup

/-! ## Errors -/

theorem bind_eq_error {ε α β : Type} {x : Except ε α} {f : α → Except ε β} {e : ε} :
    (x >>= f) = .error e ↔ x = .error e ∨ ∃ a, x = .ok a ∧ f a = .error e := by
  cases x with
  | error e' =>
    constructor
    · exact fun h => .inl (congrArg Except.error (Except.error.inj h))
    · rintro (h | ⟨a, h, -⟩)
      · exact congrArg Except.error (Except.error.inj h)
      · cases h
  | ok a =>
    constructor
    · exact fun h => .inr ⟨a, rfl, h⟩
    · rintro (h | ⟨b, hb, h⟩)
      · cases h
      · cases hb
        exact h

/-- If a list cannot be gone through, one of its elements is to blame. -/
theorem exists_of_mapM_error {ε α β : Type} {f : α → Except ε β} {l : List α} {e : ε}
    (h : l.mapM f = .error e) : ∃ a ∈ l, f a = .error e := by
  induction l with
  | nil => cases h
  | cons a l ih =>
    rw [List.mapM_cons, bind_eq_error] at h
    rcases h with h | ⟨b, -, h⟩
    · exact ⟨a, List.mem_cons_self, h⟩
    · rcases bind_eq_error.1 h with h | ⟨_, -, h⟩
      · obtain ⟨a', ha', he⟩ := ih h
        exact ⟨a', List.mem_cons_of_mem _ ha', he⟩
      · cases h

/-- The error is reported as one of a configuration. -/
def ConfigError.Reported (e : ConfigError) : Prop :=
  ∃ d, e.diagnostic? = some d ∧ d.code = "INVALID_OUTPUT_CONFIG" ∧ d.node = none

/-! ## Shapes -/

namespace FileNaming

variable {language filename form : Data} {category : Category}

theorem of_make_ok {files : FileNaming} (h : make language category filename form = .ok files) :
    (filename = .null → form ≠ .null → (form.holds? placeholder).isSome = true) ∧
      ∀ f, files = .each f → f.holds? placeholder = some true := by
  unfold make at h
  split at h
  · cases h
  · cases h
    exact ⟨fun _ h => absurd rfl h, nofun⟩
  · split at h
    · cases h
    · cases h
    · rename_i hholds
      cases h
      refine ⟨fun _ _ => by rw [hholds]; rfl, ?_⟩
      rintro f ⟨⟩
      exact hholds
  · cases h

theorem reported_of_make_error {e : ConfigError}
    (hform : filename = .null → form ≠ .null → (form.holds? placeholder).isSome = true)
    (h : make language category filename form = .error e) : e.Reported := by
  unfold make at h
  split at h
  · cases h
    exact ⟨_, rfl, rfl, rfl⟩
  · cases h
  · rename_i hne
    split at h
    · rename_i hholds
      have hsome := hform rfl hne
      rw [hholds] at hsome
      cases hsome
    · cases h
      exact ⟨_, rfl, rfl, rfl⟩
    · cases h
  · cases h
    exact ⟨_, rfl, rfl, rfl⟩

end FileNaming

namespace Config

variable {language : String} {category : Category} {asked : Option Category}
  {entries : List (Data × Data)} {config value : Data} {group : OutputGroup} {groups : List OutputGroup}
  {e : ConfigError}

/-- The settings of a group that is not complained of: the further ones will do for a mapping, and a form that
is not needless can be looked through for the place of the name. -/
structure GroupShaped (entry : List (Data × Data)) : Prop where
  settings : ∃ further, Data.asEntries (orNothing (lookUp entry "context")) = .ok further
  form : lookUp entry "filename" = .null → lookUp entry "named_filename" ≠ .null →
    ((lookUp entry "named_filename").holds? FileNaming.placeholder).isSome = true

theorem of_groupOf_ok (h : groupOf language category value = .ok group) :
    (∀ entry, value = .mapping entry → GroupShaped entry) ∧
      ∀ form, group.files = .each form → form.holds? FileNaming.placeholder = some true := by
  cases value with
  | mapping entry =>
    obtain ⟨naming, -, h⟩ := bind_eq_ok.1 h
    obtain ⟨settings, hsettings, h⟩ := bind_eq_ok.1 h
    obtain ⟨files, hfiles, h⟩ := bind_eq_ok.1 h
    obtain ⟨hform, hholds⟩ := FileNaming.of_make_ok hfiles
    cases h
    refine ⟨?_, hholds⟩
    rintro entry' ⟨⟩
    refine ⟨?_, hform⟩
    unfold contextOf at hsettings
    split at hsettings
    · rename_i further hfurther
      exact ⟨further, hfurther⟩
    · cases hsettings
  | _ => cases h

theorem reported_of_groupOf_error (hshape : ∀ entry, value = .mapping entry → GroupShaped entry)
    (h : groupOf language category value = .error e) : e.Reported := by
  cases value with
  | mapping entry =>
    obtain ⟨⟨further, hfurther⟩, hform⟩ := hshape entry rfl
    rcases bind_eq_error.1 h with h | ⟨naming, -, h⟩
    · unfold namingOf at h
      dsimp only at h
      split at h
      · cases h
      · cases h
        exact ⟨_, rfl, rfl, rfl⟩
    rcases bind_eq_error.1 h with h | ⟨settings, -, h⟩
    · rw [contextOf, hfurther] at h
      cases h
    rcases bind_eq_error.1 h with h | ⟨files, -, h⟩
    · exact FileNaming.reported_of_make_error hform h
    · cases h
  | _ =>
    cases h
    exact ⟨_, rfl, rfl, rfl⟩

/-- The values that describe the groups of a category: those of a list, or one. -/
def groupValues : Data → List Data
  | .list l => l
  | v => [v]

theorem groupsOf_eq {entry : Data × Data} (h : Category.ofData entry.1 = .ok category) :
    groupsOf language asked entry = if asked.any (· ≠ category) then .ok []
      else (groupValues entry.2).mapM (groupOf language category) := by
  unfold groupsOf
  rw [h]
  show (if asked.any (· ≠ category) then _ else _) = _
  split
  · rfl
  · cases hv : entry.2 <;> simp [groupValues, List.mapM_cons]

/-- The outputs of a language that are not complained of: the groups of the categories that are asked for. -/
def OutputsShaped (asked : Option Category) (outputs : List (Data × Data)) : Prop :=
  ∀ entry ∈ outputs, ∀ c, Category.ofData entry.1 = .ok c → asked.any (· ≠ c) = false →
    ∀ v ∈ groupValues entry.2, ∀ settings, v = .mapping settings → GroupShaped settings

/-- What is asked of the shape of a configuration: its languages are a mapping, and so are the outputs of the
language, if there are any. A language that is missing can be reported if the others can be sorted. -/
def Shaped (entries : List (Data × Data)) (language : String) (asked : Option Category) : Prop :=
  ∃ languages, orNothing (lookUp entries "languages") = .mapping languages ∧
    (languages.any (fun e => Data.isText language e.1) = true → ∃ outputs,
      orNothing (lookUp languages language) = .mapping outputs ∧ OutputsShaped asked outputs) ∧
    (languages.any (fun e => Data.isText language e.1) = false →
      (Data.sort? (languages.map (·.1))).isSome = true)

theorem ofData_name (c : Category) : Category.ofData (.text c.name) = .ok c := by
  cases c <;> rfl

/-- The groups for a language whose outputs are a mapping, or the reason why there are none. -/
theorem outputGroups_eq {languages : List (Data × Data)}
    (hlanguages : orNothing (lookUp entries "languages") = .mapping languages) :
    outputGroups (.mapping entries) language (asked.map fun c => .text c.name) =
      if languages.any (fun e => Data.isText language e.1) then do
        let parts ← (← settings (orNothing (lookUp languages language))).mapM (groupsOf language asked)
        return parts.flatten
      else
        match Data.sort? (languages.map (·.1)) with
        | some available => .error (.unknownLanguage language available)
        | none => .error .unsuitable := by
  unfold outputGroups
  simp only [settings, bind, Except.bind, hlanguages, Data.holds?, Data.members?, Option.bind]
  cases hknown : languages.any fun e => Data.isText language e.1 with
  | false =>
    cases Data.sort? (languages.map (·.1)) <;> rfl
  | true =>
    cases asked with
    | none => rfl
    | some c =>
      simp only [Option.map_some, ofData_name]
      rfl

theorem exists_languages_of_ok
    (h : outputGroups (.mapping entries) language (asked.map fun c => .text c.name) = .ok groups) :
    ∃ languages, orNothing (lookUp entries "languages") = .mapping languages := by
  have houtputs : ∃ outputs, outputsOf (orNothing (lookUp entries "languages")) language = .ok outputs := by
    unfold outputGroups at h
    simp only [settings, bind, Except.bind] at h
    split at h
    · cases h
    · split at h <;> cases h
    · cases asked with
      | none =>
        obtain ⟨outputs, houtputs, -⟩ := bind_eq_ok.1 h
        exact ⟨outputs, houtputs⟩
      | some c =>
        simp only [Option.map_some, ofData_name] at h
        obtain ⟨outputs, houtputs, -⟩ := bind_eq_ok.1 h
        exact ⟨outputs, houtputs⟩
  obtain ⟨outputs, houtputs⟩ := houtputs
  unfold outputsOf at houtputs
  split at houtputs
  · rename_i languages hlanguages
    exact ⟨languages, hlanguages⟩
  · cases houtputs

theorem settings_eq_ok {v : Data} {e : List (Data × Data)} (h : settings v = .ok e) : v = .mapping e := by
  cases v with
  | mapping e => cases h; rfl
  | _ => cases h

theorem of_groupsOf_ok {entry : Data × Data} (h : groupsOf language asked entry = .ok groups) :
    (∀ c, Category.ofData entry.1 = .ok c → asked.any (· ≠ c) = false →
      ∀ v ∈ groupValues entry.2, ∀ settings, v = .mapping settings → GroupShaped settings) ∧
    ∀ group ∈ groups, ∀ form, group.files = .each form →
      form.holds? FileNaming.placeholder = some true := by
  cases hc : Category.ofData entry.1 with
  | error e =>
    unfold groupsOf at h
    rw [hc] at h
    cases h
  | ok c =>
    rw [groupsOf_eq hc] at h
    cases hasked : asked.any (· ≠ c) with
    | true =>
      rw [hasked] at h
      cases h
      refine ⟨?_, List.forall_mem_nil _⟩
      rintro c' ⟨⟩ hasked'
      rw [hasked] at hasked'
      cases hasked'
    | false =>
      rw [hasked] at h
      constructor
      · rintro c' ⟨⟩ - v hv
        obtain ⟨group, -, hgroup⟩ := mem_of_mapM_ok h hv
        exact (of_groupOf_ok hgroup).1
      · intro group hgroup
        obtain ⟨v, -, hv⟩ := exists_of_mapM_ok h hgroup
        exact (of_groupOf_ok hv).2

theorem reported_of_groupsOf_error {entry : Data × Data}
    (hshape : ∀ c, Category.ofData entry.1 = .ok c → asked.any (· ≠ c) = false →
      ∀ v ∈ groupValues entry.2, ∀ settings, v = .mapping settings → GroupShaped settings)
    (h : groupsOf language asked entry = .error e) : e.Reported := by
  cases hc : Category.ofData entry.1 with
  | error _ =>
    unfold groupsOf at h
    rw [hc] at h
    cases h
    exact ⟨_, rfl, rfl, rfl⟩
  | ok c =>
    rw [groupsOf_eq hc] at h
    cases hasked : asked.any (· ≠ c) with
    | true =>
      rw [hasked] at h
      cases h
    | false =>
      rw [hasked] at h
      obtain ⟨v, hv, hgroup⟩ := exists_of_mapM_error h
      exact reported_of_groupOf_error (hshape c hc hasked v hv) hgroup

/-- **What is accepted has the shape that is asked for**, and its forms hold the place of the name. -/
theorem shaped_of_ok
    (h : outputGroups (.mapping entries) language (asked.map fun c => .text c.name) = .ok groups) :
    Shaped entries language asked ∧ ∀ group ∈ groups, ∀ form, group.files = .each form →
      form.holds? FileNaming.placeholder = some true := by
  obtain ⟨languages, hlanguages⟩ := exists_languages_of_ok h
  rw [outputGroups_eq hlanguages] at h
  cases hknown : languages.any fun e => Data.isText language e.1 with
  | false =>
    rw [hknown] at h
    cases hsort : Data.sort? (languages.map (·.1)) <;> simp [hsort] at h
  | true =>
    rw [hknown, if_pos rfl] at h
    obtain ⟨outputs, houtputs, h⟩ := bind_eq_ok.1 h
    obtain ⟨parts, hparts, h⟩ := bind_eq_ok.1 h
    cases h
    refine ⟨⟨languages, hlanguages, fun _ => ⟨outputs, settings_eq_ok houtputs, ?outputs⟩,
      fun hunknown => ?unknown⟩, fun group hgroup => ?forms⟩
    case outputs =>
      intro entry hentry
      obtain ⟨part, -, hpart⟩ := mem_of_mapM_ok hparts hentry
      exact (of_groupsOf_ok hpart).1
    case unknown =>
      rw [hknown] at hunknown
      cases hunknown
    case forms =>
      obtain ⟨part, hpart, hgroup⟩ := List.mem_flatten.1 hgroup
      obtain ⟨entry, -, hentry⟩ := exists_of_mapM_ok hparts hpart
      exact (of_groupsOf_ok hentry).2 group hgroup

/-- **What is wrong with a configuration of the shape that is asked for is reported.** -/
theorem reported_of_error (hshape : Shaped entries language asked)
    (h : outputGroups (.mapping entries) language (asked.map fun c => .text c.name) = .error e) :
    e.Reported := by
  obtain ⟨languages, hlanguages, houtputs, hsorted⟩ := hshape
  rw [outputGroups_eq hlanguages] at h
  cases hknown : languages.any fun e => Data.isText language e.1 with
  | false =>
    rw [hknown] at h
    obtain ⟨available, havailable⟩ := Option.isSome_iff_exists.1 (hsorted hknown)
    rw [havailable] at h
    cases h
    exact ⟨_, rfl, rfl, rfl⟩
  | true =>
    obtain ⟨outputs, hmapping, hshape⟩ := houtputs hknown
    rw [hknown, if_pos rfl, hmapping] at h
    rcases bind_eq_error.1 h with h | ⟨_, hsettings, h⟩
    · cases h
    · cases hsettings
      rcases bind_eq_error.1 h with h | ⟨_, -, h⟩
      · obtain ⟨entry, hentry, he⟩ := exists_of_mapM_error h
        exact reported_of_groupsOf_error (hshape entry hentry) he
      · cases h

end Config

/-! ## Files for identifiers -/

/-- A field of the form shows all of a name, and pads it, if at all, with a character that is in no
identifier. -/
def Form.ShowsIdentifiers (form : String) : Prop :=
  ∃ f, .field f ∈ pieces form.toList ∧ f.name = fieldName ∧ ∃ l, Layout.read f.layout = .ok l ∧
    l.precision = none ∧ (l.width = none ∨ isIdentifierChar l.filling = false)

theorem Form.ShowsIdentifiers.shows {form : String} (hf : ShowsIdentifiers form) (s : Subject)
    (naming : Naming) (h : Handle) : Shows form.toList (s.identifierAt naming h).toList := by
  obtain ⟨f, hmem, hname, l, hread, hprecision, hfilling⟩ := hf
  exact ⟨f, hmem, hname, l, hread, hprecision, hfilling.imp id (s.notMem_identifierAt naming h)⟩

/-- How a group whose files are named by a form serves names in a host. -/
structure OutputGroup.Serves (g : OutputGroup) (host : Form.Host) (form : String) : Prop where
  /-- If one name of one character has a path, all names have. -/
  paths : (∀ name ≠ "", ∃ p, g.pathFor name host = .ok p) ↔ ∃ p, g.pathFor "a" host = .ok p
  /-- Then identifiers that the form shows have paths, and different ones have different paths. -/
  apart : Form.Unquoted form.toList → (∃ p, g.pathFor "a" host = .ok p) → Form.ShowsIdentifiers form →
    ∀ (s t : Subject) (h k : Handle), ∃ p q, g.pathFor (s.identifierAt g.naming h) host = .ok p ∧
      g.pathFor (t.identifierAt g.naming k) host = .ok q ∧
      (p = q → s.identifierAt g.naming h = t.identifierAt g.naming k)
  /-- If no field shows all of a name, names that start alike have one path. -/
  together : Form.Unquoted form.toList → (∃ p, g.pathFor "a" host = .ok p) →
    (∀ f, .field f ∈ Form.pieces form.toList → ¬ f.IsWhole) →
    ∃ k, ∀ m n : String, m ≠ "" → n ≠ "" → m.toList.take k = n.toList.take k →
      g.pathFor m host = g.pathFor n host

theorem OutputGroup.serves {g : OutputGroup} {form : String} (hg : g.files = .each (.text form))
    (hflat : Form.Flat form.toList) (hfree : Form.AttributeFree form.toList) (host : Form.Host) :
    g.Serves host form := by
  have hsingleton : String.singleton 'a' = "a" := rfl
  have hpaths := exists_pathFor_all_iff hg hflat hfree host 'a'
  refine ⟨hsingleton ▸ hpaths, fun hu ha hshows s t h k => ?apart, fun hu ha hcut => ?together⟩
  case apart =>
    rw [← hsingleton] at ha
    have hs := s.identifierAt_ne_empty g.naming h
    have ht := t.identifierAt_ne_empty g.naming k
    have hslash : isIdentifierChar '/' = false := by decide
    obtain ⟨p, hp⟩ := hpaths.2 ha _ hs
    obtain ⟨q, hq⟩ := hpaths.2 ha _ ht
    refine ⟨p, q, hp, hq, fun hpq => ?_⟩
    exact eq_of_pathFor_eq hg hflat hfree hu ha hs ht (s.notMem_identifierAt _ h hslash)
      (t.notMem_identifierAt _ k hslash) (hshows.shows s _ h) (hshows.shows t _ k) (by rw [hp, hq, hpq])
  case together =>
    rw [← hsingleton] at ha
    exact exists_pathFor_eq hg hflat hfree hu ha hcut

/-- A form that is no text gives no name a path. -/
theorem OutputGroup.pathFor_of_no_text {g : OutputGroup} {form : Data} (hg : g.files = .each form)
    (hform : ∀ s, form ≠ .text s) (host : Form.Host) (name : String) :
    g.pathFor name host = .error .noForm := by
  unfold pathFor filenameFor
  rw [hg]
  cases form with
  | text s => exact absurd rfl (hform s)
  | _ => rfl

/-- **How far configurations are checked.** What is accepted has the shape that is asked for, and what is wrong
with a configuration of this shape is reported; a configuration of another shape is refused, perhaps without a
report. A form that is accepted holds the place of the name, which says little: it need not be a text. Where
its layouts hold no fields and it asks for no attributes it names, in every host, files for all names or for no
name, as a single name tells, and different identifiers have different files if a field shows them, but names
that start alike share one if none does. What a form with attributes makes of names is up to the host. -/
theorem configurations_are_checked_by_shape (entries : List (Data × Data)) (language : String)
    (asked : Option Category) :
    match Config.outputGroups (.mapping entries) language (asked.map fun c => .text c.name) with
    | .error e => Config.Shaped entries language asked → e.Reported
    | .ok groups => Config.Shaped entries language asked ∧
      ∀ g ∈ groups, ∀ form, g.files = .each form →
        form.holds? FileNaming.placeholder = some true ∧
        ((∀ s, form ≠ .text s) → ∀ host name, g.pathFor name host = .error .noForm) ∧
        ∀ s, form = .text s → Form.Flat s.toList → Form.AttributeFree s.toList →
          ∀ host, g.Serves host s := by
  cases houtcome : Config.outputGroups (.mapping entries) language (asked.map fun c => .text c.name) with
  | error e => exact fun hshape => Config.reported_of_error hshape houtcome
  | ok groups =>
    obtain ⟨hshaped, hforms⟩ := Config.shaped_of_ok houtcome
    refine ⟨hshaped, fun g hg form hfiles => ⟨hforms g hg form hfiles, ?_, ?_⟩⟩
    · exact OutputGroup.pathFor_of_no_text hfiles
    · rintro s rfl hflat hfree
      exact OutputGroup.serves hfiles hflat hfree

/-! ## Examples -/

/-- The form has no fields but those that show the name as it is. -/
def Form.Plain (form : String) : Prop :=
  ∀ f, .field f ∈ pieces form.toList → f = { name := fieldName }

theorem Form.Plain.flat {form : String} (hf : Plain form) : Flat form.toList := fun f hmem => by
  rw [hf f hmem]
  exact List.not_mem_nil

theorem Form.Plain.attributeFree {form : String} (hf : Plain form) : AttributeFree form.toList :=
  fun f hmem => by
    rw [hf f hmem]
    decide

theorem Form.Plain.unquoted {form : String} (hf : Plain form) : Unquoted form.toList := fun f hmem => by
  rw [hf f hmem]
  exact .inl rfl

theorem Form.showsIdentifiers_of_mem {form : String}
    (h : .field { name := fieldName } ∈ pieces form.toList) : ShowsIdentifiers form :=
  ⟨_, h, rfl, {}, rfl, rfl, .inl rfl⟩

/-- A configuration with one group of tests, whose files are named by a form. -/
def formConfig (form : String) : List (Data × Data) :=
  [(.text "languages", .mapping [(.text "python",
    .mapping [(.text Category.tests.name, .mapping [(.text "named_filename", .text form)])])])]

def formGroup (form : String) : OutputGroup where
  category := .tests
  language := .text "python"
  files := .each (.text form)

/-- Attributes may tell names apart that no field shows. -/
example :
    let host : Form.Host := { selectAttribute := fun s _ => .ok (.text s) }
    let g := formGroup "\x7b\x7bname\x7d\x7d\x7bname.itself\x7d"
    g.pathFor "a" host = .ok (.text "\x7bname\x7da") ∧
      g.pathFor "b" host = .ok (.text "\x7bname\x7db") := ⟨rfl, rfl⟩

/-- Groups with a form for names are accepted, and of different identifiers each has its file. A language that
is missing is reported. -/
theorem configurations_are_checked_by_shape_here :
    (Config.outputGroups (.mapping (formConfig "test_\x7bname\x7d.py")) "python" none =
        .ok [formGroup "test_\x7bname\x7d.py"] ∧
      ∀ (host : Form.Host) (s t : Subject) (h k : Handle), ∃ p q,
        (formGroup "test_\x7bname\x7d.py").pathFor (s.identifierAt .snake h) host = .ok p ∧
        (formGroup "test_\x7bname\x7d.py").pathFor (t.identifierAt .snake k) host = .ok q ∧
        (p = q → s.identifierAt .snake h = t.identifierAt .snake k)) ∧
    Config.outputGroups (.mapping (formConfig "")) "c" none =
        .error (.unknownLanguage "c" [.text "python"]) ∧
      (ConfigError.unknownLanguage "c" [.text "python"]).Reported := by
  have hgroups : Config.outputGroups (.mapping (formConfig "test_\x7bname\x7d.py")) "python" none =
      .ok [formGroup "test_\x7bname\x7d.py"] := rfl
  have hmissing : Config.outputGroups (.mapping (formConfig "")) "c" none =
      .error (.unknownLanguage "c" [.text "python"]) := rfl
  refine ⟨⟨hgroups, ?apart⟩, hmissing, ?reported⟩
  case apart =>
    have hchecked := configurations_are_checked_by_shape (formConfig "test_\x7bname\x7d.py") "python" none
    rw [Option.map_none, hgroups] at hchecked
    obtain ⟨-, hform⟩ := hchecked
    obtain ⟨-, -, hserves⟩ := hform _ (List.mem_singleton_self _) _ rfl
    have hpieces : Form.pieces "test_\x7bname\x7d.py".toList = "test_".toList.map .char ++
        .field { name := Form.fieldName } :: ".py".toList.map .char := by decide
    have hplain : Form.Plain "test_\x7bname\x7d.py" := fun f hmem => by
      rw [hpieces] at hmem
      simpa using hmem
    have hshows : Form.ShowsIdentifiers "test_\x7bname\x7d.py" :=
      Form.showsIdentifiers_of_mem (hpieces ▸ List.mem_append_right _ List.mem_cons_self)
    intro host
    exact (hserves _ rfl hplain.flat hplain.attributeFree host).apart hplain.unquoted ⟨_, rfl⟩ hshows
  case reported =>
    have hchecked := configurations_are_checked_by_shape (formConfig "") "c" none
    rw [Option.map_none, hmissing] at hchecked
    exact hchecked ⟨_, rfl, nofun, fun _ => rfl⟩

/-- **Not all that goes wrong is reported, and not all that is accepted works.** Languages that are a text are
refused without a report. A form with another field than the name is accepted, and no name has a path; one whose
braces are written twice is accepted, and all names have one path. -/
theorem configurations_slip_through :
    (Config.outputGroups (.mapping [(.text "languages", .text "python")]) "python" none =
        .error .unsuitable ∧ ¬ ConfigError.unsuitable.Reported) ∧
    (Config.outputGroups (.mapping (formConfig "\x7bname\x7d\x7bx\x7d")) "python" none =
        .ok [formGroup "\x7bname\x7d\x7bx\x7d"] ∧
      (formGroup "\x7bname\x7d\x7bx\x7d").pathFor "a" = .error (.form .unknownName)) ∧
    Config.outputGroups (.mapping (formConfig "\x7b\x7bname\x7d\x7d")) "python" none =
        .ok [formGroup "\x7b\x7bname\x7d\x7d"] ∧
      (formGroup "\x7b\x7bname\x7d\x7d").pathFor "a" = .ok (.text "\x7bname\x7d") ∧
      (formGroup "\x7b\x7bname\x7d\x7d").pathFor "b" = .ok (.text "\x7bname\x7d") := by
  refine ⟨⟨rfl, ?_⟩, ⟨rfl, rfl⟩, rfl, rfl, rfl⟩
  rintro ⟨d, hd, -⟩
  cases hd

end Actionbook
