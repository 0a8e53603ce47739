import Actionbook.Disk.Basic
import Mathlib.Algebra.Group.Nat.Defs
import Mathlib.Data.List.Nodup
import Mathlib.Data.List.Perm.Subperm

/-!
# Files are put into place

A change of a disk that fails halfway leaves what it has done. What a change may do is told by a relation
between the disk that it starts with and the disk that it ends with, whether or not it fails: to make
directories only adds directories (`Disk.Deepens`). The name of the file that is written first is not in
use (`Disk.at?_freshName`), so that to write it and to remove it leaves all entries, and to move it leaves
all but the one at its target.

* `Disk.ends_putInPlace`: a file is put into place, or all files are what they were.
* `Disk.putInPlace_iff`: where nothing stands in the way, a file is put into place.
-/

namespace Actionbook

namespace Disk

variable {d d' d'' : Disk} {place other p : Path}

/-! ## Entries -/

theorem at?_nil (d : Disk) : d.at? [] = some .directory := rfl

theorem ne_nil_of_free (h : d.at? place = none) : place ≠ [] := fun hp => by
  rw [hp, at?_nil] at h
  cases h

theorem at?_of_ne_nil (h : place ≠ []) : d.at? place = d.entries.lookup place := by
  rw [at?, if_neg (by simpa using h)]

theorem lookup_filter_ne {β : Type} (l : List (Path × β)) (place other : Path) :
    (l.filter fun x => x.1 != place).lookup other = if other = place then none else l.lookup other := by
  induction l with
  | nil => simp
  | cons x l ih =>
    obtain ⟨k, b⟩ := x
    by_cases hk : k = place
    · subst hk
      rw [List.filter_cons_of_neg (by simp), ih, List.lookup_cons]
      by_cases ho : other = k
      · simp [ho]
      · simp [ho, beq_false_of_ne ho]
    · rw [List.filter_cons_of_pos (by simpa using hk), List.lookup_cons, List.lookup_cons, ih]
      by_cases ho : other = k
      · simp [ho, hk]
      · simp [beq_false_of_ne ho]

theorem at?_put (hp : place ≠ []) (e : Entry) :
    (d.put place e).at? other = if other = place then some e else d.at? other := by
  by_cases ho : other = []
  · subst ho
    rw [if_neg (Ne.symm hp)]
    rfl
  · rw [at?_of_ne_nil ho, at?_of_ne_nil ho, put, List.lookup_append, lookup_filter_ne]
    by_cases h : other = place
    · simp [h]
    · rw [if_neg h, if_neg h, List.lookup_cons, beq_false_of_ne h]
      exact Option.or_none

theorem at?_erase (hp : place ≠ []) :
    (d.erase place).at? other = if other = place then none else d.at? other := by
  by_cases ho : other = []
  · subst ho
    rw [if_neg (Ne.symm hp)]
    rfl
  · rw [at?_of_ne_nil ho, at?_of_ne_nil ho, erase, lookup_filter_ne]

/-- The content of the file at a place, if there is a file. -/
def file? (d : Disk) (place : Path) : Option (List UInt8) :=
  match d.at? place with
  | some (.file content) => some content
  | _ => none

theorem file?_congr (h : d'.at? place = d.at? place) : d'.file? place = d.file? place := by
  rw [file?, file?, h]

/-! ## Places -/

/-- A place holds no name that leads up. -/
theorem above_not_mem_of_locateFrom {start : Path} (h : d.locateFrom start p = .ok place)
    (hs : Path.above ∉ start) : Path.above ∉ place := by
  induction p generalizing start with
  | nil =>
    cases h
    exact hs
  | cons name rest ih =>
    simp only [locateFrom] at h
    split at h
    · cases h
    · cases h
    · split at h
      · exact ih h fun hm => hs (List.dropLast_subset _ hm)
      · rename_i hname
        split at h
        · cases h
        · exact ih h (by simp [hs, Ne.symm hname])

/-- A path without a name that leads up is the place that it leads to. -/
theorem eq_of_locateFrom {start : Path} (h : d.locateFrom start p = .ok place)
    (hp : Path.above ∉ p) : place = start ++ p := by
  induction p generalizing start with
  | nil =>
    cases h
    exact (List.append_nil _).symm
  | cons name rest ih =>
    rw [List.mem_cons, not_or] at hp
    simp only [locateFrom, if_neg (Ne.symm hp.1)] at h
    split at h
    · cases h
    · cases h
    · split at h
      · cases h
      · rw [ih h hp.2, List.append_assoc, List.singleton_append]

/-- All places on the way of such a path are directories. -/
theorem directory_of_locateFrom {start q : Path} (h : d.locateFrom start p = .ok place)
    (hp : Path.above ∉ p) (hq : q <+: p) (hne : q ≠ p) : d.at? (start ++ q) = some .directory := by
  induction p generalizing start q with
  | nil => exact absurd (List.prefix_nil.1 hq) hne
  | cons name rest ih =>
    rw [List.mem_cons, not_or] at hp
    simp only [locateFrom, if_neg (Ne.symm hp.1)] at h
    split at h
    · cases h
    · cases h
    · rename_i hat
      split at h
      · cases h
      · obtain rfl | ⟨r, rfl, hr⟩ := List.prefix_cons_iff.1 hq
        · rwa [List.append_nil]
        · have hat' := ih h hp.2 hr (by simpa using hne)
          rwa [List.append_assoc] at hat'

/-- Where all directories are kept, paths lead to the places that they led to. -/
theorem locateFrom_mono (hd : ∀ q, d.at? q = some .directory → d'.at? q = some .directory)
    {start : Path} (h : d.locateFrom start p = .ok place) : d'.locateFrom start p = .ok place := by
  induction p generalizing start with
  | nil => exact h
  | cons name rest ih =>
    simp only [locateFrom] at h ⊢
    split at h
    · cases h
    · cases h
    · rename_i hat
      rw [hd _ hat]
      dsimp only
      split at h
      · rename_i hname
        rw [if_pos hname]
        exact ih h
      · rename_i hname
        rw [if_neg hname]
        split at h
        · cases h
        · rename_i hlong
          rw [if_neg hlong]
          exact ih h

/-! ## Fresh names -/

/-- The name that is tried after `n` others. -/
def triedName (n : Nat) : String := "tmp" ++ Decimal.integerText n ++ ".tmp"

theorem triedName_injective : Function.Injective triedName := by
  intro m n h
  have hdigits : Nat.toDigits 10 m = Nat.toDigits 10 n := by
    have hlists := congrArg String.toList h
    have hsign : ∀ k : Nat, ¬ (k : Int) < 0 := fun k => by omega
    simpa [triedName, Decimal.integerText, Decimal.digitsOf, hsign] using hlists
  rw [← Nat.ofDigitChars_ten_toDigits (n := m), hdigits, Nat.ofDigitChars_ten_toDigits]

theorem triedName_ne_above (n : Nat) : triedName n ≠ Path.above := fun h => by
  have := congrArg (fun s => s.toList.head?) h
  simp [triedName, Path.above] at this

/-- The name is free, or the last one of those that are tried, and all others are in use. -/
theorem freshName_spec (d : Disk) (place : Path) (fuel n : Nat) :
    ∃ m ≤ n + fuel, d.freshName place fuel n = triedName m ∧
      (d.at? (place ++ [triedName m]) = none ∨
        m = n + fuel ∧ ∀ k, n ≤ k → k < n + fuel → d.at? (place ++ [triedName k]) ≠ none) := by
  induction fuel generalizing n with
  | zero => exact ⟨n, Nat.le_refl _, rfl, .inr ⟨rfl, fun k hn hk => by omega⟩⟩
  | succ fuel ih =>
    by_cases hfree : (d.at? (place ++ [triedName n])).isNone = true
    · exact ⟨n, by omega, if_pos hfree, .inl (Option.isNone_iff_eq_none.1 hfree)⟩
    · obtain ⟨m, hle, hm, h⟩ := ih (n + 1)
      refine ⟨m, by omega, (if_neg hfree).trans hm, h.imp_right ?_⟩
      rintro ⟨rfl, hused⟩
      refine ⟨by omega, fun k hn hk => ?_⟩
      by_cases hkn : k = n
      · subst hkn
        simpa using hfree
      · exact hused k (by omega) (by omega)

/-- A disk has no more names in use than entries, so that one of as many tries and one more is free. -/
theorem exists_triedName_free (d : Disk) (place : Path) :
    ∃ k ≤ d.entries.length, d.at? (place ++ [triedName k]) = none := by
  by_contra hused
  push Not at hused
  let names := (List.range (d.entries.length + 1)).map fun k => place ++ [triedName k]
  have hnodup : names.Nodup := List.Nodup.map (fun i j h =>
    triedName_injective (by simpa using h)) List.nodup_range
  have hsubset : names ⊆ d.entries.map (·.1) := fun q hq => by
    obtain ⟨k, hk, rfl⟩ := List.mem_map.1 hq
    have hat := hused k (Nat.le_of_lt_succ (List.mem_range.1 hk))
    rw [at?_of_ne_nil (by simp), Option.ne_none_iff_exists'] at hat
    obtain ⟨e, he⟩ := hat
    obtain ⟨l₁, l₂, hl, -⟩ := List.lookup_eq_some_iff.1 he
    simp [hl]
  have hlength := (hnodup.subperm hsubset).length_le
  simp only [names, List.length_map, List.length_range] at hlength
  omega

/-- **The name of the file that is written first is not in use.** -/
theorem at?_freshName (d : Disk) (place : Path) :
    d.at? (place ++ [d.freshName place d.entries.length 0]) = none := by
  obtain ⟨m, -, hm, hfree | ⟨rfl, hused⟩⟩ := d.freshName_spec place d.entries.length 0
  · rw [hm, hfree]
  · obtain ⟨k, hk, hfree⟩ := d.exists_triedName_free place
    have hlast : k = 0 + d.entries.length := by
      by_contra hne
      exact hused k (Nat.zero_le k) (by omega) hfree
    rw [hm, ← hlast, hfree]

theorem freshName_ne_above (d : Disk) (place : Path) (fuel n : Nat) :
    d.freshName place fuel n ≠ Path.above := by
  obtain ⟨m, -, hm, -⟩ := d.freshName_spec place fuel n
  exact hm ▸ triedName_ne_above m

theorem utf8ByteSize_ofList {l : List Char} (h : ∀ c ∈ l, c.utf8Size = 1) :
    (String.ofList l).utf8ByteSize = l.length := by
  induction l with
  | nil => rfl
  | cons c l ih =>
    rw [String.ofList_cons, String.utf8ByteSize_append, String.utf8ByteSize_singleton,
      h c List.mem_cons_self, ih fun c hc => h c (List.mem_cons_of_mem _ hc), List.length_cons, Nat.add_comm]

/-- On a disk that is not as full as no disk is, the name is short enough. -/
theorem utf8ByteSize_freshName (d : Disk) (place : Path) {fuel n : Nat} (h : n + fuel < 10 ^ 248) :
    (d.freshName place fuel n).utf8ByteSize ≤ longestName := by
  obtain ⟨m, hle, hm, -⟩ := d.freshName_spec place fuel n
  have hdigits : (Nat.toDigits 10 m).length ≤ 248 :=
    (Nat.length_toDigits_le_iff (by omega) (by omega)).2 (by omega)
  have hsmall : ∀ c ∈ Nat.toDigits 10 m, c.utf8Size = 1 := fun c hc => by
    have hdigit := Nat.isDigit_of_mem_toDigits (by omega) (by omega) hc
    rw [Char.isDigit, Bool.and_eq_true, decide_eq_true_eq, decide_eq_true_eq] at hdigit
    exact if_pos (UInt32.le_trans hdigit.2 (by decide))
  have hsign : ¬ (m : Int) < 0 := by omega
  rw [hm, triedName, Decimal.integerText, if_neg hsign, String.utf8ByteSize_append,
    String.utf8ByteSize_append, Decimal.digitsOf, Int.natAbs_natCast, utf8ByteSize_ofList hsmall]
  have h₁ : "tmp".utf8ByteSize = 3 := rfl
  have h₂ : ".tmp".utf8ByteSize = 4 := rfl
  rw [h₁, h₂, longestName]
  omega

/-! ## Outcomes of changes -/

namespace Change

variable {α β : Type} {c : Change α} {post : Except DiskError α → Disk → Prop}

/-- The change of `d` ends, with a result or with an error, so that `post` holds. -/
def Ends (c : Change α) (d : Disk) (post : Except DiskError α → Disk → Prop) : Prop :=
  post (c.run.run d).1 (c.run.run d).2

theorem Ends.and {post' : Except DiskError α → Disk → Prop} (h : Ends c d post) (h' : Ends c d post') :
    Ends c d fun r d' => post r d' ∧ post' r d' := ⟨h, h'⟩

theorem Ends.mono {post' : Except DiskError α → Disk → Prop} (h : Ends c d post)
    (hp : ∀ r d', post r d' → post' r d') : Ends c d post' := hp _ _ h

@[simp] theorem ends_pure {a : α} : Ends (pure a) d post ↔ post (.ok a) d := Iff.rfl

@[simp] theorem ends_throw {e : DiskError} : Ends (throw e : Change α) d post ↔ post (.error e) d :=
  Iff.rfl

@[simp] theorem ends_get {post : Except DiskError Disk → Disk → Prop} :
    Ends (get : Change Disk) d post ↔ post (.ok d) d := Iff.rfl

@[simp] theorem ends_modify {f : Disk → Disk} {post : Except DiskError PUnit → Disk → Prop} :
    Ends (modify f : Change PUnit) d post ↔ post (.ok ⟨⟩) (f d) := Iff.rfl

@[simp] theorem ends_bind {next : α → Change β} {post : Except DiskError β → Disk → Prop} :
    Ends (c >>= next) d post ↔ Ends c d fun r d' => match r with
      | .ok a => Ends (next a) d' post
      | .error e => post (.error e) d' := by
  have hrun : (c >>= next).run.run d = match c.run.run d with
      | (.ok a, d') => (next a).run.run d'
      | (.error e, d') => (.error e, d') := by
    simp only [ExceptT.run_bind, StateT.run_bind]
    rcases c.run.run d with ⟨e | a, d'⟩ <;> rfl
  unfold Ends
  rw [hrun]
  rcases c.run.run d with ⟨e | a, d'⟩ <;> rfl

@[simp] theorem ends_tryCatch {handler : DiskError → Change α} :
    Ends (tryCatch c handler) d post ↔ Ends c d fun r d' => match r with
      | .ok a => post (.ok a) d'
      | .error e => Ends (handler e) d' post := by
  have hrun : (tryCatch c handler).run.run d = match c.run.run d with
      | (.ok a, d') => (.ok a, d')
      | (.error e, d') => (handler e).run.run d' := by
    simp only [tryCatch, tryCatchThe, MonadExceptOf.tryCatch, ExceptT.tryCatch, ExceptT.run, ExceptT.mk,
      StateT.run, bind, StateT.bind]
    rcases (c d : Id (Except DiskError α × Disk)) with ⟨e | a, d'⟩ <;> rfl
  unfold Ends
  rw [hrun]
  rcases c.run.run d with ⟨e | a, d'⟩ <;> rfl

@[simp] theorem ends_look {f : Disk → Except DiskError α} : Ends (look f) d post ↔ post (f d) d := by
  unfold look
  rw [ends_bind, ends_get]
  dsimp only
  cases f d <;> rfl

@[simp] theorem ends_throwUnless {ok : Disk → Bool} {e : DiskError}
    {post : Except DiskError Unit → Disk → Prop} :
    Ends (do if !ok (← get) then throw e : Change Unit) d post ↔
      post (if ok d then .ok () else .error e) d := by
  rw [ends_bind, ends_get]
  dsimp only
  cases ok d <;> rfl

end Change

open Change (Ends)

/-! ## Making directories -/

/-- The entries of a disk are kept, and the others that there are now are directories. -/
def Deepens (d d' : Disk) : Prop :=
  ∀ place, d'.at? place = d.at? place ∨ d.at? place = none ∧ d'.at? place = some .directory

namespace Deepens

theorem refl (d : Disk) : d.Deepens d := fun _ => .inl rfl

theorem trans (h : d.Deepens d') (h' : d'.Deepens d'') : d.Deepens d'' := fun place => by
  rcases h place with h | ⟨h, hd⟩ <;> rcases h' place with h' | ⟨h', hd'⟩
  · exact .inl (h'.trans h)
  · exact .inr ⟨h ▸ h', hd'⟩
  · exact .inr ⟨h, h' ▸ hd⟩
  · exact .inr ⟨h, hd'⟩

theorem put (hp : d.at? place = none) : d.Deepens (d.put place .directory) := fun other => by
  rw [at?_put (ne_nil_of_free hp)]
  split
  · rename_i ho
    exact .inr ⟨ho ▸ hp, rfl⟩
  · exact .inl rfl

theorem file? (h : d.Deepens d') (place : Path) : d'.file? place = d.file? place := by
  rcases h place with h | ⟨h, hd⟩
  · exact file?_congr h
  · rw [Disk.file?, Disk.file?, h, hd]

theorem directory (h : d.Deepens d') (hp : d.at? place = some .directory) :
    d'.at? place = some .directory := by
  rcases h place with h | ⟨h, -⟩
  · exact h.trans hp
  · rw [hp] at h
    cases h

end Deepens

theorem ends_makeDirectory {post : Except DiskError Unit → Disk → Prop} :
    Ends (makeDirectory p) d post ↔ match d.locate p with
      | .error e => post (.error e) d
      | .ok place =>
        if (d.at? place).isSome then post (.error .present) d
        else post (.ok ()) (d.put place .directory) := by
  simp only [makeDirectory, Change.ends_bind, Change.ends_look]
  cases d.locate p with
  | error e => rfl
  | ok place =>
    simp only [Change.ends_get]
    split <;> rfl

theorem deepens_makeDirectory (d : Disk) (p : Path) :
    Ends (makeDirectory p) d fun _ d' => d.Deepens d' := by
  rw [ends_makeDirectory]
  split
  · exact .refl d
  · split
    · exact .refl d
    · rename_i hfree
      exact .put (by simpa using hfree)

/-- **To make directories adds nothing but directories**, whether or not it fails. -/
theorem deepens_makeDirectoriesUp (d : Disk) (up : List String) :
    Ends (makeDirectoriesUp up) d fun _ d' => d.Deepens d' := by
  induction up generalizing d with
  | nil => exact .refl d
  | cons name up ih =>
    simp only [makeDirectoriesUp, Change.ends_tryCatch]
    refine (deepens_makeDirectory d _).mono ?_
    rintro (e | -) d' hd
    · dsimp only
      split
      · rw [Change.ends_bind]
        refine (ih d').mono ?_
        rintro (e | -) d'' hd'
        · exact hd.trans hd'
        · dsimp only
          rw [Change.ends_tryCatch]
          refine (deepens_makeDirectory d'' _).mono ?_
          rintro (e | -) d₃ hd''
          · exact Change.ends_throwUnless.2 ((hd.trans hd').trans hd'')
          · exact (hd.trans hd').trans hd''
      · exact Change.ends_throwUnless.2 hd
    · exact hd

theorem deepens_makeDirectories (d : Disk) (p : Path) :
    Ends (makeDirectories p) d fun _ d' => d.Deepens d' :=
  deepens_makeDirectoriesUp d p.reverse

/-! ## Putting files into place -/

theorem ends_store {content : List UInt8} {post : Except DiskError Unit → Disk → Prop} :
    Ends (store p content) d post ↔ match d.locate p with
      | .error e => post (.error e) d
      | .ok place =>
        if d.at? place = some .directory then post (.error .isDirectory) d
        else post (.ok ()) (d.put place (.file content)) := by
  simp only [store, Change.ends_bind, Change.ends_look]
  cases d.locate p with
  | error e => rfl
  | ok place =>
    simp only [Change.ends_get]
    split <;> rfl

theorem ends_move {source : Path} {post : Except DiskError Unit → Disk → Prop} :
    Ends (move source p) d post ↔ match d.content source with
      | .error e => post (.error e) d
      | .ok content =>
        if p.isEmpty ∨ p.getLast? = some Path.above then post (.error .busy) d
        else match d.locate p with
          | .error e => post (.error e) d
          | .ok place =>
            if d.at? place = some .directory then post (.error .isDirectory) d
            else post (.ok ()) ((d.erase source).put place (.file content)) := by
  simp only [move, Change.ends_bind, Change.ends_look]
  cases d.content source with
  | error e => rfl
  | ok content =>
    dsimp only
    split
    · rfl
    · simp only [Change.ends_bind, Change.ends_look]
      cases d.locate p with
      | error e => rfl
      | ok place =>
        simp only [Change.ends_get]
        split <;> rfl

section

variable {temporary : Path} {content : List UInt8} (hfree : d.at? temporary = none)

include hfree

theorem directory_put (hd : d.at? place = some .directory) :
    (d.put temporary (.file content)).at? place = some .directory := by
  rw [at?_put (ne_nil_of_free hfree), if_neg, hd]
  rintro rfl
  rw [hfree] at hd
  cases hd

theorem content_put (htemporary : d.locate temporary = .ok temporary) :
    (d.put temporary (.file content)).content temporary = .ok content := by
  have hlocate : (d.put temporary (.file content)).locate temporary = .ok temporary :=
    locateFrom_mono (fun _ => directory_put hfree) htemporary
  simp only [Disk.content, hlocate, bind, Except.bind]
  rw [at?_put (ne_nil_of_free hfree), if_pos rfl]
  rfl

/-- To write a file where nothing was and to remove it changes no entry. -/
theorem at?_erase_put (e : Entry) (other : Path) :
    ((d.put temporary e).erase temporary).at? other = d.at? other := by
  rw [at?_erase (ne_nil_of_free hfree), at?_put (ne_nil_of_free hfree)]
  by_cases h : other = temporary
  · rw [if_pos h, h, hfree]
  · rw [if_neg h, if_neg h]

/-- A file that was written where nothing was is moved, or it is removed again. -/
theorem ends_moveOrErase (htemporary : d.locate temporary = .ok temporary) :
    Ends (try move temporary p catch e => do
        modify fun d => d.erase temporary
        throw e) (d.put temporary (.file content)) fun r d' => match r with
      | .error _ => ∀ q, d'.at? q = d.at? q
      | .ok () => ∃ place, d'.locate p = .ok place ∧ d'.at? place = some (.file content) ∧
        d.at? place ≠ some .directory ∧ ∀ other, other ≠ place → d'.at? other = d.at? other := by
  rw [Change.ends_tryCatch, ends_move, content_put hfree htemporary]
  simp only [Change.ends_bind, Change.ends_modify, Change.ends_throw]
  split
  · exact at?_erase_put hfree _
  · split
    · exact at?_erase_put hfree _
    · rename_i place hplace
      split
      · exact at?_erase_put hfree _
      · rename_i hfile
        have hplace_ne : place ≠ [] := fun h => hfile (by rw [h, at?_nil])
        have hother : ∀ other, other ≠ place →
            (((d.put temporary (.file content)).erase temporary).put place (.file content)).at? other =
              d.at? other := fun other ho => by
          rw [at?_put hplace_ne, if_neg ho, at?_erase_put hfree]
        refine ⟨place, locateFrom_mono (fun q hq => ?_) hplace, ?_,
          fun h => hfile (directory_put hfree h), hother⟩
        · have hq_ne : q ≠ place := fun h => hfile (h ▸ hq)
          rw [at?_put (ne_nil_of_free hfree)] at hq
          split at hq
          · cases hq
          · rw [hother q hq_ne, hq]
        · rw [at?_put hplace_ne, if_pos rfl]

end

/-- **A file is put into place, or all files are what they were.** All directories are still there. If it
is in place, no other file has changed or is new. -/
theorem ends_putInPlace (d : Disk) (p : Path) (content : List UInt8) :
    Ends (putInPlace p content) d fun r d' =>
      (∀ q, d.at? q = some .directory → d'.at? q = some .directory) ∧ match r with
      | .error _ => ∀ q, d'.file? q = d.file? q
      | .ok () => ∃ place, d'.locate p = .ok place ∧ d'.at? place = some (.file content) ∧
        ∀ other, other ≠ place → d'.file? other = d.file? other := by
  rw [putInPlace, Change.ends_bind]
  refine (deepens_makeDirectories d _).mono ?_
  rintro (e | -) d₁ hd
  · exact ⟨fun q => hd.directory, hd.file?⟩
  dsimp only
  rw [Change.ends_bind, Change.ends_look]
  cases hdirectory : d₁.locate p.dropLast with
  | error e => exact ⟨fun q => hd.directory, hd.file?⟩
  | ok directory =>
    dsimp only
    rw [Change.ends_bind, Change.ends_get]
    dsimp only
    have hfree := d₁.at?_freshName directory
    have habove : Path.above ∉ directory ++ [d₁.freshName directory d₁.entries.length 0] := by
      have := above_not_mem_of_locateFrom hdirectory (by simp)
      simp [this, (d₁.freshName_ne_above _ _ _).symm]
    generalize directory ++ [d₁.freshName directory d₁.entries.length 0] = temporary at hfree habove ⊢
    rw [Change.ends_bind, ends_store]
    cases htemporary : d₁.locate temporary with
    | error e => exact ⟨fun q => hd.directory, hd.file?⟩
    | ok place =>
      obtain rfl : place = temporary := eq_of_locateFrom htemporary habove
      dsimp only
      rw [if_neg (by rw [hfree]; exact nofun)]
      refine (ends_moveOrErase hfree htemporary).mono ?_
      rintro (e | ⟨⟩) d' h
      · exact ⟨fun q hq => (h q).trans (hd.directory hq), fun q => (file?_congr (h q)).trans (hd.file? q)⟩
      · obtain ⟨target, hlocate, hfile, htarget, hother⟩ := h
        refine ⟨fun q hq => ?_, target, hlocate, hfile, fun other ho => ?_⟩
        · have hq' := hd.directory hq
          exact (hother q fun h => htarget (h ▸ hq')).trans hq'
        · exact (file?_congr (hother other ho)).trans (hd.file? other)

/-! ## Plain paths -/

/-- The names are not too long, and none leads up. -/
def Plain (p : Path) : Prop := ∀ name ∈ p, name ≠ Path.above ∧ name.utf8ByteSize ≤ longestName

/-- There is no file on the way to the end of a path. -/
def Passable (d : Disk) (p : Path) : Prop := ∀ q, q <+: p → q ≠ p → d.file? q = none

/-- A plain path whose way is made of directories leads to itself. -/
theorem locateFrom_of_directories {start : Path} (hp : Plain p)
    (hd : ∀ q, q <+: p → q ≠ p → d.at? (start ++ q) = some .directory) :
    d.locateFrom start p = .ok (start ++ p) := by
  induction p generalizing start with
  | nil => simp [locateFrom]
  | cons name rest ih =>
    have hstart := hd [] List.nil_prefix (by simp)
    rw [List.append_nil] at hstart
    obtain ⟨habove, hlong⟩ := hp name List.mem_cons_self
    simp only [locateFrom, hstart, if_neg habove, if_neg (Nat.not_lt.2 hlong)]
    rw [ih (fun n hn => hp n (List.mem_cons_of_mem _ hn)) fun q hq hne => ?_, List.append_assoc,
      List.singleton_append]
    rw [List.append_assoc]
    exact hd _ ((List.prefix_cons_inj name).2 hq) (by simpa using hne)

/-- A plain path without a file on its way leads nowhere only if a directory is missing. -/
theorem directories_of_locateFrom {start : Path} {r : Except DiskError Path} (hp : Plain p)
    (hf : ∀ q, q <+: p → q ≠ p → d.file? (start ++ q) = none) (h : d.locateFrom start p = r) :
    r = .error .notFound ∨ ∀ q, q <+: p → q ≠ p → d.at? (start ++ q) = some .directory := by
  induction p generalizing start with
  | nil => exact .inr fun q hq hne => absurd (List.prefix_nil.1 hq) hne
  | cons name rest ih =>
    have hstart := hf [] List.nil_prefix (by simp)
    rw [List.append_nil, file?] at hstart
    obtain ⟨habove, hlong⟩ := hp name List.mem_cons_self
    simp only [locateFrom, if_neg habove, if_neg (Nat.not_lt.2 hlong)] at h
    split at h
    · exact .inl h.symm
    · rename_i hat
      rw [hat] at hstart
      cases hstart
    · rename_i hat
      refine (ih (fun n hn => hp n (List.mem_cons_of_mem _ hn)) (fun q hq hne => ?_) h).imp_right ?_
      · rw [List.append_assoc]
        exact hf _ ((List.prefix_cons_inj name).2 hq) (by simpa using hne)
      · intro hrest q hq hne
        obtain rfl | ⟨r, rfl, hr⟩ := List.prefix_cons_iff.1 hq
        · rwa [List.append_nil]
        · have hr' := hrest r hr (by simpa using hne)
          rwa [List.append_assoc] at hr'

theorem length_put (d : Disk) (place : Path) (e : Entry) :
    (d.put place e).entries.length ≤ d.entries.length + 1 := by
  rw [put, List.length_append, List.length_singleton]
  exact Nat.add_le_add_right (List.length_filter_le _ _) 1

theorem eq_directory_of_file? (hs : (d.at? place).isSome = true) (hf : d.file? place = none) :
    d.at? place = some .directory := by
  rw [file?] at hf
  split at hf
  · cases hf
  · rename_i h
    obtain ⟨e | -, he⟩ := Option.isSome_iff_exists.1 hs
    · exact absurd he (h e)
    · exact he

/-- There are directories up to the end of a path, and nothing else has changed. -/
structure Paves (p : Path) (d d' : Disk) : Prop where
  directory : ∀ q, q <+: p → d'.at? q = some .directory
  other : ∀ q, ¬ q <+: p → d'.at? q = d.at? q

/-- Where the way is made of directories, the last one is made or has been there. -/
theorem ends_makeDirectory_of_directories (hp : Plain p)
    (hd : ∀ q, q <+: p → q ≠ p → d.at? q = some .directory) (hf : d.file? p = none) :
    Ends (makeDirectory p) d fun r d' => (r = .ok () ∨ r = .error .present) ∧ Paves p d d' ∧
      d'.entries.length ≤ d.entries.length + 1 := by
  have hlocate : d.locate p = .ok p := locateFrom_of_directories hp hd
  rw [ends_makeDirectory, hlocate]
  dsimp only
  split
  · rename_i hs
    refine ⟨.inr rfl, ⟨fun q hq => ?_, fun q _ => rfl⟩, Nat.le_succ _⟩
    by_cases hqp : q = p
    · exact hqp ▸ eq_directory_of_file? hs hf
    · exact hd q hq hqp
  · rename_i hs
    have hne : p ≠ [] := fun h => hs (by rw [h, at?_nil]; rfl)
    refine ⟨.inl rfl, ⟨fun q hq => ?_, fun q hq => ?_⟩, length_put _ _ _⟩
    · rw [at?_put hne]
      split
      · rfl
      · rename_i hqp
        exact hd q hq hqp
    · rw [at?_put hne, if_neg]
      rintro rfl
      exact hq (List.prefix_refl q)

theorem isDirectory_of_directories (hp : Plain p) (hd : ∀ q, q <+: p → d.at? q = some .directory) :
    d.isDirectory p = true := by
  have hlocate : d.locate p = .ok p := locateFrom_of_directories hp fun q hq _ => hd q hq
  simp [isDirectory, hlocate, hd p (List.prefix_refl p)]

/-- A directory that has been there is as good as one that is made. -/
theorem ends_makeDirectory_or (hp : Plain p) (hd : ∀ q, q <+: p → q ≠ p → d.at? q = some .directory)
    (hf : d.file? p = none) {handler : DiskError → Change Unit}
    (hh : handler .present = do if !(← get).isDirectory p then throw .present) :
    Ends (tryCatch (makeDirectory p) handler) d fun r d' => r = .ok () ∧ Paves p d d' ∧
      d'.entries.length ≤ d.entries.length + 1 := by
  rw [Change.ends_tryCatch]
  refine (ends_makeDirectory_of_directories hp hd hf).mono ?_
  rintro _ d' ⟨rfl | rfl, hd', hl⟩
  · exact ⟨rfl, hd', hl⟩
  · dsimp only
    rw [hh, Change.ends_throwUnless, if_pos (isDirectory_of_directories hp hd'.directory)]
    exact ⟨rfl, hd', hl⟩

/-- **All directories on a plain path without files are made.** -/
theorem ends_makeDirectoriesUp {up : List String} (hp : Plain up.reverse)
    (hf : ∀ q, q <+: up.reverse → d.file? q = none) :
    Ends (makeDirectoriesUp up) d fun r d' => r = .ok () ∧ Paves up.reverse d d' ∧
      d'.entries.length ≤ d.entries.length + up.length := by
  induction up generalizing d with
  | nil =>
    refine ⟨rfl, ⟨fun q hq => ?_, fun q _ => rfl⟩, Nat.le_refl _⟩
    rw [List.prefix_nil.1 hq]
    rfl
  | cons name up ih =>
    have hup : ∀ q, q <+: up.reverse → q <+: (name :: up).reverse := fun q hq => hq.trans (by simp)
    have hbelow : ∀ q, q <+: (name :: up).reverse → q ≠ (name :: up).reverse → q <+: up.reverse := by
      rw [List.reverse_cons]
      exact fun q hq hne => (List.prefix_concat_iff.1 hq).resolve_left hne
    have hup_plain : Plain up.reverse := fun n hn => hp n (by simp [List.mem_reverse.1 hn])
    have hpath := List.prefix_refl (name :: up).reverse
    rw [makeDirectoriesUp]
    have hway : ∀ q, q <+: (name :: up).reverse → q ≠ (name :: up).reverse → d.file? ([] ++ q) = none :=
      fun q hq _ => hf q hq
    rcases directories_of_locateFrom hp hway rfl with hlocate | hd
    · -- a directory is missing on the way
      have hmissing : d.locate (name :: up).reverse = .error .notFound := hlocate
      rw [Change.ends_tryCatch, ends_makeDirectory, hmissing]
      dsimp only
      rw [Change.ends_bind]
      refine ((ih hup_plain fun q hq => hf q (hup q hq)).and (deepens_makeDirectoriesUp d up)).mono ?_
      rintro _ d' ⟨⟨rfl, hd, hl⟩, hdeep⟩
      refine (ends_makeDirectory_or hp (fun q hq hne => hd.directory q (hbelow q hq hne))
        ((hdeep.file? _).trans (hf _ hpath)) rfl).mono ?_
      rintro r d'' ⟨hr, hd', hl'⟩
      refine ⟨hr, ⟨hd'.directory, fun q hq => ?_⟩, by rw [List.length_cons]; omega⟩
      exact (hd'.other q hq).trans (hd.other q fun h => hq (hup q h))
    · refine (ends_makeDirectory_or hp hd (hf _ hpath) rfl).mono ?_
      rintro r d' ⟨hr, hd', hl⟩
      exact ⟨hr, hd', by rw [List.length_cons]; omega⟩

theorem not_concat_prefix_self (q : Path) (name : String) : ¬ q ++ [name] <+: q := fun h => by
  have hle := h.length_le
  rw [List.length_append, List.length_singleton] at hle
  omega

/-- In a directory that a plain path leads to, a name that is not too long leads to itself. -/
theorem locate_concat {q : Path} {name : String} (hq : Plain q)
    (hd : ∀ r, r <+: q → d.at? r = some .directory)
    (hname : name ≠ Path.above ∧ name.utf8ByteSize ≤ longestName) :
    d.locate (q ++ [name]) = .ok (q ++ [name]) := by
  have hp : Plain (q ++ [name]) := fun n hn => by
    rcases List.mem_append.1 hn with hn | hn
    · exact hq n hn
    · exact List.mem_singleton.1 hn ▸ hname
  exact locateFrom_of_directories hp fun r hr hne => hd r ((List.prefix_concat_iff.1 hr).resolve_left hne)

/-- A file that was written where nothing was can be moved into a directory, where no directory has its name. -/
theorem ends_move_of_directories {temporary q : Path} {name : String} {content : List UInt8} (hq : Plain q)
    (hname : name ≠ Path.above ∧ name.utf8ByteSize ≤ longestName)
    (hd : ∀ r, r <+: q → d.at? r = some .directory) (htarget : d.at? (q ++ [name]) ≠ some .directory)
    (hfree : d.at? temporary = none) (htemporary : d.locate temporary = .ok temporary) :
    Ends (move temporary (q ++ [name])) (d.put temporary (.file content)) fun r _ => r = .ok () := by
  have hkept : ∀ r, r <+: q → (d.put temporary (.file content)).at? r = some .directory :=
    fun r hr => directory_put hfree (hd r hr)
  have htarget' : (d.put temporary (.file content)).at? (q ++ [name]) ≠ some .directory := by
    rw [at?_put (ne_nil_of_free hfree)]
    split
    · exact nofun
    · exact htarget
  rw [ends_move, content_put hfree htemporary]
  dsimp only
  rw [if_neg (by simpa using hname.1), locate_concat hq hkept hname]
  dsimp only
  rw [if_neg htarget']

/-- On a disk that has names left, a file can be put into a directory that a plain path leads to. -/
theorem ends_putInPlace_concat {q : Path} {name : String} (hp : Plain (q ++ [name]))
    (hsize : d.entries.length + q.length < 10 ^ 248) (hf : ∀ r, r <+: q → d.file? r = none)
    (htarget : d.at? (q ++ [name]) ≠ some .directory) (content : List UInt8) :
    Ends (putInPlace (q ++ [name]) content) d fun r _ => r = .ok () := by
  have hq : Plain q := fun n hn => hp n (List.mem_append_left _ hn)
  have hdirectories := @ends_makeDirectoriesUp d q.reverse
  rw [List.reverse_reverse, List.length_reverse] at hdirectories
  rw [putInPlace, Change.ends_bind, List.dropLast_concat]
  refine (hdirectories hq hf).mono ?_
  rintro _ d₁ ⟨rfl, hpaves, hl⟩
  have hdirectory : d₁.locate q = .ok q :=
    locateFrom_of_directories hq fun r hr _ => hpaves.directory r hr
  have hfree := d₁.at?_freshName q
  have htemporary := locate_concat hq hpaves.directory ⟨d₁.freshName_ne_above q d₁.entries.length 0,
    d₁.utf8ByteSize_freshName q (by omega)⟩
  rw [Change.ends_bind, Change.ends_look, hdirectory]
  dsimp only
  rw [Change.ends_bind, Change.ends_get]
  dsimp only
  generalize q ++ [d₁.freshName q d₁.entries.length 0] = temporary at hfree htemporary ⊢
  rw [Change.ends_bind, ends_store, htemporary]
  dsimp only
  rw [if_neg (by rw [hfree]; exact nofun), Change.ends_tryCatch]
  refine (ends_move_of_directories hq (hp name (by simp)) hpaves.directory ?_ hfree htemporary).mono ?_
  · rwa [hpaves.other _ (not_concat_prefix_self q name)]
  · rintro _ _ rfl
    rfl

/-- **Where a file can be put.** On a plain path, on a disk that has names left, it can be put exactly if
there is no file on the way and no directory at the end. -/
theorem putInPlace_iff (hp : Plain p) (hsize : d.entries.length + p.length < 10 ^ 248)
    (content : List UInt8) :
    Ends (putInPlace p content) d (fun r _ => r = .ok ()) ↔
      d.Passable p ∧ d.at? p ≠ some .directory := by
  have habove : Path.above ∉ p := fun h => (hp _ h).1 rfl
  constructor
  · intro h
    obtain ⟨hdirectory, hr⟩ := ends_putInPlace d p content
    rw [show ((putInPlace p content).run.run d).1 = .ok () from h] at hr
    obtain ⟨place, hlocate, hfile, hother⟩ := hr
    obtain rfl : place = p := eq_of_locateFrom hlocate habove
    refine ⟨fun q hq hne => ?_, fun hd => ?_⟩
    · rw [← hother q hne, file?, ← List.nil_append q, directory_of_locateFrom hlocate habove hq hne]
    · rw [hdirectory _ hd] at hfile
      cases hfile
  · rintro ⟨hpass, htarget⟩
    obtain rfl | ⟨q, name, rfl⟩ := List.eq_nil_or_concat' p
    · exact absurd rfl htarget
    rw [List.length_append, List.length_singleton] at hsize
    refine ends_putInPlace_concat hp (by omega) (fun r hr => ?_) htarget content
    exact hpass r (hr.trans (List.prefix_append q [name])) fun h => not_concat_prefix_self q name (h ▸ hr)

end Disk

end Actionbook
