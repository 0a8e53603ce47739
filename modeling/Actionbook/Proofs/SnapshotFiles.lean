import Actionbook.Proofs.Codec
import Actionbook.Proofs.Disks
import Actionbook.Snapshot.File

/-!
# Snapshots in files

What is written without carriage returns is read from a file as it was written
(`Snapshot.load_of_content`). What a document is written with in the format in use needs no escape
(`Yaml.escapeless_writeText`), so that there are none in it (`Snapshot.notMem_of_dump`).

* `Snapshot.saving_is_atomic`: what has become of a disk when a snapshot is saved, or is not.
-/

namespace Actionbook

/-! ## Written characters -/

namespace Yaml

/-- No character of the text needs an escape. -/
def Escapeless (l : List Char) : Prop := ∀ c ∈ l, needsEscape c = false

namespace Escapeless

variable {l m : List Char} {c : Char}

theorem of_all (h : l.all (!needsEscape ·) = true) : Escapeless l := by
  simpa [Escapeless] using h

@[simp] theorem nil : Escapeless [] := List.forall_mem_nil _

@[simp] theorem cons : Escapeless (c :: l) ↔ needsEscape c = false ∧ Escapeless l := List.forall_mem_cons

@[simp] theorem append : Escapeless (l ++ m) ↔ Escapeless l ∧ Escapeless m := List.forall_mem_append

theorem spaces (n : Nat) : Escapeless (List.replicate n ' ') := fun c hc => by
  rw [List.eq_of_mem_replicate hc]
  rfl

theorem newLine (indent : Nat) : Escapeless (newLine indent) := cons.2 ⟨rfl, spaces indent⟩

theorem writtenBreaks (hl : Escapeless l) (indent : Nat) : Escapeless (writtenBreaks indent l) := by
  unfold Yaml.writtenBreaks
  split
  · exact append.2 ⟨append.2 ⟨by simp [needsEscape], hl⟩, spaces indent⟩
  · exact append.2 ⟨append.2 ⟨nil, hl⟩, spaces indent⟩

end Escapeless

theorem mem_of_mem_runs {p : Char → Nat} {s w : List Char} (hw : w ∈ runs p s) {c : Char} (hc : c ∈ w) :
    c ∈ s := by
  induction s generalizing w with
  | nil => cases hw
  | cons d r ih =>
    rw [runs] at hw
    split at hw
    · rename_i e v ws hr
      split at hw
      · rcases List.mem_cons.1 hw with rfl | hw
        · rcases List.mem_cons.1 hc with rfl | hc
          · exact List.mem_cons_self
          · exact List.mem_cons_of_mem _ (ih (hr ▸ List.mem_cons_self) hc)
        · exact List.mem_cons_of_mem _ (ih (hr ▸ List.mem_cons_of_mem _ hw) hc)
      · rcases List.mem_cons.1 hw with rfl | hw
        · exact List.mem_singleton.1 hc ▸ List.mem_cons_self
        · exact List.mem_cons_of_mem _ (ih (hr ▸ hw) hc)
    · rcases List.mem_cons.1 hw with rfl | hw
      · exact List.mem_singleton.1 hc ▸ List.mem_cons_self
      · exact List.mem_cons_of_mem _ (ih hw hc)

theorem escapeless_foldRuns {quote : Char → List Char} {quoted : Bool} {indent : Nat}
    {l : List (List Char)} (hl : ∀ w ∈ l, Escapeless w)
    (hq : ∀ c, needsEscape c = false → Escapeless (quote c)) (column : Nat) (first : Bool) :
    Escapeless (foldRuns quote quoted indent column first l) := by
  induction l generalizing column first with
  | nil => exact .nil
  | cons w l ih =>
    have hw := hl w List.mem_cons_self
    have hrest := fun column first => ih (fun v hv => hl v (List.mem_cons_of_mem _ hv)) column first
    rw [foldRuns.eq_def]
    dsimp only
    split
    · split
      · exact Escapeless.append.2 ⟨.newLine indent, hrest _ _⟩
      · exact Escapeless.cons.2 ⟨rfl, hrest _ _⟩
    · split
      · exact Escapeless.append.2 ⟨hw.writtenBreaks indent, hrest _ _⟩
      · refine Escapeless.append.2 ⟨fun c hc => ?_, hrest _ _⟩
        obtain ⟨d, hd, hc⟩ := List.mem_flatMap.1 hc
        exact hq d (hw d hd) c hc
    · exact hrest _ _

theorem needsEscape_hexChar (n : Nat) : needsEscape (Text.hexChar (n % 16)).toUpper = false := by
  have h : ∀ k < 16, needsEscape (Text.hexChar k).toUpper = false := by decide
  exact h _ (Nat.mod_lt n (by omega))

theorem escapeless_hexPadded (width n : Nat) : Escapeless ((Text.hexPadded width n).map Char.toUpper) := by
  induction width generalizing n with
  | zero => exact .nil
  | succ width ih =>
    rw [Text.hexPadded, List.map_append, Escapeless.append]
    exact ⟨ih _, Escapeless.cons.2 ⟨needsEscape_hexChar n, .nil⟩⟩

theorem escapeless_escapeOf (c : Char) : Escapeless (escapeOf c) := by
  unfold escapeOf
  split
  · rename_i l hl
    have hletters : ∀ e ∈ [('\u0000', '0'), ('\u0007', 'a'), ('\u0008', 'b'), ('\t', 't'), ('\n', 'n'),
        ('\u000b', 'v'), ('\u000c', 'f'), ('\r', 'r'), ('\u001b', 'e'), ('"', '"'), ('\\', '\\'),
        ('\u0085', 'N'), ('\u00a0', '_'), ('\u2028', 'L'), ('\u2029', 'P')],
        needsEscape e.2 = false := by decide
    exact Escapeless.cons.2 ⟨rfl, Escapeless.cons.2 ⟨hletters _ (mem_of_lookup hl), .nil⟩⟩
  · split
    · exact Escapeless.cons.2 ⟨rfl, Escapeless.cons.2 ⟨rfl, escapeless_hexPadded _ _⟩⟩
    · split
      · exact Escapeless.cons.2 ⟨rfl, Escapeless.cons.2 ⟨rfl, escapeless_hexPadded _ _⟩⟩
      · exact Escapeless.cons.2 ⟨rfl, Escapeless.cons.2 ⟨rfl, escapeless_hexPadded _ _⟩⟩

theorem needsEscape_of_isLiteral {c : Char} (h : isLiteral c = true) : needsEscape c = false := by
  simp [isLiteral, needsEscape] at h ⊢
  omega

theorem escapeless_foldDouble (indent : Nat) (first : Bool) (column pending : Nat) (s : List Char) :
    Escapeless (foldDouble indent first column pending s) := by
  induction s generalizing first column pending with
  | nil => exact .nil
  | cons c r ih =>
    unfold foldDouble
    dsimp only
    split
    · rename_i hc
      have hc := needsEscape_of_isLiteral hc
      have hspace : Escapeless (if (c == ' ') = true then ['\\'] else []) := by split <;> simp [needsEscape]
      split
      · exact Escapeless.cons.2 ⟨rfl, Escapeless.append.2 ⟨Escapeless.append.2 ⟨.newLine indent, hspace⟩,
          Escapeless.cons.2 ⟨hc, ih _ _ _⟩⟩⟩
      · exact Escapeless.cons.2 ⟨hc, ih _ _ _⟩
    · split
      · refine Escapeless.append.2 ⟨Escapeless.append.2 ⟨escapeless_escapeOf c,
          Escapeless.cons.2 ⟨rfl, .newLine indent⟩⟩, ?_⟩
        split
        · exact Escapeless.cons.2 ⟨rfl, ih _ _ _⟩
        · exact ih _ _ _
      · exact Escapeless.append.2 ⟨escapeless_escapeOf c, ih _ _ _⟩

/-- Only texts between double quotes may hold characters that need an escape. -/
theorem escapeless_of_styleOf {text : String} (h : styleOf text ≠ .double) : Escapeless text.toList := by
  have hnone : text.toList.any needsEscape = false → Escapeless text.toList := fun h c hc => by
    simpa using (List.any_eq_false.1 h) c hc
  refine hnone ?_
  unfold styleOf at h
  dsimp only at h
  split at h
  · rename_i hplain
    have hplain := hplain.2
    simp only [allowsPlain, Bool.not_eq_true', Bool.or_eq_false_iff] at hplain
    exact hplain.1.2
  · split at h
    · rename_i hsingle
      simp only [allowsSingle, Bool.not_eq_true', Bool.or_eq_false_iff] at hsingle
      exact hsingle.1.1
    · exact absurd rfl h

/-- **What a text is written with needs no escape.** -/
theorem escapeless_writeText (indent column : Nat) (text : String) :
    Escapeless (writeText indent column text) := by
  have hruns : styleOf text ≠ .double → ∀ w ∈ runs runKind text.toList, Escapeless w :=
    fun hs w hw c hc => escapeless_of_styleOf hs c (mem_of_mem_runs hw hc)
  unfold writeText
  split
  · rename_i hstyle
    exact escapeless_foldRuns (hruns (by rw [hstyle]; exact nofun))
      (fun c hc => Escapeless.cons.2 ⟨hc, .nil⟩) _ _
  · rename_i hstyle
    refine Escapeless.append.2 ⟨Escapeless.cons.2 ⟨rfl, escapeless_foldRuns
      (hruns (by rw [hstyle]; exact nofun)) (fun c hc => ?_) _ _⟩, Escapeless.cons.2 ⟨rfl, .nil⟩⟩
    split
    · exact Escapeless.cons.2 ⟨rfl, Escapeless.cons.2 ⟨rfl, .nil⟩⟩
    · exact Escapeless.cons.2 ⟨hc, .nil⟩
  · exact Escapeless.append.2 ⟨Escapeless.cons.2 ⟨rfl, escapeless_foldDouble _ _ _ _ _⟩,
      Escapeless.cons.2 ⟨rfl, .nil⟩⟩

/-! The equations of the writers hold by definition; they are stated by `change`, as to generate them takes
long. -/

theorem escapeless_itemLines {indent : Nat} {l : List Outline}
    (hl : ∀ v ∈ l, ∀ indent, Escapeless (itemText indent v)) : Escapeless (itemLines indent l) := by
  induction l with
  | nil => exact .nil
  | cons v l ih =>
    have hl := List.forall_mem_cons.1 hl
    change Escapeless (indentation indent ++ ['-', ' '] ++ itemText (indent + 2) v ++ itemLines indent l)
    exact Escapeless.append.2 ⟨Escapeless.append.2 ⟨Escapeless.append.2 ⟨.spaces indent,
      by simp [needsEscape]⟩, hl.1 _⟩, ih hl.2⟩

theorem escapeless_fieldText_ofText? (indent width : Nat) (s : Option String) :
    Escapeless (fieldText indent width (.ofText? s)) := by
  cases s with
  | none =>
    change Escapeless ": null\n".toList
    simp [needsEscape]
  | some s =>
    change Escapeless ([':', ' '] ++ writeText (indent + 2) (indent + width + 2) s ++ ['\n'])
    simp [needsEscape, escapeless_writeText]

theorem escapeless_fieldText_list {indent width : Nat} {l : List Outline}
    (hl : ∀ v ∈ l, ∀ indent, Escapeless (itemText indent v)) :
    Escapeless (fieldText indent width (.list l)) := by
  cases l with
  | nil =>
    change Escapeless ": []\n".toList
    simp [needsEscape]
  | cons v l =>
    change Escapeless ([':', '\n'] ++ itemLines indent (v :: l))
    exact Escapeless.append.2 ⟨by simp [needsEscape], escapeless_itemLines hl⟩

theorem escapeless_fieldLines {indent : Nat} {l : List (String × Outline)}
    (hl : ∀ e ∈ l, Escapeless e.1.toList ∧ ∀ width, Escapeless (fieldText indent width e.2)) :
    Escapeless (fieldLines indent l) := by
  induction l with
  | nil => exact .nil
  | cons e l ih =>
    have hl := List.forall_mem_cons.1 hl
    change Escapeless (indentation indent ++ e.1.toList ++ fieldText indent e.1.length e.2 ++
      fieldLines indent l)
    exact Escapeless.append.2 ⟨Escapeless.append.2 ⟨Escapeless.append.2 ⟨.spaces indent, hl.1.1⟩, hl.1.2 _⟩,
      ih hl.2⟩

/-- A record needs no escape if neither the names nor the values of its fields do. -/
theorem escapeless_record {indent : Nat} {l : List (String × Outline)}
    (hl : ∀ e ∈ l, Escapeless e.1.toList ∧ ∀ width, Escapeless (fieldText indent width e.2)) :
    Escapeless (itemText indent (.record l)) := by
  cases l with
  | nil =>
    change Escapeless "\x7b\x7d\n".toList
    simp [needsEscape]
  | cons e l =>
    have he := hl e List.mem_cons_self
    change Escapeless (e.1.toList ++ fieldText indent e.1.length e.2 ++ fieldLines indent l)
    exact Escapeless.append.2 ⟨Escapeless.append.2 ⟨he.1, he.2 _⟩,
      escapeless_fieldLines fun f hf => hl f (List.mem_cons_of_mem _ hf)⟩

end Yaml

theorem ParameterSignature.escapeless_outline (p : ParameterSignature) (indent : Nat) :
    Yaml.Escapeless (Yaml.itemText indent p.outline) := by
  have hname : Yaml.Escapeless "name".toList := .of_all (by decide)
  have hdefault : Yaml.Escapeless "default".toList := .of_all (by decide)
  refine Yaml.escapeless_record ?_
  simp only [List.forall_mem_cons]
  refine ⟨⟨hname, fun width => ?name⟩, ⟨hdefault, fun width => ?default⟩, List.forall_mem_nil _⟩
  case name => exact Yaml.escapeless_fieldText_ofText? indent width (some p.name)
  case default => exact Yaml.escapeless_fieldText_ofText? indent width p.default

theorem Signature.escapeless_outline (s : Signature) (indent : Nat) :
    Yaml.Escapeless (Yaml.itemText indent s.outline) := by
  have hname : Yaml.Escapeless "name".toList := .of_all (by decide)
  have huid : Yaml.Escapeless "uid".toList := .of_all (by decide)
  have hparameters : Yaml.Escapeless "parameters".toList := .of_all (by decide)
  have hhash : Yaml.Escapeless "body_hash".toList := .of_all (by decide)
  refine Yaml.escapeless_record ?_
  simp only [List.forall_mem_cons]
  refine ⟨⟨hname, fun width => ?name⟩, ⟨huid, fun width => ?uid⟩, ⟨hparameters, fun width => ?parameters⟩,
    ⟨hhash, fun width => ?hash⟩, List.forall_mem_nil _⟩
  case name => exact Yaml.escapeless_fieldText_ofText? indent width (some s.name)
  case uid => exact Yaml.escapeless_fieldText_ofText? indent width s.uid
  case parameters =>
    refine Yaml.escapeless_fieldText_list fun v hv indent => ?_
    obtain ⟨p, -, rfl⟩ := List.mem_map.1 hv
    exact p.escapeless_outline indent
  case hash => exact Yaml.escapeless_fieldText_ofText? indent width s.bodyHash

namespace Snapshot

theorem escapeless_write (s : Signatures) : Yaml.Escapeless (format.write (outlines s)).toList := by
  change Yaml.Escapeless (Yaml.write (outlines s)).toList
  rw [Yaml.write, String.toList_ofList]
  split
  · simp [Yaml.needsEscape]
  · refine Yaml.escapeless_itemLines fun v hv indent => ?_
    obtain ⟨e, -, rfl⟩ := List.mem_map.1 hv
    exact e.2.escapeless_outline indent

/-! ## Files -/

theorem toList_loop (bytes : ByteArray) (i : Nat) (r : List UInt8) :
    ByteArray.toList.loop bytes i r = r.reverse ++ bytes.data.toList.drop i := by
  fun_induction ByteArray.toList.loop bytes i r with
  | case1 i r h ih =>
    have hi : i < bytes.data.toList.length := h
    rw [ih, List.drop_eq_getElem_cons hi, List.reverse_cons,
      List.append_assoc, List.singleton_append]
    congr 2
    exact getElem!_pos bytes.data i h
  | case2 i r h =>
    have hi : bytes.data.toList.length ≤ i := Nat.le_of_not_lt h
    rw [List.drop_eq_nil_of_le hi, List.append_nil]

theorem decode_encode (s : String) : Text.decode (Text.encode s) = .ok s := by
  have hbytes : (⟨(Text.encode s).toArray⟩ : ByteArray) = s.toByteArray := by
    rw [Text.encode, String.toUTF8_eq_toByteArray, ByteArray.toList, toList_loop]
    rfl
  rw [Text.decode, hbytes, String.fromUTF8?, dif_pos s.isValidUTF8]
  rfl

theorem unifyBreaks_eq {l : List Char} (hl : '\r' ∉ l) : Text.unifyBreaks l = l := by
  induction l with
  | nil => rfl
  | cons c l ih =>
    rw [List.mem_cons, not_or] at hl
    rw [Text.unifyBreaks, ih hl.2]
    · rintro r rfl
      exact absurd rfl hl.1
    · rintro rfl
      exact absurd rfl hl.1

variable {f : Format} {s : Signatures} {text : String}

/-- Snapshots in the format in use hold no carriage return. -/
theorem notMem_of_dump (h : format.dump s = .ok text) : '\r' ∉ text.toList := fun hmem => by
  obtain ⟨rfl, -⟩ := Format.dump_eq_ok_iff.1 h
  have hescape := escapeless_write s _ hmem
  simp [Yaml.needsEscape] at hescape

/-- **What is stored is read back** as it was written. -/
theorem load_of_content {d : Disk} {p : Path} (hplain : '\r' ∉ text.toList)
    (hdump : f.dump s = .ok text) (hcontent : d.content p = .ok (Text.encode text)) :
    ∃ found, load d p f = .ok found ∧ (found.map (·.1)).Nodup ∧ found.Agree s := by
  obtain ⟨rfl, found, hload, hagree⟩ := Format.dump_eq_ok_iff.1 hdump
  refine ⟨found, ?_, (Format.proper_of_load hload).nodup, hagree⟩
  rw [load, hcontent]
  dsimp only
  rw [decode_encode]
  dsimp only
  rw [unifyBreaks_eq hplain, String.ofList_toList, hload]

theorem run_save_of_dump_error {e : WriteError} (h : f.dump s = .error e) (d : Disk) (p : Path) :
    (save p s f).run.run d = (.error (.content e), d) := by
  rw [save, h]
  rfl

theorem run_save_of_dump (h : f.dump s = .ok text) (d : Disk) (p : Path) :
    (save p s f).run.run d =
      match (Disk.putInPlace p (Text.encode text)).run.run d with
      | (.error e, d') => (.error (.disk e), d')
      | (.ok (), d') => (.ok p, d') := by
  rw [save, h]
  simp only [ExceptT.run, ExceptT.mk, StateT.run, bind, ExceptT.bind, ExceptT.bindCont, StateT.bind, liftM,
    monadLift, MonadLift.monadLift, ExceptT.lift, Functor.map, StateT.map]
  rcases (Disk.putInPlace p (Text.encode text) d : Id (Except DiskError Unit × Disk)) with ⟨e | ⟨⟩, d'⟩ <;>
    rfl

/-- **A snapshot is saved as a whole, or not at all.** If it is not saved all files are what they were, and
none is left behind; if the signatures have no snapshot the disk is not touched. If it is saved the file at
the path holds the snapshot, and all other files are what they were; if there is no carriage return in the
snapshot, as there is none in the format in use, it is loaded as the signatures. Where a path has plain names,
nothing stands in the way but a file on it or a directory at its end. -/
theorem saving_is_atomic (f : Format) (d : Disk) (p : Path) (s : Signatures) :
    (∀ r d', (save p s f).run.run d = (r, d') →
      (∀ place, d.at? place = some .directory → d'.at? place = some .directory) ∧ match r with
        | .error e => (∀ place, d'.file? place = d.file? place) ∧
          ∀ w, e = .content w → f.dump s = .error w ∧ d' = d
        | .ok q => q = p ∧ ∃ text place, f.dump s = .ok text ∧ d'.locate p = .ok place ∧
          d'.file? place = some (Text.encode text) ∧
          (∀ other, other ≠ place → d'.file? other = d.file? other) ∧
          (f = format ∨ '\r' ∉ text.toList →
            ∃ found, load d' p f = .ok found ∧ (found.map (·.1)).Nodup ∧ found.Agree s)) ∧
    (Disk.Plain p → d.entries.length + p.length < 10 ^ 248 →
      ((∃ q d', (save p s f).run.run d = (.ok q, d')) ↔
        (∃ text, f.dump s = .ok text) ∧ d.Passable p ∧ d.at? p ≠ some .directory)) := by
  cases hdump : f.dump s with
  | error e =>
    rw [run_save_of_dump_error hdump]
    refine ⟨fun r d' h => ?_, fun _ _ => ?_⟩
    · cases h
      refine ⟨fun place h => h, fun place => rfl, fun w hw => ?_⟩
      cases hw
      exact ⟨rfl, rfl⟩
    · exact iff_of_false (by rintro ⟨q, d', h⟩; cases h) (by rintro ⟨⟨text, h⟩, -⟩; cases h)
  | ok text =>
    have hends := Disk.ends_putInPlace d p (Text.encode text)
    have hiff := fun hp hsize => Disk.putInPlace_iff (d := d) (p := p) hp hsize (Text.encode text)
    rw [run_save_of_dump hdump]
    unfold Disk.Change.Ends at hends hiff
    rcases hrun : (Disk.putInPlace p (Text.encode text)).run.run d with ⟨e | ⟨⟩, d'⟩
    · rw [hrun] at hends hiff
      refine ⟨fun r d'' h => ?_, fun hp hsize => ?_⟩
      · cases h
        exact ⟨hends.1, hends.2, fun w hw => by cases hw⟩
      · exact iff_of_false (by rintro ⟨q, d', h⟩; cases h) fun h => by cases (hiff hp hsize).2 h.2
    · rw [hrun] at hends hiff
      obtain ⟨hdirectory, place, hlocate, hfile, hother⟩ := hends
      have hcontent : d'.content p = .ok (Text.encode text) := by
        simp only [Disk.content, hlocate, bind, Except.bind, hfile]
        rfl
      refine ⟨fun r d'' h => ?_, fun hp hsize => ?_⟩
      · cases h
        refine ⟨hdirectory, rfl, text, place, rfl, hlocate, by rw [Disk.file?, hfile], hother, ?loaded⟩
        rintro (rfl | hplain)
        · exact load_of_content (notMem_of_dump hdump) hdump hcontent
        · exact load_of_content hplain hdump hcontent
      · exact iff_of_true ⟨p, d', rfl⟩ ⟨⟨text, rfl⟩, (hiff hp hsize).1 rfl⟩

/-- A disk with a file in a directory, and one beside it. -/
def sampleDisk : Disk where
  entries := [(["a"], .directory), (["a", "s"], .file [1, 2]), (["f"], .file [3])]

/-- A signature with a text that has to stand between double quotes. -/
def sampleSignatures : Signatures := [("w", { name := "w", parameters := [{ name := "x", default := "\r" }] })]

theorem passable_sample : sampleDisk.Passable ["a", "s"] := fun q hq hne => by
  obtain rfl | ⟨r, rfl, hr⟩ := List.prefix_cons_iff.1 hq
  · rfl
  · obtain rfl | ⟨t, rfl, ht⟩ := List.prefix_cons_iff.1 hr
    · rfl
    · rw [List.prefix_nil.1 ht] at hne
      exact absurd rfl hne

/-- A file is replaced, and a file on the way is in the way. -/
theorem saving_replaces_file :
    (∃ q d', (save ["a", "s"] sampleSignatures).run.run sampleDisk = (.ok q, d') ∧ q = ["a", "s"] ∧
      d'.file? ["f"] = some [3] ∧ ∃ found, load d' ["a", "s"] = .ok found ∧ found.Agree sampleSignatures) ∧
    ¬ ∃ q d', (save ["f", "s"] sampleSignatures).run.run sampleDisk = (.ok q, d') := by
  have hyaml : format.RoundTrips (outlines sampleSignatures) := by decide +kernel
  have hproper : sampleSignatures.Proper := ⟨by decide, fun e he => by
    rw [List.mem_singleton.1 he]
    exact ⟨by decide, by decide⟩, by decide⟩
  have hdump : ∃ text, format.dump sampleSignatures = .ok text := ⟨_, Format.dump_ok hyaml hproper⟩
  have hsize : ∀ p : Path, p.length = 2 → sampleDisk.entries.length + p.length < 10 ^ 248 := fun p hp => by
    have hlength : sampleDisk.entries.length = 3 := rfl
    rw [hlength, hp]
    exact Nat.lt_of_lt_of_le (by decide : 3 + 2 < 10) (Nat.le_pow (by decide))
  have hplain : Disk.Plain ["a", "s"] := by
    unfold Disk.Plain
    decide
  have hplain' : Disk.Plain ["f", "s"] := by
    unfold Disk.Plain
    decide
  constructor
  · obtain ⟨hsave, hiff⟩ := saving_is_atomic format sampleDisk ["a", "s"] sampleSignatures
    obtain ⟨q, d', hrun⟩ := (hiff hplain (hsize _ rfl)).2 ⟨hdump, passable_sample, by decide⟩
    obtain ⟨-, rfl, text, place, -, hlocate, -, hother, hloaded⟩ := hsave _ _ hrun
    obtain ⟨found, hload, -, hagree⟩ := hloaded (.inl rfl)
    obtain rfl := Disk.eq_of_locateFrom hlocate (by decide)
    exact ⟨_, d', hrun, rfl, (hother ["f"] (by decide)).trans (by decide), found, hload, hagree⟩
  · intro h
    obtain ⟨-, hpass, -⟩ :=
      ((saving_is_atomic format sampleDisk ["f", "s"] sampleSignatures).2 hplain' (hsize _ rfl)).1 h
    exact absurd (hpass ["f"] (by decide) (by decide)) (by decide)

end Snapshot

end Actionbook
