import Actionbook.Proofs.SnapshotFiles

/-!
# What the text that is hashed tells

The fingerprint of a body is the digest of the bytes of a canonical text. `Json.meaning` is what a JSON value
says if an object is taken for a mapping, in which no order shows. Values that are built from null, texts,
lists and mappings (`Json.Keyed`) have the same bytes if and only if they mean the same
(`Json.hashed_eq_iff`):

* the bytes tell the text (`encode_injective`), and the text tells the value but for the order of members
  (`Json.canonicalText_eq_iff`);
* mappings are the same if and only if their members are, once these are put in order
  (`Json.Keyed.meaning_eq_iff`).

Everything that a graph says of a body is such a value (`Graph.keyed_canonicalSteps`), so that two bodies
that differ share a fingerprint only where two messages share a digest (`fingerprints_tell_bodies`).
-/

namespace Actionbook

/-! ## Meanings -/

/-- What a value says: an object is a mapping from names. -/
inductive Meaning where
  | null
  | boolean (b : Bool)
  | integer (n : Int)
  | float (x : Binary64)
  | text (s : String)
  | list (items : List Meaning)
  | mapping (member : String → Option Meaning)

namespace Json

mutual

def meaning : Json → Meaning
  | .null => .null
  | .boolean b => .boolean b
  | .integer n => .integer n
  | .float x => .float x
  | .text s => .text s
  | .array items => .list (itemMeanings items)
  | .object members => .mapping fun name => (memberMeanings members).lookup name

/-- The meanings of the items of an array. -/
def itemMeanings : List Json → List Meaning
  | [] => []
  | v :: l => v.meaning :: itemMeanings l

/-- The meanings of the members of an object, by name. -/
def memberMeanings : List (String × Json) → List (String × Meaning)
  | [] => []
  | (name, v) :: l => (name, v.meaning) :: memberMeanings l

end

theorem meaning_array (items : List Json) : meaning (.array items) = .list (items.map meaning) := by
  have h : ∀ l, itemMeanings l = l.map meaning := fun l => by
    induction l with
    | nil => rfl
    | cons v l ih => rw [itemMeanings, ih, List.map_cons]
  rw [meaning, h]

theorem meaning_object (members : List (String × Json)) :
    meaning (.object members) = .mapping fun name => (members.lookup name).map meaning := by
  have h : ∀ l, memberMeanings l = l.map fun m => (m.1, m.2.meaning) := fun l => by
    induction l with
    | nil => rfl
    | cons m l ih => rw [memberMeanings, ih, List.map_cons]
  rw [meaning, h]
  exact congrArg Meaning.mapping (funext fun name => lookup_mapValues meaning members name)

/-! ## Members in order -/

variable {v w : Json}

/-- Lists in which the same is found under every name have the same members. -/
theorem perm_of_lookup_eq {α : Type} {l l' : List (String × α)} (hn : (l.map (·.1)).Nodup)
    (hn' : (l'.map (·.1)).Nodup) (h : ∀ name, l.lookup name = l'.lookup name) : l.Perm l' := by
  refine (List.perm_ext_iff_of_nodup hn.of_map hn'.of_map).2 fun m => ?_
  constructor
  · exact fun hm => mem_of_lookup ((h m.1).symm.trans (lookup_of_nodup hn hm))
  · exact fun hm => mem_of_lookup ((h m.1).trans (lookup_of_nodup hn' hm))

/-- What tells the elements of two lists apart no better than `f` does not tell the lists apart if `f`
does not. -/
theorem map_eq_of_map_eq {α β γ : Type} {f : α → β} {k : α → γ} {l l' : List α}
    (h : ∀ a ∈ l, ∀ b ∈ l', f a = f b → k a = k b) (hl : l.map f = l'.map f) : l.map k = l'.map k := by
  induction l generalizing l' with
  | nil =>
    cases l' with
    | nil => rfl
    | cons b l' => cases hl
  | cons a l ih =>
    cases l' with
    | nil => cases hl
    | cons b l' =>
      simp only [List.map_cons, List.cons.injEq] at hl ⊢
      refine ⟨h a List.mem_cons_self b List.mem_cons_self hl.1, ih (fun a ha b hb => ?_) hl.2⟩
      exact h a (List.mem_cons_of_mem _ ha) b (List.mem_cons_of_mem _ hb)

theorem sortBy_arranged (members : List (String × Json)) :
    sortBy memberLe (members.map fun m => (m.1, m.2.arranged)) =
      (sortBy memberLe members).map fun m => (m.1, m.2.arranged) :=
  sortBy_map (fun _ _ => rfl) members

namespace Keyed

/-- The order of members does not show in what a value means. -/
theorem meaning_arranged (hv : v.Keyed) : v.arranged.meaning = v.meaning := by
  induction hv with
  | null => rfl
  | text s => rfl
  | array _ ih =>
    rw [arranged_array, meaning_array, meaning_array, List.map_map]
    exact congrArg Meaning.list (List.map_congr_left ih)
  | @object members hn _ ih =>
    rw [arranged_object, meaning_object, meaning_object]
    refine congrArg Meaning.mapping (funext fun name => ?_)
    have hp := sortBy_perm memberLe members
    rw [lookup_mapValues, lookup_perm hp ((hp.map _).nodup_iff.2 hn), Option.map_map]
    cases hl : members.lookup name with
    | none => rfl
    | some u => exact congrArg some (ih _ (mem_of_lookup hl))

/-- What a value means tells the value but for the order of members. -/
theorem arranged_eq_of_meaning_eq (hv : v.Keyed) :
    ∀ {w : Json}, w.Keyed → v.meaning = w.meaning → v.arranged = w.arranged := by
  induction hv with
  | null => intro w hw h; cases hw <;> cases h; rfl
  | text s => intro w hw h; cases hw <;> cases h; rfl
  | array _ ih =>
    intro w hw h
    cases hw with
    | array hitems' =>
      rw [meaning_array, meaning_array, Meaning.list.injEq] at h
      rw [arranged_array, arranged_array]
      exact congrArg Json.array (map_eq_of_map_eq (fun u hu u' hu' => ih u hu (hitems' u' hu')) h)
    | _ => cases h
  | @object members hn _ ih =>
    intro w hw h
    cases hw with
    | @object members' hn' hmembers' =>
      rw [meaning_object, meaning_object, Meaning.mapping.injEq] at h
      -- what is found under a name means the same, and so it is the same in order
      have hlook : ∀ name, (members.map fun m => (m.1, m.2.arranged)).lookup name =
          (members'.map fun m => (m.1, m.2.arranged)).lookup name := by
        intro name
        have hname := congrFun h name
        rw [lookup_mapValues, lookup_mapValues]
        cases hl : members.lookup name <;> cases hl' : members'.lookup name <;>
          simp only [hl, hl', Option.map_some, Option.map_none, reduceCtorEq, Option.some.injEq]
            at hname ⊢
        exact ih _ (mem_of_lookup hl) (hmembers' _ (mem_of_lookup hl')) hname
      have hnames : ∀ l : List (String × Json),
          (l.map fun m => (m.1, m.2.arranged)).map (·.1) = l.map (·.1) := fun l => by
        rw [List.map_map]
        rfl
      rw [← hnames] at hn hn'
      have hsorted := sortBy_key_eq_of_perm Prod.fst (perm_of_lookup_eq hn hn' hlook) hn
      rw [arranged_object, arranged_object, ← sortBy_arranged, ← sortBy_arranged]
      exact congrArg Json.object hsorted
    | _ => cases h

/-- **Values mean the same** if and only if they differ in the order of members only. -/
theorem meaning_eq_iff (hv : v.Keyed) (hw : w.Keyed) :
    v.meaning = w.meaning ↔ v.arranged = w.arranged := by
  refine ⟨hv.arranged_eq_of_meaning_eq hw, fun h => ?_⟩
  rw [← hv.meaning_arranged, h, hw.meaning_arranged]

end Keyed

/-! ## Texts and bytes -/

/-- Putting members in order does not change the text, for which they are put in order anyway. -/
theorem Plain.write_arranged (hv : v.Plain) : v.arranged.write = v.write := by
  induction hv with
  | null => rfl
  | text s => rfl
  | array _ ih =>
    rw [arranged_array, write_array, write_array, List.map_map]
    exact congrArg (fun l => '[' :: commaJoined l ++ [']']) (List.map_congr_left ih)
  | @object members _ ih =>
    have hsorted : (sortBy memberLe members).Pairwise fun a b => memberLe a b :=
      sortBy_key_sorted Prod.fst members
    rw [arranged_object, write_object, write_object, sortBy_arranged, sortBy_eq_self hsorted,
      List.map_map]
    refine congrArg (fun l => '\x7b' :: commaJoined l ++ ['\x7d']) (List.map_congr_left fun m hm => ?_)
    have hm' := ih m ((sortBy_perm _ _).subset hm)
    simp only [Function.comp_apply, memberText, hm']

/-- **The canonical text of a value** tells what the value means, and nothing else. -/
theorem canonicalText_eq_iff (hv : v.Keyed) (hw : w.Keyed) :
    v.canonicalText = w.canonicalText ↔ v.meaning = w.meaning := by
  rw [hv.meaning_eq_iff hw]
  refine ⟨arranged_of_canonicalText hv.plain hw.plain, fun h => ?_⟩
  rw [canonicalText, canonicalText, ← hv.plain.write_arranged, h, hw.plain.write_arranged]

/-- The bytes that are hashed. -/
def hashed (v : Json) : List UInt8 := Text.encode v.canonicalText

end Json

theorem encode_injective {s t : String} (h : Text.encode s = Text.encode t) : s = t := by
  have hs := Snapshot.decode_encode s
  rw [h, Snapshot.decode_encode] at hs
  exact (Except.ok.inj hs).symm

namespace Json

variable {v w : Json}

theorem hashed_eq_iff (hv : v.Keyed) (hw : w.Keyed) : v.hashed = w.hashed ↔ v.meaning = w.meaning := by
  rw [← canonicalText_eq_iff hv hw]
  exact ⟨encode_injective, congrArg Text.encode⟩

end Json

/-! ## Bodies -/

theorem Json.keyed_ofText? (s : Option String) : (Json.ofText? s).Keyed := by
  cases s with
  | none => exact .null
  | some s => exact .text s

namespace Graph

variable {g : Graph}

theorem keyed_canonicalArguments {c : Call} {l : List Json} (hl : g.canonicalArguments c = .ok l) :
    ∀ v ∈ l, v.Keyed := by
  intro v hv
  obtain ⟨keys, -, hl⟩ := bind_eq_ok.1 hl
  obtain ⟨shown, hshown, hl⟩ := bind_eq_ok.1 hl
  cases hl
  obtain ⟨v', hv', rfl⟩ := List.mem_filterMap.1 hv
  obtain ⟨h, -, hh⟩ := exists_of_mapM_ok hshown hv'
  obtain ⟨a, -, hh⟩ := bind_eq_ok.1 hh
  split at hh
  · cases hh
  · split at hh
    · cases hh
      exact .array (by simp [Json.Keyed.text, a.value.keyed_canonical])
    · cases hh

theorem keyed_canonicalStep {h : Handle} {v : Json} (hv : g.canonicalStep h = .ok v) : v.Keyed := by
  obtain ⟨n, -, hv⟩ := bind_eq_ok.1 hv
  split at hv
  · rename_i s _
    cases hv
    exact .object (by simp) (by simp [Json.Keyed.text, s.value.keyed_canonical])
  · obtain ⟨c, -, hv⟩ := bind_eq_ok.1 hv
    obtain ⟨l, hl, hv⟩ := bind_eq_ok.1 hv
    cases hv
    have harguments := Json.Keyed.array (keyed_canonicalArguments hl)
    exact .object (by simp) (by simp [Json.Keyed.text, Json.keyed_ofText?, harguments])

/-- What a graph says of a body, whether it has been enriched or not. -/
theorem keyed_canonicalSteps {steps : List Handle} {body : Json}
    (hbody : g.canonicalSteps steps = .ok body) : body.Keyed := by
  obtain ⟨l, hl, hbody⟩ := bind_eq_ok.1 hbody
  cases hbody
  refine .array fun v hv => ?_
  obtain ⟨h, -, hh⟩ := exists_of_mapM_ok hl hv
  exact keyed_canonicalStep hh

end Graph

/-- Two messages with one digest. -/
def Sha256.Collision (m n : List UInt8) : Prop := m ≠ n ∧ hexDigest m = hexDigest n

/-- **The bytes that are hashed tell the value.** For values that are built from null, texts, lists and
mappings they are the same if and only if the values are. What any graph says of any body is such a value,
and so bodies that differ have one fingerprint only where two messages have one digest. -/
theorem fingerprints_tell_bodies :
    (∀ v w : Json, v.Keyed → w.Keyed → (v.hashed = w.hashed ↔ v.meaning = w.meaning)) ∧
      (∀ v : Json, fingerprint v = Sha256.hexDigest v.hashed) ∧
      (∀ (g : Graph) (steps : List Handle) (body : Json),
        g.canonicalSteps steps = .ok body → body.Keyed) ∧
      ∀ (g g' : Graph) (steps steps' : List Handle) (body body' : Json),
        g.canonicalSteps steps = .ok body → g'.canonicalSteps steps' = .ok body' →
          body.meaning ≠ body'.meaning → fingerprint body = fingerprint body' →
            Sha256.Collision body.hashed body'.hashed := by
  refine ⟨fun v w => Json.hashed_eq_iff, fun _ => rfl, fun g steps body => Graph.keyed_canonicalSteps, ?_⟩
  intro g g' steps steps' body body' hbody hbody' hne hsame
  have hiff := Json.hashed_eq_iff (Graph.keyed_canonicalSteps hbody) (Graph.keyed_canonicalSteps hbody')
  exact ⟨mt hiff.1 hne, hsame⟩

namespace Json

/-- A value with a text that looks like the end of one text and the start of another. -/
abbrev joined : Json := .object [("a", .array [.text "\", \"", .null]), ("b", .text "")]

/-- The same value with its members in another order. -/
abbrev turned : Json := .object [("b", .text ""), ("a", .array [.text "\", \"", .null])]

/-- A value in which two texts stand instead. -/
abbrev parted : Json := .object [("a", .array [.text "", .text "", .null]), ("b", .text "")]

end Json

theorem fingerprints_tell_joined :
    (Json.joined.Keyed ∧ Json.turned.Keyed ∧ Json.parted.Keyed) ∧
      Json.joined.hashed = Json.turned.hashed ∧ Json.joined.hashed ≠ Json.parted.hashed := by
  have hjoined : Json.joined.Keyed :=
    .object (by decide) (by simp [Json.Keyed.null, Json.Keyed.text, Json.Keyed.array])
  have hturned : Json.turned.Keyed :=
    .object (by decide) (by simp [Json.Keyed.null, Json.Keyed.text, Json.Keyed.array])
  have hparted : Json.parted.Keyed :=
    .object (by decide) (by simp [Json.Keyed.null, Json.Keyed.text, Json.Keyed.array])
  refine ⟨⟨hjoined, hturned, hparted⟩, (fingerprints_tell_bodies.1 _ _ hjoined hturned).2 ?_,
    mt (fingerprints_tell_bodies.1 _ _ hjoined hparted).1 fun h => ?_⟩
  · rw [Json.meaning_object, Json.meaning_object]
    refine congrArg Meaning.mapping (funext fun name => congrArg (Option.map Json.meaning) ?_)
    exact lookup_perm (.swap _ _ _) (by decide) name
  · rw [Json.meaning_object, Json.meaning_object, Meaning.mapping.injEq] at h
    have ha := congrFun h "a"
    simp [Json.meaning_array] at ha

end Actionbook
