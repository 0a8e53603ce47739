import Actionbook.Json.Reader
import Actionbook.Proofs.Canonical
import Actionbook.Proofs.Sorting
import Mathlib.Data.List.Forall2
import Mathlib.Tactic.IntervalCases

/-!
# What a canonical text tells

The canonical text of a JSON value tells the value, but for the order of the members of objects
(`Json.arranged_of_canonicalText`). It holds of values without numbers and truth values (`Json.Plain`);
bodies have no others. So the text that is fingerprinted tells which words a body calls
(`callees_of_canonicalText`).

The proof reads a text from the left: the text of a value ends where the value does, whatever follows
(`Json.arranged_of_write`). So the items of an array are cut out one by one.
-/

namespace Actionbook

namespace Json

/-! ## Texts -/

/-- The character that the start of an escaped text stands for, and what is left of the text. -/
def nextChar? : List Char → Option (Char × List Char)
  | '\\' :: 'u' :: a :: b :: c :: d :: r => (hexQuad? a b c d).map fun n => (Char.ofNat n, r)
  | '\\' :: l :: r => (unescape? l).map (·, r)
  | c :: r => some (c, r)
  | [] => none

theorem nextChar?_control (n : Nat) (hn : n < 32) (r : List Char) :
    nextChar? ('\\' :: 'u' :: (Text.hexPadded 4 n ++ r)) = some (Char.ofNat n, r) := by
  interval_cases n <;> rfl

theorem nextChar?_escapedChar (c : Char) (r : List Char) :
    nextChar? (escapedChar c ++ r) = some (c, r) := by
  have of : ∀ n, c.toNat = n → c = Char.ofNat n := fun n hn => by rw [← hn, Char.ofNat_toNat]
  unfold escapedChar
  split_ifs with hquote hline hreturn htab hback hfeed hcontrol
  · rcases hquote with rfl | rfl <;> rfl
  · subst hline; rfl
  · subst hreturn; rfl
  · subst htab; rfl
  · rw [of 8 hback]; rfl
  · rw [of 12 hfeed]; rfl
  · rw [List.cons_append, List.cons_append, nextChar?_control _ hcontrol, Char.ofNat_toNat]
  · have hslash : c ≠ '\\' := fun h => hquote (.inr h)
    simp [nextChar?, hslash]

theorem escapedChar_append_inj {c d : Char} {r r' : List Char}
    (h : escapedChar c ++ r = escapedChar d ++ r') : c = d ∧ r = r' := by
  have h := congrArg nextChar? h
  rw [nextChar?_escapedChar, nextChar?_escapedChar] at h
  simpa using h

theorem escapedChar_append_ne (c : Char) (r r' : List Char) : escapedChar c ++ r ≠ '"' :: r' := by
  intro h
  have hc := congrArg nextChar? h
  rw [nextChar?_escapedChar] at hc
  obtain rfl : c = '"' := by simpa [nextChar?] using congrArg (Option.map Prod.fst) hc
  cases h

/-- A text ends at its closing quote. -/
theorem quotedText_append_inj {s t : List Char} {r r' : List Char}
    (h : quotedText s ++ r = quotedText t ++ r') : s = t ∧ r = r' := by
  simp only [quotedText, List.cons_append, List.append_assoc, List.cons.injEq, true_and,
    List.nil_append] at h
  induction s generalizing t with
  | nil =>
    cases t with
    | nil => simpa using h
    | cons d t =>
      rw [List.flatMap_cons, List.append_assoc] at h
      exact absurd h.symm (escapedChar_append_ne d _ _)
  | cons c s ih =>
    cases t with
    | nil =>
      rw [List.flatMap_cons, List.append_assoc] at h
      exact absurd h (escapedChar_append_ne c _ _)
    | cons d t =>
      rw [List.flatMap_cons, List.flatMap_cons, List.append_assoc, List.append_assoc] at h
      obtain ⟨rfl, hrest⟩ := escapedChar_append_inj h
      obtain ⟨rfl, hr⟩ := ih hrest
      exact ⟨rfl, hr⟩

/-! ## Lists -/

theorem commaJoined_cons (s : List Char) (l : List (List Char)) :
    commaJoined (s :: l) = s ++ l.flatMap fun t => ',' :: ' ' :: t := by
  induction l generalizing s with
  | nil => exact (List.append_nil s).symm
  | cons t l ih =>
    rw [commaJoined, ih, List.flatMap_cons]
    · rfl
    · simp

section
variable {α : Type} {f : α → List Char} {R : α → α → Prop} {close : Char} {l l' : List α}
  {r r' : List Char}

/-- Items with a comma before each of them are told from their text, up to a closing bracket. -/
theorem forall₂_of_followed (hclose : close ≠ ',')
    (hf : ∀ a ∈ l, ∀ a' ∈ l', ∀ s s', f a ++ s = f a' ++ s' → R a a' ∧ s = s')
    (h : (l.map f).flatMap (fun t => ',' :: ' ' :: t) ++ close :: r =
      (l'.map f).flatMap (fun t => ',' :: ' ' :: t) ++ close :: r') :
    List.Forall₂ R l l' ∧ r = r' := by
  induction l generalizing l' with
  | nil =>
    cases l' with
    | nil => exact ⟨.nil, by simpa using h⟩
    | cons b l' => exact absurd (List.cons.inj h).1 hclose
  | cons a l ih =>
    cases l' with
    | nil => exact absurd (List.cons.inj h).1.symm hclose
    | cons b l' =>
      simp only [List.map_cons, List.flatMap_cons, List.cons_append, List.append_assoc,
        List.cons.injEq, true_and] at h
      obtain ⟨hab, hrest⟩ := hf a List.mem_cons_self b List.mem_cons_self _ _ h
      obtain ⟨hl, hr⟩ := ih (fun a ha b hb => hf a (List.mem_cons_of_mem _ ha) b
        (List.mem_cons_of_mem _ hb)) hrest
      exact ⟨.cons hab hl, hr⟩

/-- The items of a list are told from their text, up to a closing bracket that starts none of them. -/
theorem forall₂_of_commaJoined (hclose : close ≠ ',')
    (hstart : ∀ a ∈ l ++ l', ∃ c s, f a = c :: s ∧ c ≠ close)
    (hf : ∀ a ∈ l, ∀ a' ∈ l', ∀ s s', f a ++ s = f a' ++ s' → R a a' ∧ s = s')
    (h : commaJoined (l.map f) ++ close :: r = commaJoined (l'.map f) ++ close :: r') :
    List.Forall₂ R l l' ∧ r = r' := by
  cases l with
  | nil =>
    cases l' with
    | nil => exact ⟨.nil, by simpa [commaJoined] using h⟩
    | cons b l' =>
      obtain ⟨c, s, hb, hne⟩ := hstart b (by simp)
      rw [List.map_cons, commaJoined_cons, hb] at h
      exact absurd (List.cons.inj h).1.symm hne
  | cons a l =>
    cases l' with
    | nil =>
      obtain ⟨c, s, ha, hne⟩ := hstart a (by simp)
      rw [List.map_cons, commaJoined_cons, ha] at h
      exact absurd (List.cons.inj h).1 hne
    | cons b l' =>
      rw [List.map_cons, List.map_cons, commaJoined_cons, commaJoined_cons, List.append_assoc,
        List.append_assoc] at h
      obtain ⟨hab, hrest⟩ := hf a List.mem_cons_self b List.mem_cons_self _ _ h
      obtain ⟨hl, hr⟩ := forall₂_of_followed hclose (fun a ha b hb =>
        hf a (List.mem_cons_of_mem _ ha) b (List.mem_cons_of_mem _ hb)) hrest
      exact ⟨.cons hab hl, hr⟩

end

theorem map_eq_of_forall₂ {α β : Type} {f : α → β} {l l' : List α}
    (h : List.Forall₂ (fun a b => f a = f b) l l') : l.map f = l'.map f := by
  induction h with
  | nil => rfl
  | cons hab _ ih => rw [List.map_cons, List.map_cons, hab, ih]

/-! ## Values -/

/-- The order of the members of an object. -/
def memberLe {α : Type} (m n : String × α) : Bool := textLe m.1 n.1

mutual

/-- A value with the members of all objects in the order of their names. -/
def arranged : Json → Json
  | .array items => .array (arrangedItems items)
  | .object members => .object (sortBy memberLe (arrangedMembers members))
  | .null => .null
  | .boolean b => .boolean b
  | .integer n => .integer n
  | .float x => .float x
  | .text s => .text s

def arrangedItems : List Json → List Json
  | [] => []
  | v :: l => v.arranged :: arrangedItems l

def arrangedMembers : List (String × Json) → List (String × Json)
  | [] => []
  | (name, v) :: l => (name, v.arranged) :: arrangedMembers l

end

theorem arranged_array (items : List Json) : arranged (.array items) = .array (items.map arranged) := by
  have h : ∀ l, arrangedItems l = l.map arranged := fun l => by
    induction l with
    | nil => rfl
    | cons v l ih => rw [arrangedItems, ih, List.map_cons]
  rw [arranged, h]

theorem arranged_object (members : List (String × Json)) : arranged (.object members) =
    .object ((sortBy memberLe members).map fun m => (m.1, m.2.arranged)) := by
  have h : ∀ l, arrangedMembers l = l.map fun m => (m.1, m.2.arranged) := fun l => by
    induction l with
    | nil => rfl
    | cons m l ih => rw [arrangedMembers, ih, List.map_cons]
  rw [arranged, h]
  exact congrArg object (sortBy_map (fun _ _ => rfl) members)

/-- Values that are built from null, texts, arrays and objects. -/
inductive Plain : Json → Prop
  | null : Plain .null
  | text (s : String) : Plain (.text s)
  | array {items : List Json} (h : ∀ v ∈ items, Plain v) : Plain (.array items)
  | object {members : List (String × Json)} (h : ∀ m ∈ members, Plain m.2) :
      Plain (.object members)

/-- Such values in which no object has two members of one name. -/
inductive Keyed : Json → Prop
  | null : Keyed .null
  | text (s : String) : Keyed (.text s)
  | array {items : List Json} (h : ∀ v ∈ items, Keyed v) : Keyed (.array items)
  | object {members : List (String × Json)} (hn : (members.map (·.1)).Nodup)
      (h : ∀ m ∈ members, Keyed m.2) : Keyed (.object members)

theorem Keyed.plain {v : Json} (hv : v.Keyed) : v.Plain := by
  induction hv with
  | null => exact .null
  | text s => exact .text s
  | array _ ih => exact .array ih
  | object _ _ ih => exact .object ih

/-- The text of a member of an object. -/
def memberText (m : String × Json) : List Char := quotedText m.1.toList ++ ':' :: ' ' :: m.2.write

theorem write_array (items : List Json) :
    write (.array items) = '[' :: commaJoined (items.map write) ++ [']'] := by
  have h : ∀ l, writeItems l = l.map write := fun l => by
    induction l with
    | nil => rfl
    | cons v l ih => rw [writeItems, ih, List.map_cons]
  rw [write, h]

theorem write_object (members : List (String × Json)) : write (.object members) =
    '\x7b' :: commaJoined ((sortBy memberLe members).map memberText) ++ ['\x7d'] := by
  have h : ∀ l, writeMembers l = l.map fun m => (m.1, m.2.write) := fun l => by
    induction l with
    | nil => rfl
    | cons m l ih => rw [writeMembers, ih, List.map_cons]
  have hsort : sortBy (fun a b => textLe a.1 b.1) (writeMembers members) =
      (sortBy memberLe members).map fun m => (m.1, m.2.write) := by
    rw [h]
    exact sortBy_map (fun _ _ => rfl) members
  simp only [write, hsort, List.map_map]
  rfl

/-- The text of a value has a start, by which its kind is told. -/
theorem Plain.write_start {v : Json} (hv : v.Plain) : ∃ c s, v.write = c :: s ∧ c ≠ ']' := by
  cases hv with
  | null => exact ⟨'n', _, rfl, by decide⟩
  | text s => exact ⟨'"', _, rfl, by decide⟩
  | array h => exact ⟨'[', _, write_array _, by decide⟩
  | object h => exact ⟨'\x7b', _, write_object _, by decide⟩

/-- The text of a value tells the value, but for the order of members, and where it ends. -/
theorem arranged_of_write {v : Json} (hv : v.Plain) : ∀ {w : Json}, w.Plain → ∀ {r r' : List Char},
    v.write ++ r = w.write ++ r' → v.arranged = w.arranged ∧ r = r' := by
  induction hv with
  | null =>
    intro w hw r r' h
    cases hw with
    | null => exact ⟨rfl, by simpa [write] using h⟩
    | text s => simp [write, quotedText] at h
    | array _ => simp [write] at h
    | object _ => simp [write] at h
  | text s =>
    intro w hw r r' h
    cases hw with
    | null => simp [write, quotedText] at h
    | text t =>
      obtain ⟨hst, hr⟩ := quotedText_append_inj h
      exact ⟨by rw [String.toList_inj.1 hst], hr⟩
    | array _ => simp [write, quotedText] at h
    | object _ => simp [write, quotedText] at h
  | @array items hitems ih =>
    intro w hw r r' h
    cases hw with
    | null => simp [write] at h
    | text t => simp [write, quotedText] at h
    | @array items' hitems' =>
      rw [write_array, write_array] at h
      simp only [List.cons_append, List.cons.injEq, true_and, List.append_assoc,
        List.nil_append] at h
      have hstart : ∀ v ∈ items ++ items', ∃ c s, v.write = c :: s ∧ c ≠ ']' := fun v hv =>
        ((List.mem_append.1 hv).elim (hitems v) (hitems' v)).write_start
      obtain ⟨hl, hr⟩ := forall₂_of_commaJoined (R := fun v w => v.arranged = w.arranged)
        (by decide) hstart (fun v hv w hw s s' h => ih v hv (hitems' w hw) h) h
      exact ⟨by rw [arranged_array, arranged_array, map_eq_of_forall₂ hl], hr⟩
    | object _ => simp [write] at h
  | @object members hmembers ih =>
    intro w hw r r' h
    cases hw with
    | null => simp [write] at h
    | text t => simp [write, quotedText] at h
    | array _ => simp [write] at h
    | @object members' hmembers' =>
      rw [write_object, write_object] at h
      simp only [List.cons_append, List.cons.injEq, true_and, List.append_assoc,
        List.nil_append] at h
      have hmember : ∀ m ∈ sortBy memberLe members, ∀ n ∈ sortBy memberLe members', ∀ s s',
          memberText m ++ s = memberText n ++ s' →
            (m.1, m.2.arranged) = (n.1, n.2.arranged) ∧ s = s' := by
        intro m hm n hn s s' h
        rw [memberText, memberText, List.append_assoc, List.append_assoc] at h
        obtain ⟨hname, h⟩ := quotedText_append_inj h
        simp only [List.cons_append, List.cons.injEq, true_and] at h
        obtain ⟨hvalue, hs⟩ := ih m ((sortBy_perm _ _).subset hm)
          (hmembers' n ((sortBy_perm _ _).subset hn)) h
        exact ⟨Prod.ext (String.toList_inj.1 hname) hvalue, hs⟩
      obtain ⟨hl, hr⟩ := forall₂_of_commaJoined (by decide)
        (fun m _ => ⟨'"', _, rfl, by decide⟩) hmember h
      exact ⟨by rw [arranged_object, arranged_object, map_eq_of_forall₂ hl], hr⟩

/-- **Values with the same canonical text** differ in the order of members only. -/
theorem arranged_of_canonicalText {v w : Json} (hv : v.Plain) (hw : w.Plain)
    (h : v.canonicalText = w.canonicalText) : v.arranged = w.arranged := by
  have htext : v.write ++ [] = w.write ++ [] := by
    rw [List.append_nil, List.append_nil]
    exact String.ofList_inj.1 h
  exact (arranged_of_write hv hw htext).1

end Json

/-! ## Bodies -/

theorem Json.Keyed.member {v : Json} (hv : v.Keyed) (name : String) : (Json.object [(name, v)]).Keyed :=
  .object (List.nodup_singleton name) (List.forall_mem_singleton.2 hv)

mutual

theorem Value.keyed_canonical (v : Value) : v.canonical.Keyed := by
  cases v with
  | template t parts => exact (Json.Keyed.array (Value.keyed_canonicalParts parts)).member _
  | _ => exact (Json.Keyed.text _).member _

theorem Value.keyed_canonicalParts (l : List Value) : ∀ v ∈ canonicalParts l, v.Keyed := by
  cases l with
  | nil => simp [canonicalParts]
  | cons v l =>
    rw [canonicalParts]
    exact List.forall_mem_cons.2 ⟨v.keyed_canonical, Value.keyed_canonicalParts l⟩

end

theorem Value.plain_canonical (v : Value) : v.canonical.Plain := v.keyed_canonical.plain

theorem Json.plain_ofText? (s : Option String) : (Json.ofText? s).Plain := by
  cases s with
  | none => exact .null
  | some s => exact .text s

namespace WrittenStep

variable {names names' : String → List String} {last last' : Option String} {s s' : WrittenStep}

/-- The word that a step calls. -/
def callee? : WrittenStep → Option String
  | .call word _ _ => some word
  | .plain _ _ => none

theorem plain_canonical (names : String → List String) (last : Option String) (s : WrittenStep) :
    (s.canonical names last).Plain := by
  cases s with
  | plain key value =>
    refine .object ?_
    simp [Json.Plain.text, value.plain_canonical]
  | call word keyword args =>
    have hargs : ∀ v ∈ (shownArguments (names word) args).map canonicalArgument, v.Plain := by
      intro v hv
      obtain ⟨e, -, rfl⟩ := List.mem_map.1 hv
      refine .array ?_
      simp [Json.Plain.text, e.2.plain_canonical]
    refine .object ?_
    simp [Json.Plain.text, Json.plain_ofText?, Json.Plain.array hargs]

/-- The members of what a step says, in the order of their names. -/
theorem sortBy_members (a b c : Json) :
    sortBy Json.memberLe [("step", a), ("value", b)] = [("step", a), ("value", b)] ∧
      sortBy Json.memberLe [("call", a), ("annotation", b), ("arguments", c)] =
        [("annotation", b), ("arguments", c), ("call", a)] := by
  have h₁ : textLe "step" "value" = true := by decide
  have h₂ : textLe "annotation" "arguments" = true := by decide
  have h₃ : textLe "call" "annotation" = false := by decide
  have h₄ : textLe "call" "arguments" = false := by decide
  simp [sortBy, insertOrdered, Json.memberLe, h₁, h₂, h₃, h₄]

theorem member?_canonical (names : String → List String) (last : Option String) (s : WrittenStep) :
    (s.canonical names last).arranged.member? "call" = s.callee?.map Json.text := by
  cases s with
  | plain key value =>
    rw [canonical, Json.arranged_object, (sortBy_members _ _ .null).1]
    rfl
  | call word keyword args =>
    rw [canonical, Json.arranged_object, (sortBy_members _ _ _).2]
    rfl

/-- What a step says tells which word it calls. -/
theorem callee?_of_arranged
    (h : (s.canonical names last).arranged = (s'.canonical names' last').arranged) :
    s.callee? = s'.callee? := by
  have hm := congrArg (Json.member? "call") h
  rw [member?_canonical, member?_canonical] at hm
  exact Option.map_injective (fun _ _ => Json.text.inj) hm

end WrittenStep

theorem plain_canonicalBody (names : String → List String) (steps : List WrittenStep) :
    (canonicalBody names steps).Plain := by
  refine .array ?_
  suffices ∀ done, ∀ v ∈ canonicalFrom names done steps, v.Plain from this []
  induction steps with
  | nil => simp [canonicalFrom]
  | cons s l ih => exact fun done => List.forall_mem_cons.2 ⟨s.plain_canonical names _, ih _⟩

theorem callees_of_arranged {names names' : String → List String} {done done' : List (Option String)}
    {steps steps' : List WrittenStep}
    (h : (canonicalFrom names done steps).map Json.arranged =
      (canonicalFrom names' done' steps').map Json.arranged) :
    steps.map WrittenStep.callee? = steps'.map WrittenStep.callee? := by
  induction steps generalizing steps' done done' with
  | nil =>
    cases steps' with
    | nil => rfl
    | cons s' l' => cases h
  | cons s l ih =>
    cases steps' with
    | nil => cases h
    | cons s' l' =>
      simp only [canonicalFrom, List.map_cons, List.cons.injEq] at h ⊢
      exact ⟨WrittenStep.callee?_of_arranged h.1, ih h.2⟩

/-- **The text of a body** tells which words its steps call. -/
theorem callees_of_canonicalText {names names' : String → List String}
    {steps steps' : List WrittenStep}
    (h : (canonicalBody names steps).canonicalText = (canonicalBody names' steps').canonicalText) :
    steps.map WrittenStep.callee? = steps'.map WrittenStep.callee? := by
  have harr := Json.arranged_of_canonicalText (plain_canonicalBody _ _) (plain_canonicalBody _ _) h
  rw [canonicalBody, canonicalBody, Json.arranged_array, Json.arranged_array, Json.array.injEq] at harr
  exact callees_of_arranged harr

end Actionbook
