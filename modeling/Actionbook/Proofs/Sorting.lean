import Actionbook.Sorting
import Mathlib.Data.List.Nodup
import Mathlib.Data.List.Perm.Basic

/-!
# Sorted lists

Sorting keeps the elements (`sortBy_perm`) and puts them in order (`sortBy_sorted`). The order of texts
tells all texts apart, so a list of texts is sorted in one way only (`sortTexts_eq_of_perm`), and so is a
list of things that have different texts (`sortBy_key_eq_of_perm`).
-/

namespace Actionbook

section
variable {α : Type} {le : α → α → Bool} {a : α} {l : List α}

theorem insertOrdered_perm (le : α → α → Bool) (a : α) (l : List α) :
    (insertOrdered le a l).Perm (a :: l) := by
  induction l with
  | nil => exact .refl _
  | cons b l ih =>
    unfold insertOrdered
    split
    · exact .refl _
    · exact (ih.cons b).trans (.swap a b l)

theorem sortBy_perm (le : α → α → Bool) (l : List α) : (sortBy le l).Perm l := by
  induction l with
  | nil => exact .refl _
  | cons a l ih => exact (insertOrdered_perm le a _).trans (ih.cons a)

theorem insertOrdered_sorted (total : ∀ a b, le a b ∨ le b a) (trans : ∀ a b c, le a b → le b c → le a c)
    (hl : l.Pairwise fun a b => le a b) : (insertOrdered le a l).Pairwise fun a b => le a b := by
  induction l with
  | nil => exact List.pairwise_singleton _ a
  | cons b l ih =>
    obtain ⟨hb, hl⟩ := List.pairwise_cons.1 hl
    unfold insertOrdered
    split
    · rename_i hab
      refine List.pairwise_cons.2 ⟨fun c hc => ?_, List.pairwise_cons.2 ⟨hb, hl⟩⟩
      rcases List.mem_cons.1 hc with rfl | hc
      · exact hab
      · exact trans _ _ _ hab (hb c hc)
    · rename_i hab
      refine List.pairwise_cons.2 ⟨fun c hc => ?_, ih hl⟩
      rcases List.mem_cons.1 ((insertOrdered_perm le a l).subset hc) with rfl | hc
      · exact (total c b).resolve_left hab
      · exact hb c hc

theorem sortBy_sorted (total : ∀ a b, le a b ∨ le b a) (trans : ∀ a b c, le a b → le b c → le a c)
    (l : List α) : (sortBy le l).Pairwise fun a b => le a b := by
  induction l with
  | nil => exact .nil
  | cons a l ih => exact insertOrdered_sorted total trans ih

end

/-! ## Sorting by a key -/

section
variable {α β : Type} {le : α → α → Bool} {le' : β → β → Bool} {f : α → β}

theorem insertOrdered_map (h : ∀ a b, le' (f a) (f b) = le a b) (a : α) (l : List α) :
    insertOrdered le' (f a) (l.map f) = (insertOrdered le a l).map f := by
  induction l with
  | nil => rfl
  | cons b l ih =>
    rw [List.map_cons, insertOrdered, insertOrdered, h]
    split
    · rfl
    · rw [ih, List.map_cons]

/-- Sorting does not look beyond the keys. -/
theorem sortBy_map (h : ∀ a b, le' (f a) (f b) = le a b) (l : List α) :
    sortBy le' (l.map f) = (sortBy le l).map f := by
  induction l with
  | nil => rfl
  | cons a l ih => rw [List.map_cons, sortBy, sortBy, ih, insertOrdered_map h]

/-- A list in order stays as it is. -/
theorem sortBy_eq_self {l : List α} (hl : l.Pairwise fun a b => le a b) : sortBy le l = l := by
  induction hl with
  | nil => rfl
  | cons ha _ ih =>
    rename_i l _
    rw [sortBy, ih]
    cases l with
    | nil => rfl
    | cons b l => rw [insertOrdered, if_pos (ha b List.mem_cons_self)]

end

/-! ## Distinct elements -/

section
variable {α : Type} [BEq α] [LawfulBEq α] {a : α}

theorem foldl_distinct (l : List α) {acc : List α} (hacc : acc.Nodup) :
    (l.foldl (fun acc a => if acc.contains a then acc else acc ++ [a]) acc).Nodup ∧
      ∀ a, a ∈ l.foldl (fun acc a => if acc.contains a then acc else acc ++ [a]) acc ↔
        a ∈ acc ∨ a ∈ l := by
  induction l generalizing acc with
  | nil => exact ⟨hacc, by simp⟩
  | cons b l ih =>
    rw [List.foldl_cons]
    by_cases hb : b ∈ acc
    · rw [if_pos (List.contains_iff_mem.2 hb)]
      refine ⟨(ih hacc).1, fun a => ?_⟩
      rw [(ih hacc).2, List.mem_cons]
      exact ⟨Or.imp_right .inr, Or.rec .inl (Or.rec (fun h => .inl (h ▸ hb)) .inr)⟩
    · rw [if_neg (mt List.contains_iff_mem.1 hb)]
      have hadd : (acc ++ [b]).Nodup :=
        hacc.append (List.nodup_singleton b) (List.disjoint_singleton.2 hb)
      refine ⟨(ih hadd).1, fun a => ?_⟩
      rw [(ih hadd).2, List.mem_append, List.mem_singleton, List.mem_cons, or_assoc]

theorem nodup_distinct (l : List α) : (distinct l).Nodup := (foldl_distinct l List.nodup_nil).1

@[simp] theorem mem_distinct {l : List α} : a ∈ distinct l ↔ a ∈ l := by
  rw [distinct, (foldl_distinct l List.nodup_nil).2]
  exact or_iff_right List.not_mem_nil

end

/-! ## Texts -/

theorem textLe_iff {s t : String} : textLe s t = true ↔ s ≤ t := by
  rw [textLe, Bool.not_eq_true', decide_eq_false_iff_not]
  exact Iff.rfl

theorem textLe_total (s t : String) : textLe s t ∨ textLe t s := by
  rw [textLe_iff, textLe_iff]
  exact String.le_total s t

theorem textLe_trans {s t u : String} (h : textLe s t) (h' : textLe t u) : textLe s u := by
  rw [textLe_iff] at h h' ⊢
  exact String.le_trans h h'

theorem textLe_antisymm {s t : String} (h : textLe s t) (h' : textLe t s) : s = t := by
  rw [textLe_iff] at h h'
  exact String.le_antisymm h h'

theorem sortTexts_perm (l : List String) : (sortTexts l).Perm l := sortBy_perm _ _

/-- Sorting by texts puts these in order. -/
theorem sortBy_key_sorted {α : Type} (key : α → String) (l : List α) :
    (sortBy (fun a b => textLe (key a) (key b)) l).Pairwise fun a b => textLe (key a) (key b) := by
  have total : ∀ a b, textLe (key a) (key b) ∨ textLe (key b) (key a) := fun _ _ => textLe_total _ _
  have trans : ∀ a b c, textLe (key a) (key b) → textLe (key b) (key c) →
      textLe (key a) (key c) := fun _ _ _ => textLe_trans
  exact sortBy_sorted total trans l

theorem sortTexts_sorted (l : List String) : (sortTexts l).Pairwise fun s t => textLe s t :=
  sortBy_key_sorted id l

@[simp] theorem mem_sortTexts {s : String} {l : List String} : s ∈ sortTexts l ↔ s ∈ l :=
  (sortTexts_perm l).mem_iff

/-- What has different texts can be put in one order only. -/
theorem sortBy_key_eq_of_perm {α : Type} (key : α → String) {l l' : List α} (hp : l.Perm l')
    (hn : (l.map key).Nodup) : sortBy (fun a b => textLe (key a) (key b)) l =
      sortBy (fun a b => textLe (key a) (key b)) l' := by
  have hl := sortBy_perm (fun a b => textLe (key a) (key b)) l
  have hl' := sortBy_perm (fun a b => textLe (key a) (key b)) l'
  refine List.Perm.eq_of_pairwise (fun a b ha hb hab hba => ?_) (sortBy_key_sorted key l)
    (sortBy_key_sorted key l') ((hl.trans hp).trans hl'.symm)
  have hb' : b ∈ l := hp.symm.subset (hl'.subset hb)
  exact List.inj_on_of_nodup_map hn (hl.subset ha) hb' (textLe_antisymm hab hba)

/-- A list of texts in order is the sorted form of every list of the same texts. -/
theorem sortTexts_eq_of_perm {l l' : List String} (hl : l.Pairwise fun s t => textLe s t)
    (hp : l.Perm l') : l = sortTexts l' :=
  List.Perm.eq_of_pairwise (fun _ _ _ _ => textLe_antisymm) hl (sortTexts_sorted l')
    (hp.trans (sortTexts_perm l').symm)

end Actionbook
