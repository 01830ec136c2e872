import AuditReport.Report.Resolver
import AuditReport.Report.Lists
import Mathlib.Data.List.Nodup
import Mathlib.Data.List.Perm.Basic

/-! Lists in order, each item once. Of all lists with some members there is one in strictly
ascending order; to drop repeated items and to sort what is left leads to it from any other. -/

namespace AuditReport

/-- `le` puts any two items into one order, and is strict as `lt` for two that are not the same. -/
structure Orders {α : Type} (le : α → α → Bool) (lt : α → α → Prop) : Prop where
  trans : ∀ a b c, le a b = true → le b c = true → le a c = true
  total : ∀ a b, (le a b || le b a) = true
  antisymm : ∀ a b, le a b = true → le b a = true → a = b
  strict : ∀ a b, lt a b ↔ le a b = true ∧ a ≠ b

section

variable {α β : Type} {le : α → α → Bool} {lt : α → α → Prop}

theorem nodup_eraseDups [BEq α] [LawfulBEq α] (xs : List α) : xs.eraseDups.Nodup := by
  induction hn : xs.length using Nat.strongRecOn generalizing xs with
  | ind n ih =>
    cases xs with
    | nil => simp
    | cons x rest =>
      have hshorter : (rest.filter fun y => !y == x).length < n := by
        have := List.length_filter_le (fun y => !y == x) rest
        simp only [List.length_cons] at hn
        omega
      rw [List.eraseDups_cons, List.nodup_cons]
      refine ⟨?_, ih _ hshorter _ rfl⟩
      intro hx
      have := (List.mem_filter.mp (List.mem_eraseDups.mp hx)).2
      simp at this

theorem Orders.pairwise_mergeSort (h : Orders le lt) {xs : List α} (hxs : xs.Nodup) :
    (xs.mergeSort le).Pairwise lt := by
  have hsorted := List.pairwise_mergeSort h.trans h.total xs
  have hnodup : (xs.mergeSort le).Nodup := (List.mergeSort_perm xs le).nodup_iff.mpr hxs
  refine (hsorted.and hnodup).imp fun {a b} hab => ?_
  exact (h.strict a b).mpr hab

theorem mem_sorted [BEq α] [LawfulBEq α] {xs : List α} {x : α} :
    x ∈ xs.eraseDups.mergeSort le ↔ x ∈ xs := by
  rw [List.mem_mergeSort, List.mem_eraseDups]

theorem Orders.pairwise_sorted [BEq α] [LawfulBEq α] (h : Orders le lt) (xs : List α) :
    (xs.eraseDups.mergeSort le).Pairwise lt :=
  h.pairwise_mergeSort (nodup_eraseDups xs)

/-- Two lists in strictly ascending order with the same members are the same. -/
theorem Orders.unique (h : Orders le lt) {xs ys : List α} (hxs : xs.Pairwise lt)
    (hys : ys.Pairwise lt) (hmem : ∀ x, x ∈ xs ↔ x ∈ ys) : xs = ys := by
  have hnodup : ∀ {zs : List α}, zs.Pairwise lt → zs.Nodup := fun hzs =>
    hzs.imp fun {a b} hab => ((h.strict a b).mp hab).2
  have hperm : xs.Perm ys :=
    (List.perm_ext_iff_of_nodup (hnodup hxs) (hnodup hys)).mpr hmem
  refine hperm.eq_of_pairwise (fun a b _ _ hab hba => ?_) hxs hys
  exact h.antisymm a b ((h.strict a b).mp hab).1 ((h.strict b a).mp hba).1

/-- Items are ordered as what they are made into. -/
theorem Orders.comap (h : Orders le lt) {f : β → α} (hf : ∀ b c, f b = f c → b = c) :
    Orders (fun b c => le (f b) (f c)) (fun b c => lt (f b) (f c)) where
  trans _ _ _ := h.trans _ _ _
  total _ _ := h.total _ _
  antisymm b c hbc hcb := hf b c (h.antisymm _ _ hbc hcb)
  strict b c := by
    rw [h.strict]
    exact and_congr_right fun _ => not_congr ⟨hf b c, congrArg f⟩

end

/-! ## Texts, and texts with their providers -/

theorem text_orders : Orders (fun s t : String => !decide (t < s)) (· < ·) where
  trans s t u hst htu := by
    simp only [Bool.not_eq_true', decide_eq_false_iff_not, String.not_lt] at hst htu ⊢
    exact String.le_trans hst htu
  total s t := by
    simp only [Bool.or_eq_true, Bool.not_eq_true', decide_eq_false_iff_not, String.not_lt]
    exact String.le_total s t
  antisymm s t hst hts := by
    simp only [Bool.not_eq_true', decide_eq_false_iff_not, String.not_lt] at hst hts
    exact String.le_antisymm hst hts
  strict s t := by
    simp only [Bool.not_eq_true', decide_eq_false_iff_not, String.not_lt]
    constructor
    · intro hst
      refine ⟨String.not_lt.mp (String.lt_asymm hst), ?_⟩
      rintro rfl
      exact String.lt_irrefl s hst
    · rintro ⟨hle, hne⟩
      refine String.not_le.mp fun hts => hne (String.le_antisymm hle hts)

namespace Lists

/-- One pair comes before another: by its provider, then by its text. -/
def PairLess (a b : String × String) : Prop := a.1 < b.1 ∨ a.1 = b.1 ∧ a.2 < b.2

theorem pairBefore_iff {a b : String × String} :
    pairBefore a b = true ↔ a.1 < b.1 ∨ a.1 = b.1 ∧ a.2 ≤ b.2 := by
  simp only [pairBefore, Bool.or_eq_true, Bool.and_eq_true, decide_eq_true_eq, beq_iff_eq,
    Bool.not_eq_true', decide_eq_false_iff_not, String.not_lt]

theorem pair_orders : Orders pairBefore PairLess where
  trans a b c hab hbc := by
    rw [pairBefore_iff] at hab hbc ⊢
    rcases hab with hab | ⟨hab, hab'⟩ <;> rcases hbc with hbc | ⟨hbc, hbc'⟩
    · exact .inl (String.lt_trans hab hbc)
    · exact .inl (hbc ▸ hab)
    · exact .inl (hab ▸ hbc)
    · exact .inr ⟨hab.trans hbc, String.le_trans hab' hbc'⟩
  total a b := by
    rw [Bool.or_eq_true, pairBefore_iff, pairBefore_iff]
    by_cases hab : a.1 < b.1
    · exact .inl (.inl hab)
    by_cases hba : b.1 < a.1
    · exact .inr (.inl hba)
    have hfirst : a.1 = b.1 := String.le_antisymm (String.not_lt.mp hba) (String.not_lt.mp hab)
    exact (String.le_total a.2 b.2).imp (fun h => .inr ⟨hfirst, h⟩) fun h => .inr ⟨hfirst.symm, h⟩
  antisymm a b hab hba := by
    rw [pairBefore_iff] at hab hba
    rcases hab with hab | ⟨hfirst, hab⟩ <;> rcases hba with hba | ⟨hfirst', hba⟩
    · exact absurd hba (String.lt_asymm hab)
    · exact absurd (hfirst' ▸ hab) (String.lt_irrefl _)
    · exact absurd (hfirst ▸ hba) (String.lt_irrefl _)
    · exact Prod.ext hfirst (String.le_antisymm hab hba)
  strict a b := by
    rw [pairBefore_iff]
    constructor
    · rintro (h | ⟨hfirst, h⟩)
      · refine ⟨.inl h, ?_⟩
        rintro rfl
        exact String.lt_irrefl _ h
      · obtain ⟨hle, hne⟩ := (text_orders.strict _ _).mp h
        simp only [Bool.not_eq_true', decide_eq_false_iff_not, String.not_lt] at hle
        exact ⟨.inr ⟨hfirst, hle⟩, fun hab => hne (congrArg Prod.snd hab)⟩
    · rintro ⟨h | ⟨hfirst, h⟩, hne⟩
      · exact .inl h
      · refine .inr ⟨hfirst, String.not_le.mp fun hle => hne ?_⟩
        exact Prod.ext hfirst (String.le_antisymm h hle)

variable {pairs : List (String × String)} {p w : String}

/-- What pairs in order have under one provider is in order too. -/
theorem pairwise_own (h : pairs.Pairwise PairLess) (p : String) :
    ((pairs.filter (·.1 == p)).map Prod.snd).Pairwise (· < ·) := by
  refine List.pairwise_map.mpr ((h.filter _).imp_of_mem fun {a b} ha hb hab => ?_)
  have hfirst : a.1 = b.1 :=
    (eq_of_beq (List.mem_filter.mp ha).2).trans (eq_of_beq (List.mem_filter.mp hb).2).symm
  rcases hab with hab | ⟨-, hab⟩
  · exact absurd (hfirst ▸ hab) (String.lt_irrefl _)
  · exact hab

theorem mem_own : w ∈ (pairs.filter (·.1 == p)).map Prod.snd ↔ (p, w) ∈ pairs := by
  simp [List.mem_map, List.mem_filter]

end Lists

namespace Resolver

/-- One password comes before another: by its provider, then by itself. -/
def ItemLess (a b : PasswordItem) : Prop :=
  a.otaType < b.otaType ∨ a.otaType = b.otaType ∧ a.password < b.password

theorem item_orders : Orders before ItemLess :=
  Lists.pair_orders.comap (f := fun i : PasswordItem => (i.otaType, i.password)) fun i j h => by
    cases i
    cases j
    cases h
    rfl

theorem mem_sortItems {items : List PasswordItem} {i : PasswordItem} :
    i ∈ sortItems items ↔ i ∈ items := mem_sorted

theorem pairwise_sortItems (items : List PasswordItem) : (sortItems items).Pairwise ItemLess :=
  item_orders.pairwise_sorted items

end Resolver

end AuditReport
