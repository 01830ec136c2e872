import AuditReport.Catalog.Basic
import AuditReport.Proofs.Fallible
import Mathlib.Data.List.Nodup

/-! What an accepted catalog guarantees: distinct keys and join names, every join behind the one it
keys off, and columns that allow only admissible operators and ask only for declared joins. -/

namespace AuditReport

theorem Operator.mem_all (op : Operator) : op ∈ Operator.all := by cases op <;> decide

namespace Catalog

open Fallible

theorem check_ok {columns : List Column} {joins : List Join} (h : check columns joins = .ok ()) :
    repeatedKey? [] columns = none ∧ (joins.map Join.name).Nodup ∧ checkJoins joins = .ok () ∧
      ∀ c ∈ columns, checkColumn joins c = .ok () := by
  unfold check at h
  split at h
  · cases h
  · rename_i hk
    split at h
    · cases h
    · rename_i hn
      obtain ⟨⟨⟩, hj, hc⟩ := bind_ok_iff.mp h
      exact ⟨hk, by simpa using hn, hj, forM_ok_iff.mp hc⟩

theorem nodup_names (c : Catalog) : (c.joins.map Join.name).Nodup := (check_ok c.checked).2.1

theorem nodup_of_repeatedKey {seen : List String} {columns : List Column}
    (h : repeatedKey? seen columns = none) :
    (columns.map Column.key).Nodup ∧ ∀ c ∈ columns, c.key ∉ seen := by
  induction columns generalizing seen with
  | nil => simp
  | cons c rest ih =>
    simp only [repeatedKey?] at h
    split at h
    · cases h
    · rename_i hc
      obtain ⟨hn, hs⟩ := ih h
      refine ⟨List.nodup_cons.mpr ⟨?_, hn⟩, ?_⟩
      · intro hm
        obtain ⟨d, hd, he⟩ := List.mem_map.mp hm
        exact hs d hd (by rw [he]; exact List.mem_cons_self)
      · intro d hd
        rcases List.mem_cons.mp hd with rfl | hd
        · simpa using hc
        · exact fun hm => hs d hd (List.mem_cons_of_mem _ hm)

theorem nodup_keys (c : Catalog) : (c.columns.map Column.key).Nodup :=
  (nodup_of_repeatedKey (check_ok c.checked).1).1

theorem column?_some {c : Catalog} {key : String} {col : Column} (h : c.column? key = some col) :
    col ∈ c.columns ∧ col.key = key :=
  ⟨List.mem_of_find?_eq_some h, by simpa using List.find?_some h⟩

/-! ## Joins in order -/

theorem position?_getElem {joins : List Join} (hn : (joins.map Join.name).Nodup) (i : Nat)
    (hi : i < joins.length) : position? joins joins[i].name = some i := by
  refine List.findIdx?_eq_some_iff_getElem.mpr ⟨hi, by simp, ?_⟩
  intro j hj he
  have hsame : joins[j] = joins[i] :=
    List.inj_on_of_nodup_map hn (List.getElem_mem _) (List.getElem_mem _) (by simpa using he)
  exact absurd ((hn.of_map _).getElem_inj_iff.mp hsame) (by omega)

/-- A join that another one keys off stands before it. -/
theorem dependency_before (c : Catalog) (i j : Nat) (hi : i < c.joins.length)
    (hj : j < c.joins.length) (h : c.joins[i].dependency? = some c.joins[j].name) : j < i := by
  obtain ⟨-, hn, hc, -⟩ := check_ok c.checked
  have hcheck := forM_ok_iff.mp hc c.joins[i] (List.getElem_mem hi)
  simp only [h, position?_getElem hn i hi, position?_getElem hn j hj] at hcheck
  split at hcheck
  · cases hcheck
  · omega

theorem pairwise_dependency (c : Catalog) :
    c.joins.Pairwise fun a b => a.dependency? ≠ some b.name :=
  List.pairwise_iff_getElem.mpr fun i j hi hj hij h => by
    have := c.dependency_before i j hi hj h
    omega

theorem dependency_ne_self (c : Catalog) {j : Join} (h : j ∈ c.joins) :
    j.dependency? ≠ some j.name := by
  obtain ⟨i, hi, rfl⟩ := List.getElem_of_mem h
  exact fun he => Nat.lt_irrefl i (c.dependency_before i i hi hi he)

/-! ## Columns -/

theorem checkColumn_ok {joins : List Join} {c : Column} (h : checkColumn joins c = .ok ()) :
    (∀ op ∈ c.operators, op ∈ c.admissible) ∧ checkColumnJoins joins c.key 0 c.joins = .ok () := by
  unfold checkColumn at h
  split at h
  · cases h
  · dsimp only at h
    split at h
    · cases h
    · rename_i hf
      refine ⟨fun op ho => ?_, h⟩
      have hnone : ∀ op ∈ Operator.all,
          (c.operators.contains op && !c.admissible.contains op) = false := by simpa using hf
      simpa [ho] using hnone op op.mem_all

theorem operators_admissible (c : Catalog) {col : Column} (h : col ∈ c.columns) :
    ∀ op ∈ col.operators, op ∈ col.admissible :=
  (checkColumn_ok ((check_ok c.checked).2.2.2 col h)).1

theorem mem_of_checkColumnJoins {joins : List Join} {key : String} {least : Nat}
    {asked : List Join} (h : checkColumnJoins joins key least asked = .ok ()) :
    ∀ j ∈ asked, j ∈ joins := by
  induction asked generalizing least with
  | nil => simp
  | cons k rest ih =>
    simp only [checkColumnJoins] at h
    split at h
    · cases h
    · rename_i p _
      split at h
      · cases h
      · rename_i hp
        split at h
        · cases h
        · exact List.forall_mem_cons.mpr ⟨List.mem_of_getElem? (by simpa using hp), ih h⟩

/-- The joins that a column asks for are joins of the catalog. -/
theorem joins_declared (c : Catalog) {col : Column} (h : col ∈ c.columns) :
    ∀ j ∈ col.joins, j ∈ c.joins :=
  mem_of_checkColumnJoins (checkColumn_ok ((check_ok c.checked).2.2.2 col h)).2

end Catalog

end AuditReport
