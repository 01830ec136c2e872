import AuditReport.JoinPlan
import AuditReport.Proofs.CatalogRules

/-! Plans are closed: with the joins that some columns ask for, a plan holds every join of the
catalog that these key off, directly or through others. One backward pass over the joins finds all
of them because every join stands behind the one it keys off. -/

namespace AuditReport

/-- The second join is the first one itself, or a join of the catalog that the first one keys off,
directly or through others. -/
inductive Catalog.Reaches (c : Catalog) : Join → Join → Prop
  | refl (j : Join) : Reaches c j j
  | step {j k l : Join} : Reaches c j k → l ∈ c.joins → k.dependency? = some l.name → Reaches c j l

namespace JoinPlan

theorem close_cons (j : Join) (joins : List Join) (names : List String) :
    close (j :: joins) names =
      if (close joins names).contains j.name then
        match j.dependency? with
        | some dependency => dependency :: close joins names
        | none => close joins names
      else close joins names := rfl

/-- What one more join adds is the name that it keys off, once the join itself is asked for. -/
theorem mem_close_cons {j : Join} {joins : List Join} {names : List String} {name : String} :
    name ∈ close (j :: joins) names ↔
      name ∈ close joins names ∨ (j.name ∈ close joins names ∧ j.dependency? = some name) := by
  rw [close_cons]
  split
  · next hj =>
    cases hd : j.dependency? with
    | none => simp
    | some dependency => simp [List.contains_iff_mem.mp hj, or_comm, eq_comm]
  · next hj =>
    rw [List.contains_iff_mem] at hj
    simp [hj]

theorem subset_close (joins : List Join) (names : List String) : names ⊆ close joins names := by
  induction joins with
  | nil => exact fun _ h => h
  | cons j joins ih => exact fun name h => mem_close_cons.mpr (.inl (ih h))

/-- The pass misses nothing: no join adds its own name or that of a join behind it, so every name
was found before the join with that name is looked at. -/
theorem dependency_mem_close {joins : List Join} {names : List String}
    (hp : joins.Pairwise fun a b => a.dependency? ≠ some b.name)
    (hs : ∀ j ∈ joins, j.dependency? ≠ some j.name) {k : Join} {name : String} (hk : k ∈ joins)
    (h : k.name ∈ close joins names) (hd : k.dependency? = some name) :
    name ∈ close joins names := by
  induction joins with
  | nil => cases hk
  | cons j joins ih =>
    obtain ⟨hj, hp⟩ := List.pairwise_cons.mp hp
    obtain ⟨hjs, hs⟩ := List.forall_mem_cons.mp hs
    rcases List.mem_cons.mp hk with rfl | hk
    · rcases mem_close_cons.mp h with h | ⟨-, h⟩
      · exact mem_close_cons.mpr (.inr ⟨h, hd⟩)
      · exact absurd h hjs
    · rcases mem_close_cons.mp h with h | ⟨-, h⟩
      · exact mem_close_cons.mpr (.inl (ih hp hs hk h))
      · exact absurd h (hj k hk)

theorem mem_ofColumns_joins {c : Catalog} {keys : List String} {j : Join} :
    j ∈ (ofColumns c keys).joins ↔ j ∈ c.joins ∧ j.name ∈ close c.joins (c.requiredNames keys) := by
  simp [ofColumns, List.mem_filter]

theorem mem_requiredNames {c : Catalog} {keys : List String} {key : String} {col : Column}
    {j : Join} (hk : key ∈ keys) (hc : c.column? key = some col) (hj : j ∈ col.joins) :
    j.name ∈ c.requiredNames keys :=
  List.mem_flatMap.mpr ⟨key, hk, by simpa [hc] using ⟨j, hj, rfl⟩⟩

/-- A plan holds the joins of every column it is made for. -/
theorem mem_joins_of_column {c : Catalog} {keys : List String} {key : String} {col : Column}
    {j : Join} (hk : key ∈ keys) (hc : c.column? key = some col) (hj : j ∈ col.joins) :
    j ∈ (ofColumns c keys).joins :=
  mem_ofColumns_joins.mpr ⟨c.joins_declared (Catalog.column?_some hc).1 j hj,
    subset_close _ _ (mem_requiredNames hk hc hj)⟩

/-- **A plan is closed.** It holds whatever the joins in it key off. -/
theorem mem_joins_of_reaches {c : Catalog} {keys : List String} {j k : Join}
    (h : c.Reaches j k) (hj : j ∈ (ofColumns c keys).joins) : k ∈ (ofColumns c keys).joins := by
  induction h with
  | refl => exact hj
  | step _ hl hd ih =>
    obtain ⟨hk, hname⟩ := mem_ofColumns_joins.mp ih
    exact mem_ofColumns_joins.mpr ⟨hl, dependency_mem_close c.pairwise_dependency
      (fun _ => c.dependency_ne_self) hk hname hd⟩

/-- The plan of all joins of a catalog. -/
def full (c : Catalog) : JoinPlan :=
  ⟨c.joins, (c.joins.map Join.name).filter fun a => c.joins.any (·.dependency? == some a)⟩

/-- Columns that need every join between them leave nothing for others to add. -/
theorem ofColumns_eq_full {c : Catalog} {keys : List String}
    (h : ∀ j ∈ c.joins, ∃ key ∈ keys, ∃ col ∈ c.column? key, j ∈ col.joins) :
    ofColumns c keys = full c := by
  have hall : (ofColumns c keys).joins = c.joins := by
    refine List.filter_eq_self.mpr fun j hj => ?_
    obtain ⟨key, hk, col, hc, hjc⟩ := h j hj
    exact List.contains_iff_mem.mpr (subset_close _ _ (mem_requiredNames hk hc hjc))
  unfold ofColumns full at *
  dsimp only at hall ⊢
  rw [hall]

end JoinPlan

end AuditReport
