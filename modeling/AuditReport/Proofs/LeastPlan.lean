import AuditReport.Proofs.JoinOrder
import Mathlib.Logic.Relation
import Mathlib.Order.Bounds.Basic

/-! A plan is the least that serves its columns. It is found by one pass over the joins of the catalog,
and no less by a search that looks at one name after the other: in whatever order it takes them, the
search ends with the names of the plan. -/

namespace AuditReport

/-- Names that cover some columns: those of the joins that the known columns ask for, and with the name
of a join that of the declared join which it keys off. -/
structure Catalog.Covers (c : Catalog) (keys : List String) (names : Set String) : Prop where
  asked : ∀ key ∈ keys, ∀ col, c.column? key = some col → ∀ j ∈ col.joins, j.name ∈ names
  closed : ∀ j ∈ c.joins, j.name ∈ names → ∀ k ∈ c.joins, j.dependency? = some k.name →
    k.name ∈ names

namespace JoinPlan

variable {c : Catalog} {keys : List String} {name : String} {names : Set String}

/-! ## The least names -/

theorem mem_requiredNames_iff : name ∈ c.requiredNames keys ↔
    ∃ key ∈ keys, ∃ col, c.column? key = some col ∧ ∃ j ∈ col.joins, j.name = name := by
  simp only [Catalog.requiredNames, List.mem_flatMap]
  refine exists_congr fun key => and_congr_right fun _ => ?_
  cases c.column? key <;> simp

theorem mem_names_ofColumns : name ∈ (ofColumns c keys).names ↔
    ∃ j ∈ c.joins, j.name = name ∧ j.name ∈ close c.joins (c.requiredNames keys) := by
  simp only [names, List.mem_map, mem_ofColumns_joins]
  exact exists_congr fun j => by rw [and_right_comm, and_assoc]

theorem requiredNames_subset (h : c.Covers keys names) : ∀ name ∈ c.requiredNames keys,
    name ∈ names := by
  intro name hname
  obtain ⟨key, hk, col, hc, j, hj, rfl⟩ := mem_requiredNames_iff.mp hname
  exact h.asked key hk col hc j hj

/-- The pass finds no declared name but those that it must. -/
theorem mem_of_mem_close (h : c.Covers keys names) {joins : List Join} (hjoins : joins ⊆ c.joins)
    {k : Join} (hk : k ∈ c.joins) (hclose : k.name ∈ close joins (c.requiredNames keys)) :
    k.name ∈ names := by
  induction joins generalizing k with
  | nil => exact requiredNames_subset h _ hclose
  | cons j joins ih =>
    obtain ⟨hj, hjoins⟩ := List.cons_subset.mp hjoins
    rcases mem_close_cons.mp hclose with hclose | ⟨hselected, hd⟩
    · exact ih hjoins hk hclose
    · exact h.closed j hj (ih hjoins hj hselected) k hk hd

theorem covers_names (c : Catalog) (keys : List String) :
    c.Covers keys {name | name ∈ (ofColumns c keys).names} where
  asked key hk col hc j hj := List.mem_map.mpr ⟨j, mem_joins_of_column hk hc hj, rfl⟩
  closed j hj hname k hk hd := by
    obtain ⟨i, -, hi, hclose⟩ := mem_names_ofColumns.mp hname
    rw [hi] at hclose
    have hplanned : j ∈ (ofColumns c keys).joins := mem_ofColumns_joins.mpr ⟨hj, hclose⟩
    exact (mem_names_iff hplanned hd).mpr (List.mem_map.mpr ⟨k, hk, rfl⟩)

/-- The names of a plan are the least that cover its columns. -/
theorem isLeast_names (c : Catalog) (keys : List String) :
    IsLeast {names | c.Covers keys names} {name | name ∈ (ofColumns c keys).names} := by
  refine ⟨covers_names c keys, fun names hnames name hname => ?_⟩
  obtain ⟨j, hj, rfl, hclose⟩ := mem_names_ofColumns.mp hname
  exact mem_of_mem_close hnames (List.Subset.refl _) hj hclose

theorem covers_congr {others : List String} (h : ∀ key, key ∈ others ↔ key ∈ keys) :
    c.Covers others names ↔ c.Covers keys names :=
  ⟨fun hc => ⟨fun key hk => hc.asked key ((h key).mpr hk), hc.closed⟩,
    fun hc => ⟨fun key hk => hc.asked key ((h key).mp hk), hc.closed⟩⟩

theorem joins_eq_filter (c : Catalog) (keys : List String) : (ofColumns c keys).joins =
    c.joins.filter fun j => (ofColumns c keys).names.contains j.name := by
  refine List.filter_congr fun j hj => ?_
  rw [Bool.eq_iff_iff, List.contains_iff_mem, List.contains_iff_mem]
  constructor
  · intro hclose
    exact mem_names_ofColumns.mpr ⟨j, hj, rfl, hclose⟩
  · intro hname
    obtain ⟨i, -, hi, hclose⟩ := mem_names_ofColumns.mp hname
    exact hi ▸ hclose

/-- The plan does not depend on the order of the columns, nor on how often each is named. -/
theorem ofColumns_congr {others : List String} (h : ∀ key, key ∈ others ↔ key ∈ keys) :
    ofColumns c others = ofColumns c keys := by
  have hleast := isLeast_names c others
  simp only [covers_congr h] at hleast
  have hnames := Set.ext_iff.mp (hleast.unique (isLeast_names c keys))
  have hjoins : (ofColumns c others).joins = (ofColumns c keys).joins := by
    rw [joins_eq_filter c others, joins_eq_filter c keys]
    refine List.filter_congr fun j _ => ?_
    rw [Bool.eq_iff_iff, List.contains_iff_mem, List.contains_iff_mem]
    exact hnames j.name
  -- The names to be unwound early are read off the joins.
  have hplan : ∀ keys, ofColumns c keys = ⟨(ofColumns c keys).joins,
      ((ofColumns c keys).joins.map Join.name).filter fun a =>
        (ofColumns c keys).joins.any (·.dependency? == some a)⟩ := fun _ => rfl
  rw [hplan others, hjoins]
  exact (hplan keys).symm

end JoinPlan

/-! ## One name after the other -/

/-- A search for names: those that were found, and those among them that were not looked at yet. -/
structure Search where
  found : List String
  pending : List String

namespace Search

/-- A search that has found some names and looked at none of them. -/
def start (names : List String) : Search := ⟨names, names⟩

/-- One step of a search: any of the pending names is looked at, and the declared name that its join
keys off is found, unless it was found before. -/
inductive Step (c : Catalog) (s : Search) : Search → Prop
  | finds {j k : Join} : j ∈ c.joins → k ∈ c.joins → j.name ∈ s.pending →
      j.dependency? = some k.name → k.name ∉ s.found →
      Step c s ⟨k.name :: s.found, k.name :: s.pending.erase j.name⟩
  | passes {name : String} : name ∈ s.pending →
      (∀ j ∈ c.joins, j.name = name → ∀ k ∈ c.joins, j.dependency? = some k.name →
        k.name ∈ s.found) →
      Step c s ⟨s.found, s.pending.erase name⟩

variable {c : Catalog} {keys : List String} {names : Set String} {s t : Search}

/-- How many steps a search can still take: one for each pending name and one for each declared name
that was not found. -/
def remaining (c : Catalog) (s : Search) : Nat :=
  s.pending.length + (c.joins.filter fun j => !s.found.contains j.name).length

theorem Step.remaining_lt (h : Step c s t) : t.remaining c < s.remaining c := by
  cases h with
  | @finds j k _ hk hpending _ hfresh =>
    have hlength := List.length_erase_of_mem hpending
    have hpos := List.length_pos_of_mem hpending
    have hfilter : (c.joins.filter fun i => !(k.name :: s.found).contains i.name) =
        (c.joins.filter fun i => !s.found.contains i.name).filter fun i => i.name != k.name := by
      rw [List.filter_filter]
      refine List.filter_congr fun i _ => ?_
      rw [List.contains_cons, Bool.not_or]
      rfl
    have hfewer : (c.joins.filter fun i => !(k.name :: s.found).contains i.name).length <
        (c.joins.filter fun i => !s.found.contains i.name).length := by
      rw [hfilter, List.length_filter_lt_length_iff_exists]
      exact ⟨k, by simp [hk, hfresh], by simp⟩
    simp only [remaining, List.length_cons]
    omega
  | passes hpending _ =>
    have hlength := List.length_erase_of_mem hpending
    have hpos := List.length_pos_of_mem hpending
    simp only [remaining]
    omega

/-- No search goes on for ever. -/
theorem wellFounded_step (c : Catalog) : WellFounded fun t s => Step c s t :=
  Subrelation.wf Step.remaining_lt (measure (remaining c)).wf

/-- A search takes a step as long as any name is pending. -/
theorem exists_step {name : String} (h : name ∈ s.pending) : ∃ t, Step c s t := by
  by_cases hnew : ∃ j ∈ c.joins, j.name = name ∧ ∃ k ∈ c.joins, j.dependency? = some k.name ∧
      k.name ∉ s.found
  · obtain ⟨j, hj, rfl, k, hk, hd, hfresh⟩ := hnew
    exact ⟨_, .finds hj hk h hd hfresh⟩
  · refine ⟨_, .passes h fun j hj hname k hk hd => ?_⟩
    by_contra hfresh
    exact hnew ⟨j, hj, hname, k, hk, hd, hfresh⟩

/-- What holds of every search for the names that some columns need: it has found what they ask for and
nothing that is not needed, and what the names that were looked at key off. -/
structure Seeks (c : Catalog) (keys : List String) (s : Search) : Prop where
  asked : ∀ name ∈ c.requiredNames keys, name ∈ s.found
  needed : ∀ names, c.Covers keys names → ∀ name ∈ s.found, name ∈ names
  pending : ∀ name ∈ s.pending, name ∈ s.found
  looked : ∀ j ∈ c.joins, j.name ∈ s.found → j.name ∉ s.pending → ∀ k ∈ c.joins,
    j.dependency? = some k.name → k.name ∈ s.found

theorem seeks_start {seed : List String} (h : ∀ name, name ∈ seed ↔ name ∈ c.requiredNames keys) :
    (start seed).Seeks c keys where
  asked name hname := (h name).mpr hname
  needed _ hcovers name hname := JoinPlan.requiredNames_subset hcovers name ((h name).mp hname)
  pending _ hname := hname
  looked _ _ hfound hpending := absurd hfound hpending

theorem eq_of_name_eq {j k : Join} (hj : j ∈ c.joins) (hk : k ∈ c.joins) (h : j.name = k.name) :
    j = k := List.inj_on_of_nodup_map c.nodup_names hj hk h

theorem Seeks.step (h : s.Seeks c keys) (hstep : Step c s t) : t.Seeks c keys := by
  cases hstep with
  | @finds j k hj hk hpending hd hfresh =>
    refine ⟨fun name hname => List.mem_cons_of_mem _ (h.asked name hname), ?_, ?_, ?_⟩
    · intro names hcovers
      have hneeded := h.needed names hcovers
      refine List.forall_mem_cons.mpr ⟨?_, hneeded⟩
      exact hcovers.closed j hj (hneeded _ (h.pending _ hpending)) k hk hd
    · refine List.forall_mem_cons.mpr ⟨List.mem_cons_self, fun name hname => ?_⟩
      exact List.mem_cons_of_mem _ (h.pending name (List.mem_of_mem_erase hname))
    · intro i hi hfound hlooked l hl hil
      rw [List.mem_cons, not_or] at hlooked
      have hfound := (List.mem_cons.mp hfound).resolve_left hlooked.1
      by_cases hij : i.name = j.name
      · cases eq_of_name_eq hi hj hij
        have hname : k.name = l.name := Option.some.inj (hd.symm.trans hil)
        rw [← hname]
        exact List.mem_cons_self
      · have hnot := mt (List.mem_erase_of_ne hij).mpr hlooked.2
        exact List.mem_cons_of_mem _ (h.looked i hi hfound hnot l hl hil)
  | @passes name hpending hknown =>
    refine ⟨h.asked, h.needed, fun n hn => h.pending n (List.mem_of_mem_erase hn), ?_⟩
    intro i hi hfound hlooked l hl hil
    by_cases hname : i.name = name
    · exact hknown i hi hname l hl hil
    · exact h.looked i hi hfound (mt (List.mem_erase_of_ne hname).mpr hlooked) l hl hil

theorem Seeks.run (h : s.Seeks c keys) (hrun : Relation.ReflTransGen (Step c) s t) :
    t.Seeks c keys := by
  induction hrun with
  | refl => exact h
  | tail _ hstep ih => exact ih.step hstep

/-- A search that has come to its end has found the least names that cover the columns. -/
theorem Seeks.isLeast (h : s.Seeks c keys) (hend : ∀ t, ¬Step c s t) :
    IsLeast {names | c.Covers keys names} {name | name ∈ s.found} := by
  have hnone : ∀ name, name ∉ s.pending := by
    intro name hname
    obtain ⟨t, ht⟩ := exists_step (c := c) hname
    exact hend t ht
  refine ⟨⟨fun key hk col hc j hj => ?_, fun j hj hfound k hk hd => ?_⟩, h.needed⟩
  · exact h.asked _ (JoinPlan.mem_requiredNames hk hc hj)
  · exact h.looked j hj hfound (hnone _) k hk hd

end Search

namespace JoinPlan

/-- A plan that serves some columns: its joins are those of the catalog, in order, whose names are the
least that cover the columns, and it unwinds early just the names that its joins key off. -/
structure Serves (p : JoinPlan) (c : Catalog) (keys : List String) : Prop where
  least : IsLeast {names | c.Covers keys names} {name | name ∈ p.names}
  inOrder : p.joins = c.joins.filter fun j => p.names.contains j.name
  distinct : p.names.Nodup
  dependencyFirst : ∀ j ∈ p.joins, ∀ k ∈ c.joins, j.dependency? = some k.name →
    [k, j].Sublist p.joins
  eager : ∀ name, name ∈ p.eager ↔ name ∈ p.names ∧ ∃ j ∈ p.joins, j.dependency? = some name
  deferred : p.deferred = p.names.filter fun name => !p.joins.any (·.dependency? == some name)

theorem serves_ofColumns (c : Catalog) (keys : List String) : (ofColumns c keys).Serves c keys := by
  have hcoherent := coherent_ofColumns c keys
  refine ⟨isLeast_names c keys, joins_eq_filter c keys, hcoherent.distinct, ?_, hcoherent.eager, ?_⟩
  · intro j hj k hk hd
    have hplanned : k ∈ (ofColumns c keys).joins :=
      mem_joins_of_reaches (.step (.refl j) hk hd) hj
    exact hcoherent.dependency_sublist hj hplanned hd
  · refine List.filter_congr fun name hname => ?_
    rw [Bool.not_inj_iff, Bool.eq_iff_iff, List.contains_iff_mem, hcoherent.eager]
    simp [hname]

/-- **The plan for some columns is the least that serves them.** It is the same for all lists of the
same columns, and the same names are found one after the other: such a search ends, in whatever order
it looks at the names, and has found the names of the plan then. -/
theorem plan_is_least (c : Catalog) (keys : List String) :
    (ofColumns c keys).Serves c keys ∧
    (∀ others, (∀ key, key ∈ others ↔ key ∈ keys) → ofColumns c others = ofColumns c keys) ∧
    (WellFounded fun t s => Search.Step c s t) ∧
    ∀ seed s, (∀ name, name ∈ seed ↔ name ∈ c.requiredNames keys) →
      Relation.ReflTransGen (Search.Step c) (.start seed) s → (∀ t, ¬Search.Step c s t) →
      ∀ name, name ∈ s.found ↔ name ∈ (ofColumns c keys).names := by
  refine ⟨serves_ofColumns c keys, fun others h => ofColumns_congr h, Search.wellFounded_step c, ?_⟩
  intro seed s hseed hrun hend
  have hleast := ((Search.seeks_start hseed).run hrun).isLeast hend
  exact Set.ext_iff.mp (hleast.unique (isLeast_names c keys))

end JoinPlan

end AuditReport
