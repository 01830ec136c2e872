import AuditReport.Proofs.QueryStages
import Mathlib.Data.List.Flatten

/-! The joins of a query in order. A plan unwinds early what a planned join keys off, so its stages
pass the check as long as every planned join keys off a planned one, and fail it at the first join
that does not. -/

namespace AuditReport

namespace JoinPlan

/-- Distinct names, no join that keys off itself or a later one, and an early unwind of exactly
those names that planned joins key off. -/
structure Coherent (plan : JoinPlan) : Prop where
  distinct : plan.names.Nodup
  backward : plan.joins.Pairwise fun a b => a.dependency? ≠ some b.name
  apart : ∀ j ∈ plan.joins, j.dependency? ≠ some j.name
  eager : ∀ name, name ∈ plan.eager ↔
    name ∈ plan.names ∧ ∃ j ∈ plan.joins, j.dependency? = some name

theorem coherent_ofColumns (c : Catalog) (keys : List String) : (ofColumns c keys).Coherent where
  distinct := c.nodup_names.sublist (List.filter_sublist.map Join.name)
  backward := c.pairwise_dependency.sublist List.filter_sublist
  apart j hj := c.dependency_ne_self (mem_ofColumns_joins.mp hj).1
  eager name := by
    simp only [ofColumns, names, List.mem_filter, List.any_eq_true, beq_iff_eq]

/-- What a planned join keys off is planned if the catalog has it. -/
theorem mem_names_iff {c : Catalog} {keys : List String} {j : Join} {name : String}
    (hj : j ∈ (ofColumns c keys).joins) (hd : j.dependency? = some name) :
    name ∈ (ofColumns c keys).names ↔ name ∈ c.joins.map Join.name := by
  constructor
  · intro h
    obtain ⟨k, hk, rfl⟩ := List.mem_map.mp h
    exact List.mem_map.mpr ⟨k, (mem_ofColumns_joins.mp hk).1, rfl⟩
  · intro h
    obtain ⟨k, hk, rfl⟩ := List.mem_map.mp h
    have hreaches : c.Reaches j k := .step (.refl j) hk hd
    exact List.mem_map.mpr ⟨k, mem_joins_of_reaches hreaches hj, rfl⟩

/-- A planned name that a planned join keys off belongs to an earlier join and is unwound early. -/
theorem Coherent.dependency_earlier {plan : JoinPlan} (h : plan.Coherent) {done rest : List Join}
    {j : Join} {name : String} (hplan : plan.joins = done ++ j :: rest)
    (hd : j.dependency? = some name) (hn : name ∈ plan.names) :
    name ∈ done.map Join.name ∧ name ∈ plan.eager := by
  have hj : j ∈ plan.joins := by rw [hplan]; simp
  obtain ⟨k, hk, rfl⟩ := List.mem_map.mp hn
  refine ⟨?_, (h.eager k.name).mpr ⟨hn, j, hj, hd⟩⟩
  have hback := h.backward
  rw [hplan] at hk hback
  rcases List.mem_append.mp hk with hk | hk
  · exact List.mem_map.mpr ⟨k, hk, rfl⟩
  · have hlater := (List.pairwise_cons.mp (List.pairwise_append.mp hback).2.1).1
    rcases List.mem_cons.mp hk with rfl | hk
    · exact absurd hd (h.apart k hj)
    · exact absurd hd (hlater k hk)

/-- Of two members of a list one stands before the other. -/
theorem sublist_of_mem {α : Type} {xs : List α} {a b : α} (ha : a ∈ xs) (hb : b ∈ xs)
    (h : a ≠ b) : [a, b].Sublist xs ∨ [b, a].Sublist xs := by
  obtain ⟨before, after, rfl⟩ := List.append_of_mem ha
  rcases List.mem_append.mp hb with hb | hb
  · right
    exact (List.singleton_sublist.mpr hb).append (List.singleton_sublist.mpr List.mem_cons_self)
  · left
    have hb : b ∈ after := (List.mem_cons.mp hb).resolve_left h.symm
    exact List.sublist_append_of_sublist_right ((List.singleton_sublist.mpr hb).cons_cons a)

/-- A planned join stands before those that key off it. -/
theorem Coherent.dependency_sublist {plan : JoinPlan} (h : plan.Coherent) {j k : Join}
    (hj : j ∈ plan.joins) (hk : k ∈ plan.joins) (hd : j.dependency? = some k.name) :
    [k, j].Sublist plan.joins := by
  have hne : k ≠ j := by
    rintro rfl
    exact h.apart k hk hd
  refine (sublist_of_mem hk hj hne).resolve_right fun hjk => ?_
  exact List.pairwise_iff_forall_sublist.mp h.backward hjk hd

end JoinPlan

namespace Blueprint

open Pipeline

/-- Some joins with their early unwinds. -/
def earlyStages (plan : JoinPlan) (joins : List Join) : List Stage :=
  joins.flatMap fun j => if plan.eager.contains j.name then [.join j, .unwind j.name] else [.join j]

theorem joinStages_eq (plan : JoinPlan) :
    joinStages plan = earlyStages plan plan.joins ++ plan.deferred.map .unwind := rfl

theorem earlyStages_cons (plan : JoinPlan) (j : Join) (rest : List Join) :
    earlyStages plan (j :: rest) =
      (if plan.eager.contains j.name then [.join j, .unwind j.name] else [.join j]) ++
        earlyStages plan rest := rfl

/-- Where the check stands when the joins in `done` are made and those to be unwound early are. -/
structure Stands (plan : JoinPlan) (done : List Join) (p : Progress) : Prop where
  phase : p.phase ≤ 1
  joined : ∀ name, name ∈ p.joined ↔ name ∈ done.map Join.name
  unwound : ∀ name, name ∈ p.unwound ↔ name ∈ done.map Join.name ∧ name ∈ plan.eager

variable {plan : JoinPlan} {p : Progress}

theorem mem_names_concat {done : List Join} {j : Join} {name : String} :
    name ∈ (done ++ [j]).map Join.name ↔ name = j.name ∨ name ∈ done.map Join.name := by
  rw [List.map_append, List.mem_append, List.map_singleton, List.mem_singleton, or_comm]

/-- One more join whose dependency is ready keeps the check going. -/
theorem Stands.join {done : List Join} {j : Join} (h : Stands plan done p)
    (hj : j.name ∉ done.map Join.name)
    (hd : ∀ name, j.dependency? = some name → name ∈ done.map Join.name ∧ name ∈ plan.eager) :
    ∃ q, advance p (earlyStages plan [j]) = .ok q ∧ Stands plan (done ++ [j]) q := by
  have hjoin := step_join h.phase (mt (h.joined j.name).mp hj)
    fun name hname => (h.unwound name).mpr (hd name hname)
  have hjoined : ∀ name, name ∈ j.name :: p.joined ↔ name ∈ (done ++ [j]).map Join.name := by
    intro name
    rw [List.mem_cons, h.joined, mem_names_concat]
  by_cases he : j.name ∈ plan.eager
  · have hunwind := step_unwind (p := ⟨p.index + 1, 1, j.name :: p.joined, p.unwound⟩)
      (Nat.le_refl 1) List.mem_cons_self (fun hu => hj ((h.unwound j.name).mp hu).1)
    have hstages : earlyStages plan [j] = [.join j, .unwind j.name] := by simp [earlyStages, he]
    refine ⟨⟨p.index + 1 + 1, 1, j.name :: p.joined, j.name :: p.unwound⟩, ?_,
      Nat.le_refl 1, hjoined, fun name => ?_⟩
    · rw [hstages, advance_cons, hjoin]
      show advance _ [.unwind j.name] = _
      rw [advance_cons, hunwind]
      rfl
    · rw [List.mem_cons, h.unwound, mem_names_concat]
      by_cases hname : name = j.name
      · simp [hname, he]
      · simp [hname]
  · have hstages : earlyStages plan [j] = [.join j] := by simp [earlyStages, he]
    refine ⟨⟨p.index + 1, 1, j.name :: p.joined, p.unwound⟩, ?_, Nat.le_refl 1, hjoined,
      fun name => ?_⟩
    · rw [hstages, advance_cons, hjoin]
      rfl
    · rw [h.unwound, mem_names_concat]
      by_cases hname : name = j.name
      · simp [hname, he, hj]
      · simp [hname]

/-- **The joins of a plan pass the check, or one of them keys off a name that is not planned.** -/
theorem advance_earlyStages (hplan : plan.Coherent) {done rest : List Join}
    (hjoins : plan.joins = done ++ rest) (h : Stands plan done p) :
    ((∀ j ∈ rest, ∀ name, j.dependency? = some name → name ∈ plan.names) ∧
      ∃ q, advance p (earlyStages plan rest) = .ok q ∧ Stands plan plan.joins q) ∨
    ∃ j ∈ rest, ∃ name, j.dependency? = some name ∧ name ∉ plan.names ∧
      advance p (earlyStages plan rest) = .error (.dependencyNotReady j.name name) := by
  induction rest generalizing done p with
  | nil =>
    refine .inl ⟨by simp, p, rfl, ?_⟩
    rwa [hjoins, List.append_nil]
  | cons j rest ih =>
    have hfresh : j.name ∉ done.map Join.name := by
      have hdistinct := hplan.distinct
      rw [JoinPlan.names, hjoins, List.map_append, List.map_cons] at hdistinct
      exact fun hm => (List.disjoint_of_nodup_append hdistinct) hm List.mem_cons_self
    have hcons : earlyStages plan (j :: rest) = earlyStages plan [j] ++ earlyStages plan rest := by
      simp [earlyStages]
    by_cases hready : ∀ name, j.dependency? = some name → name ∈ plan.names
    · obtain ⟨q, hq, hstands⟩ := h.join hfresh
        fun name hd => hplan.dependency_earlier hjoins hd (hready name hd)
      have hrun : advance p (earlyStages plan (j :: rest)) = advance q (earlyStages plan rest) := by
        rw [hcons, advance_append, hq]
        rfl
      rw [hrun]
      rcases ih (by rw [hjoins, List.append_assoc]; rfl) hstands with ⟨hall, hok⟩ | ⟨k, hk, herror⟩
      · exact .inl ⟨List.forall_mem_cons.mpr ⟨hready, hall⟩, hok⟩
      · exact .inr ⟨k, List.mem_cons_of_mem _ hk, herror⟩
    · obtain ⟨name, hd, hn⟩ : ∃ name, j.dependency? = some name ∧ name ∉ plan.names := by
        simpa using hready
      -- What is not planned has not been unwound.
      have hu : name ∉ p.unwound := by
        intro hu
        obtain ⟨k, hk, rfl⟩ := List.mem_map.mp ((h.unwound name).mp hu).1
        exact hn (List.mem_map.mpr ⟨k, by rw [hjoins]; exact List.mem_append_left _ hk, rfl⟩)
      have hstep := step_join_early h.phase (mt (h.joined j.name).mp hfresh) hd hu
      refine .inr ⟨j, List.mem_cons_self, name, hd, hn, ?_⟩
      have hfirst : ∃ others, earlyStages plan (j :: rest) = .join j :: others := by
        rw [earlyStages_cons]
        split <;> exact ⟨_, rfl⟩
      obtain ⟨others, hothers⟩ := hfirst
      rw [hothers, advance_cons, hstep]
      rfl

/-- Names that are joined and not yet unwound can be unwound one after the other. -/
theorem advance_unwinds {names : List String} (hp : p.phase ≤ 1) (hn : names.Nodup)
    (hj : ∀ name ∈ names, name ∈ p.joined) (hu : ∀ name ∈ names, name ∉ p.unwound) :
    ∃ q, advance p (names.map .unwind) = .ok q ∧ q.phase ≤ 1 := by
  induction names generalizing p with
  | nil => exact ⟨p, rfl, hp⟩
  | cons name rest ih =>
    obtain ⟨hfresh, hrest⟩ := List.nodup_cons.mp hn
    obtain ⟨hjoined, hj⟩ := List.forall_mem_cons.mp hj
    obtain ⟨hunwound, hu⟩ := List.forall_mem_cons.mp hu
    have hstep := step_unwind hp hjoined hunwound
    obtain ⟨q, hq, hphase⟩ := ih (p := ⟨p.index + 1, 1, p.joined, name :: p.unwound⟩)
      (Nat.le_refl 1) hrest hj (by
        intro other ho hm
        rcases List.mem_cons.mp hm with rfl | hm
        · exact hfresh ho
        · exact hu other ho hm)
    refine ⟨q, ?_, hphase⟩
    rw [List.map_cons, advance_cons, hstep]
    exact hq

/-- The stages of a plan pass the check, or one of its joins keys off a name that is not planned. -/
theorem advance_joinStages (hplan : plan.Coherent) (h : Stands plan [] p) :
    ((∀ j ∈ plan.joins, ∀ name, j.dependency? = some name → name ∈ plan.names) ∧
      ∃ q, advance p (joinStages plan) = .ok q ∧ q.phase ≤ 1) ∨
    ∃ j ∈ plan.joins, ∃ name, j.dependency? = some name ∧ name ∉ plan.names ∧
      advance p (joinStages plan) = .error (.dependencyNotReady j.name name) := by
  rw [joinStages_eq, advance_append]
  rcases advance_earlyStages hplan (List.nil_append _).symm h with
    ⟨hall, q, hq, hstands⟩ | ⟨j, hj, name, hd, hn, herror⟩
  · refine .inl ⟨hall, ?_⟩
    have hdeferred : ∀ name ∈ plan.deferred, name ∈ plan.names ∧ name ∉ plan.eager := by
      intro name hm
      simpa [JoinPlan.deferred] using hm
    obtain ⟨r, hr, hphase⟩ := advance_unwinds hstands.phase
      (hplan.distinct.sublist List.filter_sublist)
      (fun name hm => (hstands.joined name).mpr (hdeferred name hm).1)
      (fun name hm hu => (hdeferred name hm).2 ((hstands.unwound name).mp hu).2)
    refine ⟨r, ?_, hphase⟩
    rw [hq]
    exact hr
  · refine .inr ⟨j, hj, name, hd, hn, ?_⟩
    rw [herror]
    rfl

end Blueprint

/-! ## The order of the stages of a plan -/

/-- The name that a stage unwinds. -/
def Stage.unwound? : Stage → Option String
  | .unwind name => some name
  | _ => none

/-- Stages that make the joins of a plan, in an order that the store can evaluate. -/
structure JoinPlan.MadeBy (plan : JoinPlan) (stages : List Stage) : Prop where
  only : ∀ s ∈ stages, (∃ j, s = .join j) ∨ ∃ name, s = .unwind name
  distinct : plan.names.Nodup
  joins : stages.filterMap Stage.join? = plan.joins
  unwinds : (stages.filterMap Stage.unwound?).Perm plan.names
  unwoundAfter : ∀ j ∈ plan.joins, [.join j, .unwind j.name].Sublist stages
  joinedAfter : ∀ j ∈ plan.joins, ∀ name, j.dependency? = some name →
    [.unwind name, .join j].Sublist stages

namespace Blueprint

variable {plan : JoinPlan}

theorem joins_earlyStages (joins : List Join) :
    (earlyStages plan joins).filterMap Stage.join? = joins := by
  induction joins with
  | nil => rfl
  | cons j rest ih =>
    rw [earlyStages_cons, List.filterMap_append, ih]
    split <;> rfl

theorem unwinds_earlyStages (joins : List Join) :
    (earlyStages plan joins).filterMap Stage.unwound? =
      (joins.map Join.name).filter (plan.eager.contains ·) := by
  induction joins with
  | nil => rfl
  | cons j rest ih =>
    rw [earlyStages_cons, List.filterMap_append, ih, List.map_cons, List.filter_cons]
    split <;> rfl

theorem filterMap_unwinds (names : List String) :
    (names.map Stage.unwind).filterMap Stage.join? = [] ∧
      (names.map Stage.unwind).filterMap Stage.unwound? = names := by
  induction names with
  | nil => exact ⟨rfl, rfl⟩
  | cons name rest ih => exact ⟨ih.1, congrArg (name :: ·) ih.2⟩

theorem join_sublist_earlyStages (j : Join) : [Stage.join j].Sublist (earlyStages plan [j]) := by
  simp only [earlyStages, List.flatMap_singleton]
  split <;> simp

/-- Every planned join stands before its unwind. -/
theorem unwind_after_join {j : Join} (hj : j ∈ plan.joins) :
    [.join j, .unwind j.name].Sublist (joinStages plan) := by
  have hone : (earlyStages plan [j]).Sublist (earlyStages plan plan.joins) :=
    (List.singleton_sublist.mpr hj).flatMap _
  rw [joinStages_eq]
  by_cases he : j.name ∈ plan.eager
  · have hstages : earlyStages plan [j] = [.join j, .unwind j.name] := by simp [earlyStages, he]
    rw [hstages] at hone
    exact List.sublist_append_of_sublist_left hone
  · have hdeferred : j.name ∈ plan.deferred := by
      simp only [JoinPlan.deferred, JoinPlan.names, List.mem_filter, List.mem_map]
      exact ⟨⟨j, hj, rfl⟩, by simpa using he⟩
    have hunwind : [Stage.unwind j.name].Sublist (plan.deferred.map .unwind) :=
      List.singleton_sublist.mpr (List.mem_map.mpr ⟨j.name, hdeferred, rfl⟩)
    exact ((join_sublist_earlyStages j).trans hone).append hunwind

/-- What a planned join keys off is unwound before. -/
theorem join_after_unwind (hplan : plan.Coherent) {j : Join} {name : String} (hj : j ∈ plan.joins)
    (hd : j.dependency? = some name) (hn : name ∈ plan.names) :
    [.unwind name, .join j].Sublist (joinStages plan) := by
  obtain ⟨k, hk, rfl⟩ := List.mem_map.mp hn
  have hkj : [k, j].Sublist plan.joins := hplan.dependency_sublist hj hk hd
  have he : k.name ∈ plan.eager := (hplan.eager k.name).mpr ⟨hn, j, hj, hd⟩
  have hpair : earlyStages plan [k, j] = .join k :: .unwind k.name :: earlyStages plan [j] := by
    simp [earlyStages, he]
  have hearly : (earlyStages plan [k, j]).Sublist (earlyStages plan plan.joins) := hkj.flatMap _
  rw [hpair] at hearly
  rw [joinStages_eq]
  refine List.sublist_append_of_sublist_left (List.Sublist.trans ?_ hearly)
  exact ((join_sublist_earlyStages j).cons_cons _).cons _

/-- **The stages of a plan make its joins**, unless one keys off a name that is not planned. -/
theorem madeBy_joinStages (hplan : plan.Coherent)
    (h : ∀ j ∈ plan.joins, ∀ name, j.dependency? = some name → name ∈ plan.names) :
    plan.MadeBy (joinStages plan) where
  only _ hs := phase_of_mem_joinStages hs
  distinct := hplan.distinct
  joins := by
    rw [joinStages_eq, List.filterMap_append, joins_earlyStages, (filterMap_unwinds _).1,
      List.append_nil]
  unwinds := by
    rw [joinStages_eq, List.filterMap_append, unwinds_earlyStages, (filterMap_unwinds _).2]
    exact List.filter_append_perm (plan.eager.contains ·) plan.names
  unwoundAfter _ hj := unwind_after_join hj
  joinedAfter j hj name hd := join_after_unwind hplan hj hd (h j hj name hd)

end Blueprint

end AuditReport
