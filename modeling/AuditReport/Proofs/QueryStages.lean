import AuditReport.Pipeline.Build
import AuditReport.Proofs.JoinClosure
import AuditReport.Proofs.StageOrder

/-! What a built query consists of: the match before the joins, the stages of the join plan, the
match after them, the sort and the terminal stage. -/

namespace AuditReport

open Fallible

namespace Blueprint

variable {b : Blueprint}

/-- The condition that a filter of a request stands for. -/
def condition (b : Blueprint) (f : Filter) : Except CoercionError Document :=
  match b.catalog.column? f.column with
  | some c => Condition.ofFilter c f
  | none => .error (.rejected (.unknownColumn f.column))

/-- The filter is on a column whose value exists only after some join. -/
def isJoined (b : Blueprint) (f : Filter) : Bool :=
  (b.catalog.column? f.column).any Column.needsJoin

theorem condition_of_column {f : Filter} {c : Column} (h : b.catalog.column? f.column = some c) :
    b.condition f = Condition.ofFilter c f := by simp only [condition, h]

theorem condition_ok {f : Filter} {d : Document} (h : b.condition f = .ok d) :
    ∃ c, b.catalog.column? f.column = some c ∧ Condition.ofFilter c f = .ok d := by
  unfold condition at h
  split at h
  · rename_i c hc
    exact ⟨c, hc, h⟩
  · cases h

/-! ## Resolved filters -/

theorem resolve_cons {f : Filter} {fs : List Filter} {rs : List (Column × Filter)}
    (h : b.resolve (f :: fs) = .ok rs) :
    ∃ c rest, b.catalog.column? f.column = some c ∧ b.resolve fs = .ok rest ∧
      rs = (c, f) :: rest := by
  obtain ⟨r, rest, hr, hrest, rfl⟩ :=
    List.forall₂_cons_left_iff.mp (mapM_ok_iff.mp h)
  split at hr
  · rename_i c hc
    cases hr
    exact ⟨c, rest, hc, mapM_ok_iff.mpr hrest, rfl⟩
  · cases hr

/-- The conditions of the filters on one side of the joins. -/
theorem conditions_filter {fs : List Filter} {rs : List (Column × Filter)} (side : Bool → Bool)
    (h : b.resolve fs = .ok rs) :
    conditions (rs.filter fun r => side r.1.needsJoin) =
      (fs.filter fun f => side (b.isJoined f)).mapM b.condition := by
  induction fs generalizing rs with
  | nil => cases h; rfl
  | cons f fs ih =>
    obtain ⟨c, rest, hc, hrest, rfl⟩ := resolve_cons h
    have hj : b.isJoined f = c.needsJoin := by simp [isJoined, hc]
    have hrec := ih hrest
    unfold conditions at hrec ⊢
    rw [List.filter_cons, List.filter_cons, hj]
    split
    · rw [List.mapM_cons, List.mapM_cons, hrec, condition_of_column hc]
    · exact hrec

/-! ## The stages of a request -/

theorem preMatch_ok {excluded : Bool} {rs : List (Column × Filter)} {stages : List Stage}
    (h : preMatch excluded rs = .ok stages) :
    ∃ cs, conditions rs = .ok cs ∧
      (((if excluded then [notArchived] else []) ++ cs = [] ∧ stages = []) ∨
        stages =
          [.preMatch (Condition.merge ((if excluded then [notArchived] else []) ++ cs))]) := by
  obtain ⟨cs, hcs, h⟩ := bind_ok_iff.mp h
  refine ⟨cs, hcs, ?_⟩
  split at h
  · rename_i hnil
    cases h
    exact .inl ⟨hnil, rfl⟩
  · cases h
    exact .inr rfl

theorem postMatch_ok {rs : List (Column × Filter)} {stages : List Stage}
    (h : postMatch rs = .ok stages) :
    ∃ cs, conditions rs = .ok cs ∧ ((cs = [] ∧ stages = []) ∨ stages = [.postMatch cs]) := by
  obtain ⟨cs, hcs, h⟩ := bind_ok_iff.mp h
  refine ⟨cs, hcs, ?_⟩
  split at h
  · cases h
    exact .inl ⟨rfl, rfl⟩
  · cases h
    exact .inr rfl

theorem stages_ok {q : ReportQuery} {extra : List String} {terminal : Stage} {stages : List Stage}
    (h : b.stages q extra terminal = .ok stages) :
    ∃ rs pre post, b.resolve q.filters = .ok rs ∧
      preMatch (!q.includeArchived) (rs.filter fun r => !r.1.needsJoin) = .ok pre ∧
      postMatch (rs.filter fun r => r.1.needsJoin) = .ok post ∧
      stages = pre ++
        joinStages (JoinPlan.ofColumns b.catalog (b.referenced q.filters q.sort extra)) ++
        post ++ [.sort (b.sortKeys q.sort), terminal] := by
  obtain ⟨rs, hrs, h⟩ := bind_ok_iff.mp h
  obtain ⟨pre, hpre, h⟩ := bind_ok_iff.mp h
  obtain ⟨post, hpost, h⟩ := bind_ok_iff.mp h
  cases h
  exact ⟨rs, pre, post, hrs, hpre, hpost, rfl⟩

theorem build_ok {q : ReportQuery} {extra : List String} {terminal : Stage} {p : Pipeline}
    (h : b.build q extra terminal = .ok p) : b.stages q extra terminal = .ok p.stages := by
  unfold build at h
  split at h
  · cases h
  · rename_i stages hs
    split at h
    · cases h
    · rename_i p' hp
      cases h
      rw [hs, Pipeline.of_ok hp]

/-! ## The stages of a plan -/

theorem join_mem_joinStages {plan : JoinPlan} {j : Join} (h : j ∈ plan.joins) :
    .join j ∈ joinStages plan := by
  refine List.mem_append_left _ (List.mem_flatMap.mpr ⟨j, h, ?_⟩)
  split <;> simp

/-- Every planned join is unwound: at once, or after all joins. -/
theorem unwind_mem_joinStages {plan : JoinPlan} {j : Join} (h : j ∈ plan.joins) :
    .unwind j.name ∈ joinStages plan := by
  by_cases he : plan.eager.contains j.name = true
  · exact List.mem_append_left _ (List.mem_flatMap.mpr ⟨j, h, by rw [if_pos he]; simp⟩)
  · refine List.mem_append_right _ (List.mem_map.mpr ⟨j.name, ?_, rfl⟩)
    exact List.mem_filter.mpr ⟨List.mem_map.mpr ⟨j, h, rfl⟩, by simpa using he⟩

/-- The stages of a plan are joins and unwinds. -/
theorem phase_of_mem_joinStages {plan : JoinPlan} {s : Stage} (h : s ∈ joinStages plan) :
    (∃ j, s = .join j) ∨ ∃ name, s = .unwind name := by
  rcases List.mem_append.mp h with h | h
  · obtain ⟨j, -, hs⟩ := List.mem_flatMap.mp h
    split at hs
    · rcases List.mem_cons.mp hs with rfl | hs
      · exact .inl ⟨j, rfl⟩
      · exact .inr ⟨j.name, by simpa using hs⟩
    · exact .inl ⟨j, by simpa using hs⟩
  · obtain ⟨name, -, rfl⟩ := List.mem_map.mp h
    exact .inr ⟨name, rfl⟩

end Blueprint

end AuditReport
