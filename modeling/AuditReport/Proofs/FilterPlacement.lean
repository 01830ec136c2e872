import AuditReport.Proofs.MatchTruth
import AuditReport.Proofs.QueryStages

/-! Where the filters of a request stand in its query. Those on audit fields are matched before the
joins and those on joined fields after them, each exactly once, and the two matches together ask for
what all filters ask for. -/

namespace AuditReport

open Fallible Condition

namespace Stage

/-- The match object of a stage, if it is a match. -/
def match? : Stage → Option Document
  | preMatch c => some c
  | postMatch cs => some [("$and", .list (cs.map .object))]
  | _ => none

/-- The conditions that a stage puts on audits before the joins. -/
def preConditions : Stage → List Document
  | preMatch c => conjuncts c
  | _ => []

/-- The conditions that a stage puts on documents after the joins. -/
def postConditions : Stage → List Document
  | postMatch cs => cs
  | _ => []

theorem toValue_eq_match {s : Stage} {m : Document} :
    s.toValue = .object [("$match", .object m)] ↔ s.match? = some m := by
  cases s <;> simp [toValue, match?, inclusion]

end Stage

namespace Pipeline

/-- All matches of a query hold, as the store takes them. -/
def Satisfied (truth : String → Value → Prop) (p : Pipeline) : Prop :=
  ∀ m, .object [("$match", .object m)] ∈ p.toValues → Holds truth m

@[inherit_doc Stage.preConditions]
def preConditions (p : Pipeline) : List Document := p.stages.flatMap Stage.preConditions

@[inherit_doc Stage.postConditions]
def postConditions (p : Pipeline) : List Document := p.stages.flatMap Stage.postConditions

theorem satisfied_iff {truth : String → Value → Prop} {p : Pipeline} :
    p.Satisfied truth ↔ ∀ m ∈ p.stages.filterMap Stage.match?, Holds truth m := by
  simp only [Satisfied, toValues, List.mem_map, List.mem_filterMap, Stage.toValue_eq_match]

end Pipeline

namespace Blueprint

variable {b : Blueprint}

/-- What leaves archived audits out, unless they are asked for. -/
def archiveConditions (includeArchived : Bool) : List Document :=
  if includeArchived then [] else [notArchived]

theorem isClause_ofFilter {f : Filter} {c : Column} {d : Document}
    (hp : c.path.toList.head? ≠ some '$') (h : Condition.ofFilter c f = .ok d) : IsClause d := by
  unfold Condition.ofFilter at h
  split at h
  · obtain ⟨t, -, rfl⟩ := map_ok_iff.mp h
    exact ⟨"$or", _, by decide, rfl⟩
  · obtain ⟨t, -, rfl⟩ := map_ok_iff.mp h
    refine ⟨c.path, _, ?_, rfl⟩
    intro he
    rw [he] at hp
    exact hp rfl

theorem isClause_condition {fs : List Filter} {cs : List Document}
    (hp : ∀ c ∈ b.catalog.columns, c.path.toList.head? ≠ some '$')
    (h : fs.mapM b.condition = .ok cs) : ∀ d ∈ cs, IsClause d := by
  intro d hd
  obtain ⟨f, -, hf⟩ := (mem_of_mapM_ok h).mp hd
  obtain ⟨c, hc, hcd⟩ := condition_ok hf
  exact isClause_ofFilter (hp c (Catalog.column?_some hc).1) hcd

theorem isClause_archiveConditions (includeArchived : Bool) :
    ∀ d ∈ archiveConditions includeArchived, IsClause d := by
  intro d hd
  cases includeArchived with
  | true => cases hd
  | false => exact ⟨archivedPath, .bool false, by decide, List.mem_singleton.mp hd⟩

/-! ## What each part of a query matches -/

/-- What some stages match: the conditions before and after the joins, which together hold exactly
when all their matches do. -/
structure Matches (stages : List Stage) (pre post : List Document) : Prop where
  before : stages.flatMap Stage.preConditions = pre
  behind : stages.flatMap Stage.postConditions = post
  holds : ∀ truth, (∀ m ∈ stages.filterMap Stage.match?, Holds truth m) ↔
    (∀ c ∈ pre, Holds truth c) ∧ ∀ c ∈ post, Holds truth c

theorem Matches.append {xs ys : List Stage} {pre post pre' post' : List Document}
    (hx : Matches xs pre post) (hy : Matches ys pre' post') :
    Matches (xs ++ ys) (pre ++ pre') (post ++ post') where
  before := by rw [List.flatMap_append, hx.before, hy.before]
  behind := by rw [List.flatMap_append, hx.behind, hy.behind]
  holds truth := by
    have h := and_congr (hx.holds truth) (hy.holds truth)
    simp only [List.filterMap_append, List.forall_mem_append] at h ⊢
    exact h.trans and_and_and_comm

theorem matches_nil : Matches [] [] [] := ⟨rfl, rfl, by simp⟩

theorem matches_none {stages : List Stage} (h : ∀ s ∈ stages, s.match? = none) :
    Matches stages [] [] := by
  induction stages with
  | nil => exact matches_nil
  | cons s rest ih =>
    obtain ⟨hs, hrest⟩ := List.forall_mem_cons.mp h
    have hone : Matches [s] [] [] := by
      refine ⟨?_, ?_, by simp [hs]⟩ <;> cases s <;> first | rfl | cases hs
    exact hone.append (ih hrest)

theorem matches_preMatch {cs : List Document} (h : ∀ d ∈ cs, IsClause d) :
    Matches [.preMatch (merge cs)] cs [] where
  before := by simp [Stage.preConditions, conjuncts_merge h]
  behind := rfl
  holds truth := by simp [Stage.match?, holds_merge fun d hd => (h d hd).nodup]

theorem matches_postMatch (cs : List Document) : Matches [.postMatch cs] [] cs where
  before := rfl
  behind := by simp [Stage.postConditions]
  holds truth := by simp [Stage.match?, holds_and]

theorem matches_joinStages (plan : JoinPlan) : Matches (joinStages plan) [] [] :=
  matches_none fun s hs => by
    rcases phase_of_mem_joinStages hs with ⟨j, rfl⟩ | ⟨name, rfl⟩ <;> rfl

theorem matches_pre {includeArchived : Bool} {rs : List (Column × Filter)} {stages : List Stage}
    (h : preMatch (!includeArchived) rs = .ok stages) :
    ∃ cs, conditions rs = .ok cs ∧
      ((∀ d ∈ cs, IsClause d) → Matches stages (archiveConditions includeArchived ++ cs) []) := by
  obtain ⟨cs, hcs, h⟩ := preMatch_ok h
  refine ⟨cs, hcs, fun hc => ?_⟩
  have harchive : (if (!includeArchived) then [notArchived] else []) =
      archiveConditions includeArchived := by cases includeArchived <;> rfl
  rw [harchive] at h
  rcases h with ⟨hnil, rfl⟩ | rfl
  · rw [hnil]
    exact matches_nil
  · exact matches_preMatch
      (List.forall_mem_append.mpr ⟨isClause_archiveConditions includeArchived, hc⟩)

theorem matches_post {rs : List (Column × Filter)} {stages : List Stage}
    (h : postMatch rs = .ok stages) :
    ∃ cs, conditions rs = .ok cs ∧ Matches stages [] cs ∧
      (cs ≠ [] → stages = [.postMatch cs]) := by
  obtain ⟨cs, hcs, ⟨rfl, rfl⟩ | rfl⟩ := postMatch_ok h
  · exact ⟨[], hcs, matches_nil, fun h => absurd rfl h⟩
  · exact ⟨cs, hcs, matches_postMatch cs, fun _ => rfl⟩

/-! ## All filters of a request -/

theorem build_of_page_or_export {q : ReportQuery} {p : Pipeline}
    (h : b.buildPage q = .ok p ∨ ∃ columns, b.buildExport q columns = .ok p) :
    ∃ extra terminal, Stage.match? terminal = none ∧ b.build q extra terminal = .ok p := by
  rcases h with h | ⟨columns, h⟩
  · exact ⟨[], _, rfl, h⟩
  · exact ⟨columns, _, rfl, h⟩

theorem mem_referenced {filters : List Filter} {f : Filter} (h : f ∈ filters)
    (sort : List SortKey) (extra : List String) : f.column ∈ b.referenced filters sort extra := by
  simp only [referenced, List.append_assoc]
  exact List.mem_append_left _ (List.mem_map.mpr ⟨f, h, rfl⟩)

/-- What a filter's column needs, and whatever that keys off, is joined and unwound. -/
theorem joinStages_of_filter {filters : List Filter} {f : Filter} {c : Column} {j k : Join}
    (sort : List SortKey) (extra : List String) (hf : f ∈ filters)
    (hc : b.catalog.column? f.column = some c) (hj : j ∈ c.joins) (hk : b.catalog.Reaches j k) :
    let stages := joinStages (JoinPlan.ofColumns b.catalog (b.referenced filters sort extra))
    .join k ∈ stages ∧ .unwind k.name ∈ stages := by
  have hreferenced : f.column ∈ b.referenced filters sort extra := mem_referenced hf sort extra
  have hk := JoinPlan.mem_joins_of_reaches hk (JoinPlan.mem_joins_of_column hreferenced hc hj)
  exact ⟨join_mem_joinStages hk, unwind_mem_joinStages hk⟩

section Sides

variable {fs : List Filter} {all pre post : List Document}

/-- A filter has a condition if those of its side have. -/
theorem conditions_total (hpre : (fs.filter (!b.isJoined ·)).mapM b.condition = .ok pre)
    (hpost : (fs.filter b.isJoined).mapM b.condition = .ok post) :
    ∃ all, fs.mapM b.condition = .ok all := by
  refine mapM_total fun f hf => ?_
  cases hj : b.isJoined f with
  | false => exact exists_of_mapM_ok hpre f (List.mem_filter.mpr ⟨hf, by simp [hj]⟩)
  | true => exact exists_of_mapM_ok hpost f (List.mem_filter.mpr ⟨hf, hj⟩)

theorem forall_conditions {P : Document → Prop} (hall : fs.mapM b.condition = .ok all)
    (hpre : (fs.filter (!b.isJoined ·)).mapM b.condition = .ok pre)
    (hpost : (fs.filter b.isJoined).mapM b.condition = .ok post) :
    (∀ c ∈ all, P c) ↔ (∀ c ∈ pre, P c) ∧ ∀ c ∈ post, P c := by
  constructor
  · intro h
    constructor
    · intro c hc
      obtain ⟨f, hf, hfc⟩ := (mem_of_mapM_ok hpre).mp hc
      exact h c ((mem_of_mapM_ok hall).mpr ⟨f, List.mem_of_mem_filter hf, hfc⟩)
    · intro c hc
      obtain ⟨f, hf, hfc⟩ := (mem_of_mapM_ok hpost).mp hc
      exact h c ((mem_of_mapM_ok hall).mpr ⟨f, List.mem_of_mem_filter hf, hfc⟩)
  · rintro ⟨hp, hq⟩ c hc
    obtain ⟨f, hf, hfc⟩ := (mem_of_mapM_ok hall).mp hc
    cases hj : b.isJoined f with
    | false =>
      exact hp c ((mem_of_mapM_ok hpre).mpr ⟨f, List.mem_filter.mpr ⟨hf, by simp [hj]⟩, hfc⟩)
    | true => exact hq c ((mem_of_mapM_ok hpost).mpr ⟨f, List.mem_filter.mpr ⟨hf, hj⟩, hfc⟩)

end Sides

/-- If a query is built, every filter of its request has a condition. -/
theorem condition_of_build {q : ReportQuery} {p : Pipeline}
    (hbuilt : b.buildPage q = .ok p ∨ ∃ columns, b.buildExport q columns = .ok p) :
    ∀ f ∈ q.filters, ∃ d, b.condition f = .ok d := by
  obtain ⟨extra, terminal, -, hb⟩ := build_of_page_or_export hbuilt
  obtain ⟨rs, preStages, postStages, hrs, hpre, hpost, -⟩ := stages_ok (build_ok hb)
  obtain ⟨pre, hpre, -⟩ := preMatch_ok hpre
  obtain ⟨post, hpost, -⟩ := postMatch_ok hpost
  obtain ⟨all, hall⟩ := conditions_total ((conditions_filter not hrs).symm.trans hpre)
    ((conditions_filter id hrs).symm.trans hpost)
  exact exists_of_mapM_ok hall

theorem forall_archiveConditions {includeArchived : Bool} {P : Document → Prop} :
    (∀ c ∈ archiveConditions includeArchived, P c) ↔
      (includeArchived = false → P [("is_archived", .bool false)]) := by
  cases includeArchived <;> simp [archiveConditions, notArchived, archivedPath]

/-- **Every filter is matched, in its place.** In a query for a page or an export, the filters on
audit fields stand before the joins, behind the archive flag and in their order, and those on joined
fields after them, behind all joins that their columns need. Whatever the truth of the single
clauses is, the matches hold exactly when the conditions of all filters and the archive flag do. -/
theorem filters_matched_in_place {q : ReportQuery} {p : Pipeline}
    (hpaths : ∀ c ∈ b.catalog.columns, c.path.toList.head? ≠ some '$')
    (hbuilt : b.buildPage q = .ok p ∨ ∃ columns, b.buildExport q columns = .ok p) :
    ∃ conditions pre post,
      q.filters.mapM b.condition = .ok conditions ∧
      (q.filters.filter (!b.isJoined ·)).mapM b.condition = .ok pre ∧
      (q.filters.filter b.isJoined).mapM b.condition = .ok post ∧
      (∀ truth, p.Satisfied truth ↔ (∀ c ∈ conditions, Holds truth c) ∧
        (q.includeArchived = false → Holds truth [("is_archived", .bool false)])) ∧
      p.preConditions = archiveConditions q.includeArchived ++ pre ∧
      p.postConditions = post ∧
      ∀ f ∈ q.filters, ∀ c, b.catalog.column? f.column = some c →
        ∀ j ∈ c.joins, ∀ k, b.catalog.Reaches j k →
          ∃ earlier later, p.stages = earlier ++ .postMatch post :: later ∧
            .join k ∈ earlier ∧ .unwind k.name ∈ earlier := by
  obtain ⟨extra, terminal, hterminal, hb⟩ := build_of_page_or_export hbuilt
  obtain ⟨rs, preStages, postStages, hrs, hpreStages, hpostStages, hstages⟩ :=
    stages_ok (build_ok hb)
  generalize hplan : JoinPlan.ofColumns b.catalog (b.referenced q.filters q.sort extra) = plan
    at hstages
  obtain ⟨pre, hpre, hpreMatches⟩ := matches_pre hpreStages
  obtain ⟨post, hpost, hpostMatches, hstage⟩ := matches_post hpostStages
  have hpre := (conditions_filter not hrs).symm.trans hpre
  have hpost := (conditions_filter id hrs).symm.trans hpost
  obtain ⟨conditions, hconditions⟩ := conditions_total hpre hpost
  have hends : Matches [.sort (b.sortKeys q.sort), terminal] [] [] :=
    matches_none (List.forall_mem_cons.mpr ⟨rfl, List.forall_mem_singleton.mpr hterminal⟩)
  have hmatches : Matches p.stages (archiveConditions q.includeArchived ++ pre) post := by
    have h := (((hpreMatches (isClause_condition hpaths hpre)).append
      (matches_joinStages plan)).append hpostMatches).append hends
    rw [← hstages] at h
    simpa only [List.append_nil, List.nil_append] using h
  refine ⟨conditions, pre, post, hconditions, hpre, hpost, fun truth => ?_, hmatches.before,
    hmatches.behind, ?_⟩
  · rw [Pipeline.satisfied_iff, hmatches.holds truth, List.forall_mem_append,
      forall_archiveConditions, and_assoc, and_comm]
    exact and_congr_left fun _ => (forall_conditions hconditions hpre hpost).symm
  · intro f hf c hc j hj k hk
    have hjoined : b.isJoined f = true := by
      simpa [isJoined, hc, Column.needsJoin] using List.ne_nil_of_mem hj
    have hside : f ∈ q.filters.filter b.isJoined := List.mem_filter.mpr ⟨hf, hjoined⟩
    -- The filter has a condition behind the joins, so there is a match there.
    obtain ⟨d, hd⟩ := exists_of_mapM_ok hpost f hside
    have hne : post ≠ [] := List.ne_nil_of_mem ((mem_of_mapM_ok hpost).mpr ⟨f, hside, hd⟩)
    obtain ⟨hjoin, hunwind⟩ := hplan ▸ joinStages_of_filter q.sort extra hf hc hj hk
    refine ⟨preStages ++ joinStages plan, [.sort (b.sortKeys q.sort), terminal], ?_,
      List.mem_append_right _ hjoin, List.mem_append_right _ hunwind⟩
    rw [hstages, hstage hne, List.append_assoc]
    rfl

/-- A filter on the archive flag itself, which is asked for twice then, and one on a column behind
three joins. -/
theorem filters_matched_in_place_both_sides :
    ∃ p earlier later, Audit.blueprint.buildPage ⟨[⟨"serviceType", .neq, .text "Full"⟩,
        ⟨"isArchived", .eq, .bool true⟩], [], 1, 25, false⟩ = .ok p ∧
      p.preConditions = [[("is_archived", .bool false)], [("is_archived", .bool true)]] ∧
      p.stages = earlier ++
        .postMatch [[("serviceType.type", comparison "$ne" (.text "Full"))]] :: later ∧
      .unwind "property" ∈ earlier := by
  obtain ⟨p, hp⟩ : ∃ p, Audit.blueprint.buildPage ⟨[⟨"serviceType", .neq, .text "Full"⟩,
      ⟨"isArchived", .eq, .bool true⟩], [], 1, 25, false⟩ = .ok p := ⟨_, rfl⟩
  obtain ⟨_, pre, post, -, hpre, hpost, -, hbefore, -, hjoins⟩ :=
    Audit.blueprint.filters_matched_in_place (by decide) (.inl hp)
  cases hpre
  cases hpost
  have hreaches : Audit.catalog.Reaches Audit.serviceTypeJoin Audit.propertyJoin :=
    .step (k := Audit.portfolioJoin) (.step (.refl _) (by decide) rfl) (by decide) rfl
  obtain ⟨earlier, later, hstages, -, hunwind⟩ :=
    hjoins ⟨"serviceType", .neq, .text "Full"⟩ (.head _) _ rfl Audit.serviceTypeJoin (by decide) _
      hreaches
  exact ⟨p, earlier, later, hp, hbefore, hstages, hunwind⟩

end Blueprint

end AuditReport
