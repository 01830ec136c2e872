import AuditReport.Proofs.QueryStages

/-! Pages and exports. Both kinds of query have the same stages before the terminal one, so the
pages of a request cut the rows of its export into pieces, none of which is empty or lost. -/

namespace AuditReport

/-! ## Pages of a list -/

/-- The rows that a stage keeps of those that reach it: one page of them, or all. -/
def Stage.window {α : Type} (rows : List α) : Stage → List α
  | facet skip limit _ => (rows.drop skip.toNat).take limit.toNat
  | _ => rows

/-- The rows that a query's last stage keeps of those that reach it. -/
def Pipeline.window {α : Type} (p : Pipeline) (rows : List α) : List α :=
  p.stages.getLast?.elim rows (Stage.window rows)

/-- How many pages a number of rows takes. -/
def pageCount (rows limit : Nat) : Nat := (rows + limit - 1) / limit

theorem lt_pageCount {rows limit k : Nat} (h : 1 ≤ limit) :
    k < pageCount rows limit ↔ k * limit < rows := by
  unfold pageCount
  rw [Nat.lt_iff_add_one_le, Nat.le_div_iff_mul_le h, Nat.add_one_mul]
  omega

theorem flatMap_windows {α : Type} (rows : List α) (limit count : Nat) :
    (List.range count).flatMap (fun k => (rows.drop (k * limit)).take limit) =
      rows.take (count * limit) := by
  induction count with
  | zero => simp
  | succ count ih =>
    rw [List.range_succ, List.flatMap_append, ih, List.flatMap_singleton, Nat.succ_mul,
      List.take_add]

/-- Pages in order are the whole list. -/
theorem flatMap_pages {α : Type} (rows : List α) {limit : Nat} (h : 1 ≤ limit) :
    (List.range (pageCount rows.length limit)).flatMap
      (fun k => (rows.drop (k * limit)).take limit) = rows := by
  rw [flatMap_windows, List.take_of_length_le]
  exact Nat.not_lt.mp fun hlt => absurd ((lt_pageCount h).mpr hlt) (Nat.lt_irrefl _)

theorem page_ne_nil {α : Type} {rows : List α} {limit k : Nat} (h : 1 ≤ limit) :
    (rows.drop (k * limit)).take limit ≠ [] ↔ k < pageCount rows.length limit := by
  rw [lt_pageCount h, ne_eq, List.take_eq_nil_iff, List.drop_eq_nil_iff]
  omega

/-! ## The stages before the terminal one -/

namespace Blueprint

variable {b : Blueprint}

/-- The stages of a request before the terminal one. -/
def leading (b : Blueprint) (filters : List Filter) (sort : List SortKey) (includeArchived : Bool)
    (extra : List String) : Except CoercionError (List Stage) := do
  let rs ← b.resolve filters
  let pre ← preMatch (!includeArchived) (rs.filter fun (c, _) => !c.needsJoin)
  let post ← postMatch (rs.filter fun (c, _) => c.needsJoin)
  return pre ++ joinStages (JoinPlan.ofColumns b.catalog (b.referenced filters sort extra)) ++
    post ++ [.sort (b.sortKeys sort)]

theorem stages_eq_leading {q : ReportQuery} {extra : List String} {terminal : Stage} :
    b.stages q extra terminal =
      (b.leading q.filters q.sort q.includeArchived extra).map (· ++ [terminal]) := by
  unfold stages leading
  cases b.resolve q.filters with
  | error e => rfl
  | ok rs =>
    cases hpre : preMatch (!q.includeArchived) (rs.filter fun (c, _) => !c.needsJoin) with
    | error e => simp [hpre, bind, Except.bind, Except.map]
    | ok pre =>
      cases hpost : postMatch (rs.filter fun (c, _) => c.needsJoin) with
      | error e => simp [hpre, hpost, bind, Except.bind, Except.map]
      | ok post => simp [hpre, hpost, bind, Except.bind, Except.map, pure, Except.pure]

/-- The columns that every row needs have all joins of the catalog between them. -/
def NeedsAllJoins (b : Blueprint) : Prop :=
  ∀ j ∈ b.catalog.joins, ∃ key ∈ b.displayColumns ++ b.implicitColumns,
    ∃ c ∈ b.catalog.column? key, j ∈ c.joins

/-- If every row needs all joins, no further column adds any. -/
theorem leading_extra {filters : List Filter} {sort : List SortKey} {includeArchived : Bool}
    (h : b.NeedsAllJoins) (extra : List String) :
    b.leading filters sort includeArchived extra = b.leading filters sort includeArchived [] := by
  have hfull : ∀ extra, JoinPlan.ofColumns b.catalog (b.referenced filters sort extra) =
      JoinPlan.full b.catalog := by
    intro extra
    refine JoinPlan.ofColumns_eq_full fun j hj => ?_
    obtain ⟨key, hk, hc⟩ := h j hj
    refine ⟨key, ?_, hc⟩
    simp only [referenced, List.mem_append] at hk ⊢
    tauto
  simp only [leading, hfull]

/-- Pages and exports of a request fail alike, or have the same stages before the terminal one. -/
theorem build_cases (h : b.NeedsAllJoins) (filters : List Filter) (sort : List SortKey)
    (includeArchived : Bool) :
    (∃ e, ∀ page limit extra terminal, Stage.isTerminal terminal = true →
      b.build ⟨filters, sort, page, limit, includeArchived⟩ extra terminal = .error e) ∨
    ∃ shared, ∀ page limit extra terminal, Stage.isTerminal terminal = true → ∃ p,
      b.build ⟨filters, sort, page, limit, includeArchived⟩ extra terminal = .ok p ∧
        p.stages = shared ++ [terminal] := by
  have hstages : ∀ page limit extra terminal,
      b.stages ⟨filters, sort, page, limit, includeArchived⟩ extra terminal =
        (b.leading filters sort includeArchived []).map (· ++ [terminal]) := by
    intro page limit extra terminal
    rw [stages_eq_leading, leading_extra h]
  cases hl : b.leading filters sort includeArchived [] with
  | error e =>
    refine .inl ⟨.coercion e, fun page limit extra terminal _ => ?_⟩
    simp only [build, hstages, hl, Except.map]
  | ok shared =>
    -- Any terminal stage will do to tell whether the shared ones are in order.
    have hcheck : ∀ terminal, Stage.isTerminal terminal = true →
        Pipeline.check (shared ++ [terminal]) = Pipeline.check (shared ++ [.project []]) :=
      fun terminal ht => Pipeline.checkFrom_terminal ht rfl (Nat.zero_le _) (Nat.zero_le _)
    cases hc : Pipeline.check (shared ++ [.project []]) with
    | error o =>
      refine .inl ⟨.misordered o, fun page limit extra terminal ht => ?_⟩
      have hof := Pipeline.of_eq_error ((hcheck terminal ht).trans hc)
      simp only [build, hstages, hl, Except.map, hof]
    | ok =>
      refine .inr ⟨shared, fun page limit extra terminal ht => ?_⟩
      have hof := Pipeline.of_eq_ok ((hcheck terminal ht).trans hc)
      refine ⟨⟨_, (hcheck terminal ht).trans hc⟩, ?_, rfl⟩
      simp only [build, hstages, hl, Except.map, hof]

theorem needsAllJoins_audit : Audit.blueprint.NeedsAllJoins := by
  unfold NeedsAllJoins
  decide

/-- **Pages tile the export.** Requests that differ only in page and limit fail alike, with whatever
columns are exported, or their queries have the same stages and paths and differ only in what the
last stage keeps of the rows that reach it. An export keeps all rows. The pages of one limit, in
order, are these rows, none of them empty before the last row and none with a row after it. -/
theorem pages_tile_export (filters : List Filter) (sort : List SortKey) (includeArchived : Bool) :
    (∃ e, ∀ page limit, Audit.blueprint.buildPage ⟨filters, sort, page, limit, includeArchived⟩ =
        .error e ∧
      ∀ columns, Audit.blueprint.buildExport ⟨filters, sort, page, limit, includeArchived⟩ columns =
        .error e) ∨
    ∃ (shared : List Stage) (paths : List String) (paged : Int → Int → Pipeline)
      (exported : Int → Int → List String → Pipeline),
      (∀ page limit, Audit.blueprint.buildPage ⟨filters, sort, page, limit, includeArchived⟩ =
          .ok (paged page limit) ∧
        (paged page limit).stages = shared ++ [.facet ((page - 1) * limit) limit paths]) ∧
      (∀ page limit columns,
        Audit.blueprint.buildExport ⟨filters, sort, page, limit, includeArchived⟩ columns =
          .ok (exported page limit columns) ∧
        (exported page limit columns).stages = shared ++ [.project paths]) ∧
      ∀ rows : List Document,
        (∀ page limit columns, (exported page limit columns).window rows = rows) ∧
        ∀ limit : Nat, 1 ≤ limit →
          (List.range (pageCount rows.length limit)).flatMap
            (fun k : Nat => (paged (k + 1) limit).window rows) = rows ∧
          ∀ page : Int, 1 ≤ page →
            ((paged page limit).window rows ≠ [] ↔ page ≤ pageCount rows.length limit) := by
  rcases build_cases needsAllJoins_audit filters sort includeArchived with ⟨e, he⟩ | ⟨shared, hs⟩
  · exact .inl ⟨e, fun page limit => ⟨he page limit _ _ rfl, fun columns => he page limit _ _ rfl⟩⟩
  · choose paged hpaged using fun page limit => hs page limit []
      (.facet ((page - 1) * limit) limit Audit.catalog.paths) rfl
    choose exported hexported using fun page limit columns => hs page limit columns
      (.project Audit.catalog.paths) rfl
    refine .inr ⟨shared, Audit.catalog.paths, paged, exported, hpaged, hexported, fun rows => ?_⟩
    have hwindow : ∀ (k limit : Nat), (paged (k + 1) limit).window rows =
        (rows.drop (k * limit)).take limit := by
      intro k limit
      have hskip : (((k : Int) + 1 - 1) * limit).toNat = k * limit := by
        rw [Int.add_sub_cancel, ← Int.natCast_mul, Int.toNat_natCast]
      rw [Pipeline.window, (hpaged _ _).2, List.getLast?_concat, Option.elim_some, Stage.window,
        hskip, Int.toNat_natCast]
    refine ⟨fun page limit columns => ?_, fun limit hlimit => ⟨?_, fun page hpage => ?_⟩⟩
    · simp [Pipeline.window, (hexported _ _ _).2, Stage.window]
    · simp only [hwindow]
      exact flatMap_pages rows hlimit
    · obtain ⟨k, rfl⟩ : ∃ k : Nat, page = k + 1 := ⟨(page - 1).toNat, by omega⟩
      rw [hwindow, page_ne_nil hlimit]
      omega

/-- Three rows in pages of two. -/
theorem pages_tile_export_three_rows :
    ∃ first second third, ∃ rows : List Document, rows.length = 3 ∧
      Audit.blueprint.buildPage ⟨[], [], 1, 2, false⟩ = .ok first ∧
      Audit.blueprint.buildPage ⟨[], [], 2, 2, false⟩ = .ok second ∧
      Audit.blueprint.buildPage ⟨[], [], 3, 2, false⟩ = .ok third ∧
      first.window rows ++ second.window rows = rows ∧ third.window rows = [] := by
  rcases pages_tile_export [] [] false with ⟨e, he⟩ | ⟨_, _, paged, _, hpaged, -, hrows⟩
  · obtain ⟨p, hp⟩ : ∃ p, Audit.blueprint.buildPage ⟨[], [], 1, 2, false⟩ = .ok p := ⟨_, rfl⟩
    cases hp.symm.trans (he 1 2).1
  · obtain ⟨hall, hpages⟩ := (hrows [[], [("a", .null)], [("b", .null)]]).2 2 (by decide)
    refine ⟨paged 1 2, paged 2 2, paged 3 2, [[], [("a", .null)], [("b", .null)]], rfl,
      (hpaged 1 2).1, (hpaged 2 2).1, (hpaged 3 2).1, ?_, ?_⟩
    · simpa [pageCount, List.range_succ] using hall
    · exact not_not.mp fun h => absurd ((hpages 3 (by decide)).mp h) (by decide)

end Blueprint

end AuditReport
