import AuditReport.Proofs.JoinOrder

/-! Which requests have a query, and the order of its stages. Once the filters have conditions, the
only obstacle is a planned join that keys off a name which no join of the catalog has. -/

namespace AuditReport

open Fallible Pipeline

namespace Blueprint

variable {b : Blueprint} {q : ReportQuery}

/-- The joins planned for a request. -/
def plan (b : Blueprint) (q : ReportQuery) (extra : List String) : JoinPlan :=
  JoinPlan.ofColumns b.catalog (b.referenced q.filters q.sort extra)

/-- A planned join keys off a name that no join of the catalog has. -/
def KeysOffUnknown (b : Blueprint) (q : ReportQuery) (extra : List String) : Prop :=
  ∃ j ∈ (b.plan q extra).joins, ∃ name,
    j.dependency? = some name ∧ name ∉ b.catalog.joins.map Join.name

/-- Some filter is on a column that needs joins, or on one that needs none. -/
def SomeFilter (b : Blueprint) (q : ReportQuery) (needsJoin : Bool) : Prop :=
  ∃ f ∈ q.filters, ∃ c, b.catalog.column? f.column = some c ∧ c.needsJoin = needsJoin

/-- One stage of a kind if a condition holds, and no stage otherwise. -/
def OneIf (condition : Prop) (kind : Stage → Prop) (stages : List Stage) : Prop :=
  (condition → ∃ s, stages = [s] ∧ kind s) ∧ (¬condition → stages = [])

/-- The stages of a request, each in its place: a match if there is something to match before the
joins, the joins of the plan, a match if there is something to match behind them, one sort, and the
terminal stage. -/
def InPlace (b : Blueprint) (q : ReportQuery) (extra : List String) (terminal : Stage)
    (stages : List Stage) : Prop :=
  ∃ pre joining post keys,
    stages = pre ++ joining ++ post ++ [.sort keys, terminal] ∧
    OneIf (q.includeArchived = false ∨ b.SomeFilter q false) (∃ c, · = .preMatch c) pre ∧
    (b.plan q extra).MadeBy joining ∧
    OneIf (b.SomeFilter q true) (∃ cs, · = .postMatch cs) post

/-! ## The parts of a query -/

/-- Filters with conditions are on known columns. -/
theorem resolve_total (h : ∀ f ∈ q.filters, ∃ d, b.condition f = .ok d) :
    ∃ rs, b.resolve q.filters = .ok rs := by
  refine mapM_total fun f hf => ?_
  obtain ⟨d, hd⟩ := h f hf
  obtain ⟨c, hc, -⟩ := condition_ok hd
  exact ⟨(c, f), by simp only [hc]⟩

/-- The filters on one side of the joins have conditions, none only if there is no such filter. -/
theorem conditions_side (h : ∀ f ∈ q.filters, ∃ d, b.condition f = .ok d)
    {rs : List (Column × Filter)} (hrs : b.resolve q.filters = .ok rs) (needsJoin : Bool) :
    ∃ cs, conditions (rs.filter fun r => r.1.needsJoin == needsJoin) = .ok cs ∧
      (cs = [] ↔ ¬b.SomeFilter q needsJoin) := by
  rw [conditions_filter (· == needsJoin) hrs]
  have hside : ∀ f ∈ q.filters.filter fun f => b.isJoined f == needsJoin,
      ∃ d, b.condition f = .ok d := fun f hf => h f (List.mem_of_mem_filter hf)
  obtain ⟨cs, hcs⟩ := mapM_total hside
  refine ⟨cs, hcs, ?_⟩
  have hlength := (mapM_ok_iff.mp hcs).length_eq
  rw [← List.length_eq_zero_iff, ← hlength, List.length_eq_zero_iff, List.filter_eq_nil_iff]
  constructor
  · rintro hnone ⟨f, hf, c, hc, hj⟩
    exact hnone f hf (by simp [isJoined, hc, hj])
  · intro hnone f hf hj
    obtain ⟨d, hd⟩ := h f hf
    obtain ⟨c, hc, -⟩ := condition_ok hd
    exact hnone ⟨f, hf, c, hc, by simpa [isJoined, hc] using hj⟩

theorem preMatch_present (excluded : Bool) {rs : List (Column × Filter)} {cs : List Document}
    {some : Prop} (hcs : conditions rs = .ok cs) (h : cs = [] ↔ ¬some) :
    ∃ pre, preMatch excluded rs = .ok pre ∧
      OneIf (excluded = true ∨ some) (∃ c, · = .preMatch c) pre := by
  unfold preMatch
  rw [hcs]
  cases excluded with
  | true => exact ⟨_, rfl, fun _ => ⟨_, rfl, _, rfl⟩, fun hnot => absurd (.inl rfl) hnot⟩
  | false =>
    cases cs with
    | nil =>
      have hnone : ¬some := h.mp rfl
      exact ⟨[], rfl, fun hor => absurd hor (by simp [hnone]), fun _ => rfl⟩
    | cons d rest =>
      have hsome : some := by
        by_contra hnot
        cases h.mpr hnot
      exact ⟨_, rfl, fun _ => ⟨_, rfl, _, rfl⟩, fun hnot => absurd (.inr hsome) hnot⟩

theorem postMatch_present {rs : List (Column × Filter)} {cs : List Document} {some : Prop}
    (hcs : conditions rs = .ok cs) (h : cs = [] ↔ ¬some) :
    ∃ post, postMatch rs = .ok post ∧ OneIf some (∃ cs, · = .postMatch cs) post := by
  unfold postMatch
  rw [hcs]
  cases cs with
  | nil => exact ⟨[], rfl, fun hsome => absurd hsome (h.mp rfl), fun _ => rfl⟩
  | cons d rest =>
    have hsome : some := by
      by_contra hnot
      cases h.mpr hnot
    exact ⟨_, rfl, fun _ => ⟨_, rfl, _, rfl⟩, fun hnot => absurd hsome hnot⟩

/-- Filters with conditions make stages, in order or not. -/
theorem stages_total (h : ∀ f ∈ q.filters, ∃ d, b.condition f = .ok d) (extra : List String)
    (terminal : Stage) :
    ∃ pre post,
      b.stages q extra terminal = .ok (pre ++ joinStages (b.plan q extra) ++ post ++
        [.sort (b.sortKeys q.sort), terminal]) ∧
      OneIf (q.includeArchived = false ∨ b.SomeFilter q false) (∃ c, · = .preMatch c) pre ∧
      OneIf (b.SomeFilter q true) (∃ cs, · = .postMatch cs) post := by
  obtain ⟨rs, hrs⟩ := resolve_total h
  obtain ⟨before, hbefore, hnoneBefore⟩ := conditions_side h hrs false
  obtain ⟨behind, hbehind, hnoneBehind⟩ := conditions_side h hrs true
  obtain ⟨pre, hpre, hpreOne⟩ := preMatch_present (!q.includeArchived) hbefore hnoneBefore
  obtain ⟨post, hpost, hpostOne⟩ := postMatch_present hbehind hnoneBehind
  simp only [Bool.not_eq_true'] at hpreOne
  refine ⟨pre, post, ?_, hpreOne, hpostOne⟩
  simp only [beq_false, beq_true] at hpre hpost
  unfold stages
  rw [hrs]
  show (preMatch _ _ >>= _) = _
  rw [hpre]
  show (postMatch _ >>= _) = _
  rw [hpost]
  rfl

/-! ## The check of a query -/

theorem OneIf.cases {condition : Prop} {kind : Stage → Prop} {stages : List Stage}
    (h : OneIf condition kind stages) : stages = [] ∨ ∃ s, stages = [s] ∧ kind s := by
  by_cases hc : condition
  · exact .inr (h.1 hc)
  · exact .inl (h.2 hc)

/-- With or without a match, the check comes to the joins with nothing joined. -/
theorem advance_pre {pre : List Stage} (h : pre = [] ∨ ∃ s, pre = [s] ∧ ∃ c, s = .preMatch c)
    (plan : JoinPlan) : ∃ p, advance .start pre = .ok p ∧ Stands plan [] p := by
  rcases h with rfl | ⟨_, rfl, c, rfl⟩
  · exact ⟨.start, rfl, Nat.zero_le 1, by simp [Progress.start], by simp [Progress.start]⟩
  · have hstep := step_plain (p := .start) (s := .preMatch c) Nat.zero_ne_one rfl (Nat.le_refl 0)
    refine ⟨{ Progress.start with index := 1 }, ?_, Nat.zero_le 1, ?_, ?_⟩
    · rw [advance_cons, hstep]
      rfl
    · simp [Progress.start]
    · simp [Progress.start]

/-- Behind the joins nothing can be out of order. -/
theorem checkFrom_rest {p : Progress} {post : List Stage} {keys : List (String × Int)}
    {terminal : Stage} (h : post = [] ∨ ∃ s, post = [s] ∧ ∃ cs, s = .postMatch cs)
    (ht : terminal.isTerminal = true) (hp : p.phase ≤ 1) :
    checkFrom p (post ++ [.sort keys, terminal]) = .ok () := by
  have hsorted : ∀ r : Progress, r.phase ≤ 3 → checkFrom r [.sort keys, terminal] = .ok () := by
    intro r hr
    have hsort := step_plain (s := .sort keys) (by simp [Stage.phase]) rfl hr
    have hterminal := step_terminal (p := { r with index := r.index + 1, phase := 3 }) ht
      (phase_le (s := .sort keys) ht)
    show (r.step false (.sort keys) >>= fun r => checkFrom r [terminal]) = _
    rw [hsort]
    show (Progress.step { r with index := r.index + 1, phase := 3 } true terminal >>= _) = _
    rw [hterminal]
    show (if terminal.isTerminal then _ else _) = _
    rw [if_pos ht]
  rcases h with rfl | ⟨_, rfl, cs, rfl⟩
  · exact hsorted p (by omega)
  · have hstep := step_plain (s := .postMatch cs) (by simp [Stage.phase]) rfl
      (show p.phase ≤ 2 by omega)
    show (p.step false (.postMatch cs) >>= fun r => checkFrom r [.sort keys, terminal]) = _
    rw [hstep]
    exact hsorted { p with index := p.index + 1, phase := 2 } (Nat.le_succ 2)

/-- **A query is built unless a planned join keys off an unknown name**, and then its stages are in
their places. -/
theorem build_in_place (h : ∀ f ∈ q.filters, ∃ d, b.condition f = .ok d) (extra : List String)
    {terminal : Stage} (ht : terminal.isTerminal = true) :
    (b.KeysOffUnknown q extra ∧ ∃ j name, b.build q extra terminal =
      .error (.misordered (.dependencyNotReady j name))) ∨
    (¬b.KeysOffUnknown q extra ∧ ∃ p, b.build q extra terminal = .ok p ∧
      b.InPlace q extra terminal p.stages) := by
  obtain ⟨pre, post, hstages, hpre, hpost⟩ := stages_total h extra terminal
  have hplan : (b.plan q extra).Coherent := JoinPlan.coherent_ofColumns _ _
  obtain ⟨p, hp, hstands⟩ := advance_pre hpre.cases (b.plan q extra)
  -- The check goes through the match, then through the joins, and then on to the end.
  have hcheck : check (pre ++ joinStages (b.plan q extra) ++ post ++
        [.sort (b.sortKeys q.sort), terminal]) =
      advance p (joinStages (b.plan q extra)) >>= fun r =>
        checkFrom r (post ++ [.sort (b.sortKeys q.sort), terminal]) := by
    rw [List.append_assoc, check, checkFrom_append _ (by simp), advance_append, hp]
    rfl
  rcases advance_joinStages hplan hstands with
    ⟨hall, r, hr, hphase⟩ | ⟨j, hj, name, hd, hn, herror⟩
  · right
    constructor
    · rintro ⟨j, hj, name, hd, hn⟩
      exact hn ((JoinPlan.mem_names_iff hj hd).mp (hall j hj name hd))
    · rw [hr] at hcheck
      have hok := hcheck.trans (checkFrom_rest hpost.cases ht hphase)
      refine ⟨⟨_, hok⟩, ?_, pre, _, post, _, rfl, hpre, madeBy_joinStages hplan hall, hpost⟩
      simp only [build, hstages, Pipeline.of_eq_ok hok]
  · left
    constructor
    · exact ⟨j, hj, name, hd, mt (JoinPlan.mem_names_iff hj hd).mpr hn⟩
    · rw [herror] at hcheck
      refine ⟨j.name, name, ?_⟩
      simp only [build, hstages, Pipeline.of_eq_error hcheck]

/-- **The stages of a query are in order.** If its filters have conditions, a request has a query for
a page, and one for an export of any columns, unless a planned join keys off a name that no join of
the catalog has; then, and only then, the order of the stages is refused. The stages of the query
are each in its place: every planned join is made once and unwound once behind it, and comes behind
the unwind of what it keys off. -/
theorem query_stages_in_order (h : ∀ f ∈ q.filters, ∃ d, b.condition f = .ok d) :
    (((∃ e, b.buildPage q = .error (.misordered e)) ↔ b.KeysOffUnknown q []) ∧
      (¬b.KeysOffUnknown q [] → ∃ p, b.buildPage q = .ok p ∧
        b.InPlace q [] (.facet q.skip q.limit b.catalog.paths) p.stages)) ∧
    ∀ columns,
      ((∃ e, b.buildExport q columns = .error (.misordered e)) ↔ b.KeysOffUnknown q columns) ∧
      (¬b.KeysOffUnknown q columns → ∃ p, b.buildExport q columns = .ok p ∧
        b.InPlace q columns (.project b.catalog.paths) p.stages) := by
  have hbuild : ∀ extra terminal, terminal.isTerminal = true →
      ((∃ e, b.build q extra terminal = .error (.misordered e)) ↔ b.KeysOffUnknown q extra) ∧
      (¬b.KeysOffUnknown q extra → ∃ p, b.build q extra terminal = .ok p ∧
        b.InPlace q extra terminal p.stages) := by
    intro extra terminal ht
    rcases build_in_place h extra ht with ⟨hunknown, j, name, herror⟩ | ⟨hknown, p, hok, hplace⟩
    · exact ⟨⟨fun _ => hunknown, fun _ => ⟨_, herror⟩⟩, fun hnot => absurd hunknown hnot⟩
    · refine ⟨⟨fun ⟨e, he⟩ => ?_, fun hunknown => absurd hunknown hknown⟩, fun _ => ⟨p, hok, hplace⟩⟩
      cases hok.symm.trans he
  exact ⟨hbuild [] _ rfl, fun columns => hbuild columns _ rfl⟩

/-- A join that keys off a name which is not declared. -/
def ownerJoin : Join := ⟨"Owner", "team.owner_id", "_id", "owner"⟩

/-- A blueprint whose only join cannot be made. Columns that do not need it can be reported. -/
def undeclaredTeam : Blueprint where
  catalog :=
    { columns := [Audit.plain "name" "Name" .string .audit "name" [],
        Audit.plain "owner" "Owner" .string .property "owner.name" [ownerJoin]]
      joins := [ownerJoin]
      checked := by rfl }
  displayColumns := ["name"]
  implicitColumns := []

/-- A page of names has a query, and an export of their owners has none. -/
theorem query_stages_in_order_undeclared_team :
    ∃ q : ReportQuery, q.filters = [⟨"name", .eq, .text "Ada"⟩] ∧
      (∃ p, undeclaredTeam.buildPage q = .ok p ∧
        undeclaredTeam.InPlace q [] (.facet q.skip q.limit ["name", "owner.name"]) p.stages) ∧
      ∃ e, undeclaredTeam.buildExport q ["owner"] = .error (.misordered e) := by
  let q : ReportQuery := ⟨[⟨"name", .eq, .text "Ada"⟩], [], 1, 25, false⟩
  have hconditions : ∀ f ∈ q.filters, ∃ d, undeclaredTeam.condition f = .ok d := by
    intro f hf
    cases List.mem_singleton.mp hf
    exact ⟨_, rfl⟩
  obtain ⟨⟨-, hpage⟩, hexport⟩ := undeclaredTeam.query_stages_in_order hconditions
  refine ⟨q, rfl, hpage ?_, (hexport ["owner"]).1.mpr ?_⟩
  · have hjoins : (undeclaredTeam.plan q []).joins = [] := by decide
    rintro ⟨j, hj, -⟩
    rw [hjoins] at hj
    cases hj
  · have hjoins : (undeclaredTeam.plan q ["owner"]).joins = [ownerJoin] := by decide
    refine ⟨ownerJoin, ?_, "team", by decide, by decide⟩
    rw [hjoins]
    exact List.mem_singleton_self _

end Blueprint

end AuditReport
