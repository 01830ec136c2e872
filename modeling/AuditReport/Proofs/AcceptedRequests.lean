import AuditReport.Proofs.CoercedValues
import AuditReport.Proofs.QueryOrder

/-! Accepted requests. Once the filters of a request are accepted, only their single values can stand
in the way of its query: the query is built if every value that is coerced has a stored form, and
otherwise the first one that has none tells why it is not. -/

namespace AuditReport

open Fallible

/-! ## Accepted filters -/

namespace Validation

/-- An accepted range has both bounds. -/
theorem hasBounds_of_checkShape {key : String} {v : Value}
    (h : checkShape .between key v = .ok ()) : Coercion.hasBounds v = true := by
  have hrange : checkRange key v = .ok () := by
    cases v with
    | null => cases h
    | _ => exact h
  unfold checkRange at hrange
  split at hrange
  · next hlow hhigh => simp [Coercion.hasBounds, hlow, hhigh]
  · cases hrange

end Validation

namespace Coercion

/-- Coerces a value for a column. -/
def apply (s : Column × Value) : Except CoercionError Value := scalar s.1 s.2

end Coercion

namespace Condition

open Validation

variable {catalog : Catalog} {f : Filter} {c : Column} {op : Operator} {v w : Value}

theorem literalText_total (h : v.isPrintable = true) : ∃ p, literalText v = .ok p := by
  rw [literalText, Value.shown?, if_pos h]
  exact ⟨_, rfl⟩

/-- There is a test with each stored form that a value has, if the value can be printed. -/
theorem test_total (hv : v.isPrintable = true) (h : Coercion.value c op v = .ok w) :
    ∃ t, test op w = .ok t := by
  cases op with
  | contains | startsWith | endsWith =>
    obtain ⟨p, hp⟩ := literalText_total (Coercion.isPrintable_scalar hv h)
    exact ⟨_, map_ok_iff.mpr ⟨p, hp, rfl⟩⟩
  | _ => exact ⟨_, rfl⟩

/-- On a column that holds its value itself, the condition of an accepted filter is made of the
stored forms of what its operator takes. -/
theorem verdict_ofFilter_plain (hc : catalog.column? f.column = some c)
    (haccepted : checkFilter catalog f = .ok ()) (hprintable : f.value.isPrintable = true)
    (hplain : c.isVirtual = false) :
    verdict (ofFilter c f) =
      verdict ((Coercion.operands f.operator f.value).mapM (Coercion.scalar c)) := by
  obtain ⟨d, hd, -, hshape⟩ := checkFilter_ok haccepted
  cases hc.symm.trans hd
  have hbounds : f.operator = .between → Coercion.hasBounds f.value = true := by
    intro hop
    rw [hop] at hshape
    exact hasBounds_of_checkShape (hshape.resolve_left nofun)
  obtain ⟨make, hvalue⟩ := Coercion.value_operands (c := c) hbounds
  rw [ofFilter, hplain, if_neg nofun, verdict_map,
    verdict_bind_ok fun w hw => test_total hprintable hw, hvalue, verdict_map]

/-- On a virtual column an accepted filter always has a condition. -/
theorem verdict_ofFilter_virtual (hc : catalog.column? f.column = some c)
    (haccepted : checkFilter catalog f = .ok ()) (hprintable : f.value.isPrintable = true)
    (hvirtual : c.isVirtual = true) :
    verdict (ofFilter c f) = .ok () := by
  obtain ⟨d, hd, hop, -⟩ := checkFilter_ok haccepted
  cases hc.symm.trans hd
  have hop : f.operator ∈ virtualOperators := by
    have hadmissible := catalog.operators_admissible (Catalog.column?_some hc).1 _ hop
    rwa [Column.admissible, if_pos hvirtual] at hadmissible
  rw [ofFilter, hvirtual, if_pos rfl, verdict_map, verdict_ok_iff]
  cases hoperator : f.operator with
  | eq | isIn => exact ⟨_, rfl⟩
  | contains =>
    obtain ⟨p, hp⟩ := literalText_total hprintable
    exact ⟨_, map_ok_iff.mpr ⟨p, hp, rfl⟩⟩
  | _ => rw [hoperator] at hop; exact absurd hop (by decide)

end Condition

namespace Blueprint

variable {b : Blueprint} {q : ReportQuery}

/-! ## What is coerced for a request -/

/-- What is coerced for a filter, each value with its column. A virtual column takes its values as
they are. -/
def coercions (b : Blueprint) (f : Filter) : List (Column × Value) :=
  match b.catalog.column? f.column with
  | some c =>
    if c.isVirtual then [] else (Coercion.operands f.operator f.value).map fun v => (c, v)
  | none => []

/-- What is coerced for a request, in order: first for the filters on audit fields, then for those on
joined fields. -/
def allCoercions (b : Blueprint) (q : ReportQuery) : List (Column × Value) :=
  (q.filters.filter (!b.isJoined ·) ++ q.filters.filter b.isJoined).flatMap b.coercions

theorem verdict_condition {f : Filter} (h : Validation.checkFilter b.catalog f = .ok ())
    (hprintable : f.value.isPrintable = true) :
    verdict (b.condition f) = verdict ((b.coercions f).mapM Coercion.apply) := by
  obtain ⟨c, hc, -⟩ := Validation.checkFilter_ok h
  rw [condition_of_column hc]
  unfold coercions
  simp only [hc]
  cases hvirtual : c.isVirtual with
  | true => exact Condition.verdict_ofFilter_virtual hc h hprintable hvirtual
  | false =>
    rw [Condition.verdict_ofFilter_plain hc h hprintable hvirtual, if_neg nofun, List.mapM_map]
    rfl

theorem verdict_preMatch (excluded : Bool) (rs : List (Column × Filter)) :
    verdict (preMatch excluded rs) = verdict (conditions rs) := by
  refine verdict_bind_ok fun cs _ => ?_
  split <;> exact ⟨_, rfl⟩

theorem verdict_postMatch (rs : List (Column × Filter)) :
    verdict (postMatch rs) = verdict (conditions rs) := by
  refine verdict_bind_ok fun cs _ => ?_
  split <;> exact ⟨_, rfl⟩

/-! ## What a request fails of -/

/-- The query is built just if all values that are coerced have stored forms. Otherwise the first
one that has none says why not: a reason that names its column, or that it leaves the calendar. -/
def BuiltByValues (b : Blueprint) (q : ReportQuery) (built : Except BuildError Pipeline) : Prop :=
  ((∃ p, built = .ok p) ↔ ∀ s ∈ b.allCoercions q, Coercion.Accepted s.1 s.2) ∧
  ∀ e, built = .error e ↔ ∃ before c v after d,
    b.allCoercions q = before ++ (c, v) :: after ∧
    (∀ s ∈ before, Coercion.Accepted s.1 s.2) ∧ Coercion.scalar c v = .error d ∧
    (d = .outOfCalendar ∨ ∃ r, d = .rejected r ∧ r.RefusesValue c.key) ∧ e = .coercion d

theorem isPrintable_allCoercions (h : ∀ f ∈ q.filters, f.value.isPrintable = true) :
    ∀ s ∈ b.allCoercions q, s.2.isPrintable = true := by
  intro s hs
  obtain ⟨f, hf, hs⟩ := List.mem_flatMap.mp hs
  have hf : f ∈ q.filters := by
    rcases List.mem_append.mp hf with hf | hf <;> exact List.mem_of_mem_filter hf
  unfold coercions at hs
  split at hs
  · split at hs
    · cases hs
    · obtain ⟨v, hv, rfl⟩ := List.mem_map.mp hs
      exact Coercion.isPrintable_operands (h f hf) v hv
  · cases hs

theorem builtByValues_of_verdict {built : Except BuildError Pipeline}
    (hprintable : ∀ f ∈ q.filters, f.value.isPrintable = true)
    (h : verdict built =
      (verdict ((b.allCoercions q).mapM Coercion.apply)).mapError .coercion) :
    b.BuiltByValues q built := by
  constructor
  · rw [← verdict_ok_iff, h, mapError_ok_iff, verdict_ok_iff]
    exact ⟨fun ⟨_, hws⟩ => exists_of_mapM_ok hws, mapM_total⟩
  · intro e
    rw [← verdict_error_iff, h, mapError_error_iff]
    simp only [verdict_error_iff, mapM_error_iff]
    constructor
    · rintro ⟨d, ⟨before, ⟨c, v⟩, after, hall, hbefore, hd⟩, rfl⟩
      refine ⟨before, c, v, after, d, hall, hbefore, hd, ?_, rfl⟩
      cases d with
      | rejected r =>
        have hv : v.isPrintable = true :=
          isPrintable_allCoercions hprintable (c, v) (hall ▸ List.mem_append_cons_self)
        exact .inr ⟨r, rfl, (Coercion.scalar_rejected hd).refusesValue hv⟩
      | outOfCalendar => exact .inl rfl
    · rintro ⟨before, c, v, after, d, hall, hbefore, hd, -, rfl⟩
      exact ⟨d, ⟨before, (c, v), after, hall, hbefore, hd⟩, rfl⟩

theorem not_keysOffUnknown
    (hdeclared : ∀ j ∈ b.catalog.joins, ∀ name ∈ j.dependency?,
      name ∈ b.catalog.joins.map Join.name) (extra : List String) : ¬b.KeysOffUnknown q extra := by
  rintro ⟨j, hj, name, hname, hunknown⟩
  exact hunknown (hdeclared j (JoinPlan.mem_ofColumns_joins.mp hj).1 name hname)

section Accepted

variable (haccepted : q.filters.forM (Validation.checkFilter b.catalog) = .ok ())
  (hprintable : ∀ f ∈ q.filters, f.value.isPrintable = true)
include haccepted

theorem resolve_accepted : ∃ rs, b.resolve q.filters = .ok rs := by
  refine mapM_total fun f hf => ?_
  obtain ⟨c, hc, -⟩ := Validation.checkFilter_ok (forM_ok_iff.mp haccepted f hf)
  exact ⟨(c, f), by simp only [hc]⟩

include hprintable

theorem verdict_conditions {rs : List (Column × Filter)} (hrs : b.resolve q.filters = .ok rs)
    (side : Bool → Bool) :
    verdict (conditions (rs.filter fun r => side r.1.needsJoin)) =
      verdict (((q.filters.filter fun f => side (b.isJoined f)).flatMap b.coercions).mapM
        Coercion.apply) := by
  rw [conditions_filter side hrs]
  refine verdict_mapM_flatMap fun f hf => ?_
  have hf := List.mem_of_mem_filter hf
  exact verdict_condition (forM_ok_iff.mp haccepted f hf) (hprintable f hf)

/-- The stages of an accepted request fail with the first value that is refused. -/
theorem verdict_stages (extra : List String) (terminal : Stage) :
    verdict (b.stages q extra terminal) =
      verdict ((b.allCoercions q).mapM Coercion.apply) := by
  obtain ⟨rs, hrs⟩ := resolve_accepted haccepted
  have hbefore := verdict_conditions haccepted hprintable hrs not
  have hbehind := verdict_conditions haccepted hprintable hrs id
  rw [← verdict_preMatch (!q.includeArchived)] at hbefore
  rw [← verdict_postMatch] at hbehind
  simp only [id_eq] at hbehind
  rw [allCoercions, List.flatMap_append, verdict_mapM_append, ← hbefore, ← hbehind, stages, hrs]
  show verdict (preMatch _ _ >>= _) = _
  exact verdict_bind fun pre => verdict_bind_ok fun post _ => ⟨_, rfl⟩

/-- Filters whose values all have stored forms have conditions. -/
theorem condition_accepted (h : ∀ s ∈ b.allCoercions q, Coercion.Accepted s.1 s.2) :
    ∀ f ∈ q.filters, ∃ d, b.condition f = .ok d := by
  intro f hf
  have hside : f ∈ q.filters.filter (!b.isJoined ·) ++ q.filters.filter b.isJoined := by
    cases hj : b.isJoined f <;> simp [hf, hj]
  have hparts : ∃ ws, (b.coercions f).mapM Coercion.apply = .ok ws :=
    mapM_total fun s hs => h s (List.mem_flatMap.mpr ⟨f, hside, hs⟩)
  rw [← verdict_ok_iff, verdict_condition (forM_ok_iff.mp haccepted f hf) (hprintable f hf),
    verdict_ok_iff]
  exact hparts

/-- If every planned join can be made, an accepted request has a query as long as no value is
refused, and otherwise fails with the first one that is. -/
theorem verdict_build {extra : List String} {terminal : Stage} (ht : terminal.isTerminal = true)
    (hknown : ¬b.KeysOffUnknown q extra) :
    verdict (b.build q extra terminal) =
      (verdict ((b.allCoercions q).mapM Coercion.apply)).mapError .coercion := by
  rw [← verdict_stages haccepted hprintable extra terminal]
  cases hstages : b.stages q extra terminal with
  | error e =>
    simp only [build, hstages]
    rfl
  | ok stages =>
    have hall := verdict_ok_iff.mpr ⟨stages, hstages⟩
    rw [verdict_stages haccepted hprintable, verdict_ok_iff] at hall
    obtain ⟨ws, hws⟩ := hall
    have hconditions := condition_accepted haccepted hprintable (exists_of_mapM_ok hws)
    rcases build_in_place hconditions extra ht with ⟨hunknown, -⟩ | ⟨-, p, hp, -⟩
    · exact absurd hunknown hknown
    · rw [hp]
      rfl

/-- **Accepted requests fail of their values alone.** In a catalog that declares every name which a
join keys off, an accepted request has a query for a page, and one for an export of any columns, just
if every value that its filters compare a stored column with has a stored form there. Otherwise both
fail for the first value that has none, the filters on audit fields coming before those on joined
fields. So neither an unknown column, nor an operator, nor the shape of a range, nor the order of
the stages stands in the way. All this is about values that can be printed, as can those of all
requests that are read from bodies (`Http.Input.isPrintable_body`). -/
theorem accepted_requests_built_by_values
    (hdeclared : ∀ j ∈ b.catalog.joins, ∀ name ∈ j.dependency?,
      name ∈ b.catalog.joins.map Join.name) :
    b.BuiltByValues q (b.buildPage q) ∧
      ∀ columns, b.BuiltByValues q (b.buildExport q columns) :=
  ⟨builtByValues_of_verdict hprintable
      (verdict_build haccepted hprintable rfl (not_keysOffUnknown hdeclared [])),
    fun columns => builtByValues_of_verdict hprintable
      (verdict_build haccepted hprintable rfl (not_keysOffUnknown hdeclared columns))⟩

end Accepted

/-- Two bad values: the one on a joined field comes first in the request, and the one on an audit
field is told. -/
theorem accepted_requests_built_by_values_two_refused :
    let q : ReportQuery := ⟨[⟨"nextDueDate", .before, .text "soon"⟩,
      ⟨"otaId", .eq, .text "AG-1"⟩, ⟨"amountConfirmed", .between,
        .object [("from", .int 1), ("to", .text "lots")]⟩], [], 1, 25, false⟩
    let e : BuildError := .coercion (.rejected (.invalidNumber "lots" "amountConfirmed"))
    Validation.check Audit.catalog q.filters q.sort = .ok () ∧
      Audit.blueprint.buildPage q = .error e ∧
      Audit.blueprint.buildExport q ["currency"] = .error e := by
  intro q e
  have hchecked : Validation.check Audit.catalog q.filters q.sort = .ok () := rfl
  have haccepted : q.filters.forM (Validation.checkFilter Audit.catalog) = .ok () := rfl
  obtain ⟨⟨-, hpage⟩, hexport⟩ :=
    accepted_requests_built_by_values (b := Audit.blueprint) haccepted (by decide) (by decide)
  have hrefused : ∃ before c v after d, Audit.blueprint.allCoercions q = before ++ (c, v) :: after ∧
      (∀ s ∈ before, Coercion.Accepted s.1 s.2) ∧ Coercion.scalar c v = .error d ∧
      (d = .outOfCalendar ∨ ∃ r, d = .rejected r ∧ r.RefusesValue c.key) ∧ e = .coercion d :=
    ⟨[(_, .int 1)], _, .text "lots", _, _, rfl, List.forall_mem_singleton.mpr ⟨_, rfl⟩, rfl,
      .inr ⟨_, rfl, .invalidNumber "lots"⟩, rfl⟩
  exact ⟨hchecked, (hpage e).mpr hrefused, ((hexport ["currency"]).2 e).mpr hrefused⟩

end Blueprint

end AuditReport
