import AuditReport.Proofs.CalendarDays
import AuditReport.Proofs.MatchShape
import AuditReport.Proofs.PrintableValues

/-! The values of filters, one by one. What an operator takes is coerced value by value, in order, so
that the first value which is refused decides. A value is refused for a reason that is told to the
caller, unless it is a moment which leaves the calendar in universal time or has no text for the
wording of the reason. -/

namespace AuditReport

open Fallible

/-- The reasons to refuse a value of a column, each of which names the column. -/
inductive Rejection.RefusesValue (key : String) : Rejection → Prop
  | invalidId (shown : String) : RefusesValue key (.invalidId shown key)
  | invalidNumber (shown : String) : RefusesValue key (.invalidNumber shown key)
  | numberOutOfRange (shown : String) : RefusesValue key (.numberOutOfRange shown key)
  | numberNotFinite (shown : String) : RefusesValue key (.numberNotFinite shown key)
  | invalidDate (shown : String) : RefusesValue key (.invalidDate shown key)
  | invalidBoolean (shown : String) : RefusesValue key (.invalidBoolean shown key)

/-- A value of a column is refused for a reason that names the column, unless the value cannot be
printed in it. -/
def Rejection.Refuses (key : String) (v : Value) (r : Rejection) : Prop :=
  r.RefusesValue key ∨ r = .unprintable ∧ v.isPrintable = false

theorem Rejection.Refuses.refusesValue {key : String} {v : Value} {r : Rejection}
    (h : r.Refuses key v) (hv : v.isPrintable = true) : r.RefusesValue key :=
  h.resolve_right fun hlong => Bool.false_ne_true (hlong.2.symm.trans hv)

namespace Coercion

variable {c : Column} {op : Operator} {v : Value} {key : String} {r : Rejection}

/-! ## One value -/

/-- The value has a stored form in the column. -/
def Accepted (c : Column) (v : Value) : Prop := ∃ w, scalar c v = .ok w

/-- The value denotes a moment whose instant lies before year 1 or behind year 9999. -/
def LeavesCalendar (v : Value) : Prop :=
  ∃ t, givenMoment? v = some t ∧
    ∃ n, t.instant? = some n ∧ ¬(0 ≤ n ∧ n < Calendar.Moment.span)

theorem refuse_eq {reason : String → Rejection} (hreason : ∀ s, (reason s).RefusesValue key) :
    ∃ r, refuse reason v = .rejected r ∧ r.Refuses key v := by
  refine ⟨_, rfl, ?_⟩
  unfold Rejection.withText Value.shown?
  cases hv : v.isPrintable with
  | true => exact .inl (hreason v.shown)
  | false => exact .inr ⟨rfl, hv⟩

theorem toId_error {e : CoercionError} (h : toId v key = .error e) :
    ∃ r, e = .rejected r ∧ r.Refuses key v := by
  unfold toId at h
  split at h
  · cases h
  · split at h
    · cases h
    · cases h
      exact refuse_eq .invalidId

theorem toNumber_error {e : CoercionError} (h : toNumber v key = .error e) :
    ∃ r, e = .rejected r ∧ r.Refuses key v := by
  have hcheck : ∀ w, checkNumber v key w = .error e → ∃ r, e = .rejected r ∧ r.Refuses key v := by
    intro w hw
    unfold checkNumber at hw
    split at hw
    · split at hw <;> cases hw
      exact refuse_eq .numberOutOfRange
    · split at hw <;> cases hw
      exact refuse_eq .numberNotFinite
    · cases hw
      exact refuse_eq .invalidNumber
  unfold toNumber at h
  split at h <;> exact hcheck _ h

theorem toMoment_rejected (h : toMoment v key = .error (.rejected r)) : r.Refuses key v := by
  unfold toMoment at h
  split at h
  · obtain ⟨_, hreason, hr⟩ : ∃ r, refuse (.invalidDate · key) v = .rejected r ∧ r.Refuses key v :=
      refuse_eq .invalidDate
    cases hreason.symm.trans (Except.error.inj h)
    exact hr
  · split at h <;> cases h

theorem toMoment_outOfCalendar : toMoment v key = .error .outOfCalendar ↔ LeavesCalendar v := by
  unfold toMoment LeavesCalendar
  split
  · next hnone => simp [hnone, refuse]
  · next t ht =>
    simp only [ht, Option.some.injEq, exists_eq_left', ← Calendar.Moment.universal?_eq_none]
    split <;> simp [*]

theorem toBoolean_error {e : CoercionError} (h : toBoolean v key = .error e) :
    ∃ r, e = .rejected r ∧ r.Refuses key v := by
  unfold toBoolean at h
  split at h
  · cases h
  · dsimp only at h
    split at h
    · cases h
    split at h
    · cases h
    cases h
    exact refuse_eq .invalidBoolean
  · cases h
    exact refuse_eq .invalidBoolean

/-- A value that is rejected is rejected as one of the column. -/
theorem scalar_rejected (h : scalar c v = .error (.rejected r)) : r.Refuses c.key v := by
  unfold scalar at h
  split at h
  · obtain ⟨_, heq, hr⟩ := toId_error (map_error_iff.mp h)
    cases heq
    exact hr
  · obtain ⟨_, heq, hr⟩ := toNumber_error h
    cases heq
    exact hr
  · exact toMoment_rejected (map_error_iff.mp h)
  · obtain ⟨_, heq, hr⟩ := toBoolean_error (map_error_iff.mp h)
    cases heq
    exact hr
  · cases h
  · cases h

/-- A value is refused without a reason for the caller just if it leaves the calendar in a column of
dates. -/
theorem scalar_outOfCalendar :
    scalar c v = .error .outOfCalendar ↔ c.dataType = .date ∧ LeavesCalendar v := by
  unfold scalar
  split
  · next ht =>
    rw [map_error_iff, ht]
    refine ⟨fun h => ?_, nofun⟩
    obtain ⟨_, heq, -⟩ := toId_error h
    cases heq
  · next ht =>
    rw [ht]
    refine ⟨fun h => ?_, nofun⟩
    obtain ⟨_, heq, -⟩ := toNumber_error h
    cases heq
  · next ht =>
    rw [map_error_iff, toMoment_outOfCalendar, ht]
    simp only [true_and]
  · next ht =>
    rw [map_error_iff, ht]
    refine ⟨fun h => ?_, nofun⟩
    obtain ⟨_, heq, -⟩ := toBoolean_error h
    cases heq
  · next ht =>
    rw [ht]
    exact ⟨nofun, nofun⟩
  · next ht =>
    rw [ht]
    exact ⟨nofun, nofun⟩

/-! ## All values of a filter -/

/-- The value has both bounds of a range. -/
def hasBounds (v : Value) : Bool :=
  (v.fields.get? "from").isSome && (v.fields.get? "to").isSome

/-- The single values that an operator takes: none, both bounds of a range, the items of a list, or
the value itself. -/
def operands (op : Operator) (v : Value) : List Value :=
  match op with
  | .isNull | .isNotNull => []
  | .between =>
    match v.fields.get? "from", v.fields.get? "to" with
    | some low, some high => [low, high]
    | _, _ => []
  | .isIn | .notIn => Validation.comparedValues v
  | _ => [v]

/-- What an operator takes of a value can be printed if the value can. -/
theorem isPrintable_operands (h : v.isPrintable = true) :
    ∀ w ∈ operands op v, w.isPrintable = true := by
  cases op with
  | isNull | isNotNull => exact List.forall_mem_nil _
  | between =>
    unfold operands
    dsimp only
    split
    · next low high hlow hhigh =>
      have hbounds := And.intro (Value.isPrintable_get? h hlow) (Value.isPrintable_get? h hhigh)
      simpa using hbounds
    · exact List.forall_mem_nil _
  | isIn | notIn =>
    cases v with
    | list items => exact Value.isPrintable_list.mp h
    | _ => exact List.forall_mem_singleton.mpr h
  | _ => exact List.forall_mem_singleton.mpr h

/-- Stored forms can be printed if the values that they are of can. -/
theorem isPrintable_scalar {w : Value} (hv : v.isPrintable = true) (h : scalar c v = .ok w) :
    w.isPrintable = true := by
  unfold scalar at h
  split at h
  · obtain ⟨i, -, rfl⟩ := map_ok_iff.mp h
    rfl
  · rcases toNumber_ok h with ⟨n, rfl, hword⟩ | ⟨x, rfl, -⟩
    · exact Number.isPrintable_of_isWord hword
    · rfl
  · obtain ⟨t, -, rfl⟩ := map_ok_iff.mp h
    rfl
  · obtain ⟨t, -, rfl⟩ := map_ok_iff.mp h
    rfl
  all_goals
    cases h
    exact hv

theorem value_between {low high : Value} (hlow : v.fields.get? "from" = some low)
    (hhigh : v.fields.get? "to" = some high) :
    ∃ make, value c .between v = ([low, high].mapM (scalar c)).map make := by
  refine ⟨fun ws => .object [("from", ws.head?.getD .null), ("to", ws.getLast?.getD .null)], ?_⟩
  rw [List.mapM_cons, List.mapM_cons, List.mapM_nil]
  simp only [value, hlow, hhigh]
  cases scalar c low with
  | error e => rfl
  | ok low =>
    cases scalar c high with
    | error e => rfl
    | ok high => rfl

theorem value_comparedValues (hop : op.takesList = true) :
    value c op v = ((Validation.comparedValues v).mapM (scalar c)).map .list := by
  have hone : (scalar c v).map (fun w => Value.list [w]) = ([v].mapM (scalar c)).map .list := by
    rw [List.mapM_cons, List.mapM_nil]
    cases scalar c v <;> rfl
  cases op with
  | isIn | notIn =>
    cases v with
    | list items => rfl
    | _ => exact hone
  | _ => cases hop

/-- The stored form of what an operator takes is made of the stored forms of its operands. -/
theorem value_operands (h : op = .between → hasBounds v = true) :
    ∃ make, value c op v = ((operands op v).mapM (scalar c)).map make := by
  have hone : ∃ make, scalar c v = ([v].mapM (scalar c)).map make := by
    refine ⟨fun ws => ws.head?.getD .null, ?_⟩
    rw [List.mapM_cons, List.mapM_nil]
    cases scalar c v <;> rfl
  cases op with
  | isNull | isNotNull => exact ⟨fun _ => .null, rfl⟩
  | between =>
    obtain ⟨hlow, hhigh⟩ := Bool.and_eq_true_iff.mp (h rfl)
    obtain ⟨low, hlow⟩ := Option.isSome_iff_exists.mp hlow
    obtain ⟨high, hhigh⟩ := Option.isSome_iff_exists.mp hhigh
    simp only [operands, hlow, hhigh]
    exact value_between hlow hhigh
  | isIn | notIn => exact ⟨_, value_comparedValues rfl⟩
  | _ => exact hone

theorem value_unbounded (h : hasBounds v = false) :
    value c .between v = .error (.rejected (.noRange c.key)) := by
  unfold value
  dsimp only
  split
  · next hlow hhigh => simp [hasBounds, hlow, hhigh] at h
  · rfl

theorem operands_unbounded (h : hasBounds v = false) : operands .between v = [] := by
  unfold operands
  dsimp only
  split
  · next hlow hhigh => simp [hasBounds, hlow, hhigh] at h
  · rfl

/-! ## Values that are not refused as the caller's -/

/-- The first of the values that is refused leaves the calendar. -/
def FirstRefusedLeaves (c : Column) (vs : List Value) : Prop :=
  c.dataType = .date ∧ ∃ before v after, vs = before ++ v :: after ∧
    (∀ w ∈ before, Accepted c w) ∧ LeavesCalendar v

theorem mapM_outOfCalendar {vs : List Value} :
    vs.mapM (scalar c) = .error .outOfCalendar ↔ FirstRefusedLeaves c vs := by
  simp only [mapM_error_iff, scalar_outOfCalendar, FirstRefusedLeaves, Accepted]
  constructor
  · rintro ⟨before, w, after, hvs, hbefore, ht, hleaves⟩
    exact ⟨ht, before, w, after, hvs, hbefore, hleaves⟩
  · rintro ⟨ht, before, w, after, hvs, hbefore, hleaves⟩
    exact ⟨before, w, after, hvs, hbefore, ht, hleaves⟩

/-- **A bad value of a filter is the caller's error, unless it leaves the calendar.** For every
column, operator and value there is a stored form, or a reason to refuse the value that names the
column; but if the column holds dates and the first operand without a stored form is a moment outside
the years 1 to 9999 in universal time, there is neither. No reason can be worded for a value with an
integer too long to be printed; all others that have to be refused have one. -/
theorem refused_as_callers_unless_out_of_calendar (c : Column) (op : Operator) (v : Value) :
    (¬FirstRefusedLeaves c (operands op v) → (∃ w, value c op v = .ok w) ∨
      ∃ r, value c op v = .error (.rejected r) ∧ (r = .noRange c.key ∨ r.Refuses c.key v)) ∧
    (FirstRefusedLeaves c (operands op v) → value c op v = .error .outOfCalendar) := by
  by_cases hrange : op = .between → hasBounds v = true
  · obtain ⟨make, hvalue⟩ := value_operands (c := c) hrange
    rw [hvalue]
    constructor
    · intro hstays
      cases hm : (operands op v).mapM (scalar c) with
      | ok ws => exact .inl ⟨_, rfl⟩
      | error e =>
        cases e with
        | rejected r =>
          obtain ⟨before, x, after, hall, -, hx⟩ := mapM_error_iff.mp hm
          have hoperand : x ∈ operands op v := hall ▸ List.mem_append_cons_self
          refine .inr ⟨r, rfl, .inr ((scalar_rejected hx).imp_right fun ⟨hr, hlong⟩ => ⟨hr, ?_⟩)⟩
          by_contra hv
          rw [isPrintable_operands (eq_true_of_ne_false hv) x hoperand] at hlong
          cases hlong
        | outOfCalendar => exact absurd (mapM_outOfCalendar.mp hm) hstays
    · intro hleaves
      rw [mapM_outOfCalendar.mpr hleaves]
      rfl
  · simp only [Classical.not_imp, Bool.not_eq_true] at hrange
    obtain ⟨rfl, hunbounded⟩ := hrange
    rw [value_unbounded hunbounded, operands_unbounded hunbounded]
    refine ⟨fun _ => .inr ⟨_, rfl, .inl rfl⟩, ?_⟩
    rintro ⟨-, before, w, after, hnil, -⟩
    cases before <;> cases hnil

/-- The start of year 1, told by a clock that is an hour ahead of universal time, has no stored form
and is not refused as the caller's. -/
theorem start_of_calendar_neither_stored_nor_refused :
    ∃ c, Audit.catalog.column? "startDate" = some c ∧
      (¬∃ w, value c .eq (.text "0001-01-01T00:00:00+01:00") = .ok w) ∧
      ¬∃ r, value c .eq (.text "0001-01-01T00:00:00+01:00") = .error (.rejected r) := by
  obtain ⟨c, hc⟩ : ∃ c, Audit.catalog.column? "startDate" = some c := ⟨_, rfl⟩
  have hvalue : (Audit.catalog.column? "startDate").map (fun c =>
      value c .eq (.text "0001-01-01T00:00:00+01:00")) = some (.error .outOfCalendar) := rfl
  rw [hc, Option.map_some, Option.some.injEq] at hvalue
  refine ⟨c, hc, ?_, ?_⟩
  · rw [hvalue]
    nofun
  · rw [hvalue]
    nofun

end Coercion

end AuditReport
