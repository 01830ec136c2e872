import AuditReport.Proofs.FilterPlacement
import AuditReport.Request.Validation

/-! The shape of matches. Of an accepted filter, nothing but scalars and texts gets into the query:
every object and every list in a match is one that the query builder makes itself. -/

namespace AuditReport

open Fallible

namespace Condition

/-- The tests that a clause may make of a field. All that they hold besides their own names are
scalars, flat lists of scalars, and the text of a pattern. -/
inductive IsTest : Value → Prop
  | scalar {v : Value} : v.isScalar = true → IsTest v
  | comparison {name : String} {v : Value} : name ∈ ["$ne", "$gt", "$gte", "$lt", "$lte"] →
      v.isScalar = true → IsTest (.object [(name, v)])
  | range {low high : Value} : low.isScalar = true → high.isScalar = true →
      IsTest (.object [("$gte", low), ("$lte", high)])
  | membership {name : String} {vs : List Value} : name ∈ ["$in", "$nin"] →
      (∀ v ∈ vs, v.isScalar = true) → IsTest (.object [(name, .list vs)])
  | pattern (s : String) : IsTest (.object [("$regex", .text s), ("$options", .text "i")])

/-- The conditions that a filter may put on a column: a test of its path, or one test of each of
the stored fields behind it. -/
inductive IsConditionOn (c : Column) : Document → Prop
  | plain {t : Value} : c.isVirtual = false → IsTest t → IsConditionOn c [(c.path, t)]
  | virtual {t : Value} : c.isVirtual = true → IsTest t →
      IsConditionOn c [("$or", .list (c.virtualPaths.map fun path => .object [(path, t)]))]

end Condition

/-! ## Coerced values -/

namespace Coercion

/-- A number that the store can hold is an integer of 64 bits or a finite double. -/
theorem toNumber_ok {v w : Value} {key : String} (h : toNumber v key = .ok w) :
    (∃ n, w = .int n ∧ Number.isWord n = true) ∨ ∃ x, w = .float x ∧ Number.isFinite x = true := by
  have hcheck : ∀ x, checkNumber v key x = .ok w →
      (∃ n, w = .int n ∧ Number.isWord n = true) ∨
        ∃ y, w = .float y ∧ Number.isFinite y = true := by
    intro x hx
    unfold checkNumber at hx
    split at hx
    · split at hx
      · next hword =>
        cases hx
        exact .inl ⟨_, rfl, hword⟩
      · cases hx
    · split at hx
      · next hfinite =>
        cases hx
        exact .inr ⟨_, rfl, hfinite⟩
      · cases hx
    · cases hx
  unfold toNumber at h
  split at h <;> exact hcheck _ h

/-- Only texts and fixed values are taken as they are. What is made for a column of any other type
is a scalar. -/
theorem scalar_ok {c : Column} {v w : Value} (h : scalar c v = .ok w) :
    w.isScalar = true ∨ (w = v ∧ (c.dataType = .string ∨ c.dataType = .enumeration)) := by
  unfold scalar at h
  split at h
  · obtain ⟨i, -, rfl⟩ := map_ok_iff.mp h
    exact .inl rfl
  · rcases toNumber_ok h with ⟨n, rfl, -⟩ | ⟨x, rfl, -⟩ <;> exact .inl rfl
  · obtain ⟨t, -, rfl⟩ := map_ok_iff.mp h
    exact .inl rfl
  · obtain ⟨t, -, rfl⟩ := map_ok_iff.mp h
    exact .inl rfl
  · rename_i ht
    exact .inr ⟨(Except.ok.inj h).symm, .inl ht⟩
  · rename_i ht
    exact .inr ⟨(Except.ok.inj h).symm, .inr ht⟩

theorem scalar_of_scalar {c : Column} {v w : Value} (hv : v.isScalar = true)
    (h : scalar c v = .ok w) : w.isScalar = true := by
  rcases scalar_ok h with hw | ⟨rfl, -⟩
  · exact hw
  · exact hv

end Coercion

/-! ## Accepted filters -/

namespace Validation

/-- The values that an operator takes, ranges aside: a scalar, or a list of scalars if it takes
lists. -/
inductive IsFlat (operator : Operator) : Value → Prop
  | one {v : Value} : v.isScalar = true → IsFlat operator v
  | many {vs : List Value} : operator.takesList = true → (∀ v ∈ vs, v.isScalar = true) →
      IsFlat operator (.list vs)

theorem isFlat_of_checkShape {operator : Operator} {key : String} {v : Value}
    (hop : operator ≠ .between) (h : checkShape operator key v = .ok ()) : IsFlat operator v := by
  cases v with
  | null => cases h
  | object fields =>
    simp only [checkShape, hop, if_false] at h
    cases h
  | list items =>
    simp only [checkShape, hop, if_false] at h
    split at h
    · cases h
    · rename_i ht
      split at h
      · cases h
      · split at h
        · rename_i hall
          refine .many (by simpa using ht) fun v hv => ?_
          have hitem := List.all_eq_true.mp hall v hv
          cases v with
          | null => cases hitem
          | _ => exact hitem
        · cases h
  | _ => exact .one rfl

theorem IsFlat.scalar {operator : Operator} {v : Value} (h : IsFlat operator v)
    (ht : operator.takesList = false) : v.isScalar = true := by
  cases h with
  | one hv => exact hv
  | many hl _ => rw [ht] at hl; cases hl

theorem checkFilter_ok {catalog : Catalog} {f : Filter} (h : checkFilter catalog f = .ok ()) :
    ∃ c, catalog.column? f.column = some c ∧ f.operator ∈ c.operators ∧
      (f.operator.isValueless = true ∨ checkShape f.operator c.key f.value = .ok ()) := by
  obtain ⟨c, hc, h⟩ := bind_ok_iff.mp h
  refine ⟨c, ?_, ?_⟩
  · unfold requireColumn at hc
    split at hc
    · rename_i hfound
      cases hc
      exact hfound
    · cases hc
  · dsimp only at h
    split at h
    · cases h
    · split at h
      · cases h
      · rename_i hop
        refine ⟨by simpa using hop, ?_⟩
        split at h
        · rename_i hv
          exact .inl hv
        · obtain ⟨⟨⟩, hs, -⟩ := bind_ok_iff.mp h
          exact .inr hs

end Validation

/-! ## Conditions of accepted filters -/

namespace Condition

open Validation

/-- The operators by what they take: nothing, a range, a list, or one value. -/
theorem operator_cases (op : Operator) : op.isValueless = true ∨ op = .between ∨
    op.takesList = true ∨ (op.isValueless = false ∧ op ≠ .between ∧ op.takesList = false) := by
  cases op <;> simp [Operator.isValueless, Operator.takesList]

theorem isTest_valueless {c : Column} {op : Operator} {v w t : Value}
    (hop : op.isValueless = true) (h : Coercion.value c op v = .ok w) (ht : test op w = .ok t) :
    IsTest t := by
  cases op with
  | isNull => cases h; cases ht; exact .scalar rfl
  | isNotNull => cases h; cases ht; exact .comparison (by decide) rfl
  | _ => cases hop

/-- Ranges are asked for only of numbers and dates, so that both bounds are coerced. -/
theorem isTest_between {c : Column} {v w t : Value} (hop : Operator.between ∈ c.dataType.operators)
    (h : Coercion.value c .between v = .ok w) (ht : test .between w = .ok t) : IsTest t := by
  have hbound : ∀ {x y}, Coercion.scalar c x = .ok y → y.isScalar = true := by
    intro x y hxy
    rcases Coercion.scalar_ok hxy with hy | ⟨-, ht | ht⟩
    · exact hy
    · rw [ht] at hop; exact absurd hop (by decide)
    · rw [ht] at hop; exact absurd hop (by decide)
  unfold Coercion.value at h
  dsimp only at h
  split at h
  · obtain ⟨low, hlow, h⟩ := bind_ok_iff.mp h
    obtain ⟨high, hhigh, h⟩ := bind_ok_iff.mp h
    cases h
    cases ht
    exact .range (hbound hlow) (hbound hhigh)
  · cases h

theorem value_one {c : Column} {op : Operator} {v : Value} (hop : op.takesList = true)
    (hv : v.isScalar = true) :
    Coercion.value c op v = (Coercion.scalar c v).map fun w => .list [w] := by
  cases op with
  | isIn | notIn =>
    cases v with
    | list | object => cases hv
    | _ => rfl
  | _ => cases hop

theorem value_many {c : Column} {op : Operator} {vs : List Value} (hop : op.takesList = true) :
    Coercion.value c op (.list vs) = (vs.mapM (Coercion.scalar c)).map .list := by
  cases op with
  | isIn | notIn => rfl
  | _ => cases hop

theorem isTest_list {c : Column} {op : Operator} {v w t : Value} (hop : op.takesList = true)
    (hv : IsFlat op v) (h : Coercion.value c op v = .ok w) (ht : test op w = .ok t) :
    IsTest t := by
  have hlist : ∃ ws, w = .list ws ∧ ∀ x ∈ ws, x.isScalar = true := by
    cases hv with
    | one hv =>
      rw [value_one hop hv] at h
      obtain ⟨x, hx, rfl⟩ := map_ok_iff.mp h
      exact ⟨[x], rfl, List.forall_mem_singleton.mpr (Coercion.scalar_of_scalar hv hx)⟩
    | many _ hvs =>
      rw [value_many hop] at h
      obtain ⟨ws, hws, rfl⟩ := map_ok_iff.mp h
      refine ⟨ws, rfl, fun x hx => ?_⟩
      obtain ⟨y, hy, hyx⟩ := (mem_of_mapM_ok hws).mp hx
      exact Coercion.scalar_of_scalar (hvs y hy) hyx
  obtain ⟨ws, rfl, hws⟩ := hlist
  cases op with
  | isIn => cases ht; exact .membership (by decide) hws
  | notIn => cases ht; exact .membership (by decide) hws
  | _ => cases hop

theorem value_single {c : Column} {op : Operator} {v : Value} (hn : op.isValueless = false)
    (hb : op ≠ .between) (hl : op.takesList = false) :
    Coercion.value c op v = Coercion.scalar c v := by
  cases op with
  | isNull | isNotNull => cases hn
  | between => exact absurd rfl hb
  | isIn | notIn => cases hl
  | _ => rfl

theorem isTest_single {op : Operator} {w t : Value} (hb : op ≠ .between) (hl : op.takesList = false)
    (hw : w.isScalar = true) (ht : test op w = .ok t) : IsTest t := by
  cases op with
  | between => exact absurd rfl hb
  | isIn | notIn => cases hl
  | eq | isNull => cases ht; exact .scalar hw
  | contains | startsWith | endsWith =>
    obtain ⟨p, -, rfl⟩ := map_ok_iff.mp ht
    exact .pattern _
  | _ => cases ht; exact .comparison (by decide) hw

/-- On a column that holds its value itself, an accepted filter makes a test of the listed forms. -/
theorem isTest_of_value {c : Column} {op : Operator} {key : String} {v w t : Value}
    (hop : op ∈ c.dataType.operators)
    (hv : op.isValueless = true ∨ checkShape op key v = .ok ())
    (h : Coercion.value c op v = .ok w) (ht : test op w = .ok t) : IsTest t := by
  rcases operator_cases op with hn | rfl | hl | ⟨hn, hb, hl⟩
  · exact isTest_valueless hn h ht
  · exact isTest_between hop h ht
  · have hn : ¬op.isValueless = true := by
      cases op with
      | isIn | notIn => nofun
      | _ => cases hl
    have hv := isFlat_of_checkShape (by rintro rfl; cases hl) (hv.resolve_left hn)
    exact isTest_list hl hv h ht
  · rw [hn] at hv
    have hv := isFlat_of_checkShape hb (hv.resolve_left nofun)
    rw [value_single hn hb hl] at h
    exact isTest_single hb hl (Coercion.scalar_of_scalar (hv.scalar hl) h) ht

/-- On a virtual column nothing is coerced, and the shape of the value alone decides. -/
theorem isTest_virtual {c : Column} {op : Operator} {key : String} {v t : Value}
    (hop : op ∈ virtualOperators) (hv : op.isValueless = true ∨ checkShape op key v = .ok ())
    (h : virtualTest c op v = .ok t) : IsTest t := by
  have hflat : IsFlat op v := by
    have hne : op.isValueless = false ∧ op ≠ .between := by
      revert hop; cases op <;> decide
    rw [hne.1] at hv
    exact isFlat_of_checkShape hne.2 (hv.resolve_left nofun)
  cases op with
  | eq => cases h; exact .scalar (hflat.scalar rfl)
  | contains =>
    obtain ⟨p, -, rfl⟩ := map_ok_iff.mp h
    exact .pattern _
  | isIn =>
    cases hflat with
    | one hs =>
      have ht : t = comparison "$in" (.list [v]) := by
        cases v with
        | list | object => cases hs
        | _ => cases h; rfl
      rw [ht]
      exact .membership (by decide) (List.forall_mem_singleton.mpr hs)
    | many _ hvs => cases h; exact .membership (by decide) hvs
  | _ => cases h

/-- What an accepted filter puts on its column is one of the listed conditions. -/
theorem isConditionOn_of_checkFilter {catalog : Catalog} {f : Filter} {c : Column} {d : Document}
    (hf : checkFilter catalog f = .ok ()) (hc : catalog.column? f.column = some c)
    (h : ofFilter c f = .ok d) : IsConditionOn c d := by
  obtain ⟨c', hc', hop, hv⟩ := checkFilter_ok hf
  rw [hc] at hc'
  cases hc'
  have hop := catalog.operators_admissible (Catalog.column?_some hc).1 f.operator hop
  unfold Column.admissible at hop
  unfold ofFilter at h
  split at h
  · rename_i hvirtual
    rw [if_pos hvirtual] at hop
    obtain ⟨t, ht, rfl⟩ := map_ok_iff.mp h
    exact .virtual hvirtual (isTest_virtual hop hv ht)
  · rename_i hplain
    rw [if_neg hplain] at hop
    obtain ⟨t, ht, rfl⟩ := map_ok_iff.mp h
    obtain ⟨w, hw, ht⟩ := bind_ok_iff.mp ht
    exact .plain (by simpa using hplain) (isTest_of_value hop hv hw ht)

theorem IsConditionOn.nodup {c : Column} {d : Document} (h : IsConditionOn c d) :
    (d.map Prod.fst).Nodup := by
  cases h <;> simp

end Condition

namespace Blueprint

open Condition

variable {b : Blueprint}

/-- The match of a stage asks for the archive flag and conditions of filters, and nothing else. -/
theorem conditions_of_match {q : ReportQuery} {p : Pipeline} {m : Document}
    (hbuilt : b.buildPage q = .ok p ∨ ∃ columns, b.buildExport q columns = .ok p)
    (hm : m ∈ p.stages.filterMap Stage.match?) :
    ∃ ds, (m = merge ds ∨ m = [("$and", .list (ds.map .object))]) ∧
      ∀ d ∈ ds, d = notArchived ∨ ∃ f ∈ q.filters, b.condition f = .ok d := by
  obtain ⟨extra, terminal, hterminal, hb⟩ := build_of_page_or_export hbuilt
  obtain ⟨rs, preStages, postStages, hrs, hpre, hpost, hstages⟩ := stages_ok (build_ok hb)
  have hside : ∀ (side : Bool → Bool) cs,
      conditions (rs.filter fun r => side r.1.needsJoin) = .ok cs →
      ∀ d ∈ cs, ∃ f ∈ q.filters, b.condition f = .ok d := by
    intro side cs hcs d hd
    obtain ⟨f, hf, hfd⟩ := (mem_of_mapM_ok ((conditions_filter side hrs).symm.trans hcs)).mp hd
    exact ⟨f, List.mem_of_mem_filter hf, hfd⟩
  obtain ⟨s, hs, hsm⟩ := List.mem_filterMap.mp hm
  simp only [hstages, List.mem_append] at hs
  rcases hs with ((hs | hs) | hs) | hs
  · obtain ⟨cs, hcs, ⟨-, rfl⟩ | rfl⟩ := preMatch_ok hpre
    · cases hs
    · obtain rfl := List.mem_singleton.mp hs
      refine ⟨_, .inl (Option.some.inj hsm).symm, fun d hd => ?_⟩
      rcases List.mem_append.mp hd with hd | hd
      · split at hd
        · exact .inl (List.mem_singleton.mp hd)
        · cases hd
      · exact .inr (hside not cs hcs d hd)
  · rcases phase_of_mem_joinStages hs with ⟨j, rfl⟩ | ⟨name, rfl⟩ <;> cases hsm
  · obtain ⟨cs, hcs, ⟨-, rfl⟩ | rfl⟩ := postMatch_ok hpost
    · cases hs
    · obtain rfl := List.mem_singleton.mp hs
      exact ⟨cs, .inr (Option.some.inj hsm).symm, fun d hd => .inr (hside id cs hcs d hd)⟩
  · rcases List.mem_cons.mp hs with rfl | hs
    · cases hsm
    · rw [List.mem_singleton.mp hs, hterminal] at hsm
      cases hsm

/-- **No injection.** If a request's filters are accepted and its query is built, each of them puts
one of the listed conditions on its column, and every match of the query, as the store takes it, is
made of these conditions and of the archive flag alone. -/
theorem accepted_filters_only_test_scalars {q : ReportQuery} {p : Pipeline}
    (haccepted : q.filters.forM (Validation.checkFilter b.catalog) = .ok ())
    (hbuilt : b.buildPage q = .ok p ∨ ∃ columns, b.buildExport q columns = .ok p) :
    (∀ f ∈ q.filters, ∃ c d, b.catalog.column? f.column = some c ∧
      Condition.ofFilter c f = .ok d ∧ IsConditionOn c d) ∧
    ∀ m, .object [("$match", .object m)] ∈ p.toValues →
      ∃ ds : List Document, (m = ds.flatten ∨ m = [("$and", .list (ds.map .object))]) ∧
        ∀ d ∈ ds, d = [("is_archived", .bool false)] ∨
          ∃ f ∈ q.filters, ∃ c, b.catalog.column? f.column = some c ∧
            Condition.ofFilter c f = .ok d ∧ IsConditionOn c d := by
  have hshape : ∀ f ∈ q.filters, ∀ d, b.condition f = .ok d →
      ∃ c, b.catalog.column? f.column = some c ∧ Condition.ofFilter c f = .ok d ∧
        IsConditionOn c d := by
    intro f hf d hd
    obtain ⟨c, hc, hcd⟩ := condition_ok hd
    exact ⟨c, hc, hcd, isConditionOn_of_checkFilter (forM_ok_iff.mp haccepted f hf) hc hcd⟩
  constructor
  · intro f hf
    obtain ⟨d, hd⟩ := condition_of_build hbuilt f hf
    obtain ⟨c, hc⟩ := hshape f hf d hd
    exact ⟨c, d, hc⟩
  · intro m hm
    obtain ⟨s, hs, hsm⟩ := List.mem_map.mp hm
    obtain ⟨ds, hds, hall⟩ := conditions_of_match hbuilt
      (List.mem_filterMap.mpr ⟨s, hs, Stage.toValue_eq_match.mp hsm⟩)
    have hnodup : ∀ d ∈ ds, (d.map Prod.fst).Nodup := by
      intro d hd
      rcases hall d hd with rfl | ⟨f, hf, hfd⟩
      · simp [notArchived]
      · obtain ⟨c, -, -, hcond⟩ := hshape f hf d hfd
        exact hcond.nodup
    refine ⟨ds, ?_, fun d hd => ?_⟩
    · rcases hds with rfl | hand
      · exact merge_cases hnodup
      · exact .inr hand
    · rcases hall d hd with harchive | ⟨f, hf, hfd⟩
      · exact .inl harchive
      · exact .inr ⟨f, hf, hshape f hf d hfd⟩

/-- A list on a virtual column, where nothing is coerced, and a pattern with the text of an
operator. -/
theorem accepted_filters_only_test_scalars_virtual :
    ∃ p, Audit.blueprint.buildPage ⟨[⟨"otaId", .isIn, .list [.text "7", .int 8]⟩,
        ⟨"propertyName", .startsWith, .text "$where"⟩], [], 1, 25, false⟩ = .ok p ∧
      ∀ m, .object [("$match", .object m)] ∈ p.toValues →
        ∃ ds : List Document, (m = ds.flatten ∨ m = [("$and", .list (ds.map .object))]) ∧
          ∀ d ∈ ds, d = [("is_archived", .bool false)] ∨
            ∃ c ∈ Audit.catalog.columns, IsConditionOn c d := by
  obtain ⟨p, hp⟩ : ∃ p, Audit.blueprint.buildPage ⟨[⟨"otaId", .isIn, .list [.text "7", .int 8]⟩,
      ⟨"propertyName", .startsWith, .text "$where"⟩], [], 1, 25, false⟩ = .ok p := ⟨_, rfl⟩
  refine ⟨p, hp, fun m hm => ?_⟩
  obtain ⟨-, hmatches⟩ := accepted_filters_only_test_scalars rfl (.inl hp)
  obtain ⟨ds, hds, hall⟩ := hmatches m hm
  refine ⟨ds, hds, fun d hd => (hall d hd).imp_right ?_⟩
  rintro ⟨f, -, c, hc, -, hcond⟩
  exact ⟨c, (Catalog.column?_some hc).1, hcond⟩

end Blueprint

end AuditReport
