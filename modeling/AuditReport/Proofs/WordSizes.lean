import AuditReport.Proofs.DocumentFields
import AuditReport.Proofs.MatchShape
import AuditReport.Proofs.Readings

/-! The sizes of integers in queries. The store holds signed words of 64 bits. What is coerced keeps
to them; what is taken as it is given, and the count of rows before a page, need not. -/

namespace AuditReport

open Fallible

theorem Number.isWord_iff {n : Int} :
    isWord n = true ↔ -0x8000000000000000 ≤ n ∧ n < 0x8000000000000000 := by
  unfold isWord
  rw [Bool.and_eq_true, decide_eq_true_iff, decide_eq_true_iff]
  exact Iff.rfl

namespace Value

mutual

/-- Every integer anywhere in a value. -/
def integers : Value → List Int
  | int n => [n]
  | list items => itemIntegers items
  | object fields => fieldIntegers fields
  | _ => []

@[inherit_doc integers]
def itemIntegers : List Value → List Int
  | [] => []
  | v :: rest => integers v ++ itemIntegers rest

@[inherit_doc integers]
def fieldIntegers : List (String × Value) → List Int
  | [] => []
  | (_, v) :: rest => integers v ++ fieldIntegers rest

end

/-- All integers in a value are words. -/
def FitsWords (v : Value) : Prop := ∀ n ∈ v.integers, Number.isWord n = true

theorem fits_int {n : Int} : (int n).FitsWords ↔ Number.isWord n = true := by
  rw [FitsWords, integers, List.forall_mem_singleton]

@[simp] theorem fits_list {items : List Value} :
    (list items).FitsWords ↔ ∀ v ∈ items, v.FitsWords := by
  unfold FitsWords
  rw [integers]
  induction items with
  | nil => rw [itemIntegers]; simp
  | cons v rest ih => rw [itemIntegers, List.forall_mem_append, ih, List.forall_mem_cons]

@[simp] theorem fits_object {fields : List (String × Value)} :
    (object fields).FitsWords ↔ ∀ f ∈ fields, f.2.FitsWords := by
  unfold FitsWords
  rw [integers]
  induction fields with
  | nil => rw [fieldIntegers]; simp
  | cons f rest ih => rw [fieldIntegers, List.forall_mem_append, ih, List.forall_mem_cons]

@[simp] theorem fits_null : null.FitsWords := List.forall_mem_nil _

@[simp] theorem fits_bool (b : Bool) : (bool b).FitsWords := List.forall_mem_nil _

@[simp] theorem fits_float (x : Float) : (float x).FitsWords := List.forall_mem_nil _

@[simp] theorem fits_text (s : String) : (text s).FitsWords := List.forall_mem_nil _

@[simp] theorem fits_moment (t : Calendar.Moment) : (moment t).FitsWords := List.forall_mem_nil _

@[simp] theorem fits_id (i : DocumentId) : (id i).FitsWords := List.forall_mem_nil _

theorem fits_get {d : Document} (h : ∀ f ∈ d, f.2.FitsWords) (name : String) :
    (d.get name).FitsWords := by
  unfold Document.get Document.get?
  cases hf : d.find? (·.1 == name) with
  | none => exact fits_null
  | some f => exact h f (List.mem_of_find?_eq_some hf)

theorem fits_fields {v : Value} (h : v.FitsWords) : ∀ f ∈ v.fields, f.2.FitsWords := by
  cases v with
  | object fields => exact fits_object.mp h
  | _ => exact nofun

end Value

/-! ## Coerced values -/

/-- What a filter asks of the column is turned into the form in which the store holds it. -/
def Column.isCoerced (c : Column) : Bool :=
  !c.isVirtual && c.dataType != .string && c.dataType != .enumeration

/-- What the operator compares with stands in a condition as it is. -/
def Operator.keepsValue : Operator → Bool
  | eq | neq | isIn | notIn => true
  | _ => false

namespace Coercion

variable {c : Column} {op : Operator} {v w : Value}

theorem fits_scalar (hc : c.isCoerced = true) (h : scalar c v = .ok w) : w.FitsWords := by
  unfold scalar at h
  split at h
  · obtain ⟨i, -, rfl⟩ := map_ok_iff.mp h
    exact Value.fits_id i
  · rcases toNumber_ok h with ⟨n, rfl, hword⟩ | ⟨x, rfl, -⟩
    · exact Value.fits_int.mpr hword
    · exact Value.fits_float x
  · obtain ⟨t, -, rfl⟩ := map_ok_iff.mp h
    exact Value.fits_moment t
  · obtain ⟨t, -, rfl⟩ := map_ok_iff.mp h
    exact Value.fits_bool t
  · rename_i ht
    simp [Column.isCoerced, ht] at hc
  · rename_i ht
    simp [Column.isCoerced, ht] at hc

theorem fits_items {items : List Value} (hc : c.isCoerced = true)
    (h : (items.mapM (scalar c)).map Value.list = .ok w) : w.FitsWords := by
  obtain ⟨ws, hws, rfl⟩ := map_ok_iff.mp h
  refine Value.fits_list.mpr fun x hx => ?_
  obtain ⟨y, -, hy⟩ := (mem_of_mapM_ok hws).mp hx
  exact fits_scalar hc hy

theorem fits_item (hc : c.isCoerced = true)
    (h : ((scalar c v).map fun x => Value.list [x]) = .ok w) : w.FitsWords := by
  obtain ⟨x, hx, rfl⟩ := map_ok_iff.mp h
  exact Value.fits_list.mpr (List.forall_mem_singleton.mpr (fits_scalar hc hx))

theorem fits_value (hc : c.isCoerced = true) (h : value c op v = .ok w) : w.FitsWords := by
  unfold value at h
  split at h
  · cases h; exact Value.fits_null
  · cases h; exact Value.fits_null
  · split at h
    · obtain ⟨low, hlow, h⟩ := bind_ok_iff.mp h
      obtain ⟨high, hhigh, h⟩ := bind_ok_iff.mp h
      cases h
      simp [fits_scalar hc hlow, fits_scalar hc hhigh]
    · cases h
  · split at h
    · exact fits_items hc h
    · exact fits_item hc h
  · split at h
    · exact fits_items hc h
    · exact fits_item hc h
  · exact fits_scalar hc h

/-! ## Values as given -/

theorem scalar_as_given (hplain : c.isVirtual = false) (hc : c.isCoerced = false) (v : Value) :
    scalar c v = .ok v := by
  unfold scalar
  split <;> simp_all [Column.isCoerced]

/-- A value that is not coerced has the integers that it was given with. -/
theorem fits_value_as_given (hplain : c.isVirtual = false) (hc : c.isCoerced = false)
    (hop : op.keepsValue = true) (h : value c op v = .ok w) : w.FitsWords ↔ v.FitsWords := by
  have hscalar := scalar_as_given hplain hc
  have hitems (items : List Value) : items.mapM (scalar c) = .ok items := by
    rw [mapM_eq_map (g := id) fun v _ => hscalar v, List.map_id]
  cases op with
  | eq | neq => cases (hscalar v).symm.trans h; rfl
  | isIn | notIn =>
    unfold value at h
    dsimp only at h
    split at h
    · rw [hitems] at h
      cases h
      rfl
    · rw [hscalar] at h
      cases h
      simp
  | _ => cases hop

end Coercion

/-! ## Conditions -/

namespace Condition

variable {c : Column} {op : Operator} {v w t : Value} {f : Filter} {d : Document}

theorem fits_pattern (s : String) : (pattern s).FitsWords := by simp [pattern]

theorem fits_comparison {name : String} : (comparison name v).FitsWords ↔ v.FitsWords := by
  simp [comparison]

theorem fits_test (h : w.FitsWords) (ht : test op w = .ok t) : t.FitsWords := by
  cases op with
  | eq | isNull => cases ht; exact h
  | contains | startsWith | endsWith =>
    obtain ⟨p, -, rfl⟩ := map_ok_iff.mp ht
    exact fits_pattern _
  | between =>
    cases ht
    have hget := Value.fits_get (Value.fits_fields h)
    simp [hget]
  | _ => cases ht; exact fits_comparison.mpr h

theorem fits_test_iff (hop : op.keepsValue = true) (ht : test op w = .ok t) :
    t.FitsWords ↔ w.FitsWords := by
  cases op with
  | eq => cases ht; exact Iff.rfl
  | neq | isIn | notIn => cases ht; exact fits_comparison
  | _ => cases hop

/-- On a column of texts or fixed values, all other operators make patterns or ask for null. -/
theorem fits_test_of_text (hplain : c.isVirtual = false) (hc : c.isCoerced = false)
    (hadmissible : op ∈ c.dataType.operators) (hop : op.keepsValue = false)
    (h : Coercion.value c op v = .ok w) (ht : test op w = .ok t) : t.FitsWords := by
  have htype : c.dataType = .string ∨ c.dataType = .enumeration := by
    simp [Column.isCoerced, hplain] at hc
    exact or_iff_not_imp_left.mpr hc
  have hothers : op.isValueless = true ∨ op ∈ [.contains, .startsWith, .endsWith] := by
    revert hop hadmissible
    rcases htype with ht | ht <;> rw [ht] <;> cases op <;> decide
  cases op with
  | isNull | isNotNull => cases h; exact fits_test Value.fits_null ht
  | contains | startsWith | endsWith =>
    obtain ⟨p, -, rfl⟩ := map_ok_iff.mp ht
    exact fits_pattern _
  | _ => simp [Operator.isValueless] at hothers

theorem fits_virtualTest (h : virtualTest c op v = .ok t) :
    t.FitsWords ↔ (op.keepsValue = true → v.FitsWords) := by
  cases op with
  | eq => cases h; simp [Operator.keepsValue]
  | isIn =>
    cases h
    rw [fits_comparison]
    cases v <;> simp [Operator.keepsValue]
  | contains =>
    obtain ⟨p, -, rfl⟩ := map_ok_iff.mp h
    simp [Operator.keepsValue, fits_pattern]
  | _ => cases h

/-- A condition of an admissible operator holds integers that are no words only if its value is
neither coerced nor made a pattern of, and has such integers. -/
theorem fits_ofFilter (hop : f.operator ∈ c.admissible) (h : ofFilter c f = .ok d) :
    (Value.object d).FitsWords ↔
      (c.isCoerced = false → f.operator.keepsValue = true → f.value.FitsWords) := by
  unfold ofFilter at h
  unfold Column.admissible at hop
  cases hvirtual : c.isVirtual with
  | true =>
    rw [if_pos hvirtual] at h
    obtain ⟨t, ht, rfl⟩ := map_ok_iff.mp h
    obtain ⟨path, hpath⟩ : ∃ path, path ∈ c.virtualPaths := by
      cases hpaths : c.virtualPaths with
      | nil => simp [Column.isVirtual, hpaths] at hvirtual
      | cons path rest => exact ⟨path, List.mem_cons_self⟩
    have hc : c.isCoerced = false := by simp [Column.isCoerced, hvirtual]
    have hfields : (Value.object [("$or",
        .list (c.virtualPaths.map fun path => .object [(path, t)]))]).FitsWords ↔ t.FitsWords := by
      simp only [Value.fits_object, Value.fits_list, List.forall_mem_map, List.forall_mem_singleton]
      exact ⟨fun hall => hall path hpath, fun ht _ _ => ht⟩
    rw [hfields, fits_virtualTest ht]
    exact ⟨fun hfits _ => hfits, fun hfits => hfits hc⟩
  | false =>
    rw [if_neg (by simp [hvirtual])] at h hop
    obtain ⟨t, ht, rfl⟩ := map_ok_iff.mp h
    obtain ⟨w, hw, ht⟩ := bind_ok_iff.mp ht
    rw [Value.fits_object, List.forall_mem_singleton]
    cases hc : c.isCoerced with
    | true => exact ⟨fun _ => nofun, fun _ => fits_test (Coercion.fits_value hc hw) ht⟩
    | false =>
      cases hkeeps : f.operator.keepsValue with
      | true =>
        rw [fits_test_iff hkeeps ht, Coercion.fits_value_as_given hvirtual hc hkeeps hw]
        exact ⟨fun hfits _ _ => hfits, fun hfits => hfits rfl rfl⟩
      | false =>
        exact ⟨fun _ _ => nofun, fun _ => fits_test_of_text hvirtual hc hop hkeeps hw ht⟩

theorem ofFilter_single (h : ofFilter c f = .ok d) : ∃ clause, d = [clause] := by
  unfold ofFilter at h
  split at h
  · obtain ⟨t, -, rfl⟩ := map_ok_iff.mp h
    exact ⟨_, rfl⟩
  · obtain ⟨t, -, rfl⟩ := map_ok_iff.mp h
    exact ⟨_, rfl⟩

/-- Merging conditions adds no integers and drops none. -/
theorem fits_merge {cs : List Document} (hcs : ∀ d ∈ cs, ∃ clause, d = [clause]) :
    (Value.object (merge cs)).FitsWords ↔ ∀ d ∈ cs, (Value.object d).FitsWords := by
  have hnodup : ∀ d ∈ cs, (d.map Prod.fst).Nodup := by
    intro d hd
    obtain ⟨clause, rfl⟩ := hcs d hd
    exact List.nodup_singleton _
  rcases merge_cases hnodup with h | h
  · simp only [h, Value.fits_object, List.mem_flatten]
    exact ⟨fun hall d hd f hf => hall f ⟨d, hd, hf⟩, fun hall f ⟨d, hd, hf⟩ => hall d hd f hf⟩
  · rw [h, Value.fits_object, List.forall_mem_singleton, Value.fits_list, List.forall_mem_map]

end Condition

/-! ## Stages -/

namespace Stage

theorem fits_inclusion (paths : List String) : (inclusion paths).FitsWords := by
  simp only [inclusion, Value.fits_object, List.forall_mem_singleton]
  intro f hf
  obtain ⟨path, -, rfl⟩ := List.mem_map.mp (Document.mem_ofPairs hf)
  exact Value.fits_int.mpr (by decide)

theorem fits_sort {keys : List (String × Int)} (h : ∀ k ∈ keys, k.2 = 1 ∨ k.2 = -1) :
    (toValue (.sort keys)).FitsWords := by
  simp only [toValue, Value.fits_object, List.forall_mem_singleton]
  intro f hf
  obtain ⟨k, hk, rfl⟩ := List.mem_map.mp (Document.mem_ofPairs hf)
  refine Value.fits_int.mpr ?_
  rcases h k hk with h | h <;> rw [h] <;> decide

theorem fits_facet {skip limit : Int} {paths : List String} :
    (toValue (.facet skip limit paths)).FitsWords ↔
      Number.isWord skip = true ∧ Number.isWord limit = true := by
  simp [toValue, Value.fits_int, fits_inclusion]

theorem fits_preMatch {c : Document} :
    (toValue (.preMatch c)).FitsWords ↔ (Value.object c).FitsWords := by
  simp [toValue]

theorem fits_postMatch {cs : List Document} :
    (toValue (.postMatch cs)).FitsWords ↔ ∀ d ∈ cs, (Value.object d).FitsWords := by
  simp [toValue]

end Stage

/-! ## Queries -/

/-- All integers in a query, as the store takes it, are words. -/
def Pipeline.FitsWords (p : Pipeline) : Prop := ∀ v ∈ p.toValues, v.FitsWords

namespace Blueprint

variable {b : Blueprint} {q : ReportQuery} {p : Pipeline}

/-- The query holds the value of a filter as it was given. -/
def sendsAsGiven (b : Blueprint) (f : Filter) : Bool :=
  (b.catalog.column? f.column).any fun c => !c.isCoerced && f.operator.keepsValue

theorem direction_cases (ascending : Bool) : direction ascending = 1 ∨ direction ascending = -1 := by
  cases ascending <;> simp [direction]

theorem requestedSort_directions (b : Blueprint) (sort : List SortKey) :
    ∀ k ∈ b.requestedSort sort, k.2 = 1 ∨ k.2 = -1 := by
  unfold requestedSort
  refine List.foldlRecOn (motive := fun keys : List (String × Int) => ∀ k ∈ keys, k.2 = 1 ∨ k.2 = -1)
    sort _ (List.forall_mem_nil _) fun keys hkeys k _ => ?_
  split
  · split
    · exact List.forall_mem_append.mpr
        ⟨hkeys, List.forall_mem_singleton.mpr (direction_cases k.ascending)⟩
    · exact hkeys
  · exact hkeys

theorem sortKeys_directions (b : Blueprint) (sort : List SortKey) :
    ∀ k ∈ b.sortKeys sort, k.2 = 1 ∨ k.2 = -1 := by
  have hall : ∀ keys : List (String × Int), (∀ k ∈ keys, k.2 = 1 ∨ k.2 = -1) →
      ∀ k ∈ (if keys.any (·.1 == "_id") then keys
        else keys ++ [("_id", (keys.getLast?.map (·.2)).getD (-1))]), k.2 = 1 ∨ k.2 = -1 := by
    intro keys hkeys
    split
    · exact hkeys
    · refine List.forall_mem_append.mpr ⟨hkeys, List.forall_mem_singleton.mpr ?_⟩
      cases hlast : keys.getLast? with
      | none => exact .inr rfl
      | some k => exact hkeys k (List.mem_of_getLast? hlast)
  refine hall _ ?_
  split
  · exact List.forall_mem_singleton.mpr (.inr rfl)
  · exact b.requestedSort_directions sort

theorem condition_single {f : Filter} {d : Document} (h : b.condition f = .ok d) :
    ∃ clause, d = [clause] := by
  obtain ⟨c, -, hd⟩ := condition_ok h
  exact Condition.ofFilter_single hd

theorem fits_condition {f : Filter} {d : Document}
    (haccepted : Validation.checkFilter b.catalog f = .ok ()) (h : b.condition f = .ok d) :
    (Value.object d).FitsWords ↔ (b.sendsAsGiven f = true → f.value.FitsWords) := by
  obtain ⟨c, hc, hop, -⟩ := Validation.checkFilter_ok haccepted
  rw [condition_of_column hc] at h
  have hadmissible := b.catalog.operators_admissible (Catalog.column?_some hc).1 _ hop
  rw [Condition.fits_ofFilter hadmissible h]
  simp [sendsAsGiven, hc]

theorem fits_pre {excluded : Bool} {rs : List (Column × Filter)} {stages : List Stage}
    (h : preMatch excluded rs = .ok stages) :
    ∃ cs, conditions rs = .ok cs ∧ ((∀ d ∈ cs, ∃ clause, d = [clause]) →
      ((∀ s ∈ stages, s.toValue.FitsWords) ↔ ∀ d ∈ cs, (Value.object d).FitsWords)) := by
  obtain ⟨cs, hcs, hstages⟩ := preMatch_ok h
  refine ⟨cs, hcs, fun hsingle => ?_⟩
  have harchive : ∀ d ∈ (if excluded then [notArchived] else []),
      (∃ clause, d = [clause]) ∧ (Value.object d).FitsWords := by
    cases excluded with
    | false => exact List.forall_mem_nil _
    | true => exact List.forall_mem_singleton.mpr ⟨⟨_, rfl⟩, by simp [notArchived]⟩
  rcases hstages with ⟨hnil, rfl⟩ | rfl
  · obtain ⟨-, rfl⟩ := List.append_eq_nil_iff.mp hnil
    exact iff_of_true (List.forall_mem_nil _) (List.forall_mem_nil _)
  · rw [List.forall_mem_singleton, Stage.fits_preMatch, Condition.fits_merge, List.forall_mem_append]
    · exact and_iff_right fun d hd => (harchive d hd).2
    · exact List.forall_mem_append.mpr ⟨fun d hd => (harchive d hd).1, hsingle⟩

theorem fits_post {rs : List (Column × Filter)} {stages : List Stage}
    (h : postMatch rs = .ok stages) :
    ∃ cs, conditions rs = .ok cs ∧
      ((∀ s ∈ stages, s.toValue.FitsWords) ↔ ∀ d ∈ cs, (Value.object d).FitsWords) := by
  obtain ⟨cs, hcs, ⟨rfl, rfl⟩ | rfl⟩ := postMatch_ok h
  · exact ⟨[], hcs, iff_of_true (List.forall_mem_nil _) (List.forall_mem_nil _)⟩
  · exact ⟨cs, hcs, by rw [List.forall_mem_singleton, Stage.fits_postMatch]⟩

theorem fits_joinStages (plan : JoinPlan) : ∀ s ∈ joinStages plan, s.toValue.FitsWords := by
  intro s hs
  rcases phase_of_mem_joinStages hs with ⟨j, rfl⟩ | ⟨name, rfl⟩ <;> simp [Stage.toValue]

/-- In the query of accepted filters, only values that are sent as given and the terminal stage can
hold integers that are no words. -/
theorem fits_build {extra : List String} {terminal : Stage}
    (haccepted : q.filters.forM (Validation.checkFilter b.catalog) = .ok ())
    (h : b.build q extra terminal = .ok p) :
    p.FitsWords ↔ terminal.toValue.FitsWords ∧
      ∀ f ∈ q.filters, b.sendsAsGiven f = true → f.value.FitsWords := by
  obtain ⟨rs, preStages, postStages, hrs, hpreStages, hpostStages, hstages⟩ := stages_ok (build_ok h)
  obtain ⟨pre, hpre, hpreFits⟩ := fits_pre hpreStages
  obtain ⟨post, hpost, hpostFits⟩ := fits_post hpostStages
  have hpre := (conditions_filter not hrs).symm.trans hpre
  have hpost := (conditions_filter id hrs).symm.trans hpost
  obtain ⟨all, hall⟩ := conditions_total hpre hpost
  have hsingle : ∀ d ∈ pre, ∃ clause, d = [clause] := by
    intro d hd
    obtain ⟨f, -, hf⟩ := (mem_of_mapM_ok hpre).mp hd
    exact condition_single hf
  have hfilters : (∀ d ∈ all, (Value.object d).FitsWords) ↔
      ∀ f ∈ q.filters, b.sendsAsGiven f = true → f.value.FitsWords := by
    have hfits {f : Filter} {d : Document} (hf : f ∈ q.filters) (hd : b.condition f = .ok d) :=
      fits_condition (forM_ok_iff.mp haccepted f hf) hd
    constructor
    · intro hwords f hf
      obtain ⟨d, hd⟩ := exists_of_mapM_ok hall f hf
      exact (hfits hf hd).mp (hwords d ((mem_of_mapM_ok hall).mpr ⟨f, hf, hd⟩))
    · intro hwords d hd
      obtain ⟨f, hf, hfd⟩ := (mem_of_mapM_ok hall).mp hd
      exact (hfits hf hfd).mpr (hwords f hf)
  rw [← hfilters, forall_conditions hall hpre hpost, ← hpreFits hsingle, ← hpostFits]
  have hsort := Stage.fits_sort (b.sortKeys_directions q.sort)
  have hjoins := fits_joinStages (JoinPlan.ofColumns b.catalog (b.referenced q.filters q.sort extra))
  simp only [Pipeline.FitsWords, Pipeline.toValues, List.forall_mem_map, hstages,
    List.forall_mem_append, List.forall_mem_cons, hsort, true_and]
  constructor
  · rintro ⟨⟨⟨hbefore, -⟩, hbehind⟩, hterminal, -⟩
    exact ⟨hterminal, hbefore, hbehind⟩
  · rintro ⟨hterminal, hbefore, hbehind⟩
    exact ⟨⟨⟨hbefore, hjoins⟩, hbehind⟩, hterminal, List.forall_mem_nil _⟩

/-- **Where integers leave the range of words.** In the query of an accepted request there are two
ways only: the count of rows before its page, and values of filters that ask a virtual column, or one
of texts or fixed values, for equality or membership. All other integers are words: what is coerced,
the bounds of ranges, the size of a page, and the directions of sort keys. -/
theorem oversized_integers_sent_iff
    (haccepted : Validation.check b.catalog q.filters q.sort = .ok ()) :
    (∀ kind v p, ReportQuery.read kind v = .ok q → b.buildPage q = .ok p →
      (p.FitsWords ↔ Number.isWord q.skip = true ∧
        ∀ f ∈ q.filters, b.sendsAsGiven f = true → f.value.FitsWords)) ∧
    ∀ columns p, b.buildExport q columns = .ok p →
      (p.FitsWords ↔ ∀ f ∈ q.filters, b.sendsAsGiven f = true → f.value.FitsWords) := by
  obtain ⟨⟨⟩, hfilters, -⟩ := bind_ok_iff.mp haccepted
  constructor
  · intro kind v p hread hp
    obtain ⟨hleast, hgreatest⟩ := ReportQuery.limit_of_read hread
    have hlimit : Number.isWord q.limit = true := by
      rw [Number.isWord_iff]
      omega
    rw [fits_build hfilters hp, Stage.fits_facet]
    exact and_congr_left fun _ => and_iff_left hlimit
  · intro columns p hp
    rw [fits_build hfilters hp]
    exact and_iff_right (Stage.fits_inclusion _)

/-- A small integer that is compared with a text, on the second page. -/
theorem oversized_integers_sent_iff_small :
    ∃ p, Audit.blueprint.buildPage ⟨[⟨"propertyName", .eq, .int 7⟩], [], 2, 25, false⟩ = .ok p ∧
      p.FitsWords := by
  obtain ⟨p, hp⟩ : ∃ p, Audit.blueprint.buildPage
      ⟨[⟨"propertyName", .eq, .int 7⟩], [], 2, 25, false⟩ = .ok p := ⟨_, rfl⟩
  have hread : ReportQuery.read .notAnObject
      (.object [("filters", .list [.object
        [("column", .text "propertyName"), ("operator", .text "eq"), ("value", .int 7)]]),
        ("page", .int 2)]) = .ok ⟨[⟨"propertyName", .eq, .int 7⟩], [], 2, 25, false⟩ := by rfl
  obtain ⟨hpage, -⟩ := oversized_integers_sent_iff (b := Audit.blueprint)
    (q := ⟨[⟨"propertyName", .eq, .int 7⟩], [], 2, 25, false⟩) rfl
  refine ⟨p, hp, (hpage _ _ p hread hp).mpr ⟨by decide, ?_⟩⟩
  exact List.forall_mem_singleton.mpr fun _ => Value.fits_int.mpr (by decide)

/-- Two to the power of 63, compared with a text, and as the number of a page. -/
theorem oversized_integers_sent :
    (∃ q p, ReportQuery.read .notAnObject (.object [("filters", .list [.object
        [("column", .text "propertyName"), ("operator", .text "eq"),
          ("value", .int 0x8000000000000000)]])]) = .ok q ∧
      Validation.check Audit.catalog q.filters q.sort = .ok () ∧
      Audit.blueprint.buildPage q = .ok p ∧ ¬ p.FitsWords) ∧
    ∃ q p, ReportQuery.read .notAnObject
        (.object [("page", .int 0x8000000000000000), ("limit", .int 100)]) = .ok q ∧
      Validation.check Audit.catalog q.filters q.sort = .ok () ∧
      Audit.blueprint.buildPage q = .ok p ∧ ¬ p.FitsWords := by
  constructor
  · obtain ⟨p, hp⟩ : ∃ p, Audit.blueprint.buildPage
        ⟨[⟨"propertyName", .eq, .int 0x8000000000000000⟩], [], 1, 25, false⟩ = .ok p := ⟨_, rfl⟩
    refine ⟨_, p, rfl, rfl, hp, fun h => ?_⟩
    obtain ⟨-, hfilters⟩ := (fits_build rfl hp).mp h
    exact absurd (Value.fits_int.mp (hfilters _ (.head _) rfl)) (by decide)
  · obtain ⟨p, hp⟩ : ∃ p, Audit.blueprint.buildPage
        ⟨[], [], 0x8000000000000000, 100, false⟩ = .ok p := ⟨_, rfl⟩
    refine ⟨_, p, rfl, rfl, hp, fun h => ?_⟩
    obtain ⟨hterminal, -⟩ := (fits_build rfl hp).mp h
    exact absurd (Stage.fits_facet.mp hterminal).1 (by decide)

end Blueprint

end AuditReport
