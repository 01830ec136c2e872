import AuditReport.Proofs.FilterPlacement
import AuditReport.Proofs.PageTiling
import AuditReport.Proofs.RowReads
import AuditReport.Proofs.RowsAlone

/-! The archive flag and the providers of an audit, as conditions match them and as rows display
them. Conditions compare what is stored as it is. Rows take whatever is empty for a flag that is not
set, fold the case of providers and read them from lists alone. The two agree on some stored values
and not on others. -/

namespace AuditReport

open Condition Fallible

/-! ## Stored values -/

/-- A truth value or a text. -/
def Value.IsPlain (v : Value) : Prop := (∃ b, v = .bool b) ∨ ∃ s, v = .text s

namespace Document

/-- A field of a document meets a truth value or a text: it has this value, or is a list with such an
item. -/
def Meets (d : Document) (name : String) (v : Value) : Prop :=
  ∃ w, d.get? name = some w ∧ (w = v ∨ ∃ items, w = .list items ∧ v ∈ items)

variable {d : Document} {name : String} {v : Value}

theorem meets_iff (h : v.IsPlain) :
    d.Meets name v ↔ d.get name = v ∨ ∃ items, d.get name = .list items ∧ v ∈ items := by
  unfold Meets get
  cases d.get? name with
  | none => obtain ⟨b, rfl⟩ | ⟨s, rfl⟩ := h <;> simp
  | some w => simp

end Document

/-- How the store tells whether a field of a document holds a truth value or a text. The name of the
field has no dots, which would lead into objects. -/
def ComparesPlainly (store : Document → String → Value → Prop) : Prop :=
  ∀ d name v, '.' ∉ name.toList → v.IsPlain → (store d name v ↔ d.Meets name v)

/-- A stored archive flag that is read alike: what is empty is false itself, and no list has false
among its items. -/
def IsPlainFlag (v : Value) : Prop :=
  (v.isEmpty = true → v = .bool false) ∧ ∀ items, v = .list items → .bool false ∉ items

/-- A stored list of providers in which a provider is read alike: it is no text that names the
provider by itself, and a list that names it in any case has its own name among its items. -/
def NamesPlainly (p : String) (v : Value) : Prop :=
  v ≠ .text p ∧
    ∀ items, v = .list items → (∃ w ∈ items, Text.fold w.shown = p) → .text p ∈ items

variable {v : Value} {p : String}

theorem Value.isEmpty_of_mem {items : List Value} (h : v ∈ items) :
    (Value.list items).isEmpty = false := List.isEmpty_eq_false_iff.mpr (List.ne_nil_of_mem h)

/-- The flag as conditions match it and as rows display it. -/
theorem flag_alike_iff :
    ((v = .bool false ∨ ∃ items, v = .list items ∧ .bool false ∈ items) ↔ v.isEmpty = true) ↔
      IsPlainFlag v := by
  unfold IsPlainFlag
  constructor
  · intro halike
    refine ⟨fun hempty => ?_, ?_⟩
    · obtain hfalse | ⟨items, rfl, hmem⟩ := halike.mpr hempty
      · exact hfalse
      · cases hempty.symm.trans (Value.isEmpty_of_mem hmem)
    · rintro items rfl hmem
      cases (halike.mp (.inr ⟨items, rfl, hmem⟩)).symm.trans (Value.isEmpty_of_mem hmem)
  · rintro ⟨hfalse, hlist⟩
    constructor
    · rintro (rfl | ⟨items, hitems, hmem⟩)
      · rfl
      · exact absurd hmem (hlist items hitems)
    · exact fun hempty => .inl (hfalse hempty)

/-- A provider's own name is folded to itself. -/
theorem fold_provider (hp : p ∈ Audit.providers) : Text.fold (Value.text p).shown = p := by
  revert p
  decide

theorem provider_alike_iff (hp : p ∈ Audit.providers) :
    ((v = .text p ∨ ∃ items, v = .list items ∧ .text p ∈ items) ↔ p ∈ Row.providersOf v) ↔
      NamesPlainly p v := by
  rw [Row.mem_providersOf, and_iff_right hp]
  unfold NamesPlainly
  constructor
  · intro halike
    refine ⟨?_, ?_⟩
    · rintro rfl
      obtain ⟨items, hitems, -⟩ := halike.mp (.inl rfl)
      cases hitems
    · rintro items rfl hnamed
      obtain htext | ⟨_, hsame, hmem⟩ := halike.mpr ⟨items, rfl, hnamed⟩
      · cases htext
      · cases hsame
        exact hmem
  · rintro ⟨htext, hlist⟩
    constructor
    · rintro (hsame | ⟨items, hitems, hmem⟩)
      · exact absurd hsame htext
      · exact ⟨items, hitems, .text p, hmem, fold_provider hp⟩
    · rintro ⟨items, hitems, hnamed⟩
      exact .inr ⟨items, hitems, hlist items hitems hnamed⟩

/-! ## Conditions -/

theorem holds_plain {store : Document → String → Value → Prop} (hstore : ComparesPlainly store)
    {d : Document} {name : String} {v : Value} (hdots : '.' ∉ name.toList) (hname : name ≠ "$and")
    (hv : v.IsPlain) : Holds (store d) [(name, v)] ↔
      d.get name = v ∨ ∃ items, d.get name = .list items ∧ v ∈ items := by
  have hclause : Holds (store d) [(name, v)] ↔ store d name v := by
    obtain ⟨b, rfl⟩ | ⟨s, rfl⟩ := hv <;> simp only [Holds, ClauseHolds, if_neg hname, and_true]
  rw [hclause, hstore d name v hdots hv, Document.meets_iff hv]

namespace Blueprint

/-- The only match of a request without filters leaves archived audits out. -/
theorem default_satisfied (page limit : Int) :
    ∃ q, Audit.blueprint.buildPage ⟨[], [], page, limit, false⟩ = .ok q ∧
      ∀ truth, q.Satisfied truth ↔ Holds truth [("is_archived", .bool false)] := by
  obtain ⟨first, hfirst, hmatches⟩ : ∃ q,
      Audit.blueprint.buildPage ⟨[], [], 1, 1, false⟩ = .ok q ∧
        q.stages.filterMap Stage.match? = [notArchived] := ⟨_, rfl, rfl⟩
  -- The pages of a request have the same stages before the last one, which is no match.
  obtain ⟨e, he⟩ | ⟨shared, hshared⟩ := build_cases needsAllJoins_audit [] [] false
  · cases hfirst.symm.trans (he 1 1 [] _ rfl)
  · have hpage : ∀ page limit, ∃ q, Audit.blueprint.buildPage ⟨[], [], page, limit, false⟩ = .ok q ∧
        q.stages.filterMap Stage.match? = shared.filterMap Stage.match? := by
      intro page limit
      obtain ⟨q, hq, hstages⟩ := hshared page limit []
        (.facet ((page - 1) * limit) limit Audit.catalog.paths) rfl
      exact ⟨q, hq, by rw [hstages, List.filterMap_append, List.filterMap_cons_none rfl,
        List.filterMap_nil, List.append_nil]⟩
    obtain ⟨_, hsame, hfirstMatches⟩ := hpage 1 1
    cases hfirst.symm.trans hsame
    obtain ⟨q, hq, hqMatches⟩ := hpage page limit
    refine ⟨q, hq, fun truth => ?_⟩
    rw [Pipeline.satisfied_iff, hqMatches, ← hfirstMatches, hmatches, List.forall_mem_singleton]
    rfl

theorem provider_condition {p : String} (hp : p ∈ Audit.providers) :
    Audit.blueprint.condition ⟨"otaType", .eq, .text p⟩ = .ok [("type_of_ota", .text p)] := by
  have hall : ∀ p ∈ Audit.providers,
      Audit.blueprint.condition ⟨"otaType", .eq, .text p⟩ = .ok [("type_of_ota", .text p)] := by
    simp only [Audit.providers, List.forall_mem_cons]
    exact ⟨rfl, rfl, rfl, List.forall_mem_nil _⟩
  exact hall p hp

end Blueprint

namespace Resolver

variable {T : Type} [LE T] [DecidableLE T] [Timeline T] {r : Resolver T} {now : T}
  {docs : List Document} {rows : List Row} {store : Document → String → Value → Prop}

theorem read_of_rows (h : r.rows now docs = .ok rows) :
    List.Forall₂ (fun d row => ∃ password, Row.read d password = .ok row) docs rows := by
  obtain ⟨ds, hds, h⟩ := run_ok_of_bind h
  rw [run_ofExcept, mapM_document] at hds
  cases hds
  obtain ⟨plaintexts, -, h⟩ := run_ok_of_bind h
  rw [run_ofExcept] at h
  refine (mapM_ok_iff.mp h).imp fun d row hrow => ?_
  unfold toRow at hrow
  split at hrow
  · cases hrow
  · exact ⟨_, mapError_ok_iff.mp hrow⟩

/-- **Filters agree with rows on plain values alone.** The default match lets an audit pass just if
its row displays it as not archived, if and only if what is stored as the flag is a plain one. The
condition on a provider lets an audit pass just if its row names the provider, if and only if what
is stored names it plainly. -/
theorem filters_agree_on_plain_values (hstore : ComparesPlainly store)
    (h : r.rows now docs = .ok rows) : List.Forall₂ (fun d row =>
      (∀ page limit, ∃ q, Audit.blueprint.buildPage ⟨[], [], page, limit, false⟩ = .ok q ∧
        ((q.Satisfied (store d) ↔ row.isArchived = false) ↔ IsPlainFlag (d.get "is_archived"))) ∧
      ∀ p ∈ Audit.providers, ∃ c, Audit.blueprint.condition ⟨"otaType", .eq, .text p⟩ = .ok c ∧
        ((Holds (store d) c ↔ p ∈ row.otaType) ↔ NamesPlainly p (d.get "type_of_ota")))
    docs rows := by
  refine (read_of_rows h).imp fun d row hread => ?_
  obtain ⟨password, hread⟩ := hread
  obtain ⟨-, hproviders, harchived⟩ := Row.shown_of_read hread
  refine ⟨fun page limit => ?_, fun p hp => ?_⟩
  · obtain ⟨q, hq, hsatisfied⟩ := Blueprint.default_satisfied page limit
    refine ⟨q, hq, ?_⟩
    rw [hsatisfied, holds_plain hstore (by decide) (by decide) (.inl ⟨_, rfl⟩), harchived,
      Bool.not_eq_false']
    exact flag_alike_iff
  · refine ⟨_, Blueprint.provider_condition hp, ?_⟩
    rw [holds_plain hstore (by decide) (by decide) (.inr ⟨_, rfl⟩), hproviders]
    exact provider_alike_iff hp

/-- An audit whose fields are plain, and one without a flag whose provider is not in lower case. -/
theorem filters_agree_on_plain_values_two :
    let r : Resolver Number.Quantity :=
      fresh (fun _ => .error .noSeparator) ⟨2, none⟩ (.double 300) (.double 300)
    let plain : Document := [("type_of_ota", .list [.text "agoda"]), ("is_archived", .bool false)]
    let other : Document := [("type_of_ota", .list [.text "Agoda"])]
    ∃ first second q c, r.rows (.double 0) [plain, other] = .ok [first, second] ∧
      Audit.blueprint.buildPage ⟨[], [], 1, 25, false⟩ = .ok q ∧
      Audit.blueprint.condition ⟨"otaType", .eq, .text "agoda"⟩ = .ok c ∧
      ((q.Satisfied plain.Meets ↔ first.isArchived = false) ∧
        (Holds plain.Meets c ↔ "agoda" ∈ first.otaType)) ∧
      ¬(q.Satisfied other.Meets ↔ second.isArchived = false) ∧
      ¬(Holds other.Meets c ↔ "agoda" ∈ second.otaType) := by
  intro r plain other
  obtain ⟨first, second, hrows⟩ : ∃ first second,
      r.rows (.double 0) [plain, other] = .ok [first, second] := ⟨_, _, rfl⟩
  have hstore : ComparesPlainly Document.Meets := fun _ _ _ _ _ => Iff.rfl
  obtain ⟨⟨hflag, hproviders⟩, hrest⟩ :=
    List.forall₂_cons.mp (filters_agree_on_plain_values hstore hrows)
  obtain ⟨⟨hotherFlag, hotherProviders⟩, -⟩ := List.forall₂_cons.mp hrest
  obtain ⟨q, hq, hplain⟩ := hflag 1 25
  obtain ⟨_, hsame, hother⟩ := hotherFlag 1 25
  cases hq.symm.trans hsame
  obtain ⟨c, hc, hnamed⟩ := hproviders "agoda" (by decide)
  obtain ⟨_, hsame, hotherNamed⟩ := hotherProviders "agoda" (by decide)
  cases hc.symm.trans hsame
  refine ⟨first, second, q, c, hrows, hq, hc, ⟨hplain.mpr ⟨fun _ => rfl, nofun⟩, hnamed.mpr ?_⟩,
    fun h => ?_, fun h => ?_⟩
  · refine ⟨nofun, fun items hitems _ => ?_⟩
    cases hitems
    exact List.mem_singleton_self _
  · cases (hother.mp h).1 rfl
  · have hmem := (hotherNamed.mp h).2 _ rfl ⟨_, List.mem_singleton_self _, by decide⟩
    exact absurd (Value.text.inj (List.mem_singleton.mp hmem)) (by decide)

/-- A provider that is not stored in a list is matched and not displayed, and an audit without a
flag is displayed as not archived and not matched. -/
theorem stored_text_matched_not_shown :
    let r : Resolver Number.Quantity :=
      fresh (fun _ => .error .noSeparator) ⟨2, none⟩ (.double 300) (.double 300)
    let d : Document := [("type_of_ota", .text "expedia")]
    (r.rows (.double 0) [d]).map (·.map fun row => (row.otaType, row.isArchived)) =
        .ok [([], false)] ∧
      Audit.blueprint.condition ⟨"otaType", .eq, .text "expedia"⟩ =
        .ok [("type_of_ota", .text "expedia")] ∧
      Holds d.Meets [("type_of_ota", .text "expedia")] ∧
      Blueprint.notArchived = [("is_archived", .bool false)] ∧
      ¬Holds d.Meets [("is_archived", .bool false)] := by
  intro r d
  have hstore : ComparesPlainly Document.Meets := fun _ _ _ _ _ => Iff.rfl
  refine ⟨rfl, rfl, ?_, rfl, ?_⟩
  · rw [holds_plain hstore (by decide) (by decide) (.inr ⟨_, rfl⟩)]
    exact .inl rfl
  · rw [holds_plain hstore (by decide) (by decide) (.inl ⟨_, rfl⟩)]
    rintro (h | ⟨_, h, -⟩) <;> cases h

end Resolver

end AuditReport
