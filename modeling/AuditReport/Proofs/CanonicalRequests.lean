import AuditReport.Proofs.DocumentFields
import AuditReport.Proofs.OrderedLists
import AuditReport.Proofs.Readings
import Mathlib.Data.List.Induction

/-! Requests in one form. Whatever spelling of a request is accepted, the request that was read of
it is written in a form that is accepted too, and is read as the same request again. -/

namespace AuditReport

open Fallible

/-! ## Lists without repeats -/

section

variable {α : Type} [BEq α] [LawfulBEq α]

/-- The members of `xs`, each once, in the order in which they first occur. -/
structure FirstOccurrences (xs ys : List α) : Prop where
  mem : ∀ x, x ∈ ys ↔ x ∈ xs
  order : ys.Pairwise fun a b => xs.idxOf a < xs.idxOf b

theorem eraseDups_concat (xs : List α) (x : α) :
    (xs ++ [x]).eraseDups = xs.eraseDups ++ if x ∈ xs then [] else [x] := by
  rw [List.eraseDups_append]
  split <;> simp_all [List.removeAll, List.eraseDups_cons]

theorem pairwise_idxOf_eraseDups (xs : List α) :
    xs.eraseDups.Pairwise fun a b => xs.idxOf a < xs.idxOf b := by
  induction xs using List.reverseRecOn with
  | nil => exact List.Pairwise.nil
  | append_singleton xs x ih =>
    have hkept : xs.eraseDups.Pairwise fun a b => (xs ++ [x]).idxOf a < (xs ++ [x]).idxOf b := by
      refine ih.imp_of_mem fun {a b} ha hb hab => ?_
      rwa [List.idxOf_append_of_mem (List.mem_eraseDups.mp ha),
        List.idxOf_append_of_mem (List.mem_eraseDups.mp hb)]
    rw [eraseDups_concat]
    by_cases hx : x ∈ xs
    · rwa [if_pos hx, List.append_nil]
    · rw [if_neg hx]
      refine List.pairwise_append.mpr ⟨hkept, List.pairwise_singleton _ _, fun a ha b hb => ?_⟩
      have ha' := List.mem_eraseDups.mp ha
      rw [List.mem_singleton.mp hb, List.idxOf_append_of_mem ha', List.idxOf_append_of_notMem hx]
      exact Nat.lt_of_lt_of_le (List.idxOf_lt_length_iff.mpr ha') (Nat.le_add_right _ _)

theorem firstOccurrences_eraseDups (xs : List α) : FirstOccurrences xs xs.eraseDups :=
  ⟨fun _ => List.mem_eraseDups, pairwise_idxOf_eraseDups xs⟩

theorem eraseDups_of_nodup {xs : List α} (h : xs.Nodup) : xs.eraseDups = xs := by
  induction xs with
  | nil => rfl
  | cons x xs ih =>
    obtain ⟨hx, hxs⟩ := List.nodup_cons.mp h
    have hkept : xs.filter (fun y => !y == x) = xs := by
      refine List.filter_eq_self.mpr fun y hy => ?_
      have hne : y ≠ x := fun heq => hx (heq ▸ hy)
      simpa using hne
    rw [List.eraseDups_cons, hkept, ih hxs]

end

/-! ## Readers and printers -/

namespace Schema

open Text

variable {α : Type}

/-- Whatever is read can be printed, and what is printed is read as the same. -/
def Canonical (read : Reader α) (print : α → Value) : Prop :=
  ∀ ⦃v a⦄, read v = .ok a → read (print a) = .ok a

theorem isPaired_of_spelling {fault kind : IssueKind} {v : Value} {s : String}
    (h : (spelling fault v).getD (refuse kind v) = .ok s) : Surrogate.isPaired s = true := by
  cases v with
  | text t =>
    simp only [spelling, Option.getD_some] at h
    split at h
    · cases h
      assumption
    · cases h
  | bytes bs =>
    simp only [spelling, Option.getD_some] at h
    split at h
    · next hs =>
      cases h
      exact (Option.filter_eq_some_iff.mp hs).2
    · cases h
  | _ => cases h

theorem spelling_text {fault : IssueKind} {s : String} (h : Surrogate.isPaired s = true) :
    spelling fault (.text s) = some (.ok s) := by
  rw [spelling, if_pos h]

theorem canonical_filledText : Canonical filledText .text := by
  intro v s h
  obtain ⟨t, ht, h⟩ := bind_ok_iff.mp h
  split at h
  · cases h
  · next hfilled =>
    cases h
    rw [filledText, spelling_text (isPaired_of_spelling ht)]
    exact if_neg hfilled

/-- A choice is canonical if everything to choose from has a proper name that chooses it. -/
theorem canonical_choice {ofName? : String → Option α} {name : α → String}
    (hname : ∀ a, Surrogate.isPaired (name a) = true ∧ ofName? (name a) = some a) :
    Canonical (choice ofName?) fun a => .text (name a) := by
  intro v a _
  refine bind_ok_iff.mpr ⟨name a, ?_, ?_⟩
  · rw [spelling_text (hname a).1, Option.getD_some]
  · rw [(hname a).2]

theorem canonical_integerIn (least : Int) (greatest : Option Int) :
    Canonical (integerIn least greatest) .int := by
  intro v n h
  obtain ⟨hleast, hgreatest⟩ := integerIn_ok h
  have habove : ¬ greatest.any (· < n) = true := by
    cases greatest with
    | none => exact nofun
    | some g => simpa using hgreatest g rfl
  show (if greatest.any (· < n) = true then _ else _) = _
  rw [if_neg habove, if_neg (by omega)]

theorem canonical_boolean : Canonical boolean .bool := fun _ _ _ => rfl

theorem canonical_value : Canonical (Except.ok ·) id := fun _ _ _ => rfl

theorem Canonical.listOf {read : Reader α} {print : α → Value} (h : Canonical read print) :
    Canonical (Schema.listOf read) fun xs => .list (xs.map print) := by
  intro v xs hv
  cases v with
  | list vs =>
    have hitems := readItems_ok_iff.mp hv
    clear hv
    refine readItems_ok_iff.mpr ?_
    induction hitems with
    | nil => exact .nil
    | cons hx _ ih => exact .cons (h hx) ih
  | _ => cases hv

section Fields

variable {d d' : Document} {name : String} {others : List String} {read : Reader α}
  {print : α → Value} {a : α}

theorem given?_of_get? {v : Value} (h : d.get? name = some v) :
    given? d (name :: others) = some (name, v) := by
  rw [given?, List.findSome?_cons, h]
  rfl

theorem Canonical.required (h : Canonical read print)
    (ha : Schema.required d (name :: others) read = .ok a) (hget : d'.get? name = some (print a)) :
    Schema.required d' (name :: others) read = .ok a := by
  obtain ⟨v, hv⟩ := required_ok ha
  rw [Schema.required, given?_of_get? hget]
  exact under_ok_iff.mpr (h hv)

theorem Canonical.optional {default : α} (h : Canonical read print)
    (hdefault : read (print default) = .ok default)
    (ha : Schema.optional d (name :: others) read default = .ok a)
    (hget : d'.get? name = some (print a)) :
    Schema.optional d' (name :: others) read default = .ok a := by
  have hprinted : read (print a) = .ok a := by
    rcases optional_ok ha with rfl | ⟨v, hv⟩
    · exact hdefault
    · exact h hv
  rw [Schema.optional, given?_of_get? hget]
  exact under_ok_iff.mpr hprinted

/-- No field of an object is unknown if each of them has a preferred name. -/
theorem closed_eq_ok {names : List (List String)} {fields : Reading α}
    (hnames : ∀ n ∈ d.map Prod.fst, Surrogate.isPaired n = true ∧ n ∈ names.filterMap List.head?)
    (hfields : fields = .ok a) : closed d names fields = .ok a := by
  have hpaired : d.find? (fun f => !Surrogate.isPaired f.1) = none := by
    refine List.find?_eq_none.mpr fun f hf => ?_
    simpa using (hnames f.1 (List.mem_map_of_mem hf)).1
  have hused : ∀ f ∈ d, f.1 ∈ names.filterMap fun ns => (given? d ns).map (·.1) := by
    intro f hf
    obtain ⟨ns, hns, hhead⟩ := List.mem_filterMap.mp (hnames f.1 (List.mem_map_of_mem hf)).2
    obtain ⟨others, rfl⟩ := List.head?_eq_some_iff.mp hhead
    obtain ⟨v, hv⟩ : ∃ v, d.get? f.1 = some v := by
      refine Option.isSome_iff_exists.mp (Document.isSome_get?.trans ?_)
      exact List.any_eq_true.mpr ⟨f, hf, beq_self_eq_true _⟩
    exact List.mem_filterMap.mpr ⟨_, hns, by rw [given?_of_get? hv]; rfl⟩
  have hknown : d.filter (fun f => !(names.filterMap fun ns =>
      (given? d ns).map (·.1)).contains f.1) = [] := by
    refine List.filter_eq_nil_iff.mpr fun f hf => ?_
    simpa using hused f hf
  rw [closed, hpaired, hfields, unknownFields]
  dsimp only
  rw [hknown]
  rfl

end Fields

end Schema

open Schema

/-! ## Filters and sort keys -/

theorem Operator.ofName?_name (op : Operator) :
    Text.Surrogate.isPaired op.name = true ∧ ofName? op.name = some op := by
  cases op <;> decide

theorem SortKey.direction?_name (ascending : Bool) :
    Text.Surrogate.isPaired (if ascending then "asc" else "desc") = true ∧
      direction? (if ascending then "asc" else "desc") = some ascending := by
  cases ascending <;> decide

theorem ExportFormat.ofName?_name (format : ExportFormat) :
    Text.Surrogate.isPaired format.name = true ∧ ofName? format.name = some format := by
  cases format <;> decide

theorem Filter.canonical_read (kind : IssueKind) : Canonical (read kind) toValue := by
  intro v f h
  cases v with
  | object d =>
    obtain ⟨_, value, htwo, hvalue, rfl⟩ := Reading.app_ok_iff.mp h
    obtain ⟨_, operator, hone, hoperator, rfl⟩ := Reading.app_ok_iff.mp htwo
    obtain ⟨column, hcolumn, rfl⟩ := map_ok_iff.mp hone
    refine Reading.app_ok_iff.mpr ⟨_, value, Reading.app_ok_iff.mpr
      ⟨_, operator, map_ok_iff.mpr ⟨column, ?_, rfl⟩, ?_, rfl⟩, ?_, rfl⟩
    · exact canonical_filledText.required hcolumn rfl
    · exact (canonical_choice Operator.ofName?_name).required hoperator rfl
    · exact canonical_value.optional rfl hvalue rfl
  | _ => cases h

theorem SortKey.canonical_read (kind : IssueKind) : Canonical (read kind) toValue := by
  intro v k h
  cases v with
  | object d =>
    obtain ⟨_, order, hone, horder, rfl⟩ := Reading.app_ok_iff.mp h
    obtain ⟨column, hcolumn, rfl⟩ := map_ok_iff.mp hone
    refine Reading.app_ok_iff.mpr ⟨_, order, map_ok_iff.mpr ⟨column, ?_, rfl⟩, ?_, rfl⟩
    · exact canonical_filledText.required hcolumn rfl
    · exact (canonical_choice direction?_name).required horder rfl
  | _ => cases h

/-! ## Requests -/

/-- Any object with the fields of a request that was read is read as this request. -/
theorem ReportQuery.readFields_of_get? {kind : IssueKind} {d d' : Document} {q : ReportQuery}
    (h : readFields kind d = .ok q) (hget : ∀ f ∈ q.toDocument, d'.get? f.1 = some f.2) :
    readFields kind d' = .ok q := by
  obtain ⟨hfilters, hsort, hpage, hlimit, harchived⟩ := readFields_ok_iff.mp h
  simp only [toDocument, List.forall_mem_cons] at hget
  obtain ⟨hgetFilters, hgetSort, hgetPage, hgetLimit, hgetArchived, -⟩ := hget
  refine readFields_ok_iff.mpr ⟨?_, ?_, ?_, ?_, ?_⟩
  · exact (Filter.canonical_read kind).listOf.optional rfl hfilters hgetFilters
  · exact (SortKey.canonical_read kind).listOf.optional rfl hsort hgetSort
  · exact (canonical_integerIn 1 none).optional rfl hpage hgetPage
  · exact (canonical_integerIn 1 (some 100)).optional rfl hlimit hgetLimit
  · exact canonical_boolean.optional rfl harchived hgetArchived

theorem ReportQuery.canonical_read (kind : IssueKind) :
    Canonical (read kind) fun q => .object q.toDocument := by
  intro v q h
  cases v with
  | object d =>
    refine closed_eq_ok (d := q.toDocument) ?_ (readFields_of_get? (closed_ok h) ?_)
    · show ∀ n ∈ ["filters", "sort", "page", "limit", "includeArchived"], _
      decide
    · simp [toDocument, Document.get?]
  | _ => cases h

namespace ExportRequest

/-- The columns of a request as a value. -/
def columnsValue (columns : Option (List String)) : Value :=
  match columns with
  | some cs => .list (cs.map Value.text)
  | none => .null

theorem canonical_readColumns : Canonical readColumns columnsValue := by
  intro v columns h
  obtain ⟨asked, hasked, rfl⟩ := map_ok_iff.mp h
  cases asked with
  | none => rfl
  | some keys =>
    have hprinted : listOf text (.list (keys.eraseDups.map Value.text)) = .ok keys.eraseDups :=
      readItems_ok_iff.mpr (List.forall₂_map_left_iff.mpr (List.forall₂_same.mpr fun _ _ => rfl))
    have honce : keys.eraseDups.eraseDups = keys.eraseDups :=
      eraseDups_of_nodup (nodup_eraseDups keys)
    show ((listOf text (.list (keys.eraseDups.map Value.text))).map some).map _ = _
    rw [hprinted]
    exact congrArg (fun ks => Except.ok (some ks)) honce

theorem canonical_read (kind : IssueKind) :
    Canonical (read kind) fun r => .object r.toDocument := by
  intro v r h
  cases v with
  | object d =>
    obtain ⟨hquery, hformat, hcolumns⟩ := parts_of_read h
    refine closed_eq_ok (d := r.toDocument) ?_ (Reading.app_ok_iff.mpr ⟨_, r.columns,
      Reading.app_ok_iff.mpr ⟨_, r.format, map_ok_iff.mpr ⟨r.query, ?_, rfl⟩, ?_, rfl⟩, ?_, rfl⟩)
    · show ∀ n ∈ ["filters", "sort", "page", "limit", "includeArchived", "format", "columns"], _
      decide
    · refine ReportQuery.readFields_of_get? hquery ?_
      simp [toDocument, ReportQuery.toDocument, Document.get?]
    · exact (canonical_choice ExportFormat.ofName?_name).required hformat rfl
    · exact canonical_readColumns.optional rfl hcolumns rfl
  | _ => cases h

/-- The columns of a request are those that its object names, each in the place where it is named
first; without a list of names there are none. -/
theorem columns_of_read {kind : IssueKind} {d : Document} {r : ExportRequest}
    (h : read kind (.object d) = .ok r) :
    (d.get "columns" = .null ∧ r.columns = none) ∨
      ∃ items asked columns, d.get "columns" = .list items ∧
        List.Forall₂ (fun v k => text v = .ok k) items asked ∧ r.columns = some columns ∧
        FirstOccurrences asked columns := by
  rcases readColumns_ok (readColumns_of_read h) with
    ⟨hnull, hnone⟩ | ⟨items, asked, hitems, hasked, hsome⟩
  · exact .inl ⟨hnull, hnone⟩
  · exact .inr ⟨items, asked, _, hitems, hasked, hsome, firstOccurrences_eraseDups asked⟩

end ExportRequest

/-- **Requests are canonical.** Of whatever value a request for a page or for an export was read,
the request as an object is accepted and read as the same request. Its pages are counted from one
and have one to a hundred rows. The columns of an export are those that its object names, each in
the place where it is named first; without a list of names there are none. -/
theorem requests_canonical (kind : IssueKind) (v : Value) :
    (∀ q, ReportQuery.read kind v = .ok q →
      ReportQuery.read kind (.object q.toDocument) = .ok q ∧
        1 ≤ q.page ∧ 1 ≤ q.limit ∧ q.limit ≤ 100) ∧
    ∀ r, ExportRequest.read kind v = .ok r →
      ExportRequest.read kind (.object r.toDocument) = .ok r ∧
        (1 ≤ r.query.page ∧ 1 ≤ r.query.limit ∧ r.query.limit ≤ 100) ∧
        ∃ d : Document, v = .object d ∧ ((d.get "columns" = .null ∧ r.columns = none) ∨
          ∃ items asked columns, d.get "columns" = .list items ∧
            List.Forall₂ (fun v k => text v = .ok k) items asked ∧ r.columns = some columns ∧
            FirstOccurrences asked columns) := by
  refine ⟨fun q hq => ⟨ReportQuery.canonical_read kind hq, ?_⟩, fun r hr =>
    ⟨ExportRequest.canonical_read kind hr, ?_⟩⟩
  · cases v with
    | object d => exact ReportQuery.bounds_of_readFields (closed_ok hq)
    | _ => cases hq
  · cases v with
    | object d =>
      exact ⟨ReportQuery.bounds_of_readFields (ExportRequest.parts_of_read hr).1, d, rfl,
        ExportRequest.columns_of_read hr⟩
    | _ => cases hr

/-- Numbers and truth values as texts, a text as bytes, and a column that is named twice. -/
theorem requests_canonical_spellings :
    let fields : Document := [("filters", .list [.object [("column", .text "batchNo"),
        ("operator", .text "in"), ("value", .list [.int 1, .text "x"])]]),
      ("page", .text " 2.0"), ("limit", .float 50.0), ("include_archived", .text "Yes")]
    let q : ReportQuery := ⟨[⟨"batchNo", .isIn, .list [.int 1, .text "x"]⟩], [], 2, 50, true⟩
    let named : Document := [("format", .bytes [99, 115, 118]),
      ("columns", .list [.text "auditId", .text "batchNo", .text "auditId"])]
    let r : ExportRequest := ⟨q, .csv, some ["auditId", "batchNo"]⟩
    ReportQuery.read .notAnObject (.object fields) = .ok q ∧
      ReportQuery.read .notAnObject (.object q.toDocument) = .ok q ∧
      ExportRequest.read .notAnObject (.object (fields ++ named)) = .ok r ∧
      ExportRequest.read .notAnObject (.object r.toDocument) = .ok r := by
  intro fields q named r
  have hquery : ReportQuery.read .notAnObject (.object fields) = .ok q := by rfl
  have hexport : ExportRequest.read .notAnObject (.object (fields ++ named)) = .ok r := by rfl
  exact ⟨hquery, ((requests_canonical .notAnObject (.object fields)).1 q hquery).1, hexport,
    ((requests_canonical .notAnObject (.object (fields ++ named))).2 r hexport).1⟩

end AuditReport
