import AuditReport.Proofs.DeniedCallers
import AuditReport.Proofs.OrderedLists
import AuditReport.Proofs.PageTiling
import AuditReport.Proofs.Readings
import AuditReport.Proofs.RowReads
import AuditReport.Proofs.RowsAlone

/-! Exports beside pages. A table shows under each label what the rows of a page hold under the key
of its column: the labels tell the columns apart, and every key names a field of rows. -/

namespace AuditReport

open Fallible

namespace Row

/-- The names of a row's fields. -/
def fieldNames : List String :=
  ["auditId", "portfolioId", "portfolioName", "propertyId", "propertyName", "propertyIsActive",
    "serviceType", "billingType", "otaType", "otaId", "otaUsername", "otaPassword", "expediaId",
    "expediaUsername", "agodaId", "agodaUsername", "bookingId", "bookingUsername", "auditStatus",
    "batchNo", "startDate", "endDate", "nextDueDate", "currency", "currencySymbol",
    "amountCollectable", "amountConfirmed", "portfolioContactEmail", "isArchived", "createdAt"]

theorem exists_get?_toDocument {r : Row} {name : String} (h : name ∈ fieldNames) :
    ∃ v, r.toDocument.get? name = some v := by
  have hnames : r.toDocument.map Prod.fst = fieldNames := rfl
  obtain ⟨f, hf, hname⟩ := List.mem_map.mp (hnames ▸ h)
  refine Option.isSome_iff_exists.mp (Document.isSome_get?.trans (List.any_eq_true.mpr ⟨f, hf, ?_⟩))
  exact beq_iff_eq.mpr hname

end Row

namespace Audit

/-- The labels tell the columns apart. -/
theorem nodup_labels : (columns.map Column.label).Nodup := by decide

/-- Every key names a field of rows. -/
theorem key_mem_fieldNames : ∀ c ∈ columns, c.key ∈ Row.fieldNames := by decide

end Audit

/-! ## Columns -/

namespace Catalog

variable {catalog : Catalog} {keys : List String} {columns : List Column}

/-- The columns with some keys, in their order. -/
def ColumnsOf (catalog : Catalog) (keys : List String) (columns : List Column) : Prop :=
  List.Forall₂ (fun k c => catalog.column? k = some c) keys columns

theorem exists_columnsOf (h : ∀ k ∈ keys, ∃ c, catalog.column? k = some c) :
    ∃ columns, catalog.ColumnsOf keys columns := by
  induction keys with
  | nil => exact ⟨[], .nil⟩
  | cons k keys ih =>
    obtain ⟨⟨c, hc⟩, hrest⟩ := List.forall_mem_cons.mp h
    obtain ⟨columns, hcolumns⟩ := ih hrest
    exact ⟨c :: columns, .cons hc hcolumns⟩

theorem known_of_checkColumns (h : Validation.checkColumns catalog keys = .ok ()) :
    ∀ k ∈ keys, ∃ c, catalog.column? k = some c := by
  intro k hk
  obtain ⟨c, hc, -⟩ := map_ok_iff.mp (forM_ok_iff.mp h k hk)
  unfold Validation.requireColumn at hc
  split at hc
  · exact ⟨_, ‹_›⟩
  · cases hc

theorem known_of_visible : ∀ k ∈ catalog.visibleColumns.map Column.key,
    ∃ c, catalog.column? k = some c := by
  intro k hk
  obtain ⟨c, hc, rfl⟩ := List.mem_map.mp hk
  refine Option.isSome_iff_exists.mp (List.find?_isSome.mpr ⟨c, ?_, beq_self_eq_true _⟩)
  exact (List.mem_filter.mp hc).1

theorem ColumnsOf.keys_eq (h : catalog.ColumnsOf keys columns) :
    columns.map Column.key = keys := by
  induction h with
  | nil => rfl
  | cons hc _ ih => rw [List.map_cons, (column?_some hc).2, ih]

theorem ColumnsOf.declared (h : catalog.ColumnsOf keys columns) :
    ∀ c ∈ columns, c ∈ catalog.columns := by
  induction h with
  | nil => exact List.forall_mem_nil _
  | cons hc _ ih => exact List.forall_mem_cons.mpr ⟨(column?_some hc).1, ih⟩

theorem ColumnsOf.mem (h : catalog.ColumnsOf keys columns) {c : Column} (hc : c ∈ catalog.columns)
    (hkey : c.key ∈ keys) : c ∈ columns := by
  rw [← h.keys_eq] at hkey
  obtain ⟨e, he, hsame⟩ := List.mem_map.mp hkey
  exact List.inj_on_of_nodup_map catalog.nodup_keys (h.declared e he) hc hsame ▸ he

theorem ColumnsOf.nodup_labels (h : Audit.catalog.ColumnsOf keys columns) (hkeys : keys.Nodup) :
    (columns.map Column.label).Nodup := by
  refine List.Nodup.map_on (fun c hc d hd hlabel => ?_) (List.Nodup.of_map Column.key ?_)
  · exact List.inj_on_of_nodup_map Audit.nodup_labels (h.declared c hc) (h.declared d hd) hlabel
  · rw [h.keys_eq]
    exact hkeys

end Catalog

namespace Table

variable {catalog : Catalog} {keys : List String} {columns : List Column}

theorem ofRows_eq (h : catalog.ColumnsOf keys columns) (rows : List Row) :
    ofRows catalog keys rows = .ok ⟨columns.map Column.label, rows.map (record columns)⟩ := by
  refine bind_ok_iff.mpr ⟨columns, mapM_ok_iff.mpr (h.imp fun k c hc => ?_), rfl⟩
  rw [hc]

/-- A record has one cell under each label, in their order. -/
theorem record_eq (h : (columns.map Column.label).Nodup) (row : Row) :
    record columns row = columns.map fun c => (c.label, cell (row.toDocument.get c.key)) := by
  refine Document.ofPairs_of_nodup ?_
  rw [List.map_map]
  exact h

end Table

/-! ## Requests -/

namespace ExportRequest

variable {d : Document} {r : ExportRequest} {kind : Schema.IssueKind}

/-- The keys that a request names, in order and with repetitions; it may name none. -/
def Names (d : Document) (keys : List String) : Prop :=
  d.get "columns" = .null ∧ keys = [] ∨
    ∃ items, d.get "columns" = .list items ∧
      List.Forall₂ (fun v k => Schema.text v = .ok k) items keys

/-- The keys of the columns that an export shows if it names some: these, each once in the order in
which they are first named, or those of all visible columns. -/
def keysFor (asked : List String) : List String :=
  if asked = [] then Audit.catalog.visibleColumns.map Column.key else asked.eraseDups

theorem nodup_keysFor (asked : List String) : (keysFor asked).Nodup := by
  unfold keysFor
  split
  · exact Audit.catalog.nodup_keys.sublist (List.filter_sublist.map _)
  · exact nodup_eraseDups asked

theorem known_keysFor {asked : List String}
    (h : Validation.checkColumns Audit.catalog asked.eraseDups = .ok ()) :
    ∀ k ∈ keysFor asked, ∃ c, Audit.catalog.column? k = some c := by
  unfold keysFor
  split
  · exact Catalog.known_of_visible
  · exact Catalog.known_of_checkColumns h

theorem names_of_read (h : read kind (.object d) = .ok r) :
    ∃ asked, Names d asked ∧ r.columns.getD [] = asked.eraseDups := by
  rcases readColumns_ok (readColumns_of_read h) with
    ⟨hnull, hnone⟩ | ⟨items, asked, hitems, hasked, hsome⟩
  · exact ⟨[], .inl ⟨hnull, rfl⟩, by rw [hnone]; rfl⟩
  · exact ⟨asked, .inr ⟨items, hitems, hasked⟩, by rw [hsome]; rfl⟩

end ExportRequest

/-! ## Pages and tables -/

theorem Blueprint.isPage_of_build {blueprint : Blueprint} {q : ReportQuery} {extra : List String}
    {terminal : Stage} {p : Pipeline} (h : blueprint.build q extra terminal = .ok p) :
    p.isPage = terminal.isPage := by
  have hstages := build_ok h
  rw [stages_eq_leading] at hstages
  obtain ⟨shared, -, hshared⟩ := map_ok_iff.mp hstages
  rw [Pipeline.isPage, ← hshared, List.getLast?_concat, Option.any_some]

namespace Backend

variable {T α : Type} {b : Backend T} {p : Pipeline} {collection : String} {timeout : Int}
  {answer : List Value}

/-- The backend after an aggregation. -/
def aggregated (b : Backend T) (collection : String) (timeout : Int) (p : Pipeline) : Backend T :=
  { b with calls := b.calls ++ [.aggregate collection p.toValues timeout] }

theorem run_aggregate (h : b.store.aggregate collection p.toValues = .ok answer) :
    (aggregate collection timeout p).run.run b =
      (.ok answer, b.aggregated collection timeout p) := by
  unfold aggregate
  dsimp only
  rw [run_bind, record, run_modify]
  dsimp only
  rw [run_bind, run_get]
  dsimp only
  rw [run_ofExcept, h]
  rfl

theorem run_runPage (hpage : p.isPage = true)
    (h : b.store.aggregate collection p.toValues = .ok answer) {found : Page}
    (hfound : Page.ofAnswer answer = .ok found) :
    (runPage collection timeout p).run.run b =
      (.ok found, b.aggregated collection timeout p) := by
  unfold runPage
  rw [hpage]
  show (aggregate collection timeout p >>= _).run.run b = _
  rw [run_bind, run_aggregate h]
  dsimp only
  rw [run_ofExcept, hfound]
  rfl

theorem run_runExport (hpage : p.isPage = false)
    (h : b.store.aggregate collection p.toValues = .ok answer) :
    (runExport collection timeout p).run.run b =
      (.ok answer, b.aggregated collection timeout p) := by
  unfold runExport
  rw [hpage]
  exact run_aggregate h

end Backend

namespace Service

open Backend

variable {T : Type} [LE T] [DecidableLE T] [Timeline T] {s : Service} {u : User} {b : Backend T}
  {p : Pipeline} {answer : List Value}

/-- A page is answered with what the documents of the store's answer come to, and with its place
among all pages by the store's count. -/
theorem page_ok {q : ReportQuery} {page : ReportPage}
    (hbuild : s.blueprint.buildPage q = .ok p) (hpage : p.isPage = true)
    (hanswer : b.store.aggregate auditCollection p.toValues = .ok answer) {found : Page}
    (hfound : Page.ofAnswer answer = .ok found) (h : ((s.page u q).run.run b).1 = .ok page) :
    ((Resolver.resolveRows b.now found.documents).run.run b.resolver).1 = .ok page.rows ∧
      PageInfo.of found.total q.page q.limit = .ok page.info := by
  obtain ⟨_, -, h⟩ := run_ok_of_bind h
  rw [authorize, run_ofExcept] at h
  obtain ⟨_, -, h⟩ := run_ok_of_bind h
  rw [run_ofExcept] at h
  obtain ⟨built, hbuilt, h⟩ := run_ok_of_bind h
  rw [run_ofExcept] at hbuilt h
  rw [hbuild] at hbuilt
  cases hbuilt
  rw [run_bind, run_runPage hpage hanswer hfound] at h
  obtain ⟨rows, hrows, h⟩ := run_ok_of_bind h
  obtain ⟨info, hinfo, h⟩ := run_ok_of_bind h
  rw [run_ofExcept] at hinfo
  cases h
  exact ⟨hrows, hinfo⟩

/-- A page of documents that make rows is answered if its place among all pages can be told. -/
theorem page_answered {q : ReportQuery} {rows : List Row} {info : PageInfo}
    (hu : s.authorizer u = true) (hfilters : s.validate q = .ok ())
    (hbuild : s.blueprint.buildPage q = .ok p) (hpage : p.isPage = true)
    (hanswer : b.store.aggregate auditCollection p.toValues = .ok answer) {found : Page}
    (hfound : Page.ofAnswer answer = .ok found)
    (hrows : ((Resolver.resolveRows b.now found.documents).run.run b.resolver).1 = .ok rows)
    (hinfo : PageInfo.of found.total q.page q.limit = .ok info) :
    ((s.page u q).run.run b).1 = .ok ⟨rows, info⟩ := by
  unfold page
  rw [authorize_allowed hu, run_bind, run_ofExcept, hfilters]
  dsimp only
  rw [run_bind, run_ofExcept, hbuild]
  dsimp only [Except.mapError]
  rw [run_bind, run_runPage hpage hanswer hfound]
  dsimp only
  have hresolved : ((resolve (Resolver.resolveRows · found.documents)).run.run
      (b.aggregated auditCollection s.timeout p)).1 = .ok rows := hrows
  rw [run_bind_ok hresolved, run_bind, run_ofExcept, hinfo]
  rfl

theorem table_answered {r : ExportRequest} {rows : List Row} {columns : List Column}
    (hu : s.authorizer u = true) (hfilters : s.validate r.query = .ok ())
    (hcolumns : Validation.checkColumns s.blueprint.catalog (r.columns.getD []) = .ok ())
    (hbuild : s.blueprint.buildExport r.query (s.exportKeys r) = .ok p) (hpage : p.isPage = false)
    (hanswer : b.store.aggregate auditCollection p.toValues = .ok answer)
    (hrows : ((Resolver.resolveRows b.now answer).run.run b.resolver).1 = .ok rows)
    (hof : s.blueprint.catalog.ColumnsOf (s.exportKeys r) columns) :
    ((s.table u r).run.run b).1 =
      .ok ⟨columns.map Column.label, rows.map (Table.record columns)⟩ := by
  unfold table
  rw [authorize_allowed hu, run_bind, run_ofExcept, hfilters]
  dsimp only
  rw [run_bind, run_ofExcept, hcolumns]
  dsimp only [Except.mapError]
  rw [run_bind, run_ofExcept, hbuild]
  dsimp only [Except.mapError]
  rw [run_bind, run_runExport hpage hanswer]
  dsimp only
  have hresolved : ((resolve (Resolver.resolveRows · answer)).run.run
      (b.aggregated auditCollection s.timeout p)).1 = .ok rows := hrows
  rw [run_bind_ok hresolved, run_ofExcept, Table.ofRows_eq hof]

/-- A request without a query fails alike as a page and as a table. -/
theorem unbuilt {r : ExportRequest} {e : BuildError} (hu : s.authorizer u = true)
    (hfilters : s.validate r.query = .ok ())
    (hcolumns : Validation.checkColumns s.blueprint.catalog (r.columns.getD []) = .ok ())
    (hpage : s.blueprint.buildPage r.query = .error e)
    (hexport : s.blueprint.buildExport r.query (s.exportKeys r) = .error e) :
    ((s.table u r).run.run b).1 = .error (.ofBuild e) ∧
      ((s.page u r.query).run.run b).1 = .error (.ofBuild e) := by
  constructor
  · unfold table
    rw [authorize_allowed hu, run_bind, run_ofExcept, hfilters]
    dsimp only
    rw [run_bind, run_ofExcept, hcolumns]
    dsimp only [Except.mapError]
    rw [run_bind, run_ofExcept, hexport]
  · unfold page
    rw [authorize_allowed hu, run_bind, run_ofExcept, hfilters]
    dsimp only
    rw [run_bind, run_ofExcept, hpage]
    rfl

/-! ## Both from any cache -/

/-- Something may have been asked of the resolver before, and it can be told when what it caches now
expires. -/
structure Reached (first : Resolver T) (b : Backend T) : Prop where
  asked : ∃ history, b.resolver = first.run history
  tells : (Timeline.after? b.now first.values.ttl).isSome = true

theorem Reached.rows {first : Resolver T} (h : Reached first b) (hw : first.SharesWork)
    (hfirst : first.Sound first) (docs : List Document) :
    ((Resolver.resolveRows b.now (docs.map .object)).run.run b.resolver).1 =
      docs.mapM (Resolver.rowOf first.decrypt) := by
  obtain ⟨history, hresolver⟩ := h.asked
  rw [hresolver]
  exact Resolver.rows_eq hw h.tells (Resolver.sound_run hw hfirst history) docs

/-- A page of the report is answered that is made of some documents. -/
def Shows (s : Service) (first : Resolver T) (docs : List Document) (page : ReportPage) : Prop :=
  ∃ u q b p answer total, Reached first b ∧ s.blueprint.buildPage q = .ok p ∧
    b.store.aggregate auditCollection p.toValues = .ok answer ∧
    Page.ofAnswer answer = .ok ⟨docs.map .object, total⟩ ∧
    ((s.page u q).run.run b).1 = .ok page

theorem Shows.rows {authorizer : Authorizer} {timeout : Int} {first : Resolver T}
    {docs : List Document} {page : ReportPage}
    (h : Shows ⟨Audit.blueprint, authorizer, timeout⟩ first docs page) (hw : first.SharesWork)
    (hfirst : first.Sound first) :
    docs.mapM (Resolver.rowOf first.decrypt) = .ok page.rows := by
  obtain ⟨u, q, b, p, answer, total, hreached, hbuild, hanswer, hfound, hpage⟩ := h
  rw [← hreached.rows hw hfirst]
  exact (page_ok hbuild (Blueprint.isPage_of_build hbuild) hanswer hfound hpage).1

theorem exportKeys_eq {authorizer : Authorizer} {timeout : Int} {r : ExportRequest}
    {asked : List String} (h : r.columns.getD [] = asked.eraseDups) :
    exportKeys ⟨Audit.blueprint, authorizer, timeout⟩ r = ExportRequest.keysFor asked := by
  unfold exportKeys ExportRequest.keysFor
  cases asked with
  | nil =>
    rw [if_pos rfl]
    split
    · rename_i first rest hcolumns
      rw [hcolumns] at h
      cases h
    · rfl
  | cons k rest =>
    rw [if_neg (List.cons_ne_nil k rest), ← h]
    rw [List.eraseDups_cons] at h
    cases hcolumns : r.columns with
    | none => rw [hcolumns] at h; cases h
    | some keys => rw [hcolumns] at h; cases h; rfl

theorem ofAnswer_page (docs : List Document) (total : Value) :
    Page.ofAnswer [.object [("data", .list (docs.map .object)),
      ("totalCount", .list [.object [("count", total)]])]] = .ok ⟨docs.map .object, total⟩ := by
  cases docs <;> rfl

/-- A table of the columns with some keys over some documents: one label for each key, no two of
them the same, and one record for each document, with one cell under each label. Wherever a page
shows the row of the document, the cell under the label of a key is the row's field with that key,
as exports format it. -/
structure Tabulates (s : Service) (first : Resolver T) (keys : List String) (docs : List Document)
    (t : Table) : Prop where
  labels : List.Forall₂ (fun k label => ∃ c ∈ Audit.columns, c.key = k ∧ c.label = label) keys
    t.labels
  apart : t.labels.Nodup
  length : t.records.length = docs.length
  cells : ∀ record ∈ t.records, record.map Prod.fst = t.labels
  shown : ∀ (others : List Document) (page : ReportPage), s.Shows first others page →
    ∀ (i j : Nat) (d : Document), docs[i]? = some d → others[j]? = some d →
      ∃ (record : Document) (row : Row), t.records[i]? = some record ∧ page.rows[j]? = some row ∧
        ∀ c ∈ Audit.columns, c.key ∈ keys →
          ∃ v, row.toDocument.get? c.key = some v ∧ record.get? c.label = some (Table.cell v)

theorem tabulates_record {authorizer : Authorizer} {timeout : Int} {first : Resolver T}
    {keys : List String} {docs : List Document} {columns : List Column} {rows : List Row}
    (hw : first.SharesWork) (hfirst : first.Sound first)
    (hof : Audit.catalog.ColumnsOf keys columns) (hkeys : keys.Nodup)
    (hrows : docs.mapM (Resolver.rowOf first.decrypt) = .ok rows) :
    Tabulates ⟨Audit.blueprint, authorizer, timeout⟩ first keys docs
      ⟨columns.map Column.label, rows.map (Table.record columns)⟩ := by
  have hlabels := hof.nodup_labels hkeys
  refine ⟨?_, hlabels, ?_, ?_, ?_⟩
  · refine List.forall₂_map_right_iff.mpr (hof.imp fun k c hc => ?_)
    exact ⟨c, (Catalog.column?_some hc).1, (Catalog.column?_some hc).2, rfl⟩
  · rw [List.length_map, (mapM_ok_iff.mp hrows).length_eq]
  · intro record hrecord
    obtain ⟨row, -, rfl⟩ := List.mem_map.mp hrecord
    rw [Table.record_eq hlabels, List.map_map]
    rfl
  · intro others page hshows i j d hi hj
    obtain ⟨row, hrow, hd⟩ := getElem?_of_mapM_ok hrows hi
    obtain ⟨row', hrow', hd'⟩ := getElem?_of_mapM_ok (hshows.rows hw hfirst) hj
    cases hd.symm.trans hd'
    refine ⟨Table.record columns row, row, by simp [hrow], hrow', fun c hc hkey => ?_⟩
    obtain ⟨v, hv⟩ := Row.exists_get?_toDocument (r := row) (Audit.key_mem_fieldNames c hc)
    refine ⟨v, hv, ?_⟩
    rw [Table.record_eq hlabels, Document.get?_map_of_nodup hlabels (hof.mem hc hkey),
      Document.get, hv]
    rfl

/-- **Exports show what pages show.** The table of an accepted request has one label for each key
that the request names, in the order in which they are first named, or for each visible column if it
names none. Over any documents that make rows, its records hold what pages show of them, whichever
queries these pages answer and whatever was asked of either resolver before; and such pages there
are. A request that no query can be built from fails alike as a page and as a table. -/
theorem exports_show_pages (authorizer : Authorizer) (timeout : Int) (u : User)
    (hu : authorizer u = true) (kind : Schema.IssueKind) (d : Document) (r : ExportRequest)
    (hread : ExportRequest.read kind (.object d) = .ok r)
    (hfilters : Validation.check Audit.catalog r.query.filters r.query.sort = .ok ())
    (hcolumns : Validation.checkColumns Audit.catalog (r.columns.getD []) = .ok ())
    (decrypt : String → Except DecryptionError String) (workers : Workers) (valueTtl listTtl : T)
    (hw : ∀ n, workers.chunkSize = some n → 0 ≤ n) :
    let s : Service := ⟨Audit.blueprint, authorizer, timeout⟩
    let first := Resolver.fresh decrypt workers valueTtl listTtl
    ∃ asked, ExportRequest.Names d asked ∧
      let keys := ExportRequest.keysFor asked
      (∃ e, Audit.blueprint.buildPage r.query = .error e ∧
        Audit.blueprint.buildExport r.query keys = .error e ∧
        ∀ b : Backend T, ((s.table u r).run.run b).1 = .error (.ofBuild e) ∧
          ((s.page u r.query).run.run b).1 = .error (.ofBuild e)) ∨
      ∃ p, Audit.blueprint.buildExport r.query keys = .ok p ∧
        ∀ (b : Backend T) (docs : List Document) (rows : List Row), Reached first b →
          b.store.aggregate auditCollection p.toValues = .ok (docs.map .object) →
          first.rows b.now docs = .ok rows →
          (∃ t, ((s.table u r).run.run b).1 = .ok t ∧ s.Tabulates first keys docs t) ∧
          ∀ total info, PageInfo.of total r.query.page r.query.limit = .ok info →
            s.Shows first docs ⟨rows, info⟩ := by
  intro s first
  have hw : first.SharesWork := hw
  have hfirst : first.Sound first := Resolver.sound_fresh decrypt workers valueTtl listTtl
  have hvalid : s.validate r.query = .ok () := mapError_ok_iff.mpr hfilters
  obtain ⟨asked, hnames, hasked⟩ := ExportRequest.names_of_read hread
  refine ⟨asked, hnames, ?_⟩
  intro keys
  have hkeys : s.exportKeys r = keys := exportKeys_eq hasked
  have hknown : ∀ k ∈ keys, ∃ c, Audit.catalog.column? k = some c :=
    ExportRequest.known_keysFor (hasked ▸ hcolumns)
  obtain ⟨columns, hof⟩ := Catalog.exists_columnsOf hknown
  rcases Blueprint.build_cases Blueprint.needsAllJoins_audit r.query.filters r.query.sort
    r.query.includeArchived with ⟨e, he⟩ | ⟨shared, hs⟩
  · have hpaged : Audit.blueprint.buildPage r.query = .error e :=
      he r.query.page r.query.limit _ _ rfl
    have hexported : Audit.blueprint.buildExport r.query keys = .error e :=
      he r.query.page r.query.limit _ _ rfl
    exact .inl ⟨e, hpaged, hexported, fun b =>
      unbuilt hu hvalid hcolumns hpaged (hkeys ▸ hexported)⟩
  · obtain ⟨p, hp, -⟩ := hs r.query.page r.query.limit keys (.project Audit.catalog.paths) rfl
    refine .inr ⟨p, hp, fun b docs rows hreached hanswer hrows => ?_⟩
    have hresolved := hreached.rows hw hfirst docs
    have hfresh : docs.mapM (Resolver.rowOf first.decrypt) = .ok rows :=
      (Resolver.rows_eq hw hreached.tells hfirst docs).symm.trans hrows
    constructor
    · refine ⟨_, table_answered hu hvalid hcolumns (hkeys ▸ hp) (Blueprint.isPage_of_build hp)
        hanswer (hresolved.trans hfresh) (hkeys ▸ hof), ?_⟩
      exact tabulates_record hw hfirst hof (ExportRequest.nodup_keysFor asked) hfresh
    · intro total info hinfo
      obtain ⟨paged, hpaged, -⟩ := hs r.query.page r.query.limit []
        (.facet r.query.skip r.query.limit Audit.catalog.paths) rfl
      have hfound := ofAnswer_page docs total
      refine ⟨u, r.query, { b with store := { b.store with aggregate := fun _ _ => .ok _ } }, paged,
        _, total, ⟨hreached.asked, hreached.tells⟩, hpaged, rfl, hfound, ?_⟩
      exact page_answered hu hvalid hpaged (Blueprint.isPage_of_build hpaged) rfl hfound
        (hresolved.trans hfresh) hinfo

/-- Two columns, one of them named twice, of one audit whose password was decrypted before. -/
theorem exports_show_pages_two_columns :
    let s : Service := ⟨Audit.blueprint, superAdminsOnly, 30000⟩
    let admin : User := ⟨some "u-1", some "super_admin"⟩
    let request : Document := [("format", .text "csv"),
      ("columns", .list [.text "otaPassword", .text "auditId", .text "otaPassword"])]
    let r : ExportRequest := ⟨⟨[], [], 1, 25, false⟩, .csv, some ["otaPassword", "auditId"]⟩
    let first : Resolver Int :=
      Resolver.fresh (fun s => if s = "c" then .ok "p" else .error .noSeparator) ⟨2, none⟩ 300 300
    let audit : Document := [("_id", .text "a-1"), ("type_of_ota", .list [.text "agoda"]),
      ("credentials", .object [("agoda_password", .text "c")])]
    let b : Backend Int := ⟨{ Store.empty with aggregate := fun _ _ => .ok [.object audit] }, [],
      first.run [(50, .decryptValues [.text "c"])], 60⟩
    ∃ asked t, ExportRequest.Names request asked ∧ ((s.table admin r).run.run b).1 = .ok t ∧
      s.Tabulates first (ExportRequest.keysFor asked) [audit] t := by
  intro s admin request r first audit b
  obtain ⟨asked, hnames, ⟨e, he, -⟩ | ⟨p, -, htable⟩⟩ := exports_show_pages superAdminsOnly 30000
    admin (by decide) .notAnObject request r rfl rfl rfl first.decrypt ⟨2, none⟩ (300 : Int) 300 nofun
  · obtain ⟨p, hp⟩ : ∃ p, Audit.blueprint.buildPage ⟨[], [], 1, 25, false⟩ = .ok p := ⟨_, rfl⟩
    cases hp.symm.trans he
  · obtain ⟨rows, hrows⟩ : ∃ rows, first.rows 60 [audit] = .ok rows := ⟨_, rfl⟩
    obtain ⟨⟨t, ht, htabulates⟩, -⟩ := htable b [audit] rows ⟨⟨_, rfl⟩, rfl⟩ rfl hrows
    exact ⟨asked, t, hnames, ht, htabulates⟩

end Service

end AuditReport
