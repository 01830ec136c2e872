import AuditReport.Proofs.Fallible
import AuditReport.Request.Report

/-! What was read, when a reading succeeds. -/

namespace AuditReport

open Fallible

namespace Schema

variable {α β γ : Type}

theorem Reading.app_ok_iff {f : Reading (α → β)} {x : Reading α} {b : β} :
    Reading.app f x = .ok b ↔ ∃ g a, f = .ok g ∧ x = .ok a ∧ g a = b := by
  cases f with
  | error es => exact ⟨nofun, nofun⟩
  | ok g => cases x <;> simp [Reading.app]

theorem Reading.map_app (f : Reading (α → β)) (x : Reading α) (g : β → γ) :
    (Reading.app f x).map g = Reading.app (f.map (g ∘ ·)) x := by
  cases f <;> cases x <;> rfl

theorem under_ok_iff {x : Reading α} {s : Step} {a : α} :
    Reading.under s x = .ok a ↔ x = .ok a := by
  cases x <;> simp [Reading.under]

/-- What is read without a fault of other fields is what the named fields hold. -/
theorem closed_ok {d : Document} {names : List (List String)} {fields : Reading α} {a : α}
    (h : closed d names fields = .ok a) : fields = .ok a := by
  unfold closed at h
  split at h
  · cases h
  · obtain ⟨g, _, hg, -, rfl⟩ := Reading.app_ok_iff.mp h
    obtain ⟨a, ha, rfl⟩ := map_ok_iff.mp hg
    exact ha

theorem mem_of_given? {d : Document} {names : List String} {name : String} {v : Value}
    (h : given? d names = some (name, v)) : ∃ f ∈ d, f.2 = v := by
  obtain ⟨_, -, hname⟩ := List.exists_of_findSome?_eq_some h
  obtain ⟨_, hget, heq⟩ := Option.map_eq_some_iff.mp hname
  cases heq
  obtain ⟨f, hf, hv⟩ := Option.map_eq_some_iff.mp hget
  exact ⟨f, List.mem_of_find?_eq_some hf, hv⟩

/-- A field that may be left out is read from one of the document's, or has its default. -/
theorem mem_of_optional {d : Document} {names : List String} {read : Reader α} {default a : α}
    (h : optional d names read default = .ok a) : a = default ∨ ∃ f ∈ d, read f.2 = .ok a := by
  unfold optional at h
  split at h
  · next hgiven =>
    obtain ⟨f, hf, rfl⟩ := mem_of_given? hgiven
    exact .inr ⟨f, hf, under_ok_iff.mp h⟩
  · exact .inl (Except.ok.inj h).symm

theorem optional_ok {d : Document} {names : List String} {read : Reader α} {default a : α}
    (h : optional d names read default = .ok a) : a = default ∨ ∃ v, read v = .ok a :=
  (mem_of_optional h).imp_right fun ⟨f, _, hf⟩ => ⟨f.2, hf⟩

/-- A field with one name and the default of null is read as null where it is not given. -/
theorem read_get_of_optional {d : Document} {name : String} {read : Reader α} {default a : α}
    (hnull : read .null = .ok default) (h : optional d [name] read default = .ok a) :
    read (d.get name) = .ok a := by
  unfold optional given? at h
  unfold Document.get
  cases hget : d.get? name with
  | none =>
    simp only [List.findSome?_cons, List.findSome?_nil, hget, Option.map_none] at h
    exact hnull.trans h
  | some v =>
    simp only [List.findSome?_cons, hget, Option.map_some] at h
    exact under_ok_iff.mp h

theorem required_ok {d : Document} {names : List String} {read : Reader α} {a : α}
    (h : required d names read = .ok a) : ∃ v, read v = .ok a := by
  unfold required at h
  split at h
  · exact ⟨_, under_ok_iff.mp h⟩
  · cases under_ok_iff.mp h

theorem readItems_ok_iff {read : Reader α} {i : Nat} {vs : List Value} {xs : List α} :
    readItems read i vs = .ok xs ↔ List.Forall₂ (fun v x => read v = .ok x) vs xs := by
  induction vs generalizing i xs with
  | nil =>
    rw [List.forall₂_nil_left_iff]
    exact ⟨fun h => (Except.ok.inj h).symm, fun h => congrArg _ h.symm⟩
  | cons v vs ih =>
    rw [readItems, Reading.app_ok_iff, List.forall₂_cons_left_iff]
    constructor
    · rintro ⟨_, rest, hfirst, hrest, rfl⟩
      obtain ⟨x, hx, rfl⟩ := map_ok_iff.mp hfirst
      exact ⟨x, rest, under_ok_iff.mp hx, ih.mp hrest, rfl⟩
    · rintro ⟨x, rest, hx, hrest, rfl⟩
      exact ⟨_, rest, map_ok_iff.mpr ⟨x, under_ok_iff.mpr hx, rfl⟩, ih.mpr hrest, rfl⟩

theorem integerIn_ok {least n : Int} {greatest : Option Int} {v : Value}
    (h : integerIn least greatest v = .ok n) : least ≤ n ∧ ∀ g ∈ greatest, n ≤ g := by
  obtain ⟨m, -, h⟩ := bind_ok_iff.mp h
  split at h
  · cases h
  · rename_i hgreatest
    split at h
    · cases h
    · rename_i hleast
      cases h
      refine ⟨by omega, ?_⟩
      rintro g rfl
      simpa using hgreatest

end Schema

namespace ReportQuery

open Schema

/-- The fields of a request are read one by one. -/
theorem readFields_ok_iff {kind : IssueKind} {d : Document} {q : ReportQuery} :
    readFields kind d = .ok q ↔
      optional d ["filters"] (listOf (Filter.read kind)) [] = .ok q.filters ∧
      optional d ["sort"] (listOf (SortKey.read kind)) [] = .ok q.sort ∧
      optional d ["page"] (integerIn 1 none) 1 = .ok q.page ∧
      optional d ["limit"] (integerIn 1 (some 100)) 25 = .ok q.limit ∧
      optional d ["includeArchived", "include_archived"] boolean false =
        .ok q.includeArchived := by
  unfold readFields
  constructor
  · intro h
    obtain ⟨_, archived, hfour, harchived, rfl⟩ := Reading.app_ok_iff.mp h
    obtain ⟨_, limit, hthree, hlimit, rfl⟩ := Reading.app_ok_iff.mp hfour
    obtain ⟨_, page, htwo, hpage, rfl⟩ := Reading.app_ok_iff.mp hthree
    obtain ⟨_, sort, hone, hsort, rfl⟩ := Reading.app_ok_iff.mp htwo
    obtain ⟨filters, hfilters, rfl⟩ := map_ok_iff.mp hone
    exact ⟨hfilters, hsort, hpage, hlimit, harchived⟩
  · rintro ⟨hfilters, hsort, hpage, hlimit, harchived⟩
    rw [hfilters, hsort, hpage, hlimit, harchived]
    rfl

/-- Pages are counted from one, and a page has at least one row and at most a hundred. -/
theorem bounds_of_readFields {kind : IssueKind} {d : Document} {q : ReportQuery}
    (h : readFields kind d = .ok q) : 1 ≤ q.page ∧ 1 ≤ q.limit ∧ q.limit ≤ 100 := by
  obtain ⟨-, -, hpage, hlimit, -⟩ := readFields_ok_iff.mp h
  constructor
  · rcases optional_ok hpage with hdefault | ⟨v, hv⟩
    · omega
    · exact (integerIn_ok hv).1
  · rcases optional_ok hlimit with hdefault | ⟨v, hv⟩
    · omega
    · exact (integerIn_ok hv).imp_right fun hgreatest => hgreatest 100 rfl

theorem limit_of_read {kind : IssueKind} {v : Value} {q : ReportQuery} (h : read kind v = .ok q) :
    1 ≤ q.limit ∧ q.limit ≤ 100 := by
  unfold read at h
  split at h
  · exact (bounds_of_readFields (closed_ok h)).2
  · cases h

end ReportQuery

namespace ExportRequest

open Schema

theorem readColumns_ok {v : Value} {columns : Option (List String)}
    (h : readColumns v = .ok columns) :
    (v = .null ∧ columns = none) ∨ ∃ items asked, v = .list items ∧
      List.Forall₂ (fun v k => text v = .ok k) items asked ∧ columns = some asked.eraseDups := by
  obtain ⟨asked, hasked, rfl⟩ := map_ok_iff.mp h
  cases v with
  | null => cases hasked; exact .inl ⟨rfl, rfl⟩
  | list items =>
    obtain ⟨keys, hkeys, rfl⟩ := map_ok_iff.mp hasked
    exact .inr ⟨items, keys, rfl, readItems_ok_iff.mp hkeys, rfl⟩
  | _ => cases hasked

/-- An export is read part by part. -/
theorem parts_of_read {kind : IssueKind} {d : Document} {r : ExportRequest}
    (h : read kind (.object d) = .ok r) :
    ReportQuery.readFields kind d = .ok r.query ∧
      required d ["format"] (choice ExportFormat.ofName?) = .ok r.format ∧
      optional d ["columns"] readColumns none = .ok r.columns := by
  obtain ⟨_, columns, htwo, hcolumns, rfl⟩ := Reading.app_ok_iff.mp (closed_ok h)
  obtain ⟨_, format, hone, hformat, rfl⟩ := Reading.app_ok_iff.mp htwo
  obtain ⟨q, hquery, rfl⟩ := map_ok_iff.mp hone
  exact ⟨hquery, hformat, hcolumns⟩

theorem readColumns_of_read {kind : IssueKind} {d : Document} {r : ExportRequest}
    (h : read kind (.object d) = .ok r) : readColumns (d.get "columns") = .ok r.columns :=
  read_get_of_optional rfl (parts_of_read h).2.2

end ExportRequest

end AuditReport
