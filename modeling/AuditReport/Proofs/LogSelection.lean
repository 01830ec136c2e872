import AuditReport.Proofs.CalendarOrder
import AuditReport.Proofs.Fallible
import AuditReport.Proofs.LogSessions
import AuditReport.Proofs.PathPatterns

/-! Which entries of the log a filter selects. Time and status are as the filter says. A path begins
as the filter's prefix says if it is taken as a pattern: every path that starts with the prefix is
selected, and others with it if the prefix has letters, percent signs, underscores, a null character
or one that the store compares as the replacement character. -/

namespace AuditReport

open Calendar (Moment)
open Fallible

/-- A text starts with another, character by character. -/
def Log.StartsWith (front text : String) : Prop := front.toList <+: text.toList

instance (front text : String) : Decidable (Log.StartsWith front text) :=
  inferInstanceAs (Decidable (front.toList <+: text.toList))

namespace LogFilter

/-- An entry is as a filter asks at a time; `begins` says what it means that a path begins with the
filter's prefix. -/
structure Selects (f : LogFilter) (begins : String → String → Prop) (now : Moment)
    (e : LogEntry) : Prop where
  recent : (now.reading : Int) - f.hours * Calendar.hour ≤ e.timestamp.reading
  atLeast : ∀ n ∈ f.statusMin, n ≤ e.status
  atMost : ∀ n ∈ f.statusMax, e.status ≤ n
  path : ∀ p ∈ f.pathPrefix, begins p e.path

/-- The values of a filter can be handed to the table at a time and be compared. -/
structure Fits (f : LogFilter) (now : Moment) : Prop where
  inYears : 0 ≤ (now.reading : Int) - f.hours * Calendar.hour ∧
    (now.reading : Int) - f.hours * Calendar.hour < Moment.span
  minWord : ∀ n ∈ f.statusMin, Number.isWord n = true
  maxWord : ∀ n ∈ f.statusMax, Number.isWord n = true
  encodable : ∀ p ∈ f.pathPrefix, Text.Surrogate.isPaired p = true
  short : ∀ p ∈ f.pathPrefix, Log.isOverlong p = false

variable {f : LogFilter} {begins loose : String → String → Prop} {now : Moment} {e : LogEntry}

theorem Selects.mono (h : ∀ p ∈ f.pathPrefix, begins p e.path → loose p e.path)
    (hselects : f.Selects begins now e) : f.Selects loose now e :=
  { hselects with path := fun p hp => h p hp (hselects.path p hp) }

/-- An exact prefix selects just the paths that start with it. -/
theorem selects_exact (h : ∀ p ∈ f.pathPrefix, Log.IsExact p) :
    f.Selects Log.Begins now e ↔ f.Selects Log.StartsWith now e :=
  ⟨Selects.mono fun p hp => (Log.begins_iff_of_isExact (h p hp)).mp,
    Selects.mono fun _ _ => Log.begins_of_prefix⟩

end LogFilter

namespace LogTable

open LogCall (noon)

variable {t : LogTable} {f : LogFilter} {now start : Moment} {limit offset : Int} {e : LogEntry}
  {es : List LogEntry}

/-! ## Questions that can be asked -/

theorem check_ok_iff {fault : Option LogDraft.Unfit} : check fault = .ok () ↔ fault = none := by
  cases fault <;> simp [check]

/-- A number that is no word cannot be handed to the table. -/
theorem check_number (n : Int) : check (LogDraft.numberFault? (some n)) =
    if Number.isWord n = true then .ok () else .error (.unfit .outOfRange) := by
  cases hn : Number.isWord n <;> simp [check, LogDraft.numberFault?, hn]

theorem windowStart_ok_iff : windowStart f now = .ok start ↔
    now.shift? (-(f.hours * Calendar.hour)) = some start := by
  unfold windowStart
  cases now.shift? (-(f.hours * Calendar.hour)) <;> simp

theorem windowStart_reading (h : windowStart f now = .ok start) :
    (start.reading : Int) = now.reading - f.hours * Calendar.hour := by
  obtain ⟨u, hu, rfl⟩ := Option.map_eq_some_iff.mp (windowStart_ok_iff.mp h)
  have hreading := Moment.ofReading?_reading hu
  rwa [← Int.sub_eq_add_neg] at hreading

theorem windowStart_total :
    (∃ start, windowStart f now = .ok start) ↔
      0 ≤ (now.reading : Int) - f.hours * Calendar.hour ∧
        (now.reading : Int) - f.hours * Calendar.hour < Moment.span := by
  simp only [windowStart_ok_iff, ← Option.isSome_iff_exists]
  rw [Moment.shift?, Option.isSome_map, Moment.ofReading?_isSome, Int.sub_eq_add_neg]

theorem checkFilter_ok_iff : checkFilter f = .ok () ↔
    (∀ n ∈ f.statusMin, Number.isWord n = true) ∧ (∀ n ∈ f.statusMax, Number.isWord n = true) ∧
      ∀ p ∈ f.pathPrefix, Text.Surrogate.isPaired p = true := by
  simp only [checkFilter, bind_ok_iff, Unique.exists_iff, PUnit.default_eq_unit, check_ok_iff,
    LogDraft.numberFault?_eq_none, LogDraft.textFault?_eq_none]

/-- All entries that a filter lets pass, if the question can be asked. -/
def found (t : LogTable) (f : LogFilter) (now : Moment) : Answer (List LogEntry) := do
  let start ← windowStart f now
  checkFilter f
  t.matching f start

/-- A page is a stretch of all entries that are found, the latest first. -/
theorem page_eq (t : LogTable) (f : LogFilter) (now : Moment) (hlimit : Number.isWord limit = true)
    (hoffset : Number.isWord offset = true) : t.page f limit offset now =
      (t.found f now).map fun es => window limit offset (es.mergeSort newer) := by
  unfold page found
  rw [check_number, if_pos hlimit, check_number, if_pos hoffset]
  cases windowStart f now <;> cases checkFilter f <;> rfl

theorem page_ok (h : t.page f limit offset now = .ok es) :
    ∃ all, t.found f now = .ok all ∧ es = window limit offset (all.mergeSort newer) := by
  simp only [page, bind_ok_iff] at h
  obtain ⟨start, hstart, _, hcheck, _, -, _, -, all, hall, hes⟩ := h
  cases hes
  exact ⟨all, bind_ok_iff.mpr ⟨start, hstart, bind_ok_iff.mpr ⟨(), hcheck, hall⟩⟩, rfl⟩

theorem window_sublist {α : Type} (limit offset : Int) (xs : List α) :
    (window limit offset xs).Sublist xs := by
  unfold window
  dsimp only
  split
  · exact List.drop_sublist _ _
  · exact (List.take_sublist _ _).trans (List.drop_sublist _ _)

/-! ## The entries that are found -/

theorem inBounds_iff (h : windowStart f now = .ok start) : inBounds f start e = true ↔
    (now.reading : Int) - f.hours * Calendar.hour ≤ e.timestamp.reading ∧
      (∀ n ∈ f.statusMin, n ≤ e.status) ∧ ∀ n ∈ f.statusMax, e.status ≤ n := by
  rw [← windowStart_reading h, Int.ofNat_le]
  cases hmin : f.statusMin <;> cases hmax : f.statusMax <;> simp [inBounds, hmin, hmax, and_assoc]

theorem begins_empty (text : String) : Log.Begins "" text :=
  Log.begins_of_prefix List.nil_prefix

theorem hasPrefix_iff : hasPrefix f e = true ↔ ∀ p ∈ f.pathPrefix, Log.Begins p e.path := by
  unfold hasPrefix
  cases f.pathPrefix with
  | none => simp
  | some p =>
    simp only [Option.all_some, Bool.or_eq_true, Log.likePrefix_iff, Option.mem_some_iff,
      forall_eq', or_iff_right_iff_imp, String.isEmpty_iff]
    rintro rfl
    exact begins_empty _

theorem selects_iff (h : windowStart f now = .ok start) : f.Selects Log.Begins now e ↔
    inBounds f start e = true ∧ hasPrefix f e = true := by
  rw [inBounds_iff h, hasPrefix_iff]
  constructor
  · exact fun hselects => ⟨⟨hselects.recent, hselects.atLeast, hselects.atMost⟩, hselects.path⟩
  · exact fun ⟨⟨hrecent, hleast, hmost⟩, hpath⟩ => ⟨hrecent, hleast, hmost, hpath⟩

theorem found_ok_iff : t.found f now = .ok es ↔
    ∃ start, windowStart f now = .ok start ∧ checkFilter f = .ok () ∧ t.matching f start = .ok es := by
  simp only [found, bind_ok_iff, Unique.exists_iff, PUnit.default_eq_unit]

theorem matching_ok (h : t.matching f start = .ok es) :
    es = (t.entries.filter (inBounds f start)).filter (hasPrefix f) ∧
      (es ≠ [] → ∀ p ∈ f.pathPrefix, Log.isOverlong p = false) := by
  unfold matching at h
  dsimp only at h
  split at h
  · cases h
  · next hshort =>
    cases h
    refine ⟨rfl, fun hsome p hp => Bool.eq_false_iff.mpr fun hover => hshort ?_⟩
    have hcandidates : (t.entries.filter (inBounds f start)) ≠ [] := by
      intro hnone
      rw [hnone] at hsome
      exact hsome rfl
    rw [Option.mem_def.mp hp, Option.any_some, hover, List.isEmpty_eq_false_iff.mpr hcandidates]
    rfl

theorem matching_short (h : ∀ p ∈ f.pathPrefix, Log.isOverlong p = false) : t.matching f start =
    .ok ((t.entries.filter (inBounds f start)).filter (hasPrefix f)) := by
  have hany : f.pathPrefix.any Log.isOverlong = false := by
    cases hprefix : f.pathPrefix with
    | none => rfl
    | some p => exact h p (Option.mem_def.mpr hprefix)
  rw [matching, hany, Bool.false_and, if_neg Bool.false_ne_true]

/-- What is found are the selected entries, in the order in which they were made. -/
theorem found_spec (h : t.found f now = .ok es) : es.Sublist t.entries ∧
    ∀ e, e ∈ es ↔ e ∈ t.entries ∧ f.Selects Log.Begins now e := by
  obtain ⟨start, hstart, -, hmatching⟩ := found_ok_iff.mp h
  obtain ⟨rfl, -⟩ := matching_ok hmatching
  refine ⟨List.filter_sublist.trans List.filter_sublist, fun e => ?_⟩
  rw [selects_iff hstart, List.mem_filter, List.mem_filter, and_assoc]

theorem fits_of_found (h : t.found f now = .ok es) (he : e ∈ es) : f.Fits now := by
  obtain ⟨start, hstart, hcheck, hmatching⟩ := found_ok_iff.mp h
  obtain ⟨hmin, hmax, hpaired⟩ := checkFilter_ok_iff.mp hcheck
  exact ⟨windowStart_total.mp ⟨start, hstart⟩, hmin, hmax, hpaired,
    (matching_ok hmatching).2 (List.ne_nil_of_mem he)⟩

theorem found_total (t : LogTable) (h : f.Fits now) : ∃ es, t.found f now = .ok es := by
  obtain ⟨start, hstart⟩ := windowStart_total.mpr h.inYears
  have hcheck := checkFilter_ok_iff.mpr ⟨h.minWord, h.maxWord, h.encodable⟩
  exact ⟨_, found_ok_iff.mpr ⟨start, hstart, hcheck, matching_short h.short⟩⟩

/-! ## The entries that pages show -/

/-- Some page shows an entry. -/
def Shows (t : LogTable) (f : LogFilter) (now : Moment) (e : LogEntry) : Prop :=
  ∃ limit offset es, t.page f limit offset now = .ok es ∧ e ∈ es

theorem shows_iff : t.Shows f now e ↔
    f.Fits now ∧ e ∈ t.entries ∧ f.Selects Log.Begins now e := by
  constructor
  · rintro ⟨limit, offset, es, hpage, he⟩
    obtain ⟨all, hall, rfl⟩ := page_ok hpage
    have hfound : e ∈ all := List.mem_mergeSort.mp ((window_sublist _ _ _).subset he)
    exact ⟨fits_of_found hall hfound, ((found_spec hall).2 e).mp hfound⟩
  · rintro ⟨hfits, hselected⟩
    obtain ⟨all, hall⟩ := found_total t hfits
    -- The page without limit, from the first entry on, shows all.
    refine ⟨-1, 0, all.mergeSort newer, ?_, List.mem_mergeSort.mpr ?_⟩
    · rw [page_eq t f now (by decide) (by decide), hall]
      rfl
    · exact ((found_spec hall).2 e).mpr hselected

/-- **Paths are compared with patterns.** The entries that pages show are those of the filter's time
and status whose path begins with the prefix when that is read as a pattern, provided that the
filter can be asked for. They include all whose path starts with the prefix, character by character.
That these are all is certain just for prefixes all of whose characters stand for themselves alone;
other prefixes also select paths that do not start with them. Without wildcards and null characters a
prefix is compared character by character, the case of letters aside and with the last two
characters of the basic plane taken for the replacement character. -/
theorem pages_show_selected (t : LogTable) (f : LogFilter) (now : Moment) :
    (∀ e, t.Shows f now e ↔ f.Fits now ∧ e ∈ t.entries ∧ f.Selects Log.Begins now e) ∧
      (f.Fits now → ∀ e ∈ t.entries, f.Selects Log.StartsWith now e → t.Shows f now e) ∧
      (f.Fits now → (∀ p ∈ f.pathPrefix, Log.IsExact p) → ∀ e, t.Shows f now e ↔
        e ∈ t.entries ∧ f.Selects Log.StartsWith now e) ∧
      (∀ p ∈ f.pathPrefix,
        ((∀ path, Log.Begins p path ↔ Log.StartsWith p path) ↔ Log.IsExact p) ∧
          (Log.IsPlain p → ∀ path, Log.Begins p path ↔
            p.toList.map Log.letter <+: path.toList.map Log.letter)) := by
  refine ⟨fun e => shows_iff, fun hfits e he hselects => ?_, fun hfits hexact e => ?_,
    fun p _ => ⟨Log.begins_iff_prefix, fun hplain path => Log.begins_iff_of_isPlain hplain⟩⟩
  · exact shows_iff.mpr ⟨hfits, he, hselects.mono fun _ _ => Log.begins_of_prefix⟩
  · rw [shows_iff, LogFilter.selects_exact hexact]
    exact and_iff_right hfits

/-- A prefix without letters selects one of two paths. -/
theorem pages_show_selected_digits :
    let f : LogFilter := ⟨24, some 200, some 299, some "/2024/"⟩
    let t := (LogSession.fresh.recordAll empty [.fetched "/2024/a", .fetched "/2024-b"]).table
    t.entries.map LogEntry.path = ["/2024/a", "/2024-b"] ∧
      ∀ e ∈ t.entries, t.Shows f noon e ↔ e.path = "/2024/a" := by
  intro f t
  have hpaths : t.entries.map LogEntry.path = ["/2024/a", "/2024-b"] := by rfl
  refine ⟨hpaths, fun e he => ?_⟩
  have hfits : f.Fits noon :=
    ⟨by decide +kernel, by decide, by decide, by decide +kernel, by decide +kernel⟩
  have hexact : ∀ p ∈ f.pathPrefix, Log.IsExact p := by
    intro p hp
    cases hp
    decide
  have hfine : ∀ e ∈ t.entries, (noon.reading : Int) - f.hours * Calendar.hour ≤
      e.timestamp.reading ∧ e.status = 200 := by
    decide +kernel
  obtain ⟨hrecent, hstatus⟩ := hfine e he
  rw [(pages_show_selected t f noon).2.2.1 hfits hexact e]
  constructor
  · rintro ⟨-, hselects⟩
    have hstarts : Log.StartsWith "/2024/" e.path := hselects.path _ rfl
    have hpath : e.path ∈ ["/2024/a", "/2024-b"] := hpaths ▸ List.mem_map_of_mem he
    obtain hpath | hpath := by simpa using hpath
    · exact hpath
    · rw [hpath] at hstarts
      exact absurd hstarts (by decide)
  · intro hpath
    refine ⟨he, hrecent, ?_, ?_, ?_⟩
    · rintro _ ⟨⟩
      rw [hstatus]
    · rintro _ ⟨⟩
      rw [hstatus]
      decide
    · rintro _ ⟨⟩
      rw [hpath]
      decide

/-- An underscore stands for any character, and letters for both cases. -/
theorem underscore_selects_hyphen :
    let t := (LogSession.fresh.recordAll empty [.fetched "/api/global-report"]).table
    ∀ p ∈ ["/api/global_report", "/API"],
      (t.page ⟨24, none, none, some p⟩ 50 0 noon).map (·.map LogEntry.path) =
          .ok ["/api/global-report"] ∧
        ¬Log.StartsWith p "/api/global-report" := by
  decide +kernel

end LogTable

end AuditReport
