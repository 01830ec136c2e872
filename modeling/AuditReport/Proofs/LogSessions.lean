import AuditReport.Proofs.LogGrowth
import Mathlib.Data.List.Forall2
import Mathlib.Data.List.TakeWhile

/-! Requests logged one after the other in one session. Those that the table takes make its entries.
The first one that it refuses ends the session: what comes later is neither kept nor told, and no
question is answered any more. -/

namespace AuditReport

open Calendar (Moment)

/-- A request to be logged, at a time. -/
structure LogCall where
  draft : LogDraft
  time : Moment

namespace LogCall

/-- Noon of a day. -/
def noon : Moment := ⟨⟨2024, 7, 8, by decide⟩, 43200000000, by decide, none⟩

/-- A request for a path that went well, at noon. -/
def fetched (path : String) : LogCall where
  draft := { LogDraft.blank with method := some "GET", path := some path, status := some 200 }
  time := noon

end LogCall

namespace LogDraft

/-- The draft can be handed to the table and has all that an entry needs. -/
def isAcceptable (d : LogDraft) : Bool :=
  d.fault?.isNone && d.method.isSome && d.path.isSome && d.status.isSome

variable {d : LogDraft} {now : Moment} {id : Int}

theorem entry?_isSome :
    (d.entry? id now).isSome = (d.method.isSome && d.path.isSome && d.status.isSome) := by
  unfold entry?
  cases d.method <;> cases d.path <;> cases d.status <;> rfl

theorem isAcceptable_eq (id : Int) (now : Moment) :
    d.isAcceptable = (d.fault?.isNone && (d.entry? id now).isSome) := by
  rw [isAcceptable, entry?_isSome, Bool.and_assoc, Bool.and_assoc, Bool.and_assoc]

theorem entry?_id {e : LogEntry} (h : d.entry? id now = some e) : e.id = id := by
  unfold entry? at h
  cases hmethod : d.method <;> cases hpath : d.path <;> cases hstatus : d.status <;>
    simp [hmethod, hpath, hstatus] at h
  rw [← h]

end LogDraft

namespace LogTable

variable {t : LogTable} {d : LogDraft} {now : Moment} {e : LogEntry} {c : LogCall}
  {cs : List LogCall}

/-! ## One request -/

/-- The table takes a draft that is acceptable and whose number, if it has one, is free. -/
def takes (t : LogTable) (d : LogDraft) : Bool :=
  d.isAcceptable && d.id.all fun n => (t.entry? n).isNone

theorem entry?_number (t : LogTable) (n : Option Int) :
    (t.entry? (n.getD t.nextId)).isNone = n.all fun n => (t.entry? n).isNone := by
  cases n with
  | none => rw [Option.getD_none, entry?_nextId]; rfl
  | some n => rfl

theorem takes_eq (t : LogTable) (d : LogDraft) (now : Moment) :
    t.takes d = (d.fault?.isNone && (t.insert? d now).isSome) := by
  rw [takes, LogDraft.isAcceptable_eq (d.id.getD t.nextId) now, ← entry?_number, insert?]
  cases t.entry? (d.id.getD t.nextId) <;> simp

theorem insert?_eq_some {after : LogTable} (h : t.insert? d now = some after) :
    ∃ e, t.entry? (d.id.getD t.nextId) = none ∧ d.entry? (d.id.getD t.nextId) now = some e ∧
      after = ⟨t.entries ++ [e]⟩ := by
  unfold insert? at h
  dsimp only at h
  split at h
  · cases h
  · next hfree =>
    obtain ⟨e, he, rfl⟩ := Option.map_eq_some_iff.mp h
    exact ⟨e, Option.not_isSome_iff_eq_none.mp hfree, he, rfl⟩

/-- A draft that the table takes makes one entry, behind all others. -/
theorem insert?_of_takes (h : t.takes d = true) (now : Moment) : d.fault? = none ∧ ∃ e,
    d.entry? (d.id.getD t.nextId) now = some e ∧ t.insert? d now = some ⟨t.entries ++ [e]⟩ := by
  rw [takes_eq t d now, Bool.and_eq_true, Option.isNone_iff_eq_none] at h
  obtain ⟨hfault, hinsert⟩ := h
  obtain ⟨after, hafter⟩ := Option.isSome_iff_exists.mp hinsert
  obtain ⟨e, -, he, rfl⟩ := insert?_eq_some hafter
  exact ⟨hfault, e, he, hafter⟩

theorem takes_of_id_none (h : d.id = none) : t.takes d = d.isAcceptable := by
  rw [takes, h, Option.all_none, Bool.and_true]

theorem foldl_max_append_singleton (n m : Int) (ns : List Int) (h : ns.foldl max n < m) :
    (ns ++ [m]).foldl max n = m := by
  rw [List.foldl_append, List.foldl_cons, List.foldl_nil, max_eq_right h.le]

/-- The number behind the next free one is the next. -/
theorem nextId_append (h : e.id = t.nextId) :
    LogTable.nextId ⟨t.entries ++ [e]⟩ = t.nextId + 1 := by
  unfold nextId at h ⊢
  cases hids : t.entries.map LogEntry.id with
  | nil => simp_all
  | cons n ns =>
    rw [hids] at h
    simp only [List.map_append, hids, List.map_cons, List.map_nil, List.cons_append]
    rw [foldl_max_append_singleton n e.id ns (h ▸ Int.lt_succ _), h]

/-! ## The requests that the table takes -/

/-- Those of some requests that the table takes one after the other. -/
def taken (t : LogTable) : List LogCall → List LogCall
  | [] => []
  | c :: cs => if t.takes c.draft then c :: (t.persist c.draft c.time).2.taken cs else t.taken cs

/-- The requests before the first one that the table refuses. -/
def leading (t : LogTable) : List LogCall → List LogCall
  | [] => []
  | c :: cs => if t.takes c.draft then c :: (t.persist c.draft c.time).2.leading cs else []

theorem leading_prefix_taken (t : LogTable) (cs : List LogCall) : t.leading cs <+: t.taken cs := by
  induction cs generalizing t with
  | nil => exact List.prefix_refl _
  | cons c cs ih =>
    unfold leading taken
    split
    · exact List.cons_prefix_cons.mpr ⟨rfl, ih _⟩
    · exact List.nil_prefix

/-- Among the requests that the table takes, it refuses none. -/
theorem leading_taken (t : LogTable) (cs : List LogCall) : t.leading (t.taken cs) = t.taken cs := by
  induction cs generalizing t with
  | nil => rfl
  | cons c cs ih =>
    unfold taken
    split
    · next htaken => rw [leading, if_pos htaken, ih]
    · exact ih t

theorem taken_sublist (t : LogTable) (cs : List LogCall) : (t.taken cs).Sublist cs := by
  induction cs generalizing t with
  | nil => exact List.Sublist.refl _
  | cons c cs ih =>
    unfold taken
    split
    · exact (ih _).cons_cons c
    · exact (ih t).cons c

theorem taken_eq_self (h : t.leading cs = cs) : t.taken cs = cs := by
  have hprefix := leading_prefix_taken t cs
  rw [h] at hprefix
  exact (taken_sublist t cs).eq_of_length_le hprefix.length_le

section

variable (hids : ∀ c ∈ cs, c.draft.id = none)
include hids

theorem taken_eq_filter : t.taken cs = cs.filter (·.draft.isAcceptable) := by
  induction cs generalizing t with
  | nil => rfl
  | cons c cs ih =>
    obtain ⟨hid, hids⟩ := List.forall_mem_cons.mp hids
    rw [taken, takes_of_id_none hid, List.filter_cons, ih hids, ih hids]

theorem leading_eq_takeWhile : t.leading cs = cs.takeWhile (·.draft.isAcceptable) := by
  induction cs generalizing t with
  | nil => rfl
  | cons c cs ih =>
    obtain ⟨hid, hids⟩ := List.forall_mem_cons.mp hids
    rw [leading, takes_of_id_none hid, List.takeWhile_cons, ih hids]

end

/-- No two entries have the same number. -/
def Keyed (t : LogTable) : Prop := (t.entries.map LogEntry.id).Nodup

theorem Keyed.insert? {after : LogTable} (hkeyed : t.Keyed)
    (h : t.insert? d now = some after) : after.Keyed := by
  obtain ⟨e, hfree, he, rfl⟩ := insert?_eq_some h
  rw [← LogDraft.entry?_id he] at hfree
  have hnew : e.id ∉ t.entries.map LogEntry.id := by
    intro hmem
    obtain ⟨other, hother, hsame⟩ := List.mem_map.mp hmem
    exact List.find?_eq_none.mp hfree other hother (decide_eq_true hsame)
  rw [Keyed, List.map_append, List.map_singleton]
  exact List.nodup_append.mpr ⟨hkeyed, List.nodup_cons.mpr ⟨List.not_mem_nil, List.nodup_nil⟩, fun a ha b hb hab =>
    hnew (List.mem_singleton.mp hb ▸ hab ▸ ha)⟩

end LogTable

namespace LogSession

open LogTable
open LogCall (noon)

variable {s : LogSession} {t : LogTable} {d : LogDraft} {now : Moment} {c : LogCall}
  {cs : List LogCall}

/-! ## One request in a session -/

theorem record_broken (h : s.broken = true) : s.record t d now = (.ok (), s, t) := by
  rw [record, if_pos h]

theorem persist_taken (h : t.takes d = true) (now : Moment) : ∃ e,
    d.entry? (d.id.getD t.nextId) now = some e ∧
      t.persist d now = (.ok (), ⟨t.entries ++ [e]⟩) := by
  obtain ⟨hfault, e, he, hinsert⟩ := insert?_of_takes h now
  refine ⟨e, he, ?_⟩
  simp only [persist, record, fresh, Bool.false_eq_true, if_false, hfault, hinsert]

/-- A new session takes a draft as one of the draft's own does, and can be used on. -/
theorem record_taken (h : t.takes d = true) (now : Moment) :
    fresh.record t d now = (.ok (), fresh, (t.persist d now).2) := by
  obtain ⟨hfault, e, -, hinsert⟩ := insert?_of_takes h now
  simp only [persist, record, fresh, Bool.false_eq_true, if_false, hfault, hinsert]

/-- What is told of a refused draft is the value that could not be handed over, if there is one. -/
theorem record_refused (h : t.takes d = false) : fresh.record t d now =
    (match d.fault? with | some f => .error f | none => .ok (), ⟨true⟩, t) := by
  rw [takes_eq t d now] at h
  simp only [record, fresh, Bool.false_eq_true, if_false]
  cases hfault : d.fault? with
  | some f => rfl
  | none =>
    rw [hfault, Option.isNone_none, Bool.true_and] at h
    rw [Option.not_isSome_iff_eq_none.mp (Bool.eq_false_iff.mp h)]

theorem record_quiet (h : d.fault? = none) : (s.record t d now).1 = .ok () := by
  unfold record
  rw [h]
  split
  · rfl
  · cases t.insert? d now <;> rfl

/-- What comes of requests. -/
structure Run where
  /-- What is told of each of them. -/
  told : List (Except LogDraft.Unfit Unit)
  session : LogSession
  table : LogTable

/-- Logs requests one after the other. -/
def recordAll (s : LogSession) (t : LogTable) : List LogCall → Run
  | [] => ⟨[], s, t⟩
  | c :: cs =>
    let (told, s, t) := s.record t c.draft c.time
    let rest := s.recordAll t cs
    { rest with told := told :: rest.told }

theorem recordAll_quiet (s : LogSession) (t : LogTable) (h : ∀ c ∈ cs, c.draft.fault? = none) :
    ∀ told ∈ (s.recordAll t cs).told, told = .ok () := by
  induction cs generalizing s t with
  | nil => exact List.forall_mem_nil _
  | cons c cs ih =>
    obtain ⟨hfirst, hrest⟩ := List.forall_mem_cons.mp h
    exact List.forall_mem_cons.mpr ⟨record_quiet hfirst, ih _ _ hrest⟩

/-- A session that is broken stays so, and leaves the table as it is. -/
theorem recordAll_broken (h : s.broken = true) (t : LogTable) (cs : List LogCall) :
    (s.recordAll t cs).session = s ∧ (s.recordAll t cs).table = t := by
  induction cs with
  | nil => exact ⟨rfl, rfl⟩
  | cons c cs ih => simpa only [recordAll, record_broken h] using ih

theorem recordAll_taken (h : t.takes c.draft = true) (cs : List LogCall) :
    (fresh.recordAll t (c :: cs)).session =
        (fresh.recordAll (t.persist c.draft c.time).2 cs).session ∧
      (fresh.recordAll t (c :: cs)).table =
        (fresh.recordAll (t.persist c.draft c.time).2 cs).table := by
  rw [recordAll, record_taken h]
  exact ⟨rfl, rfl⟩

theorem recordAll_refused (h : t.takes c.draft = false) (cs : List LogCall) :
    (fresh.recordAll t (c :: cs)).session = ⟨true⟩ ∧ (fresh.recordAll t (c :: cs)).table = t := by
  rw [recordAll, record_refused h]
  exact recordAll_broken rfl t cs

/-- Only the requests before the first one that the table refuses matter to the table. -/
theorem recordAll_leading (t : LogTable) (cs : List LogCall) :
    (fresh.recordAll t cs).table = (fresh.recordAll t (t.leading cs)).table := by
  induction cs generalizing t with
  | nil => rfl
  | cons c cs ih =>
    unfold leading
    split
    · next htaken => rw [(recordAll_taken htaken _).2, (recordAll_taken htaken _).2, ih]
    · next hrefused => exact (recordAll_refused (Bool.eq_false_iff.mpr hrefused) cs).2

theorem recordAll_broken_iff (t : LogTable) (cs : List LogCall) :
    (fresh.recordAll t cs).session.broken = true ↔ t.leading cs ≠ cs := by
  induction cs generalizing t with
  | nil => exact iff_of_false nofun (not_not.mpr rfl)
  | cons c cs ih =>
    unfold leading
    split
    · next htaken => rw [(recordAll_taken htaken _).1, ih, ne_eq, ne_eq, List.cons_inj_right]
    · next hrefused =>
      rw [(recordAll_refused (Bool.eq_false_iff.mpr hrefused) cs).1]
      exact iff_of_true rfl nofun

/-- Up to the first request that the table refuses, each makes its entry. -/
theorem recordAll_entries (t : LogTable) (cs : List LogCall) :
    ∃ new, (fresh.recordAll t cs).table.entries = t.entries ++ new ∧
      List.Forall₂ (fun c e => c.draft.entry? e.id c.time = some e) (t.leading cs) new ∧
      ((∀ c ∈ cs, c.draft.id = none) →
        new.map LogEntry.id = (List.range new.length).map fun i : Nat => t.nextId + i) := by
  induction cs generalizing t with
  | nil => exact ⟨[], (List.append_nil _).symm, .nil, fun _ => rfl⟩
  | cons c cs ih =>
    unfold leading
    split
    · next htaken =>
      obtain ⟨e, he, hpersist⟩ := persist_taken htaken c.time
      have hid := LogDraft.entry?_id he
      obtain ⟨new, hentries, hnew, hids⟩ := ih ⟨t.entries ++ [e]⟩
      rw [(recordAll_taken htaken cs).2, hpersist]
      refine ⟨e :: new, by simpa using hentries, .cons (hid ▸ he) hnew, fun hall => ?_⟩
      obtain ⟨hnone, hall⟩ := List.forall_mem_cons.mp hall
      rw [hnone, Option.getD_none] at hid
      rw [List.map_cons, hid, hids hall, nextId_append hid, List.length_cons,
        List.range_succ_eq_map, List.map_cons, List.map_map]
      refine congrArg₂ List.cons (Int.add_zero _).symm (List.map_congr_left fun i _ => ?_)
      simp only [Function.comp_apply]
      omega
    · next hrefused =>
      refine ⟨[], ?_, .nil, fun _ => rfl⟩
      rw [(recordAll_refused (Bool.eq_false_iff.mpr hrefused) cs).2, List.append_nil]

/-- The table is as without the refused requests just if none that would be taken comes behind one
that is refused. -/
theorem recordAll_table_eq_iff (t : LogTable) (cs : List LogCall) :
    (fresh.recordAll t cs).table = (fresh.recordAll t (t.taken cs)).table ↔
      t.leading cs = t.taken cs := by
  constructor
  · intro hsame
    obtain ⟨new, hentries, hnew, -⟩ := recordAll_entries t cs
    obtain ⟨kept, hkept, htaken, -⟩ := recordAll_entries t (t.taken cs)
    rw [leading_taken] at htaken
    rw [hsame, hkept, List.append_right_inj] at hentries
    refine (leading_prefix_taken t cs).eq_of_length ?_
    rw [hnew.length_eq, htaken.length_eq, hentries]
  · intro hsame
    rw [recordAll_leading t cs, hsame]

/-! ## Questions in a session -/

section

variable {α : Type}

theorem ask_fresh_ne (answer : Answer α) : fresh.ask answer ≠ .error .sessionBroken := by
  cases answer <;> simp [ask, fresh, Except.mapError]

theorem recordAll_taken_session (t : LogTable) (cs : List LogCall) :
    (fresh.recordAll t (t.taken cs)).session = fresh := by
  have hwhole : (fresh.recordAll t (t.taken cs)).session.broken = false :=
    Bool.eq_false_iff.mpr fun h => (recordAll_broken_iff t _).mp h (leading_taken t cs)
  exact congrArg LogSession.mk hwhole

/-- A question is answered as without the refused requests just if there are none. -/
theorem ask_alike_iff (t : LogTable) (cs : List LogCall) (question : LogTable → Answer α) :
    (fresh.recordAll t cs).session.ask (question (fresh.recordAll t cs).table) =
        fresh.ask (question (fresh.recordAll t (t.taken cs)).table) ↔
      t.leading cs = cs := by
  constructor
  · intro halike
    by_contra hrefused
    rw [ask, if_pos ((recordAll_broken_iff t cs).mpr hrefused)] at halike
    exact ask_fresh_ne _ halike.symm
  · intro hall
    have hsession := recordAll_taken_session t cs
    rw [taken_eq_self hall] at hsession ⊢
    rw [hsession]

/-- A question with a filter, too, unless it looks back behind the calendar, which is told before the
session is used. -/
theorem askWith_alike_iff (t : LogTable) (cs : List LogCall) (f : LogFilter)
    (question : LogTable → Answer α) :
    (fresh.recordAll t cs).session.askWith f now (question (fresh.recordAll t cs).table) =
        fresh.askWith f now (question (fresh.recordAll t (t.taken cs)).table) ↔
      t.leading cs = cs ∨ ∃ fault, windowStart f now = .error fault := by
  unfold askWith
  cases hstart : windowStart f now with
  | error fault => exact iff_of_true rfl (.inr ⟨fault, rfl⟩)
  | ok start =>
    refine (ask_alike_iff t cs question).trans (or_iff_left ?_).symm
    rintro ⟨fault, ⟨⟩⟩

end

/-- **A refused request ends its session.** What is told of requests that are logged in one session
never tells that the table refused one for want of a method, a path or a status. But what is in the
table afterwards are the entries of the requests before the first refused one, instead of those of
all requests that the table would have taken without the refused ones; and the session answers no
question any more. So the table is as without the refused requests just if no acceptable one comes
behind a refused one, and answers are so just if none was refused or the question looks back behind
the calendar. -/
theorem refused_draft_ends_session (t : LogTable) (cs : List LogCall) :
    let run := fresh.recordAll t cs
    let kept := fresh.recordAll t (t.taken cs)
    ((∀ c ∈ cs, c.draft.fault? = none) → ∀ told ∈ run.told, told = .ok ()) ∧
      (∃ new, run.table.entries = t.entries ++ new ∧
        List.Forall₂ (fun c e => c.draft.entry? e.id c.time = some e) (t.leading cs) new) ∧
      (∃ new, kept.table.entries = t.entries ++ new ∧
        List.Forall₂ (fun c e => c.draft.entry? e.id c.time = some e) (t.taken cs) new ∧
        ((∀ c ∈ cs, c.draft.id = none) →
          new.map LogEntry.id = (List.range new.length).map fun i : Nat => t.nextId + i)) ∧
      (run.table = kept.table ↔ t.leading cs = t.taken cs) ∧
      ((∀ c ∈ cs, c.draft.id = none) →
        t.leading cs = cs.takeWhile (·.draft.isAcceptable) ∧
          t.taken cs = cs.filter (·.draft.isAcceptable)) ∧
      (run.session.broken = true ↔ t.leading cs ≠ cs) ∧ kept.session.broken = false ∧
      (∀ id, run.session.ask (run.table.find id) = kept.session.ask (kept.table.find id) ↔
        t.leading cs = cs) ∧
      ∀ f now,
        (∀ limit offset,
          run.session.askWith f now (run.table.page f limit offset now) =
              kept.session.askWith f now (kept.table.page f limit offset now) ↔
            t.leading cs = cs ∨ ∃ fault, windowStart f now = .error fault) ∧
          (run.session.askWith f now (run.table.count f now) =
              kept.session.askWith f now (kept.table.count f now) ↔
            t.leading cs = cs ∨ ∃ fault, windowStart f now = .error fault) := by
  intro run kept
  obtain ⟨new, hentries, hnew, -⟩ := recordAll_entries t cs
  obtain ⟨all, hkept, htaken, hids⟩ := recordAll_entries t (t.taken cs)
  rw [leading_taken] at htaken
  have hfresh : kept.session = fresh := recordAll_taken_session t cs
  refine ⟨recordAll_quiet fresh t, ⟨new, hentries, hnew⟩, ⟨all, hkept, htaken, fun hnone =>
    hids fun c hc => hnone c ((taken_sublist t cs).subset hc)⟩, recordAll_table_eq_iff t cs,
    fun hnone => ⟨leading_eq_takeWhile hnone, taken_eq_filter hnone⟩,
    recordAll_broken_iff t cs, congrArg broken hfresh, ?_⟩
  rw [hfresh]
  exact ⟨fun id => ask_alike_iff t cs fun table => table.find id, fun f now =>
    ⟨fun limit offset => askWith_alike_iff t cs f fun table => table.page f limit offset now,
      askWith_alike_iff t cs f fun table => table.count f now⟩⟩

/-- A request without a status between two that are acceptable: the first makes an entry, the last
does not. -/
theorem refused_draft_ends_session_three :
    let incomplete := { LogDraft.blank with method := some "GET", path := some "/b" }
    let cs : List LogCall := [.fetched "/a", ⟨incomplete, noon⟩, .fetched "/c"]
    let run := fresh.recordAll empty cs
    let kept := fresh.recordAll empty (empty.taken cs)
    run.told = [.ok (), .ok (), .ok ()] ∧ run.table.entries.length = 1 ∧
      kept.table.entries.map LogEntry.id = [1, 2] ∧ run.table ≠ kept.table ∧
      run.session.ask (run.table.find 1) ≠ kept.session.ask (kept.table.find 1) ∧
      run.session.askWith ⟨24, none, none, none⟩ noon
          (run.table.count ⟨24, none, none, none⟩ noon) ≠
        kept.session.askWith ⟨24, none, none, none⟩ noon
          (kept.table.count ⟨24, none, none, none⟩ noon) := by
  intro incomplete cs run kept
  obtain ⟨hquiet, ⟨new, hentries, hnew⟩, ⟨all, hkept, htaken, hids⟩, htable, hnone, -, -, hfind,
    hwith⟩ := refused_draft_ends_session empty cs
  have hfit : ∀ c ∈ cs, c.draft.fault? = none := by decide
  have hnumbers : ∀ c ∈ cs, c.draft.id = none := by decide
  obtain ⟨hleading, htakes⟩ := hnone hnumbers
  have hfirst : empty.leading cs = [.fetched "/a"] := hleading.trans (by rfl)
  have hboth : empty.taken cs = [.fetched "/a", .fetched "/c"] := htakes.trans (by rfl)
  have hrefused : empty.leading cs ≠ cs := by
    rw [hfirst]
    exact fun hsame => absurd (congrArg List.length hsame) (by decide)
  have hall : all.length = 2 := htaken.length_eq.symm.trans (congrArg List.length hboth)
  refine ⟨?_, ?_, ?_, ?_, ?_, ?_⟩
  · exact List.eq_replicate_of_mem (hquiet hfit)
  · rw [hentries, empty, List.nil_append, ← hnew.length_eq, hfirst]
    rfl
  · rw [hkept, empty, List.nil_append, hids hnumbers, hall]
    rfl
  · rw [ne_eq, htable, hfirst, hboth]
    exact fun hsame => absurd (congrArg List.length hsame) (by decide)
  · exact fun halike => hrefused ((hfind 1).mp halike)
  · let dayBefore : Moment := ⟨⟨2024, 7, 7, by decide⟩, 43200000000, by decide, none⟩
    have hback : noon.shift? (-(24 * Calendar.hour)) = some dayBefore := by decide +kernel
    have hstart : windowStart ⟨24, none, none, none⟩ noon = .ok dayBefore := by
      rw [windowStart, hback]
    intro halike
    obtain hsame | ⟨fault, hfault⟩ := (hwith _ _).2.mp halike
    · exact hrefused hsame
    · cases hstart.symm.trans hfault

/-- A request without a status is refused, the next one is not kept, and neither is told. Nothing
can be read any more. Without the first, the second would be there. -/
theorem complete_draft_lost :
    let incomplete : LogCall := ⟨{ LogDraft.blank with path := some "/x" }, noon⟩
    let complete : LogCall := .fetched "/ok"
    let lastDay : LogFilter := ⟨24, none, none, none⟩
    let run := fresh.recordAll empty [incomplete, complete]
    let alone := fresh.recordAll empty [complete]
    run.told = [.ok (), .ok ()] ∧ run.table.entries.map LogEntry.path = [] ∧
      run.session.askWith lastDay noon (run.table.count lastDay noon) = .error .sessionBroken ∧
      (run.session.ask (run.table.find 1)).map (·.map LogEntry.path) = .error .sessionBroken ∧
      alone.told = [.ok ()] ∧ alone.table.entries.map LogEntry.path = ["/ok"] ∧
      alone.session.askWith lastDay noon (alone.table.count lastDay noon) = .ok 1 ∧
      (alone.session.ask (alone.table.find 1)).map (·.map LogEntry.path) = .ok (some "/ok") := by
  decide +kernel

end LogSession

end AuditReport
