import AuditReport.Log.Table
import Mathlib.Algebra.Order.Group.Int
import Mathlib.Tactic.Tauto

/-! How the log grows: a draft whose values the table takes makes one entry behind all others, under
a number that none of them has. -/

namespace AuditReport

open Text.Surrogate (isPaired)

namespace LogDraft

variable {d : LogDraft}

def numbers (d : LogDraft) : List (Option Int) := [d.id, d.status]

def texts (d : LogDraft) : List (Option String) :=
  [d.method, d.path, d.clientIp, d.requestBody, d.responseBody, d.userAgent, d.userId, d.userRole,
    d.errorType, d.hostname, d.applicationId]

theorem numberFault?_eq_none {n : Option Int} :
    numberFault? n = none ↔ ∀ k ∈ n, Number.isWord k = true := by
  cases n <;> simp [numberFault?]

theorem textFault?_eq_none {s : Option String} :
    textFault? s = none ↔ ∀ t ∈ s, isPaired t = true := by
  cases s <;> simp [textFault?]

theorem fault?_eq_none_iff : d.fault? = none ↔
    (∀ n ∈ d.numbers, ∀ k ∈ n, Number.isWord k = true) ∧
      ∀ s ∈ d.texts, ∀ t ∈ s, isPaired t = true := by
  simp only [fault?, numbers, texts, List.findSome?_eq_none_iff, List.forall_mem_cons,
    numberFault?_eq_none, textFault?_eq_none]
  tauto

/-- The entry that a draft makes under a number, unless the table takes none of it. -/
def written (d : LogDraft) (id : Int) (now : Calendar.Moment) : List LogEntry :=
  match d.fault? with
  | some _ => []
  | none => (d.entry? id now).toList

end LogDraft

namespace LogTable

theorem le_foldl_max (n : Int) (ns : List Int) : ∀ m ∈ n :: ns, m ≤ ns.foldl max n := by
  induction ns generalizing n with
  | nil => simp
  | cons k ns ih =>
    have hrest := ih (max n k)
    have hmax := hrest _ List.mem_cons_self
    simp only [List.forall_mem_cons] at hrest ⊢
    exact ⟨(le_max_left n k).trans hmax, (le_max_right n k).trans hmax, hrest.2⟩

theorem lt_nextId {t : LogTable} {e : LogEntry} (h : e ∈ t.entries) : e.id < t.nextId := by
  have hid : e.id ∈ t.entries.map LogEntry.id := List.mem_map_of_mem h
  unfold nextId
  split
  · next hnone => exact absurd (hnone ▸ hid) List.not_mem_nil
  · next n ns hsome => exact Int.lt_add_one_of_le (le_foldl_max n ns _ (hsome ▸ hid))

theorem entry?_nextId (t : LogTable) : t.entry? t.nextId = none :=
  List.find?_eq_none.mpr fun _ he => by simpa using (lt_nextId he).ne

/-- A draft without a number of its own adds the entry that it makes. -/
theorem persist_written {t : LogTable} {d : LogDraft} {now : Calendar.Moment} (hid : d.id = none) :
    (t.persist d now).2.entries = t.entries ++ d.written t.nextId now := by
  have hinsert : t.insert? d now =
      (d.entry? t.nextId now).map fun e => ⟨t.entries ++ [e]⟩ := by
    simp [insert?, hid, entry?_nextId]
  simp only [persist, LogSession.record, LogSession.fresh, Bool.false_eq_true, if_false,
    LogDraft.written, hinsert]
  cases d.fault? <;> cases d.entry? t.nextId now <;> simp

/-- Whatever is logged, the entries that are there stay as they are. -/
theorem persist_grows (t : LogTable) (d : LogDraft) (now : Calendar.Moment) :
    t.entries <+: (t.persist d now).2.entries := by
  unfold persist LogSession.record
  simp only [LogSession.fresh, Bool.false_eq_true, if_false]
  split
  · exact List.prefix_refl _
  · next t' hinsert =>
    unfold insert? at hinsert
    dsimp only at hinsert
    split at hinsert
    · cases hinsert
    · obtain ⟨e, -, rfl⟩ := Option.map_eq_some_iff.mp hinsert
      exact List.prefix_append _ _
  · exact List.prefix_refl _

end LogTable

end AuditReport
