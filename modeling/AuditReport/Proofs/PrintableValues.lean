import AuditReport.Http.Input
import AuditReport.Proofs.DocumentFields
import AuditReport.Proofs.Readings

/-! Values that can be printed: those without an integer of too many digits. Such integers are not
read from texts either, so that all values which a request brings can be printed. -/

namespace AuditReport

open Fallible

namespace Number

theorem decimalValue?_lt {c : Char} {d : Nat} (h : Text.decimalValue? c = some d) : d < 10 := by
  obtain ⟨least, hleast, rfl⟩ := Option.map_eq_some_iff.mp h
  have hrange := List.find?_some hleast
  simp only [Bool.and_eq_true, decide_eq_true_eq] at hrange
  omega

theorem moreDigits_lt (cs : List Char) : ∀ d ∈ (moreDigits Text.decimalValue? cs).1, d < 10 := by
  fun_induction moreDigits Text.decimalValue? cs with
  | case1 => exact List.forall_mem_nil _
  | case2 c rest d hd ds _ hds ih =>
    rw [hds] at ih
    exact List.forall_mem_cons.mpr ⟨decimalValue?_lt hd, ih⟩
  | case3 => exact List.forall_mem_nil _
  | case4 c rest _ d hd ds _ hds ih =>
    rw [hds] at ih
    exact List.forall_mem_cons.mpr ⟨decimalValue?_lt hd, ih⟩
  | case5 => exact List.forall_mem_nil _

theorem takeDigits_lt (cs : List Char) : ∀ d ∈ (takeDigits Text.decimalValue? cs).1, d < 10 := by
  cases cs with
  | nil => exact List.forall_mem_nil _
  | cons c rest =>
    rw [takeDigits]
    cases hd : Text.decimalValue? c with
    | none => exact List.forall_mem_nil _
    | some d => exact List.forall_mem_cons.mpr ⟨decimalValue?_lt hd, moreDigits_lt rest⟩

/-- A run of digits denotes a number with as many digits at most. -/
theorem ofDigits_lt {ds : List Nat} (h : ∀ d ∈ ds, d < 10) : ofDigits ds < Nat.pow 10 ds.length := by
  have hfrom : ∀ n, ds.foldl (fun n d => 10 * n + d) n < (n + 1) * Nat.pow 10 ds.length := by
    induction ds with
    | nil =>
      intro n
      exact (Nat.mul_one (n + 1)).symm ▸ Nat.lt_succ_self n
    | cons d ds ih =>
      intro n
      obtain ⟨hd, hds⟩ := List.forall_mem_cons.mp h
      have hnext : 10 * n + d + 1 ≤ (n + 1) * 10 := by omega
      have hpower : Nat.pow 10 (ds.length + 1) = 10 * Nat.pow 10 ds.length := Nat.pow_succ'
      calc ds.foldl (fun n d => 10 * n + d) (10 * n + d)
          < (10 * n + d + 1) * Nat.pow 10 ds.length := ih hds _
        _ ≤ (n + 1) * 10 * Nat.pow 10 ds.length := Nat.mul_le_mul_right _ hnext
        _ = (n + 1) * Nat.pow 10 (ds.length + 1) := by rw [hpower, Nat.mul_assoc]
  have hwhole := hfrom 0
  rwa [Nat.zero_add, Nat.one_mul] at hwhole

theorem isPrintable_of_lt {n : Int} {count : Nat} (hcount : 0 < count) (hlimit : count ≤ digitLimit)
    (h : n.natAbs < Nat.pow 10 count) : isPrintable n = true := by
  have hlength := (Nat.length_toDigits_le_iff (b := 10) (by decide) hcount).mpr h
  rw [isPrintable, decide_eq_true_iff]
  exact Nat.le_trans hlength hlimit

theorem isPrintable_of_isWord {n : Int} (h : isWord n = true) : isPrintable n = true := by
  rw [isWord, Bool.and_eq_true, decide_eq_true_eq, decide_eq_true_eq] at h
  have hbound : n.natAbs < Nat.pow 10 19 := by
    show n.natAbs < 10000000000000000000
    unfold wordBound at h
    omega
  exact isPrintable_of_lt (by decide) (by decide) hbound

/-- Integers that can be read can be printed. -/
theorem isPrintable_of_readInt? {cs : List Char} {n : Int} (h : readInt? cs = some n) :
    isPrintable n = true := by
  unfold readInt? at h
  have hdigits := takeDigits_lt (takeSign cs).2
  dsimp only at h
  split at h
  · cases h
  · next ds hsome hds =>
    split at h
    · next hlimit =>
      rw [hds] at hdigits
      have hpositive : 0 < ds.length := List.length_pos_iff.mpr hsome
      refine isPrintable_of_lt hpositive hlimit ?_
      cases h
      split
      · rw [Int.natAbs_neg, Int.natAbs_natCast]
        exact ofDigits_lt hdigits
      · exact ofDigits_lt hdigits
    · cases h
  · cases h

end Number

namespace Value

@[simp] theorem isPrintable_list {items : List Value} :
    (list items).isPrintable = true ↔ ∀ v ∈ items, v.isPrintable = true := by
  rw [isPrintable]
  induction items with
  | nil => exact iff_of_true rfl (List.forall_mem_nil _)
  | cons v rest ih => rw [itemsPrintable, Bool.and_eq_true, ih, List.forall_mem_cons]

@[simp] theorem isPrintable_object {fields : List (String × Value)} :
    (object fields).isPrintable = true ↔ ∀ f ∈ fields, f.2.isPrintable = true := by
  rw [isPrintable]
  induction fields with
  | nil => exact iff_of_true rfl (List.forall_mem_nil _)
  | cons f rest ih => rw [fieldsPrintable, Bool.and_eq_true, ih, List.forall_mem_cons]

theorem isPrintable_get? {v w : Value} {name : String} (h : v.isPrintable = true)
    (hw : v.fields.get? name = some w) : w.isPrintable = true := by
  cases v with
  | object fields =>
    obtain ⟨f, hf, rfl⟩ := Option.map_eq_some_iff.mp hw
    exact isPrintable_object.mp h f (List.mem_of_find?_eq_some hf)
  | _ => cases hw

end Value

namespace Json

theorem isPrintable_word {cs : List Char} {v : Value} {n : Nat} (h : word? cs = some (v, n)) :
    v.isPrintable = true := by
  have hall : ∀ w ∈ words, w.2.isPrintable = true := by
    decide
  obtain ⟨w, hw, heq⟩ := Option.map_eq_some_iff.mp h
  cases heq
  exact hall w (List.mem_of_find?_eq_some hw)

theorem isPrintable_readNumber {c c' : Cursor} {v : Value} (h : readNumber c = .ok (v, c')) :
    v.isPrintable = true := by
  unfold readNumber at h
  extract_lets sign body whole fraction exponent length text at h
  split at h
  · cases h
  · split at h
    · split at h
      · next n hn =>
        cases h
        exact Number.isPrintable_of_readInt? hn
      · cases h
    · cases h
      rfl

/-- What the reader makes of the rest of a text can be printed, if the items or fields before it
can. -/
theorem isPrintable_read (fuel : Nat) :
    (∀ depth c v c', readValue fuel depth c = .ok (v, c') → v.isPrintable = true) ∧
    (∀ depth read c v c', (∀ w ∈ read, w.isPrintable = true) →
      readItems fuel depth read c = .ok (v, c') → v.isPrintable = true) ∧
    ∀ depth read c v c', (∀ f ∈ read, f.2.isPrintable = true) →
      readFields fuel depth read c = .ok (v, c') → v.isPrintable = true := by
  induction fuel with
  | zero => exact ⟨nofun, fun _ _ _ _ _ _ => nofun, fun _ _ _ _ _ _ => nofun⟩
  | succ fuel ih =>
    obtain ⟨hvalue, hitems, hfields⟩ := ih
    refine ⟨fun depth c v c' h => ?_, fun depth read c v c' hread h => ?_,
      fun depth read c v c' hread h => ?_⟩
    · unfold readValue at h
      split at h
      · split at h <;> cases h
        rfl
      · split at h
        · cases h
        · dsimp only at h
          split at h
          · cases h
            rfl
          · exact hfields _ _ _ _ _ (List.forall_mem_nil _) h
      · split at h
        · cases h
        · dsimp only at h
          split at h
          · cases h
            rfl
          · exact hitems _ _ _ _ _ (List.forall_mem_nil _) h
      · split at h
        · next hword =>
          cases h
          exact isPrintable_word hword
        · exact isPrintable_readNumber h
    · unfold readItems at h
      split at h
      · cases h
      · next w c hw =>
        have hmore : ∀ x ∈ w :: read, x.isPrintable = true :=
          List.forall_mem_cons.mpr ⟨hvalue _ _ _ _ hw, hread⟩
        dsimp only at h
        split at h
        · cases h
          exact Value.isPrintable_list.mpr fun x hx => hmore x (List.mem_reverse.mp hx)
        · exact hitems _ _ _ _ _ hmore h
        · cases h
    · unfold readFields at h
      split at h
      · split at h
        · cases h
        · next name c hname =>
          dsimp only at h
          split at h
          · split at h
            · cases h
            · next w c hw =>
              have hmore : ∀ f ∈ (name, w) :: read, f.2.isPrintable = true :=
                List.forall_mem_cons.mpr ⟨hvalue _ _ _ _ hw, hread⟩
              split at h
              · cases h
                refine Value.isPrintable_object.mpr fun f hf => ?_
                exact hmore f (List.mem_reverse.mp (Document.mem_ofPairs hf))
              · exact hfields _ _ _ _ _ hmore h
              · cases h
          · cases h
      · cases h

/-- JSON text holds integers that can be printed only. -/
theorem isPrintable_readWithin {depth : Nat} {s : String} {v : Value}
    (h : readWithin depth s = .ok v) : v.isPrintable = true := by
  unfold readWithin at h
  dsimp only at h
  split at h
  · cases h
  · next w c hw =>
    split at h
    · cases h
      exact (isPrintable_read _).1 _ _ _ _ hw
    · cases h

end Json

/-! ## Requests -/

theorem Filter.isPrintable_of_read {kind : Schema.IssueKind} {v : Value} {f : Filter}
    (hv : v.isPrintable = true) (h : read kind v = .ok f) : f.value.isPrintable = true := by
  cases v with
  | object d =>
    obtain ⟨_, w, htwo, hw, rfl⟩ := Schema.Reading.app_ok_iff.mp h
    obtain ⟨_, operator, hone, -, rfl⟩ := Schema.Reading.app_ok_iff.mp htwo
    obtain ⟨column, -, rfl⟩ := map_ok_iff.mp hone
    rcases Schema.mem_of_optional hw with rfl | ⟨field, hfield, hvalue⟩
    · rfl
    · cases hvalue
      exact Value.isPrintable_object.mp hv field hfield
  | _ => cases h

theorem Filter.isPrintable_of_reads {kind : Schema.IssueKind} {items : List Value}
    {fs : List Filter} (hitems : ∀ v ∈ items, v.isPrintable = true)
    (h : List.Forall₂ (fun v f => read kind v = .ok f) items fs) :
    ∀ f ∈ fs, f.value.isPrintable = true := by
  induction h with
  | nil => exact List.forall_mem_nil _
  | cons hfirst _ ih =>
    obtain ⟨hv, hrest⟩ := List.forall_mem_cons.mp hitems
    exact List.forall_mem_cons.mpr ⟨Filter.isPrintable_of_read hv hfirst, ih hrest⟩

/-- The values of filters that are read from fields can be printed if those of the fields can. -/
theorem ReportQuery.isPrintable_of_readFields {kind : Schema.IssueKind} {d : Document}
    {q : ReportQuery} (hd : ∀ f ∈ d, f.2.isPrintable = true) (h : readFields kind d = .ok q) :
    ∀ f ∈ q.filters, f.value.isPrintable = true := by
  obtain ⟨hfilters, -⟩ := readFields_ok_iff.mp h
  rcases Schema.mem_of_optional hfilters with hnone | ⟨field, hfield, hlist⟩
  · rw [hnone]
    exact List.forall_mem_nil _
  · have hprintable := hd field hfield
    cases hvalue : field.2 with
    | list items =>
      rw [hvalue] at hprintable hlist
      exact Filter.isPrintable_of_reads (Value.isPrintable_list.mp hprintable)
        (Schema.readItems_ok_iff.mp hlist)
    | _ =>
      rw [hvalue] at hlist
      cases hlist

theorem ReportQuery.isPrintable_of_read {kind : Schema.IssueKind} {v : Value} {q : ReportQuery}
    (hv : v.isPrintable = true) (h : read kind v = .ok q) :
    ∀ f ∈ q.filters, f.value.isPrintable = true := by
  cases v with
  | object d => exact isPrintable_of_readFields (Value.isPrintable_object.mp hv) (Schema.closed_ok h)
  | _ => cases h

theorem ExportRequest.isPrintable_of_read {kind : Schema.IssueKind} {v : Value} {e : ExportRequest}
    (hv : v.isPrintable = true) (h : read kind v = .ok e) :
    ∀ f ∈ e.query.filters, f.value.isPrintable = true := by
  cases v with
  | object d =>
    exact ReportQuery.isPrintable_of_readFields (Value.isPrintable_object.mp hv) (parts_of_read h).1
  | _ => cases h

namespace Http.Input

theorem isPrintable_bodyValue {r : Request} {v : Value} (h : bodyValue r = .ok (some v)) :
    v.isPrintable = true := by
  unfold bodyValue at h
  dsimp only at h
  split at h
  · cases h
  · split at h
    · cases h
      rfl
    · split at h
      · next w hw =>
        cases h
        obtain ⟨s, -, hs⟩ := Option.map_eq_some_iff.mp hw
        exact Json.isPrintable_readWithin hs
      all_goals cases h

theorem body_ok {α : Type} {r : Request} {read : Schema.Reader α} {a : α}
    (h : body r read = .ok a) : ∃ v, bodyValue r = .ok (some v) ∧ read v = .ok a := by
  obtain ⟨v, hv, h⟩ := bind_ok_iff.mp h
  cases v with
  | none => cases h
  | some v => exact ⟨v, hv, Schema.under_ok_iff.mp (mapError_ok_iff.mp h)⟩

/-- **What requests bring can be printed.** No filter of a page or an export that is read from a body
has an integer too long to be printed in its value. -/
theorem isPrintable_body {r : Request} {kind : Schema.IssueKind} :
    (∀ q, body r (ReportQuery.read kind) = .ok q → ∀ f ∈ q.filters, f.value.isPrintable = true) ∧
    ∀ e, body r (ExportRequest.read kind) = .ok e →
      ∀ f ∈ e.query.filters, f.value.isPrintable = true := by
  constructor
  · intro q hq
    obtain ⟨v, hv, hread⟩ := body_ok hq
    exact ReportQuery.isPrintable_of_read (isPrintable_bodyValue hv) hread
  · intro e he
    obtain ⟨v, hv, hread⟩ := body_ok he
    exact ExportRequest.isPrintable_of_read (isPrintable_bodyValue hv) hread

end Http.Input

end AuditReport
