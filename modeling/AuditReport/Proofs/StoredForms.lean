import AuditReport.Proofs.CoercedValues
import AuditReport.Proofs.WordSizes

/-! Stored forms. What coercion makes of the value of a filter has the form in which the store holds
such values, and coercion takes a stored form for itself. Both are facts about single values, carried
over to ranges and lists. -/

namespace AuditReport

open Fallible

namespace Coercion

variable {c : Column} {op : Operator} {v w r : Value} {key : String}
  {R S : Value → Value → Prop}

/-- What a value of a column is stored as: an identity, an integer of 64 bits or a finite double, a
moment without offset, or a truth value; texts and fixed values as they are. -/
inductive IsStored : DataType → (given stored : Value) → Prop
  | id {v : Value} {i : DocumentId} : IsStored .id v (.id i)
  | integer {v : Value} {n : Int} (least : -0x8000000000000000 ≤ n) (bound : n < 0x8000000000000000) :
    IsStored .number v (.int n)
  | double {v : Value} {x : Float} (finite : Number.isFinite x = true) :
    IsStored .number v (.float x)
  | moment {v : Value} {t : Calendar.Moment} (unzoned : t.offset = none) :
    IsStored .date v (.moment t)
  | truth {v : Value} {b : Bool} : IsStored .boolean v (.bool b)
  | string {v : Value} : IsStored .string v v
  | enumeration {v : Value} : IsStored .enumeration v v

/-- A relation between single values, lifted to what an operator takes: nothing, the bounds of a range,
the items of a list or the one value. -/
def Lifted (R : Value → Value → Prop) (op : Operator) (v r : Value) : Prop :=
  match op with
  | .isNull | .isNotNull => r = .null
  | .between => ∃ low high low' high',
    v.fields.get? "from" = some low ∧ v.fields.get? "to" = some high ∧
      r = .object [("from", low'), ("to", high')] ∧ R low low' ∧ R high high'
  | .isIn | .notIn => ∃ items, r = .list items ∧ List.Forall₂ R (Validation.comparedValues v) items
  | _ => R v r

/-! ## One value -/

theorem toNumber_isStored (h : toNumber v key = .ok w) : IsStored .number v w := by
  rcases toNumber_ok h with ⟨n, rfl, hword⟩ | ⟨x, rfl, hfinite⟩
  · obtain ⟨least, greatest⟩ := Number.isWord_iff.mp hword
    exact .integer least greatest
  · exact .double hfinite

theorem toMoment_offset {t : Calendar.Moment} (h : toMoment v key = .ok t) : t.offset = none := by
  unfold toMoment at h
  split at h
  · cases h
  · split at h
    · next hu =>
      cases h
      exact Calendar.Moment.universal?_offset hu
    · cases h

theorem scalar_isStored (h : scalar c v = .ok w) : IsStored c.dataType v w := by
  unfold scalar at h
  split at h
  · next ht =>
    obtain ⟨i, -, rfl⟩ := map_ok_iff.mp h
    exact ht ▸ .id
  · next ht => exact ht ▸ toNumber_isStored h
  · next ht =>
    obtain ⟨t, hmoment, rfl⟩ := map_ok_iff.mp h
    exact ht ▸ .moment (toMoment_offset hmoment)
  · next ht =>
    obtain ⟨b, -, rfl⟩ := map_ok_iff.mp h
    exact ht ▸ .truth
  · next ht =>
    cases h
    exact ht ▸ .string
  · next ht =>
    cases h
    exact ht ▸ .enumeration

/-- A stored form is its own. -/
theorem IsStored.scalar_eq (h : IsStored c.dataType v w) : scalar c w = .ok w := by
  unfold scalar
  generalize c.dataType = type at h
  cases h with
  | id | truth | string | enumeration => rfl
  | integer least bound => exact if_pos (Number.isWord_iff.mpr ⟨least, bound⟩)
  | double finite => exact if_pos finite
  | moment unzoned =>
    simp only [toMoment, givenMoment?, Calendar.Moment.universal?_eq_self unzoned]
    rfl

theorem scalar_idem (h : scalar c v = .ok w) : scalar c w = .ok w := (scalar_isStored h).scalar_eq

/-! ## All values of a filter -/

theorem Lifted.mono (hRS : ∀ x y, R x y → S x y) (h : Lifted R op v r) : Lifted S op v r := by
  cases op with
  | isNull | isNotNull => exact h
  | between =>
    obtain ⟨low, high, low', high', hlow, hhigh, hr, hRlow, hRhigh⟩ := h
    exact ⟨low, high, low', high', hlow, hhigh, hr, hRS _ _ hRlow, hRS _ _ hRhigh⟩
  | isIn | notIn =>
    obtain ⟨items, hr, hitems⟩ := h
    exact ⟨items, hr, hitems.imp hRS⟩
  | _ => exact hRS _ _ h

theorem forall₂_refl_right (hR : ∀ x y, R x y → R y y) {xs ys : List Value}
    (h : List.Forall₂ R xs ys) : List.Forall₂ R ys ys := by
  induction h with
  | nil => exact .nil
  | cons hfirst _ ih => exact .cons (hR _ _ hfirst) ih

/-- If results are related to themselves, so is what consists of them. -/
theorem Lifted.refl (hR : ∀ x y, R x y → R y y) (h : Lifted R op v r) : Lifted R op r r := by
  cases op with
  | isNull | isNotNull => exact h
  | between =>
    obtain ⟨low, high, low', high', -, -, rfl, hlow, hhigh⟩ := h
    exact ⟨low', high', low', high', rfl, rfl, rfl, hR _ _ hlow, hR _ _ hhigh⟩
  | isIn | notIn =>
    obtain ⟨items, rfl, hitems⟩ := h
    exact ⟨items, rfl, forall₂_refl_right hR hitems⟩
  | _ => exact hR _ _ h

/-- What coercion makes of a value it makes part by part. -/
theorem value_ok_iff : value c op v = .ok r ↔ Lifted (fun x y => scalar c x = .ok y) op v r := by
  cases op with
  | isNull | isNotNull =>
    unfold value Lifted
    rw [Except.ok.injEq, eq_comm]
  | between =>
    constructor
    · intro h
      unfold value at h
      dsimp only at h
      split at h
      · next low high hlow hhigh =>
        obtain ⟨low', hlow', h⟩ := bind_ok_iff.mp h
        obtain ⟨high', hhigh', h⟩ := bind_ok_iff.mp h
        cases h
        exact ⟨low, high, low', high', hlow, hhigh, rfl, hlow', hhigh'⟩
      · cases h
    · rintro ⟨low, high, low', high', hlow, hhigh, rfl, hlow', hhigh'⟩
      simp only [value, hlow, hhigh, hlow', hhigh']
      rfl
  | isIn | notIn =>
    rw [value_comparedValues rfl, map_ok_iff]
    exact exists_congr fun items => (and_congr mapM_ok_iff eq_comm).trans and_comm
  | _ => exact Iff.rfl

/-- **Stored forms stay.** What coercion makes of a value for a column and an operator is coerced to
itself, and has the form in which the store holds it: null if the operator takes no value; two bounds
and nothing else for a range; for membership a list of as many values, in the place of each given one
what that is coerced to; and each single value as the column stores its data. -/
theorem stored_form_stays (h : value c op v = .ok r) :
    value c op r = .ok r ∧
      Lifted (fun x y => scalar c x = .ok y ∧ IsStored c.dataType x y) op v r := by
  have hparts := value_ok_iff.mp h
  exact ⟨value_ok_iff.mpr (hparts.refl fun _ _ => scalar_idem),
    hparts.mono fun _ _ hscalar => ⟨hscalar, scalar_isStored hscalar⟩⟩

/-- The text of a moment with an offset, and a day. -/
theorem stored_form_stays_dates : ∃ c, Audit.catalog.column? "startDate" = some c ∧
    ∃ first second : Calendar.Moment,
      value c .isIn (.list [.text " 2024-03-01T00:30:00+02:00 ", .day ⟨2024, 3, 1, by decide⟩]) =
        .ok (.list [.moment first, .moment second]) ∧
      value c .isIn (.list [.moment first, .moment second]) =
        .ok (.list [.moment first, .moment second]) ∧
      first.day = ⟨2024, 2, 29, by decide⟩ ∧ first.offset = none := by
  obtain ⟨c, hc⟩ : ∃ c, Audit.catalog.column? "startDate" = some c := ⟨_, rfl⟩
  have hvalue : (Audit.catalog.column? "startDate").map (fun c =>
      value c .isIn (.list [.text " 2024-03-01T00:30:00+02:00 ", .day ⟨2024, 3, 1, by decide⟩])) =
      some (.ok (.list [.moment ⟨⟨2024, 2, 29, by decide⟩, 81000000000, by decide, none⟩,
        .moment ⟨⟨2024, 3, 1, by decide⟩, 0, by decide, none⟩])) := rfl
  rw [hc, Option.map_some, Option.some.injEq] at hvalue
  exact ⟨c, hc, _, _, hvalue, (stored_form_stays hvalue).1, rfl, rfl⟩

end Coercion

end AuditReport
