import AuditReport.Proofs.PrintedMoments
import AuditReport.Value.Order

/-! Dates of filters, given as moments or as the text of one, in the form in which the store holds
them: the same instant on the clock of universal time. -/

namespace AuditReport

namespace Coercion

open Calendar

variable {t : Moment} {s key : String} {m n : Int}

/-- An offset that is not zero and yet less than a second. -/
def OffsetBelowSecond (t : Moment) : Prop :=
  ∃ o, t.offset = some o ∧ o.micros ≠ 0 ∧ o.micros.natAbs < second

/-- The instant of a moment with an offset, in the years 1 to 9999 of universal time. -/
def InCalendar (t : Moment) (n : Int) : Prop := t.instant? = some n ∧ 0 ≤ n ∧ n < Moment.span

theorem toMoment_text (h : readMoment? s = some t) :
    toMoment (.text s) key = toMoment (.moment t) key := by
  simp only [toMoment, givenMoment?, h]

theorem toMoment_moment {u : Moment} (h : t.universal? = some u) :
    toMoment (.moment t) key = .ok u := by
  simp only [toMoment, givenMoment?, h]

theorem toMoment_moment_iff {u : Moment} :
    toMoment (.moment t) key = .ok u ↔ t.universal? = some u := by
  constructor
  · intro h
    unfold toMoment givenMoment? at h
    dsimp only at h
    split at h
    · next hu => exact hu.trans (congrArg some (Except.ok.inj h))
    · cases h
  · exact toMoment_moment

/-- An offset of zero, or of a second and more, is read as it is. -/
theorem map_asRead (h : ¬OffsetBelowSecond t) : t.offset.map Iso.asRead = t.offset := by
  cases ho : t.offset with
  | none => rfl
  | some o =>
    rw [Option.map_some, Iso.asRead]
    split
    · next hbelow =>
      have hzero : o.micros = 0 := by
        by_cases h' : o.micros = 0
        · exact h'
        · exact absurd ⟨o, ho, h', hbelow⟩ h
      cases o
      cases hzero
      rfl
    · rfl

theorem map_asRead_below (h : OffsetBelowSecond t) :
    t.offset.map Iso.asRead = some Offset.universal := by
  obtain ⟨o, ho, -, hbelow⟩ := h
  rw [ho, Option.map_some, Iso.asRead, if_pos hbelow]

theorem toMoment_textWith (h : ¬OffsetBelowSecond t) (separator : Char) :
    toMoment (.text (t.textWith (String.singleton separator))) key = toMoment (.moment t) key := by
  rw [toMoment_text (readMoment?_text t separator), map_asRead h]

theorem toMoment_textWith_below (h : OffsetBelowSecond t) (separator : Char) :
    toMoment (.text (t.textWith (String.singleton separator))) key = .ok { t with offset := none } := by
  rw [toMoment_text (readMoment?_text t separator), map_asRead_below h]
  exact toMoment_moment (Moment.universal?_of_universal rfl)

/-- A moment with such an offset is not read off its own clock in universal time. -/
theorem toMoment_moment_below (h : OffsetBelowSecond t) :
    toMoment (.moment t) key ≠ .ok { t with offset := none } := by
  obtain ⟨o, ho, hne, -⟩ := h
  intro hok
  rw [toMoment_moment_iff, Moment.universal?, Moment.instant?, ho, Option.map_some] at hok
  have hreading := Moment.ofReading?_reading hok
  -- Both readings count the same, so the offset between them is zero.
  change (t.reading : Int) = t.reading - o.micros at hreading
  omega

theorem toMoment_inCalendar (key : String) (h : InCalendar t n) :
    ∃ u, toMoment (.moment t) key = .ok u ∧ u.offset = none ∧ (u.reading : Int) = n := by
  obtain ⟨hinstant, hlower, hupper⟩ := h
  obtain ⟨u, hu, hoffset, hreading⟩ := Moment.universal?_of_instant hinstant hlower hupper
  exact ⟨u, toMoment_moment hu, hoffset, hreading⟩

theorem compare_natCast (a b : Nat) : compare (a : Int) b = compare a b := by
  simp only [compare, compareOfLessAndEq, Int.ofNat_lt, Int.ofNat_inj]

/-- Clock readings compare as their counts do, in three ways alike: as instants, part by part, and
when asked whether they are the same. -/
theorem order_of_readings {u w : Moment} (hu : u.offset = none) (hw : w.offset = none) :
    u.compare? w = some (compare (u.reading : Int) w.reading) ∧
      (u.parts < w.parts ↔ (u.reading : Int) < w.reading) ∧
      (u = w ↔ (u.reading : Int) = w.reading) := by
  refine ⟨?_, ?_, ?_⟩
  · simp only [Moment.compare?, Moment.instant?, hu, hw, Option.map_none, compare_natCast]
  · rw [← Moment.reading_lt_iff, Int.ofNat_lt]
  · rw [Int.ofNat_inj]
    exact ⟨congrArg _, fun h => Moment.reading_injective h (hu.trans hw.symm)⟩

/-- **Dates are normalized alike as moments and as texts**, whatever the separator, unless the offset
is below a second: the text then loses it. A final `Z` stands for the offset zero. A moment without
an offset stays as it is; one with an offset becomes the reading of universal time at its instant if
there is one, and such readings are ordered as the instants are. -/
theorem dates_normalized_unless_offset_below_second (t : Moment) (key : String) :
    (∀ separator : Char,
      toMoment (.text (t.textWith (String.singleton separator))) key = toMoment (.moment t) key ↔
        ¬OffsetBelowSecond t) ∧
    (t.offset = some Offset.universal → ∀ separator : Char,
      toMoment (.text (Moment.textWith (String.singleton separator) { t with offset := none } ++ "Z"))
        key = toMoment (.moment t) key) ∧
    (t.offset = none → toMoment (.moment t) key = .ok t) ∧
    (∀ n, InCalendar t n →
      ∃ u, toMoment (.moment t) key = .ok u ∧ u.offset = none ∧ (u.reading : Int) = n ∧
        ∀ t' n', InCalendar t' n' → ∃ u', toMoment (.moment t') key = .ok u' ∧
          u.compare? u' = some (compare n n') ∧ (u.parts < u'.parts ↔ n < n') ∧
          (u = u' ↔ n = n')) := by
  refine ⟨fun separator => ?_, fun h separator => ?_, ?_, ?_⟩
  · constructor
    · intro heq hbelow
      rw [toMoment_textWith_below hbelow] at heq
      exact toMoment_moment_below hbelow heq.symm
    · intro h
      exact toMoment_textWith h separator
  · rw [toMoment_text (readMoment?_zulu { t with offset := none } separator rfl)]
    rw [← h]
  · intro h
    exact toMoment_moment (Moment.universal?_eq_self h)
  · intro n hn
    obtain ⟨u, hu, hoffset, rfl⟩ := toMoment_inCalendar key hn
    refine ⟨u, hu, hoffset, rfl, ?_⟩
    intro t' n' hn'
    obtain ⟨u', hu', hoffset', rfl⟩ := toMoment_inCalendar key hn'
    exact ⟨u', hu', order_of_readings hoffset hoffset'⟩

/-- Half an hour before midnight on a leap day, and a microsecond more, on a clock that is an hour
behind universal time. -/
def leapEvening : Moment :=
  ⟨⟨2024, 2, 29, by decide⟩, 84600000001, by decide, some ⟨-3600000000, by decide, by decide⟩⟩

/-- A microsecond before that evening moment, on the clock of universal time. -/
def nextMorning : Moment := ⟨⟨2024, 3, 1, by decide⟩, 1800000000, by decide, some Offset.universal⟩

/-- Two moments a microsecond apart, the later one told by the clock that still shows the day
before, and a moment without offset. -/
theorem dates_normalized_across_leap_day :
    toMoment (.text "2024-02-29 23:30:00.000001-01:00") "startDate" =
        toMoment (.moment leapEvening) "startDate" ∧
      toMoment (.text "2024-03-01T00:30:00Z") "startDate" =
        toMoment (.moment nextMorning) "startDate" ∧
      toMoment (.moment { leapEvening with offset := none }) "startDate" =
        .ok { leapEvening with offset := none } ∧
      ∃ u u', toMoment (.moment nextMorning) "startDate" = .ok u ∧
        toMoment (.moment leapEvening) "startDate" = .ok u' ∧ u.compare? u' = some .lt := by
  obtain ⟨htext, -, -, -⟩ := dates_normalized_unless_offset_below_second leapEvening "startDate"
  obtain ⟨-, hzulu, -, horder⟩ := dates_normalized_unless_offset_below_second nextMorning "startDate"
  obtain ⟨-, -, hnaive, -⟩ := dates_normalized_unless_offset_below_second
    { leapEvening with offset := none } "startDate"
  have hwhole : ¬OffsetBelowSecond leapEvening := by
    rintro ⟨o, ho, -, hbelow⟩
    cases ho
    revert hbelow
    decide
  have hevening : InCalendar leapEvening 63844849800000001 := ⟨rfl, by decide, by decide⟩
  have hmorning : InCalendar nextMorning 63844849800000000 := ⟨rfl, by decide, by decide⟩
  obtain ⟨u, hu, -, -, hlater⟩ := horder _ hmorning
  obtain ⟨u', hu', hcompare, -⟩ := hlater _ _ hevening
  exact ⟨(htext ' ').mpr hwhole, hzulu rfl 'T', hnaive rfl, u, u', hu, hu', hcompare⟩

/-- A new year's midnight on a clock half a second ahead of universal time. -/
def halfSecondAhead : Moment :=
  { Moment.ofDay ⟨2024, 1, 1, by decide⟩ with offset := Offset.ofMicros? 500000 }

/-- Given as a moment it falls into the old year, given as its text it does not. -/
theorem half_second_offset_lost :
    halfSecondAhead.isoText = "2024-01-01T00:00:00+00:00:00.500000" ∧
      toMoment (.text "2024-01-01T00:00:00+00:00:00.500000") "startDate" ≠
        toMoment (.moment halfSecondAhead) "startDate" := by
  have hgiven : toMoment (.moment halfSecondAhead) "startDate" =
      .ok ⟨⟨2023, 12, 31, by decide⟩, 86399500000, by decide, none⟩ := rfl
  have htext : toMoment (.text "2024-01-01T00:00:00+00:00:00.500000") "startDate" =
      .ok (Moment.ofDay ⟨2024, 1, 1, by decide⟩) := rfl
  refine ⟨rfl, ?_⟩
  rw [hgiven, htext]
  intro h
  cases h

end Coercion

end AuditReport
