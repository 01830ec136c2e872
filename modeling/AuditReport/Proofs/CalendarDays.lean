import AuditReport.Calendar.Moment

/-! The ends of the calendar. The counts of days up to the end of year 9999 name a day each, and no
other count does; so a moment can be told in universal time just if its instant lies between these
ends. -/

namespace AuditReport.Calendar

namespace Day

/-- The days of a year. -/
def yearLength (year : Nat) : Nat := if isLeap year then 366 else 365

section Cycles

variable {eras centuries cycles years : Nat} (hcenturies : centuries ≤ 3) (hcycles : cycles ≤ 24)
  (hyears : years ≤ 3)
include hcenturies hcycles hyears

theorem daysBeforeYear_cycles :
    daysBeforeYear (eras * 400 + centuries * 100 + cycles * 4 + years + 1) =
      146097 * eras + 36524 * centuries + 1461 * cycles + 365 * years := by
  unfold daysBeforeYear
  dsimp only
  omega

/-- The last year of a cycle is a leap year, unless it is the last of a century and not of an
era. -/
theorem isLeap_cycles :
    isLeap (eras * 400 + centuries * 100 + cycles * 4 + years + 1) = true ↔
      years = 3 ∧ (cycles ≠ 24 ∨ centuries = 3) := by
  simp only [isLeap, Bool.and_eq_true, Bool.or_eq_true, beq_iff_eq, bne_iff_ne]
  omega

end Cycles

/-- The year that holds a count, and the count of its days before. -/
theorem yearOfOrdinal_spec {n year rest : Nat} (h : yearOfOrdinal n = (year, rest)) :
    1 ≤ year ∧ daysBeforeYear year + rest = n ∧ rest < yearLength year := by
  unfold yearOfOrdinal at h
  dsimp only at h
  obtain ⟨hyear, hrest⟩ := Prod.mk.inj h
  clear h
  -- What is left of the count after each cycle, and how often the cycle goes into it.
  generalize heras : n / 146097 = eras at hyear
  generalize hm : n % 146097 = m at *
  generalize hcenturies : min (m / 36524) 3 = centuries at *
  generalize hk : m - centuries * 36524 = k at *
  generalize hcycles : k / 1461 = cycles at *
  generalize hl : k % 1461 = l at *
  generalize hyears : min (l / 365) 3 = years at *
  have hbounds : centuries ≤ 3 ∧ cycles ≤ 24 ∧ years ≤ 3 := by omega
  obtain ⟨hc, hq, hy⟩ := hbounds
  subst hyear
  refine ⟨by omega, ?_, ?_⟩
  · rw [daysBeforeYear_cycles hc hq hy]
    omega
  · unfold yearLength
    split
    · omega
    · rename_i hleap
      rw [isLeap_cycles hc hq hy] at hleap
      omega

/-- A count below the sum of some lengths of months falls into one of these months, and is made of
the months before it and the days of it that have passed. -/
theorem monthOfOrdinal_spec {first : Nat} {lengths : List Nat} {n : Nat}
    (h : n < lengths.foldr (· + ·) 0) :
    ∃ i length, lengths[i]? = some length ∧ (monthOfOrdinal first lengths n).1 = first + i ∧
      (lengths.take i).foldr (· + ·) 0 + (monthOfOrdinal first lengths n).2 = n + 1 ∧
      1 ≤ (monthOfOrdinal first lengths n).2 ∧ (monthOfOrdinal first lengths n).2 ≤ length := by
  induction lengths generalizing first n with
  | nil => cases h
  | cons length rest ih =>
    rw [List.foldr_cons] at h
    rw [monthOfOrdinal]
    split
    · exact ⟨0, length, rfl, rfl, Nat.zero_add _, by omega, by omega⟩
    · obtain ⟨i, l, hl, hmonth, hsum, hday⟩ := @ih (first + 1) (n - length) (by omega)
      refine ⟨i + 1, l, hl, by omega, ?_, hday⟩
      rw [List.take_succ_cons, List.foldr_cons]
      omega

theorem sum_monthLengths (year : Nat) : (monthLengths year).foldr (· + ·) 0 = yearLength year := by
  unfold monthLengths yearLength
  cases isLeap year <;> rfl

/-- The days of the years 1 to 9999. -/
def count : Nat := 3652059

theorem year_le_iff {n year rest : Nat} (h : yearOfOrdinal n = (year, rest)) :
    year ≤ 9999 ↔ n < count := by
  obtain ⟨hone, hn, hrest⟩ := yearOfOrdinal_spec h
  have hlength : yearLength year ≤ 366 := by unfold yearLength; split <;> omega
  have hlast : year = 9999 → yearLength year = 365 := by rintro rfl; rfl
  unfold daysBeforeYear at hn
  unfold count
  dsimp only at hn
  omega

/-- Every count up to the end of year 9999 names a day, and no other does. -/
theorem ofOrdinal?_isSome {n : Nat} : (ofOrdinal? n).isSome = true ↔ n < count := by
  generalize hyear : yearOfOrdinal n = of
  obtain ⟨year, rest⟩ := of
  obtain ⟨hone, -, hrest⟩ := yearOfOrdinal_spec hyear
  rw [← sum_monthLengths] at hrest
  obtain ⟨i, length, hlength, hmonth, -, hfirst, hlast⟩ := monthOfOrdinal_spec hrest
  have hi : i < 12 := (List.getElem?_eq_some_iff.mp hlength).1
  have hdays : daysInMonth year (1 + i) = length := by
    rw [Nat.add_comm, daysInMonth, hlength, Option.getD_some]
  rw [← year_le_iff hyear, ofOrdinal?, hyear]
  dsimp only
  rw [hmonth, ofParts?]
  split
  · next hvalid => exact ⟨fun _ => hvalid.2.1, fun _ => rfl⟩
  · next hinvalid =>
    refine ⟨nofun, fun hle => absurd ?_ hinvalid⟩
    exact ⟨hone, hle, by omega, by omega, hfirst, hdays ▸ hlast⟩

end Day

namespace Moment

/-- The microseconds of the years 1 to 9999. -/
def span : Int := Day.count * 86400000000

theorem ofReading?_isSome {n : Int} : (ofReading? n).isSome = true ↔ 0 ≤ n ∧ n < span := by
  have hcount : n.toNat / 86400000000 < Day.count ↔ n.toNat < Day.count * 86400000000 :=
    Nat.div_lt_iff_lt_mul (by decide)
  unfold ofReading? span
  split
  · exact ⟨nofun, fun h => by omega⟩
  · rw [Option.isSome_map, Day.ofOrdinal?_isSome, hcount]
    omega

/-- A moment has no counterpart on the clock of universal time just if its instant is outside the
years 1 to 9999. -/
theorem universal?_eq_none {t : Moment} :
    t.universal? = none ↔ ∃ n, t.instant? = some n ∧ ¬(0 ≤ n ∧ n < span) := by
  unfold universal?
  split
  · next hnone => simp [hnone]
  · next n hsome =>
    rw [← Option.not_isSome_iff_eq_none, ofReading?_isSome, hsome]
    simp only [Option.some.injEq, exists_eq_left']

theorem ofReading?_offset {n : Int} {u : Moment} (h : ofReading? n = some u) : u.offset = none := by
  unfold ofReading? at h
  split at h
  · cases h
  · obtain ⟨day, -, rfl⟩ := Option.map_eq_some_iff.mp h
    rfl

theorem universal?_eq_self {t : Moment} (h : t.offset = none) : t.universal? = some t := by
  simp only [universal?, instant?, h, Option.map_none]

/-- On the clock of universal time no offset is left. -/
theorem universal?_offset {t u : Moment} (h : t.universal? = some u) : u.offset = none := by
  cases ht : t.offset with
  | none =>
    rw [universal?_eq_self ht] at h
    cases h
    exact ht
  | some o =>
    simp only [universal?, instant?, ht, Option.map_some] at h
    exact ofReading?_offset h

end Moment

end AuditReport.Calendar
