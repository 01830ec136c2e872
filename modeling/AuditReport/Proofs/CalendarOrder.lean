import AuditReport.Proofs.CalendarDays

/-! Counting days and microseconds keeps the order of the calendar: a day comes before another just
if its year does, or else its month, or else its day of the month, and a clock reading just if the
first part in which it differs is smaller. So a count leads back to the day or the reading that has
it. -/

namespace AuditReport.Calendar

/-- Blocks that follow each other end before a later one starts. -/
theorem block_end_le {start size : Nat → Nat} {first last : Nat}
    (hnext : ∀ n, first ≤ n → start (n + 1) = start n + size n) (h : first < last) :
    start first + size first ≤ start last := by
  induction last with
  | zero => omega
  | succ last ih =>
    have hlast := hnext last (by omega)
    by_cases heq : first = last
    · subst heq
      omega
    · have hbefore := ih (by omega)
      omega

/-- Numbers laid out in blocks, the `i`-th of which takes up `size i` numbers from `start i` on, are
in order if their blocks are, or else their places in the block. -/
theorem blocks_lt_iff (start size : Nat → Nat) {a b r s : Nat}
    (hab : a < b → start a + size a ≤ start b) (hba : b < a → start b + size b ≤ start a)
    (hr : r < size a) (hs : s < size b) :
    start a + r < start b + s ↔ a < b ∨ a = b ∧ r < s := by
  rcases Nat.lt_trichotomy a b with h | h | h
  · have := hab h
    omega
  · subst h
    omega
  · have := hba h
    omega

/-- Microseconds are hours, minutes, seconds and what is left. -/
theorem parts_eq (n : Nat) :
    n = ((n / hour * 60 + n / minute % 60) * 60 + n / second % 60) * 1000000 + n % second := by
  have hminutes : n / second / 60 = n / minute := Nat.div_div_eq_div_mul n 1000000 60
  have hhours : n / minute / 60 = n / hour := Nat.div_div_eq_div_mul n 60000000 60
  unfold second at *
  omega

namespace Day

variable {c d : Day}

theorem daysBeforeYear_succ (year : Nat) (h : 1 ≤ year) :
    daysBeforeYear (year + 1) = daysBeforeYear year + yearLength year := by
  obtain ⟨y, rfl⟩ : ∃ y, year = y + 1 := ⟨year - 1, by omega⟩
  have hnext (k : Nat) (hk : k ∈ [4, 100, 400]) :
      (y + 1) / k = y / k + if (y + 1) % k = 0 then 1 else 0 := by
    simp only [List.mem_cons, List.not_mem_nil, or_false] at hk
    rcases hk with rfl | rfl | rfl <;> split <;> omega
  have hcentury : (y + 1) % 100 = 0 → (y + 1) % 4 = 0 := by omega
  have hera : (y + 1) % 400 = 0 → (y + 1) % 100 = 0 := by omega
  have hle : y / 100 ≤ y / 4 := by omega
  simp only [daysBeforeYear, yearLength, isLeap, Nat.add_sub_cancel, hnext 4 (by decide),
    hnext 100 (by decide), hnext 400 (by decide)]
  -- The leap day of the year is what the three quotients together grow by.
  generalize y / 4 = cycles at *
  generalize y / 100 = centuries at *
  by_cases h4 : (y + 1) % 4 = 0 <;> by_cases h100 : (y + 1) % 100 = 0 <;>
    by_cases h400 : (y + 1) % 400 = 0 <;> simp [h4, h100, h400] at * <;> omega

theorem daysBeforeYear_add_le {first last : Nat} (hfirst : 1 ≤ first) (h : first < last) :
    daysBeforeYear first + yearLength first ≤ daysBeforeYear last :=
  block_end_le (fun year hyear => daysBeforeYear_succ year (Nat.le_trans hfirst hyear)) h

theorem foldr_add (ns : List Nat) (n : Nat) :
    ns.foldr (· + ·) n = ns.foldr (· + ·) 0 + n := by
  induction ns with
  | nil => simp
  | cons k ns ih => rw [List.foldr_cons, List.foldr_cons, ih, Nat.add_assoc]

theorem daysBeforeMonth_succ (year month : Nat) (h : 1 ≤ month) :
    daysBeforeMonth year (month + 1) = daysBeforeMonth year month + daysInMonth year month := by
  obtain ⟨m, rfl⟩ : ∃ m, month = m + 1 := ⟨month - 1, by omega⟩
  simp only [daysBeforeMonth, daysInMonth, Nat.add_sub_cancel]
  rw [List.take_add_one, List.foldr_append, foldr_add]
  cases (monthLengths year)[m]? <;> rfl

theorem daysBeforeMonth_add_le (year : Nat) {first last : Nat} (hfirst : 1 ≤ first)
    (h : first < last) :
    daysBeforeMonth year first + daysInMonth year first ≤ daysBeforeMonth year last :=
  block_end_le (fun month hmonth => daysBeforeMonth_succ year month (Nat.le_trans hfirst hmonth)) h

/-- The days of a year that have passed when a day of it starts. -/
def elapsed (d : Day) : Nat := daysBeforeMonth d.year d.month + (d.day - 1)

theorem ordinal_eq (d : Day) : d.ordinal = daysBeforeYear d.year + d.elapsed := Nat.add_assoc _ _ _

theorem elapsed_lt (d : Day) : d.elapsed < yearLength d.year := by
  obtain ⟨-, -, hmonth, hlast, hday, hlength⟩ := d.valid
  have hyear : daysBeforeMonth d.year 13 = yearLength d.year := sum_monthLengths d.year
  have := daysBeforeMonth_add_le d.year hmonth (show d.month < 13 by omega)
  unfold elapsed
  omega

theorem elapsed_lt_iff (h : c.year = d.year) :
    c.elapsed < d.elapsed ↔ c.month < d.month ∨ c.month = d.month ∧ c.day < d.day := by
  obtain ⟨-, -, hc, -, hcday, hclength⟩ := c.valid
  obtain ⟨-, -, hd, -, hdday, hdlength⟩ := d.valid
  unfold elapsed
  rw [← h] at hdlength ⊢
  rw [blocks_lt_iff (daysBeforeMonth c.year) (daysInMonth c.year) (daysBeforeMonth_add_le _ hc)
    (daysBeforeMonth_add_le _ hd) (by omega) (by omega)]
  omega

/-- Days are counted in the order of the calendar. -/
theorem ordinal_lt_iff : c.ordinal < d.ordinal ↔
    c.year < d.year ∨ c.year = d.year ∧ (c.month < d.month ∨ c.month = d.month ∧ c.day < d.day) := by
  rw [ordinal_eq, ordinal_eq, blocks_lt_iff daysBeforeYear yearLength
    (daysBeforeYear_add_le c.valid.1) (daysBeforeYear_add_le d.valid.1) c.elapsed_lt d.elapsed_lt]
  exact or_congr_right (and_congr_right elapsed_lt_iff)

theorem ordinal_injective (h : c.ordinal = d.ordinal) : c = d := by
  have hc := ordinal_lt_iff (c := c) (d := d)
  have hd := ordinal_lt_iff (c := d) (d := c)
  cases c
  cases d
  simp only [Day.mk.injEq] at *
  omega

theorem ordinal_lt_count (d : Day) : d.ordinal < count := by
  have hlast : daysBeforeYear 10000 = count := by decide
  obtain ⟨hfirst, hyear, -⟩ := d.valid
  have := daysBeforeYear_add_le hfirst (show d.year < 10000 by omega)
  have := d.elapsed_lt
  rw [ordinal_eq]
  omega

theorem ofOrdinal?_ordinal {n : Nat} (h : ofOrdinal? n = some d) : d.ordinal = n := by
  generalize hyear : yearOfOrdinal n = of
  obtain ⟨year, rest⟩ := of
  obtain ⟨-, hn, hrest⟩ := yearOfOrdinal_spec hyear
  rw [← sum_monthLengths] at hrest
  obtain ⟨i, length, -, hmonth, hsum, -, -⟩ := @monthOfOrdinal_spec 1 _ _ hrest
  rw [ofOrdinal?, hyear] at h
  dsimp only at h
  unfold ofParts? at h
  split at h
  · cases h
    simp only [ordinal, daysBeforeMonth, hmonth, Nat.add_sub_cancel_left]
    omega
  · cases h

end Day

namespace Moment

variable {s t u : Moment} {n : Int}

/-- Year, month, day, hour, minute, second and microsecond, the parts by which clock readings are
compared in turn. -/
def parts (t : Moment) : List Nat :=
  [t.day.year, t.day.month, t.day.day, t.hour, t.minute, t.second, t.fraction]

/-- A time of day in microseconds is made of its parts. -/
theorem micros_eq (t : Moment) :
    t.micros = ((t.hour * 60 + t.minute) * 60 + t.second) * 1000000 + t.fraction ∧
      t.hour < 24 ∧ t.minute < 60 ∧ t.second < 60 ∧ t.fraction < 1000000 := by
  have hlt := t.micros_lt
  have hparts := parts_eq t.micros
  unfold hour minute second fraction
  unfold Calendar.hour Calendar.minute Calendar.second at *
  omega

theorem micros_lt_iff : s.micros < t.micros ↔
    [s.hour, s.minute, s.second, s.fraction] < [t.hour, t.minute, t.second, t.fraction] := by
  have hs := s.micros_eq
  have ht := t.micros_eq
  simp only [List.cons_lt_cons_iff, List.not_lt_nil, and_false, or_false]
  omega

/-- Clock readings are counted in the order of their parts. -/
theorem reading_lt_iff : s.reading < t.reading ↔ s.parts < t.parts := by
  have hblocks {a b : Nat} (h : a < b) : a * dayLength + dayLength ≤ b * dayLength := by
    rw [← Nat.succ_mul]
    exact Nat.mul_le_mul_right _ h
  unfold reading
  rw [blocks_lt_iff (· * dayLength) (fun _ => dayLength) hblocks hblocks s.micros_lt t.micros_lt, Day.ordinal_lt_iff, micros_lt_iff]
  simp only [parts, List.cons_lt_cons_iff]
  have heq : s.day.ordinal = t.day.ordinal ↔
      s.day.year = t.day.year ∧ s.day.month = t.day.month ∧ s.day.day = t.day.day := by
    constructor
    · intro h
      rw [Day.ordinal_injective h]
      exact ⟨rfl, rfl, rfl⟩
    · intro ⟨hyear, hmonth, hday⟩
      rw [Day.ordinal, Day.ordinal, hyear, hmonth, hday]
  simp only [heq, and_or_left, and_assoc, or_assoc]

theorem reading_injective (h : s.reading = t.reading) (hoffset : s.offset = t.offset) : s = t := by
  have hs := s.micros_lt
  have ht := t.micros_lt
  unfold reading dayLength Calendar.hour Calendar.minute Calendar.second at h
  have hday : s.day = t.day := Day.ordinal_injective (by omega)
  have hmicros : s.micros = t.micros := by
    rw [hday] at h
    omega
  cases s
  cases t
  simp_all only

theorem reading_lt_span (t : Moment) : (t.reading : Int) < span := by
  have hday := t.day.ordinal_lt_count
  have hmicros := t.micros_lt
  unfold reading span dayLength Calendar.hour Calendar.minute Calendar.second
  omega

/-- The clock reading made from a count has that count. -/
theorem ofReading?_reading (h : ofReading? n = some u) : (u.reading : Int) = n := by
  unfold ofReading? at h
  split at h
  · cases h
  · obtain ⟨day, hday, rfl⟩ := Option.map_eq_some_iff.mp h
    simp only [reading, Day.ofOrdinal?_ordinal hday, dayLength, Calendar.hour, Calendar.minute,
      Calendar.second]
    omega

/-- The clock of universal time shows an instant by the reading with the same count. -/
theorem universal?_of_instant (h : t.instant? = some n) (hlower : 0 ≤ n) (hupper : n < span) :
    ∃ u, t.universal? = some u ∧ u.offset = none ∧ (u.reading : Int) = n := by
  obtain ⟨u, hu⟩ := Option.isSome_iff_exists.mp (ofReading?_isSome.mpr ⟨hlower, hupper⟩)
  refine ⟨u, ?_, ofReading?_offset hu, ofReading?_reading hu⟩
  rw [universal?, h]
  exact hu

/-- A clock that shows universal time is read off as it stands. -/
theorem universal?_of_universal (h : t.offset = some Offset.universal) :
    t.universal? = some { t with offset := none } := by
  have hinstant : t.instant? = some (t.reading : Int) := by
    rw [instant?, h, Option.map_some]
    exact congrArg some (Int.sub_zero _)
  obtain ⟨u, hu, hoffset, hreading⟩ := universal?_of_instant hinstant (Int.natCast_nonneg _)
    t.reading_lt_span
  rw [hu]
  exact congrArg some (reading_injective (Int.ofNat.inj hreading) hoffset)

end Moment

end AuditReport.Calendar
