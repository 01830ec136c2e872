import AuditReport.Coercion
import AuditReport.Proofs.CalendarOrder

/-! The reader of moments takes back what the writer puts out. Each part of a written moment has a
fixed number of digits, so that a piece of text is read the same whatever follows it. Only an offset
of less than a second is lost: it is written with its fraction and read as universal time. -/

namespace AuditReport

namespace Text

variable {p : Char → Bool} {cs : List Char} {c : Char}

theorem dropWhile_of_head? (h : cs.head? = some c) (hc : p c = false) : cs.dropWhile p = cs := by
  cases cs with
  | nil => rfl
  | cons d ds =>
    cases h
    rw [List.dropWhile_cons_of_neg (by rw [hc]; nofun)]

theorem trimBy_eq_self {d : Char} (hhead : cs.head? = some c) (hlast : cs.getLast? = some d)
    (hc : p c = false) (hd : p d = false) : trimBy p cs = cs := by
  unfold trimBy
  rw [dropWhile_of_head? hhead hc, dropWhile_of_head? (List.head?_reverse.trans hlast) hd,
    List.reverse_reverse]

theorem isBlank_of_isDigit (h : c.isDigit = true) : isBlank c = false := by
  obtain ⟨hlower, hupper⟩ := Char.isDigit_iff_toNat.mp h
  change 48 ≤ c.toNat at hlower
  change c.toNat ≤ 57 at hupper
  simp only [isBlank, blankRanges, List.any_eq_false, List.mem_cons, List.not_mem_nil, or_false,
    Bool.and_eq_true, decide_eq_true_eq]
  rintro r (rfl | rfl | rfl | rfl | rfl | rfl | rfl | rfl | rfl | rfl) <;> dsimp only <;> omega

theorem ne_of_isDigit {d : Char} (h : c.isDigit = true) (hd : d.isDigit = false) : c ≠ d := by
  rintro rfl
  rw [hd] at h
  cases h

theorem asciiDigit?_of_isDigit (h : c.isDigit = true) :
    asciiDigit? c = some (c.toNat - '0'.toNat) := by
  obtain ⟨hlower, hupper⟩ := Char.isDigit_iff_toNat.mp h
  exact if_pos ⟨hlower, hupper⟩

end Text

namespace Calendar

open Moment (padded fractionText offsetText)

variable {width n : Nat} {c : Char}

/-! ### Numbers of fixed width -/

theorem padded_toList (width n : Nat) : (padded width n).toList =
    List.replicate (width - (Nat.toDigits 10 n).length) '0' ++ Nat.toDigits 10 n := by
  rw [padded, String.toList_ofList, List.leftpad]

theorem isDigit_of_mem_padded (h : c ∈ (padded width n).toList) : c.isDigit = true := by
  rw [padded_toList, List.mem_append] at h
  cases h with
  | inl hzero => exact (List.mem_replicate.mp hzero).2 ▸ rfl
  | inr hdigit => exact Nat.isDigit_of_mem_toDigits (by decide) (Nat.le_refl 10) hdigit

theorem padded_length (width : Nat) (hwidth : 0 < width) (hn : n < Nat.pow 10 width) :
    (padded width n).toList.length = width := by
  have := (Nat.length_toDigits_le_iff (by decide) hwidth).mpr hn
  rw [padded_toList, List.length_append, List.length_replicate]
  omega

theorem ofDigitChars_padded (width n : Nat) :
    Nat.ofDigitChars 10 (padded width n).toList 0 = n := by
  rw [padded_toList, Nat.ofDigitChars_append, Nat.ofDigitChars_replicate_zero, Nat.mul_zero,
    Nat.ofDigitChars_ten_toDigits]

theorem padded_ne_nil (width n : Nat) : (padded width n).toList ≠ [] := by
  rw [padded_toList]
  exact List.append_ne_nil_of_right_ne_nil _ Nat.toDigits_ne_nil

/-- A text whose first character is a digit. -/
def StartsInDigit (cs : List Char) : Prop := ∃ c, cs.head? = some c ∧ c.isDigit = true

/-- A text whose last character is a digit. -/
def EndsInDigit (cs : List Char) : Prop := ∃ c, cs.getLast? = some c ∧ c.isDigit = true

theorem startsInDigit_padded (width n : Nat) (rest : List Char) :
    StartsInDigit ((padded width n).toList ++ rest) := by
  refine ⟨(padded width n).toList.head (padded_ne_nil width n), ?_,
    isDigit_of_mem_padded (List.head_mem _)⟩
  rw [List.head?_append, List.head?_eq_some_head (padded_ne_nil width n), Option.some_or]

theorem endsInDigit_padded (width n : Nat) : EndsInDigit (padded width n).toList :=
  ⟨_, List.getLast?_eq_some_getLast (padded_ne_nil width n),
    isDigit_of_mem_padded (List.getLast_mem _)⟩

theorem EndsInDigit.append {cs : List Char} (h : EndsInDigit cs) (before : List Char) :
    EndsInDigit (before ++ cs) := by
  obtain ⟨c, hlast, hdigit⟩ := h
  exact ⟨c, by rw [List.getLast?_append, hlast, Option.some_or], hdigit⟩

theorem EndsInDigit.cons {cs : List Char} (h : EndsInDigit cs) (c : Char) : EndsInDigit (c :: cs) :=
  h.append [c]

namespace Iso

theorem takeNumber_go_digits (cs rest : List Char) (h : ∀ c ∈ cs, c.isDigit = true) (n : Nat) :
    takeNumber.go cs.length n (cs ++ rest) = some (Nat.ofDigitChars 10 cs n, rest) := by
  induction cs generalizing n with
  | nil => rfl
  | cons c cs ih =>
    rw [List.length_cons, List.cons_append, takeNumber.go,
      Text.asciiDigit?_of_isDigit (h c List.mem_cons_self), Option.bind_some,
      ih fun d hd => h d (List.mem_cons_of_mem _ hd), Nat.ofDigitChars_cons]

/-- A number of fixed width is read back, whatever follows it. -/
theorem takeNumber_padded (width : Nat) (hwidth : 0 < width) (hn : n < Nat.pow 10 width) (rest : List Char) :
    takeNumber width ((padded width n).toList ++ rest) = some (n, rest) := by
  have hread := takeNumber_go_digits (padded width n).toList rest (fun _ => isDigit_of_mem_padded) 0
  rw [padded_length width hwidth hn, ofDigitChars_padded] at hread
  exact hread

theorem takeNumber_two (hn : n < 100) (rest : List Char) :
    takeNumber 2 ((padded 2 n).toList ++ rest) = some (n, rest) :=
  takeNumber_padded 2 (by decide) hn rest

/-! ### Days -/

theorem daysInMonth_le (year month : Nat) : daysInMonth year month ≤ 31 := by
  unfold daysInMonth
  split
  · omega
  · next m =>
    cases hl : (monthLengths year)[m]? with
    | none => exact Nat.zero_le 31
    | some length =>
      have hmem := List.mem_of_getElem? hl
      have hall : ∀ l ∈ monthLengths year, l ≤ 31 := by
        unfold monthLengths
        cases isLeap year <;> decide
      exact hall length hmem

theorem text_toList (d : Day) : d.text.toList =
    (padded 4 d.year).toList ++ '-' :: ((padded 2 d.month).toList ++ '-' :: (padded 2 d.day).toList) := by
  show (padded 4 d.year ++ "-" ++ padded 2 d.month ++ "-" ++ padded 2 d.day).toList = _
  simp [String.toList_append]

theorem readDay_text (d : Day) : readDay d.text.toList = some d := by
  obtain ⟨-, hyear, -, hmonth, -, hday⟩ := d.valid
  have hlength := daysInMonth_le d.year d.month
  have hfour := takeNumber_padded 4 (by decide) (Nat.lt_of_le_of_lt hyear (by decide))
  have hlast := takeNumber_two (n := d.day) (by omega) []
  rw [List.append_nil] at hlast
  obtain ⟨c, hc, hdigit⟩ := startsInDigit_padded 2 d.month ('-' :: (padded 2 d.day).toList)
  have hweek : c ≠ 'W' := Text.ne_of_isDigit hdigit rfl
  have hparts : Day.ofParts? d.year d.month d.day = some d := dif_pos d.valid
  simp [text_toList, readDay, hfour, hc, hweek, takeNumber_two (n := d.month) (by omega), hlast,
    hparts]

/-! ### Times of day -/

section Clock

variable {colons : Bool} {left hour minute second fraction : Nat} {parts : List Nat}
  {more : List Char}

theorem readParts_end (hn : n < 100) :
    readParts colons (left + 1) parts (padded 2 n).toList =
      some (Clock.ofParts (n :: parts) 0 true) := by
  have hread := takeNumber_two hn []
  rw [List.append_nil] at hread
  rw [readParts, hread]

theorem readParts_colon (hn : n < 100) (hcolons : parts.isEmpty = true ∨ colons = true)
    (hmore : more ≠ []) :
    readParts colons (left + 1) parts ((padded 2 n).toList ++ ':' :: more) =
      readParts true left (n :: parts) more := by
  -- A colon at the very end would pass for the one odd character that may follow a time.
  obtain ⟨c, cs, rfl⟩ := List.exists_cons_of_ne_nil hmore
  rw [readParts, takeNumber_two hn]
  rcases hcolons with h | h <;> simp [h]

theorem readParts_point (hn : n < 100) (hmore : more ≠ []) :
    readParts colons (left + 1) parts ((padded 2 n).toList ++ '.' :: more) =
      readLast (n :: parts) more := by
  obtain ⟨c, cs, rfl⟩ := List.exists_cons_of_ne_nil hmore
  rw [readParts, takeNumber_two hn]
  simp

theorem readLast_padded (hn : n < 1000000) :
    readLast parts (padded 6 n).toList = some (Clock.ofParts parts n true) := by
  have hread := takeNumber_padded 6 (by decide) hn []
  rw [List.append_nil] at hread
  simp [readLast, readFraction, padded_length 6 (by decide) hn, hread, atEnd]

/-- Seconds, with a fraction unless it is zero, end a time. -/
theorem readParts_seconds (hsecond : second < 100) (hfraction : fraction < 1000000) :
    readParts colons (left + 1) parts ((padded 2 second).toList ++ (fractionText fraction).toList) =
      some (Clock.ofParts (second :: parts) fraction true) := by
  unfold fractionText
  by_cases h : fraction = 0
  · rw [if_pos h, h, String.toList_empty, List.append_nil, readParts_end hsecond]
  · rw [if_neg h, String.toList_append]
    exact (readParts_point hsecond (padded_ne_nil 6 fraction)).trans (readLast_padded hfraction)

theorem readClock_seconds (hhour : hour < 100) (hminute : minute < 100) (hsecond : second < 100)
    (hfraction : fraction < 1000000) :
    readClock ((padded 2 hour).toList ++ ':' :: ((padded 2 minute).toList ++
      ':' :: ((padded 2 second).toList ++ (fractionText fraction).toList))) =
      some ⟨hour, minute, second, fraction, true⟩ := by
  have hrest := List.append_ne_nil_of_left_ne_nil (padded_ne_nil 2 second)
    (fractionText fraction).toList
  rw [readClock, readParts_colon hhour (.inl rfl) (by simp), readParts_colon hminute (.inr rfl) hrest,
    readParts_seconds hsecond hfraction]
  rfl

theorem readClock_minutes (hhour : hour < 100) (hminute : minute < 100) :
    readClock ((padded 2 hour).toList ++ ':' :: (padded 2 minute).toList) =
      some ⟨hour, minute, 0, 0, true⟩ := by
  rw [readClock, readParts_colon hhour (.inl rfl) (padded_ne_nil 2 minute), readParts_end hminute]
  rfl

end Clock

theorem clockText_toList (t : Moment) : t.clockText.toList =
    (padded 2 t.hour).toList ++ ':' :: ((padded 2 t.minute).toList ++
      ':' :: ((padded 2 t.second).toList ++ (fractionText t.fraction).toList)) := by
  simp [Moment.clockText, String.toList_append]

theorem readClock_clockText (t : Moment) :
    readClock t.clockText.toList = some ⟨t.hour, t.minute, t.second, t.fraction, true⟩ := by
  obtain ⟨-, hhour, hminute, hsecond, hfraction⟩ := t.micros_eq
  rw [clockText_toList, readClock_seconds (by omega) (by omega) (by omega) hfraction]

/-! ### Offsets -/

/-- What is read of an offset: nothing but universal time if it is less than a second. -/
def asRead (o : Offset) : Offset := if o.micros.natAbs < second then Offset.universal else o

/-- Hours, minutes and, unless they are zero, seconds of an offset by `n` microseconds. -/
def magnitudeText (n : Nat) : List Char :=
  (padded 2 (n / hour)).toList ++ ':' :: ((padded 2 (n / minute % 60)).toList ++
    if n / second % 60 = 0 ∧ n % second = 0 then []
    else ':' :: ((padded 2 (n / second % 60)).toList ++ (fractionText (n % second)).toList))

theorem offsetText_toList (o : Offset) : (offsetText o).toList =
    (if o.micros < 0 then '-' else '+') :: magnitudeText o.micros.natAbs := by
  simp only [offsetText, magnitudeText, String.toList_append]
  split <;> split <;> simp

/-- Parts of an offset that are not written are read as zero. -/
theorem readClock_magnitudeText (hn : n < 86400000000) :
    readClock (magnitudeText n) =
      some ⟨n / hour, n / minute % 60, n / second % 60, n % second, true⟩ := by
  have hhour : n / hour < 24 := by
    unfold hour minute second
    omega
  have hfraction : n % second < 1000000 := Nat.mod_lt n (by decide)
  unfold magnitudeText
  by_cases h : n / second % 60 = 0 ∧ n % second = 0
  · rw [if_pos h, List.append_nil, readClock_minutes (by omega) (by omega), h.1, h.2]
  · rw [if_neg h, readClock_seconds (by omega) (by omega) (by omega) hfraction]

theorem ofMicros?_micros (o : Offset) : Offset.ofMicros? o.micros = some o :=
  dif_pos ⟨o.lower, o.upper⟩

theorem readOffset_offsetText (o : Offset) : readOffset (offsetText o).toList = some (asRead o) := by
  have hlower := o.lower
  have hupper := o.upper
  have hclock := readClock_magnitudeText (n := o.micros.natAbs) (by omega)
  have hparts := parts_eq o.micros.natAbs
  have hfraction : o.micros.natAbs % second < second := Nat.mod_lt _ (by decide)
  rw [offsetText_toList]
  -- The parts are numbers of their own from here on, tied to the offset by their sum alone.
  generalize hn : o.micros.natAbs = n at *
  generalize n / hour = hours at *
  generalize n / minute % 60 = minutes at *
  generalize n / second % 60 = seconds at *
  generalize n % second = fraction at *
  have hzero : hours * 3600 + minutes * 60 + seconds = 0 ↔ n < second := by
    unfold second at *
    omega
  have hsum : (hours * 3600 + minutes * 60 + seconds) * 1000000 + fraction = n := by omega
  have hmicros : (if o.micros < 0 then -(n : Int) else n) = o.micros := by split <;> omega
  have hminus : (if o.micros < 0 then '-' else '+') = '-' ↔ o.micros < 0 := by
    split <;> simp [*]
  have hsign : (if o.micros < 0 then '-' else '+') ≠ 'Z' := by split <;> decide
  rw [readOffset, hclock]
  · simp only [Option.bind_eq_bind, Option.bind_some, if_true, hzero, hsum, asRead, hn, hminus,
      hmicros, ofMicros?_micros]
    split <;> rfl
  · exact hsign

/-! ### Whole moments -/

theorem startsOffset_of_isDigit (h : c.isDigit = true) : startsOffset c = false := by
  simp [startsOffset, Text.ne_of_isDigit h]

theorem startsOffset_clockText {t : Moment} (h : c ∈ t.clockText.toList) : startsOffset c = false := by
  have hfraction : ∀ c ∈ (fractionText t.fraction).toList, c = '.' ∨ c.isDigit = true := by
    intro d hd
    unfold fractionText at hd
    split at hd
    · cases hd
    · rw [String.toList_append, List.mem_append] at hd
      exact hd.imp (by simp) isDigit_of_mem_padded
  have hchar : c = ':' ∨ c = '.' ∨ c.isDigit = true := by
    rw [clockText_toList] at h
    simp only [List.mem_append, List.mem_cons] at h
    rcases h with h | h | h | h | h | h
    · exact .inr (.inr (isDigit_of_mem_padded h))
    · exact .inl h
    · exact .inr (.inr (isDigit_of_mem_padded h))
    · exact .inl h
    · exact .inr (.inr (isDigit_of_mem_padded h))
    · exact .inr (hfraction c h)
  rcases hchar with rfl | rfl | hdigit
  · rfl
  · rfl
  · exact startsOffset_of_isDigit hdigit

/-- The offset of a moment as it stands behind the time, if it has one. -/
def zoneText (t : Moment) : List Char := ((t.offset.map offsetText).getD "").toList

theorem zoneText_none {t : Moment} (h : t.offset = none) : zoneText t = [] := by
  rw [zoneText, h]
  rfl

theorem zoneText_some {t : Moment} {o : Offset} (h : t.offset = some o) :
    zoneText t = (offsetText o).toList := by
  rw [zoneText, h]
  rfl

theorem head_offsetText (o : Offset) :
    ∃ sign rest, (offsetText o).toList = sign :: rest ∧ startsOffset sign = true := by
  rw [offsetText_toList]
  refine ⟨_, _, rfl, ?_⟩
  split <;> rfl

/-- Time and offset are told apart by the sign of the offset. -/
theorem span_time (t : Moment) :
    (t.clockText.toList ++ zoneText t).takeWhile (!startsOffset ·) = t.clockText.toList ∧
      (t.clockText.toList ++ zoneText t).dropWhile (!startsOffset ·) = zoneText t := by
  have hclock : ∀ c ∈ t.clockText.toList, (!startsOffset c) = true := by
    intro c hc
    rw [startsOffset_clockText hc, Bool.not_false]
  rw [List.takeWhile_append_of_pos hclock, List.dropWhile_append_of_pos hclock]
  cases h : t.offset with
  | none =>
    rw [zoneText_none h]
    exact ⟨List.append_nil _, rfl⟩
  | some o =>
    obtain ⟨sign, rest, hzone, hsign⟩ := head_offsetText o
    simp [zoneText_some h, hzone, hsign]

theorem ofParts?_parts (t : Moment) (offset : Option Offset) :
    Moment.ofParts? t.day t.hour t.minute t.second t.fraction offset =
      some { t with offset := offset } := by
  obtain ⟨hmicros, hbounds⟩ := t.micros_eq
  have hsum : t.hour * hour + t.minute * minute + t.second * second + t.fraction = t.micros := by
    unfold hour minute second
    omega
  rw [Moment.ofParts?, if_pos hbounds]
  dsimp only
  rw [dif_pos (hsum ▸ t.micros_lt)]
  congr 2

theorem readTime_text (t : Moment) :
    readTime t.day (t.clockText.toList ++ zoneText t) =
      some { t with offset := t.offset.map asRead } := by
  obtain ⟨htime, hzone⟩ := span_time t
  rw [readTime, htime, hzone, readClock_clockText]
  simp only [Option.bind_eq_bind, Option.bind_some, if_true]
  cases h : t.offset with
  | none =>
    rw [zoneText_none h, List.isEmpty_nil, if_pos rfl, ofParts?_parts, Option.map_none]
  | some o =>
    obtain ⟨sign, rest, hcons, -⟩ := head_offsetText o
    have hread := readOffset_offsetText o
    rw [zoneText_some h]
    rw [hcons] at hread ⊢
    simp only [List.isEmpty_cons, Bool.false_eq_true, if_false, hread, Option.map_some,
      Option.bind_some, ofParts?_parts]

theorem textWith_toList (t : Moment) (separator : Char) :
    (t.textWith (String.singleton separator)).toList =
      t.day.text.toList ++ separator :: (t.clockText.toList ++ zoneText t) := by
  simp [Moment.textWith, zoneText, String.toList_append]

theorem year_length (d : Day) : (padded 4 d.year).toList.length = 4 :=
  padded_length 4 (by decide) (Nat.lt_of_le_of_lt d.valid.2.1 (by decide))

theorem text_length (d : Day) : d.text.toList.length = 10 := by
  obtain ⟨-, -, -, hmonth, -, hday⟩ := d.valid
  have hlength := daysInMonth_le d.year d.month
  have htwo {n : Nat} (hn : n < 100) : (padded 2 n).toList.length = 2 := padded_length 2 (by decide) hn
  rw [text_toList]
  simp only [List.length_append, List.length_cons, year_length, htwo (n := d.month) (by omega),
    htwo (n := d.day) (by omega)]

/-- The hyphen behind the year and the digit behind the hyphen tell a day in calendar form. -/
theorem separatorIndex_text (d : Day) (more : List Char) :
    separatorIndex (d.text.toList ++ more) = 10 := by
  have hyear := year_length d
  obtain ⟨c, hc, hdigit⟩ := startsInDigit_padded 2 d.month ('-' :: ((padded 2 d.day).toList ++ more))
  have hweek : c ≠ 'W' := Text.ne_of_isDigit hdigit rfl
  have hlength : (d.text.toList ++ more).length ≠ 7 := by
    rw [List.length_append, text_length]
    omega
  have htext : d.text.toList ++ more = (padded 4 d.year).toList ++
      '-' :: ((padded 2 d.month).toList ++ '-' :: ((padded 2 d.day).toList ++ more)) := by
    simp [text_toList]
  have hhyphen : (d.text.toList ++ more)[4]? = some '-' := by
    rw [htext, List.getElem?_append_right (by omega), hyear]
    rfl
  have hmonth : (d.text.toList ++ more)[5]? = some c := by
    rw [htext, List.getElem?_append_right (by omega), hyear, List.getElem?_cons_succ,
      ← List.head?_eq_getElem?, hc]
  simp only [separatorIndex, hlength, hhyphen, hmonth, Option.some.injEq, hweek, if_false, if_true]

/-- **What is written of a moment is read back**, except that an offset of less than a second
becomes universal time. -/
theorem read_text (t : Moment) (separator : Char) :
    read (t.textWith (String.singleton separator)).toList =
      some { t with offset := t.offset.map asRead } := by
  rw [textWith_toList, read, separatorIndex_text, List.take_left' (text_length _),
    List.drop_left' (text_length _), readDay_text]
  simp only [Option.bind_eq_bind, Option.bind_some, readTime_text]

/-! ### Ends of the text -/

theorem startsInDigit_text (d : Day) (more : List Char) :
    StartsInDigit (d.text.toList ++ more) := by
  rw [text_toList, List.append_assoc]
  exact startsInDigit_padded 4 d.year _

theorem endsInDigit_seconds (second fraction : Nat) :
    EndsInDigit ((padded 2 second).toList ++ (fractionText fraction).toList) := by
  unfold fractionText
  split
  · rw [String.toList_empty, List.append_nil]
    exact endsInDigit_padded 2 second
  · rw [String.toList_append]
    exact ((endsInDigit_padded 6 fraction).append _).append _

theorem endsInDigit_clockText (t : Moment) : EndsInDigit t.clockText.toList := by
  rw [clockText_toList]
  exact ((((endsInDigit_seconds _ _).cons _).append _).cons _).append _

theorem endsInDigit_magnitudeText (n : Nat) : EndsInDigit (magnitudeText n) := by
  refine EndsInDigit.append (EndsInDigit.cons ?_ _) _
  split
  · rw [List.append_nil]
    exact endsInDigit_padded 2 _
  · exact ((endsInDigit_seconds _ _).cons _).append _

theorem endsInDigit_text (t : Moment) (separator : Char) :
    EndsInDigit (t.textWith (String.singleton separator)).toList := by
  rw [textWith_toList]
  refine EndsInDigit.append (EndsInDigit.cons ?_ _) _
  cases h : t.offset with
  | none =>
    rw [zoneText_none h, List.append_nil]
    exact endsInDigit_clockText t
  | some o =>
    rw [zoneText_some h, offsetText_toList]
    exact ((endsInDigit_magnitudeText _).cons _).append _

end Iso

end Calendar

namespace Coercion

open Calendar

theorem startsInDigit_textWith (t : Moment) (separator : Char) (more : List Char) :
    StartsInDigit ((t.textWith (String.singleton separator)).toList ++ more) := by
  rw [Iso.textWith_toList, List.append_assoc]
  exact Iso.startsInDigit_text t.day _

/-- The written moment has no margin to trim and no final `Z`. -/
theorem readMoment?_text (t : Moment) (separator : Char) :
    readMoment? (t.textWith (String.singleton separator)) =
      some { t with offset := t.offset.map Iso.asRead } := by
  have hstart := startsInDigit_textWith t separator []
  rw [List.append_nil] at hstart
  obtain ⟨c, hhead, hc⟩ := hstart
  obtain ⟨d, hlast, hd⟩ := Iso.endsInDigit_text t separator
  have hzulu : d ≠ 'Z' := Text.ne_of_isDigit hd rfl
  rw [readMoment?, Text.trim, String.toList_ofList, Text.trimBy_eq_self hhead hlast
    (Text.isBlank_of_isDigit hc) (Text.isBlank_of_isDigit hd), hlast]
  simp only [Option.some.injEq, hzulu, if_false]
  exact Iso.read_text t separator

theorem offsetText_universal : Moment.offsetText Offset.universal = "+00:00" := rfl

/-- A final `Z` stands for the offset of universal time. -/
theorem readMoment?_zulu (t : Moment) (separator : Char) (h : t.offset = none) :
    readMoment? (t.textWith (String.singleton separator) ++ "Z") =
      some { t with offset := some Offset.universal } := by
  obtain ⟨c, hhead, hc⟩ := startsInDigit_textWith t separator "Z".toList
  have hlast : ((t.textWith (String.singleton separator)).toList ++ "Z".toList).getLast? = some 'Z' :=
    List.getLast?_concat
  have hclock : Moment.clockText { t with offset := some Offset.universal } = t.clockText := rfl
  have hoffset : Moment.textWith (String.singleton separator)
      { t with offset := some Offset.universal } =
        t.textWith (String.singleton separator) ++ "+00:00" := by
    simp only [Moment.textWith, hclock, h, Option.map_none, Option.map_some, Option.getD_none,
      Option.getD_some, String.append_empty, offsetText_universal]
  have hread := Iso.read_text { t with offset := some Offset.universal } separator
  rw [hoffset, String.toList_append] at hread
  rw [readMoment?, Text.trim, String.toList_ofList, String.toList_append,
    Text.trimBy_eq_self hhead hlast (Text.isBlank_of_isDigit hc) rfl]
  simp only [hlast, if_true]
  rw [show "Z".toList = ['Z'] from rfl, List.dropLast_concat]
  exact hread

end Coercion

end AuditReport
