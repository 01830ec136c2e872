import AuditReport.Export.Csv
import AuditReport.Proofs.AsciiText
import AuditReport.Proofs.EqualValues
import AuditReport.Proofs.Fallible

/-! Comma-separated text is lossless: whatever texts, doubles and truth values a table holds,
reading what is written of it gives its labels and the texts of its values. Only a table with a lone
surrogate is not written. -/

namespace AuditReport

open Text Fallible

namespace Number

open Float.Model

theorem isNaN_unpack {b : BitVec Format.binary64.numBits}
    (h : b.toNat / hiddenBit % 2048 ≠ 2047) :
    (UnpackedFloat.unpack .binary64 b).isNaN = false := by
  have hexponent : UnpackedFloat.unpackExponent b ≠ -.ofNat _ 1 := fun hgreatest =>
    h ((toNat_unpackExponent b).symm.trans (congrArg BitVec.toNat hgreatest))
  unfold UnpackedFloat.unpack
  dsimp only
  rw [if_neg hexponent]
  by_cases hleast : UnpackedFloat.unpackExponent b = .ofNat _ 0
  · rw [if_pos hleast]
    by_cases hmantissa : UnpackedFloat.unpackMantissa b = .ofNat _ 0
    · rw [dif_pos hmantissa]
      rfl
    · rw [dif_neg hmantissa]
      rfl
  · rw [if_neg hleast]
    rfl

theorem isNaN_of_isFinite {x : Float} (h : isFinite x = true) : x.isNaN = false := by
  refine isNaN_unpack fun hgreatest : x.toBits.toNat / hiddenBit % 2048 = 2047 => ?_
  unfold isFinite Binary.ofFloat at h
  dsimp only at h
  rw [if_pos hgreatest] at h
  split at h
  · next hfinite => split at hfinite <;> cases hfinite
  · cases h

end Number

/-! ## The values of a table -/

/-- A value that a cell shows as it is: a text, a truth value or a finite double. -/
def Value.isPlain : Value → Bool
  | .text _ | .bool _ => true
  | .float x => Number.isFinite x
  | _ => false

/-- The text of a plain value has no lone surrogate unless the value is a text that has one. -/
theorem Value.isPaired_shown {v : Value} (h : v.isPlain = true)
    (htext : ∀ s, v = .text s → Surrogate.isPaired s = true) :
    Surrogate.isPaired v.shown = true := by
  cases v with
  | text s => exact htext s rfl
  | bool b => cases b <;> decide
  | float x => exact (Number.ascii_floatText x).isPaired
  | _ => cases h

namespace Table

/-- A table with columns in which each record has a plain value under each label. -/
structure Plain (t : Table) : Prop where
  labelled : t.labels ≠ []
  cells : ∀ r ∈ t.records, ∀ l ∈ t.labels, ∃ v, r.get? l = some v ∧ v.isPlain = true

/-- The labels, and below them the texts of each record's values in the order of the labels. -/
def shownRows (t : Table) : List (List String) :=
  t.labels :: t.records.map fun r => t.labels.map fun l => (r.get l).shown

/-- None of the labels and of the texts in cells has a lone surrogate. -/
structure Encodable (t : Table) : Prop where
  labels : ∀ l ∈ t.labels, Surrogate.isPaired l = true
  texts : ∀ r ∈ t.records, ∀ l ∈ t.labels, ∀ s, r.get? l = some (.text s) →
    Surrogate.isPaired s = true

theorem Plain.encodable_iff {t : Table} (h : t.Plain) :
    t.Encodable ↔ (t.shownRows.all fun row => row.all Surrogate.isPaired) = true := by
  simp only [List.all_eq_true, shownRows, List.forall_mem_cons, List.forall_mem_map]
  constructor
  · refine fun hencodable => ⟨hencodable.labels, fun r hr l hl => ?_⟩
    obtain ⟨v, hv, hplain⟩ := h.cells r hr l hl
    rw [Document.get, hv]
    exact Value.isPaired_shown hplain fun s hs => hencodable.texts r hr l hl s (hs ▸ hv)
  · refine fun ⟨hlabels, hshown⟩ => ⟨hlabels, fun r hr l hl s hs => ?_⟩
    have hcell := hshown r hr l hl
    rwa [Document.get, hs] at hcell

theorem isOfDoubles_plain {vs : List Value} (h : ∀ v ∈ vs, v.isPlain = true) (traits : Traits) :
    ∃ b, isOfDoubles traits vs = .ok b := by
  induction vs generalizing traits with
  | nil => exact ⟨_, rfl⟩
  | cons v vs ih =>
    obtain ⟨hv, hvs⟩ := List.forall_mem_cons.mp h
    cases v with
    | text s => exact ⟨false, rfl⟩
    | bool b => exact ih hvs _
    | float x => exact ih hvs _
    | _ => cases hv

theorem harmonize_plain {vs : List Value} (h : ∀ v ∈ vs, v.isPlain = true) :
    harmonize vs = .ok vs := by
  obtain ⟨b, hb⟩ := isOfDoubles_plain h .initial
  unfold harmonize
  rw [hb]
  cases b with
  | false => rfl
  | true =>
    refine congrArg Except.ok ((List.map_congr_left fun v hv => ?_).trans (List.map_id vs))
    cases v with
    | int n => cases h _ hv
    | _ => rfl

theorem transpose_columns {A B : Type} (f : A → B → Value) (rows : List A) (columns : List B) :
    transpose rows.length (columns.map fun b => rows.map fun a => f a b) =
      rows.map fun a => columns.map fun b => f a b := by
  refine List.ext_getElem (by simp [transpose]) fun i hi hi' => ?_
  simp only [transpose, List.length_map, List.length_range] at hi hi'
  simp [transpose, hi']

theorem grid_plain {t : Table} (h : t.Plain) :
    t.grid = .ok (t.records.map fun r => t.labels.map fun l => r.get l) := by
  have hcolumn : ∀ l ∈ t.labels, t.column l = .ok (t.records.map fun r => r.get l) := by
    intro l hl
    have hvalues : (t.records.map fun r => (r.get? l).getD missing) =
        t.records.map fun r => r.get l := by
      refine List.map_congr_left fun r hr => ?_
      obtain ⟨v, hv, -⟩ := h.cells r hr l hl
      rw [Document.get, hv, Option.getD_some, Option.getD_some]
    rw [column, hvalues]
    refine harmonize_plain (List.forall_mem_map.mpr fun r hr => ?_)
    obtain ⟨v, hv, hplain⟩ := h.cells r hr l hl
    rwa [Document.get, hv, Option.getD_some]
  rw [grid, mapM_eq_map hcolumn]
  exact congrArg Except.ok (transpose_columns (fun r l => Document.get r l) t.records t.labels)

end Table

namespace Csv

theorem cellText_plain {v : Value} (h : v.isPlain = true) : cellText v = v.shown := by
  cases v with
  | float x => exact if_neg (by rw [Number.isNaN_of_isFinite h]; decide)
  | text s => rfl
  | bool b => rfl
  | _ => cases h

theorem fieldsOf_plain {t : Table} (h : t.Plain) :
    fieldsOf t = .ok (t.shownRows.map fun row => row.map String.toList) := by
  rw [fieldsOf, Table.grid_plain h]
  refine congrArg (fun rows => Except.ok (_ :: rows)) ?_
  rw [List.map_map, List.map_map]
  refine List.map_congr_left fun r hr => ?_
  simp only [Function.comp_apply, List.map_map]
  refine List.map_congr_left fun l hl => ?_
  obtain ⟨v, hv, hplain⟩ := h.cells r hr l hl
  simp only [Function.comp_apply, Document.get, hv, Option.getD_some, cellText_plain hplain]

/-! ## Reading what is written -/

section Reading

variable {cs rest f : List Char} {c : Char} {r : List (List Char)}

theorem readFrom_unquoted (h : cs.any needsQuotes = false) :
    readFrom ⟨.plain, f, r⟩ (cs ++ rest) = readFrom ⟨.plain, cs.reverse ++ f, r⟩ rest := by
  induction cs generalizing f with
  | nil => rfl
  | cons c cs ih =>
    obtain ⟨hc, hcs⟩ := Bool.or_eq_false_iff.mp (List.any_cons ▸ h)
    simp only [needsQuotes, Bool.or_eq_false_iff, beq_eq_false_iff_ne] at hc
    obtain ⟨⟨hcomma, hquote⟩, hline⟩ := hc
    rw [List.cons_append, readFrom, if_neg nofun, if_neg hquote, if_neg hcomma, if_neg hline,
      Place.take, ih hcs, List.reverse_cons, List.append_assoc]
    rfl

/-- Inside quotes every character is read, a quote from two of them. -/
theorem readFrom_escape :
    readFrom ⟨.quoted, f, r⟩ (escape cs ++ rest) = readFrom ⟨.quoted, cs.reverse ++ f, r⟩ rest := by
  induction cs generalizing f with
  | nil => rfl
  | cons c cs ih =>
    rw [List.reverse_cons, List.append_assoc]
    unfold escape
    by_cases hquote : c = '"'
    · subst hquote
      exact ih
    · rw [if_neg hquote, List.cons_append, readFrom, if_pos rfl, if_neg hquote]
      exact ih

/-- What ends a field ends it with or without quotes. -/
theorem readFrom_field (hc : c = ',' ∨ c = '\n') :
    readFrom ⟨.plain, [], r⟩ (field cs ++ c :: rest) =
      readFrom ⟨.plain, cs.reverse, r⟩ (c :: rest) := by
  unfold field
  split
  · have hopened : readFrom ⟨.plain, [], r⟩ (quote cs ++ c :: rest) =
        readFrom ⟨.quoted, [], r⟩ (escape cs ++ '"' :: c :: rest) := by
      rw [quote, List.append_assoc]
      rfl
    rw [hopened, readFrom_escape, List.append_nil]
    rcases hc with rfl | rfl <;> rfl
  · next h =>
    rw [readFrom_unquoted (Bool.not_eq_true _ ▸ h), List.append_nil]

theorem readFrom_fields (fs : List (List Char)) :
    readFrom ⟨.plain, [], r⟩ (fields (cs :: fs) ++ '\n' :: rest) =
      (r.reverse ++ cs :: fs) :: readFrom .start rest := by
  induction fs generalizing cs r with
  | nil =>
    rw [fields, readFrom_field (.inr rfl)]
    show (cs.reverse.reverse :: r).reverse :: _ = _
    rw [List.reverse_reverse, List.reverse_cons]
  | cons d fs ih =>
    have hwritten : fields (cs :: d :: fs) = field cs ++ ',' :: fields (d :: fs) := rfl
    rw [hwritten, List.append_assoc, List.cons_append, readFrom_field (.inl rfl)]
    show readFrom ⟨.plain, [], cs.reverse.reverse :: r⟩ (fields (d :: fs) ++ '\n' :: rest) = _
    rw [ih, List.reverse_reverse, List.reverse_cons, List.append_assoc]
    rfl

theorem readFrom_record {fs : List (List Char)} (h : fs ≠ []) :
    readFrom .start (record fs ++ rest) = fs :: readFrom .start rest := by
  unfold record
  split
  · rfl
  · obtain ⟨cs, fs, rfl⟩ := List.exists_cons_of_ne_nil h
    rw [List.append_assoc]
    exact readFrom_fields fs

theorem readFrom_records {rows : List (List (List Char))} (h : ∀ fs ∈ rows, fs ≠ []) :
    readFrom .start (rows.flatMap record) = rows := by
  induction rows with
  | nil => rfl
  | cons fs rows ih =>
    obtain ⟨hfs, hrows⟩ := List.forall_mem_cons.mp h
    rw [List.flatMap_cons, readFrom_record hfs, ih hrows]

end Reading

/-! ## The characters of a text -/

section Characters

variable {p : Char → Bool} (hcomma : p ',' = true) (hquote : p '"' = true) (hline : p '\n' = true)
include hquote

theorem all_escape (cs : List Char) : (escape cs).all p = cs.all p := by
  induction cs with
  | nil => rfl
  | cons c cs ih =>
    unfold escape
    split
    · next h => simp [h, hquote, ih]
    · simp [ih]

theorem all_field (cs : List Char) : (field cs).all p = cs.all p := by
  unfold field
  split
  · simp [quote, hquote, all_escape hquote]
  · rfl

include hcomma

theorem all_fields (fs : List (List Char)) : (fields fs).all p = fs.all fun cs => cs.all p := by
  fun_induction fields fs with
  | case1 => rfl
  | case2 f => simp [all_field hquote]
  | case3 f rest _ ih => simp [all_field hquote, hcomma, ih]

include hline

theorem all_record (fs : List (List Char)) : (record fs).all p = fs.all fun cs => cs.all p := by
  unfold record
  split
  · simp [quote, escape, hquote, hline]
  · simp [all_fields hcomma hquote, hline]

end Characters

theorem isPaired_records (rows : List (List String)) :
    Surrogate.isPaired
        (String.ofList ((rows.map fun row => row.map String.toList).flatMap record)) =
      rows.all fun row => row.all Surrogate.isPaired := by
  have hrecord := all_record (p := fun c => (Surrogate.unit? c).isNone) rfl rfl rfl
  rw [Surrogate.isPaired, String.toList_ofList, List.all_flatMap]
  simp only [hrecord, List.all_map, Function.comp_def]
  rfl

/-! ## Losslessness -/

/-- The text that is written of a table, if it can be. -/
theorem write_plain {t : Table} (h : t.Plain) :
    write t = if (t.shownRows.all fun row => row.all Surrogate.isPaired) = true
      then .ok (String.ofList ((t.shownRows.map fun row => row.map String.toList).flatMap record))
      else .error .unencodable := by
  rw [← isPaired_records]
  unfold write
  rw [fieldsOf_plain h]
  rfl

theorem read_records {rows : List (List String)} (h : ∀ row ∈ rows, row ≠ []) :
    read (String.ofList ((rows.map fun row => row.map String.toList).flatMap record)) = rows := by
  have hfilled : ∀ fs ∈ rows.map (fun row => row.map String.toList), fs ≠ [] :=
    List.forall_mem_map.mpr fun row hrow => mt List.map_eq_nil_iff.mp (h row hrow)
  rw [read, String.toList_ofList, readFrom_records hfilled, List.map_map]
  simp [Function.comp_def]

/-- **Comma-separated text is lossless.** Of a table with columns whose records have a text, a truth
value or a finite double under each label, a text is written if no label and no text in a cell has a
lone surrogate. Reading this text gives the labels and then, for each record in order, the texts of
its values in the order of the labels. With a lone surrogate nothing is written. -/
theorem read_write (t : Table) (h : t.Plain) :
    (t.Encodable → ∃ s, write t = .ok s ∧ read s = t.shownRows) ∧
      (¬ t.Encodable → write t = .error .unencodable) := by
  rw [write_plain h, h.encodable_iff]
  refine ⟨fun hencodable => ⟨_, if_pos hencodable, ?_⟩, fun hlone => if_neg hlone⟩
  exact read_records (by simp [Table.shownRows, h.labelled])

/-- One column with an empty text, texts that must be quoted, a double and a truth value. -/
theorem read_write_one_column :
    let t : Table := ⟨["A,B"], [[("A,B", .text "")], [("A,B", .text "say \"\"\n")],
      [("A,B", .float 0.5)], [("A,B", .bool true)]]⟩
    ∃ s, write t = .ok s ∧ read s = [["A,B"], [""], ["say \"\"\n"], ["0.5"], ["True"]] := by
  intro t
  have hplain : t.Plain := ⟨by decide, by simp [t, Document.get?, Value.isPlain]; decide⟩
  have hencodable : t.Encodable := ⟨by decide, by simp [t, Document.get?]; decide⟩
  have hshown : Number.floatText 0.5 = "0.5" := by decide +kernel
  obtain ⟨s, hs, hread⟩ := (read_write t hplain).1 hencodable
  refine ⟨s, hs, ?_⟩
  rw [hread]
  simp [t, Table.shownRows, Document.get, Document.get?, Value.shown, Value.quoted, hshown]

/-- A text with a lone surrogate is not written. -/
theorem write_lone_surrogate :
    let s := String.singleton (Surrogate.ofUnit 0xD800)
    let t : Table := ⟨["A"], [[("A", .text s)]]⟩
    t.Plain ∧ t.labels.Nodup ∧ write t = .error .unencodable ∧
      ¬ ∃ s, write t = .ok s ∧ read s = t.shownRows := by
  intro s t
  have hplain : t.Plain := ⟨by decide, by simp [t, Document.get?, Value.isPlain]⟩
  have hrefused : write t = .error .unencodable :=
    (write_plain hplain).trans (if_neg (by decide))
  refine ⟨hplain, by decide, hrefused, fun ⟨_, hs, _⟩ => ?_⟩
  cases hrefused.symm.trans hs

end Csv

end AuditReport
