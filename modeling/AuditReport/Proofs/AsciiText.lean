import AuditReport.Json.Writer
import Mathlib.Data.List.Basic

/-! Text in ASCII: the writer of JSON can be told to keep to it, and none of it stands for a lone
surrogate. -/

namespace AuditReport

namespace Text

/-- Characters of ASCII only. -/
def Ascii (cs : List Char) : Prop := ∀ c ∈ cs, c.toNat < 0x80

namespace Ascii

variable {cs ds : List Char} {c : Char}

instance (cs : List Char) : Decidable (Ascii cs) :=
  List.decidableBAll (fun c : Char => c.toNat < 0x80) cs

theorem append (hcs : Ascii cs) (hds : Ascii ds) : Ascii (cs ++ ds) :=
  List.forall_mem_append.mpr ⟨hcs, hds⟩

theorem cons (hc : c.toNat < 0x80) (hcs : Ascii cs) : Ascii (c :: cs) :=
  List.forall_mem_cons.mpr ⟨hc, hcs⟩

theorem subset (hds : Ascii ds) (h : cs ⊆ ds) : Ascii cs := fun _ hc => hds _ (h hc)

theorem replicate (hc : c.toNat < 0x80) (n : Nat) : Ascii (List.replicate n c) :=
  fun _ h => (List.mem_replicate.mp h).2 ▸ hc

theorem digits (n : Nat) : Ascii (Nat.toDigits 10 n) := by
  intro c hc
  have hdigit := Nat.isDigit_of_mem_toDigits (by decide) (Nat.le_refl 10) hc
  exact Nat.lt_of_le_of_lt (Char.isDigit_iff_toNat.mp hdigit).2 (by decide)

theorem hexDigits (width n : Nat) : Ascii (Hex.digits width n) := by
  have hdigit : ∀ k < 16, (Hex.digit k).toNat < 0x80 := by decide
  induction width generalizing n with
  | zero => exact nofun
  | succ width ih => exact (ih _).append (cons (hdigit _ (Nat.mod_lt n (by decide))) nofun)

theorem int (n : Int) : Ascii (toString n).toList := by
  have hnat (k : Nat) : Ascii k.repr.toList := by
    rw [← Nat.toString_eq_repr, Nat.toString_eq_ofList_toDigits, String.toList_ofList]
    exact digits k
  rw [Int.toString_eq_repr]
  cases n with
  | ofNat k => exact hnat k
  | negSucc k =>
    show Ascii ("-" ++ (k + 1).repr).toList
    rw [String.toList_append]
    exact append (by decide) (hnat _)

theorem isPaired {s : String} (h : Ascii s.toList) : Surrogate.isPaired s = true := by
  refine List.all_eq_true.mpr fun c hc => Option.isNone_iff_eq_none.mpr (if_neg fun hcarried => ?_)
  have hsmall := h c hc
  have hlarge : 0x10F000 ≤ c.toNat := hcarried.1
  omega

end Ascii

end Text

namespace Number

open Text

theorem digitsOf_lt {n d : Nat} (h : d ∈ digitsOf n) : d < 10 := by
  obtain ⟨c, hc, rfl⟩ := List.mem_map.mp h
  have hdigit := Nat.isDigit_of_mem_toDigits (by decide) (Nat.le_refl 10) hc
  have : c.toNat ≤ 57 := (Char.isDigit_iff_toNat.mp hdigit).2
  omega

theorem dropTrailingZeros_subset (ds : List Nat) : dropTrailingZeros ds ⊆ ds := by
  intro d h
  unfold dropTrailingZeros at h
  split at h
  · exact List.mem_of_mem_take h
  · exact List.mem_reverse.mp ((List.dropWhile_sublist _).mem (List.mem_reverse.mp h))

theorem shortest_digits_lt (m : Nat) (e : Int) : ∀ d ∈ (shortest m e).digits, d < 10 := by
  unfold shortest
  dsimp only
  split
  case h_1 found hfound =>
    obtain ⟨k, -, hk⟩ := List.exists_of_findSome?_eq_some hfound
    obtain ⟨n, -, rfl⟩ := Option.map_eq_some_iff.mp hk
    exact fun d h => digitsOf_lt (dropTrailingZeros_subset _ h)
  case h_2 => decide

theorem ascii_exponentText (k : Int) : Ascii (exponentText k) := by
  refine .cons (by decide) (.cons (by split <;> decide) ?_)
  split
  · exact .cons (by decide) (.digits _)
  · exact .digits _

theorem ascii_text (layout : Layout) {d : Decimal} (h : ∀ n ∈ d.digits, n < 10) :
    Ascii (d.text layout) := by
  have hdigits : Ascii (d.digits.map digitChar) := by
    have hdigit : ∀ n < 10, (digitChar n).toNat < 0x80 := by decide
    exact List.forall_mem_map.mpr fun n hn => hdigit n (h n hn)
  have hzeros (n : Nat) : Ascii (List.replicate n '0') := .replicate (by decide) n
  have hfraction (n : Nat) : Ascii ('.' :: (d.digits.map digitChar).drop n) :=
    .cons (by decide) (hdigits.subset (List.drop_subset _ _))
  unfold Decimal.text
  split
  · have hfirst := hdigits.subset (List.take_subset 1 _)
    refine (hfirst.append ?_).append (ascii_exponentText _)
    split
    · exact nofun
    · exact hfraction 1
  split
  · exact (Ascii.append (by decide) (hzeros _)).append hdigits
  · have hwhole (n k : Nat) : Ascii ((d.digits.map digitChar).take n ++ List.replicate k '0') :=
      (hdigits.subset (List.take_subset _ _)).append (hzeros k)
    dsimp only
    split
    · refine (hwhole _ _).append ?_
      split <;> decide
    · exact (hwhole _ _).append (hfraction _)

theorem ascii_floatText (x : Float) : Ascii (floatText x).toList := by
  unfold floatText
  split
  · decide
  · split <;> decide
  · next negative m e _ =>
    have hbody : Ascii (if m = 0 then ['0', '.', '0'] else (shortest m e).text shownLayout) := by
      split
      · decide
      · exact ascii_text _ (shortest_digits_lt m e)
    rw [String.toList_ofList]
    split
    · exact .cons (by decide) hbody
    · exact hbody

end Number

namespace Json

open Text

theorem ascii_unitEscape (n : Nat) : Ascii (unitEscape n) :=
  .cons (by decide) (.cons (by decide) (.hexDigits 4 n))

theorem ascii_writeChar (c : Char) : Ascii (writeChar true c) := by
  unfold writeChar
  split
  · next h => exact .cons (by decide) (.cons (by rcases h with rfl | rfl <;> decide) nofun)
  iterate 5
    split
    · decide
  dsimp only
  split
  · exact ascii_unitEscape _
  split
  · next h =>
    have hsmall : c.toNat < 0x7F := by simpa using h
    exact .cons (by omega) nofun
  split
  · exact ascii_unitEscape _
  split
  · exact ascii_unitEscape _
  · exact (ascii_unitEscape _).append (ascii_unitEscape _)

theorem ascii_writeString (s : String) : Ascii (writeString true s).toList := by
  have hchars : Ascii (s.toList.flatMap (writeChar true)) :=
    List.forall_mem_flatMap.mpr fun c _ => ascii_writeChar c
  rw [writeString, String.toList_ofList]
  exact .append (.cons (by decide) hchars) (by decide)

theorem ascii_writeFloat (x : Float) : Ascii (writeFloat x).toList := by
  unfold writeFloat
  split
  · decide
  · split <;> decide
  · exact Number.ascii_floatText x

variable {style : Style}

theorem ascii_lineBreak (style : Style) (level : Nat) : Ascii (lineBreak style level).toList := by
  unfold lineBreak
  split
  · rw [String.toList_ofList]
    exact .cons (by decide) (.replicate (by decide) _)
  · decide

theorem ascii_intercalate {separator : String} {parts : List String} (hs : Ascii separator.toList)
    (hparts : ∀ s ∈ parts, Ascii s.toList) : Ascii (separator.intercalate parts).toList := by
  induction parts with
  | nil => exact nofun
  | cons s rest ih =>
    obtain ⟨hhead, hrest⟩ := List.forall_mem_cons.mp hparts
    cases rest with
    | nil => rwa [String.intercalate_singleton]
    | cons t rest =>
      rw [String.intercalate_cons_cons, String.toList_append, String.toList_append]
      exact (hhead.append hs).append (ih hrest)

theorem ascii_bracketed {opening closing : String} {parts : List String} (level : Nat)
    (hopening : Ascii opening.toList) (hclosing : Ascii closing.toList)
    (hparts : ∀ s ∈ parts, Ascii s.toList) :
    Ascii (bracketed style level opening closing parts).toList := by
  unfold bracketed
  split
  · rw [String.toList_append]
    exact hopening.append hclosing
  · simp only [String.toList_append]
    have hseparator : Ascii ("," ++ lineBreak style (level + 1)).toList := by
      rw [String.toList_append]
      exact .append (by decide) (ascii_lineBreak style _)
    exact (((hopening.append (ascii_lineBreak style _)).append
      (ascii_intercalate hseparator hparts)).append (ascii_lineBreak style _)).append hclosing

mutual

/-- A style that keeps to ASCII writes nothing else, whatever the value. -/
theorem ascii_writeAt (hstyle : style.ascii = true) (level : Nat) :
    ∀ v, Ascii (writeAt style level v).toList
  | .null => by unfold writeAt; decide
  | .bool b => by unfold writeAt; cases b <;> decide
  | .int n => by unfold writeAt; exact .int n
  | .float x => by unfold writeAt; exact ascii_writeFloat x
  | .text s | .moment _ | .day _ | .id _ | .bytes _ => by
    unfold writeAt
    rw [hstyle]
    exact ascii_writeString _
  | .list xs => by
    unfold writeAt
    exact ascii_bracketed level (by decide) (by decide) (ascii_writeItems hstyle _ xs)
  | .object fs => by
    unfold writeAt
    exact ascii_bracketed level (by decide) (by decide) (ascii_writeFields hstyle _ fs)

theorem ascii_writeItems (hstyle : style.ascii = true) (level : Nat) :
    ∀ xs, ∀ s ∈ writeItems style level xs, Ascii s.toList
  | [] => by unfold writeItems; exact nofun
  | x :: rest => by
    unfold writeItems
    exact List.forall_mem_cons.mpr
      ⟨ascii_writeAt hstyle level x, ascii_writeItems hstyle level rest⟩

theorem ascii_writeFields (hstyle : style.ascii = true) (level : Nat) :
    ∀ fs, ∀ s ∈ writeFields style level fs, Ascii s.toList
  | [] => by unfold writeFields; exact nofun
  | (k, v) :: rest => by
    unfold writeFields
    have hcolon : Ascii (colon style).toList := by
      unfold colon
      split <;> decide
    refine List.forall_mem_cons.mpr ⟨?_, ascii_writeFields hstyle level rest⟩
    rw [hstyle, String.toList_append, String.toList_append]
    exact ((ascii_writeString k).append hcolon).append (ascii_writeAt hstyle level v)

end

theorem isPaired_write {style : Style} (hstyle : style.ascii = true) (v : Value) :
    Surrogate.isPaired (write style v) = true :=
  (ascii_writeAt hstyle 0 v).isPaired

end Json

end AuditReport
