import AuditReport.Catalog.Audit
import AuditReport.Condition
import Mathlib.Data.List.Basic

/-! Patterns made from the text of users. Read from left to right, such a pattern is the text itself,
character by character, and what an operator adds in front of it or behind it is the only thing with
a meaning of its own. -/

namespace AuditReport

namespace Text.Pattern

/-- The elements of a pattern in which every character of a text stands for itself. -/
def literals (s : String) : List Element := s.toList.map .literal

theorem read_escaped (c : Char) (rest : List Char) :
    read ('\\' :: c :: rest) = (read rest).map (.literal c :: ·) := by
  rw [read]

theorem read_plain {c : Char} (h : metacharacters.contains c = false) (rest : List Char) :
    read (c :: rest) = (read rest).map (.literal c :: ·) := by
  have hc : c ≠ '\\' := by
    intro hc
    simp [hc, metacharacters] at h
  rw [read]
  · simp only [hc, if_false, h]
    rfl
  · simp [hc]

theorem read_special {c : Char} (h : metacharacters.contains c = true) (hc : c ≠ '\\')
    (rest : List Char) : read (c :: rest) = (read rest).map (.special c :: ·) := by
  rw [read]
  · simp only [hc, if_false, h]
    rfl
  · simp [hc]

/-- What is escaped reads as itself, and the reading then goes on with what follows. -/
theorem read_escape_append (cs rest : List Char) :
    read (escape cs ++ rest) = (read rest).map (cs.map .literal ++ ·) := by
  induction cs with
  | nil => simp [escape]
  | cons c cs ih =>
    rw [escape]
    split
    · rw [List.cons_append, List.cons_append, read_escaped, ih, Option.map_map]
      rfl
    · next h =>
      rw [List.cons_append, read_plain (by simpa using h), ih, Option.map_map]
      rfl

theorem read_escapeText (s : String) : read (escapeText s).toList = some (literals s) := by
  have h := read_escape_append s.toList []
  simpa [escapeText, literals, read] using h

theorem read_escapeText_append (s : String) (rest : List Char) :
    read ((escapeText s).toList ++ rest) = (read rest).map (literals s ++ ·) := by
  simp [escapeText, literals, read_escape_append]

theorem literals_injective : Function.Injective literals := by
  intro s t h
  have hlist : s.toList = t.toList := List.map_injective_iff.mpr (fun _ _ => Element.literal.inj) h
  exact String.toList_inj.mp hlist

theorem escapeText_injective : Function.Injective escapeText := by
  intro s t h
  have hread := read_escapeText s
  rw [h, read_escapeText t] at hread
  exact (literals_injective (Option.some.inj hread)).symm

end Text.Pattern

namespace Condition

open Text.Pattern

/-- What an operator on texts asks for, as elements of a pattern: the text itself anywhere, at the
start or at the end. -/
def elements? (operator : Operator) (s : String) : Option (List Element) :=
  match operator with
  | .contains => some (literals s)
  | .startsWith => some (.special '^' :: literals s)
  | .endsWith => some (literals s ++ [.special '$'])
  | _ => none

theorem literalText_ok {v : Value} {s : String} (h : v.shown? = some s) :
    literalText v = .ok (escapeText s) := by
  rw [literalText, h]

theorem test_of_elements? {operator : Operator} {v : Value} {s : String} {es : List Element}
    (hs : v.shown? = some s) (h : elements? operator s = some es) :
    ∃ p, test operator v = .ok (pattern p) ∧ read p.toList = some es := by
  have htext := literalText_ok hs
  cases operator with
  | contains =>
    cases h
    exact ⟨escapeText s, by rw [test, htext, Except.map], read_escapeText s⟩
  | startsWith =>
    cases h
    refine ⟨"^" ++ escapeText s, by rw [test, htext, Except.map], ?_⟩
    have hanchor : ("^" ++ escapeText s).toList = '^' :: (escapeText s).toList := by
      rw [String.toList_append]
      rfl
    rw [hanchor, read_special (by decide) (by decide), read_escapeText]
    rfl
  | endsWith =>
    cases h
    refine ⟨escapeText s ++ "$", by rw [test, htext, Except.map], ?_⟩
    have hanchor : (escapeText s ++ "$").toList = (escapeText s).toList ++ ['$'] := by
      rw [String.toList_append]
      rfl
    rw [hanchor, read_escapeText_append, read_special (by decide) (by decide)]
    rfl
  | _ => cases h

theorem value_of_elements? {c : Column} {operator : Operator} {v : Value} {s : String}
    {es : List Element} (hc : c.dataType = .string) (h : elements? operator s = some es) :
    Coercion.value c operator v = .ok v := by
  have hscalar : Coercion.scalar c v = .ok v := by
    rw [Coercion.scalar, hc]
  cases operator with
  | contains | startsWith | endsWith => exact hscalar
  | _ => cases h

/-- **Users' text matches literally.** A text that is escaped reads as itself, so that no two texts
have the same pattern. A filter for texts on a column of texts builds a pattern that reads as the text
of its value, with an anchor in front of it or behind it just if the operator asks for one; over
several stored fields, it asks each of them for the text anywhere, whatever the column's type. This
is so for all values that have a text: those without an integer too long to be printed. -/
theorem patterns_read_as_text :
    (∀ s, read (escapeText s).toList = some (literals s)) ∧
    Function.Injective escapeText ∧
    (∀ c f s es, c.isVirtual = false → c.dataType = .string →
      f.value.shown? = some s → elements? f.operator s = some es →
      ∃ p, ofFilter c f = .ok [(c.path, pattern p)] ∧ read p.toList = some es) ∧
    ∀ c f s, c.isVirtual = true → f.operator = .contains → f.value.shown? = some s →
      ∃ p, ofFilter c f =
          .ok [("$or", .list (c.virtualPaths.map fun path => .object [(path, pattern p)]))] ∧
        read p.toList = some (literals s) := by
  refine ⟨read_escapeText, escapeText_injective, ?_, ?_⟩
  · intro c f s es hplain hc hs hes
    obtain ⟨p, htest, hread⟩ := test_of_elements? hs hes
    refine ⟨p, ?_, hread⟩
    have hvalue : Coercion.value c f.operator f.value >>= test f.operator = .ok (pattern p) := by
      rw [value_of_elements? hc hes]
      exact htest
    rw [ofFilter, if_neg (by simp [hplain]), hvalue]
    rfl
  · intro c f s hvirtual hop hs
    refine ⟨escapeText s, ?_, read_escapeText s⟩
    rw [ofFilter, if_pos hvirtual, hop, virtualTest, literalText_ok hs]
    rfl

/-- Metacharacters beside backslashes and at the end, on a column of texts and on one over several
fields. -/
theorem patterns_read_as_text_backslashes :
    ∃ c, Audit.catalog.column? "propertyName" = some c ∧ c.isVirtual = false ∧
      c.dataType = .string ∧
      ∃ d, Audit.catalog.column? "otaId" = some d ∧ d.isVirtual = true ∧
        (∃ p, ofFilter c ⟨"propertyName", .startsWith, .text "a\\.$\\"⟩ = .ok [(c.path, pattern p)] ∧
          read p.toList = some (.special '^' :: literals "a\\.$\\")) ∧
        ∃ p, ofFilter d ⟨"otaId", .contains, .float 1.5⟩ =
            .ok [("$or", .list (d.virtualPaths.map fun path => .object [(path, pattern p)]))] ∧
          read p.toList = some (literals "1.5") := by
  obtain ⟨c, hc, hplain, htexts⟩ :
      ∃ c, Audit.catalog.column? "propertyName" = some c ∧ c.isVirtual = false ∧
        c.dataType = .string := ⟨_, rfl, rfl, rfl⟩
  obtain ⟨d, hd, hvirtual⟩ :
      ∃ d, Audit.catalog.column? "otaId" = some d ∧ d.isVirtual = true := ⟨_, rfl, rfl⟩
  obtain ⟨-, -, hanchored, hanywhere⟩ := patterns_read_as_text
  have hfraction : (Value.float 1.5).shown? = some "1.5" := by decide +kernel
  have hnumber := hanywhere d ⟨"otaId", .contains, .float 1.5⟩ "1.5" hvirtual rfl hfraction
  exact ⟨c, hc, hplain, htexts, d, hd, hvirtual,
    hanchored c ⟨"propertyName", .startsWith, .text "a\\.$\\"⟩ "a\\.$\\" _ hplain htexts rfl rfl,
    hnumber⟩

end Condition

end AuditReport
