/-! Patterns that match a text literally: every character with a meaning of its own in a pattern is
written behind a backslash. -/

namespace AuditReport.Text.Pattern

/-- The characters with a meaning of their own in a pattern. -/
def metacharacters : List Char :=
  ['.', '*', '+', '?', '^', '$', '\x7b', '\x7d', '(', ')', '|', '[', ']', '\\']

/-- The pattern that matches exactly the given characters. -/
def escape : List Char → List Char
  | [] => []
  | c :: rest => if metacharacters.contains c then '\\' :: c :: escape rest else c :: escape rest

/-- One element of a pattern: a character that stands for itself, or one with a meaning of its
own. -/
inductive Element where
  | literal (c : Char)
  | special (c : Char)
  deriving DecidableEq, Repr

/-- The elements of a pattern from left to right; `none` for a backslash at the end. -/
def read : List Char → Option (List Element)
  | [] => some []
  | '\\' :: c :: rest => (read rest).map (.literal c :: ·)
  | c :: rest =>
    if c = '\\' then none
    else (read rest).map ((if metacharacters.contains c then .special c else .literal c) :: ·)

/-- `escape` on strings. -/
def escapeText (s : String) : String := String.ofList (escape s.toList)

end AuditReport.Text.Pattern
