/-! Patterns in which a percent sign stands for any text and an underscore for any one character.
ASCII letters match in either case, and U+FFFD, U+FFFE and U+FFFF match one another. Pattern and text
both end at a null character. -/

namespace AuditReport.Log

/-- What a character is compared as: a letter of ASCII in lower case, and U+FFFE and U+FFFF as the
replacement character. -/
def letter (c : Char) : Char :=
  if c.toNat = 0xFFFE ∨ c.toNat = 0xFFFF then '\ufffd' else c.toLower

/-- The characters are compared as the same one. -/
def sameLetter (c d : Char) : Bool := letter c == letter d

/-- Some end of a text, the whole and the empty one included, has a property. -/
def anyEnd (p : List Char → Bool) : List Char → Bool
  | [] => p []
  | c :: rest => p (c :: rest) || anyEnd p rest

/-- What it means that a whole text matches a pattern. -/
def matchesAll : (pattern text : List Char) → Bool
  | [], cs => cs.isEmpty
  | p :: ps, cs =>
    if p = '%' then anyEnd (matchesAll ps) cs
    else match cs with
      | [] => false
      | c :: rest => (p = '_' || sameLetter p c) && matchesAll ps rest

/-- A property of every end of a text, the whole one first. -/
def ends (p : List Char → Bool) : List Char → List Bool
  | [] => [p []]
  | c :: rest => p (c :: rest) :: ends p rest

/-- Which ends of a text match a pattern that starts with `p`, given which ends match the rest of
it. -/
def matchStep (p : Char) : (text : List Char) → (rest : List Bool) → List Bool
  | [], matched => [p = '%' && matched.headD false]
  | c :: text, matched =>
    let later := matchStep p text (matched.drop 1)
    (if p = '%' then matched.headD false || later.headD false
      else (p = '_' || sameLetter p c) && (matched.drop 1).headD false) :: later

/-- Matches a whole text with a pattern, in time that grows with the product of their lengths. -/
def like (pattern text : List Char) : Bool :=
  (pattern.foldr (fun p matched => matchStep p text matched) (ends List.isEmpty text)).headD false

theorem headD_ends (p : List Char → Bool) (cs : List Char) : (ends p cs).headD false = p cs := by
  cases cs <;> rfl

theorem matchStep_ends (p : Char) (ps cs : List Char) :
    matchStep p cs (ends (matchesAll ps) cs) = ends (matchesAll (p :: ps)) cs := by
  induction cs with
  | nil => by_cases h : p = '%' <;> simp [matchStep, ends, matchesAll, anyEnd, h]
  | cons c cs ih =>
    simp only [matchStep, ends, List.drop_succ_cons, List.drop_zero, ih, headD_ends,
      List.headD_cons, matchesAll]
    by_cases h : p = '%' <;> simp [h, anyEnd]

/-- Matching in steps finds what a match means. -/
theorem like_eq (pattern text : List Char) : like pattern text = matchesAll pattern text := by
  have h : pattern.foldr (fun p matched => matchStep p text matched) (ends List.isEmpty text) =
      ends (matchesAll pattern) text := by
    induction pattern with
    | nil => rfl
    | cons p ps ih => rw [List.foldr_cons, ih, matchStep_ends]
  rw [like, h, headD_ends]

/-- The part of a text that is compared. -/
def compared (cs : List Char) : List Char := cs.takeWhile (· != '\x00')

/-- Matches the beginning of a text with a pattern. -/
def likePrefix (pattern text : String) : Bool :=
  like (compared (pattern.toList ++ ['%'])) (compared text.toList)

/-- The greatest length of a pattern in bytes, the percent sign behind it included. -/
def patternLimit : Nat := 50000

/-- A pattern that is too long to be compared with anything. -/
def isOverlong (pattern : String) : Bool := patternLimit < pattern.utf8ByteSize + 1

end AuditReport.Log
