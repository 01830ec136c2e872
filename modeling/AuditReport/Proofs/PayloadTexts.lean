import AuditReport.Http.Payload

/-! Payloads that are texts. The bytes of a text in UTF-8 are read as that text, whatever stands for
damaged parts elsewhere. -/

namespace AuditReport

namespace Text.Utf8

variable {mark : List Char} {b : UInt8} {rest : List UInt8} {p : Pending} {left value low high : Nat}

theorem readFrom_alone {c : Char} (h : begin? b.toNat = some (.inl c)) :
    readFrom mark none (b :: rest) = c :: readFrom mark none rest := by
  simp only [readFrom, h, List.nil_append]

theorem readFrom_first (h : begin? b.toNat = some (.inr p)) :
    readFrom mark none (b :: rest) = readFrom mark (some p) rest := by
  simp only [readFrom, h, List.nil_append]

theorem readFrom_next (h : low ≤ b.toNat ∧ b.toNat ≤ high) :
    readFrom mark (some ⟨left + 2, value, low, high⟩) (b :: rest) =
      readFrom mark (some ⟨left + 1, 64 * value + b.toNat % 64, 0x80, 0xBF⟩) rest := by
  have hleft : left + 2 ≠ 1 := by omega
  simp only [readFrom, h, and_self, if_true, hleft, if_false]
  rfl

theorem readFrom_last (h : low ≤ b.toNat ∧ b.toNat ≤ high) :
    readFrom mark (some ⟨1, value, low, high⟩) (b :: rest) =
      Char.ofNat (64 * value + b.toNat % 64) :: readFrom mark none rest := by
  simp only [readFrom, h, and_self, if_true]

theorem toNat_byte {n : Nat} (h : n < 256) : (UInt8.ofNat n).toNat = n := by
  rw [UInt8.toNat_ofNat', Nat.mod_eq_of_lt h]

/-! ## The first byte of a character -/

variable {n : Nat}

theorem begin?_one (h : n ≤ 0x7F) : begin? n = some (.inl (Char.ofNat n)) := by
  rw [begin?, if_pos (by omega)]

theorem begin?_two (hleast : 0x7F < n) (hbound : n ≤ 0x7FF) :
    begin? (n / 64 % 32 + 192) = some (.inr ⟨1, n / 64, 0x80, 0xBF⟩) := by
  have hvalue : n / 64 % 32 + 192 - 0xC0 = n / 64 := by omega
  rw [begin?, if_neg (by omega), if_neg (by omega), if_pos (by omega), hvalue]

theorem begin?_three (hbound : n ≤ 0xFFFF) :
    begin? (n / 4096 % 16 + 224) = some (.inr ⟨2, n / 4096,
      if n / 4096 = 0 then 0xA0 else 0x80, if n / 4096 = 13 then 0x9F else 0xBF⟩) := by
  have hvalue : n / 4096 % 16 + 224 - 0xE0 = n / 4096 := by omega
  have hlow : n / 4096 % 16 + 224 = 0xE0 ↔ n / 4096 = 0 := by omega
  have hhigh : n / 4096 % 16 + 224 = 0xED ↔ n / 4096 = 13 := by omega
  rw [begin?, if_neg (by omega), if_neg (by omega), if_neg (by omega), if_pos (by omega), hvalue]
  simp only [hlow, hhigh]

theorem begin?_four (hbound : n < 0x110000) :
    begin? (n / 262144 % 8 + 240) = some (.inr ⟨3, n / 262144,
      if n / 262144 = 0 then 0x90 else 0x80, if n / 262144 = 4 then 0x8F else 0xBF⟩) := by
  have hvalue : n / 262144 % 8 + 240 - 0xF0 = n / 262144 := by omega
  have hlow : n / 262144 % 8 + 240 = 0xF0 ↔ n / 262144 = 0 := by omega
  have hhigh : n / 262144 % 8 + 240 = 0xF4 ↔ n / 262144 = 4 := by omega
  rw [begin?, if_neg (by omega), if_neg (by omega), if_neg (by omega), if_neg (by omega),
    if_pos (by omega), hvalue]
  simp only [hlow, hhigh]

/-! ## Whole characters -/

theorem readFrom_two (hleast : 0x7F < n) (hbound : n ≤ 0x7FF) :
    readFrom mark none (.ofNat (n / 64 % 32 + 192) :: .ofNat (n % 64 + 128) :: rest) =
      Char.ofNat n :: readFrom mark none rest := by
  have hfirst := toNat_byte (n := n / 64 % 32 + 192) (by omega)
  have hlast := toNat_byte (n := n % 64 + 128) (by omega)
  have hvalue : 64 * (n / 64) + (n % 64 + 128) % 64 = n := by omega
  rw [readFrom_first (hfirst ▸ begin?_two hleast hbound), readFrom_last, hlast, hvalue]
  rw [hlast]
  omega

theorem readFrom_three (hleast : 0x7FF < n) (hbound : n ≤ 0xFFFF)
    (hrange : n < 0xD800 ∨ 0xDFFF < n) :
    readFrom mark none (.ofNat (n / 4096 % 16 + 224) :: .ofNat (n / 64 % 64 + 128) ::
      .ofNat (n % 64 + 128) :: rest) = Char.ofNat n :: readFrom mark none rest := by
  have hfirst := toNat_byte (n := n / 4096 % 16 + 224) (by omega)
  have hsecond := toNat_byte (n := n / 64 % 64 + 128) (by omega)
  have hlast := toNat_byte (n := n % 64 + 128) (by omega)
  have hvalue : 64 * (64 * (n / 4096) + (n / 64 % 64 + 128) % 64) + (n % 64 + 128) % 64 = n := by
    omega
  rw [readFrom_first (hfirst ▸ begin?_three hbound), readFrom_next, hsecond,
    readFrom_last, hlast, hvalue]
  · rw [hlast]
    omega
  · rw [hsecond]
    constructor <;> split <;> omega

theorem readFrom_four (hleast : 0xFFFF < n) (hbound : n < 0x110000) :
    readFrom mark none (.ofNat (n / 262144 % 8 + 240) :: .ofNat (n / 4096 % 64 + 128) ::
      .ofNat (n / 64 % 64 + 128) :: .ofNat (n % 64 + 128) :: rest) =
      Char.ofNat n :: readFrom mark none rest := by
  have hfirst := toNat_byte (n := n / 262144 % 8 + 240) (by omega)
  have hsecond := toNat_byte (n := n / 4096 % 64 + 128) (by omega)
  have hthird := toNat_byte (n := n / 64 % 64 + 128) (by omega)
  have hlast := toNat_byte (n := n % 64 + 128) (by omega)
  have hvalue : 64 * (64 * (64 * (n / 262144) + (n / 4096 % 64 + 128) % 64) +
      (n / 64 % 64 + 128) % 64) + (n % 64 + 128) % 64 = n := by
    omega
  rw [readFrom_first (hfirst ▸ begin?_four hbound), readFrom_next, hsecond,
    readFrom_next, hthird, readFrom_last, hlast, hvalue]
  · rw [hlast]
    omega
  · rw [hthird]
    omega
  · rw [hsecond]
    constructor <;> split <;> omega

/-- The bytes of a character are read as the character. -/
theorem readFrom_encoded (c : Char) : readFrom mark none (String.utf8EncodeChar c ++ rest) =
    c :: readFrom mark none rest := by
  -- No character lies among the surrogates or behind the last plane.
  have hrange : c.val.toNat < 0xD800 ∨ 0xDFFF < c.val.toNat ∧ c.val.toNat < 0x110000 := c.valid
  have hself : Char.ofNat c.val.toNat = c := Char.ofNat_toNat c
  unfold String.utf8EncodeChar
  generalize c.val.toNat = n at hrange hself
  subst hself
  dsimp only
  split
  · next hone =>
    have hfirst : (UInt8.ofNat n).toNat = n := toNat_byte (by omega)
    exact readFrom_alone (hfirst.symm ▸ begin?_one hone)
  split
  · next hone htwo => exact readFrom_two (Nat.lt_of_not_le hone) htwo
  split
  · next htwo hthree => exact readFrom_three (Nat.lt_of_not_le htwo) hthree (by omega)
  · next hthree => exact readFrom_four (Nat.lt_of_not_le hthree) (by omega)

end Text.Utf8

namespace Http.Payload

/-- **What is sent as a text is read as that text.** -/
theorem text_ofText (s : String) : (ofText s).text = s := by
  have hread : ∀ cs : List Char, Text.Utf8.readIntact (cs.flatMap String.utf8EncodeChar) = cs := by
    intro cs
    induction cs with
    | nil => rfl
    | cons c cs ih =>
      rw [List.flatMap_cons, Text.Utf8.readIntact, Text.Utf8.readFrom_encoded]
      exact congrArg (c :: ·) ih
  rw [text, ofText, hread, String.ofList_toList]

end Http.Payload

end AuditReport
