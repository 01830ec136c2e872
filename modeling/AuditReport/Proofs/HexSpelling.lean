import AuditReport.Text.Hex

/-! Spellings of bytes in hexadecimal. The reader accepts exactly the spellings of what the writer
writes, which is the spelling in lower case without blanks. -/

namespace AuditReport.Text.Hex

/-! ## Digits -/

theorem value?_eq_none {c : Char} (h : 103 ≤ c.toNat) : value? c = none := by
  have hle : ∀ d : Char, d.toNat < 103 → ¬c ≤ d := by
    intro d hd hcd
    have hnat : c.toNat ≤ d.toNat := UInt32.le_iff_toNat_le.mp hcd
    omega
  have h9 := hle '9' (by decide)
  have hf := hle 'f' (by decide)
  have hF := hle 'F' (by decide)
  simp [value?, h9, hf, hF]

/-- A digit has a value below sixteen, is written in lower case, and is neither a blank nor a colon. -/
theorem value?_some {c : Char} {n : Nat} (h : value? c = some n) :
    n < 16 ∧ digit n = c.toLower ∧ isGap c = false ∧ c ≠ ':' := by
  have hall : ∀ k : Fin 103, ∀ m ∈ value? (Char.ofNat k), m < 16 ∧
      digit m = (Char.ofNat k).toLower ∧ isGap (Char.ofNat k) = false ∧ Char.ofNat k ≠ ':' := by
    decide
  by_cases hc : c.toNat < 103
  · have hdigit := hall ⟨c.toNat, hc⟩ n
    rw [Char.ofNat_toNat] at hdigit
    exact hdigit h
  · rw [value?_eq_none (by omega)] at h
    cases h

theorem value?_digit {n : Nat} (h : n < 16) : value? (digit n) = some n := by
  have hall : ∀ k : Fin 16, value? (digit k) = some k.val := by decide
  exact hall ⟨n, h⟩

theorem toLower_digit {n : Nat} (h : n < 16) : (digit n).toLower = digit n :=
  (value?_some (value?_digit h)).2.1.symm

theorem digit_inj {m n : Nat} (hm : m < 16) (hn : n < 16) (h : digit m = digit n) : m = n := by
  have hvalue := congrArg value? h
  rw [value?_digit hm, value?_digit hn] at hvalue
  exact Option.some.inj hvalue

/-! ## Spellings -/

/-- A text spells the bytes of a canonical one: blanks may stand between its pairs of digits, and
each digit is of either case. -/
inductive Respells : List Char → List Char → Prop
  | nil : Respells [] []
  | gap {c : Char} {cs ds : List Char} : isGap c = true → Respells cs ds → Respells (c :: cs) ds
  | pair {c d : Char} {cs ds : List Char} : (value? c).isSome = true → (value? d).isSome = true →
      Respells cs ds → Respells (c :: d :: cs) (c.toLower :: d.toLower :: ds)

theorem encode_cons (b : UInt8) (bs : List UInt8) :
    encode (b :: bs) = digit (b.toNat / 16) :: digit (b.toNat % 16) :: encode bs := rfl

theorem decode_gap {c : Char} {cs : List Char} (h : isGap c = true) :
    decode (c :: cs) = decode cs := by
  cases cs <;> simp [decode, h]

theorem decode_pair {c d : Char} {cs : List Char} {high low : Nat} (hc : value? c = some high)
    (hd : value? d = some low) :
    decode (c :: d :: cs) = (decode cs).map (UInt8.ofNat (high * 16 + low) :: ·) := by
  have hgap : ¬isGap c = true := by rw [(value?_some hc).2.2.1]; exact Bool.false_ne_true
  rw [decode, if_neg hgap, hc, hd]
  cases decode cs <;> rfl

theorem respells_of_decode {cs : List Char} {bs : List UInt8} (h : decode cs = some bs) :
    Respells cs (encode bs) := by
  fun_induction decode cs generalizing bs with
  | case1 =>
    cases h
    exact .nil
  | case2 c rest hgap ih => exact .gap hgap (ih h)
  | case3 c hgap => cases h
  | case4 c hgap d rest ih =>
    obtain ⟨high, hhigh, h⟩ := Option.bind_eq_some_iff.mp h
    obtain ⟨low, hlow, h⟩ := Option.bind_eq_some_iff.mp h
    obtain ⟨rest', hrest, h⟩ := Option.bind_eq_some_iff.mp h
    cases h
    obtain ⟨hh, hc, -⟩ := value?_some hhigh
    obtain ⟨hl, hd, -⟩ := value?_some hlow
    have hbyte : (UInt8.ofNat (high * 16 + low)).toNat = (high * 16 + low) % 2 ^ 8 :=
      UInt8.toNat_ofNat'
    have hdiv : (UInt8.ofNat (high * 16 + low)).toNat / 16 = high := by omega
    have hmod : (UInt8.ofNat (high * 16 + low)).toNat % 16 = low := by omega
    rw [encode_cons, hdiv, hmod, hc, hd]
    exact .pair (by rw [hhigh]; rfl) (by rw [hlow]; rfl) (ih hrest)

theorem decode_of_respells {cs ds : List Char} {bs : List UInt8} (h : Respells cs ds)
    (hds : encode bs = ds) : decode cs = some bs := by
  induction h generalizing bs with
  | nil =>
    cases bs with
    | nil => simp [decode]
    | cons b bs => cases hds
  | gap hgap _ ih =>
    rw [decode_gap hgap]
    exact ih hds
  | pair hc hd _ ih =>
    obtain ⟨high, hhigh⟩ := Option.isSome_iff_exists.mp hc
    obtain ⟨low, hlow⟩ := Option.isSome_iff_exists.mp hd
    obtain ⟨hh, hcl, -⟩ := value?_some hhigh
    obtain ⟨hl, hdl, -⟩ := value?_some hlow
    cases bs with
    | nil => cases hds
    | cons b bs =>
      rw [encode_cons, ← hcl, ← hdl] at hds
      obtain ⟨hb1, hds⟩ := List.cons.inj hds
      obtain ⟨hb2, hds⟩ := List.cons.inj hds
      have hb := b.toNat_lt
      have h1 := digit_inj (by omega) hh hb1
      have h2 := digit_inj (by omega) hl hb2
      have hn : high * 16 + low = b.toNat := by omega
      rw [decode_pair hhigh hlow, ih hds, hn, UInt8.ofNat_toNat]
      rfl

/-- What is read is what the text spells. -/
theorem decode_eq_some_iff {cs : List Char} {bs : List UInt8} :
    decode cs = some bs ↔ Respells cs (encode bs) :=
  ⟨respells_of_decode, fun h => decode_of_respells h rfl⟩

/-- The canonical text spells its own bytes. -/
theorem respells_encode (bs : List UInt8) : Respells (encode bs) (encode bs) := by
  induction bs with
  | nil => exact .nil
  | cons b bs ih =>
    have hb := b.toNat_lt
    have hhigh : b.toNat / 16 < 16 := by omega
    have hlow : b.toNat % 16 < 16 := by omega
    have hpair := Respells.pair (c := digit (b.toNat / 16)) (d := digit (b.toNat % 16))
      (by rw [value?_digit hhigh]; rfl) (by rw [value?_digit hlow]; rfl) ih
    rwa [toLower_digit hhigh, toLower_digit hlow] at hpair

/-- Lower case, and no blanks. -/
def canonical (cs : List Char) : List Char := (cs.filter (!isGap ·)).map Char.toLower

theorem Respells.eq_canonical {cs ds : List Char} (h : Respells cs ds) : ds = canonical cs := by
  induction h with
  | nil => rfl
  | gap hgap _ ih => simp [canonical, hgap, ih]
  | pair hc hd _ ih =>
    obtain ⟨m, hm⟩ := Option.isSome_iff_exists.mp hc
    obtain ⟨n, hn⟩ := Option.isSome_iff_exists.mp hd
    simp [canonical, (value?_some hm).2.2.1, (value?_some hn).2.2.1, ih]

/-- No spelling has a colon. -/
theorem Respells.no_colon {cs ds : List Char} (h : Respells cs ds) : ':' ∉ cs := by
  induction h with
  | nil => exact List.not_mem_nil
  | gap hgap _ ih =>
    intro hm
    rcases List.mem_cons.mp hm with rfl | hm
    · exact absurd hgap (by decide)
    · exact ih hm
  | pair hc hd _ ih =>
    obtain ⟨m, hm⟩ := Option.isSome_iff_exists.mp hc
    obtain ⟨n, hn⟩ := Option.isSome_iff_exists.mp hd
    intro hmem
    rcases List.mem_cons.mp hmem with he | hmem
    · exact (value?_some hm).2.2.2 he.symm
    · rcases List.mem_cons.mp hmem with he | hmem
      · exact (value?_some hn).2.2.2 he.symm
      · exact ih hmem

/-- The canonical spelling is its own. -/
theorem Respells.canonical {cs ds : List Char} (h : Respells cs ds) : Respells ds ds := by
  induction h with
  | nil => exact .nil
  | gap _ _ ih => exact ih
  | pair hc hd _ ih =>
    obtain ⟨m, hm⟩ := Option.isSome_iff_exists.mp hc
    obtain ⟨n, hn⟩ := Option.isSome_iff_exists.mp hd
    obtain ⟨hm16, hcl, -⟩ := value?_some hm
    obtain ⟨hn16, hdl, -⟩ := value?_some hn
    rw [← hcl, ← hdl]
    have hpair := Respells.pair (c := digit m) (d := digit n) (by rw [value?_digit hm16]; rfl)
      (by rw [value?_digit hn16]; rfl) ih
    rwa [toLower_digit hm16, toLower_digit hn16] at hpair

end AuditReport.Text.Hex
