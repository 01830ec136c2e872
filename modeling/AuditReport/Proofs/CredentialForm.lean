import AuditReport.Vault
import AuditReport.Proofs.BlockChaining
import AuditReport.Proofs.Fallible
import AuditReport.Proofs.HexSpelling

/-! Stored credentials. What decrypts to a text is exactly what spells an encryption of that text, in
hexadecimal of either case with blanks between the bytes, so nothing is forged and nothing is
lost. -/

namespace AuditReport.Vault

open Text Crypto

/-! ## Bytes of texts -/

theorem toList_loop (bytes : ByteArray) (i : Nat) (r : List UInt8) :
    ByteArray.toList.loop bytes i r = r.reverse ++ bytes.data.toList.drop i := by
  fun_induction ByteArray.toList.loop bytes i r with
  | case1 i r h ih =>
    have hi : i < bytes.data.toList.length := h
    rw [ih, List.reverse_cons, List.append_assoc, List.drop_eq_getElem_cons hi]
    have hget : bytes.get! i = bytes.data.toList[i] := by
      show bytes.data[i]! = _
      rw [getElem!_pos bytes.data i h]
      exact (Array.getElem_toList h).symm
    rw [hget]
    rfl
  | case2 i r h =>
    have hi : bytes.data.toList.length ≤ i := Nat.not_lt.mp h
    rw [List.drop_eq_nil_of_le hi, List.append_nil]

theorem toList_data (bytes : ByteArray) : bytes.toList = bytes.data.toList :=
  toList_loop bytes 0 []

/-- Bytes are read as the text that they are the bytes of. -/
theorem fromUTF8?_eq_some_iff {bytes : List UInt8} {s : String} :
    String.fromUTF8? ⟨bytes.toArray⟩ = some s ↔ bytes = s.toUTF8.toList := by
  rw [toList_data]
  unfold String.fromUTF8?
  constructor
  · intro h
    split at h
    · cases h
      rfl
    · cases h
  · rintro rfl
    have hvalid : (⟨s.toUTF8.data.toList.toArray⟩ : ByteArray) = s.toUTF8 := by simp
    rw [hvalid]
    exact dif_pos s.isValidUTF8

/-! ## The parts of a stored credential -/

theorem takeWhile_colon {a b : List Char} (ha : ':' ∉ a) :
    (a ++ ':' :: b).takeWhile (· != ':') = a ∧
      ((a ++ ':' :: b).dropWhile (· != ':')).drop 1 = b := by
  have hall : ∀ c ∈ a, (c != ':') = true := by
    intro c hc
    rw [bne_iff_ne]
    rintro rfl
    exact ha hc
  constructor
  · rw [List.takeWhile_append_of_pos hall]
    simp
  · rw [List.dropWhile_append_of_pos hall]
    simp

theorem split_colon {cs : List Char} (h : ':' ∈ cs) :
    cs = cs.takeWhile (· != ':') ++ ':' :: (cs.dropWhile (· != ':')).drop 1 := by
  obtain ⟨a, b, rfl, ha⟩ := List.eq_append_cons_of_mem h
  obtain ⟨hbefore, hbehind⟩ := takeWhile_colon (b := b) ha
  rw [hbefore, hbehind]

theorem append_colon_inj {a b a' b' : List Char} (ha : ':' ∉ a) (ha' : ':' ∉ a')
    (h : a ++ ':' :: b = a' ++ ':' :: b') : a = a' ∧ b = b' := by
  obtain ⟨hbefore, hbehind⟩ := takeWhile_colon (b := b) ha
  obtain ⟨hbefore', hbehind'⟩ := takeWhile_colon (b := b') ha'
  rw [h] at hbefore hbehind
  exact ⟨hbefore.symm.trans hbefore', hbehind.symm.trans hbehind'⟩

/-- Two stored forms of which the second spells in lower case and without blanks what the first
spells in any way. -/
def Respells (v w : String) : Prop :=
  ∃ a b a' b', v.toList = a ++ ':' :: b ∧ w.toList = a' ++ ':' :: b' ∧
    Hex.Respells a a' ∧ Hex.Respells b b'

/-- The canonical spelling of a stored form. -/
def canonical (v : String) : String := String.ofList (Hex.canonical v.toList)

theorem Respells.eq_canonical {v w : String} (h : Respells v w) : w = canonical v := by
  obtain ⟨a, b, a', b', hv, hw, ha, hb⟩ := h
  have hlist : w.toList = Hex.canonical v.toList := by
    rw [hv, hw, ha.eq_canonical, hb.eq_canonical]
    simp [Hex.canonical, Hex.isGap]
  rw [canonical, ← hlist, String.ofList_toList]

/-- A credential is read into its initial block and at least one encrypted block. -/
theorem parse_ok_iff {v : String} {initial : Block} {blocks : List Block} :
    parse v = .ok (initial, blocks) ↔ blocks ≠ [] ∧ ∃ a b, v.toList = a ++ ':' :: b ∧
      Hex.Respells a (Hex.encode initial.toList) ∧
      Hex.Respells b (Hex.encode (ofBlocks blocks)) := by
  constructor
  · intro h
    unfold parse at h
    dsimp only at h
    split at h
    · rename_i hcolon
      split at h
      · rename_i first second hfirst hsecond
        split at h
        · rename_i block b rest hblock hblocks
          cases h
          have hone : initial.toList = first := by simpa [ofBlocks] using toBlocks?_some hblock
          refine ⟨by simp, _, _, split_colon hcolon, ?_, ?_⟩
          · rw [hone]
            exact Hex.decode_eq_some_iff.mp hfirst
          · rw [toBlocks?_some hblocks]
            exact Hex.decode_eq_some_iff.mp hsecond
        · cases h
      · cases h
    · cases h
  · rintro ⟨hne, a, b, hv, ha, hb⟩
    obtain ⟨hbefore, hbehind⟩ := takeWhile_colon (b := b) ha.no_colon
    have hcolon : ':' ∈ a ++ ':' :: b := by simp
    have hinitial : toBlocks? initial.toList = some [initial] := by
      have hone := toBlocks?_ofBlocks [initial]
      rwa [ofBlocks_cons, ofBlocks, List.flatMap_nil, List.append_nil] at hone
    unfold parse
    dsimp only
    rw [hv, if_pos hcolon, hbefore, hbehind, Hex.decode_eq_some_iff.mpr ha,
      Hex.decode_eq_some_iff.mpr hb]
    dsimp only
    rw [hinitial, toBlocks?_ofBlocks]
    cases blocks with
    | nil => exact absurd rfl hne
    | cons => rfl

/-! ## The round trip -/

section

variable {cipher : BlockCipher}

/-- The blocks of a text with its padding. -/
theorem padded_blocks (p : String) :
    ∃ blocks, blocks ≠ [] ∧ ofBlocks blocks = pad p.toUTF8.toList ∧ ∀ cipher initial,
      (encrypt cipher initial p).toList =
        Hex.encode initial.toList ++ ':' :: Hex.encode (ofBlocks (chain cipher initial blocks)) := by
  obtain ⟨hlength, hne⟩ := pad_length p.toUTF8.toList
  obtain ⟨blocks, hblocks⟩ := toBlocks?_isSome hlength
  have hbytes := toBlocks?_some hblocks
  refine ⟨blocks, ?_, hbytes, fun cipher initial => ?_⟩
  · rintro rfl
    exact hne hbytes.symm
  · simp only [encrypt, hblocks, Option.getD_some, String.toList_ofList]

theorem decrypt_ok_iff {v p : String} :
    decrypt cipher v = .ok p ↔ ∃ initial blocks, parse v = .ok (initial, blocks) ∧
      ofBlocks (unchain cipher initial blocks) = pad p.toUTF8.toList := by
  have hwhole : ∀ blocks : List Block, (ofBlocks blocks).length % 16 = 0 := by
    intro blocks
    rw [length_ofBlocks]
    omega
  unfold decrypt
  rw [Fallible.bind_ok_iff]
  constructor
  · rintro ⟨⟨initial, blocks⟩, hparse, h⟩
    refine ⟨initial, blocks, hparse, ?_⟩
    dsimp only at h
    split at h
    · cases h
    · rename_i bytes hbytes
      split at h
      · rename_i s hs
        cases h
        rw [← fromUTF8?_eq_some_iff.mp hs]
        exact (unpad?_eq_some_iff (hwhole _)).mp hbytes
      · cases h
  · rintro ⟨initial, blocks, hparse, hpadded⟩
    have hbytes := (unpad?_eq_some_iff (hwhole _)).mpr hpadded
    have htext := fromUTF8?_eq_some_iff.mpr (Eq.refl p.toUTF8.toList)
    refine ⟨(initial, blocks), hparse, ?_⟩
    simp only [hbytes, htext]
    rfl

variable (hed : ∀ b, cipher.encrypt (cipher.decrypt b) = b)

include hed in
/-- What decrypts to a text spells an encryption of that text with the initial block it has itself. -/
theorem respells_of_decrypt {v p : String} (h : decrypt cipher v = .ok p) :
    ∃ initial blocks, parse v = .ok (initial, blocks) ∧ Respells v (encrypt cipher initial p) := by
  obtain ⟨blocks, -, hblocks, hencrypt⟩ := padded_blocks p
  obtain ⟨initial, encrypted, hparse, hplain⟩ := decrypt_ok_iff.mp h
  obtain ⟨-, a, b, hv, ha, hb⟩ := parse_ok_iff.mp hparse
  have hunchain : unchain cipher initial encrypted = blocks :=
    ofBlocks_inj (hplain.trans hblocks.symm)
  refine ⟨initial, encrypted, hparse, a, b, _, _, hv, hencrypt cipher initial, ha, ?_⟩
  rwa [← hunchain, chain_unchain hed]

variable (hde : ∀ b, cipher.decrypt (cipher.encrypt b) = b)

include hde in
theorem decrypt_of_respells {v p : String} {initial : Block}
    (h : Respells v (encrypt cipher initial p)) : decrypt cipher v = .ok p := by
  obtain ⟨blocks, hne, hblocks, hencrypt⟩ := padded_blocks p
  obtain ⟨a, b, a', b', hv, hw, ha, hb⟩ := h
  rw [hencrypt cipher initial] at hw
  -- No hexadecimal text has a colon, so both forms are split at the same place.
  obtain ⟨rfl, rfl⟩ := append_colon_inj (Hex.respells_encode _).no_colon ha.canonical.no_colon hw
  have hchained : chain cipher initial blocks ≠ [] := by
    cases blocks with
    | nil => exact absurd rfl hne
    | cons => exact List.cons_ne_nil _ _
  refine decrypt_ok_iff.mpr ⟨initial, _, parse_ok_iff.mpr ⟨hchained, a, b, hv, ha, hb⟩, ?_⟩
  rw [unchain_chain hde, hblocks]

theorem respells_encrypt (initial : Block) (p : String) :
    Respells (encrypt cipher initial p) (encrypt cipher initial p) := by
  obtain ⟨blocks, -, -, hencrypt⟩ := padded_blocks p
  exact ⟨_, _, _, _, hencrypt cipher initial, hencrypt cipher initial, Hex.respells_encode _,
    Hex.respells_encode _⟩

end

theorem decryptValue_ok_iff {cipher : BlockCipher} {stored : Value} {p : String} :
    decryptValue cipher stored = .ok p ↔ ∃ v, stored = .text v ∧ decrypt cipher v = .ok p := by
  cases stored <;> simp [decryptValue]

theorem of_ok {secret : String} (h : secret ≠ "") (key : List UInt8) :
    Vault.of secret key = .ok (BlockCipher.aes key) := by
  have hempty : ¬secret.isEmpty = true := by simpa [String.isEmpty_iff] using h
  rw [Vault.of, if_neg hempty]

/-- Under every secret, encrypted texts decrypt to themselves, encrypting what was decrypted gives
the canonical spelling of the stored form, and the stored forms that decrypt are exactly the
spellings of encryptions. All else fails with the one kind of error there is. -/
theorem credentials_round_trip {secret : String} (hsecret : secret ≠ "") :
    ∃ cipher, Vault.of secret (deriveKey secret) = .ok cipher ∧
      (∀ initial p, decrypt cipher (encrypt cipher initial p) = .ok p) ∧
      (∀ stored p, decryptValue cipher stored = .ok p → ∃ v initial blocks, stored = .text v ∧
        parse v = .ok (initial, blocks) ∧ encrypt cipher initial p = canonical v) ∧
      (∀ stored p, decryptValue cipher stored = .ok p ↔
        ∃ v initial, stored = .text v ∧ Respells v (encrypt cipher initial p)) ∧
      ∀ stored, (¬∃ v initial p, stored = .text v ∧ Respells v (encrypt cipher initial p)) →
        ∃ e : DecryptionError, decryptValue cipher stored = .error e := by
  generalize deriveKey secret = key
  have hde : ∀ b, (BlockCipher.aes key).decrypt ((BlockCipher.aes key).encrypt b) = b :=
    Aes.decryptWith_encryptWith (Aes.roundKeys key)
  have hed : ∀ b, (BlockCipher.aes key).encrypt ((BlockCipher.aes key).decrypt b) = b :=
    Aes.encryptWith_decryptWith (Aes.roundKeys key)
  have hiff : ∀ stored p, decryptValue (BlockCipher.aes key) stored = .ok p ↔
      ∃ v initial, stored = .text v ∧ Respells v (encrypt (BlockCipher.aes key) initial p) := by
    intro stored p
    rw [decryptValue_ok_iff]
    constructor
    · rintro ⟨v, hv, h⟩
      obtain ⟨initial, -, -, hrespells⟩ := respells_of_decrypt hed h
      exact ⟨v, initial, hv, hrespells⟩
    · rintro ⟨v, initial, hv, hrespells⟩
      exact ⟨v, hv, decrypt_of_respells hde hrespells⟩
  refine ⟨BlockCipher.aes key, of_ok hsecret key, ?_, ?_, hiff, ?_⟩
  · intro initial p
    exact decrypt_of_respells hde (respells_encrypt initial p)
  · intro stored p h
    obtain ⟨v, hv, hdecrypt⟩ := decryptValue_ok_iff.mp h
    obtain ⟨initial, blocks, hparse, hrespells⟩ := respells_of_decrypt hed hdecrypt
    exact ⟨v, initial, blocks, hv, hparse, hrespells.eq_canonical⟩
  · intro stored hnone
    cases h : decryptValue (BlockCipher.aes key) stored with
    | error e => exact ⟨e, rfl⟩
    | ok p =>
      obtain ⟨v, initial, hv, hrespells⟩ := (hiff stored p).mp h
      exact absurd ⟨v, initial, p, hv, hrespells⟩ hnone

/-- A text with letters beyond ASCII, and a number in the place of a stored text. -/
theorem credentials_round_trip_pepper :
    "pepper" ≠ "" ∧ ∃ cipher, Vault.of "pepper" (deriveKey "pepper") = .ok cipher ∧
      decrypt cipher (encrypt cipher (Vector.replicate 16 7) "pässwörd") = .ok "pässwörd" ∧
      ∃ e, decryptValue cipher (.int 5) = .error e := by
  have hsecret : "pepper" ≠ "" := by decide
  obtain ⟨cipher, hof, hround, -, -, hother⟩ := credentials_round_trip hsecret
  refine ⟨hsecret, cipher, hof, hround _ _, hother _ ?_⟩
  rintro ⟨v, initial, p, hv, -⟩
  cases hv

end AuditReport.Vault
