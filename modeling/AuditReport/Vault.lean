import AuditReport.Crypto.Chaining
import AuditReport.Crypto.Scrypt
import AuditReport.Text.Hex
import AuditReport.Value

/-! Stored credentials: an initial block and an encrypted text, both in hexadecimal, joined by a
colon. -/

namespace AuditReport

/-- Why a stored credential cannot be decrypted. -/
inductive DecryptionError where
  | noSeparator
  | notHex
  | badLength
  | undecryptable
  deriving DecidableEq, Repr

/-- The wording of a decryption error. -/
def DecryptionError.message : DecryptionError → String
  | noSeparator => "Value is not in iv:ciphertext form"
  | notHex => "Value is not valid hex"
  | badLength => "Value has an invalid iv or ciphertext length"
  | undecryptable => "Value could not be decrypted"

/-- Why no vault can be opened. -/
inductive VaultError where
  | noSecret
  deriving DecidableEq, Repr

/-- The wording of a vault error. -/
def VaultError.message : VaultError → String
  | noSecret => "An encryption secret is required"

namespace Vault

open Crypto

/-- The salt that all credential keys are derived with. -/
def salt : List UInt8 := "salt".toUTF8.toList

/-- The key that a secret stands for. -/
def deriveKey (secret : String) : List UInt8 := Scrypt.deriveKey secret.toUTF8.toList salt

/-- The cipher for a secret with the given derived key. An empty secret opens nothing. -/
def of (secret : String) (key : List UInt8) : Except VaultError BlockCipher :=
  if secret.isEmpty then .error .noSecret else .ok (BlockCipher.aes key)

/-- The stored form of a text under a cipher, with a given initial block. -/
def encrypt (cipher : BlockCipher) (initial : Block) (plaintext : String) : String :=
  let blocks := (toBlocks? (pad plaintext.toUTF8.toList)).getD []
  String.ofList (Text.Hex.encode initial.toList ++
    ':' :: Text.Hex.encode (ofBlocks (chain cipher initial blocks)))

/-- The initial block and the encrypted blocks of a stored credential. -/
def parse (stored : String) : Except DecryptionError (Block × List Block) :=
  let cs := stored.toList
  if ':' ∈ cs then
    match Text.Hex.decode (cs.takeWhile (· != ':')),
        Text.Hex.decode ((cs.dropWhile (· != ':')).drop 1) with
    | some initial, some encrypted =>
      match toBlocks? initial, toBlocks? encrypted with
      | some [initial], some (b :: rest) => .ok (initial, b :: rest)
      | _, _ => .error .badLength
    | _, _ => .error .notHex
  else .error .noSeparator

/-- The text that a stored credential stands for. -/
def decrypt (cipher : BlockCipher) (stored : String) : Except DecryptionError String := do
  let (initial, encrypted) ← parse stored
  match unpad? (ofBlocks (unchain cipher initial encrypted)) with
  | none => throw .undecryptable
  | some bytes =>
    match String.fromUTF8? ⟨bytes.toArray⟩ with
    | some s => return s
    | none => throw .undecryptable

/-- `decrypt` on any stored value; only texts can be credentials. -/
def decryptValue (cipher : BlockCipher) : Value → Except DecryptionError String
  | .text s => decrypt cipher s
  | _ => .error .noSeparator

end Vault

end AuditReport
