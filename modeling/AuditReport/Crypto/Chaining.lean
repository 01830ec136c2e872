import AuditReport.Crypto.Aes

/-! Encrypting byte sequences with a block cipher: each block is combined with the encrypted block
before it, and a padding that names its own length fills the last block. -/

namespace AuditReport.Crypto

/-- Fills up to whole blocks: at least one byte, each of them the number of bytes added. -/
def pad (bs : List UInt8) : List UInt8 :=
  let n := 16 - bs.length % 16
  bs ++ List.replicate n (UInt8.ofNat n)

/-- Removes a padding, all of whose bytes must be right. -/
def unpad? (bs : List UInt8) : Option (List UInt8) :=
  match bs.getLast? with
  | none => none
  | some last =>
    let n := last.toNat
    let kept := bs.take (bs.length - n)
    if 1 ≤ n ∧ n ≤ 16 ∧ n ≤ bs.length ∧ bs.drop (bs.length - n) = List.replicate n last then some kept
    else none

/-- The blocks of a byte sequence; `none` if some bytes are left over. -/
def toBlocks? (bs : List UInt8) : Option (List Block) :=
  if h : 16 ≤ bs.length then
    (toBlocks? (bs.drop 16)).map (⟨(bs.take 16).toArray, by simp only [List.size_toArray, List.length_take]; omega⟩ :: ·)
  else if bs.isEmpty then some []
  else none
termination_by bs.length
decreasing_by simp only [List.length_drop]; omega

/-- The bytes of some blocks. -/
def ofBlocks (blocks : List Block) : List UInt8 := blocks.flatMap (·.toList)

/-- Encrypts each block combined with the one before it; `previous` stands before the first. -/
def chain (cipher : BlockCipher) (previous : Block) : List Block → List Block
  | [] => []
  | b :: rest =>
    let c := cipher.encrypt (Aes.combine b previous)
    c :: chain cipher c rest

/-- Undoes `chain`. -/
def unchain (cipher : BlockCipher) (previous : Block) : List Block → List Block
  | [] => []
  | c :: rest => Aes.combine (cipher.decrypt c) previous :: unchain cipher c rest

end AuditReport.Crypto
