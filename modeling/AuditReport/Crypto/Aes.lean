import AuditReport.Chunks

/-! The block cipher AES with keys of 256 bits. -/

namespace AuditReport.Crypto

/-- A block of sixteen bytes. -/
abbrev Block := Vector UInt8 16

namespace Aes

/-- Multiplication by `x` in the field of bytes. -/
def double (a : UInt8) : UInt8 := (a <<< 1) ^^^ (if a &&& 0x80 = 0 then 0 else 0x1b)

/-- The product in the field of bytes. -/
def multiply (a b : UInt8) : UInt8 :=
  ((List.range 8).foldl (fun (s : UInt8 × UInt8) i =>
    (double s.1, if (b >>> UInt8.ofNat i) &&& 1 = 0 then s.2 else s.2 ^^^ s.1)) (a, 0)).2

/-- The 254th power, which is the inverse of every byte but zero. -/
def inverse (a : UInt8) : UInt8 :=
  let square (x : UInt8) := multiply x x
  let a2 := square a
  let a4 := square a2
  let a8 := square a4
  let a16 := square a8
  let a32 := square a16
  let a64 := square a32
  let a128 := square a64
  [a4, a8, a16, a32, a64, a128].foldl multiply a2

/-- Rotation of a byte to the left. -/
def rotate (a : UInt8) (n : Nat) : UInt8 := (a <<< UInt8.ofNat n) ||| (a >>> UInt8.ofNat (8 - n))

/-- The substitution of bytes: inverse, then an affine map of the bits. -/
def substituted (a : UInt8) : UInt8 :=
  let i := inverse a
  i ^^^ rotate i 1 ^^^ rotate i 2 ^^^ rotate i 3 ^^^ rotate i 4 ^^^ 0x63

/-- The substitution as a table. -/
def table : Vector UInt8 256 := Vector.ofFn fun i => substituted (UInt8.ofNat i)

/-- The substitution of a byte. -/
def substitute (a : UInt8) : UInt8 := table.toArray.getD a.toNat 0

/-- The substitution's inverse as a table. -/
def inverseTable : Vector UInt8 256 :=
  Vector.ofFn fun i => UInt8.ofNat ((table.toList.findIdx? (·.toNat == i.val)).getD 0)

/-- The byte that substitutes to a byte. -/
def unsubstitute (a : UInt8) : UInt8 := inverseTable.toArray.getD a.toNat 0

/-- The next four bytes of the key schedule, from all before them. -/
def nextKeyWord (words : Array (List UInt8)) : List UInt8 :=
  let i := words.size
  let last := words.getD (i - 1) []
  let changed :=
    if i % 8 = 0 then
      let rotated := (last.drop 1 ++ last.take 1).map substitute
      let constant := Nat.repeat double (i / 8 - 1) 1
      match rotated with
      | b :: rest => (b ^^^ constant) :: rest
      | [] => []
    else if i % 8 = 4 then last.map substitute
    else last
  List.zipWith (· ^^^ ·) (words.getD (i - 8) []) changed

/-- The fifteen round keys of a key of thirty-two bytes. -/
def roundKeys (key : List UInt8) : List Block :=
  let words := (List.range 52).foldl (fun w _ => w.push (nextKeyWord w)) (chunksOf 4 key).toArray
  let bytes := words.toList.flatten.toArray
  (List.range 15).map fun r => Vector.ofFn fun i => bytes.getD (16 * r + i) 0

/-- Combines two blocks by exclusive or. -/
def combine (a b : Block) : Block := Vector.zipWith (· ^^^ ·) a b

/-- Row `r` of the block, written in columns of four bytes, moves `r` places to the left. -/
def shiftRows (b : Block) : Block := Vector.ofFn fun i => b[(i.val + 4 * (i.val % 4)) % 16]

/-- Undoes `shiftRows`. -/
def unshiftRows (b : Block) : Block := Vector.ofFn fun i => b[(i.val + 12 * (i.val % 4)) % 16]

/-- Multiplies each column by the circulant matrix with the given first row. -/
def mixWith (w x y z : UInt8) (b : Block) : Block :=
  Vector.ofFn fun i =>
    let entry (k : Nat) : UInt8 := b.get ⟨4 * (i.val / 4) % 16 + (i.val + k) % 4, by omega⟩
    multiply w (entry 0) ^^^ multiply x (entry 1) ^^^ multiply y (entry 2) ^^^ multiply z (entry 3)

/-- Mixes the columns. -/
def mixColumns : Block → Block := mixWith 2 3 1 1

/-- Undoes `mixColumns`. -/
def unmixColumns : Block → Block := mixWith 14 11 13 9

/-- Encrypts a block under round keys. -/
def encryptWith : List Block → Block → Block
  | [], b => b
  | first :: rest, b =>
    let rec rounds : List Block → Block → Block
      | [], b => b
      | [last], b => combine (shiftRows (b.map substitute)) last
      | k :: l :: rest, b => rounds (l :: rest) (combine (mixColumns (shiftRows (b.map substitute))) k)
    rounds rest (combine b first)

/-- Undoes the rounds with the given keys, of which the first is the one after the initial key. -/
def undoRounds : List Block → Block → Block
  | [], b => b
  | [last], b => (unshiftRows (combine b last)).map unsubstitute
  | k :: l :: rest, b =>
    (unshiftRows (unmixColumns (combine (undoRounds (l :: rest) b) k))).map unsubstitute

/-- Decrypts a block under round keys. -/
def decryptWith : List Block → Block → Block
  | [], b => b
  | first :: rest, b => combine (undoRounds rest b) first

end Aes

/-- A permutation of blocks and its inverse. -/
structure BlockCipher where
  encrypt : Block → Block
  decrypt : Block → Block

/-- The cipher under a key of thirty-two bytes. -/
def BlockCipher.aes (key : List UInt8) : BlockCipher :=
  let keys := Aes.roundKeys key
  ⟨Aes.encryptWith keys, Aes.decryptWith keys⟩

end AuditReport.Crypto
