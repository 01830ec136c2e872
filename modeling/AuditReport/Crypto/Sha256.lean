import AuditReport.Chunks

/-! The hash function SHA-256, message authentication with it, and the key stretching PBKDF2 with a
single iteration. -/

namespace AuditReport.Crypto.Sha256

/-- The round constants. -/
def roundConstants : Vector UInt32 64 :=
  #v[0x428a2f98, 0x71374491, 0xb5c0fbcf, 0xe9b5dba5, 0x3956c25b, 0x59f111f1, 0x923f82a4, 0xab1c5ed5,
    0xd807aa98, 0x12835b01, 0x243185be, 0x550c7dc3, 0x72be5d74, 0x80deb1fe, 0x9bdc06a7, 0xc19bf174,
    0xe49b69c1, 0xefbe4786, 0x0fc19dc6, 0x240ca1cc, 0x2de92c6f, 0x4a7484aa, 0x5cb0a9dc, 0x76f988da,
    0x983e5152, 0xa831c66d, 0xb00327c8, 0xbf597fc7, 0xc6e00bf3, 0xd5a79147, 0x06ca6351, 0x14292967,
    0x27b70a85, 0x2e1b2138, 0x4d2c6dfc, 0x53380d13, 0x650a7354, 0x766a0abb, 0x81c2c92e, 0x92722c85,
    0xa2bfe8a1, 0xa81a664b, 0xc24b8b70, 0xc76c51a3, 0xd192e819, 0xd6990624, 0xf40e3585, 0x106aa070,
    0x19a4c116, 0x1e376c08, 0x2748774c, 0x34b0bcb5, 0x391c0cb3, 0x4ed8aa4a, 0x5b9cca4f, 0x682e6ff3,
    0x748f82ee, 0x78a5636f, 0x84c87814, 0x8cc70208, 0x90befffa, 0xa4506ceb, 0xbef9a3f7, 0xc67178f2]

/-- The chaining value of the empty message. -/
def initial : Vector UInt32 8 :=
  #v[0x6a09e667, 0xbb67ae85, 0x3c6ef372, 0xa54ff53a, 0x510e527f, 0x9b05688c, 0x1f83d9ab, 0x5be0cd19]

/-- Rotation to the right, for an amount between 1 and 31. -/
def rotateRight (x : UInt32) (n : UInt32) : UInt32 := (x >>> n) ||| (x <<< (32 - n))

/-- The word of four bytes, the first the most significant. -/
def wordOfBytes (bs : List UInt8) : UInt32 := bs.foldl (fun w b => (w <<< 8) ||| b.toUInt32) 0

/-- The four bytes of a word, the most significant first. -/
def bytesOfWord (w : UInt32) : List UInt8 :=
  [(w >>> 24).toUInt8, (w >>> 16).toUInt8, (w >>> 8).toUInt8, w.toUInt8]

/-- The words of a byte sequence. -/
def words (bs : List UInt8) : List UInt32 := (chunksOf 4 bs).map wordOfBytes

/-- The next word of the message schedule, from those so far. -/
def nextWord (w : Array UInt32) : UInt32 :=
  let back (n : Nat) : UInt32 := w.getD (w.size - n) 0
  let x := back 15
  let y := back 2
  let s0 := rotateRight x 7 ^^^ rotateRight x 18 ^^^ (x >>> 3)
  let s1 := rotateRight y 17 ^^^ rotateRight y 19 ^^^ (y >>> 10)
  back 16 + s0 + back 7 + s1

/-- The message schedule of a block: its sixteen words and forty-eight more. -/
def schedule (block : List UInt8) : Array UInt32 :=
  (List.range 48).foldl (fun w _ => w.push (nextWord w)) (words block).toArray

/-- One round on the eight working words. -/
def round (s : Vector UInt32 8) (k w : UInt32) : Vector UInt32 8 :=
  let e := s[4]
  let a := s[0]
  let s1 := rotateRight e 6 ^^^ rotateRight e 11 ^^^ rotateRight e 25
  let choice := (e &&& s[5]) ^^^ (~~~e &&& s[6])
  let t1 := s[7] + s1 + choice + k + w
  let s0 := rotateRight a 2 ^^^ rotateRight a 13 ^^^ rotateRight a 22
  let majority := (a &&& s[1]) ^^^ (a &&& s[2]) ^^^ (s[1] &&& s[2])
  #v[t1 + (s0 + majority), a, s[1], s[2], s[3] + t1, e, s[5], s[6]]

/-- Takes a block of sixty-four bytes into the chaining value. -/
def compress (h : Vector UInt32 8) (block : List UInt8) : Vector UInt32 8 :=
  let rounds := roundConstants.toList.zip (schedule block).toList
  (h.zip (rounds.foldl (fun s kw => round s kw.1 kw.2) h)).map fun (x, y) => x + y

/-- The message with its closing bit, zeros up to a whole number of blocks, and its length. -/
def pad (message : List UInt8) : List UInt8 :=
  let n := message.length
  let zeros := (119 - n % 64) % 64
  let bits := UInt64.ofNat (8 * n)
  message ++ 0x80 :: List.replicate zeros 0 ++
    (List.range 8).map fun i => (bits >>> UInt64.ofNat (56 - 8 * i)).toUInt8

/-- The thirty-two bytes of the hash. -/
def hash (message : List UInt8) : List UInt8 :=
  (((chunksOf 64 (pad message)).foldl compress initial).toList).flatMap bytesOfWord

/-- The authentication code of a message under a key. -/
def authenticate (key message : List UInt8) : List UInt8 :=
  let key := if 64 < key.length then hash key else key
  let key := key ++ List.replicate (64 - key.length) 0
  hash (key.map (· ^^^ 0x5c) ++ hash (key.map (· ^^^ 0x36) ++ message))

/-- `count` blocks of thirty-two key bytes stretched from a password and a salt. -/
def stretch (password salt : List UInt8) (count : Nat) : List UInt8 :=
  (List.range count).flatMap fun i =>
    authenticate password (salt ++ bytesOfWord (UInt32.ofNat (i + 1)))

end AuditReport.Crypto.Sha256
