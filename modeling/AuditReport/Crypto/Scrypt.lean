import AuditReport.Crypto.Sha256

/-! The memory-hard key derivation scrypt with cost 16384, block size 8 and parallelism 1. -/

namespace AuditReport.Crypto.Scrypt

/-- The number of memory blocks. -/
def cost : Nat := 16384

/-- The words of a memory block. -/
def blockWords : Nat := 256

/-- Rotation to the left, for an amount between 1 and 31. -/
@[inline] def rotateLeft (x n : UInt32) : UInt32 := (x <<< n) ||| (x >>> (32 - n))

/-- A quarter round on four of sixteen words. -/
@[inline] def quarter (a b c d : Fin 16) (x : Vector UInt32 16) : Vector UInt32 16 :=
  let x := x.set b (x[b] ^^^ rotateLeft (x[a] + x[d]) 7)
  let x := x.set c (x[c] ^^^ rotateLeft (x[b] + x[a]) 9)
  let x := x.set d (x[d] ^^^ rotateLeft (x[c] + x[b]) 13)
  x.set a (x[a] ^^^ rotateLeft (x[d] + x[c]) 18)

/-- A round on the columns and one on the rows. -/
def doubleRound (x : Vector UInt32 16) : Vector UInt32 16 :=
  let x := quarter 0 4 8 12 x
  let x := quarter 5 9 13 1 x
  let x := quarter 10 14 2 6 x
  let x := quarter 15 3 7 11 x
  let x := quarter 0 1 2 3 x
  let x := quarter 5 6 7 4 x
  let x := quarter 10 11 8 9 x
  quarter 15 12 13 14 x

/-- The core of Salsa20 with eight rounds. -/
def salsa (x : Vector UInt32 16) : Vector UInt32 16 :=
  let y := doubleRound (doubleRound (doubleRound (doubleRound x)))
  Vector.ofFn fun i => x[i] + y[i]

/-- Takes the sixteen words from `start` on into a running value. -/
def absorb (x : Vector UInt32 16) (block : Array UInt32) (start : Nat) : Vector UInt32 16 :=
  salsa (Vector.ofFn fun i => x[i] ^^^ block.getD (start + i) 0)

/-- Mixes a memory block: sixteen chunks are absorbed in turn, and the results with even index come
before those with odd index. -/
def mixBlock (block : Array UInt32) : Array UInt32 :=
  let last : Vector UInt32 16 := Vector.ofFn fun i => block.getD (blockWords - 16 + i) 0
  let step (s : Vector UInt32 16 × Array UInt32 × Array UInt32) (i : Nat) :=
    let (x, even, odd) := s
    let x := absorb x block (16 * i)
    if i % 2 = 0 then (x, even ++ x.toArray, odd) else (x, even, odd ++ x.toArray)
  let (_, even, odd) := (List.range 16).foldl step (last, #[], #[])
  even ++ odd

/-- The block whose words are combined by exclusive or. -/
def combine (a b : Array UInt32) : Array UInt32 := Array.zipWith (· ^^^ ·) a b

/-- Fills the memory with successive mixes of a block, then mixes on with blocks picked from the
memory by the value so far. -/
def mixMemory (block : Array UInt32) : Array UInt32 :=
  let fill (s : Array (Array UInt32) × Array UInt32) (_ : Nat) :=
    (s.1.push s.2, mixBlock s.2)
  let (memory, x) := cost.fold (fun i _ s => fill s i) (Array.emptyWithCapacity cost, block)
  let pick (x : Array UInt32) : Array UInt32 :=
    memory.getD ((x.getD (blockWords - 16) 0).toNat % cost) #[]
  cost.fold (fun _ _ x => mixBlock (combine x (pick x))) x

/-- A word with its bytes in the opposite order. -/
def swapBytes (w : UInt32) : UInt32 := Sha256.wordOfBytes (Sha256.bytesOfWord w).reverse

/-- Thirty-two key bytes from a password and a salt. -/
def deriveKey (password salt : List UInt8) : List UInt8 :=
  let block := ((Sha256.words (Sha256.stretch password salt 32)).map swapBytes).toArray
  let mixed := (mixMemory block).toList.flatMap fun w => Sha256.bytesOfWord (swapBytes w)
  Sha256.stretch password mixed 1

end AuditReport.Crypto.Scrypt
