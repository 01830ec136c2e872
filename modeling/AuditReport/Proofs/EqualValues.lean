import AuditReport.Value.Order

/-! Equal values are alike empty. For numbers this goes down to the bits: a whole number equals a
double only if both are zero or neither is. -/

namespace AuditReport

namespace Number

open Float.Model

/-- Zero, of either sign. -/
def isZero : UnpackedFloat → Bool
  | .zero _ => true
  | _ => false

theorem isZero_of_compare {u v : UnpackedFloat} (h : u.compare v = some .eq) :
    isZero u = isZero v := by
  cases u with
  | infinity s => cases v <;> cases s <;> first | rfl | cases h
  | notANumber => cases v <;> cases h
  | zero s =>
    cases v with
    | infinity t => cases t <;> cases h
    | notANumber => cases h
    | zero t => rfl
    | finite t => cases t <;> cases h
  | finite s =>
    cases v with
    | infinity t => cases t <;> cases s <;> cases h
    | notANumber => cases h
    | zero t => cases s <;> cases h
    | finite t => rfl

theorem beq_zero_eq (x : Float) : (x == 0.0) = isZero x.toModel.unpack := by
  have hzero : (0.0 : Float).toModel.unpack = .zero .positive := rfl
  show (x.toModel.unpack.compare (0.0 : Float).toModel.unpack == some .eq) = _
  rw [hzero]
  cases x.toModel.unpack with
  | infinity sign => cases sign <;> rfl
  | notANumber => rfl
  | zero sign => rfl
  | finite sign mantissa exponent h => cases sign <;> rfl

theorem isZero_of_beq {x y : Float} (h : (x == y) = true) : (x == 0.0) = (y == 0.0) := by
  rw [beq_zero_eq, beq_zero_eq]
  exact isZero_of_compare (eq_of_beq h)

theorem toNat_unpackExponent (b : BitVec Format.binary64.numBits) :
    (UnpackedFloat.unpackExponent b).toNat = b.toNat / hiddenBit % 2048 := by
  simp [UnpackedFloat.unpackExponent, BitVec.extractLsb, Nat.shiftRight_eq_div_pow, hiddenBit]

theorem toNat_unpackMantissa (b : BitVec Format.binary64.numBits) :
    (UnpackedFloat.unpackMantissa b).toNat = b.toNat % hiddenBit := by
  simp [UnpackedFloat.unpackMantissa, BitVec.extractLsb, hiddenBit]

/-- The bits read as zero just if all of them but the sign are zero. -/
theorem isZero_unpack (b : BitVec Format.binary64.numBits) :
    isZero (UnpackedFloat.unpack .binary64 b) =
      (b.toNat / hiddenBit % 2048 == 0 && b.toNat % hiddenBit == 0) := by
  rw [← toNat_unpackExponent, ← toNat_unpackMantissa]
  unfold UnpackedFloat.unpack
  dsimp only
  by_cases hgreatest : UnpackedFloat.unpackExponent b = -.ofNat _ 1
  · rw [if_pos hgreatest, hgreatest]
    split <;> rfl
  rw [if_neg hgreatest]
  by_cases hexponent : UnpackedFloat.unpackExponent b = .ofNat _ 0
  · rw [if_pos hexponent, hexponent]
    by_cases hmantissa : UnpackedFloat.unpackMantissa b = .ofNat _ 0
    · rw [dif_pos hmantissa, hmantissa]
      rfl
    · have hne := mt BitVec.eq_of_toNat_eq hmantissa
      rw [dif_neg hmantissa]
      show false = _
      simpa using hne
  · have hne := mt BitVec.eq_of_toNat_eq hexponent
    simp only [BitVec.toNat_ofNat, Nat.zero_mod] at hne
    rw [if_neg hexponent]
    show false = _
    simp [hne]

theorem mantissa_eq_zero_iff {x : Float} {negative : Bool} {m : Nat} {e : Int}
    (h : Binary.ofFloat x = .finite negative m e) : m = 0 ↔ (x == 0.0) = true := by
  rw [beq_zero_eq]
  show _ ↔ isZero (UnpackedFloat.unpack .binary64 x.toBits.toBitVec) = true
  rw [isZero_unpack, Bool.and_eq_true, beq_iff_eq, beq_iff_eq]
  unfold Binary.ofFloat at h
  dsimp only at h
  split at h
  · split at h <;> cases h
  · split at h
    · rename_i hbiased
      cases h
      exact (and_iff_right hbiased).symm
    · rename_i hbiased
      cases h
      refine iff_of_false ?_ fun hzero => hbiased hzero.1
      unfold hiddenBit
      omega

theorem ratio_pos (m : Nat) (e : Int) : 0 < (ratio m e).2 := by
  unfold ratio
  split
  · exact Nat.one_pos
  · exact Nat.pow_pos Nat.two_pos

theorem ratio_eq_zero_iff (m : Nat) (e : Int) : (ratio m e).1 = 0 ↔ m = 0 := by
  unfold ratio
  split
  · have hpow : 0 < Nat.pow 2 e.toNat := Nat.pow_pos Nat.two_pos
    simp only [Nat.mul_eq_zero]
    omega
  · rfl

theorem isZero_of_compareIntFloat {n : Int} {x : Float} (h : compareIntFloat n x = some .eq) :
    (n == 0) = (x == 0.0) := by
  unfold compareIntFloat at h
  split at h
  · cases h
  · split at h <;> cases h
  · rename_i negative m e hx
    have hden := ratio_pos m e
    have hnum := ratio_eq_zero_iff m e
    rw [mantissa_eq_zero_iff hx] at hnum
    generalize ratio m e = r at h hden hnum
    obtain ⟨num, den⟩ := r
    have hequal := Std.LawfulEqCmp.eq_of_compare (Option.some.inj h)
    rw [Bool.eq_iff_iff, beq_iff_eq, ← hnum]
    have hproduct : n * den = 0 ↔ n = 0 := by
      rw [Int.mul_eq_zero]
      omega
    rw [← hproduct, hequal]
    cases negative <;> simp

namespace Quantity

/-- The number zero. -/
def isZero : Quantity → Bool
  | whole n => n == 0
  | double x => x == 0.0

theorem isZero_of_compare {a b : Quantity} (h : a.compare? b = some .eq) :
    a.isZero = b.isZero := by
  cases a with
  | whole m =>
    cases b with
    | whole n =>
      rw [Std.LawfulEqCmp.eq_of_compare (Option.some.inj h)]
    | double y => exact isZero_of_compareIntFloat h
  | double x =>
    cases b with
    | whole n =>
      obtain ⟨o, ho, hswap⟩ := Option.map_eq_some_iff.mp h
      cases o <;> cases hswap
      exact (isZero_of_compareIntFloat ho).symm
    | double y =>
      simp only [compare?] at h
      split at h
      · cases h
      · split at h
        · rename_i hbeq
          exact isZero_of_beq hbeq
        · split at h <;> cases h

end Quantity

end Number

namespace Value

theorem isEmpty_of_quantity {v : Value} {a : Number.Quantity} (h : v.quantity? = some a) :
    v.isEmpty = a.isZero := by
  cases v with
  | bool b => cases h; cases b <;> rfl
  | int n => cases h; rfl
  | float x => cases h; rfl
  | _ => cases h

theorem isEmpty_of_equal {v w : Value} (h : v.equal w = true) : v.isEmpty = w.isEmpty := by
  unfold equal at h
  split at h
  · rfl
  · rw [eq_of_beq h]
  · rfl
  · rfl
  · rfl
  · rw [eq_of_beq h]
  · rename_i xs ys
    cases xs <;> cases ys <;> first | rfl | cases h
  · rename_i fs gs
    have hlength := eq_of_beq (Bool.and_eq_true_iff.mp h).1
    cases fs <;> cases gs <;> first | rfl | cases hlength
  · split at h
    · rename_i a b ha hb
      rw [isEmpty_of_quantity ha, isEmpty_of_quantity hb]
      exact Number.Quantity.isZero_of_compare (eq_of_beq h)
    · cases h

end Value

end AuditReport
