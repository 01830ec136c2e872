import AuditReport.Crypto.Aes
import Mathlib.Data.Finite.Prod
import Mathlib.Data.Fintype.EquivFin
import Mathlib.Data.List.Nodup

/-! The inverse of the block cipher. Each operation of a round is undone by its counterpart, so under
any round keys decryption undoes encryption; as there are finitely many blocks, encryption also
undoes decryption. -/

namespace AuditReport.Crypto.Aes

/-! ## Bytes and their bits -/

theorem forall_byte {P : UInt8 → Prop} (h : ∀ n : Fin 256, P (UInt8.ofNat n)) (a : UInt8) : P a := by
  have hfin := h a.toFin
  simpa using hfin

/-- The bit of a byte at a place, as a byte. -/
def bit (b : UInt8) (i : Nat) : UInt8 := (b >>> UInt8.ofNat i) &&& 1

theorem bit_xor (x y : UInt8) (i : Nat) : bit (x ^^^ y) i = bit x i ^^^ bit y i := by
  unfold bit
  rw [UInt8.shiftRight_xor]
  apply UInt8.eq_of_toBitVec_eq
  simp only [UInt8.toBitVec_and, UInt8.toBitVec_xor]
  ext k hk
  simp [Bool.and_xor_distrib_right]

theorem bit_eq (b : UInt8) (i : Nat) : bit b i = 0 ∨ bit b i = 1 := by
  unfold bit
  generalize b >>> UInt8.ofNat i = c
  revert c
  exact forall_byte (by decide +kernel)

/-- The sum of the bits of a byte. -/
def bitSum (b : UInt8) (places : List Nat) (s : UInt8) : UInt8 :=
  places.foldl (fun s i => if bit b i = 0 then s else s ^^^ (1 <<< UInt8.ofNat i)) s

theorem bitSum_eq (b : UInt8) : bitSum b (List.range 8) 0 = b := by
  revert b
  exact forall_byte (by decide +kernel)

/-! ## Multiplication -/

/-- One place after the other, the doubles of a byte are added up where another byte has a bit. -/
def accumulate (b : UInt8) (places : List Nat) (s : UInt8 × UInt8) : UInt8 × UInt8 :=
  places.foldl (fun s i => (double s.1, if bit b i = 0 then s.2 else s.2 ^^^ s.1)) s

theorem multiply_eq (a b : UInt8) : multiply a b = (accumulate b (List.range 8) (a, 0)).2 := rfl

theorem accumulate_xor (x y : UInt8) (places : List Nat) (a s t : UInt8) :
    (accumulate (x ^^^ y) places (a, s ^^^ t)).2 =
      (accumulate x places (a, s)).2 ^^^ (accumulate y places (a, t)).2 := by
  induction places generalizing a s t with
  | nil => rfl
  | cons i rest ih =>
    simp only [accumulate, List.foldl_cons] at ih ⊢
    rw [← ih]
    congr 3
    rw [bit_xor]
    rcases bit_eq x i with hx | hx <;> rcases bit_eq y i with hy | hy
    · simp [hx, hy]
    · simp [hx, hy, UInt8.xor_assoc]
    · rw [hx, hy]
      show (s ^^^ t) ^^^ a = (s ^^^ a) ^^^ t
      ac_rfl
    · rw [hx, hy]
      show s ^^^ t = (s ^^^ a) ^^^ (t ^^^ a)
      calc
        s ^^^ t = s ^^^ t ^^^ (a ^^^ a) := by rw [UInt8.xor_self, UInt8.xor_zero]
        _ = (s ^^^ a) ^^^ (t ^^^ a) := by ac_rfl

/-- Multiplication distributes over addition. -/
theorem multiply_xor (a x y : UInt8) : multiply a (x ^^^ y) = multiply a x ^^^ multiply a y := by
  rw [multiply_eq, multiply_eq, multiply_eq, ← accumulate_xor]
  rfl

/-- A map of bytes that preserves sums. -/
def PreservesSums (f : UInt8 → UInt8) : Prop := ∀ x y, f (x ^^^ y) = f x ^^^ f y

theorem PreservesSums.zero {f : UInt8 → UInt8} (h : PreservesSums f) : f 0 = 0 := by
  have hzero := h 0 0
  rwa [UInt8.xor_self, UInt8.xor_self] at hzero

/-- Maps that preserve sums are equal if they agree on single bits. -/
theorem PreservesSums.eq_of_bits {f g : UInt8 → UInt8} (hf : PreservesSums f) (hg : PreservesSums g)
    (h : ∀ i ∈ List.range 8, f (1 <<< UInt8.ofNat i) = g (1 <<< UInt8.ofNat i)) (x : UInt8) :
    f x = g x := by
  have hsum : ∀ places ⊆ List.range 8, ∀ s, f s = g s →
      f (bitSum x places s) = g (bitSum x places s) := by
    intro places
    induction places with
    | nil => exact fun _ s hs => hs
    | cons i rest ih =>
      intro hplaces s hs
      obtain ⟨hi, hrest⟩ := List.cons_subset.mp hplaces
      refine ih hrest _ ?_
      dsimp only
      split
      · exact hs
      · rw [hf, hg, hs, h i hi]
  have hx := hsum _ (List.Subset.refl _) 0 (hf.zero.trans hg.zero.symm)
  rwa [bitSum_eq] at hx

/-! ## Columns -/

/-- The sum of four products of products. -/
theorem additive_products (a b c d w x y z : UInt8) : PreservesSums fun e =>
    multiply a (multiply w e) ^^^ multiply b (multiply x e) ^^^ multiply c (multiply y e) ^^^
      multiply d (multiply z e) := by
  intro p q
  simp only [multiply_xor]
  ac_rfl

theorem products_own (e : UInt8) :
    multiply 14 (multiply 2 e) ^^^ multiply 11 (multiply 1 e) ^^^ multiply 13 (multiply 1 e) ^^^
      multiply 9 (multiply 3 e) = e :=
  PreservesSums.eq_of_bits (additive_products 14 11 13 9 2 1 1 3) (g := id) (fun _ _ => rfl)
    (by decide +kernel) e

theorem products_other (e : UInt8) :
    multiply 14 (multiply 3 e) ^^^ multiply 11 (multiply 2 e) ^^^ multiply 13 (multiply 1 e) ^^^
      multiply 9 (multiply 1 e) = 0 ∧
    multiply 14 (multiply 1 e) ^^^ multiply 11 (multiply 3 e) ^^^ multiply 13 (multiply 2 e) ^^^
      multiply 9 (multiply 1 e) = 0 ∧
    multiply 14 (multiply 1 e) ^^^ multiply 11 (multiply 1 e) ^^^ multiply 13 (multiply 3 e) ^^^
      multiply 9 (multiply 2 e) = 0 := by
  have hzero : PreservesSums fun _ => 0 := fun _ _ => UInt8.xor_self.symm
  exact ⟨PreservesSums.eq_of_bits (additive_products 14 11 13 9 3 2 1 1) hzero (by decide +kernel) e,
    PreservesSums.eq_of_bits (additive_products 14 11 13 9 1 3 2 1) hzero (by decide +kernel) e,
    PreservesSums.eq_of_bits (additive_products 14 11 13 9 1 1 3 2) hzero (by decide +kernel) e⟩

/-- The two matrices of the columns are inverse. -/
theorem unmix_mix (p q r s : UInt8) :
    multiply 14 (multiply 2 p ^^^ multiply 3 q ^^^ multiply 1 r ^^^ multiply 1 s) ^^^
      multiply 11 (multiply 2 q ^^^ multiply 3 r ^^^ multiply 1 s ^^^ multiply 1 p) ^^^
      multiply 13 (multiply 2 r ^^^ multiply 3 s ^^^ multiply 1 p ^^^ multiply 1 q) ^^^
      multiply 9 (multiply 2 s ^^^ multiply 3 p ^^^ multiply 1 q ^^^ multiply 1 r) = p := by
  obtain ⟨hq, -, -⟩ := products_other q
  obtain ⟨-, hr, -⟩ := products_other r
  obtain ⟨-, -, hs⟩ := products_other s
  simp only [multiply_xor]
  calc
    _ = (multiply 14 (multiply 2 p) ^^^ multiply 11 (multiply 1 p) ^^^ multiply 13 (multiply 1 p) ^^^
            multiply 9 (multiply 3 p)) ^^^
          (multiply 14 (multiply 3 q) ^^^ multiply 11 (multiply 2 q) ^^^ multiply 13 (multiply 1 q) ^^^
            multiply 9 (multiply 1 q)) ^^^
          (multiply 14 (multiply 1 r) ^^^ multiply 11 (multiply 3 r) ^^^ multiply 13 (multiply 2 r) ^^^
            multiply 9 (multiply 1 r)) ^^^
          (multiply 14 (multiply 1 s) ^^^ multiply 11 (multiply 1 s) ^^^ multiply 13 (multiply 3 s) ^^^
            multiply 9 (multiply 2 s)) := by ac_rfl
    _ = p := by rw [products_own, hq, hr, hs, UInt8.xor_zero, UInt8.xor_zero, UInt8.xor_zero]

/-- The byte `k` places below place `i` of a block, in the same column. -/
def below (b : Block) (i : Nat) (k : Nat) : UInt8 :=
  b.get ⟨4 * (i / 4) % 16 + (i + k) % 4, by omega⟩

theorem getElem_mixWith (w x y z : UInt8) (b : Block) (i : Nat) (hi : i < 16) :
    (mixWith w x y z b)[i] = multiply w (below b i 0) ^^^ multiply x (below b i 1) ^^^
      multiply y (below b i 2) ^^^ multiply z (below b i 3) := by
  simp [mixWith, below]

theorem below_zero (b : Block) (i : Nat) (hi : i < 16) : below b i 0 = b[i] := by
  have hplace : 4 * (i / 4) % 16 + (i + 0) % 4 = i := by omega
  exact congrArg b.get (Fin.ext hplace)

theorem below_add_four (b : Block) (i k : Nat) : below b i (k + 4) = below b i k := by
  have hplace : 4 * (i / 4) % 16 + (i + (k + 4)) % 4 = 4 * (i / 4) % 16 + (i + k) % 4 := by omega
  exact congrArg b.get (Fin.ext hplace)

theorem below_mixWith (w x y z : UInt8) (b : Block) (i k : Nat) :
    below (mixWith w x y z b) i k = multiply w (below b i k) ^^^ multiply x (below b i (k + 1)) ^^^
      multiply y (below b i (k + 2)) ^^^ multiply z (below b i (k + 3)) := by
  have hbelow : ∀ l, below b (4 * (i / 4) % 16 + (i + k) % 4) l = below b i (k + l) := by
    intro l
    refine congrArg b.get (Fin.ext ?_)
    show 4 * ((4 * (i / 4) % 16 + (i + k) % 4) / 4) % 16 +
      (4 * (i / 4) % 16 + (i + k) % 4 + l) % 4 = 4 * (i / 4) % 16 + (i + (k + l)) % 4
    omega
  have hmix := getElem_mixWith w x y z b (4 * (i / 4) % 16 + (i + k) % 4) (by omega)
  simp only [hbelow, Nat.add_zero] at hmix
  rw [← hmix]
  rfl

theorem unmixColumns_mixColumns (b : Block) : unmixColumns (mixColumns b) = b := by
  apply Vector.ext
  intro i hi
  rw [unmixColumns, getElem_mixWith 14 11 13 9 _ i hi]
  simp only [mixColumns, below_mixWith]
  have h4 : below b i 4 = below b i 0 := below_add_four b i 0
  have h5 : below b i 5 = below b i 1 := below_add_four b i 1
  have h6 : below b i 6 = below b i 2 := below_add_four b i 2
  simp only [Nat.reduceAdd, h4, h5, h6]
  rw [unmix_mix, below_zero b i hi]

/-! ## Substitution -/

/-- Different bytes are substituted by different bytes. -/
theorem nodup_substituted :
    ((List.range 256).map fun n => (substituted (UInt8.ofNat n)).toNat).Nodup := by
  decide +kernel

theorem substituted_injective {a b : UInt8} (h : substituted a = substituted b) : a = b := by
  have ha : a.toNat ∈ List.range 256 := List.mem_range.mpr a.toNat_lt
  have hb : b.toNat ∈ List.range 256 := List.mem_range.mpr b.toNat_lt
  have hnat : a.toNat = b.toNat := by
    refine List.inj_on_of_nodup_map nodup_substituted ha hb ?_
    simp only [UInt8.ofNat_toNat, h]
  exact UInt8.toNat_inj.mp hnat

theorem substitute_eq (a : UInt8) : substitute a = substituted a := by
  have ha : a.toNat < 256 := a.toNat_lt
  simp [substitute, table, ha]

theorem findIdx?_table (a : UInt8) :
    table.toList.findIdx? (·.toNat == (substituted a).toNat) = some a.toNat := by
  have hget : ∀ i, (h : i < table.toList.length) → table.toList[i] = substituted (UInt8.ofNat i) := by
    intro i h
    simp [table, UInt8.ofNatLT_eq_ofNat]
  refine List.findIdx?_eq_some_iff_getElem.mpr ⟨by simpa using a.toNat_lt, ?_, ?_⟩
  · simp [hget]
  · intro j hj he
    rw [hget, beq_iff_eq, UInt8.toNat_inj] at he
    have hja := congrArg UInt8.toNat (substituted_injective he)
    have ha := a.toNat_lt
    have hj256 : (UInt8.ofNat j).toNat = j % 2 ^ 8 := UInt8.toNat_ofNat'
    omega

theorem unsubstitute_substitute (a : UInt8) : unsubstitute (substitute a) = a := by
  rw [substitute_eq]
  have hb : (substituted a).toNat < 256 := UInt8.toNat_lt _
  simp [unsubstitute, inverseTable, hb, findIdx?_table a]

/-! ## Rounds -/

@[simp] theorem combine_combine (a b : Block) : combine (combine a b) b = a := by
  apply Vector.ext
  intro i hi
  simp only [combine, Vector.getElem_zipWith, UInt8.xor_assoc, UInt8.xor_self, UInt8.xor_zero]

theorem unshiftRows_shiftRows (b : Block) : unshiftRows (shiftRows b) = b := by
  apply Vector.ext
  intro i hi
  have hplace : (i + 12 * (i % 4) + 4 * ((i + 12 * (i % 4)) % 4)) % 16 = i := by omega
  simp [unshiftRows, shiftRows, hplace]

theorem map_unsubstitute (b : Block) : (b.map substitute).map unsubstitute = b := by
  apply Vector.ext
  intro i hi
  rw [Vector.getElem_map, Vector.getElem_map, unsubstitute_substitute]

theorem undoRounds_rounds (keys : List Block) (b : Block) :
    undoRounds keys (encryptWith.rounds keys b) = b := by
  induction keys generalizing b with
  | nil => rfl
  | cons k rest ih =>
    cases rest with
    | nil =>
      rw [encryptWith.rounds, undoRounds, combine_combine, unshiftRows_shiftRows, map_unsubstitute]
    | cons l rest =>
      rw [encryptWith.rounds, undoRounds, ih, combine_combine, unmixColumns_mixColumns,
        unshiftRows_shiftRows, map_unsubstitute]

theorem decryptWith_encryptWith (keys : List Block) (b : Block) :
    decryptWith keys (encryptWith keys b) = b := by
  cases keys with
  | nil => rfl
  | cons first rest => rw [encryptWith, decryptWith, undoRounds_rounds, combine_combine]

theorem finite_block : Finite Block := by
  have hbyte : Finite UInt8 := Finite.of_injective UInt8.toFin fun _ _ h => UInt8.toFin_inj.mp h
  refine Finite.of_injective (fun (b : Block) (i : Fin 16) => b[i]) fun a b h => ?_
  exact Vector.ext fun i hi => congrFun h ⟨i, hi⟩

/-- A map of blocks that has a left inverse is onto, so the left inverse is a right one too. -/
theorem encryptWith_decryptWith (keys : List Block) (b : Block) :
    encryptWith keys (decryptWith keys b) = b := by
  have hleft : Function.LeftInverse (decryptWith keys) (encryptWith keys) :=
    decryptWith_encryptWith keys
  have hfinite := finite_block
  have hsurjective := Finite.surjective_of_injective hleft.injective
  exact hleft.rightInverse_of_surjective hsurjective b

end AuditReport.Crypto.Aes
