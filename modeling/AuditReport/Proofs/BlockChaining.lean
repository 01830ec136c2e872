import AuditReport.Crypto.Chaining
import AuditReport.Proofs.AesInverse

/-! Padding, blocks and chaining undo their counterparts. Unpadding checks every byte of the padding,
so it accepts nothing but padded bytes. -/

namespace AuditReport.Crypto

/-! ## Padding -/

theorem pad_length (bs : List UInt8) : (pad bs).length % 16 = 0 ∧ pad bs ≠ [] := by
  unfold pad
  dsimp only
  constructor
  · rw [List.length_append, List.length_replicate]
    omega
  · have hn : 16 - bs.length % 16 ≠ 0 := by omega
    simp [hn]

/-- What is padded can be unpadded. -/
theorem unpad?_pad (bs : List UInt8) : unpad? (pad bs) = some bs := by
  have hn : 1 ≤ 16 - bs.length % 16 ∧ 16 - bs.length % 16 ≤ 16 := by omega
  unfold pad
  dsimp only
  generalize 16 - bs.length % 16 = n at hn
  obtain ⟨h1, h16⟩ := hn
  have hlast : (bs ++ List.replicate n (UInt8.ofNat n)).getLast? = some (UInt8.ofNat n) := by
    rw [List.getLast?_append, List.getLast?_replicate, if_neg (by omega)]
    rfl
  have hto : (UInt8.ofNat n).toNat = n := by
    have hmod : (UInt8.ofNat n).toNat = n % 2 ^ 8 := UInt8.toNat_ofNat'
    omega
  have hlength : (bs ++ List.replicate n (UInt8.ofNat n)).length - n = bs.length := by simp
  unfold unpad?
  rw [hlast]
  simp only [hto, hlength]
  rw [List.take_left, List.drop_left, if_pos ⟨h1, h16, by simp, rfl⟩]

/-- Only what is padded can be unpadded: every byte of the padding is checked. -/
theorem eq_pad_of_unpad? {bs kept : List UInt8} (hlength : bs.length % 16 = 0)
    (h : unpad? bs = some kept) : bs = pad kept := by
  unfold unpad? at h
  split at h
  · cases h
  · rename_i last hlast
    dsimp only at h
    split at h
    · rename_i hn
      obtain ⟨h1, h16, hle, hdrop⟩ := hn
      cases h
      have hpadding : 16 - (bs.take (bs.length - last.toNat)).length % 16 = last.toNat := by
        rw [List.length_take]
        omega
      unfold pad
      dsimp only
      rw [hpadding, UInt8.ofNat_toNat, ← hdrop, List.take_append_drop]
    · cases h

theorem unpad?_eq_some_iff {bs kept : List UInt8} (hlength : bs.length % 16 = 0) :
    unpad? bs = some kept ↔ bs = pad kept :=
  ⟨eq_pad_of_unpad? hlength, fun h => h ▸ unpad?_pad kept⟩

/-! ## Blocks -/

theorem ofBlocks_cons (b : Block) (rest : List Block) :
    ofBlocks (b :: rest) = b.toList ++ ofBlocks rest := rfl

theorem length_ofBlocks (blocks : List Block) : (ofBlocks blocks).length = 16 * blocks.length := by
  induction blocks with
  | nil => rfl
  | cons b rest ih =>
    rw [ofBlocks_cons, List.length_append, ih, Vector.length_toList, List.length_cons]
    omega

theorem ofBlocks_inj {xs ys : List Block} (h : ofBlocks xs = ofBlocks ys) : xs = ys := by
  induction xs generalizing ys with
  | nil =>
    have hlength := congrArg List.length h
    rw [length_ofBlocks, length_ofBlocks] at hlength
    cases ys with
    | nil => rfl
    | cons => simp at hlength
  | cons x xs ih =>
    cases ys with
    | nil =>
      have hlength := congrArg List.length h
      simp [length_ofBlocks] at hlength
    | cons y ys =>
      obtain ⟨hxy, hrest⟩ := List.append_inj h (by simp)
      rw [Vector.toList_inj.mp hxy, ih hrest]

/-- Whole blocks are read from exactly their bytes. -/
theorem toBlocks?_some {bs : List UInt8} {blocks : List Block} (h : toBlocks? bs = some blocks) :
    ofBlocks blocks = bs := by
  fun_induction toBlocks? bs generalizing blocks with
  | case1 bs hlong ih =>
    obtain ⟨rest, hrest, rfl⟩ := Option.map_eq_some_iff.mp h
    rw [ofBlocks_cons, ih hrest]
    exact List.take_append_drop 16 bs
  | case2 bs _ hempty =>
    cases h
    exact (List.isEmpty_iff.mp hempty).symm
  | case3 => cases h

theorem toBlocks?_isSome {bs : List UInt8} (h : bs.length % 16 = 0) :
    ∃ blocks, toBlocks? bs = some blocks := by
  fun_induction toBlocks? bs with
  | case1 bs hlong ih =>
    obtain ⟨rest, hrest⟩ := ih (by rw [List.length_drop]; omega)
    exact ⟨_, by rw [hrest]; rfl⟩
  | case2 => exact ⟨[], rfl⟩
  | case3 bs hshort hempty =>
    have hnil : bs = [] := List.length_eq_zero_iff.mp (by omega)
    exact absurd (by simp [hnil]) hempty

theorem toBlocks?_ofBlocks (blocks : List Block) : toBlocks? (ofBlocks blocks) = some blocks := by
  have hwhole : (ofBlocks blocks).length % 16 = 0 := by
    rw [length_ofBlocks]
    omega
  obtain ⟨found, hfound⟩ := toBlocks?_isSome hwhole
  rw [hfound, ofBlocks_inj (toBlocks?_some hfound)]

/-! ## Chaining -/

section

variable {cipher : BlockCipher} {previous : Block}

theorem unchain_chain (h : ∀ b, cipher.decrypt (cipher.encrypt b) = b) (blocks : List Block) :
    unchain cipher previous (chain cipher previous blocks) = blocks := by
  induction blocks generalizing previous with
  | nil => rfl
  | cons b rest ih => rw [chain, unchain, h, Aes.combine_combine, ih]

theorem chain_unchain (h : ∀ b, cipher.encrypt (cipher.decrypt b) = b) (blocks : List Block) :
    chain cipher previous (unchain cipher previous blocks) = blocks := by
  induction blocks generalizing previous with
  | nil => rfl
  | cons b rest ih => rw [unchain, chain, Aes.combine_combine, h, ih]

end

end AuditReport.Crypto
