import AuditReport.Proofs.WorkSharing

/-! Chunks and the workers for them. A list is cut into pieces of one size, the last one perhaps
shorter. The even share is the least size with which each worker has at most one piece, so that a
pool is never without workers and no task waits for one. -/

namespace AuditReport

section Chunks

variable {α : Type} {size : Nat}

theorem chunksOf_cons (x : α) (xs : List α) :
    chunksOf size (x :: xs) = (x :: xs.take (size - 1)) :: chunksOf size (xs.drop (size - 1)) := by
  rw [chunksOf]

theorem chunksOf_nil : chunksOf size ([] : List α) = [] := by
  rw [chunksOf]

theorem chunksOf_eq_nil {xs : List α} : chunksOf size xs = [] ↔ xs = [] := by
  cases xs with
  | nil => simp [chunksOf_nil]
  | cons x xs => simp [chunksOf_cons]

theorem length_of_mem_chunksOf (h : 1 ≤ size) {xs c : List α} (hc : c ∈ chunksOf size xs) :
    1 ≤ c.length ∧ c.length ≤ size := by
  fun_induction chunksOf size xs with
  | case1 => cases hc
  | case2 x xs ih =>
    rcases List.mem_cons.mp hc with rfl | hc
    · simp only [List.length_cons, List.length_take]
      omega
    · exact ih hc

/-- A piece with another one behind it is full. -/
theorem length_of_mem_dropLast_chunksOf (h : 1 ≤ size) {xs c : List α}
    (hc : c ∈ (chunksOf size xs).dropLast) : c.length = size := by
  fun_induction chunksOf size xs with
  | case1 => cases hc
  | case2 x xs ih =>
    by_cases hlast : xs.drop (size - 1) = []
    · rw [hlast, chunksOf_nil] at hc
      cases hc
    · rw [List.dropLast_cons_of_ne_nil (mt chunksOf_eq_nil.mp hlast)] at hc
      rcases List.mem_cons.mp hc with rfl | hc
      · have hlong : size - 1 < xs.length := by simpa using hlast
        simp only [List.length_cons, List.length_take]
        omega
      · exact ih hc

/-- Some number of pieces is enough if there is room in them for all elements. -/
theorem length_chunksOf_le_iff (h : 1 ≤ size) {xs : List α} {k : Nat} :
    (chunksOf size xs).length ≤ k ↔ xs.length ≤ k * size := by
  fun_induction chunksOf size xs generalizing k with
  | case1 => simp
  | case2 x xs ih =>
    cases k with
    | zero => simp
    | succ k =>
      rw [List.length_cons, Nat.add_le_add_iff_right, ih, List.length_drop, List.length_cons,
        Nat.succ_mul]
      omega

end Chunks

namespace Workers

/-- The workers of the pool for some chunks: as many as may run, but no more than chunks. -/
def poolSize {K : Type} (w : Workers) (chunks : List (List K)) : Nat := min w.count chunks.length

/-- The even share is the least size, and at least one, with which the workers have room for all
items. -/
theorem evenShare_le_iff {n workers size : Nat} (h : 1 ≤ workers) :
    evenShare n workers ≤ size ↔ 1 ≤ size ∧ n ≤ size * workers := by
  have hceil : (n + workers - 1) / workers ≤ size ↔ n ≤ size * workers := by
    rw [Nat.div_le_iff_le_mul h]
    omega
  rw [evenShare, Nat.max_le, hceil]

/-- Without a configured size, items that are not worked off in place are shared evenly. -/
theorem split_unset {K E : Type} {w : Workers} {items : List K} (h : ∀ n ∈ w.chunkSize, n = 0)
    (hitems : items ≠ []) :
    w.split (E := E) items = .ok (if items.length ≤ inlineLimit ∨ w.count = 1 then [items]
      else chunksOf (evenShare items.length w.count) items) := by
  have hshare : 0 < (evenShare items.length w.count : Int) := by
    unfold evenShare
    omega
  have hchunks : chunks? _ items = _ := chunks?_eq hshare
  rw [Int.toNat_natCast] at hchunks
  have hmade : chunksOf (evenShare items.length w.count) items ≠ [] := mt chunksOf_eq_nil.mp hitems
  obtain ⟨c, rest, hcons⟩ := List.exists_cons_of_ne_nil hmade
  rw [hcons] at hchunks ⊢
  unfold split
  split
  · rfl
  · cases hc : w.chunkSize with
    | none => simp only [hchunks]
    | some n =>
      cases h n hc
      simp only [hchunks]

/-- **Chunks fit the workers.** The chunks of a positive size hold the items in order; each has one
item at least, and all but the last have exactly that size. If no size is configured, or zero, the
size for some items is the least positive one that makes no more chunks than workers. In a pool for
these chunks there is a worker, and one for each chunk. -/
theorem chunks_fit_workers {K E : Type} (items : List K) :
    (∀ size : Int, 1 ≤ size → ∃ chunks, chunks? size items = some chunks ∧
      chunks.flatten = items ∧ (∀ c ∈ chunks, c ≠ [] ∧ c.length ≤ size) ∧
      ∀ c ∈ chunks.dropLast, c.length = size) ∧
    ∀ w : Workers, 1 ≤ w.count → (∀ n ∈ w.chunkSize, n = 0) → items ≠ [] →
      let share := evenShare items.length w.count
      let chunks := chunksOf share items
      1 ≤ share ∧ chunks.length ≤ w.count ∧
        (∀ size, 1 ≤ size → (chunksOf size items).length ≤ w.count → share ≤ size) ∧
        w.split (E := E) items =
          .ok (if items.length ≤ inlineLimit ∨ w.count = 1 then [items] else chunks) ∧
        1 ≤ w.poolSize chunks ∧ chunks.length ≤ w.poolSize chunks := by
  constructor
  · intro size hsize
    refine ⟨chunksOf size.toNat items, chunks?_eq (by omega), flatten_chunksOf .., ?_, ?_⟩
    · intro c hc
      obtain ⟨hpos, hle⟩ := length_of_mem_chunksOf (by omega) hc
      exact ⟨List.ne_nil_of_length_pos hpos, by omega⟩
    · intro c hc
      have hfull := length_of_mem_dropLast_chunksOf (by omega) hc
      omega
  · intro w hcount hunset hitems share chunks
    have hleast : ∀ size, share ≤ size ↔ 1 ≤ size ∧ items.length ≤ size * w.count :=
      fun _ => evenShare_le_iff hcount
    obtain ⟨hpos, hroom⟩ := (hleast share).mp (Nat.le_refl _)
    have hfits : chunks.length ≤ w.count :=
      (length_chunksOf_le_iff hpos).mpr (Nat.mul_comm _ _ ▸ hroom)
    have hsome : 1 ≤ chunks.length :=
      List.length_pos_iff.mpr (mt chunksOf_eq_nil.mp hitems)
    refine ⟨hpos, hfits, fun size hsize hsmall => ?_, split_unset hunset hitems, ?_, ?_⟩
    · rw [length_chunksOf_le_iff hsize, Nat.mul_comm] at hsmall
      exact (hleast size).mpr ⟨hsize, hsmall⟩
    all_goals
      unfold poolSize
      omega

/-- Ten items for four workers: three chunks of three and one of one. -/
theorem chunks_fit_workers_ten :
    let w : Workers := ⟨4, none⟩
    let chunks := [[0, 1, 2], [3, 4, 5], [6, 7, 8], [9]]
    w.split (E := String) (List.range 10) = .ok chunks ∧ w.poolSize chunks = 4 := by
  intro w chunks
  obtain ⟨-, hall⟩ := chunks_fit_workers (E := String) (List.range 10)
  obtain ⟨-, -, -, hsplit, -⟩ := hall w (by decide) (by decide) (by decide)
  have hchunks : chunksOf (evenShare (List.range 10).length w.count) (List.range 10) = chunks := by
    cbv
  rw [hchunks] at hsplit
  exact ⟨hsplit, rfl⟩

end Workers

end AuditReport
