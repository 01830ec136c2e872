import AuditReport.Workers
import Mathlib.Data.List.Induction

/-! Shared work. Whichever way the items are split, in place or into chunks, the values are those of
the distinct items on which the function does not fail. -/

namespace AuditReport

/-! ## Distinct values -/

section Distinct

variable {α : Type} {same : α → α → Bool}

theorem distinctBy_concat {xs : List α} {x : α} :
    distinctBy same (xs ++ [x]) =
      if (distinctBy same xs).any (same x) then distinctBy same xs
      else distinctBy same xs ++ [x] := by
  simp only [distinctBy, List.foldl_append, List.foldl_cons, List.foldl_nil, List.any_reverse]
  split <;> simp

theorem mem_of_mem_distinctBy {xs : List α} {x : α} (h : x ∈ distinctBy same xs) : x ∈ xs := by
  induction xs using List.reverseRecOn with
  | nil => exact h
  | append_singleton xs y ih =>
    rw [distinctBy_concat] at h
    split at h
    · exact List.mem_append_left _ (ih h)
    · rcases List.mem_append.mp h with h | h
      · exact List.mem_append_left _ (ih h)
      · exact List.mem_append_right _ h

/-- A value that is left out is the same as one that is not. -/
theorem exists_mem_distinctBy {xs : List α} {x : α} (h : x ∈ xs) :
    ∃ y ∈ distinctBy same xs, y = x ∨ same x y = true := by
  induction xs using List.reverseRecOn with
  | nil => cases h
  | append_singleton xs y ih =>
    rw [distinctBy_concat]
    rcases List.mem_append.mp h with h | h
    · obtain ⟨z, hz, hzx⟩ := ih h
      split
      · exact ⟨z, hz, hzx⟩
      · exact ⟨z, List.mem_append_left _ hz, hzx⟩
    · obtain rfl := List.mem_singleton.mp h
      split
      · rename_i hany
        obtain ⟨z, hz, hzx⟩ := List.any_eq_true.mp hany
        exact ⟨z, hz, .inr hzx⟩
      · exact ⟨x, List.mem_append_right _ (List.mem_singleton.mpr rfl), .inl rfl⟩

theorem pairwise_distinctBy (xs : List α) :
    (distinctBy same xs).Pairwise fun x y => same y x = false := by
  induction xs using List.reverseRecOn with
  | nil => exact .nil
  | append_singleton xs y ih =>
    rw [distinctBy_concat]
    split
    · exact ih
    · rename_i hnone
      refine List.pairwise_append.mpr ⟨ih, List.pairwise_singleton _ _, fun x hx z hz => ?_⟩
      obtain rfl := List.mem_singleton.mp hz
      simpa using fun h => hnone (List.any_eq_true.mpr ⟨x, hx, h⟩)

/-- If all values with `p` are the same as each other and as no other value, one of them is kept. -/
theorem countP_distinctBy {p : α → Bool} (hsame : ∀ x y, p x = true → p y = true → same x y = true)
    (hclosed : ∀ x y, p x = true → same x y = true → p y = true) (xs : List α) :
    (distinctBy same xs).countP p = if xs.any p then 1 else 0 := by
  induction xs using List.reverseRecOn with
  | nil => rfl
  | append_singleton xs y ih =>
    have hany : xs.any p = (distinctBy same xs).any p := by
      by_cases h : xs.any p = true
      · have hpos : 0 < (distinctBy same xs).countP p := by simp [ih, h]
        rw [h, List.any_eq_true.mpr (List.countP_pos_iff.mp hpos)]
      · have hzero : (distinctBy same xs).countP p = 0 := by simp [ih, h]
        rw [Bool.not_eq_true] at h
        rw [h, eq_comm, List.any_eq_false]
        exact List.countP_eq_zero.mp hzero
    rw [distinctBy_concat, List.any_append]
    by_cases hy : p y = true
    · simp only [List.any_cons, hy, Bool.true_or, Bool.or_true, if_true]
      split
      · next hkept =>
        obtain ⟨x, hx, hyx⟩ := List.any_eq_true.mp hkept
        rw [ih, hany, List.any_eq_true.mpr ⟨x, hx, hclosed y x hy hyx⟩, if_pos rfl]
      · next hnew =>
        have hnone : (distinctBy same xs).any p = false := by
          refine List.any_eq_false.mpr fun x hx hpx => hnew ?_
          exact List.any_eq_true.mpr ⟨x, hx, hsame y x hy hpx⟩
        simp [List.countP_append, ih, hany, hnone, hy]
    · have hsingle : [y].any p = false := by simpa using hy
      rw [hsingle, Bool.or_false, ← ih]
      split
      · rfl
      · simp [List.countP_append, hy]

end Distinct

section Equivalence

variable {α : Type} [BEq α] [EquivBEq α]

/-- The first value that is equal to a given one is kept, if there is one. -/
theorem find?_distinctBy (xs : List α) (x : α) :
    (distinctBy (fun a b => a == b) xs).find? (· == x) = xs.find? (· == x) := by
  induction xs using List.reverseRecOn with
  | nil => rfl
  | append_singleton xs y ih =>
    rw [distinctBy_concat, List.find?_append, ← ih]
    split
    · next hkept =>
      obtain ⟨z, hz, hyz⟩ := List.any_eq_true.mp hkept
      by_cases hy : (y == x) = true
      · -- An equal value was kept before, so the later one is not the first.
        have hzx : (z == x) = true := BEq.trans (BEq.symm hyz) hy
        have hsome : ((distinctBy (fun a b => a == b) xs).find? (· == x)).isSome = true :=
          List.find?_isSome.mpr ⟨z, hz, hzx⟩
        obtain ⟨w, hw⟩ := Option.isSome_iff_exists.mp hsome
        rw [hw, Option.some_or]
      · simp [hy]
    · rw [List.find?_append]

end Equivalence

namespace Workers

variable {K R E : Type} {f : K → Except E R} {recoverable : E → Bool}

/-- What an item comes to: itself with its value, unless the function fails on it. -/
def answer (f : K → Except E R) (x : K) : Option (K × R) := (f x).toOption.map (x, ·)

theorem answer_eq_some {x y : K} {r : R} : answer f x = some (y, r) ↔ x = y ∧ f x = .ok r := by
  unfold answer
  cases f x <;> simp [Except.toOption]

/-- A chunk whose failures can all be recovered from yields the values of the other items. -/
theorem runChunk_result {items : List K}
    (h : ∀ x ∈ items, ∀ e, f x = .error e → recoverable e = true) :
    (runChunk f recoverable items).result = .ok (items.filterMap (answer f)) := by
  induction items with
  | nil => rfl
  | cons x xs ih =>
    obtain ⟨hx, hxs⟩ := List.forall_mem_cons.mp h
    unfold runChunk
    split
    · rename_i r hr
      simp [ih hxs, answer, hr, Except.toOption, Except.map]
    · rename_i e he
      simp [ih hxs, answer, he, hx e he, Except.toOption]

theorem collect_result {chunks : List (List K)}
    (h : ∀ x ∈ chunks.flatten, ∀ e, f x = .error e → recoverable e = true) :
    collect (chunks.map (runChunk f recoverable)) = .ok (chunks.flatten.filterMap (answer f)) := by
  induction chunks with
  | nil => rfl
  | cons c cs ih =>
    rw [List.flatten_cons, List.forall_mem_append] at h
    rw [List.map_cons, collect, runChunk_result h.1, ih h.2, List.flatten_cons,
      List.filterMap_append]
    rfl

theorem chunks?_eq {size : Int} {items : List K} (h : 0 < size) :
    chunks? size items = some (chunksOf size.toNat items) := by
  rw [chunks?, if_neg (by omega), if_neg (by omega)]

/-- The chunk size that is used is positive, unless a negative one is asked for. -/
theorem split_eq {w : Workers} {items : List K} (hw : ∀ n, w.chunkSize = some n → 0 ≤ n)
    (h : ¬(items.length ≤ inlineLimit ∨ w.count = 1)) :
    ∃ size : Int, 0 < size ∧ w.split (E := E) items =
      match chunks? size items with
      | some (c :: rest) => .ok (c :: rest)
      | _ => .error .noWorkers := by
  have hshare : 0 < (evenShare items.length w.count : Int) := by
    unfold evenShare
    omega
  unfold split
  rw [if_neg h]
  cases hc : w.chunkSize with
  | none => exact ⟨_, hshare, rfl⟩
  | some n =>
    have hn := hw n hc
    cases n with
    | negSucc m => cases hn
    | ofNat m =>
      cases m with
      | zero => exact ⟨_, hshare, rfl⟩
      | succ m => exact ⟨Int.ofNat (m + 1), Int.natCast_succ_pos m, rfl⟩

/-- Without a negative chunk size there is always a way to split, and nothing is lost by it. -/
theorem split_ok {w : Workers} {items : List K} (hw : ∀ n, w.chunkSize = some n → 0 ≤ n)
    (hne : items ≠ []) :
    ∃ chunks, w.split (E := E) items = .ok chunks ∧ chunks.flatten = items := by
  by_cases h : items.length ≤ inlineLimit ∨ w.count = 1
  · exact ⟨[items], if_pos h, List.flatten_singleton⟩
  · obtain ⟨size, hpos, hsplit⟩ := split_eq hw h
    have hflat := flatten_chunksOf size.toNat items
    rw [hsplit, chunks?_eq hpos]
    cases hc : chunksOf size.toNat items with
    | nil => exact absurd (hc ▸ hflat).symm hne
    | cons c cs => exact ⟨c :: cs, rfl, hc ▸ hflat⟩

/-- **Sharing changes no result.** If every failure can be recovered from, the work yields the
values of the distinct items on which the function does not fail, in their order. -/
theorem map_result [BEq K] {w : Workers} {items : List K}
    (hw : ∀ n, w.chunkSize = some n → 0 ≤ n)
    (h : ∀ x ∈ items, ∀ e, f x = .error e → recoverable e = true) :
    (w.map f recoverable items).result =
      .ok ((distinctBy (fun a b => a == b) items).filterMap (answer f)) := by
  have hdistinct : ∀ x ∈ distinctBy (fun a b => a == b) items, ∀ e, f x = .error e →
      recoverable e = true := fun x hx => h x (mem_of_mem_distinctBy hx)
  unfold map
  split
  · rename_i hnil
    rw [hnil]
    rfl
  · rename_i first rest hcons
    obtain ⟨chunks, hsplit, hflat⟩ := split_ok hw (List.cons_ne_nil first rest)
    rw [hcons, ← hflat] at hdistinct
    rw [hsplit]
    dsimp only
    rw [collect_result hdistinct, hflat, hcons]
    rfl

end Workers

end AuditReport
