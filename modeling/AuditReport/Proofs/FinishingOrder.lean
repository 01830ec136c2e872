import AuditReport.Proofs.WorkSharing

/-! Work that ends in any order. The chunks of shared work finish in an order that nothing fixes, and
their calls are made side by side. Neither matters: each distinct item is worked on once, and what
comes of it is collected whatever the workers and the chunks. -/

namespace AuditReport.Workers

variable {K R E : Type} {f : K → Except E R} {recoverable : E → Bool}

/-- The distinct items: the first of each kind of equal ones. -/
abbrev firsts [BEq K] (items : List K) : List K := distinctBy (fun a b => a == b) items

/-- How the work may end: its chunks finish in some order, and the calls of those that run side by
side come in some order. -/
def Ends [BEq K] (w : Workers) (f : K → Except E R) (recoverable : E → Bool) (items : List K)
    (o : Outcome K R E) : Prop :=
  match firsts items with
  | [] => o = ⟨[], .ok []⟩
  | first :: rest =>
    match w.split (first :: rest) with
    | .error e => o = ⟨[], .error e⟩
    | .ok chunks => ∃ finished : List (List K), finished.Perm chunks ∧
        o.calls.Perm ((finished.map (runChunk f recoverable)).flatMap Task.calls) ∧
        o.result = (collect (finished.map (runChunk f recoverable))).mapError .failed

/-- An item that the function fails on for good. -/
def Fatal (f : K → Except E R) (recoverable : E → Bool) (e : E) (x : K) : Prop :=
  f x = .error e ∧ recoverable e = false

theorem ends_map [BEq K] (w : Workers) (f : K → Except E R) (recoverable : E → Bool)
    (items : List K) : w.Ends f recoverable items (w.map f recoverable items) := by
  unfold Ends map firsts
  generalize distinctBy (fun a b => a == b) items = distinct
  cases distinct with
  | nil => rfl
  | cons first rest =>
    dsimp only
    generalize w.split (E := E) (first :: rest) = shared
    cases shared with
    | error e => rfl
    | ok chunks => exact ⟨chunks, .refl _, .refl _, rfl⟩

/-- Whatever the order, the chunks that finish hold the distinct items. -/
theorem Ends.finished [BEq K] {w : Workers} {items : List K} {o : Outcome K R E}
    (hw : ∀ n, w.chunkSize = some n → 0 ≤ n) (h : w.Ends f recoverable items o) :
    ∃ finished : List (List K),
      finished.flatten.Perm (firsts items) ∧
      o.calls.Perm ((finished.map (runChunk f recoverable)).flatMap Task.calls) ∧
      o.result = (collect (finished.map (runChunk f recoverable))).mapError .failed := by
  unfold Ends at h
  split at h
  · next hnil =>
    rw [h, hnil]
    exact ⟨[], .refl _, .refl _, rfl⟩
  · next first rest hcons =>
    obtain ⟨chunks, hsplit, hflat⟩ := split_ok hw (List.cons_ne_nil first rest)
    rw [hsplit] at h
    obtain ⟨finished, hperm, hcalls, hresult⟩ := h
    refine ⟨finished, ?_, hcalls, hresult⟩
    rw [hcons, ← hflat]
    exact hperm.flatten

/-- A chunk whose failures can all be recovered from is worked off to its end. -/
theorem runChunk_calls {items : List K}
    (h : ∀ x ∈ items, ∀ e, f x = .error e → recoverable e = true) :
    (runChunk f recoverable items).calls = items := by
  induction items with
  | nil => rfl
  | cons x xs ih =>
    obtain ⟨hx, hxs⟩ := List.forall_mem_cons.mp h
    unfold runChunk
    split
    · exact congrArg (x :: ·) (ih hxs)
    · next e he =>
      rw [if_pos (hx e he)]
      exact congrArg (x :: ·) (ih hxs)

theorem flatMap_calls {chunks : List (List K)}
    (h : ∀ x ∈ chunks.flatten, ∀ e, f x = .error e → recoverable e = true) :
    (chunks.map (runChunk f recoverable)).flatMap Task.calls = chunks.flatten := by
  induction chunks with
  | nil => rfl
  | cons c cs ih =>
    rw [List.flatten_cons, List.forall_mem_append] at h
    rw [List.map_cons, List.flatMap_cons, runChunk_calls h.1, ih h.2, List.flatten_cons]

/-- If every failure can be recovered from, each distinct item is worked on, and what comes of it is
collected. -/
theorem Ends.recovered [BEq K] {w : Workers} {items : List K} {o : Outcome K R E}
    (hw : ∀ n, w.chunkSize = some n → 0 ≤ n) (ho : w.Ends f recoverable items o)
    (h : ∀ x ∈ firsts items, ∀ e, f x = .error e → recoverable e = true) :
    o.calls.Perm (firsts items) ∧ ∃ found, o.result = .ok found ∧
      found.Perm ((firsts items).filterMap (answer f)) := by
  obtain ⟨finished, hperm, hcalls, hresult⟩ := ho.finished hw
  have hfine : ∀ x ∈ finished.flatten, ∀ e, f x = .error e → recoverable e = true :=
    fun x hx => h x (hperm.mem_iff.mp hx)
  rw [flatMap_calls hfine] at hcalls
  rw [collect_result hfine] at hresult
  exact ⟨hcalls.trans hperm, _, hresult, hperm.filterMap _⟩

/-- If the function fails on some items for good, a chunk with one fails as one of them does. -/
theorem runChunk_fatal {items : List K} (h : ∃ x ∈ items, ∃ e, Fatal f recoverable e x) :
    ∃ x ∈ items, ∃ e, Fatal f recoverable e x ∧ (runChunk f recoverable items).result = .error e := by
  induction items with
  | nil => simp at h
  | cons x xs ih =>
    have hrest : (¬∃ e, Fatal f recoverable e x) → ∃ y ∈ xs, ∃ e, Fatal f recoverable e y := by
      intro hx
      obtain ⟨y, hy, e, he⟩ := h
      rcases List.mem_cons.mp hy with rfl | hy
      · exact absurd ⟨e, he⟩ hx
      · exact ⟨y, hy, e, he⟩
    unfold runChunk
    split
    · next r hr =>
      obtain ⟨y, hy, e, he, hresult⟩ := ih (hrest (by simp [Fatal, hr]))
      exact ⟨y, List.mem_cons_of_mem x hy, e, he, by simp [hresult, Except.map]⟩
    · next e he =>
      by_cases hrecover : recoverable e = true
      · obtain ⟨y, hy, d, hd, hresult⟩ := ih (hrest (by simp [Fatal, he, hrecover]))
        exact ⟨y, List.mem_cons_of_mem x hy, d, hd, by simp [hrecover, hresult]⟩
      · refine ⟨x, List.mem_cons_self, e, ⟨he, by simpa using hrecover⟩, ?_⟩
        rw [if_neg hrecover]

theorem collect_fatal {chunks : List (List K)}
    (h : ∃ x ∈ chunks.flatten, ∃ e, Fatal f recoverable e x) :
    ∃ x ∈ chunks.flatten, ∃ e, Fatal f recoverable e x ∧
      collect (chunks.map (runChunk f recoverable)) = .error e := by
  induction chunks with
  | nil => simp at h
  | cons c cs ih =>
    rw [List.flatten_cons, List.map_cons, collect]
    by_cases hc : ∃ x ∈ c, ∃ e, Fatal f recoverable e x
    · obtain ⟨x, hx, e, he, hresult⟩ := runChunk_fatal hc
      refine ⟨x, List.mem_append_left _ hx, e, he, ?_⟩
      rw [hresult]
      rfl
    · -- This chunk comes to its end, so the failure is that of a later one.
      have hfine : ∀ x ∈ c, ∀ e, f x = .error e → recoverable e = true := by
        intro x hx e he
        cases hrecover : recoverable e with
        | true => rfl
        | false => exact absurd ⟨x, hx, e, he, hrecover⟩ hc
      have hlater : ∃ x ∈ cs.flatten, ∃ e, Fatal f recoverable e x := by
        obtain ⟨x, hx, he⟩ := h
        rw [List.flatten_cons] at hx
        rcases List.mem_append.mp hx with hx | hx
        · exact absurd ⟨x, hx, he⟩ hc
        · exact ⟨x, hx, he⟩
      obtain ⟨x, hx, e, he, hresult⟩ := ih hlater
      refine ⟨x, List.mem_append_right _ hx, e, he, ?_⟩
      rw [runChunk_result hfine, hresult]
      rfl

/-- **Each item once, whatever the order.** Of each kind of equal items the first is worked on.
However many workers there are, however large the chunks and in whatever order they finish: if every
failure can be recovered from, the function is called once on each distinct item and on nothing else,
and the work yields the items on which it did not fail with their values; otherwise the work fails
as one of the items does from which it cannot recover. One way to end is that of `map`. -/
theorem each_item_once [BEq K] [EquivBEq K] (f : K → Except E R) (recoverable : E → Bool)
    (items : List K) :
    (∀ x, (firsts items).find? (· == x) = items.find? (· == x) ∧
      (firsts items).countP (· == x) = if items.any (· == x) then 1 else 0) ∧
    ∀ w : Workers, (∀ n, w.chunkSize = some n → 0 ≤ n) →
      Ends w f recoverable items (map w f recoverable items) ∧
      ∀ o, Ends w f recoverable items o →
        ((∀ x ∈ firsts items, ∀ e, f x = .error e → recoverable e = true) →
          o.calls.Perm (firsts items) ∧ ∃ found, o.result = .ok found ∧
            found.Perm ((firsts items).filterMap fun x => (f x).toOption.map (x, ·))) ∧
        ((∃ x ∈ firsts items, ∃ e, f x = .error e ∧ recoverable e = false) →
          ∃ x ∈ firsts items, ∃ e, f x = .error e ∧ recoverable e = false ∧
            o.result = .error (.failed e)) := by
  refine ⟨fun x => ⟨find?_distinctBy items x, ?_⟩, fun w hw => ⟨ends_map .., fun o ho => ?_⟩⟩
  · refine countP_distinctBy (fun a b ha hb => ?_) (fun a b ha hab => ?_) items
    · exact BEq.trans ha (BEq.symm hb)
    · exact BEq.trans (BEq.symm hab) ha
  · refine ⟨ho.recovered hw, ?_⟩
    rintro ⟨x, hx, hfatal⟩
    obtain ⟨finished, hperm, -, hresult⟩ := ho.finished hw
    obtain ⟨y, hy, e, ⟨hfails, hfatal⟩, hcollect⟩ :=
      collect_fatal ⟨x, hperm.mem_iff.mpr hx, hfatal⟩
    rw [hcollect] at hresult
    exact ⟨y, hperm.mem_iff.mp hy, e, hfails, hfatal, hresult⟩

/-- Three chunks on two workers that finish in reverse; an item is repeated, and one fails. -/
theorem each_item_once_reversed :
    let f : Nat → Except String Nat := fun n => if n = 4 then .error "four" else .ok (n * n)
    let items := List.range 10 ++ [7, 4, 7]
    let w := ofRequest (some 3) 2 (some 4)
    ∃ o : Outcome Nat Nat String, w.Ends f (fun _ => true) items o ∧
      o.calls = [8, 9, 4, 5, 6, 7, 0, 1, 2, 3] ∧ o.calls.Perm (List.range 10) ∧
      ∃ found, o.result = .ok found ∧
        found.Perm [(0, 0), (1, 1), (2, 4), (3, 9), (5, 25), (6, 36), (7, 49), (8, 64), (9, 81)] := by
  intro f items w
  have hsplit : w.split (E := String) (List.range 10) =
      .ok [[0, 1, 2, 3], [4, 5, 6, 7], [8, 9]] := by cbv
  have hends : w.Ends f (fun _ => true) items
      ⟨[8, 9, 4, 5, 6, 7, 0, 1, 2, 3],
        .ok [(8, 64), (9, 81), (5, 25), (6, 36), (7, 49), (0, 0), (1, 1), (2, 4), (3, 9)]⟩ := by
    unfold Ends
    have hdistinct : firsts items = 0 :: List.range' 1 9 := by decide
    rw [hdistinct]
    dsimp only
    have hrange : 0 :: List.range' 1 9 = List.range 10 := rfl
    rw [hrange, hsplit]
    exact ⟨[[8, 9], [4, 5, 6, 7], [0, 1, 2, 3]], by decide, by decide, rfl⟩
  obtain ⟨-, hall⟩ := each_item_once f (fun _ => true) items
  obtain ⟨-, hall⟩ := hall w (by decide)
  obtain ⟨hfine, -⟩ := hall _ hends
  obtain ⟨hcalls, hfound⟩ := hfine fun _ _ _ _ => rfl
  exact ⟨_, hends, rfl, hcalls, hfound⟩

end AuditReport.Workers
