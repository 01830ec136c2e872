import Mathlib.Data.List.Forall2

/-! Runs of steps that may fail: a run succeeds when every step does, and otherwise fails with the
error of the first step that fails. Steps over a state leave behind what they did until then. -/

namespace AuditReport.Fallible

variable {α β γ ε δ : Type}

theorem bind_ok_iff {x : Except ε α} {f : α → Except ε β} {b : β} :
    (x >>= f) = .ok b ↔ ∃ a, x = .ok a ∧ f a = .ok b := by
  cases x with
  | error e => exact ⟨nofun, nofun⟩
  | ok a => exact ⟨fun h => ⟨a, rfl, h⟩, fun ⟨_, h, hb⟩ => by cases h; exact hb⟩

theorem map_ok_iff {x : Except ε α} {f : α → β} {b : β} :
    x.map f = .ok b ↔ ∃ a, x = .ok a ∧ f a = b := by
  cases x <;> simp [Except.map]

theorem map_error_iff {x : Except ε α} {f : α → β} {e : ε} :
    x.map f = .error e ↔ x = .error e := by
  cases x <;> simp [Except.map]

theorem mapError_ok_iff {x : Except ε α} {f : ε → δ} {a : α} :
    x.mapError f = .ok a ↔ x = .ok a := by
  cases x <;> simp [Except.mapError]

theorem mapError_error_iff {x : Except ε α} {f : ε → δ} {d : δ} :
    x.mapError f = .error d ↔ ∃ e, x = .error e ∧ f e = d := by
  cases x <;> simp [Except.mapError]

theorem bind_error_iff {x : Except ε α} {f : α → Except ε β} {e : ε} :
    (x >>= f) = .error e ↔ x = .error e ∨ ∃ a, x = .ok a ∧ f a = .error e := by
  cases x with
  | error d =>
    constructor
    · intro h; cases h; exact .inl rfl
    · rintro (h | ⟨_, h, -⟩) <;> cases h; rfl
  | ok a =>
    constructor
    · exact fun h => .inr ⟨a, rfl, h⟩
    · rintro (h | ⟨_, h, hf⟩) <;> cases h; exact hf

theorem forM_ok_iff {f : α → Except ε Unit} {xs : List α} :
    xs.forM f = .ok () ↔ ∀ x ∈ xs, f x = .ok () := by
  induction xs with
  | nil => exact ⟨fun _ => nofun, fun _ => rfl⟩
  | cons x xs ih =>
    show (f x >>= fun _ => xs.forM f) = .ok () ↔ _
    rw [bind_ok_iff, List.forall_mem_cons, ← ih]
    exact ⟨fun ⟨_, hx, hs⟩ => ⟨hx, hs⟩, fun ⟨hx, hs⟩ => ⟨(), hx, hs⟩⟩

/-- A run over a list succeeds when every item does, and returns their results in order. -/
theorem mapM_ok_iff {f : α → Except ε β} {xs : List α} {ys : List β} :
    xs.mapM f = .ok ys ↔ List.Forall₂ (fun x y => f x = .ok y) xs ys := by
  induction xs generalizing ys with
  | nil =>
    rw [List.mapM_nil, List.forall₂_nil_left_iff]
    exact ⟨fun h => by cases h; rfl, fun h => by rw [h]; rfl⟩
  | cons x xs ih =>
    rw [List.mapM_cons, bind_ok_iff, List.forall₂_cons_left_iff]
    constructor
    · rintro ⟨y, hy, h⟩
      obtain ⟨zs, hzs, hys⟩ := bind_ok_iff.mp h
      exact ⟨y, zs, hy, ih.mp hzs, by cases hys; rfl⟩
    · rintro ⟨y, zs, hy, hzs, rfl⟩
      exact ⟨y, hy, bind_ok_iff.mpr ⟨zs, ih.mpr hzs, rfl⟩⟩

/-- A run over a list fails with the error of its first item that fails. -/
theorem mapM_error_iff {f : α → Except ε β} {xs : List α} {e : ε} :
    xs.mapM f = .error e ↔ ∃ before x after, xs = before ++ x :: after ∧
      (∀ w ∈ before, ∃ y, f w = .ok y) ∧ f x = .error e := by
  induction xs with
  | nil =>
    constructor
    · intro h; cases h
    · rintro ⟨before, x, after, h, -⟩; cases before <;> cases h
  | cons x xs ih =>
    rw [List.mapM_cons]
    cases hx : f x with
    | error d =>
      constructor
      · intro h; cases h; exact ⟨[], x, xs, rfl, by simp, hx⟩
      · rintro ⟨before, w, after, h, hok, he⟩
        cases before with
        | nil => cases h; rw [hx] at he; cases he; rfl
        | cons b before =>
          obtain ⟨rfl, -⟩ := List.cons.inj h
          obtain ⟨y, hy⟩ := hok x (by simp)
          rw [hx] at hy; cases hy
    | ok y =>
      have hrest : (do return y :: (← xs.mapM f) : Except ε (List β)) = .error e ↔
          xs.mapM f = .error e := by
        cases xs.mapM f with
        | error d => exact ⟨fun h => by cases h; rfl, fun h => by cases h; rfl⟩
        | ok ys => exact ⟨nofun, nofun⟩
      refine hrest.trans (ih.trans ⟨?_, ?_⟩)
      · rintro ⟨before, w, after, rfl, hok, he⟩
        exact ⟨x :: before, w, after, rfl, List.forall_mem_cons.mpr ⟨⟨y, hx⟩, hok⟩, he⟩
      · rintro ⟨before, w, after, h, hok, he⟩
        cases before with
        | nil => cases h; rw [hx] at he; cases he
        | cons b before =>
          obtain ⟨rfl, rfl⟩ := List.cons.inj h
          exact ⟨before, w, after, rfl, (List.forall_mem_cons.mp hok).2, he⟩

theorem mem_of_mapM_ok {f : α → Except ε β} {xs : List α} {ys : List β}
    (h : xs.mapM f = .ok ys) {y : β} : y ∈ ys ↔ ∃ x ∈ xs, f x = .ok y := by
  induction mapM_ok_iff.mp h with
  | nil => simp
  | cons hxy hs ih =>
    rw [List.mem_cons, ih (mapM_ok_iff.mpr hs)]
    simp only [List.mem_cons, exists_eq_or_imp, hxy, Except.ok.injEq, @eq_comm _ y]

theorem exists_of_mapM_ok {f : α → Except ε β} {xs : List α} {ys : List β}
    (h : xs.mapM f = .ok ys) : ∀ x ∈ xs, ∃ y, f x = .ok y := by
  induction mapM_ok_iff.mp h with
  | nil => simp
  | cons hxy hs ih => exact List.forall_mem_cons.mpr ⟨⟨_, hxy⟩, ih (mapM_ok_iff.mpr hs)⟩

theorem getElem?_of_mapM_ok {f : α → Except ε β} {xs : List α} {ys : List β}
    (h : xs.mapM f = .ok ys) {i : Nat} {x : α} (hx : xs[i]? = some x) :
    ∃ y, ys[i]? = some y ∧ f x = .ok y := by
  induction mapM_ok_iff.mp h generalizing i with
  | nil => cases hx
  | cons hxy hs ih =>
    cases i with
    | zero => cases hx; exact ⟨_, rfl, hxy⟩
    | succ i => exact ih (mapM_ok_iff.mpr hs) hx

theorem mapM_total {f : α → Except ε β} {xs : List α} (h : ∀ x ∈ xs, ∃ y, f x = .ok y) :
    ∃ ys, xs.mapM f = .ok ys := by
  cases hm : xs.mapM f with
  | ok ys => exact ⟨ys, rfl⟩
  | error e =>
    obtain ⟨before, x, after, rfl, -, he⟩ := mapM_error_iff.mp hm
    obtain ⟨y, hy⟩ := h x (by simp)
    rw [hy] at he
    cases he

theorem mapM_congr {f g : α → Except ε β} {xs : List α} (h : ∀ x ∈ xs, f x = g x) :
    xs.mapM f = xs.mapM g := by
  induction xs with
  | nil => rfl
  | cons x xs ih =>
    obtain ⟨hx, hs⟩ := List.forall_mem_cons.mp h
    rw [List.mapM_cons, List.mapM_cons, hx, ih hs]

theorem mapM_eq_map {f : α → Except ε β} {g : α → β} {xs : List α}
    (h : ∀ x ∈ xs, f x = .ok (g x)) : xs.mapM f = .ok (xs.map g) := by
  rw [mapM_ok_iff, List.forall₂_map_right_iff, List.forall₂_same]
  exact h

/-- If all bad items fail with one error, and only they fail, so does a run over some of them. -/
theorem mapM_eq_error {f : α → Except ε β} {xs : List α} {e : ε} {good : α → Prop}
    (hgood : ∀ x ∈ xs, good x → ∃ y, f x = .ok y) (hbad : ∀ x ∈ xs, ¬ good x → f x = .error e)
    (h : ∃ x ∈ xs, ¬ good x) : xs.mapM f = .error e := by
  cases hm : xs.mapM f with
  | ok ys =>
    obtain ⟨x, hx, hxbad⟩ := h
    obtain ⟨y, hy⟩ := exists_of_mapM_ok hm x hx
    cases (hbad x hx hxbad).symm.trans hy
  | error d =>
    obtain ⟨before, x, after, rfl, -, hd⟩ := mapM_error_iff.mp hm
    have hx : x ∈ before ++ x :: after := by simp
    by_cases hxgood : good x
    · obtain ⟨y, hy⟩ := hgood x hx hxgood
      cases hy.symm.trans hd
    · cases hd.symm.trans (hbad x hx hxgood)
      rfl

/-! ## Whether a run succeeds -/

/-- Whether a step succeeds, its result left aside. -/
def verdict (x : Except ε α) : Except ε Unit := x.map fun _ => ()

theorem verdict_ok_iff {x : Except ε α} : verdict x = .ok () ↔ ∃ a, x = .ok a := by
  cases x <;> simp [verdict, Except.map]

theorem verdict_error_iff {x : Except ε α} {e : ε} : verdict x = .error e ↔ x = .error e :=
  map_error_iff

theorem verdict_map (x : Except ε α) (f : α → β) : verdict (x.map f) = verdict x := by
  cases x <;> rfl

/-- What follows on a step is judged apart from it, if its verdict is the same for all results of
the step. -/
theorem verdict_bind {x : Except ε α} {f : α → Except ε β} {y : Except ε Unit}
    (h : ∀ a, verdict (f a) = y) : verdict (x >>= f) = (verdict x >>= fun _ => y) := by
  cases x with
  | error e => rfl
  | ok a => exact h a

theorem verdict_bind_ok {x : Except ε α} {f : α → Except ε β}
    (h : ∀ a, x = .ok a → ∃ b, f a = .ok b) : verdict (x >>= f) = verdict x := by
  cases x with
  | error e => rfl
  | ok a => exact verdict_ok_iff.mpr (h a rfl)

theorem verdict_mapM_append (f : α → Except ε β) (xs ys : List α) :
    verdict ((xs ++ ys).mapM f) = (verdict (xs.mapM f) >>= fun _ => verdict (ys.mapM f)) := by
  rw [List.mapM_append]
  exact verdict_bind fun zs => verdict_bind_ok fun ws _ => ⟨zs ++ ws, rfl⟩

/-- A run over items succeeds and fails as one over all their parts, if each item does. -/
theorem verdict_mapM_flatMap {f : α → Except ε β} {parts : α → List γ} {g : γ → Except ε δ}
    {xs : List α} (h : ∀ x ∈ xs, verdict (f x) = verdict ((parts x).mapM g)) :
    verdict (xs.mapM f) = verdict ((xs.flatMap parts).mapM g) := by
  induction xs with
  | nil => rfl
  | cons x xs ih =>
    obtain ⟨hx, hxs⟩ := List.forall_mem_cons.mp h
    rw [List.flatMap_cons, verdict_mapM_append, ← hx, ← ih hxs, List.mapM_cons]
    exact verdict_bind fun y => verdict_bind_ok fun ys _ => ⟨y :: ys, rfl⟩

/-! ## Steps over a state -/

section Stateful

variable {S : Type}

theorem run_bind (x : ExceptT ε (StateM S) α) (f : α → ExceptT ε (StateM S) β) (s : S) :
    (x >>= f).run.run s =
      match x.run.run s with
      | (.ok a, t) => (f a).run.run t
      | (.error e, t) => (.error e, t) := by
  rw [ExceptT.run_bind, StateT.run_bind]
  split <;> simp [*] <;> rfl

theorem run_bind_ok {x : ExceptT ε (StateM S) α} {s : S} {a : α} (h : (x.run.run s).1 = .ok a)
    (f : α → ExceptT ε (StateM S) β) : (x >>= f).run.run s = (f a).run.run (x.run.run s).2 := by
  rw [run_bind]
  generalize x.run.run s = out at h
  obtain ⟨_, t⟩ := out
  cases h
  rfl

theorem run_bind_error {x : ExceptT ε (StateM S) α} {s : S} {e : ε}
    (h : (x.run.run s).1 = .error e) (f : α → ExceptT ε (StateM S) β) :
    (x >>= f).run.run s = (.error e, (x.run.run s).2) := by
  rw [run_bind]
  generalize x.run.run s = out at h
  obtain ⟨_, t⟩ := out
  cases h
  rfl

theorem run_ok_of_bind {x : ExceptT ε (StateM S) α} {f : α → ExceptT ε (StateM S) β} {s : S} {b : β}
    (h : ((x >>= f).run.run s).1 = .ok b) :
    ∃ a, (x.run.run s).1 = .ok a ∧ ((f a).run.run (x.run.run s).2).1 = .ok b := by
  cases hx : (x.run.run s).1 with
  | ok a => exact ⟨a, rfl, by rwa [run_bind_ok hx] at h⟩
  | error e =>
    rw [run_bind_error hx] at h
    cases h

theorem run_map (f : α → β) (x : ExceptT ε (StateM S) α) (s : S) :
    (f <$> x).run.run s = ((x.run.run s).1.map f, (x.run.run s).2) := by
  rw [map_eq_pure_bind, run_bind]
  generalize x.run.run s = out
  obtain ⟨_ | a, t⟩ := out <;> rfl

theorem run_ofExcept (x : Except ε α) (s : S) :
    (ofExcept x : ExceptT ε (StateM S) α).run.run s = (x, s) := by
  cases x <;> rfl

theorem run_ofExcept_bind (x : Except ε α) (f : α → ExceptT ε (StateM S) β) (s : S) :
    (ofExcept x >>= f).run.run s =
      match x with
      | .ok a => (f a).run.run s
      | .error e => (.error e, s) := by
  cases x <;> rfl

/-- What follows a step and leaves the state alone does not show in the state. -/
theorem run_bind_idle {x : ExceptT ε (StateM S) α} {f : α → ExceptT ε (StateM S) β} {s : S}
    (hf : ∀ a t, ((f a).run.run t).2 = t) : ((x >>= f).run.run s).2 = (x.run.run s).2 := by
  rw [run_bind]
  generalize x.run.run s = out
  obtain ⟨_ | a, t⟩ := out
  · rfl
  · exact hf a t

theorem run_get (s : S) : (get : ExceptT ε (StateM S) S).run.run s = (.ok s, s) := rfl

theorem run_set (t s : S) : (set t : ExceptT ε (StateM S) PUnit).run.run s = (.ok ⟨⟩, t) := rfl

theorem run_modify (f : S → S) (s : S) :
    (modify f : ExceptT ε (StateM S) PUnit).run.run s = (.ok ⟨⟩, f s) := rfl

theorem run_ite {p : Prop} [Decidable p] (a : α) (e : ε) (s : S) :
    (if p then pure a else throw e : ExceptT ε (StateM S) α).run.run s =
      (if p then .ok a else .error e, s) := by
  split <;> rfl

/-- Every error that a step may fail with satisfies `P`. -/
def FailsOnly (P : ε → Prop) (x : ExceptT ε (StateM S) α) : Prop :=
  ∀ s e, (x.run.run s).1 = .error e → P e

variable {P : ε → Prop} {x : ExceptT ε (StateM S) α}

theorem FailsOnly.bind {f : α → ExceptT ε (StateM S) β} (hx : FailsOnly P x)
    (hf : ∀ a, FailsOnly P (f a)) : FailsOnly P (x >>= f) := by
  intro s e h
  cases hs : (x.run.run s).1 with
  | ok a =>
    rw [run_bind_ok hs] at h
    exact hf a _ e h
  | error d =>
    rw [run_bind_error hs] at h
    exact hx s e (hs.trans (congrArg Except.error (Except.error.inj h)))

theorem FailsOnly.map (hx : FailsOnly P x) (f : α → β) : FailsOnly P (f <$> x) := by
  intro s e h
  rw [run_map] at h
  exact hx s e (map_error_iff.mp h)

theorem failsOnly_pure (a : α) : FailsOnly P (pure a : ExceptT ε (StateM S) α) := nofun

theorem failsOnly_get : FailsOnly P (get : ExceptT ε (StateM S) S) := nofun

theorem failsOnly_set (t : S) : FailsOnly P (set t : ExceptT ε (StateM S) PUnit) := nofun

theorem failsOnly_modify (f : S → S) :
    FailsOnly P (modify f : ExceptT ε (StateM S) PUnit) := nofun

theorem failsOnly_throw {e : ε} (h : P e) :
    FailsOnly P (throw e : ExceptT ε (StateM S) α) := by
  intro s d hd
  cases hd
  exact h

theorem failsOnly_ofExcept {y : Except ε α} (h : ∀ e, y = .error e → P e) :
    FailsOnly P (ofExcept y : ExceptT ε (StateM S) α) := by
  intro s e he
  rw [run_ofExcept] at he
  exact h e he

/-- Whether it succeeds or fails, a step leads from states with `I` to states with `I`. -/
def Preserves (I : S → Prop) (x : ExceptT ε (StateM S) α) : Prop := ∀ s, I s → I (x.run.run s).2

variable {I : S → Prop}

theorem Preserves.bind {f : α → ExceptT ε (StateM S) β} (hx : Preserves I x)
    (hf : ∀ a, Preserves I (f a)) : Preserves I (x >>= f) := by
  intro s h
  have hs := hx s h
  rw [run_bind]
  generalize x.run.run s = out at hs
  obtain ⟨_ | a, t⟩ := out
  · exact hs
  · exact hf a t hs

theorem Preserves.map (hx : Preserves I x) (f : α → β) : Preserves I (f <$> x) := by
  intro s h
  rw [run_map]
  exact hx s h

theorem preserves_pure (a : α) : Preserves I (pure a : ExceptT ε (StateM S) α) := fun _ h => h

theorem preserves_throw (e : ε) : Preserves I (throw e : ExceptT ε (StateM S) α) := fun _ h => h

theorem preserves_get : Preserves I (get : ExceptT ε (StateM S) S) := fun _ h => h

theorem preserves_modify {f : S → S} (hf : ∀ s, I s → I (f s)) :
    Preserves I (modify f : ExceptT ε (StateM S) PUnit) := hf

theorem preserves_ofExcept (y : Except ε α) :
    Preserves I (ofExcept y : ExceptT ε (StateM S) α) := by
  intro s h
  rw [run_ofExcept]
  exact h

end Stateful

end AuditReport.Fallible
