import AuditReport.Pipeline.Basic

/-! The order of stages. A query is made of stages exactly when they pass the check, and the check
does not depend on which terminal stage ends them. Stages are checked one after the other, and each
kind of stage moves the check on in its own way. -/

namespace AuditReport

namespace Pipeline

theorem of_ok {stages : List Stage} {p : Pipeline} (h : Pipeline.of stages = .ok p) :
    p.stages = stages := by
  unfold Pipeline.of at h
  split at h
  · cases h; rfl
  · cases h

theorem of_eq_ok {stages : List Stage} (h : check stages = .ok ()) :
    Pipeline.of stages = .ok ⟨stages, h⟩ := by
  unfold Pipeline.of
  split
  · rfl
  · rename_i e he
    cases h.symm.trans he

theorem of_eq_error {stages : List Stage} {e : OrderError} (h : check stages = .error e) :
    Pipeline.of stages = .error e := by
  unfold Pipeline.of
  split
  · rename_i hok
    cases h.symm.trans hok
  · rename_i e' he
    exact congrArg _ (Except.error.inj (he.symm.trans h))

/-! ## The terminal stage -/

theorem phase_le {s t : Stage} (h : t.isTerminal = true) : s.phase ≤ t.phase := by
  cases t <;> cases h <;> cases s <;> simp [Stage.phase]

/-- A step goes to the phase of its stage. -/
theorem step_phase {p r : Progress} {isLast : Bool} {s : Stage} (h : p.step isLast s = .ok r) :
    r.phase = s.phase := by
  unfold Progress.step at h
  split at h
  · cases h
  · cases s with grind

theorem step_terminal {p : Progress} {t : Stage} (ht : t.isTerminal = true)
    (hp : p.phase ≤ t.phase) :
    p.step true t = .ok { p with index := p.index + 1, phase := t.phase } := by
  unfold Progress.step
  rw [if_neg (Nat.not_lt.mpr hp)]
  cases t <;> cases ht <;> rfl

/-- Whether stages are in order, and what is wrong with them if not, does not depend on which of the
terminal stages ends them. -/
theorem checkFrom_terminal {p : Progress} {stages : List Stage} {s t : Stage}
    (hs : s.isTerminal = true) (ht : t.isTerminal = true) (hps : p.phase ≤ s.phase)
    (hpt : p.phase ≤ t.phase) : checkFrom p (stages ++ [s]) = checkFrom p (stages ++ [t]) := by
  induction stages generalizing p with
  | nil =>
    simp only [List.nil_append, checkFrom, step_terminal hs hps, step_terminal ht hpt, hs, ht]
    rfl
  | cons x xs ih =>
    -- More stages follow the first one, whichever ends them.
    have hcons : ∀ u : Stage, checkFrom p (x :: xs ++ [u]) =
        p.step false x >>= fun r => checkFrom r (xs ++ [u]) := by
      intro u
      cases xs <;> rfl
    rw [hcons, hcons]
    cases hx : p.step false x with
    | error e => rfl
    | ok r => exact ih (step_phase hx ▸ phase_le hs) (step_phase hx ▸ phase_le ht)

/-! ## One stage after the other -/

/-- Takes stages into account of which none is the last. -/
def advance (p : Progress) (stages : List Stage) : Except OrderError Progress :=
  stages.foldlM (fun p s => p.step false s) p

variable {p : Progress}

theorem advance_append (xs ys : List Stage) :
    advance p (xs ++ ys) = advance p xs >>= fun q => advance q ys := by
  unfold advance
  rw [List.foldlM_append]

theorem advance_cons (s : Stage) (xs : List Stage) :
    advance p (s :: xs) = p.step false s >>= fun q => advance q xs := rfl

/-- Stages pass the check if the first ones can be gone through and the others pass it from there. -/
theorem checkFrom_append (xs : List Stage) {ys : List Stage} (hys : ys ≠ []) :
    checkFrom p (xs ++ ys) = advance p xs >>= fun q => checkFrom q ys := by
  induction xs generalizing p with
  | nil => rfl
  | cons x xs ih =>
    have hcons : checkFrom p (x :: xs ++ ys) =
        p.step false x >>= fun q => checkFrom q (xs ++ ys) := by
      cases xs with
      | nil => cases ys <;> trivial
      | cons => rfl
    rw [hcons, advance_cons, bind_assoc]
    simp only [ih]

/-- A match or a sort only moves the check on. -/
theorem step_plain {s : Stage} (hs : s.phase ≠ 1) (ht : s.isTerminal = false)
    (hp : p.phase ≤ s.phase) :
    p.step false s = .ok { p with index := p.index + 1, phase := s.phase } := by
  unfold Progress.step
  rw [if_neg (Nat.not_lt.mpr hp)]
  cases s with
  | preMatch => rfl
  | postMatch => rfl
  | sort => rfl
  | join => exact absurd rfl hs
  | unwind => exact absurd rfl hs
  | project => cases ht
  | facet => cases ht

theorem step_join {j : Join} (hp : p.phase ≤ 1) (hj : j.name ∉ p.joined)
    (hd : ∀ name, j.dependency? = some name → name ∈ p.unwound) :
    p.step false (.join j) = .ok ⟨p.index + 1, 1, j.name :: p.joined, p.unwound⟩ := by
  have hphase : ¬(Stage.join j).phase < p.phase := Nat.not_lt.mpr hp
  unfold Progress.step
  rw [if_neg hphase]
  dsimp only
  rw [if_neg (by simpa using hj)]
  cases h : j.dependency? with
  | none => rfl
  | some name => simp [hd name h, Stage.phase]

theorem step_join_early {j : Join} {name : String} (hp : p.phase ≤ 1) (hj : j.name ∉ p.joined)
    (hd : j.dependency? = some name) (hu : name ∉ p.unwound) :
    p.step false (.join j) = .error (.dependencyNotReady j.name name) := by
  have hphase : ¬(Stage.join j).phase < p.phase := Nat.not_lt.mpr hp
  unfold Progress.step
  rw [if_neg hphase]
  dsimp only
  rw [if_neg (by simpa using hj), hd]
  simp [hu]

theorem step_unwind {name : String} (hp : p.phase ≤ 1) (hj : name ∈ p.joined)
    (hu : name ∉ p.unwound) :
    p.step false (.unwind name) = .ok ⟨p.index + 1, 1, p.joined, name :: p.unwound⟩ := by
  have hphase : ¬(Stage.unwind name).phase < p.phase := Nat.not_lt.mpr hp
  unfold Progress.step
  rw [if_neg hphase]
  simp [hj, hu, Stage.phase]

end Pipeline

end AuditReport
