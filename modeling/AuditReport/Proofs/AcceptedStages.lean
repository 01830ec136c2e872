import AuditReport.Proofs.JoinOrder

/-! Which sequences of stages are queries. The check goes through the stages once and remembers the
phase, the joins and the unwinds so far. What it accepts is told first stage by stage, by what stands
before each of them, and then of the sequence as a whole. -/

namespace AuditReport

namespace Pipeline

/-- The names that some stages join, in order. -/
def joinedNames (stages : List Stage) : List String := (stages.filterMap Stage.join?).map Join.name

/-- The names that some stages unwind, in order. -/
def unwoundNames (stages : List Stage) : List String := stages.filterMap Stage.unwound?

/-- Stages in an order that the store can evaluate: phases never decrease, the last stage and no other
is terminal, nothing is joined or unwound twice, what is unwound was joined before, and the document
that the field of a join leads into was unwound before. -/
structure InOrder (stages : List Stage) : Prop where
  phases : stages.Pairwise fun s t => s.phase ≤ t.phase
  ending : ∃ leading last, stages = leading ++ [last] ∧ last.isTerminal = true ∧
    ∀ s ∈ leading, s.isTerminal = false
  joinedOnce : (joinedNames stages).Nodup
  unwoundOnce : (unwoundNames stages).Nodup
  joinedBefore : ∀ before name after, stages = before ++ .unwind name :: after →
    ∃ j, .join j ∈ before ∧ j.name = name
  unwoundBefore : ∀ before j after, stages = before ++ .join j :: after →
    ∀ name, pathJoin? j.localField = some name → .unwind name ∈ before

/-! ## One stage -/

variable {p q : Progress} {s : Stage} {done : List Stage}

/-- What the check remembers once it has taken a stage. -/
def Progress.after (p : Progress) (s : Stage) : Progress :=
  ⟨p.index + 1, s.phase, joinedNames [s] ++ p.joined, unwoundNames [s] ++ p.unwound⟩

theorem after_join (j : Join) :
    p.after (.join j) = ⟨p.index + 1, 1, j.name :: p.joined, p.unwound⟩ := rfl

theorem after_unwind (name : String) :
    p.after (.unwind name) = ⟨p.index + 1, 1, p.joined, name :: p.unwound⟩ := rfl

theorem after_plain (h : s.phase ≠ 1) :
    p.after s = ⟨p.index + 1, s.phase, p.joined, p.unwound⟩ := by
  cases s with
  | join | unwind => exact absurd rfl h
  | _ => rfl

/-- The stages that the check takes, and what it remembers of them. -/
theorem step_ok_iff {isLast : Bool} : p.step isLast s = .ok q ↔ p.phase ≤ s.phase ∧
    (∀ j, s = .join j → j.name ∉ p.joined ∧ ∀ name, j.dependency? = some name → name ∈ p.unwound) ∧
    (∀ name, s = .unwind name → name ∈ p.joined ∧ name ∉ p.unwound) ∧
    (s.isTerminal = true → isLast = true) ∧ p.after s = q := by
  unfold Progress.step
  split
  · next hphase => simp [Nat.not_le.mpr hphase]
  · next hphase =>
    rw [Nat.not_lt] at hphase
    cases s with
    | join j =>
      by_cases hj : j.name ∈ p.joined
      · simp [hj]
      · cases hd : j.dependency? with
        | none => simp_all [after_join, Stage.isTerminal, Stage.phase]
        | some name =>
          by_cases hu : name ∈ p.unwound
          · simp_all [after_join, Stage.isTerminal, Stage.phase]
          · simp [hj, hd, hu]
    | unwind name =>
      by_cases hj : name ∈ p.joined
      · by_cases hu : name ∈ p.unwound
        · simp [hj, hu]
        · simp_all [after_unwind, Stage.isTerminal, Stage.phase]
      · simp [hj]
    | _ =>
      rw [after_plain (by simp [Stage.phase])]
      cases isLast <;> simp [hphase, Stage.isTerminal]

/-- What the check remembers is so: `done` are the stages that it has taken. -/
structure Progress.Recalls (p : Progress) (done : List Stage) : Prop where
  phase : ∀ n, p.phase ≤ n ↔ ∀ s ∈ done, s.phase ≤ n
  joined : ∀ name, name ∈ p.joined ↔ name ∈ joinedNames done
  unwound : ∀ name, name ∈ p.unwound ↔ name ∈ unwoundNames done

/-- A stage may stand between those before it and those behind it. -/
structure Placed (before : List Stage) (s : Stage) (after : List Stage) : Prop where
  phase : ∀ t ∈ before, t.phase ≤ s.phase
  join : ∀ j, s = .join j → j.name ∉ joinedNames before ∧
    ∀ name, j.dependency? = some name → name ∈ unwoundNames before
  unwind : ∀ name, s = .unwind name → name ∈ joinedNames before ∧ name ∉ unwoundNames before
  terminal : s.isTerminal = true ↔ after = []

theorem joinedNames_append (xs ys : List Stage) :
    joinedNames (xs ++ ys) = joinedNames xs ++ joinedNames ys := by
  simp [joinedNames]

theorem unwoundNames_append (xs ys : List Stage) :
    unwoundNames (xs ++ ys) = unwoundNames xs ++ unwoundNames ys := List.filterMap_append

theorem recalls_start : Progress.start.Recalls [] where
  phase n := by simp [Progress.start]
  joined name := Iff.rfl
  unwound name := Iff.rfl

theorem Progress.Recalls.after (h : p.Recalls done) (hs : p.phase ≤ s.phase) :
    (p.after s).Recalls (done ++ [s]) where
  phase n := by
    rw [List.forall_mem_append, List.forall_mem_singleton]
    exact ⟨fun hn => ⟨(h.phase n).mp (Nat.le_trans hs hn), hn⟩, And.right⟩
  joined name := by
    rw [joinedNames_append, List.mem_append, ← h.joined, or_comm]
    exact List.mem_append
  unwound name := by
    rw [unwoundNames_append, List.mem_append, ← h.unwound, or_comm]
    exact List.mem_append

/-- The check takes a stage just if it is placed rightly; terminal stages are asked for apart. -/
theorem Progress.Recalls.step_ok_iff (h : p.Recalls done) {after : List Stage} :
    ((∃ q, p.step after.isEmpty s = .ok q) ∧ (after = [] → s.isTerminal = true)) ↔
      Placed done s after := by
  simp only [Pipeline.step_ok_iff, h.phase, h.joined, h.unwound, exists_and_left, exists_eq',
    and_true, List.isEmpty_iff]
  constructor
  · rintro ⟨⟨hphase, hjoin, hunwind, hlast⟩, hterminal⟩
    exact ⟨hphase, hjoin, hunwind, hlast, hterminal⟩
  · rintro ⟨hphase, hjoin, hunwind, hlast, hterminal⟩
    exact ⟨⟨hphase, hjoin, hunwind, hlast⟩, hterminal⟩

/-! ## All stages -/

section Splits

variable {α : Type} {x : α} {xs : List α}

/-- What holds at every place of a list holds at its first place and at every place of the rest. -/
theorem forall_split_cons {P : List α → α → List α → Prop} :
    (∀ before y after, x :: xs = before ++ y :: after → P before y after) ↔
      P [] x xs ∧ ∀ before y after, xs = before ++ y :: after → P (x :: before) y after := by
  constructor
  · intro h
    exact ⟨h [] x xs rfl, fun before y after hxs => h (x :: before) y after (congrArg (x :: ·) hxs)⟩
  · rintro ⟨hfirst, hrest⟩ before y after hxs
    cases before with
    | nil =>
      obtain ⟨rfl, rfl⟩ := List.cons.inj hxs
      exact hfirst
    | cons z before =>
      obtain ⟨rfl, hsplit⟩ := List.cons.inj hxs
      exact hrest before y after hsplit

/-- A place of a longer list is the new end or a place that was there before. -/
theorem split_concat {before after : List α} {y : α} (h : xs ++ [x] = before ++ y :: after) :
    (after = [] ∧ before = xs ∧ y = x) ∨ ∃ rest, after = rest ++ [x] ∧ xs = before ++ y :: rest := by
  rcases List.eq_nil_or_concat' after with rfl | ⟨rest, z, rfl⟩
  · obtain ⟨rfl, hlast⟩ := List.append_inj' h rfl
    exact .inl ⟨rfl, rfl, (List.singleton_inj.mp hlast).symm⟩
  · rw [← List.cons_append, ← List.append_assoc] at h
    obtain ⟨rfl, hlast⟩ := List.append_inj' h rfl
    exact .inr ⟨rest, by rw [hlast], rfl⟩

theorem pairwise_iff_split {R : α → α → Prop} :
    xs.Pairwise R ↔ ∀ before y after, xs = before ++ y :: after → ∀ x ∈ before, R x y := by
  induction xs with
  | nil => simp
  | cons x xs ih =>
    rw [List.pairwise_cons, forall_split_cons, ih]
    simp only [List.forall_mem_cons]
    constructor
    · rintro ⟨hx, hxs⟩
      refine ⟨List.forall_mem_nil _, ?_⟩
      rintro before y after rfl
      exact ⟨hx y (by simp), hxs before y after rfl⟩
    · rintro ⟨-, h⟩
      refine ⟨fun y hy => ?_, fun before y after hsplit => (h before y after hsplit).2⟩
      obtain ⟨before, after, hsplit⟩ := List.append_of_mem hy
      exact (h before y after hsplit).1

/-- Nothing is chosen twice just if no member gives what an earlier one has given. -/
theorem nodup_filterMap_iff_split {β : Type} {f : α → Option β} :
    (xs.filterMap f).Nodup ↔ ∀ before y after, xs = before ++ y :: after →
      ∀ b, f y = some b → b ∉ before.filterMap f := by
  rw [List.Nodup, List.pairwise_filterMap, pairwise_iff_split]
  simp only [List.mem_filterMap]
  constructor
  · rintro h before y after hsplit b hb ⟨x, hx, hxb⟩
    exact h before y after hsplit x hx b hxb b hb rfl
  · rintro h before y after hsplit x hx b hb _ hy rfl
    exact h before y after hsplit b hy ⟨x, hx, hb⟩

/-- A list whose last member and no other has a property. -/
theorem ending_iff_split (xs : List α) (P : α → Prop) :
    (∃ leading last, xs = leading ++ [last] ∧ P last ∧ ∀ y ∈ leading, ¬P y) ↔
      xs ≠ [] ∧ ∀ before y after, xs = before ++ y :: after → (P y ↔ after = []) := by
  constructor
  · rintro ⟨leading, last, rfl, hlast, hleading⟩
    refine ⟨by simp, fun before y after hsplit => ?_⟩
    rcases split_concat hsplit with ⟨rfl, -, rfl⟩ | ⟨rest, rfl, rfl⟩
    · exact iff_of_true hlast rfl
    · exact iff_of_false (hleading y (by simp)) (by simp)
  · rintro ⟨hne, h⟩
    obtain ⟨leading, last, rfl⟩ := (List.eq_nil_or_concat' xs).resolve_left hne
    refine ⟨leading, last, rfl, (h leading last [] rfl).mpr rfl, fun y hy hP => ?_⟩
    obtain ⟨before, after, rfl⟩ := List.append_of_mem hy
    have hafter := (h before y (after ++ [last]) (by simp)).mp hP
    simp at hafter

end Splits

theorem checkFrom_cons_ok_iff {rest : List Stage} :
    checkFrom p (s :: rest) = .ok () ↔ ∃ q, p.step rest.isEmpty s = .ok q ∧
      (rest = [] → s.isTerminal = true) ∧ (rest ≠ [] → checkFrom q rest = .ok ()) := by
  cases rest with
  | nil =>
    show (p.step true s >>= fun _ => if s.isTerminal then .ok () else .error .noTerminal) = _ ↔ _
    rw [Fallible.bind_ok_iff]
    simp
  | cons t rest =>
    show (p.step false s >>= fun q => checkFrom q (t :: rest)) = _ ↔ _
    rw [Fallible.bind_ok_iff]
    simp

/-- The check accepts the stages that follow on `done` just if each one is placed rightly. -/
theorem checkFrom_ok_iff {rest : List Stage} (h : p.Recalls done) :
    checkFrom p rest = .ok () ↔ rest ≠ [] ∧ ∀ before s after, rest = before ++ s :: after →
      Placed (done ++ before) s after := by
  induction rest generalizing done p with
  | nil => exact ⟨nofun, fun h => absurd rfl h.1⟩
  | cons s rest ih =>
    rw [checkFrom_cons_ok_iff, forall_split_cons, List.append_nil]
    constructor
    · rintro ⟨q, hq, hterminal, hrest⟩
      obtain ⟨hphase, -, -, -, rfl⟩ := Pipeline.step_ok_iff.mp hq
      refine ⟨List.cons_ne_nil s rest, h.step_ok_iff.mp ⟨⟨_, hq⟩, hterminal⟩, ?_⟩
      rintro before t after rfl
      have hplaced := ((ih (h.after hphase)).mp (hrest (by simp))).2 before t after rfl
      rwa [List.append_assoc] at hplaced
    · rintro ⟨-, hfirst, hplaced⟩
      obtain ⟨⟨q, hq⟩, hterminal⟩ := h.step_ok_iff.mpr hfirst
      obtain ⟨hphase, -, -, -, rfl⟩ := Pipeline.step_ok_iff.mp hq
      refine ⟨_, hq, hterminal, fun hne => (ih (h.after hphase)).mpr ⟨hne, ?_⟩⟩
      intro before t after hsplit
      rw [List.append_assoc]
      exact hplaced before t after hsplit

theorem mem_joinedNames {stages : List Stage} {name : String} :
    name ∈ joinedNames stages ↔ ∃ j, .join j ∈ stages ∧ j.name = name := by
  simp only [joinedNames, List.mem_map, List.mem_filterMap]
  constructor
  · rintro ⟨j, ⟨s, hs, hj⟩, hname⟩
    cases s <;> cases hj
    exact ⟨j, hs, hname⟩
  · rintro ⟨j, hj, hname⟩
    exact ⟨j, ⟨_, hj, rfl⟩, hname⟩

theorem mem_unwoundNames {stages : List Stage} {name : String} :
    name ∈ unwoundNames stages ↔ .unwind name ∈ stages := by
  simp only [unwoundNames, List.mem_filterMap]
  constructor
  · rintro ⟨s, hs, hname⟩
    cases s <;> cases hname
    exact hs
  · intro h
    exact ⟨_, h, rfl⟩

theorem nodup_joinedNames_iff {stages : List Stage} : (joinedNames stages).Nodup ↔
    ∀ before s after, stages = before ++ s :: after → ∀ j, s = .join j →
      j.name ∉ joinedNames before := by
  simp only [joinedNames, List.map_filterMap, nodup_filterMap_iff_split]
  constructor
  · rintro h before _ after hsplit j rfl
    exact h before _ after hsplit j.name rfl
  · intro h before s after hsplit name hname
    cases s <;> cases hname
    exact h before _ after hsplit _ rfl

theorem nodup_unwoundNames_iff {stages : List Stage} : (unwoundNames stages).Nodup ↔
    ∀ before s after, stages = before ++ s :: after → ∀ name, s = .unwind name →
      name ∉ unwoundNames before := by
  rw [unwoundNames, nodup_filterMap_iff_split]
  constructor
  · rintro h before _ after hsplit name rfl
    exact h before _ after hsplit name rfl
  · intro h before s after hsplit name hname
    cases s <;> cases hname
    exact h before _ after hsplit _ rfl

/-- Stages are in order just if there are any and each one is placed rightly. -/
theorem inOrder_iff_placed {stages : List Stage} :
    InOrder stages ↔ stages ≠ [] ∧ ∀ before s after, stages = before ++ s :: after →
      Placed before s after := by
  have hending := ending_iff_split stages fun s => s.isTerminal = true
  simp only [Bool.not_eq_true] at hending
  constructor
  · intro h
    obtain ⟨hne, hlast⟩ := hending.mp h.ending
    refine ⟨hne, fun before s after hsplit => ?_⟩
    refine ⟨pairwise_iff_split.mp h.phases before s after hsplit, ?_, ?_,
      hlast before s after hsplit⟩
    · rintro j rfl
      exact ⟨nodup_joinedNames_iff.mp h.joinedOnce before _ after hsplit j rfl,
        fun name hd => mem_unwoundNames.mpr (h.unwoundBefore before j after hsplit name hd)⟩
    · rintro name rfl
      exact ⟨mem_joinedNames.mpr (h.joinedBefore before name after hsplit),
        nodup_unwoundNames_iff.mp h.unwoundOnce before _ after hsplit name rfl⟩
  · rintro ⟨hne, h⟩
    exact {
      phases := pairwise_iff_split.mpr fun before s after hsplit => (h before s after hsplit).phase
      ending := hending.mpr ⟨hne, fun before s after hsplit => (h before s after hsplit).terminal⟩
      joinedOnce := nodup_joinedNames_iff.mpr fun before s after hsplit j hj =>
        ((h before s after hsplit).join j hj).1
      unwoundOnce := nodup_unwoundNames_iff.mpr fun before s after hsplit name hname =>
        ((h before s after hsplit).unwind name hname).2
      joinedBefore := fun before name after hsplit =>
        mem_joinedNames.mp ((h before _ after hsplit).unwind name rfl).1
      unwoundBefore := fun before j after hsplit name hd =>
        mem_unwoundNames.mp (((h before _ after hsplit).join j rfl).2 name hd) }

/-- **The check accepts just the stages that are in order.** -/
theorem check_ok_iff_inOrder {stages : List Stage} : check stages = .ok () ↔ InOrder stages := by
  rw [inOrder_iff_placed]
  exact checkFrom_ok_iff recalls_start

/-- Joins and unwinds come before any stage of a later phase. -/
theorem InOrder.none_joins_after {stages before after : List Stage} (h : InOrder stages)
    (hsplit : stages = before ++ s :: after) (hs : 1 < s.phase) :
    ∀ t ∈ after, t.join? = none ∧ t.unwound? = none := by
  have hphases := h.phases
  rw [hsplit] at hphases
  intro t ht
  have hle := (List.pairwise_cons.mp (List.pairwise_append.mp hphases).2.1).1 t ht
  have hlt : 1 < t.phase := Nat.lt_of_lt_of_le hs hle
  cases t with
  | join | unwind => exact absurd hlt (by simp [Stage.phase])
  | _ => exact ⟨rfl, rfl⟩

/-- **Stages make a query just if they are in order**; all other sequences are refused with an order
error. So a join in a query reads only documents that were unwound before, and behind a match of joined
fields, a sort or a terminal stage nothing is joined or unwound. -/
theorem query_iff_inOrder (stages : List Stage) :
    ((∃ p, Pipeline.of stages = .ok p) ↔ InOrder stages) ∧
    (¬InOrder stages → ∃ e, Pipeline.of stages = .error e) ∧
    ∀ p, Pipeline.of stages = .ok p → p.stages = stages ∧
      ∀ before s after, stages = before ++ s :: after →
        (∀ j name, s = .join j → pathJoin? j.localField = some name → .unwind name ∈ before) ∧
        ((∃ cs, s = .postMatch cs) ∨ (∃ keys, s = .sort keys) ∨ s.isTerminal = true →
          ∀ t ∈ after, t.join? = none ∧ t.unwound? = none) := by
  have haccepted : ∀ {p}, Pipeline.of stages = .ok p → InOrder stages := fun {p} hp =>
    of_ok hp ▸ check_ok_iff_inOrder.mp p.ordered
  refine ⟨⟨fun ⟨p, hp⟩ => haccepted hp, fun h => ?_⟩, fun h => ?_, fun p hp => ⟨of_ok hp, ?_⟩⟩
  · exact ⟨_, of_eq_ok (check_ok_iff_inOrder.mpr h)⟩
  · cases hcheck : check stages with
    | ok => exact absurd (check_ok_iff_inOrder.mp hcheck) h
    | error e => exact ⟨e, of_eq_error hcheck⟩
  · intro before s after hsplit
    constructor
    · rintro j name rfl hread
      exact (haccepted hp).unwoundBefore before j after hsplit name hread
    · intro hkind
      refine (haccepted hp).none_joins_after hsplit ?_
      rcases hkind with ⟨cs, rfl⟩ | ⟨keys, rfl⟩ | hterminal
      · exact Nat.lt_succ_self 1
      · exact (by decide : 1 < 3)
      · exact Nat.lt_of_lt_of_le (by decide : 1 < 3) (phase_le (s := .sort []) hterminal)

end Pipeline

end AuditReport
