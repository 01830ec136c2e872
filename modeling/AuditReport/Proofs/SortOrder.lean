import AuditReport.Proofs.AcceptedStages
import AuditReport.Proofs.DocumentFields
import AuditReport.Proofs.WordSizes
import Mathlib.Data.List.Induction
import Mathlib.Order.Compare

/-! The order of the rows. What a request asks for may name a path twice, in opposite directions even;
the sort names every path once, and orders the documents as if it had kept all that was asked for. -/

namespace AuditReport

namespace Stage

variable {D : Type*} {cmp : String → D → D → Ordering} {keys : List (String × Int)}
  {key k : String × Int} {path : String} {x y : D}

/-- Documents compared by one path, upwards or downwards, as `cmp` compares them by each path. -/
def byKey (cmp : String → D → D → Ordering) (key : String × Int) : D → D → Ordering :=
  if key.2 = 1 then cmp key.1 else fun x y => cmp key.1 y x

/-- Documents compared by the first path that tells them apart. -/
def byKeys (cmp : String → D → D → Ordering) : (keys : List (String × Int)) → D → D → Ordering
  | [] => fun _ _ => .eq
  | key :: keys => compareLex (byKey cmp key) (byKeys cmp keys)

/-- The first key of every path. -/
def firstKeys (keys : List (String × Int)) : List (String × Int) :=
  keys.foldl (fun kept k => if k.1 ∈ kept.map Prod.fst then kept else kept ++ [k]) []

/-- The last key with a path that no key before it has: those behind it repeat paths. -/
def IsLastNew (keys : List (String × Int)) (key : String × Int) : Prop :=
  ∃ before behind, keys = before ++ key :: behind ∧ key.1 ∉ before.map Prod.fst ∧
    ∀ k ∈ behind, k.1 ∈ (before ++ [key]).map Prod.fst

/-! ## Comparing by keys -/

theorem byKeys_append (keys others : List (String × Int)) :
    byKeys cmp (keys ++ others) = compareLex (byKeys cmp keys) (byKeys cmp others) := by
  induction keys with
  | nil => rfl
  | cons key keys ih =>
    funext x y
    simp only [List.cons_append, byKeys, ih, compareLex, Ordering.then_assoc]

theorem byKeys_singleton (key : String × Int) : byKeys cmp [key] = byKey cmp key := by
  funext x y
  exact Ordering.then_eq

section Preorders

variable [∀ path, Std.TransCmp (cmp path)]

instance transCmp_byKey (key : String × Int) : Std.TransCmp (byKey cmp key) := by
  unfold byKey
  split
  · infer_instance
  · exact Std.TransCmp.opposite

instance transCmp_byKeys (keys : List (String × Int)) : Std.TransCmp (byKeys cmp keys) := by
  induction keys with
  | nil => exact { eq_swap := rfl, isLE_trans := fun _ _ => rfl }
  | cons key keys ih => exact inferInstanceAs (Std.TransCmp (compareLex _ _))

theorem byKey_eq_eq : byKey cmp key x y = .eq ↔ cmp key.1 x y = .eq := by
  unfold byKey
  split
  · rfl
  · exact Std.OrientedCmp.eq_comm

/-- Documents that the keys do not tell apart agree in every path. -/
theorem byKeys_eq_eq :
    byKeys cmp keys x y = .eq ↔ ∀ path ∈ keys.map Prod.fst, cmp path x y = .eq := by
  induction keys with
  | nil => exact iff_of_true rfl (List.forall_mem_nil _)
  | cons key keys ih =>
    rw [byKeys, compareLex_eq_eq, ih, byKey_eq_eq, List.map_cons, List.forall_mem_cons]

/-- A path tells no more documents apart when it comes again, in whatever direction. -/
theorem byKeys_repeated (h : key.1 ∈ keys.map Prod.fst) :
    byKeys cmp (keys ++ [key]) = byKeys cmp keys := by
  funext x y
  rw [byKeys_append, byKeys_singleton, compareLex]
  cases hkeys : byKeys cmp keys x y with
  | eq => exact byKey_eq_eq.mpr (byKeys_eq_eq.mp hkeys _ h)
  | lt | gt => rfl

end Preorders

/-! ## The first key of every path

Keys are kept from the left, so the inductions add one at the end. -/

theorem firstKeys_concat (keys : List (String × Int)) (k : String × Int) :
    firstKeys (keys ++ [k]) = if k.1 ∈ (firstKeys keys).map Prod.fst then firstKeys keys
      else firstKeys keys ++ [k] := List.foldl_concat _ _ _ _

theorem mem_firstKeys : path ∈ (firstKeys keys).map Prod.fst ↔ path ∈ keys.map Prod.fst := by
  induction keys using List.reverseRecOn with
  | nil => rfl
  | append_singleton keys k ih =>
    rw [firstKeys_concat, List.map_append, List.mem_append, ← ih, List.map_singleton,
      List.mem_singleton]
    split
    · rename_i hk
      exact (or_iff_left_of_imp fun hpath => hpath ▸ hk).symm
    · rw [List.map_append, List.mem_append, List.map_singleton, List.mem_singleton]

theorem firstKeys_eq_nil : firstKeys keys = [] ↔ keys = [] := by
  simp only [← List.map_eq_nil_iff (f := Prod.fst), List.eq_nil_iff_forall_not_mem, mem_firstKeys]

theorem nodup_firstKeys (keys : List (String × Int)) : ((firstKeys keys).map Prod.fst).Nodup := by
  induction keys using List.reverseRecOn with
  | nil => exact List.nodup_nil
  | append_singleton keys k ih =>
    rw [firstKeys_concat]
    split
    · exact ih
    · rename_i hk
      rw [List.map_append, List.map_singleton, ← List.concat_eq_append]
      exact ih.concat hk

/-- Documents are compared by the first keys as by all. -/
theorem byKeys_firstKeys [∀ path, Std.TransCmp (cmp path)] (keys : List (String × Int)) :
    byKeys cmp (firstKeys keys) = byKeys cmp keys := by
  induction keys using List.reverseRecOn with
  | nil => rfl
  | append_singleton keys k ih =>
    rw [firstKeys_concat]
    split
    · rename_i hk
      rw [byKeys_repeated (mem_firstKeys.mp hk), ih]
    · rw [byKeys_append, byKeys_append, ih]

theorem isLastNew_concat : IsLastNew (keys ++ [k]) key ↔
    k.1 ∉ keys.map Prod.fst ∧ k = key ∨ k.1 ∈ keys.map Prod.fst ∧ IsLastNew keys key := by
  constructor
  -- Either the last new key is the one added, or it stands before that and a repeated one was added.
  · rintro ⟨before, behind, hsplit, hnew, hbehind⟩
    rcases Pipeline.split_concat hsplit with ⟨-, rfl, rfl⟩ | ⟨behind, rfl, rfl⟩
    · exact .inl ⟨hnew, rfl⟩
    · obtain ⟨hbehind, hk⟩ := List.forall_mem_append.mp hbehind
      refine .inr ⟨?_, before, behind, rfl, hnew, hbehind⟩
      have hpath := List.forall_mem_singleton.mp hk
      simp only [List.map_append, List.map_cons, List.mem_append, List.mem_cons] at hpath ⊢
      tauto
  · rintro (⟨hk, rfl⟩ | ⟨hk, before, behind, rfl, hnew, hbehind⟩)
    · exact ⟨keys, [], rfl, hk, List.forall_mem_nil _⟩
    · refine ⟨before, behind ++ [k], by simp, hnew, List.forall_mem_append.mpr
        ⟨hbehind, List.forall_mem_singleton.mpr ?_⟩⟩
      rw [← List.singleton_append, ← List.append_assoc, List.map_append, List.mem_append] at hk
      refine hk.elim id fun hk => ?_
      obtain ⟨j, hj, hpath⟩ := List.mem_map.mp hk
      exact hpath ▸ hbehind j hj

theorem getLast?_firstKeys : (firstKeys keys).getLast? = some key ↔ IsLastNew keys key := by
  induction keys using List.reverseRecOn with
  | nil => exact iff_of_false (by simp [firstKeys]) (by rintro ⟨_, _, hsplit, -⟩; simp at hsplit)
  | append_singleton keys k ih =>
    rw [isLastNew_concat, ← mem_firstKeys, firstKeys_concat]
    split
    · rename_i hk
      simp only [hk, not_true, false_and, false_or, true_and, ih]
    · rename_i hk
      simp only [hk, not_false_eq_true, true_and, false_and, or_false, List.getLast?_concat,
        Option.some_inj]

end Stage

namespace Blueprint

variable {b : Blueprint}

/-- The paths of the sortable columns among the sort keys, one for each key that has such a column. -/
def sortablePaths (b : Blueprint) (sort : List SortKey) : List (String × Int) :=
  sort.filterMap fun k => (b.catalog.column? k.column).bind fun c =>
    if c.sortable then some (c.path, direction k.ascending) else none

/-- What the rows are to be sorted by: what is asked for, or else the newest audits first. -/
def askedSort (b : Blueprint) (sort : List SortKey) : List (String × Int) :=
  if b.sortablePaths sort = [] then [(creationPath, -1)] else b.sortablePaths sort

theorem any_path {keys : List (String × Int)} {path : String} :
    keys.any (·.1 == path) = true ↔ path ∈ keys.map Prod.fst := by
  simp

theorem requestedSort_eq (b : Blueprint) (sort : List SortKey) :
    b.requestedSort sort = Stage.firstKeys (b.sortablePaths sort) := by
  unfold requestedSort Stage.firstKeys sortablePaths
  rw [List.foldl_filterMap]
  congr
  funext keys k
  cases b.catalog.column? k.column with
  | none => rfl
  | some c =>
    cases hc : c.sortable with
    | false => simp [hc]
    | true =>
      simp only [hc, Option.bind_some, if_true, Bool.true_and, ← any_path]
      cases keys.any (·.1 == c.path) <;> rfl

theorem sortKeys_eq_ite (b : Blueprint) (sort : List SortKey) :
    b.sortKeys sort =
      if (Stage.firstKeys (b.askedSort sort)).any (·.1 == "_id") then
        Stage.firstKeys (b.askedSort sort)
      else Stage.firstKeys (b.askedSort sort) ++
        [("_id", ((Stage.firstKeys (b.askedSort sort)).getLast?.map (·.2)).getD (-1))] := by
  have hkeys := requestedSort_eq b sort
  unfold sortKeys askedSort
  cases hrequested : b.requestedSort sort with
  | nil =>
    rw [hrequested, eq_comm, Stage.firstKeys_eq_nil] at hkeys
    rw [if_pos hkeys]
    rfl
  | cons key keys =>
    rw [hrequested] at hkeys
    have hsome : b.sortablePaths sort ≠ [] := by
      intro hnone
      rw [hnone] at hkeys
      cases hkeys
    rw [if_neg hsome, ← hkeys]

/-- The sort has the first key of every path, and the identity last if it is not among them. -/
theorem sortKeys_eq {sort : List SortKey} {last : String × Int}
    (h : Stage.IsLastNew (b.askedSort sort) last) :
    b.sortKeys sort = Stage.firstKeys (b.askedSort sort ++ [("_id", last.2)]) := by
  rw [sortKeys_eq_ite, Stage.firstKeys_concat, Stage.getLast?_firstKeys.mpr h]
  exact if_congr any_path rfl rfl

/-- Something is asked for, and so some path is the last new one. -/
theorem exists_isLastNew (b : Blueprint) (sort : List SortKey) :
    ∃ last, Stage.IsLastNew (b.askedSort sort) last := by
  have hne : b.askedSort sort ≠ [] := by
    unfold askedSort
    split
    · exact List.cons_ne_nil _ _
    · assumption
  have hkept := mt Stage.firstKeys_eq_nil.mp hne
  exact ⟨_, Stage.getLast?_firstKeys.mp (List.getLast?_eq_some_getLast hkept)⟩

/-- A query has one sort, by the keys of its request. -/
theorem sort_mem_build {q : ReportQuery} {extra : List String} {terminal : Stage} {p : Pipeline}
    (h : b.build q extra terminal = .ok p) {keys : List (String × Int)} :
    .sort keys ∈ p.stages ↔ keys = b.sortKeys q.sort := by
  obtain ⟨rs, pre, post, -, hpre, hpost, hstages⟩ := stages_ok (build_ok h)
  have hterminal : terminal.isTerminal = true := by
    obtain ⟨leading, last, hlast, hends, -⟩ := (Pipeline.check_ok_iff_inOrder.mp p.ordered).ending
    have hsame := congrArg List.getLast? (hstages.symm.trans hlast)
    simp only [List.getLast?_append, List.getLast?_cons_cons, List.getLast?_singleton] at hsame
    cases hsame
    exact hends
  have hnotPre : .sort keys ∉ pre := by
    obtain ⟨cs, -, ⟨-, rfl⟩ | rfl⟩ := preMatch_ok hpre <;> simp
  have hnotPost : .sort keys ∉ post := by
    obtain ⟨cs, -, ⟨-, rfl⟩ | rfl⟩ := postMatch_ok hpost <;> simp
  have hnotJoin (plan : JoinPlan) : .sort keys ∉ joinStages plan := by
    intro hmem
    rcases phase_of_mem_joinStages hmem with ⟨j, hj⟩ | ⟨name, hname⟩
    · cases hj
    · cases hname
  have hnotTerminal : .sort keys ≠ terminal := by
    rintro rfl
    cases hterminal
  simp only [hstages, List.mem_append, List.mem_cons, List.not_mem_nil, hnotPre, hnotPost, hnotJoin,
    hnotTerminal, Stage.sort.injEq, or_false, false_or]

/-- **The rows are ordered by all that is asked for.** Let documents be compared by every path, those
with different identities strictly by the identity. The sort of a request names no path twice, and the
identity among them. It orders the documents as all the sortable paths do that are asked for, repeated
ones too, the first the most significant, with ties broken by the identity in the direction of the
last new path. So documents with different identities never tie. In the form in which the store takes
the sort no key is lost and the order of the keys is kept. -/
theorem sort_keeps_asked_order {D I : Type*} (b : Blueprint) (sort : List SortKey)
    (cmp : String → D → D → Ordering) [∀ path, Std.TransCmp (cmp path)] (identity : D → I)
    (hidentity : ∀ x y, identity x ≠ identity y → cmp "_id" x y ≠ .eq) :
    ((b.sortKeys sort).map Prod.fst).Nodup ∧ "_id" ∈ (b.sortKeys sort).map Prod.fst ∧
    (∀ k ∈ b.sortKeys sort, k.2 = 1 ∨ k.2 = -1) ∧
    (∃ last, Stage.IsLastNew (b.askedSort sort) last) ∧
    (∀ last, Stage.IsLastNew (b.askedSort sort) last →
      Stage.byKeys cmp (b.sortKeys sort) =
        Stage.byKeys cmp (b.askedSort sort ++ [("_id", last.2)])) ∧
    Std.TransCmp (Stage.byKeys cmp (b.sortKeys sort)) ∧
    (∀ x y, identity x ≠ identity y → Stage.byKeys cmp (b.sortKeys sort) x y ≠ .eq) ∧
    (Stage.sort (b.sortKeys sort)).toValue =
      .object [("$sort", .object ((b.sortKeys sort).map fun k => (k.1, .int k.2)))] ∧
    ∀ q extra terminal p, q.sort = sort → b.build q extra terminal = .ok p →
      ∀ keys, .sort keys ∈ p.stages ↔ keys = b.sortKeys sort := by
  obtain ⟨last, hlast⟩ := b.exists_isLastNew sort
  have hkeys := sortKeys_eq hlast
  have hnodup : ((b.sortKeys sort).map Prod.fst).Nodup := hkeys ▸ Stage.nodup_firstKeys _
  have hmem : "_id" ∈ (b.sortKeys sort).map Prod.fst := by
    rw [hkeys, Stage.mem_firstKeys]
    simp
  refine ⟨hnodup, hmem, b.sortKeys_directions sort, ⟨last, hlast⟩, fun last hlast => ?_,
    inferInstance, fun x y hxy htie => ?_, ?_, ?_⟩
  · rw [sortKeys_eq hlast, Stage.byKeys_firstKeys]
  · exact hidentity x y hxy (Stage.byKeys_eq_eq.mp htie _ hmem)
  · rw [Stage.toValue, Document.ofPairs_of_nodup (by rwa [List.map_map])]
  · rintro q extra terminal p rfl hp keys
    exact sort_mem_build hp

/-- The start date upwards and later downwards, and between the two the end date and a column that is
not sortable. -/
def datesTwice : List SortKey :=
  [⟨"startDate", true⟩, ⟨"auditId", true⟩, ⟨"endDate", false⟩, ⟨"startDate", false⟩]

/-- Pairs of an identity and a date. -/
def compareDated (path : String) : Nat × Nat → Nat × Nat → Ordering :=
  if path = "_id" then compareOn Prod.fst else compareOn Prod.snd

instance transCmp_compareDated (path : String) : Std.TransCmp (compareDated path) := by
  unfold compareDated
  split <;> infer_instance

/-- Pairs of one date, sorted by a date that is asked for twice. -/
theorem sort_keeps_asked_order_dates_twice :
    (∀ x y : Nat × Nat, x.1 ≠ y.1 → compareDated "_id" x y ≠ .eq) ∧
      Stage.byKeys compareDated (Audit.blueprint.sortKeys datesTwice) =
        Stage.byKeys compareDated
          [("start_date", 1), ("end_date", -1), ("start_date", -1), ("_id", -1)] ∧
      Stage.byKeys compareDated (Audit.blueprint.sortKeys datesTwice) (1, 2) (2, 2) ≠ .eq := by
  have hstrict : ∀ x y : Nat × Nat, x.1 ≠ y.1 → compareDated "_id" x y ≠ .eq := by
    intro x y hxy heq
    exact hxy (Nat.compare_eq_eq.mp heq)
  have hlast : Stage.IsLastNew (Audit.blueprint.askedSort datesTwice) ("end_date", -1) :=
    ⟨[("start_date", 1)], [("start_date", -1)], by decide, by decide, by decide⟩
  obtain ⟨-, -, -, -, horder, -, hties, -⟩ :=
    sort_keeps_asked_order Audit.blueprint datesTwice compareDated Prod.fst hstrict
  exact ⟨hstrict, horder _ hlast, hties _ _ (by decide)⟩

end Blueprint

end AuditReport
