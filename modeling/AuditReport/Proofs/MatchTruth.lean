import AuditReport.Condition
import AuditReport.Proofs.DocumentFields

/-! The truth of match objects. Each clause has a truth value of its own, an object holds when all
its clauses do, and a list under `$and` when all its members do. Whatever the values are, merged
conditions hold exactly when each of them does. -/

namespace AuditReport.Condition

mutual

/-- All clauses of a match object hold. -/
def Holds (truth : String → Value → Prop) : List (String × Value) → Prop
  | [] => True
  | (name, v) :: rest => ClauseHolds truth name v ∧ Holds truth rest

/-- A clause has its own truth value, and under `$and` that of all its members. An `$or` is a clause
like any other, so what is proved for all truth values holds for any reading of it. -/
def ClauseHolds (truth : String → Value → Prop) (name : String) : Value → Prop
  | .list members =>
    if name = "$and" then MembersHold truth members else truth name (.list members)
  | v => if name = "$and" then False else truth name v

/-- All members of a list are match objects that hold. -/
def MembersHold (truth : String → Value → Prop) : List Value → Prop
  | [] => True
  | .object fields :: rest => Holds truth fields ∧ MembersHold truth rest
  | _ :: _ => False

end

variable {truth : String → Value → Prop}

theorem holds_append {c d : Document} : Holds truth (c ++ d) ↔ Holds truth c ∧ Holds truth d := by
  induction c with
  | nil => simp [Holds]
  | cons f c ih => simp only [List.cons_append, Holds, ih, and_assoc]

theorem holds_flatten {cs : List Document} : Holds truth cs.flatten ↔ ∀ c ∈ cs, Holds truth c := by
  induction cs with
  | nil => simp [Holds]
  | cons c cs ih => rw [List.flatten_cons, holds_append, ih, List.forall_mem_cons]

theorem membersHold_map {cs : List Document} :
    MembersHold truth (cs.map .object) ↔ ∀ c ∈ cs, Holds truth c := by
  induction cs with
  | nil => simp [MembersHold]
  | cons c cs ih => rw [List.map_cons, MembersHold, ih, List.forall_mem_cons]

theorem holds_and {cs : List Document} :
    Holds truth [("$and", .list (cs.map .object))] ↔ ∀ c ∈ cs, Holds truth c := by
  simp only [Holds, ClauseHolds, if_true, and_true]
  exact membersHold_map

/-! ## Merged conditions -/

theorem mergeDisjoint?_eq {d m : Document} {cs : List Document}
    (hn : ∀ c ∈ cs, (c.map Prod.fst).Nodup) (h : mergeDisjoint? d cs = some m) :
    m = d ++ cs.flatten := by
  induction cs generalizing d with
  | nil => simpa [mergeDisjoint?, eq_comm] using h
  | cons c cs ih =>
    obtain ⟨hc, hn⟩ := List.forall_mem_cons.mp hn
    simp only [mergeDisjoint?] at h
    split at h
    · cases h
    · rename_i ho
      rw [Document.foldl_put hc (by simpa [overlap] using ho)] at h
      rw [ih hn h, List.flatten_cons, List.append_assoc]

/-- Merged conditions are their clauses together, or a list of them under `$and`. -/
theorem merge_cases {cs : List Document} (hn : ∀ c ∈ cs, (c.map Prod.fst).Nodup) :
    merge cs = cs.flatten ∨ merge cs = [("$and", .list (cs.map .object))] := by
  unfold merge
  cases h : mergeDisjoint? [] cs with
  | none => exact .inr rfl
  | some m => exact .inl (by simpa using mergeDisjoint?_eq hn h)

/-- **Merging changes no truth.** Nothing is lost or overwritten, whether or not two conditions
share a field. -/
theorem holds_merge {cs : List Document} (hn : ∀ c ∈ cs, (c.map Prod.fst).Nodup) :
    Holds truth (merge cs) ↔ ∀ c ∈ cs, Holds truth c := by
  rcases merge_cases hn with h | h
  · rw [h, holds_flatten]
  · rw [h, holds_and]

/-! ## Reading the conditions back -/

/-- The conditions that a match object asks for: the members of an `$and`, or its clauses. -/
def conjuncts : Document → List Document
  | [(name, .list members)] =>
    if name = "$and" then members.map Value.fields else [[(name, .list members)]]
  | d => d.map ([·])

/-- A condition of one clause that is no list of conditions. -/
def IsClause (c : Document) : Prop := ∃ name v, name ≠ "$and" ∧ c = [(name, v)]

theorem IsClause.nodup {c : Document} (h : IsClause c) : (c.map Prod.fst).Nodup := by
  obtain ⟨name, v, -, rfl⟩ := h
  simp

theorem conjuncts_eq_map {d : Document} (h : ∀ f ∈ d, f.1 ≠ "$and") :
    conjuncts d = d.map ([·]) := by
  unfold conjuncts
  split
  · rename_i name members
    rw [if_neg (h (name, .list members) (by simp))]
    rfl
  · rfl

/-- The merged conditions can be told from the match object, each once and in order. -/
theorem conjuncts_merge {cs : List Document} (h : ∀ c ∈ cs, IsClause c) :
    conjuncts (merge cs) = cs := by
  rcases merge_cases fun c hc => (h c hc).nodup with hm | hm
  · rw [hm, conjuncts_eq_map]
    · clear hm
      induction cs with
      | nil => rfl
      | cons c cs ih =>
        obtain ⟨⟨name, v, -, rfl⟩, hs⟩ := List.forall_mem_cons.mp h
        rw [List.flatten_cons, List.map_append, ih hs]
        rfl
    · intro f hf
      obtain ⟨c, hc, hfc⟩ := List.mem_flatten.mp hf
      obtain ⟨name, v, hname, rfl⟩ := h c hc
      rw [List.mem_singleton.mp hfc]
      exact hname
  · rw [hm]
    simp only [conjuncts, if_true, List.map_map]
    exact List.map_id cs

end AuditReport.Condition
