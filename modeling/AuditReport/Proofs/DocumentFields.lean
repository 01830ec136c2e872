import AuditReport.Value
import Mathlib.Data.List.Nodup

/-! The fields of documents: what a look-up finds after an assignment, and what repeated assignments
leave. -/

namespace AuditReport

namespace Document

variable {d : Document} {name other : String} {v : Value}

/-- The document without a field. -/
def without (d : Document) (name : String) : Document := d.filter (·.1 != name)

theorem get?_cons {field : String × Value} :
    get? (field :: d) name = if field.1 = name then some field.2 else get? d name := by
  unfold get?
  rw [List.find?_cons]
  split <;> simp_all

theorem get?_without :
    (d.without name).get? other = if name = other then none else d.get? other := by
  induction d with
  | nil => exact (ite_self _).symm
  | cons field rest ih =>
    unfold without at ih ⊢
    by_cases hname : field.1 = name
    · rw [List.filter_cons_of_neg (by simp [hname]), ih, get?_cons, hname]
      split <;> rfl
    · rw [List.filter_cons_of_pos (by simp [hname]), get?_cons, ih, get?_cons]
      split
      · rename_i hfield
        rw [if_neg fun hother => hname (hfield.trans hother.symm)]
      · rfl

theorem get?_append (d e : Document) (name : String) :
    get? (d ++ e) name = (d.get? name).or (e.get? name) := by
  unfold get?
  rw [List.find?_append]
  cases d.find? (·.1 == name) <;> rfl

theorem get?_map_put :
    get? (d.map fun f => if f.1 == name then (name, v) else f) other =
      if name = other then (d.get? other).map fun _ => v else d.get? other := by
  induction d with
  | nil => exact (ite_self _).symm
  | cons field rest ih =>
    rw [List.map_cons, get?_cons, ih, get?_cons]
    by_cases hfield : field.1 = name
    · simp only [hfield, beq_self_eq_true, if_true]
      split <;> rfl
    · simp only [beq_eq_false_iff_ne.mpr hfield, Bool.false_eq_true, if_false]
      split
      · rename_i hother
        rw [if_neg fun h => hfield (hother.trans h.symm)]
      · rfl

theorem isSome_get? : (d.get? name).isSome = d.has name := by
  rw [get?, Option.isSome_map, List.isSome_find?]
  rfl

/-- A field holds what it is given, and giving it that changes no other field. -/
theorem get?_put : (d.put name v).get? other = if name = other then some v else d.get? other := by
  unfold put
  cases hhas : d.has name with
  | true =>
    rw [if_pos rfl, get?_map_put]
    split
    · rename_i hother
      obtain ⟨found, hfound⟩ := Option.isSome_iff_exists.mp (isSome_get?.trans hhas)
      rw [← hother, hfound]
      rfl
    · rfl
  | false =>
    rw [if_neg Bool.false_ne_true, get?_append, get?_cons]
    split
    · rename_i hother
      have hnone : d.get? name = none := by
        rw [← Option.not_isSome_iff_eq_none, isSome_get?, hhas]
        exact Bool.false_ne_true
      rw [← hother, hnone]
      rfl
    · exact Option.or_none

theorem get?_map_of_nodup {α : Type} {name : α → String} {value : α → Value} {xs : List α}
    (h : (xs.map name).Nodup) {x : α} (hx : x ∈ xs) :
    get? (xs.map fun y => (name y, value y)) (name x) = some (value x) := by
  induction xs with
  | nil => cases hx
  | cons y ys ih =>
    obtain ⟨hy, hys⟩ := List.nodup_cons.mp h
    rw [List.map_cons, get?_cons]
    rcases List.mem_cons.mp hx with rfl | hx
    · exact if_pos rfl
    · have hother : name y ≠ name x := fun hname => hy (hname ▸ List.mem_map_of_mem hx)
      rw [if_neg hother]
      exact ih hys hx

/-! ## Repeated assignments -/

theorem has_eq_false : d.has name = false ↔ ∀ f ∈ d, f.1 ≠ name := by
  simp [has]

theorem put_fresh (v : Value) (h : d.has name = false) : d.put name v = d ++ [(name, v)] := by
  simp [put, h]

/-- Fields that a document does not have yet are added behind its own. -/
theorem foldl_put {fields : Document} (hn : (fields.map Prod.fst).Nodup)
    (h : ∀ f ∈ fields, d.has f.1 = false) :
    fields.foldl (fun d f => d.put f.1 f.2) d = d ++ fields := by
  induction fields generalizing d with
  | nil => simp
  | cons f fields ih =>
    obtain ⟨hf, hn⟩ := List.nodup_cons.mp hn
    obtain ⟨hfresh, h⟩ := List.forall_mem_cons.mp h
    rw [List.foldl_cons, put_fresh f.2 hfresh, ih hn, List.append_assoc, List.singleton_append]
    intro g hg
    refine has_eq_false.mpr fun e he hname => ?_
    rcases List.mem_append.mp he with he | he
    · exact has_eq_false.mp (h g hg) e he hname
    · rw [List.mem_singleton.mp he] at hname
      exact hf (List.mem_map.mpr ⟨g, hg, hname.symm⟩)

/-- Distinct names are all assigned once. -/
theorem ofPairs_of_nodup {fields : Document} (h : (fields.map Prod.fst).Nodup) :
    ofPairs fields = fields := foldl_put h fun _ _ => rfl

theorem mem_put {f : String × Value} (h : f ∈ d.put name v) : f = (name, v) ∨ f ∈ d := by
  unfold put at h
  split at h
  · obtain ⟨g, hg, rfl⟩ := List.mem_map.mp h
    split
    · exact .inl rfl
    · exact .inr hg
  · rcases List.mem_append.mp h with h | h
    · exact .inr h
    · exact .inl (List.mem_singleton.mp h)

/-- Assignments leave nothing but what they give. -/
theorem mem_ofPairs {pairs : List (String × Value)} {f : String × Value} (h : f ∈ ofPairs pairs) :
    f ∈ pairs := by
  have hall : ∀ (d : Document), f ∈ pairs.foldl (fun d f => d.put f.1 f.2) d →
      f ∈ d ∨ f ∈ pairs := by
    clear h
    induction pairs with
    | nil => exact fun d h => .inl h
    | cons g rest ih =>
      intro d h
      rcases ih _ h with h | h
      · rcases mem_put h with rfl | h
        · exact .inr List.mem_cons_self
        · exact .inl h
      · exact .inr (List.mem_cons_of_mem _ h)
  exact (hall [] h).resolve_left List.not_mem_nil

end Document

end AuditReport
