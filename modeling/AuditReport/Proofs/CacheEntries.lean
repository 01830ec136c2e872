import AuditReport.TimedCache

/-! What is true of all entries of a cache. A relation between keys and values that holds of
whatever is set holds of whatever is found, at any times and in any order of calls. -/

namespace AuditReport.TimedCache

variable {T K V : Type} {P : K → Option V → Prop} {c : TimedCache T K V} {now : T} {key : K}

/-- Every key is in the relation with its value, whether or not it has expired. -/
def All (P : K → Option V → Prop) (c : TimedCache T K V) : Prop := ∀ e ∈ c.entries, P e.key e.value

theorem all_empty (ttl : T) : All P (empty ttl : TimedCache T K V) := nofun

theorem all_clear (c : TimedCache T K V) : All P c.clear := nofun

theorem All.erase [BEq K] (h : All P c) : All P (c.erase key) :=
  fun e he => h e (List.mem_filter.mp he).1

theorem entry?_some [BEq K] [LawfulBEq K] {e : CacheEntry T K V} (h : c.entry? key = some e) :
    e ∈ c.entries ∧ e.key = key := by
  unfold entry? at h
  exact ⟨List.mem_of_find?_eq_some h, by simpa using List.find?_some h⟩

theorem entry?_eq_none [BEq K] [LawfulBEq K] (h : c.entry? key = none) : key ∉ c.keys := by
  intro hmem
  obtain ⟨e, he, hkey⟩ := List.mem_map.mp hmem
  have hnot := List.find?_eq_none.mp h e he
  simp [hkey] at hnot

section

variable [LE T] [DecidableLE T]

theorem All.sweep (h : All P c) : All P (c.sweep now) :=
  fun e he => h e (List.mem_filter.mp he).1

/-- What is found is in the relation with its key, and what is left in the cache is too. -/
theorem All.get [BEq K] [LawfulBEq K] (h : All P c) :
    (∀ v, (c.get now key).1 = some v → P key (some v)) ∧ All P (c.get now key).2 := by
  unfold TimedCache.get
  split
  · exact ⟨nofun, h⟩
  · rename_i e he
    split
    · exact ⟨nofun, h.erase⟩
    · refine ⟨fun v hv => ?_, h⟩
      obtain ⟨he, hkey⟩ := entry?_some he
      have hentry := h e he
      dsimp only at hv
      rwa [hkey, hv] at hentry

@[simp] theorem get_ttl [BEq K] : (c.get now key).2.ttl = c.ttl := by
  unfold TimedCache.get
  split
  · rfl
  · split <;> rfl

theorem get_sublist [BEq K] : (c.get now key).2.entries.Sublist c.entries := by
  unfold TimedCache.get
  split
  · exact .refl _
  · split
    · exact List.filter_sublist
    · exact .refl _

end

theorem mem_put [BEq K] [LawfulBEq K] {e f : CacheEntry T K V} {entries : List (CacheEntry T K V)}
    (h : f ∈ put e entries) : f = e ∨ f ∈ entries := by
  induction entries with
  | nil => exact .inl (List.mem_singleton.mp h)
  | cons g rest ih =>
    unfold put at h
    split at h
    · rename_i hkey
      rcases List.mem_cons.mp h with rfl | h
      · rw [eq_of_beq hkey]
        exact .inl rfl
      · exact .inr (List.mem_cons_of_mem _ h)
    · rcases List.mem_cons.mp h with rfl | h
      · exact .inr List.mem_cons_self
      · exact (ih h).imp_right (List.mem_cons_of_mem _)

section

variable [LE T] [DecidableLE T] [Timeline T] [BEq K]

theorem All.set [LawfulBEq K] {v : Option V} (h : All P c) (hv : P key v) :
    All P (c.set now key v).2 := by
  have hswept : All P (c.sweep now) := h.sweep
  unfold TimedCache.set
  dsimp only
  split
  · intro e he
    rcases mem_put he with rfl | he
    · exact hv
    · exact hswept e he
  · exact hswept

@[simp] theorem set_ttl {v : Option V} : (c.set now key v).2.ttl = c.ttl := by
  unfold TimedCache.set
  dsimp only
  split <;> rfl

/-- Setting fails only if it cannot be told when the entry expires. -/
theorem set_done {v : Option V} (h : (Timeline.after? now c.ttl).isSome = true) :
    (c.set now key v).1 = true := by
  obtain ⟨expires, he⟩ := Option.isSome_iff_exists.mp h
  unfold TimedCache.set
  have hswept : (c.sweep now).expiry? now = some expires := he
  simp only [hswept]

/-! ## Computing -/

variable {E : Type} {later : T} {compute : Unit → Except E (Option V)}

theorem getOrCompute_found {v : V} (h : (c.get now key).1 = some v) :
    c.getOrCompute now later key compute = ((.ok (some v), false), (c.get now key).2) := by
  unfold getOrCompute
  split
  · rename_i w c' hget
    rw [hget] at h
    cases h
    rw [hget]
  · rename_i c' hget
    rw [hget] at h
    cases h

theorem getOrCompute_missed (h : (c.get now key).1 = none) :
    c.getOrCompute now later key compute = match compute () with
      | .error e => ((.error (.failed e), true), (c.get now key).2)
      | .ok v =>
        ((if ((c.get now key).2.set later key v).1 then .ok v else .error .outOfRange, true),
          ((c.get now key).2.set later key v).2) := by
  unfold getOrCompute
  split
  · rename_i w c' hget
    rw [hget] at h
    cases h
  · rename_i c' hget
    obtain rfl : (c.get now key).2 = c' := congrArg Prod.snd hget
    rfl

end

end AuditReport.TimedCache
