import AuditReport.Proofs.CacheEntries
import AuditReport.Proofs.CacheHistory

/-! How the entries of a cache follow a history. Entries that have expired may stay or go, so only
those that are live at a time still to come are told by the history, and every operation keeps them
so. -/

namespace AuditReport.TimedCache

variable {T K V : Type} [DecidableEq K]

/-! ## Entries -/

theorem mem_put_iff {e f : CacheEntry T K V} {entries : List (CacheEntry T K V)}
    (hnodup : (entries.map (·.key)).Nodup) :
    f ∈ put e entries ↔ f = e ∨ f ∈ entries ∧ f.key ≠ e.key := by
  induction entries with
  | nil => simp [put]
  | cons g rest ih =>
    rw [List.map_cons, List.nodup_cons] at hnodup
    obtain ⟨hg, hrest⟩ := hnodup
    unfold put
    by_cases hkey : g.key = e.key
    · have hne : ∀ f ∈ rest, f.key ≠ e.key := by
        intro f hf hfe
        exact hg (List.mem_map.mpr ⟨f, hf, hfe.trans hkey.symm⟩)
      rw [if_pos (beq_iff_eq.mpr hkey), hkey]
      constructor
      · intro hf
        rcases List.mem_cons.mp hf with rfl | hf
        · exact .inl rfl
        · exact .inr ⟨List.mem_cons_of_mem _ hf, hne f hf⟩
      · rintro (rfl | ⟨hf, hfe⟩)
        · exact List.mem_cons_self
        · rcases List.mem_cons.mp hf with rfl | hf
          · exact absurd hkey hfe
          · exact List.mem_cons_of_mem _ hf
    · rw [if_neg (by simpa using hkey), List.mem_cons, ih hrest, List.mem_cons]
      constructor
      · rintro (rfl | rfl | ⟨hf, hfe⟩)
        · exact .inr ⟨.inl rfl, hkey⟩
        · exact .inl rfl
        · exact .inr ⟨.inr hf, hfe⟩
      · rintro (rfl | ⟨rfl | hf, hfe⟩)
        · exact .inr (.inl rfl)
        · exact .inl rfl
        · exact .inr (.inr ⟨hf, hfe⟩)

theorem nodup_put {e : CacheEntry T K V} {entries : List (CacheEntry T K V)}
    (hnodup : (entries.map (·.key)).Nodup) : ((put e entries).map (·.key)).Nodup := by
  induction entries with
  | nil => exact List.nodup_singleton _
  | cons g rest ih =>
    have hcons := hnodup
    rw [List.map_cons, List.nodup_cons] at hcons
    obtain ⟨hg, hrest⟩ := hcons
    unfold put
    split
    · exact hnodup
    · rename_i hkey
      rw [List.map_cons, List.nodup_cons]
      refine ⟨fun hmem => ?_, ih hrest⟩
      obtain ⟨f, hf, hfg⟩ := List.mem_map.mp hmem
      rcases (mem_put_iff hrest).mp hf with rfl | ⟨hf, -⟩
      · exact hkey (by simp [hfg])
      · exact hg (List.mem_map.mpr ⟨f, hf, hfg⟩)

/-! ## Entries and the history -/

/-- Whether all entries that are live at a time stay, and no others come. -/
def LiveUnchanged [LT T] (now : T) (c c' : TimedCache T K V) : Prop :=
  ∀ e : CacheEntry T K V, now < e.expires → (e ∈ c'.entries ↔ e ∈ c.entries)

/-- The entry for a value that was set at a time. -/
def entryOf [Add T] (ttl : T) (key : K) (s : T) (v : V) : CacheEntry T K V := ⟨key, some v, s + ttl⟩

/-- A cache that follows a history: its entries are for what was last set, and nothing is missing of
what is live at an upcoming time. -/
structure Follows [Add T] [LT T] (ttl : T) (c : TimedCache T K V) (past : List (Mark T K V))
    (upcoming : List T) : Prop where
  ttl_eq : c.ttl = ttl
  nodup : c.keys.Nodup
  sound : ∀ e ∈ c.entries, ∃ s v, lastSet e.key past = some (s, v) ∧ e = entryOf ttl e.key s v
  complete : ∀ t ∈ upcoming, ∀ key s v, lastSet key past = some (s, v) → t < s + ttl →
    entryOf ttl key s v ∈ c.entries

theorem follows_empty [Add T] [LT T] (ttl : T) (upcoming : List T) :
    Follows ttl (empty ttl : TimedCache T K V) [] upcoming :=
  ⟨rfl, List.nodup_nil, nofun, nofun⟩

section

variable [Add T] [LinearOrder T] {ttl now : T} {c c' : TimedCache T K V}
  {past : List (Mark T K V)} {upcoming : List T} {key : K}

theorem Follows.mono {fewer : List T} (h : Follows ttl c past upcoming)
    (hsub : ∀ t ∈ fewer, t ∈ upcoming) : Follows ttl c past fewer :=
  ⟨h.ttl_eq, h.nodup, h.sound, fun t ht => h.complete t (hsub t ht)⟩

/-- Entries that have expired may go. -/
theorem Follows.thin (h : Follows ttl c past upcoming) (hnow : ∀ t ∈ upcoming, now ≤ t)
    (httl : c'.ttl = c.ttl) (hsub : c'.entries.Sublist c.entries) (hlive : LiveUnchanged now c c') :
    Follows ttl c' past upcoming where
  ttl_eq := httl.trans h.ttl_eq
  nodup := h.nodup.sublist (hsub.map _)
  sound := fun e he => h.sound e (hsub.subset he)
  complete := by
    intro t ht key s v hlast hlt
    -- What is live at a time to come is live now, as the clock does not go back.
    exact (hlive _ (lt_of_le_of_lt (hnow t ht) hlt)).mpr (h.complete t ht key s v hlast hlt)

theorem Follows.eq_of_key (h : Follows ttl c past upcoming) {e f : CacheEntry T K V}
    (he : e ∈ c.entries) (hf : f ∈ c.entries) (hkey : e.key = f.key) : e = f := by
  -- A history has one last setting of a key, so there is one entry for it.
  obtain ⟨s, v, hlast, heq⟩ := h.sound e he
  obtain ⟨s', v', hlast', heq'⟩ := h.sound f hf
  rw [hkey, hlast'] at hlast
  cases hlast
  rw [heq, heq', hkey]

theorem Follows.live_of_mem (h : Follows ttl c past upcoming) {e : CacheEntry T K V}
    (he : e ∈ c.entries) : live ttl past now e.key = if e.expires ≤ now then none else e.value := by
  obtain ⟨s, v, hlast, heq⟩ := h.sound e he
  have hexpires : e.expires = s + ttl := by rw [heq]; rfl
  have hvalue : e.value = some v := by rw [heq]; rfl
  rw [hexpires, hvalue]
  unfold live
  rw [hlast]
  dsimp only
  by_cases hlt : now < s + ttl
  · rw [if_pos hlt, if_neg (not_le.mpr hlt)]
  · rw [if_neg hlt, if_pos (not_lt.mp hlt)]

theorem Follows.live_of_notMem (h : Follows ttl c past upcoming) (hnow : now ∈ upcoming)
    (hkey : key ∉ c.keys) : live ttl past now key = none := by
  cases hlive : live ttl past now key with
  | none => rfl
  | some v =>
    obtain ⟨s, hlast, hlt⟩ := live_eq_some_iff.mp hlive
    have hmem := h.complete now hnow key s v hlast hlt
    exact absurd (List.mem_map.mpr ⟨_, hmem, rfl⟩) hkey

/-- The keys of the entries that have not expired are the live ones. -/
theorem Follows.mem_keys_iff (h : Follows ttl c past upcoming) (hnow : now ∈ upcoming) :
    (∃ e ∈ c.entries, e.key = key ∧ now < e.expires) ↔ (live ttl past now key).isSome = true := by
  constructor
  · rintro ⟨e, he, rfl, hlt⟩
    rw [h.live_of_mem he, if_neg (not_le.mpr hlt)]
    obtain ⟨s, v, -, heq⟩ := h.sound e he
    rw [heq]
    rfl
  · intro hlive
    obtain ⟨v, hv⟩ := Option.isSome_iff_exists.mp hlive
    obtain ⟨s, hlast, hlt⟩ := live_eq_some_iff.mp hv
    exact ⟨_, h.complete now hnow key s v hlast hlt, rfl, hlt⟩

/-! ## Looking up and dropping -/

theorem Follows.get (h : Follows ttl c past upcoming) (hnow : now ∈ upcoming) :
    (c.get now key).1 = live ttl past now key := by
  unfold TimedCache.get
  split
  · rename_i hnone
    exact (h.live_of_notMem hnow (entry?_eq_none hnone)).symm
  · rename_i e hsome
    obtain ⟨he, rfl⟩ := entry?_some hsome
    rw [h.live_of_mem he]
    split <;> rfl

theorem Follows.get_liveUnchanged (h : Follows ttl c past upcoming) :
    LiveUnchanged now c (c.get now key).2 := by
  intro f hf
  unfold TimedCache.get
  split
  · rfl
  · rename_i e hsome
    obtain ⟨he, rfl⟩ := entry?_some hsome
    split
    · rename_i hexpired
      show f ∈ c.entries.filter _ ↔ _
      rw [List.mem_filter]
      constructor
      · exact And.left
      · intro hmem
        refine ⟨hmem, ?_⟩
        by_cases hkey : f.key = e.key
        · rw [h.eq_of_key hmem he hkey] at hf
          exact absurd hexpired (not_le.mpr hf)
        · simp [hkey]
    · rfl

theorem Follows.after_get (h : Follows ttl c past upcoming) (hnow : ∀ t ∈ upcoming, now ≤ t) :
    Follows ttl (c.get now key).2 past upcoming :=
  h.thin hnow get_ttl get_sublist h.get_liveUnchanged

theorem Follows.sweep (h : Follows ttl c past upcoming) (hnow : ∀ t ∈ upcoming, now ≤ t) :
    Follows ttl (c.sweep now) past upcoming := by
  refine h.thin hnow rfl List.filter_sublist fun e he => ?_
  show e ∈ c.entries.filter _ ↔ _
  simp [List.mem_filter, not_le.mpr he]

theorem Follows.erase (h : Follows ttl c past upcoming) :
    Follows ttl (c.erase key) (.dropped key :: past) upcoming where
  ttl_eq := h.ttl_eq
  nodup := h.nodup.sublist (List.filter_sublist.map _)
  sound := by
    intro e he
    obtain ⟨he, hkey⟩ := List.mem_filter.mp he
    obtain ⟨s, v, hlast, heq⟩ := h.sound e he
    have hne : ¬key = e.key := by
      rintro rfl
      simp at hkey
    exact ⟨s, v, (if_neg hne).trans hlast, heq⟩
  complete := by
    intro t ht k s v hlast hlt
    by_cases hkey : key = k
    · rw [lastSet, if_pos hkey] at hlast
      cases hlast
    · rw [lastSet, if_neg hkey] at hlast
      refine List.mem_filter.mpr ⟨h.complete t ht k s v hlast hlt, ?_⟩
      have hne : ¬k = key := Ne.symm hkey
      simp [entryOf, hne]

theorem Follows.clear (h : Follows ttl c past upcoming) :
    Follows ttl c.clear (.cleared :: past) upcoming :=
  ⟨h.ttl_eq, List.nodup_nil, nofun, nofun⟩

theorem Follows.size (h : Follows ttl c past upcoming) (hnow : now ∈ upcoming) :
    c.size now = (liveKeys ttl past now).length := by
  have hnodup : ((c.entries.filter fun e => decide (now < e.expires)).map (·.key)).Nodup :=
    h.nodup.sublist (List.filter_sublist.map _)
  -- Both have every live key once, so one is a permutation of the other.
  have hperm : ((c.entries.filter fun e => decide (now < e.expires)).map (·.key)).Perm
      (liveKeys ttl past now) := by
    refine (List.perm_ext_iff_of_nodup hnodup (nodup_liveKeys ttl past now)).mpr fun key => ?_
    rw [mem_liveKeys, ← h.mem_keys_iff hnow, List.mem_map]
    simp [and_assoc, and_comm]
  rw [← hperm.length_eq, List.length_map]
  rfl

/-! ## Setting -/

section

variable [Timeline T] {v : V} (hafter : ∀ s d : T, Timeline.after? s d = some (s + d))

include hafter

theorem Follows.set_eq (h : Follows ttl c past upcoming) : c.set now key (some v) =
    (true, { c with entries := put (entryOf ttl key now v) (c.sweep now).entries }) := by
  have hexpiry : (c.sweep now).expiry? now = some (now + ttl) := by
    rw [← h.ttl_eq]
    exact hafter now c.ttl
  unfold TimedCache.set
  dsimp only
  rw [hexpiry]
  rfl

theorem Follows.set (h : Follows ttl c past upcoming) (hnow : ∀ t ∈ upcoming, now ≤ t) :
    (c.set now key (some v)).1 = true ∧
      Follows ttl (c.set now key (some v)).2 (.set now key v :: past) upcoming := by
  have hswept := h.sweep hnow
  rw [h.set_eq hafter]
  refine ⟨rfl, h.ttl_eq, nodup_put hswept.nodup, ?_, ?_⟩
  · intro e he
    rcases (mem_put_iff hswept.nodup).mp he with rfl | ⟨he, hkey⟩
    · exact ⟨now, v, if_pos rfl, rfl⟩
    · obtain ⟨s, w, hlast, heq⟩ := hswept.sound e he
      exact ⟨s, w, (if_neg (Ne.symm hkey)).trans hlast, heq⟩
  · intro t ht k s w hlast hlt
    refine (mem_put_iff hswept.nodup).mpr ?_
    by_cases hkey : key = k
    · rw [lastSet, if_pos hkey] at hlast
      cases hlast
      exact .inl (by rw [hkey])
    · rw [lastSet, if_neg hkey] at hlast
      exact .inr ⟨hswept.complete t ht k s w hlast hlt, Ne.symm hkey⟩

end

end

section

variable [AddCommGroup T] [LinearOrder T] [IsOrderedAddMonoid T] [Timeline T] {ttl now : T}
  {c : TimedCache T K V} {past : List (Mark T K V)} {upcoming : List T} {key : K} {v : V}
  (hafter : ∀ s d : T, Timeline.after? s d = some (s + d))

include hafter

/-- Nothing that has expired is kept when a key is set. -/
theorem Follows.set_lives (h : Follows ttl c past upcoming) (hpos : 0 < ttl) :
    ∀ e ∈ (c.set now key (some v)).2.entries, now < e.expires := by
  intro e he
  rw [h.set_eq hafter] at he
  have hnodup : ((c.sweep now).entries.map (·.key)).Nodup :=
    h.nodup.sublist (List.filter_sublist.map _)
  rcases (mem_put_iff hnodup).mp he with rfl | ⟨he, -⟩
  · exact lt_add_of_pos_right now hpos
  · have hlive := (List.mem_filter.mp he).2
    simpa using hlive

/-- So the keys that are held then are the live ones. -/
theorem Follows.set_keys (h : Follows ttl c past upcoming) (hpos : 0 < ttl)
    (hnow : ∀ t ∈ upcoming, now ≤ t) (hmem : now ∈ upcoming) (other : K) :
    other ∈ (c.set now key (some v)).2.keys ↔
      (live ttl (.set now key v :: past) now other).isSome = true := by
  obtain ⟨-, hset⟩ := h.set hafter hnow
  rw [← hset.mem_keys_iff hmem]
  constructor
  · intro hheld
    obtain ⟨e, he, hkey⟩ := List.mem_map.mp hheld
    exact ⟨e, he, hkey, h.set_lives hafter hpos e he⟩
  · rintro ⟨e, he, hkey, -⟩
    exact List.mem_map.mpr ⟨e, he, hkey⟩

end

end AuditReport.TimedCache
