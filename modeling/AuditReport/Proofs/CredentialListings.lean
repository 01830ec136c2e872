import AuditReport.Proofs.EqualValues
import AuditReport.Proofs.PasswordLists
import AuditReport.Proofs.Readings

/-! The listings of identities and user names. The listing of all providers shows every value as a
text; that of one provider shows texts, and fails where the credentials hold anything else. -/

namespace AuditReport

open Fallible

namespace Value

variable {v : Value}

/-- Neither bytes nor a list nor an object. -/
def Plain (v : Value) : Prop := v.isScalar = true ∧ ∀ bs, v ≠ .bytes bs

theorem eq_text_of_equal_text {w : String} (h : v.equal (.text w) = true) : v = .text w := by
  cases v with
  | text t => exact congrArg text (eq_of_beq h)
  | _ => cases h

theorem Plain.eq_text_of_read (hv : v.Plain) {w : String} (h : Schema.text v = .ok w) :
    v = .text w := by
  cases v with
  | text t => exact congrArg text (Except.ok.inj h)
  | bytes bs => exact absurd rfl (hv.2 bs)
  | _ => cases h

theorem sorted?_texts (ws : List String) :
    sorted? (ws.map .text) = some ((ws.mergeSort fun s t => !decide (t < s)).map .text) := by
  have hcomparable : allComparable (ws.map .text) = true := by
    induction ws with
    | nil => rfl
    | cons w ws ih =>
      rw [List.map_cons, allComparable, ih, Bool.and_true, List.all_map, List.all_eq_true]
      exact fun _ _ => rfl
  rw [sorted?, if_pos hcomparable, List.map_mergeSort fun s _ t _ => ?_]
  show (!decide (t < s)) = (some (decide (t < s)) != some true)
  cases decide (t < s) <;> rfl

theorem exists_map_text {vs : List Value} (h : ∀ v ∈ vs, ∃ w, v = .text w) :
    ∃ ws : List String, vs = ws.map .text := by
  induction vs with
  | nil => exact ⟨[], rfl⟩
  | cons v vs ih =>
    obtain ⟨⟨w, rfl⟩, hrest⟩ := List.forall_mem_cons.mp h
    obtain ⟨ws, rfl⟩ := ih hrest
    exact ⟨w :: ws, rfl⟩

theorem mem_sorted? {vs ws : List Value} (h : sorted? vs = some ws) : v ∈ ws ↔ v ∈ vs := by
  unfold sorted? at h
  split at h
  · cases h
    exact List.mem_mergeSort
  · cases h

end Value

namespace Lists

variable {docs : List Document} {field : String} {vs ws : List Value}

/-! ## All providers -/

theorem pairs_map (suffix : String) (docs : List Document) :
    pairs suffix (docs.map .object) =
      .ok (((held suffix docs).map fun (p, v) => (p, v.shown)).eraseDups.mergeSort pairBefore) := by
  unfold pairs
  rw [documents_map]
  rfl

theorem mem_pairs {suffix p w : String} {found : List (String × String)}
    (h : pairs suffix (docs.map .object) = .ok found) :
    (p, w) ∈ found ↔ p ∈ Audit.providers ∧ ∃ d ∈ docs,
      (d.get (credentialField p suffix)).isEmpty = false ∧
        (d.get (credentialField p suffix)).shown = w := by
  rw [pairs_map] at h
  cases h
  rw [mem_sorted, List.mem_map]
  constructor
  · rintro ⟨⟨q, v⟩, hmem, hpair⟩
    cases hpair
    obtain ⟨hq, hfilled, d, hd, rfl⟩ := mem_held.mp hmem
    exact ⟨hq, d, hd, hfilled, rfl⟩
  · rintro ⟨hp, d, hd, hfilled, rfl⟩
    exact ⟨(p, _), mem_held.mpr ⟨hp, hfilled, d, hd, rfl⟩, rfl⟩

/-! ## One provider -/

/-- The values of a field, each of them once. -/
structure DistinctValues (field : String) (docs : List Document) (vs : List Value) : Prop where
  held : ∀ v ∈ vs, ∃ d ∈ docs, d.get field = v
  kept : ∀ d ∈ docs, ∃ v ∈ vs, v = d.get field ∨ (d.get field).equal v = true
  apart : vs.Pairwise fun v w => w.equal v = false

/-- The key of a document's value in a field. -/
def fieldKey (field : String) : Value → Except Crash Key
  | .object d => match Key.ofValue? (Document.get d field) with
    | some k => .ok k
    | none => .error .notAKey
  | _ => .error .notADocument

theorem fieldKey_ok_iff {d : Document} {k : Key} :
    fieldKey field (.object d) = .ok k ↔ k.value = d.get field := by
  unfold fieldKey Key.ofValue?
  obtain ⟨v, hv⟩ := k
  by_cases hscalar : (d.get field).isScalar = true
  · simp [hscalar, eq_comm]
  · simp only [hscalar, reduceCtorEq, false_iff, dite_false]
    rintro rfl
    exact hscalar hv

theorem fieldValues_eq (field : String) (credentials : List Value) :
    fieldValues field credentials = (credentials.mapM (fieldKey field) >>= fun keys =>
      ordered ((distinctBy (fun a b => a == b) keys).map Key.value)) := rfl

theorem fieldValues_map (h : ∀ d ∈ docs, (d.get field).isScalar = true) :
    ∃ vs, fieldValues field (docs.map .object) = ordered vs ∧ DistinctValues field docs vs := by
  obtain ⟨keys, hkeys⟩ : ∃ keys, (docs.map Value.object).mapM (fieldKey field) = .ok keys := by
    refine mapM_total fun v hv => ?_
    obtain ⟨d, hd, rfl⟩ := List.mem_map.mp hv
    exact ⟨⟨Document.get d field, h d hd⟩, fieldKey_ok_iff.mpr rfl⟩
  have hmem : ∀ k, k ∈ keys ↔ ∃ d ∈ docs, k.value = d.get field := by
    intro k
    rw [mem_of_mapM_ok hkeys]
    simp only [List.mem_map, exists_exists_and_eq_and, fieldKey_ok_iff]
  refine ⟨_, by rw [fieldValues_eq, hkeys]; rfl, fun v hv => ?_, fun d hd => ?_, ?_⟩
  · obtain ⟨k, hk, rfl⟩ := List.mem_map.mp hv
    obtain ⟨d, hd, hvalue⟩ := (hmem k).mp (mem_of_mem_distinctBy hk)
    exact ⟨d, hd, hvalue.symm⟩
  · have hk := (hmem ⟨d.get field, h d hd⟩).mpr ⟨d, hd, rfl⟩
    obtain ⟨j, hj, hsame⟩ : ∃ j ∈ distinctBy (fun a b => a == b) keys, j = _ ∨ (_ == j) = true :=
      exists_mem_distinctBy hk
    exact ⟨j.value, List.mem_map_of_mem hj, hsame.imp (congrArg Key.value) id⟩
  · exact List.pairwise_map.mpr (pairwise_distinctBy keys)

/-- Texts are listed in strictly ascending order. -/
theorem fieldValues_of_texts
    (h : ∀ d ∈ docs, (d.get field).isEmpty = true ∨ ∃ w, d.get field = .text w)
    (hscalars : ∀ d ∈ docs, (d.get field).isScalar = true) :
    ∃ ws : List String, fieldValues field (docs.map .object) = .ok (ws.map .text) ∧
      ws.Pairwise (· < ·) ∧
      ∀ w, w ∈ ws ↔ ∃ d ∈ docs, (d.get field).isEmpty = false ∧ d.get field = .text w := by
  obtain ⟨vs, hvs, hdistinct⟩ := fieldValues_map hscalars
  obtain ⟨ws, hws⟩ : ∃ ws : List String, vs.filter (!·.isEmpty) = ws.map .text := by
    refine Value.exists_map_text fun v hv => ?_
    obtain ⟨hv, hfilled⟩ := List.mem_filter.mp hv
    obtain ⟨d, hd, rfl⟩ := hdistinct.held v hv
    exact (h d hd).resolve_left (by simpa using hfilled)
  have hmem : ∀ w, w ∈ ws ↔ .text w ∈ vs ∧ (Value.text w).isEmpty = false := by
    intro w
    have hmap : w ∈ ws ↔ .text w ∈ ws.map Value.text := by simp
    rw [hmap, ← hws, List.mem_filter, Bool.not_eq_true']
  have hnodup : ws.Nodup := by
    have hapart := hdistinct.apart.filter (!·.isEmpty)
    rw [hws, List.pairwise_map] at hapart
    refine hapart.imp fun {s t} hst hsame => ?_
    rw [hsame] at hst
    exact absurd (beq_self_eq_true t) (Bool.eq_false_iff.mp hst)
  refine ⟨ws.mergeSort fun s t => !decide (t < s), ?_, text_orders.pairwise_mergeSort hnodup,
    fun w => ?_⟩
  · rw [hvs, ordered, hws, Value.sorted?_texts]
  · rw [List.mem_mergeSort, hmem]
    constructor
    · rintro ⟨hv, hfilled⟩
      obtain ⟨d, hd, hvalue⟩ := hdistinct.held _ hv
      exact ⟨d, hd, hvalue ▸ hfilled, hvalue⟩
    · rintro ⟨d, hd, hfilled, hvalue⟩
      rw [hvalue] at hfilled
      obtain ⟨v, hv, hsame | hsame⟩ := hdistinct.kept d hd
      · exact ⟨hvalue ▸ hsame ▸ hv, hfilled⟩
      · rw [hvalue] at hsame
        exact ⟨Value.eq_text_of_equal hsame ▸ hv, hfilled⟩

/-- Where anything but texts is to be listed, there are no texts to answer. -/
theorem texts_of_fieldValues (hplain : ∀ d ∈ docs, (d.get field).Plain) {d : Document}
    (hd : d ∈ docs) (hfilled : (d.get field).isEmpty = false) (hother : ∀ w, d.get field ≠ .text w)
    (hvalues : fieldValues field (docs.map .object) = .ok vs) : ∃ e, texts vs = .error e := by
  obtain ⟨all, hall, hdistinct⟩ := fieldValues_map fun d hd => (hplain d hd).1
  obtain ⟨v, hv, hsame⟩ := hdistinct.kept d hd
  have hvfilled : v.isEmpty = false := by
    rcases hsame with rfl | hsame
    · exact hfilled
    · rw [← Value.isEmpty_of_equal hsame, hfilled]
  have hvother : ∀ w, v ≠ .text w := by
    rintro w rfl
    rcases hsame with hsame | hsame
    · exact hother w hsame.symm
    · exact hother w (Value.eq_text_of_equal_text hsame)
  have hmem : v ∈ vs := by
    rw [hall, ordered] at hvalues
    split at hvalues
    · rename_i hsorted
      cases hvalues
      exact (Value.mem_sorted? hsorted).mpr (List.mem_filter.mpr ⟨hv, by simp [hvfilled]⟩)
    · cases hvalues
  cases htexts : texts vs with
  | error e => exact ⟨e, rfl⟩
  | ok ws =>
    have hread := Schema.readItems_ok_iff.mp (Schema.under_ok_iff.mp (mapError_ok_iff.mp htexts))
    obtain ⟨w, hw⟩ := exists_of_mapM_ok (mapM_ok_iff.mpr hread) v hmem
    obtain ⟨c, hc, rfl⟩ := hdistinct.held v hv
    exact absurd ((hplain c hc).eq_text_of_read hw) (hvother w)

theorem texts_map (ws : List String) : texts (ws.map .text) = .ok ws := by
  refine mapError_ok_iff.mpr (Schema.under_ok_iff.mpr (Schema.readItems_ok_iff.mpr ?_))
  rw [List.forall₂_map_left_iff]
  exact List.forall₂_same.mpr fun _ _ => rfl

end Lists

namespace Service

open AuditReport.Lists

variable {T : Type} {s : Service} {u : User} {b : Backend T} {docs : List Document}

theorem pairs_stored (hu : s.authorizer u = true)
    (h : b.store.find credentialsCollection = .ok (docs.map .object)) (part : CredentialPart) :
    ((s.pairs u part).run.run b).1 =
      (Lists.pairs part.suffix (docs.map .object)).mapError .crashed := by
  unfold Service.pairs
  rw [authorize_allowed hu, run_bind_ok (Backend.run_credentials h), run_ofExcept]

theorem providerValues_stored (hu : s.authorizer u = true)
    (h : b.store.find credentialsCollection = .ok (docs.map .object)) {p : String}
    (hp : p ∈ Audit.providers) (part : CredentialPart) :
    ((s.providerValues u p part).run.run b).1 =
      (fieldValues (credentialField p part.suffix) (docs.map .object)).mapError .crashed >>=
        Lists.texts := by
  have hknown : checkProvider p = .ok () := if_pos (List.contains_iff_mem.mpr hp)
  unfold Service.providerValues
  rw [authorize_allowed hu, run_bind, run_ofExcept, hknown]
  dsimp only
  rw [run_bind_ok (Backend.run_credentials h), run_bind, run_ofExcept]
  cases fieldValues (credentialField p part.suffix) (docs.map .object) with
  | error e => rfl
  | ok values => exact congrArg Prod.fst (run_ofExcept _ _)

/-- **The two listings agree on texts.** Let the credentials hold no bytes, lists or objects for a
part. The listing of all providers then shows just the values that are not empty, as texts, in
strictly ascending order. If those of a provider all are texts, its own listing shows just what the
other shows for it, in the same order; otherwise it fails. -/
theorem listings_agree_on_texts (s : Service) (u : User) (hu : s.authorizer u = true)
    (part : CredentialPart) (docs : List Document)
    (hplain : ∀ d ∈ docs, ∀ p ∈ Audit.providers, (d.get (credentialField p part.suffix)).Plain)
    (b : Backend T) (hstored : b.store.find credentialsCollection = .ok (docs.map .object)) :
    ∃ found, ((s.pairs u part).run.run b).1 = .ok found ∧ found.Pairwise PairLess ∧
      (∀ p w, (p, w) ∈ found ↔ p ∈ Audit.providers ∧ ∃ d ∈ docs,
        (d.get (credentialField p part.suffix)).isEmpty = false ∧
          (d.get (credentialField p part.suffix)).shown = w) ∧
      ∀ p ∈ Audit.providers,
        ((∀ d ∈ docs, (d.get (credentialField p part.suffix)).isEmpty = true ∨
            ∃ w, d.get (credentialField p part.suffix) = .text w) →
          ((s.providerValues u p part).run.run b).1 =
            .ok ((found.filter (·.1 == p)).map Prod.snd)) ∧
        ((∃ d ∈ docs, (d.get (credentialField p part.suffix)).isEmpty = false ∧
            ∀ w, d.get (credentialField p part.suffix) ≠ .text w) →
          ∃ e, ((s.providerValues u p part).run.run b).1 = .error e) := by
  obtain ⟨found, hfound⟩ : ∃ found, Lists.pairs part.suffix (docs.map .object) = .ok found :=
    ⟨_, pairs_map part.suffix docs⟩
  have hascending : found.Pairwise PairLess := by
    rw [pairs_map] at hfound
    cases hfound
    exact pair_orders.pairwise_sorted _
  refine ⟨found, (pairs_stored hu hstored part).trans (by rw [hfound]; rfl), hascending,
    fun p w => mem_pairs hfound, fun p hp => ?_⟩
  rw [providerValues_stored hu hstored hp]
  have hfield : ∀ d ∈ docs, (d.get (credentialField p part.suffix)).Plain :=
    fun d hd => hplain d hd p hp
  constructor
  · intro htexts
    obtain ⟨ws, hws, hsorted, hmem⟩ := fieldValues_of_texts htexts fun d hd => (hfield d hd).1
    rw [hws]
    refine (texts_map ws).trans
      (congrArg _ (text_orders.unique hsorted (pairwise_own hascending p) fun w => ?_))
    rw [hmem, mem_own, mem_pairs hfound]
    simp only [hp, true_and]
    refine exists_congr fun d => and_congr_right fun hd => and_congr_right fun hfilled => ?_
    obtain ⟨t, ht⟩ := (htexts d hd).resolve_left (by simp [hfilled])
    rw [ht, Value.text.injEq]
    rfl
  · rintro ⟨d, hd, hfilled, hother⟩
    cases hvalues : fieldValues (credentialField p part.suffix) (docs.map .object) with
    | error e => exact ⟨.crashed e, rfl⟩
    | ok vs => exact texts_of_fieldValues hfield hd hfilled hother hvalues

/-- The identities at one provider are texts or missing; those at another include a number. -/
theorem listings_agree_on_texts_mixed :
    let docs : List Document :=
      [[("expedia_id", .text "b"), ("agoda_id", .int 7)], [("expedia_id", .null)],
        [("expedia_id", .text "a"), ("agoda_id", .text "7")]]
    let s : Service := ⟨Audit.blueprint, superAdminsOnly, 30000⟩
    let admin : User := ⟨some "u-1", some "super_admin"⟩
    let store : Store := { Store.empty with find := fun _ => .ok (docs.map .object) }
    let b : Backend Int :=
      ⟨store, [], Resolver.fresh (fun _ => .error .noSeparator) ⟨2, none⟩ 300 300, 7⟩
    ∃ found, ((s.pairs admin .id).run.run b).1 = .ok found ∧ ("agoda", "7") ∈ found ∧
      ((s.providerValues admin "expedia" .id).run.run b).1 =
        .ok ((found.filter (·.1 == "expedia")).map Prod.snd) ∧
      ∃ e, ((s.providerValues admin "agoda" .id).run.run b).1 = .error e := by
  intro docs s admin store b
  have hplain : ∀ d ∈ docs, ∀ p ∈ Audit.providers,
      (d.get (credentialField p CredentialPart.id.suffix)).Plain := by
    simp [docs, Audit.providers, credentialField, CredentialPart.suffix, Document.get,
      Document.get?, Value.Plain, Value.isScalar]
  obtain ⟨found, hfound, -, hmem, hown⟩ :=
    listings_agree_on_texts s admin (by decide) .id docs hplain b rfl
  refine ⟨found, hfound, (hmem "agoda" "7").mpr ?_, (hown "expedia" (by decide)).1 ?_,
    (hown "agoda" (by decide)).2 ?_⟩
  · exact ⟨by decide, _, List.mem_cons_self, rfl, rfl⟩
  · exact List.forall_mem_cons.mpr ⟨.inr ⟨"b", rfl⟩, List.forall_mem_cons.mpr ⟨.inl rfl,
      List.forall_mem_cons.mpr ⟨.inr ⟨"a", rfl⟩, List.forall_mem_nil _⟩⟩⟩
  · exact ⟨_, List.mem_cons_self, rfl, fun w hw => by cases hw⟩

/-- A number is shown among all providers, but not by itself. -/
theorem number_fails_own_listing :
    let docs : List Document := [[("expedia_id", .int 5)]]
    let s : Service := ⟨Audit.blueprint, superAdminsOnly, 30000⟩
    let admin : User := ⟨some "u-1", some "super_admin"⟩
    let store : Store := { Store.empty with find := fun _ => .ok (docs.map .object) }
    let b : Backend Int :=
      ⟨store, [], Resolver.fresh (fun _ => .error .noSeparator) ⟨2, none⟩ 300 300, 7⟩
    ((s.pairs admin .id).run.run b).1 = .ok [("expedia", "5")] ∧
      fieldValues "expedia_id" (docs.map .object) = .ok [.int 5] ∧
      ((s.providerValues admin "expedia" .id).run.run b).1 =
        .error (.malformed [⟨[.field "data", .item 0], .notText, .int 5⟩]) := by
  intro docs s admin store b
  have hvalues : fieldValues "expedia_id" (docs.map .object) = .ok [.int 5] := by
    have hfilled : [Value.int 5].filter (!·.isEmpty) = [.int 5] := rfl
    have hcomparable : Value.allComparable [.int 5] = true := rfl
    show ordered [.int 5] = _
    rw [ordered, hfilled, Value.sorted?, if_pos hcomparable, List.mergeSort_singleton]
  refine ⟨?_, hvalues, ?_⟩
  · rw [pairs_stored (by decide) rfl, pairs_map]
    show Except.ok (List.mergeSort [("expedia", "5")] pairBefore) = _
    rw [List.mergeSort_singleton]
  · rw [providerValues_stored (by decide) rfl (by decide)]
    show (fieldValues "expedia_id" (docs.map .object)).mapError .crashed >>= Lists.texts = _
    rw [hvalues]
    rfl

end Service

end AuditReport
