import AuditReport.Proofs.RowReads
import AuditReport.Proofs.RowsAlone

/-! Credentials that are not as they should be. A stored password that is no text, or that does not
decrypt, is left out of rows and of password lists. A list or an object in the place of a password is
not: it fails the rows of all documents of its batch, and every password list that it is to be in. -/

namespace AuditReport

open Fallible

namespace Row

variable {d e : Document}

/-- The document with other credentials. -/
def withMapping (d credentials : Document) : Document := d.put "credentials" (.object credentials)

/-- The stored passwords of all listed providers are empty or scalars. -/
def NoContainers (d : Document) : Prop :=
  ∀ p ∈ providers d, (credential d p "password").isEmpty = true ∨
    (credential d p "password").isScalar = true

theorem alikeApart_of_get? (h : ∀ name, name ≠ "credentials" → d.get? name = e.get? name) :
    AlikeApart d e where
  audit name hname := by
    have hne : ∀ name ∈ auditFields, name ≠ "credentials" := by decide
    rw [Document.get, h name (hne name hname)]
    rfl
  joined field hfield := by
    have hne : ∀ field ∈ joinedFields, field.1 ≠ "credentials" := by decide
    have hpart : d.get field.1 = e.get field.1 := by
      rw [Document.get, h field.1 (hne field hfield)]
      rfl
    rw [part, hpart]
    rfl

theorem alikeApart_withMapping (d credentials : Document) :
    AlikeApart (d.without "credentials") (withMapping d credentials) := by
  refine alikeApart_of_get? fun name hname => ?_
  rw [withMapping, Document.get?_without, Document.get?_put, if_neg (Ne.symm hname),
    if_neg (Ne.symm hname)]

theorem credential_withMapping (d credentials : Document) (p suffix : String) :
    credential (withMapping d credentials) p suffix = credentials.get (p ++ "_" ++ suffix) := by
  have hpart : part (withMapping d credentials) "credentials" = credentials := by
    unfold part Document.get withMapping
    rw [Document.get?_put, if_pos rfl]
    rfl
  rw [credential, hpart]

theorem noContainers_withMapping {credentials : Document} :
    NoContainers (withMapping d credentials) ↔
      ∀ p ∈ providers d, (credentials.get (p ++ "_password")).isEmpty = true ∨
        (credentials.get (p ++ "_password")).isScalar = true := by
  have hproviders : providers (withMapping d credentials) = providers d := by
    unfold providers Document.get withMapping
    rw [Document.get?_put, if_neg (by decide)]
  unfold NoContainers
  rw [hproviders]
  simp only [credential_withMapping, String.append_assoc]
  rfl

theorem plaintext_ok_iff {plaintexts : List (String × String)} {v : Value} :
    (∃ p, plaintext plaintexts v = .ok p) ↔ v.isScalar = true := by
  cases v <;> simp [plaintext, Value.isScalar]

/-- Only lists and objects stand in the way of a row's passwords. -/
theorem passwords_ok_iff {plaintexts : List (String × String)} :
    (∃ password, passwords d plaintexts = .ok password) ↔ NoContainers d := by
  constructor
  · rintro ⟨password, h⟩ p hp
    obtain ⟨found, hfound, -⟩ := bind_ok_iff.mp h
    refine or_iff_not_imp_left.mpr fun hfilled => ?_
    exact plaintext_ok_iff.mp (exists_of_mapM_ok hfound _
      (List.mem_filter.mpr ⟨List.mem_map_of_mem hp, by simpa using hfilled⟩))
  · intro h
    have htotal : ∀ v ∈ ((providers d).map fun p => credential d p "password").filter
        (!·.isEmpty), ∃ p, plaintext plaintexts v = .ok p := by
      intro v hv
      obtain ⟨hv, hfilled⟩ := List.mem_filter.mp hv
      obtain ⟨p, hp, rfl⟩ := List.mem_map.mp hv
      exact plaintext_ok_iff.mpr ((h p hp).resolve_left (by simpa using hfilled))
    obtain ⟨found, hfound⟩ := mapM_total htotal
    exact ⟨_, bind_ok_iff.mpr ⟨found, hfound, rfl⟩⟩

end Row

namespace Resolver

variable {T : Type} {first r : Resolver T} {d e : Document} {row : Row}
  {decrypt : String → Except DecryptionError String}

/-! ## Rows -/

/-- A row with the credentials of a document: of its stored passwords, those that decrypt. -/
def revealed (decrypt : String → Except DecryptionError String) (d : Document) (row : Row) : Row :=
  row.withCredentials d
    (if shownPasswords decrypt d = [] then none
      else some (", ".intercalate (shownPasswords decrypt d)))

/-- Other credentials change what a row displays of them, unless a password is a list or an
object. -/
theorem rowOf_of_alikeApart (h : Row.AlikeApart d e) (hrow : rowOf decrypt d = .ok row) :
    (Row.NoContainers e → rowOf decrypt e = .ok (revealed decrypt e row)) ∧
      (¬ Row.NoContainers e → rowOf decrypt e = .error (.crashed .notAKey)) := by
  -- Which password the row displays has no part in whether the rest of it can be read.
  obtain ⟨password, hread⟩ : ∃ password, Row.read d password = .ok row := by
    unfold rowOf toRow at hrow
    split at hrow
    · cases hrow
    · exact ⟨_, mapError_ok_iff.mp hrow⟩
  constructor
  · intro hnone
    obtain ⟨shown, hshown⟩ := Row.passwords_ok_iff.mpr hnone
    have hok : rowOf decrypt e = .ok (row.withCredentials e shown) := by
      unfold rowOf toRow
      rw [hshown]
      dsimp only
      rw [Row.read_of_alikeApart h shown password, hread]
      rfl
    have hpassword : shown = _ := otaPassword_of_rowOf hok
    rw [hok, revealed, ← hpassword]
  · intro hsome
    unfold rowOf toRow
    split
    · rfl
    · rename_i shown hshown
      exact absurd (Row.passwords_ok_iff.mp ⟨shown, hshown⟩) hsome

/-- The rows that some documents make with other credentials than their own, if they make rows
without any. -/
theorem mapM_rowOf_withMapping {docs : List (Document × Document)} {rows : List Row}
    (h : (docs.map fun d => d.1.without "credentials").mapM (rowOf decrypt) = .ok rows) :
    ((∀ d ∈ docs, Row.NoContainers (Row.withMapping d.1 d.2)) →
      (docs.map fun d => Row.withMapping d.1 d.2).mapM (rowOf decrypt) =
        .ok (List.zipWith (fun d row => revealed decrypt (Row.withMapping d.1 d.2) row) docs rows)) ∧
    ((∃ d ∈ docs, ¬ Row.NoContainers (Row.withMapping d.1 d.2)) →
      (docs.map fun d => Row.withMapping d.1 d.2).mapM (rowOf decrypt) =
        .error (.crashed .notAKey)) := by
  have hbare := List.forall₂_map_left_iff.mp (mapM_ok_iff.mp h)
  rw [List.mapM_map]
  constructor
  · intro hnone
    rw [mapM_ok_iff]
    clear h
    induction hbare with
    | nil => exact .nil
    | cons hrow _ ih =>
      obtain ⟨hd, hrest⟩ := List.forall_mem_cons.mp hnone
      exact .cons ((rowOf_of_alikeApart (Row.alikeApart_withMapping _ _) hrow).1 hd) (ih hrest)
  · have hrow : ∀ d ∈ docs, ∃ row,
        (Row.NoContainers (Row.withMapping d.1 d.2) →
          rowOf decrypt (Row.withMapping d.1 d.2) = .ok row) ∧
        (¬ Row.NoContainers (Row.withMapping d.1 d.2) →
          rowOf decrypt (Row.withMapping d.1 d.2) = .error (.crashed .notAKey)) := by
      intro d hd
      obtain ⟨row, hrow⟩ := exists_of_mapM_ok h _ (List.mem_map_of_mem hd)
      exact ⟨_, rowOf_of_alikeApart (Row.alikeApart_withMapping d.1 d.2) hrow⟩
    refine mapM_eq_error (fun d hd hnone => ?_) fun d hd hsome => ?_
    · obtain ⟨row, hok, -⟩ := hrow d hd
      exact ⟨row, hok hnone⟩
    · obtain ⟨row, -, herror⟩ := hrow d hd
      exact herror hsome

/-! ## Password lists -/

/-- The item that a stored one makes, if its password is a text that decrypts. -/
def listed? (decrypt : String → Except DecryptionError String) (d : Document) :
    Option PasswordItem :=
  match d.get "password", d.get "ota_type" with
  | .text s, .text provider =>
    if s.isEmpty then none else (decrypt s).toOption.map (⟨·, provider⟩)
  | _, _ => none

/-- The key of a stored item, if its password is worth decrypting. -/
def storedKey (d : Document) : Except Failure (Option Key) :=
  if (d.get "password").isEmpty then .ok none
  else match Key.ofValue? (d.get "password") with
    | some k => .ok (some k)
    | none => .error (.crashed .notAKey)

theorem storedPasswords_eq (items : List Document) :
    storedPasswords (items.map .object) = (items.mapM storedKey).map (·.filterMap id) := by
  unfold storedPasswords
  rw [List.mapM_map, mapM_congr (g := storedKey) fun d _ => ?_]
  · cases items.mapM storedKey <;> rfl
  · show (if (d.get "password").isEmpty then _ else _) = _
    unfold storedKey
    cases Key.ofValue? (d.get "password") <;> rfl

theorem storedKey_cases (d : Document) :
    ((d.get "password").isEmpty = true ∧ storedKey d = .ok none) ∨
      (d.get "password").isEmpty = false ∧
        ((∃ k, storedKey d = .ok (some k) ∧ k.value = d.get "password") ∨
          (d.get "password").isScalar = false ∧ storedKey d = .error (.crashed .notAKey)) := by
  unfold storedKey
  cases hempty : (d.get "password").isEmpty with
  | true => exact .inl ⟨rfl, if_pos rfl⟩
  | false =>
    refine .inr ⟨rfl, ?_⟩
    rw [if_neg Bool.false_ne_true, Key.ofValue?]
    split
    · rename_i k hk
      obtain ⟨hscalar, hvalue⟩ := Option.dite_none_right_eq_some.mp hk
      exact .inl ⟨k, rfl, by rw [← Option.some.inj hvalue]⟩
    · rename_i hk
      refine .inr ⟨?_, rfl⟩
      simpa using hk

/-- Either every password that is not empty makes a key, or one of them is a list or an object. -/
theorem storedPasswords_cases (items : List Document) :
    (∃ keys, storedPasswords (items.map .object) = .ok keys ∧
      (∀ k ∈ keys, k.value.isEmpty = false) ∧
      ∀ d ∈ items, (d.get "password").isEmpty = false → ∃ k ∈ keys, k.value = d.get "password") ∨
    storedPasswords (items.map .object) = .error (.crashed .notAKey) ∧
      ∃ d ∈ items, (d.get "password").isScalar = false := by
  rw [storedPasswords_eq]
  cases hm : items.mapM storedKey with
  | ok found =>
    refine .inl ⟨found.filterMap id, rfl, fun k hk => ?_, fun d hd hfilled => ?_⟩
    · obtain ⟨key, hkey, rfl⟩ := List.mem_filterMap.mp hk
      obtain ⟨d, hd, hdk⟩ := (mem_of_mapM_ok hm).mp hkey
      rcases storedKey_cases d with ⟨-, h⟩ | ⟨hfilled, ⟨j, h, hj⟩ | ⟨-, h⟩⟩
      · cases hdk.symm.trans h
      · cases hdk.symm.trans h
        rw [hj, hfilled]
      · cases hdk.symm.trans h
    · obtain ⟨key, hkey⟩ := exists_of_mapM_ok hm d hd
      rcases storedKey_cases d with ⟨hempty, -⟩ | ⟨-, ⟨k, h, hk⟩ | ⟨-, h⟩⟩
      · cases hempty.symm.trans hfilled
      · exact ⟨k, List.mem_filterMap.mpr ⟨some k, (mem_of_mapM_ok hm).mpr ⟨d, hd, h⟩, rfl⟩, hk⟩
      · cases hkey.symm.trans h
  | error e =>
    obtain ⟨before, d, after, rfl, -, he⟩ := mapM_error_iff.mp hm
    rcases storedKey_cases d with ⟨-, h⟩ | ⟨-, ⟨k, h, -⟩ | ⟨hcontainer, h⟩⟩
    · cases he.symm.trans h
    · cases he.symm.trans h
    · cases he.symm.trans h
      exact .inr ⟨rfl, d, by simp, hcontainer⟩

/-- A stored item with a text for its provider makes an item, or none, unless its password is a list
or an object. -/
theorem toItem_of_text {plaintexts : List (String × String)} {provider : String}
    (hprovider : d.get? "ota_type" = some (.text provider))
    (hlookup : ∀ s, d.get "password" = .text s →
      plaintexts.lookup s = if s.isEmpty then none else (decrypt s).toOption) :
    toItem plaintexts (.object d) =
      if (d.get "password").isScalar then .ok (listed? decrypt d)
      else .error (.crashed .notAKey) := by
  have hget : d.get "ota_type" = .text provider := by rw [Document.get, hprovider]; rfl
  unfold toItem listed?
  dsimp only [Value.fields]
  rw [hprovider, hget]
  cases hv : d.get "password" with
  | text s =>
    simp only [Row.plaintext, hlookup s hv, Value.isScalar, if_true]
    cases s.isEmpty with
    | true => rfl
    | false => cases decrypt s <;> rfl
  | _ => rfl

/-- What some stored items come to if each of them makes an item unless its password is a list or an
object. -/
theorem mapM_toItem {plaintexts : List (String × String)} {items : List Document}
    (h : ∀ d ∈ items, toItem plaintexts (.object d) =
      if (d.get "password").isScalar then .ok (listed? decrypt d)
      else .error (.crashed .notAKey)) :
    ((∀ d ∈ items, (d.get "password").isScalar = true) →
      (items.map Value.object).mapM (toItem plaintexts) = .ok (items.map (listed? decrypt))) ∧
    ((∃ d ∈ items, (d.get "password").isScalar = false) →
      (items.map Value.object).mapM (toItem plaintexts) = .error (.crashed .notAKey)) := by
  rw [List.mapM_map]
  constructor
  · exact fun hscalars => mapM_eq_map fun d hd => (h d hd).trans (if_pos (hscalars d hd))
  · rintro ⟨d, hd, hcontainer⟩
    have hbad : ¬ (d.get "password").isScalar = true := by simp [hcontainer]
    exact mapM_eq_error (fun c hc hscalar => ⟨_, (h c hc).trans (if_pos hscalar)⟩)
      (fun c hc hother => (h c hc).trans (if_neg hother)) ⟨d, hd, hbad⟩

variable [LE T] [DecidableLE T] [Timeline T] {now : T}

/-- Stored items with texts for their providers come to the items whose passwords decrypt, or fail
if a password is a list or an object. -/
theorem decryptItems_of_texts (hw : SharesWork first)
    (hnow : (Timeline.after? now first.values.ttl).isSome = true) (h : Sound first r)
    {items : List Document}
    (htexts : ∀ d ∈ items, ∃ provider, d.get? "ota_type" = some (.text provider)) :
    ((∀ d ∈ items, (d.get "password").isScalar = true) →
      ((decryptItems now (items.map .object)).run.run r).1 =
        .ok (sortItems (items.filterMap (listed? first.decrypt)))) ∧
    ((∃ d ∈ items, (d.get "password").isScalar = false) →
      ((decryptItems now (items.map .object)).run.run r).1 = .error (.crashed .notAKey)) := by
  unfold decryptItems
  rw [run_bind, run_ofExcept]
  rcases storedPasswords_cases items with ⟨keys, hkeys, hfilled, hasked⟩ | ⟨herror, hcontainer⟩
  · rw [hkeys]
    dsimp only
    obtain ⟨found, hfound, hlookup, hunasked⟩ := (decryptKeys_ok hw h keys).2 hnow
    rw [run_bind_ok hfound]
    have hitems : ∀ d ∈ items, toItem found (.object d) =
        if (d.get "password").isScalar then .ok (listed? first.decrypt d)
        else .error (.crashed .notAKey) := by
      intro d hd
      obtain ⟨provider, hprovider⟩ := htexts d hd
      refine toItem_of_text hprovider fun s hs => ?_
      cases hempty : s.isEmpty with
      | true =>
        -- No key is empty, so that nothing was looked for in the place of an empty text.
        refine hunasked s fun k hk hks => ?_
        have hkey := hfilled k hk
        rw [hks] at hkey
        cases hempty.symm.trans hkey
      | false =>
        obtain ⟨k, hk, hks⟩ := hasked d hd (hs ▸ hempty)
        exact hlookup k hk s (hks.trans hs)
    obtain ⟨hok, herror⟩ := mapM_toItem hitems
    rw [run_bind, run_ofExcept]
    constructor
    · intro hscalars
      rw [hok hscalars]
      dsimp only
      rw [List.filterMap_map]
      rfl
    · intro hcontainer
      rw [herror hcontainer]
  · rw [herror]
    obtain ⟨d, hd, hcontainer⟩ := hcontainer
    exact ⟨fun hscalars => absurd (hscalars d hd) (by simp [hcontainer]), fun _ => rfl⟩

/-- What a password list answers that is made from some stored items if there is no live one under
its key. -/
def listOf (r : Resolver T) (now : T) (key : String) (items : List Document) :
    Except Failure (List PasswordItem) :=
  ((passwordList now key fun _ => .ok (items.map .object)).run.run r).1

theorem listOf_live {key : String} {cached : List PasswordItem}
    (h : (r.lists.get now key).1 = some cached) (items : List Document) :
    r.listOf now key items = .ok cached := by
  have hlive : ((liveList now key).run.run r).1 = .ok (some cached) := by rw [← h]; rfl
  unfold listOf passwordList
  rw [run_bind_ok hlive]
  rfl

theorem newList_result (hw : SharesWork first) (h : Sound first r)
    (hlist : (Timeline.after? now first.lists.ttl).isSome = true) (key : String)
    (stored : List Value) :
    ((newList now key stored).run.run r).1 = ((decryptItems now stored).run.run r).1 := by
  have hkept : Sound first ((decryptItems now stored).run.run r).2 :=
    keeps_decryptItems hw stored r h
  cases hitems : ((decryptItems now stored).run.run r).1 with
  | error e =>
    unfold newList
    rw [run_bind_error hitems]
  | ok items =>
    rw [newList_run hitems]
    exact if_pos (TimedCache.set_done (hkept.listTtl.symm ▸ hlist))

theorem listOf_missed (hw : SharesWork first) (h : Sound first r)
    (hlist : (Timeline.after? now first.lists.ttl).isSome = true) {key : String}
    (hmissed : (r.lists.get now key).1 = none) (items : List Document) :
    ∃ r', Sound first r' ∧
      r.listOf now key items = ((decryptItems now (items.map .object)).run.run r').1 := by
  have hlive : ((liveList now key).run.run r).1 = .ok none := by rw [← hmissed]; rfl
  have hkept : Sound first ((liveList now key).run.run r).2 := keeps_liveList key r h
  refine ⟨_, hkept, ?_⟩
  unfold listOf passwordList
  rw [run_bind_ok hlive]
  dsimp only
  rw [run_bind, run_ofExcept]
  exact newList_result hw hkept hlist key _

/-- **Only a list or an object in the place of a password fails a batch.** Whatever was asked of a
resolver before: where some documents make rows without credentials, they make as many with any
credentials in which no listed provider's password is a list or an object that is not empty, and the
rows display those of the stored passwords that decrypt; with other credentials, all rows fail. A
password list that is to be made of items with texts for their providers holds those whose passwords
decrypt if no password is a list or an object, be it empty; otherwise it fails. -/
theorem only_containers_fail (decrypt : String → Except DecryptionError String) (workers : Workers)
    (valueTtl listTtl : T) (hw : ∀ n, workers.chunkSize = some n → 0 ≤ n)
    (history : List (T × Call)) (now : T) (hnow : (Timeline.after? now valueTtl).isSome = true)
    (hlist : (Timeline.after? now listTtl).isSome = true) :
    let r := (fresh decrypt workers valueTtl listTtl).run history
    (∀ (docs : List (Document × Document)) rows,
      r.rows now (docs.map fun d => d.1.without "credentials") = .ok rows →
      rows.length = docs.length ∧
      ((∀ d ∈ docs, Row.NoContainers (Row.withMapping d.1 d.2)) →
        r.rows now (docs.map fun d => Row.withMapping d.1 d.2) =
          .ok (List.zipWith (fun d row => revealed decrypt (Row.withMapping d.1 d.2) row)
            docs rows)) ∧
      ((∃ d ∈ docs, ¬ Row.NoContainers (Row.withMapping d.1 d.2)) →
        r.rows now (docs.map fun d => Row.withMapping d.1 d.2) = .error (.crashed .notAKey))) ∧
    ∀ (key : String) (items : List Document),
      (∀ d ∈ items, ∃ provider, d.get? "ota_type" = some (.text provider)) →
      (∀ cached, (r.lists.get now key).1 = some cached → r.listOf now key items = .ok cached) ∧
      ((r.lists.get now key).1 = none →
        ((∀ d ∈ items, (d.get "password").isScalar = true) →
          r.listOf now key items = .ok (sortItems (items.filterMap (listed? decrypt)))) ∧
        ((∃ d ∈ items, (d.get "password").isScalar = false) →
          r.listOf now key items = .error (.crashed .notAKey))) := by
  intro r
  have hw : SharesWork (fresh decrypt workers valueTtl listTtl) := hw
  have hsound : Sound _ r := sound_run hw (sound_fresh decrypt workers valueTtl listTtl) history
  constructor
  · intro docs rows hbare
    rw [rows_eq hw hnow hsound] at hbare ⊢
    refine ⟨?_, mapM_rowOf_withMapping hbare⟩
    rw [← (mapM_ok_iff.mp hbare).length_eq, List.length_map]
  · intro key items htexts
    refine ⟨fun cached hcached => listOf_live hcached items, fun hmissed => ?_⟩
    obtain ⟨r', hr', hnew⟩ := listOf_missed hw hsound hlist hmissed items
    rw [hnew]
    exact decryptItems_of_texts hw hnow hr' htexts

/-- A number in the place of one of two passwords, in a batch and in a password list. -/
theorem only_containers_fail_number :
    let first : Resolver Int :=
      fresh (fun s => if s = "c" then .ok "p" else .error .noSeparator) ⟨2, none⟩ 300 300
    let d : Document := [("type_of_ota", .list [.text "agoda", .text "Expedia"])]
    let credentials : Document := [("expedia_password", .text "c"), ("agoda_password", .int 5)]
    let items : List Document :=
      [[("password", .text "c"), ("ota_type", .text "expedia")],
        [("password", .int 5), ("ota_type", .text "agoda")]]
    (∃ row, first.rows 7 [Row.withMapping d credentials] = .ok [row] ∧
      row.otaPassword = some "p") ∧
    first.listOf 7 allPasswords items = .ok [⟨"p", "expedia"⟩] := by
  intro first d credentials items
  obtain ⟨hrows, hlists⟩ := only_containers_fail first.decrypt ⟨2, none⟩ (300 : Int) 300 nofun []
    7 rfl rfl
  obtain ⟨row, hrow⟩ : ∃ row, first.rows 7 [d.without "credentials"] = .ok [row] := ⟨_, rfl⟩
  have hnone : Row.NoContainers (Row.withMapping d credentials) := by
    rw [Row.noContainers_withMapping]
    decide
  have hbatch := (hrows [(d, credentials)] [row] hrow).2.1 (by simpa using hnone)
  have htexts : ∀ d ∈ items, ∃ provider, d.get? "ota_type" = some (.text provider) :=
    List.forall_mem_cons.mpr ⟨⟨_, rfl⟩, List.forall_mem_cons.mpr ⟨⟨_, rfl⟩, nofun⟩⟩
  have hlist := ((hlists allPasswords items htexts).2 rfl).1 (by decide)
  have hsorted : sortItems (items.filterMap (listed? first.decrypt)) = [⟨"p", "expedia"⟩] := by
    show sortItems [⟨"p", "expedia"⟩] = _
    exact List.mergeSort_singleton _
  exact ⟨⟨_, hbatch, rfl⟩, hlist.trans (congrArg _ hsorted)⟩

/-- A list in the place of a password fails the rows, and an empty one a password list. -/
theorem list_fails_batches :
    let first : Resolver Int := fresh (fun _ => .error .noSeparator) ⟨2, none⟩ 300 300
    let d : Document := [("type_of_ota", .list [.text "expedia"])]
    (∃ row, first.rows 7 [d.without "credentials"] = .ok [row]) ∧
    first.rows 7 [Row.withMapping d [("expedia_password", .list [.text "x"])]] =
      .error (.crashed .notAKey) ∧
    first.listOf 7 allPasswords [[("password", .list []), ("ota_type", .text "expedia")]] =
      .error (.crashed .notAKey) :=
  ⟨⟨_, rfl⟩, rfl, rfl⟩

end Resolver

end AuditReport
