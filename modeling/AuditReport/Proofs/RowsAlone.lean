import AuditReport.KeyedCache
import AuditReport.Proofs.ResolverStates
import AuditReport.Proofs.RowPasswords

/-! Rows on their own. A batch of documents comes to what each of its documents comes to alone, in a
resolver that has not been asked for anything before. -/

namespace AuditReport.Resolver

open Fallible

variable {T : Type} {first r : Resolver T} {d : Document}
  {decrypt : String → Except DecryptionError String}

/-- The ciphertexts among some that decrypt, with what they decrypt to. -/
def decrypted (decrypt : String → Except DecryptionError String) (texts : List String) :
    List (String × String) := texts.filterMap (Workers.answer decrypt)

/-- The row of a document by itself. -/
def rowOf (decrypt : String → Except DecryptionError String) (d : Document) : Except Failure Row :=
  toRow (decrypted decrypt (Row.ciphertexts d)) d

theorem lookup_decrypted {texts : List String} {s : String} (h : s ∈ texts) :
    (decrypted decrypt texts).lookup s = (decrypt s).toOption := by
  refine lookup_eq (fun q hq => ?_) fun p hp => ?_
  · obtain ⟨t, -, ht⟩ := List.mem_filterMap.mp hq
    obtain ⟨rfl, hdecrypt⟩ := Workers.answer_eq_some.mp ht
    exact hdecrypt
  · exact List.mem_filterMap.mpr ⟨s, h, Workers.answer_eq_some.mpr ⟨rfl, hp⟩⟩

/-- A row depends on the decryptions of its own document only. -/
theorem toRow_eq {plaintexts : List (String × String)}
    (h : ∀ s ∈ Row.ciphertexts d, plaintexts.lookup s = (decrypt s).toOption) :
    toRow plaintexts d = rowOf decrypt d := by
  unfold rowOf toRow
  rw [Row.passwords_congr fun s hs => (h s hs).trans (lookup_decrypted hs).symm]

/-- The passwords that a row displays: the texts that the stored passwords of its document decrypt
to, in the order of the providers, without the empty ones. -/
def shownPasswords (decrypt : String → Except DecryptionError String) (d : Document) :
    List String :=
  (Row.ciphertexts d).filterMap fun s => (decrypt s).toOption.filter (!·.isEmpty)

theorem otaPassword_of_rowOf {row : Row} (h : rowOf decrypt d = .ok row) :
    row.otaPassword =
      if shownPasswords decrypt d = [] then none
      else some (", ".intercalate (shownPasswords decrypt d)) := by
  have hshown : ((Row.ciphertexts d).map fun s =>
      ((decrypted decrypt (Row.ciphertexts d)).lookup s).filter (!·.isEmpty)).filterMap id =
        shownPasswords decrypt d := by
    rw [List.filterMap_map]
    exact List.filterMap_congr fun s hs => by simp [lookup_decrypted hs]
  unfold rowOf toRow at h
  split at h
  · cases h
  · rename_i password hpassword
    rw [Row.otaPassword_of_read (mapError_ok_iff.mp h), Row.passwords_ok hpassword, Row.joined,
      hshown]
    cases shownPasswords decrypt d <;> rfl

theorem ofValues?_texts (texts : List String) :
    ∃ keys, Key.ofValues? (texts.map .text) = some keys ∧
      ∀ s ∈ texts, ∃ k ∈ keys, k.value = .text s := by
  induction texts with
  | nil => exact ⟨[], rfl, nofun⟩
  | cons s rest ih =>
    obtain ⟨keys, hkeys, hall⟩ := ih
    refine ⟨⟨.text s, rfl⟩ :: keys, ?_, ?_⟩
    · unfold Key.ofValues? at hkeys ⊢
      rw [List.map_cons, List.mapM_cons, hkeys]
      rfl
    · refine List.forall_mem_cons.mpr ⟨⟨_, List.mem_cons_self, rfl⟩, fun t ht => ?_⟩
      obtain ⟨k, hk, hkt⟩ := hall t ht
      exact ⟨k, List.mem_cons_of_mem _ hk, hkt⟩

theorem mapM_document (docs : List Document) :
    (docs.map Value.object).mapM document = .ok docs := by
  rw [mapM_ok_iff, List.forall₂_map_left_iff]
  exact List.forall₂_same.mpr fun _ _ => rfl

variable [LE T] [DecidableLE T] [Timeline T] {now : T}

/-- What resolving some documents answers. -/
def rows (r : Resolver T) (now : T) (docs : List Document) : Except Failure (List Row) :=
  ((resolveRows now (docs.map .object)).run.run r).1

/-- In every sound state, the rows of a batch are the rows of its documents by themselves. -/
theorem rows_eq (hw : SharesWork first)
    (hnow : (Timeline.after? now first.values.ttl).isSome = true) (h : Sound first r)
    (docs : List Document) : r.rows now docs = docs.mapM (rowOf first.decrypt) := by
  obtain ⟨keys, hkeys, htexts⟩ := ofValues?_texts (docs.flatMap Row.ciphertexts)
  obtain ⟨found, hfound, hlookup, -⟩ := (decryptKeys_ok hw h keys).2 hnow
  unfold rows resolveRows
  rw [run_bind, run_ofExcept, mapM_document]
  dsimp only
  rw [decryptValues, ← List.map_flatMap, hkeys]
  dsimp only
  rw [run_bind_ok hfound, run_ofExcept]
  refine mapM_congr fun d hd => toRow_eq fun s hs => ?_
  obtain ⟨k, hk, hks⟩ := htexts s (List.mem_flatMap.mpr ⟨d, hd, hs⟩)
  exact hlookup k hk s hks

/-- A clock of doubles can always tell when a value expires. -/
theorem isSome_after?_double (now duration : Float) :
    (Timeline.after? (Number.Quantity.double now) (.double duration)).isSome = true := rfl

/-- **A row depends on its document alone.** Whatever was asked of a resolver before, at whatever
times, resolving some documents answers with the row of each of them, in order, that a resolver with
empty caches answers for this document alone, or fails as the first document that fails alone does.
The passwords of a row are what its own stored passwords decrypt to. The clock need only be able to
tell when a value that is set now expires. -/
theorem rows_alone (decrypt : String → Except DecryptionError String) (workers : Workers)
    (valueTtl listTtl : T) (hw : ∀ n, workers.chunkSize = some n → 0 ≤ n)
    (history : List (T × Call)) (now : T) (hnow : (Timeline.after? now valueTtl).isSome = true)
    (docs : List Document) :
    let first := fresh decrypt workers valueTtl listTtl
    (∀ rows, (first.run history).rows now docs = .ok rows ↔
      List.Forall₂ (fun d row => first.rows now [d] = .ok [row]) docs rows) ∧
    (∀ e, (first.run history).rows now docs = .error e ↔
      ∃ before d after, docs = before ++ d :: after ∧
        (∀ c ∈ before, ∃ row, first.rows now [c] = .ok [row]) ∧ first.rows now [d] = .error e) ∧
    ∀ rows, (first.run history).rows now docs = .ok rows →
      List.Forall₂ (fun d row => row.otaPassword =
        if shownPasswords decrypt d = [] then none
        else some (", ".intercalate (shownPasswords decrypt d))) docs rows := by
  intro first
  have hw : SharesWork first := hw
  have hfirst : Sound first first := sound_fresh decrypt workers valueTtl listTtl
  have hbatch : (first.run history).rows now docs = docs.mapM (rowOf decrypt) :=
    rows_eq hw hnow (sound_run hw hfirst history) docs
  have halone : ∀ d, first.rows now [d] = (rowOf decrypt d).map fun row => [row] := by
    intro d
    rw [rows_eq hw hnow hfirst]
    change [d].mapM (rowOf decrypt) = _
    rw [List.mapM_cons, List.mapM_nil]
    cases rowOf decrypt d <;> rfl
  have hok : ∀ d row, first.rows now [d] = .ok [row] ↔ rowOf decrypt d = .ok row := by
    intro d row
    rw [halone, map_ok_iff]
    simp
  have herror : ∀ d e, first.rows now [d] = .error e ↔ rowOf decrypt d = .error e := by
    intro d e
    rw [halone, map_error_iff]
  rw [hbatch]
  refine ⟨fun rows => ?_, fun e => ?_, fun rows h => ?_⟩
  · simp only [mapM_ok_iff, hok]
  · simp only [mapM_error_iff, hok, herror]
  · exact (mapM_ok_iff.mp h).imp fun _ _ => otaPassword_of_rowOf

/-- A document twice in a batch, at a time before that at which its password was cached. -/
theorem rows_alone_clock_set_back :
    let first : Resolver Number.Quantity :=
      fresh (fun s => if s = "c" then .ok "p" else .error .noSeparator) ⟨2, none⟩ (.double 300)
        (.double 300)
    let d : Document := [("type_of_ota", .list [.text "Agoda"]),
      ("credentials", .object [("agoda_password", .text "c"), ("expedia_password", .text "x")])]
    ∃ row, (first.run [(.double 50, .decryptValues [.text "c"])]).rows (.double (-7)) [d, d] =
        .ok [row, row] ∧ row.otaPassword = some "p" := by
  intro first d
  obtain ⟨row, hrow⟩ : ∃ row, first.rows (.double (-7)) [d] = .ok [row] := ⟨_, rfl⟩
  obtain ⟨hok, -, hshown⟩ := rows_alone first.decrypt ⟨2, none⟩ first.values.ttl (.double 300) nofun
    [(.double 50, .decryptValues [.text "c"])] (.double (-7)) (isSome_after?_double _ _) [d, d]
  have hrows := (hok [row, row]).mpr (.cons hrow (.cons hrow .nil))
  obtain ⟨hpassword, -⟩ := List.forall₂_cons.mp (hshown _ hrows)
  exact ⟨row, hrows, hpassword⟩

end AuditReport.Resolver
