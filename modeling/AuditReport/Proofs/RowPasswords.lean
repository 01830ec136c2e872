import AuditReport.Proofs.Readings
import AuditReport.Report.Row

/-! The passwords of a row. They depend on what the stored passwords of the listed providers decrypt
to and on nothing else. -/

namespace AuditReport

open Fallible

namespace Row

variable {d : Document} {plaintexts : List (String × String)}

/-- The stored password that a value is, if it is worth decrypting. -/
def ciphertext? : Value → Option String
  | .text s => if s.isEmpty then none else some s
  | _ => none

theorem ciphertexts_eq (d : Document) :
    ciphertexts d =
      ((providers d).map fun p => credential d p "password").filterMap ciphertext? := by
  rw [List.filterMap_map]
  rfl

theorem mem_ciphertexts {s : String} {stored : List Value} (hs : s.isEmpty = false)
    (h : Value.text s ∈ stored) : s ∈ stored.filterMap ciphertext? :=
  List.mem_filterMap.mpr ⟨_, h, by simp [ciphertext?, hs]⟩

/-- Only what stands for the document's own stored passwords matters. -/
theorem passwords_congr {others : List (String × String)}
    (h : ∀ s ∈ ciphertexts d, plaintexts.lookup s = others.lookup s) :
    passwords d plaintexts = passwords d others := by
  unfold passwords
  rw [ciphertexts_eq] at h
  dsimp only
  rw [mapM_congr fun v hv => ?_]
  obtain ⟨hv, hfilled⟩ := List.mem_filter.mp hv
  cases v with
  | text s =>
    have hs : s.isEmpty = false := by simpa [Value.isEmpty] using hfilled
    exact congrArg _ (h s (mem_ciphertexts hs hv))
  | _ => rfl

/-- What the stored passwords stand for, in order. -/
theorem found_texts {stored : List Value} {found : List (Option String)}
    (h : (stored.filter (!·.isEmpty)).mapM (plaintext plaintexts) = .ok found) :
    (found.map fun p => p.filter (!·.isEmpty)).filterMap id =
      (stored.filterMap ciphertext?).filterMap fun s =>
        (plaintexts.lookup s).filter (!·.isEmpty) := by
  rw [mapM_ok_iff] at h
  rw [List.filterMap_map]
  induction stored generalizing found with
  | nil => cases h; rfl
  | cons v rest ih =>
    cases hv : v.isEmpty with
    | true =>
      have hnone : ciphertext? v = none := by
        cases v with
        | text s => exact if_pos hv
        | _ => rfl
      rw [List.filter_cons_of_neg (by simp [hv])] at h
      rw [List.filterMap_cons_none hnone, ih h]
    | false =>
      rw [List.filter_cons_of_pos (by simp [hv])] at h
      obtain ⟨p, ps, hp, hps, rfl⟩ := List.forall₂_cons_left_iff.mp h
      rw [List.filterMap_cons, ih hps]
      cases v with
      | text s =>
        cases hp
        have hsome : ciphertext? (.text s) = some s := if_neg (by simpa [Value.isEmpty] using hv)
        rw [List.filterMap_cons_some hsome, List.filterMap_cons]
        rfl
      | list | object => cases hp
      | _ => cases hp; rfl

/-- What is displayed as the passwords of a document: the texts that its stored passwords stand for,
in the order of the providers, without the empty ones. -/
theorem passwords_ok {password : Option String} (h : passwords d plaintexts = .ok password) :
    password = joined ((ciphertexts d).map fun s =>
      (plaintexts.lookup s).filter (!·.isEmpty)) := by
  obtain ⟨found, hfound, h⟩ := bind_ok_iff.mp h
  cases h
  unfold joined
  rw [found_texts hfound, ← ciphertexts_eq, List.filterMap_map]
  rfl

/-- The row displays the passwords that it is given, the providers of its document, and whether the
archive flag is set in it. -/
theorem shown_of_read {password : Option String} {row : Row} (h : Row.read d password = .ok row) :
    row.otaPassword = password ∧ row.otaType = providers d ∧
      row.isArchived = !(d.get "is_archived").isEmpty := by
  unfold Row.read at h
  dsimp only at h
  -- One step for each part that may be faulty.
  iterate 14
    rw [Schema.Reading.app_ok_iff] at h
    obtain ⟨_, _, h, -, rfl⟩ := h
  obtain ⟨_, -, rfl⟩ := map_ok_iff.mp h
  exact ⟨rfl, rfl, rfl⟩

theorem otaPassword_of_read {password : Option String} {row : Row}
    (h : Row.read d password = .ok row) : row.otaPassword = password := (shown_of_read h).1

end Row

end AuditReport
