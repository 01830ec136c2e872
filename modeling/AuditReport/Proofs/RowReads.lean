import AuditReport.Proofs.DocumentFields
import AuditReport.Proofs.RowPasswords

/-! What a row is read from: some fields of an audit, some fields of what is joined to it, and the
credentials of the providers that the audit names. Whatever else a document holds has no part in its
row. -/

namespace AuditReport

namespace Row

open Schema

variable {d e : Document}

/-- The fields of an audit that its row is read from. -/
def auditFields : List String :=
  ["_id", "property_id", "billing_type", "type_of_ota", "start_date", "end_date",
    "amount_collectable", "amount_confirmed", "is_archived", "created_at"]

/-- The fields of joined documents that a row is read from, apart from the credentials. -/
def joinedFields : List (String × String) :=
  [("property", "portfolio_id"), ("property", "name"), ("property", "is_active"),
    ("property", "next_due_date"), ("portfolio", "name"), ("portfolio", "contact_email"),
    ("currency", "code"), ("currency", "symbol"), ("serviceType", "type"),
    ("auditStatus", "status"), ("batch", "batch_no")]

/-- Two documents hold the same in all fields that a row is read from, the credentials aside. -/
structure AlikeApart (d e : Document) : Prop where
  audit : ∀ name ∈ auditFields, d.get name = e.get name
  joined : ∀ field ∈ joinedFields, (part d field.1).get field.2 = (part e field.1).get field.2

/-- What the credentials hold for a provider. -/
def credentialSuffixes : List String := ["id", "username", "password"]

/-- Two documents hold the same credentials of every provider. -/
def SameCredentials (d e : Document) : Prop :=
  ∀ p ∈ Audit.providers, ∀ suffix ∈ credentialSuffixes,
    credential d p suffix = credential e p suffix

theorem AlikeApart.providers_eq (h : AlikeApart d e) : providers d = providers e := by
  rw [providers, providers, h.audit "type_of_ota" (by decide)]

theorem mem_providersOf {p : String} {v : Value} : p ∈ providersOf v ↔
    p ∈ Audit.providers ∧ ∃ items, v = .list items ∧ ∃ w ∈ items, Text.fold w.shown = p := by
  unfold providersOf
  split
  · next items =>
    simp only [List.mem_eraseDups, List.mem_filter, List.mem_map, List.contains_iff_mem,
      Value.list.injEq, exists_eq_left', and_comm]
  · next hother =>
    constructor
    · nofun
    · rintro ⟨-, items, rfl, -⟩
      exact absurd rfl (hother items)

theorem mem_providers {p : String} (hp : p ∈ providers d) : p ∈ Audit.providers :=
  (mem_providersOf.mp hp).1

/-- A row with the credentials of a document and the displayed password in the place of its own. -/
def withCredentials (d : Document) (password : Option String) (row : Row) : Row :=
  { row with
    otaId := joinedCredentials d "id"
    otaUsername := joinedCredentials d "username"
    otaPassword := password
    expediaId := textOf? (credential d "expedia" "id")
    expediaUsername := textOf? (credential d "expedia" "username")
    agodaId := textOf? (credential d "agoda" "id")
    agodaUsername := textOf? (credential d "agoda" "username")
    bookingId := textOf? (credential d "booking" "id")
    bookingUsername := textOf? (credential d "booking" "username") }

/-- The credentials have no part in whether a row can be read, and are displayed as they are. -/
theorem read_of_alikeApart (h : AlikeApart d e) (password other : Option String) :
    Row.read e password = (Row.read d other).map (withCredentials e password) := by
  have audit {name : String} (hname : name ∈ auditFields) : e.get name = d.get name :=
    (h.audit name hname).symm
  have joined {name field : String} (hfield : (name, field) ∈ joinedFields) :
      (part e name).get field = (part d name).get field := (h.joined _ hfield).symm
  unfold Row.read
  dsimp only
  simp only [Reading.map_app]
  rw [h.providers_eq]
  simp (disch := decide) only [audit, joined]
  -- Both sides apply the same fourteen readings one after the other, so that only the rows that they
  -- start from are left to compare.
  congr 14
  generalize field "portfolio_name" _ _ = portfolioName
  cases portfolioName <;> rfl

/-! ## Alike with their credentials -/

theorem SameCredentials.of_providers (hc : SameCredentials d e) {suffix : String}
    (hsuffix : suffix ∈ credentialSuffixes) :
    (providers d).map (credential e · suffix) = (providers d).map (credential d · suffix) :=
  List.map_congr_left fun _ hp => (hc _ (mem_providers hp) _ hsuffix).symm

theorem joinedCredentials_congr (h : AlikeApart d e) (hc : SameCredentials d e) {suffix : String}
    (hsuffix : suffix ∈ credentialSuffixes) :
    joinedCredentials e suffix = joinedCredentials d suffix := by
  have hsame := congrArg (List.map textOf?) (hc.of_providers hsuffix)
  rw [List.map_map, List.map_map] at hsame
  unfold joinedCredentials
  rw [← h.providers_eq]
  exact congrArg joined hsame

theorem withCredentials_congr (h : AlikeApart d e) (hc : SameCredentials d e)
    (password : Option String) : withCredentials e password = withCredentials d password := by
  have same {p suffix : String} (hp : p ∈ Audit.providers)
      (hsuffix : suffix ∈ credentialSuffixes) :
      credential e p suffix = credential d p suffix := (hc p hp suffix hsuffix).symm
  have joined {suffix : String} (hsuffix : suffix ∈ credentialSuffixes) :
      joinedCredentials e suffix = joinedCredentials d suffix := joinedCredentials_congr h hc hsuffix
  funext row
  unfold withCredentials
  simp (disch := decide) only [same, joined]

/-- Documents that are alike are read alike. -/
theorem read_congr (h : AlikeApart d e) (hc : SameCredentials d e) (password : Option String) :
    Row.read e password = Row.read d password :=
  calc Row.read e password
    _ = (Row.read d password).map (withCredentials e password) := read_of_alikeApart h ..
    _ = (Row.read d password).map (withCredentials d password) := by
      rw [withCredentials_congr h hc]
    _ = Row.read d password := (read_of_alikeApart ⟨fun _ _ => rfl, fun _ _ => rfl⟩ ..).symm

/-- Documents that are alike have the same passwords decrypted. -/
theorem ciphertexts_congr (h : AlikeApart d e) (hc : SameCredentials d e) :
    ciphertexts e = ciphertexts d := by
  rw [ciphertexts_eq, ciphertexts_eq, ← h.providers_eq, hc.of_providers (by decide)]

/-- Documents that are alike display the same passwords. -/
theorem passwords_of_alike (h : AlikeApart d e) (hc : SameCredentials d e)
    (plaintexts : List (String × String)) : passwords e plaintexts = passwords d plaintexts := by
  unfold passwords
  rw [← h.providers_eq, hc.of_providers (by decide)]

end Row

end AuditReport
