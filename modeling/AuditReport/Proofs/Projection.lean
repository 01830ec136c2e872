import AuditReport.Proofs.RowReads
import AuditReport.Proofs.RowsAlone

/-! Documents as the store yields them. A query ends in an inclusion of the catalog's paths; a row
that is made of what they keep is the row of the whole document. -/

namespace AuditReport

namespace Projection

variable {paths : List (List String)} {d : Document} {name : String}

/-- The steps of a dotted path. -/
def steps (path : String) : List String := (path.toList.splitOn '.').map String.ofList

/-- What is left, behind a field's name, of the paths that lead into it. -/
def into (name : String) (paths : List (List String)) : List (List String) :=
  paths.filterMap fun
    | first :: rest => if first = name then some rest else none
    | [] => none

mutual

/-- What paths keep of a value: all of it where one of them ends, the fields that they lead into if
it is an object, and nothing of any other value. -/
def kept (paths : List (List String)) (v : Value) : Option Value :=
  if [] ∈ paths then some v
  else match v with
    | .object fields => if paths = [] then none else some (.object (keptFields paths fields))
    | _ => none

/-- The fields that paths lead into, with what they keep of them. The first of the fields with one
name counts. -/
def keptFields (paths : List (List String)) : List (String × Value) → List (String × Value)
  | [] => []
  | (name, v) :: rest =>
    match kept (into name paths) v with
    | some v => (name, v) :: Document.without (keptFields paths rest) name
    | none => Document.without (keptFields paths rest) name

end

/-- What an inclusion of paths keeps of a document. -/
def project (paths : List String) (d : Document) : Document := keptFields (paths.map steps) d

example :
    project ["a", "b.x", "c.x"]
        [("c", .text "x"), ("b", .object [("y", .null), ("x", .int 1)]), ("d", .int 2)] =
      [("b", .object [("x", .int 1)])] := by
  rfl

theorem kept_of_end (h : [] ∈ paths) (v : Value) : kept paths v = some v := by
  unfold kept
  exact if_pos h

theorem mem_into {rest : List String} (h : name :: rest ∈ paths) : rest ∈ into name paths :=
  List.mem_filterMap.mpr ⟨_, h, if_pos rfl⟩

/-- A field of what is kept is what is kept of the field. -/
theorem get?_keptFields :
    Document.get? (keptFields paths d) name = (d.get? name).bind (kept (into name paths)) := by
  induction d with
  | nil => rw [keptFields]; rfl
  | cons field rest ih =>
    obtain ⟨first, v⟩ := field
    rw [keptFields, Document.get?_cons]
    by_cases hname : first = name
    · rw [if_pos hname, ← hname, Option.bind_some]
      cases kept (into first paths) v with
      | none => exact Document.get?_without.trans (if_pos rfl)
      | some w => exact Document.get?_cons.trans (if_pos rfl)
    · rw [if_neg hname, ← ih]
      cases kept (into first paths) v with
      | none => exact Document.get?_without.trans (if_neg hname)
      | some w =>
        exact (Document.get?_cons.trans (if_neg hname)).trans
          (Document.get?_without.trans (if_neg hname))

theorem get_keptFields (h : [name] ∈ paths) : Document.get (keptFields paths d) name = d.get name := by
  have hkept : kept (into name paths) = some := funext (kept_of_end (mem_into h))
  rw [Document.get, get?_keptFields, hkept, Option.bind_fun_some]
  rfl

theorem part_keptFields {field : String} (h : [name, field] ∈ paths) :
    (Row.part (keptFields paths d) name).get field = (Row.part d name).get field := by
  have hfield : [field] ∈ into name paths := mem_into h
  simp only [Row.part, Document.get, get?_keptFields]
  cases d.get? name with
  | none => rfl
  | some v =>
    rw [Option.bind_some]
    unfold kept
    split
    · rfl
    · cases v with
      | object fields =>
        simp only [List.ne_nil_of_mem hfield, if_false]
        exact get_keptFields hfield
      | _ => rfl

/-! ## The catalog's paths -/

/-- The catalog names every field that a row is read from. -/
theorem mem_catalog_paths :
    (∀ name ∈ Row.auditFields, [name] ∈ Audit.catalog.paths.map steps) ∧
      (∀ field ∈ Row.joinedFields, [field.1, field.2] ∈ Audit.catalog.paths.map steps) ∧
      ∀ p ∈ Audit.providers, ∀ suffix ∈ Row.credentialSuffixes,
        ["credentials", p ++ "_" ++ suffix] ∈ Audit.catalog.paths.map steps := by
  decide +kernel

theorem alikeApart_project (d : Document) : Row.AlikeApart d (project Audit.catalog.paths d) where
  audit name hname := (get_keptFields (mem_catalog_paths.1 name hname)).symm
  joined field hfield := (part_keptFields (mem_catalog_paths.2.1 field hfield)).symm

theorem sameCredentials_project (d : Document) :
    Row.SameCredentials d (project Audit.catalog.paths d) :=
  fun p hp suffix hsuffix => (part_keptFields (mem_catalog_paths.2.2 p hp suffix hsuffix)).symm

end Projection

namespace Resolver

open Projection Fallible

/-- A row is the same whether it is made of a whole document or of what is kept of it. -/
theorem toRow_project (plaintexts : List (String × String)) (d : Document) :
    toRow plaintexts (project Audit.catalog.paths d) = toRow plaintexts d := by
  have halike := alikeApart_project d
  have hcredentials := sameCredentials_project d
  unfold toRow
  rw [Row.passwords_of_alike halike hcredentials]
  cases Row.passwords d plaintexts with
  | error e => rfl
  | ok password =>
    dsimp only
    rw [Row.read_congr halike hcredentials]

theorem ciphertexts_project (d : Document) :
    Row.ciphertexts (project Audit.catalog.paths d) = Row.ciphertexts d :=
  Row.ciphertexts_congr (alikeApart_project d) (sameCredentials_project d)

variable {T : Type} [LE T] [DecidableLE T] [Timeline T]

/-- **The projection loses nothing.** Of a document, whatever it holds, and of what an inclusion of
the catalog's paths keeps of it, the same stored passwords are decrypted and the same row is made, or
it fails with the same error. So a batch comes to the same in every state of a resolver: the same
answer, the same decryptions and the same caches. -/
theorem projection_loses_nothing :
    (∀ d : Document,
      Row.ciphertexts (project Audit.catalog.paths d) = Row.ciphertexts d ∧
      ∀ plaintexts, toRow plaintexts (project Audit.catalog.paths d) = toRow plaintexts d) ∧
    ∀ (now : T) (docs : List Document) (r : Resolver T),
      (resolveRows now (docs.map fun d => .object (project Audit.catalog.paths d))).run.run r =
        (resolveRows now (docs.map .object)).run.run r := by
  refine ⟨fun d => ⟨ciphertexts_project d, fun plaintexts => toRow_project plaintexts d⟩,
    fun now docs r => ?_⟩
  have hkept : docs.map (fun d => Value.object (project Audit.catalog.paths d)) =
      (docs.map (project Audit.catalog.paths)).map .object := by
    rw [List.map_map]
    rfl
  have hciphertexts : (docs.map (project Audit.catalog.paths)).flatMap
      (fun d => (Row.ciphertexts d).map Value.text) =
        docs.flatMap fun d => (Row.ciphertexts d).map Value.text := by
    simp only [List.flatMap_map, ciphertexts_project]
  have hrows (plaintexts : List (String × String)) :
      (docs.map (project Audit.catalog.paths)).mapM (toRow plaintexts) =
        docs.mapM (toRow plaintexts) := by
    rw [List.mapM_map]
    exact mapM_congr fun d _ => toRow_project plaintexts d
  have hrun (ds : List Document) : (resolveRows now (ds.map .object)).run.run r =
      (decryptValues now (ds.flatMap fun d => (Row.ciphertexts d).map Value.text) >>=
        fun plaintexts => ofExcept (ds.mapM (toRow plaintexts))).run.run r := by
    rw [resolveRows, run_bind, run_ofExcept, mapM_document]
  rw [hkept, hrun, hrun, hciphertexts]
  simp only [hrows]

end Resolver

end AuditReport
