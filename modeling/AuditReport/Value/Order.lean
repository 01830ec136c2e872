import AuditReport.Number.Quantity
import AuditReport.Value

/-! Equality and order of values. Truth values and numbers compare by the number they stand for;
moments compare as instants, or as clock readings when neither has an offset. -/

namespace AuditReport

namespace Calendar.Moment

/-- Order of two moments; there is none between one with an offset and one without. -/
def compare? (s t : Moment) : Option Ordering :=
  match s.instant?, t.instant? with
  | some m, some n => some (compare m n)
  | none, none => some (compare s.reading t.reading)
  | _, _ => none

end Calendar.Moment

namespace Value

/-- The number that a truth value or a number stands for. -/
def quantity? : Value → Option Number.Quantity
  | bool b => some (.whole (if b then 1 else 0))
  | int n => some (.whole n)
  | float x => some (.double x)
  | _ => none

mutual

/-- Equality of values. Objects are equal when they have the same names with equal values. -/
def equal : Value → Value → Bool
  | null, null => true
  | text s, text t => s == t
  | moment s, moment t => s.compare? t == some .eq
  | day c, day d => c == d
  | id i, id j => i == j
  | bytes bs, bytes cs => bs == cs
  | list xs, list ys => equalItems xs ys
  | object fs, object gs => fs.length == gs.length && equalFields fs gs
  | v, w =>
    match v.quantity?, w.quantity? with
    | some a, some b => a.compare? b == some .eq
    | _, _ => false

/-- Equality of lists, item by item. -/
def equalItems : List Value → List Value → Bool
  | [], [] => true
  | x :: xs, y :: ys => equal x y && equalItems xs ys
  | _, _ => false

/-- Each field has an equal value under its name in the other object. -/
def equalFields : List (String × Value) → List (String × Value) → Bool
  | [], _ => true
  | (k, v) :: rest, gs =>
    (match Document.get? gs k with
      | some w => equal v w
      | none => false) && equalFields rest gs

end

mutual

/-- Whether the first value comes before the second; `none` where the two have no order. -/
def before? : Value → Value → Option Bool
  | text s, text t => some (s < t)
  | moment s, moment t => (s.compare? t).map (· == .lt)
  | day c, day d => some (c.ordinal < d.ordinal)
  | id i, id j => some (i.value < j.value)
  | bytes bs, bytes cs => some (bs < cs)
  | list xs, list ys => beforeItems? xs ys
  | v, w =>
    match v.quantity?, w.quantity? with
    | some a, some b => some (a.compare? b == some .lt)
    | _, _ => none

/-- Lists are ordered by the first items that differ, and a list comes before its extensions. -/
def beforeItems? : List Value → List Value → Option Bool
  | [], ys => some !ys.isEmpty
  | _ :: _, [] => some false
  | x :: xs, y :: ys => if equal x y then beforeItems? xs ys else before? x y

end

/-- Every two values at different places of the list have an order. -/
def allComparable : List Value → Bool
  | [] => true
  | x :: rest => rest.all (fun y => (before? x y).isSome) && allComparable rest

/-- The values in ascending order, equal ones in their given order; `none` if two of them have no
order. -/
def sorted? (xs : List Value) : Option (List Value) :=
  if allComparable xs then some (xs.mergeSort fun x y => before? y x != some true) else none

end Value

/-- The first occurrences of the values of a list, values `same` as an earlier one left out. -/
def distinctBy {α : Type} (same : α → α → Bool) (xs : List α) : List α :=
  (xs.foldl (fun seen x => if seen.any (same x) then seen else x :: seen) []).reverse

end AuditReport
