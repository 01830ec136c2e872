/-! Splitting a list into consecutive pieces of one size. -/

namespace AuditReport

/-- Consecutive pieces of `size` elements, the last one perhaps shorter. A size of zero counts as
one. -/
def chunksOf {α : Type} (size : Nat) : List α → List (List α)
  | [] => []
  | x :: xs => (x :: xs.take (size - 1)) :: chunksOf size (xs.drop (size - 1))
termination_by xs => xs.length
decreasing_by simp only [List.length_drop, List.length_cons]; omega

theorem flatten_chunksOf {α : Type} (size : Nat) (xs : List α) :
    (chunksOf size xs).flatten = xs := by
  fun_induction chunksOf size xs with
  | case1 => rfl
  | case2 x xs ih => simp [ih, List.take_append_drop]

end AuditReport
