/-!
# Cutting lists into pieces

`chunks n xs` cuts a list into pieces of `n` items, the last one of what is left. A size of zero counts
as one.
-/

namespace Pagewright

/-- The pieces of a list, `n` items each. -/
def chunks (n : Nat) : List α → List (List α)
  | [] => []
  | x :: rest => (x :: rest.take (n - 1)) :: chunks n (rest.drop (n - 1))
termination_by xs => xs.length
decreasing_by simp only [List.length_drop, List.length_cons]; omega

@[simp] theorem chunks_nil (n : Nat) : chunks n ([] : List α) = [] := by rw [chunks]

theorem chunks_cons (n : Nat) (x : α) (rest : List α) :
    chunks n (x :: rest) = (x :: rest.take (n - 1)) :: chunks n (rest.drop (n - 1)) := by
  rw [chunks]

/-- Nothing is lost and nothing changes its place. -/
@[simp] theorem flatten_chunks (n : Nat) (xs : List α) : (chunks n xs).flatten = xs := by
  fun_induction chunks n xs with
  | case1 => rfl
  | case2 x rest ih => simp [ih]

theorem mem_of_mem_chunks {n : Nat} {xs piece : List α} (h : piece ∈ chunks n xs) {x : α}
    (hx : x ∈ piece) : x ∈ xs := by
  rw [← flatten_chunks n xs]
  exact List.mem_flatten.mpr ⟨piece, h, hx⟩

theorem length_le_of_mem_chunks {n : Nat} (hn : 0 < n) {xs piece : List α} (h : piece ∈ chunks n xs) :
    piece.length ≤ n := by
  fun_induction chunks n xs with
  | case1 => simp at h
  | case2 x rest ih =>
    rcases List.mem_cons.mp h with rfl | h
    · simp only [List.length_cons, List.length_take]
      omega
    · exact ih h

end Pagewright
