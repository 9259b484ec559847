import Mathlib.Data.List.Infix

/-! The first occurrence of a pattern in a list, as an offset. -/
namespace NetworkUtility.Search

variable {α : Type} [DecidableEq α] {p xs ys : List α} {c : α} {i n : Nat}

def search (p : List α) : List α → Option Nat
  | [] => if p = [] then some 0 else none
  | x :: xs => if p.isPrefixOf (x :: xs) then some 0 else (search p xs).map (· + 1)

/-- The first occurrence that does not begin before an offset. -/
def searchFrom (p xs : List α) (n : Nat) : Option Nat := (search p (xs.drop n)).map (n + ·)

theorem search_cons (p : List α) (x : α) (xs : List α) :
    search p (x :: xs) = if p <+: x :: xs then some 0 else (search p xs).map (· + 1) := by
  simp only [search, List.isPrefixOf_iff_prefix]

theorem search_eq_none : search p xs = none ↔ ¬ p <:+: xs := by
  induction xs with
  | nil => simp [search]
  | cons x xs ih =>
    rw [search_cons, List.infix_cons_iff, not_or, ← ih]
    by_cases hpre : p <+: x :: xs
    · simp [hpre]
    · simp [hpre]

/-- The pattern stands where it has been found. -/
theorem prefix_of_search (h : search p xs = some i) : p <+: xs.drop i := by
  induction xs generalizing i with
  | nil =>
    by_cases hp : p = []
    · simp [hp]
    · simp [search, hp] at h
  | cons x xs ih =>
    rw [search_cons] at h
    split at h
    · next hpre =>
      obtain rfl := Option.some.inj h
      exact hpre
    · obtain ⟨j, hj, rfl⟩ := Option.map_eq_some_iff.mp h
      exact ih hj

theorem search_prefix (h : p <+: xs) : search p xs = some 0 := by
  cases xs with
  | nil => simp [search, List.prefix_nil.mp h]
  | cons x xs => rw [search_cons, if_pos h]

/-- What does not contain the first symbol of the pattern is passed over. -/
theorem search_append (h : c ∉ xs) (p ys : List α) :
    search (c :: p) (xs ++ ys) = (search (c :: p) ys).map (xs.length + ·) := by
  induction xs with
  | nil => simp
  | cons x xs ih =>
    rw [List.mem_cons, not_or] at h
    have hpre : ¬ c :: p <+: x :: (xs ++ ys) := fun hpre => h.1 (List.cons_prefix_cons.mp hpre).1
    rw [List.cons_append, search_cons, if_neg hpre, ih h.2, Option.map_map, List.length_cons]
    congr 1
    funext j
    exact Nat.add_right_comm ..

theorem search_of_notMem (h : c ∉ xs) (p : List α) : search (c :: p) xs = none := by
  rw [search_eq_none]
  exact fun hinf => h (hinf.subset List.mem_cons_self)

end NetworkUtility.Search
