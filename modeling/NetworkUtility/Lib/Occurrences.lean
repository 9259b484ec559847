import Mathlib.Data.List.Basic
import Mathlib.Data.List.Infix

/-! How often a pattern occurs in a list, and what of that a part of the list decides. A pattern is not
empty; occurrences may overlap. -/
namespace NetworkUtility.Occurrences

variable {α : Type} {p xs : List α} {c : α}

/-- A prefix without an element ends in front of it. -/
theorem prefix_append_cons (hc : c ∉ p) (xs ys : List α) : p <+: xs ++ c :: ys ↔ p <+: xs := by
  constructor
  · intro hpre
    rcases Nat.lt_or_ge xs.length p.length with hlt | hle
    · have hxs : xs ++ [c] <+: p := by
        have hall : xs ++ [c] <+: xs ++ c :: ys := ⟨ys, by simp⟩
        refine List.prefix_of_prefix_length_le hall hpre ?_
        rw [List.length_append]
        exact hlt
      exact absurd (hxs.subset (by simp)) hc
    · exact List.prefix_of_prefix_length_le hpre (List.prefix_append _ _) hle
  · exact fun hpre => hpre.trans (List.prefix_append _ _)

variable [DecidableEq α]

def occurrences (p : List α) : List α → Nat
  | [] => 0
  | x :: xs => (if p.isPrefixOf (x :: xs) then 1 else 0) + occurrences p xs

theorem occurrences_cons (p : List α) (x : α) (xs : List α) :
    occurrences p (x :: xs) = (if p <+: x :: xs then 1 else 0) + occurrences p xs := by
  simp only [occurrences, List.isPrefixOf_iff_prefix]

theorem occurrences_eq_zero (hp : p ≠ []) : occurrences p xs = 0 ↔ ¬ p <:+: xs := by
  induction xs with
  | nil => simp [occurrences, hp]
  | cons x xs ih =>
    rw [occurrences_cons, List.infix_cons_iff, not_or, ← ih]
    by_cases hpre : p <+: x :: xs
    · simp [hpre]
    · simp [hpre]

/-- An element that the pattern does not start with. -/
theorem occurrences_cons_of_head (hc : p.head? ≠ some c) (hp : p ≠ []) (ys : List α) :
    occurrences p (c :: ys) = occurrences p ys := by
  have hpre : ¬ p <+: c :: ys := by
    cases p with
    | nil => exact absurd rfl hp
    | cons b p =>
      intro hpre
      obtain ⟨rfl, -⟩ := List.cons_prefix_cons.mp hpre
      exact hc rfl
  rw [occurrences_cons, if_neg hpre, Nat.zero_add]

theorem occurrences_append_of_head (hhead : p.head? = some c) (hc : c ∉ xs) (ys : List α) :
    occurrences p (xs ++ ys) = occurrences p ys := by
  have hp : p ≠ [] := by
    rintro rfl
    cases hhead
  induction xs with
  | nil => rfl
  | cons x xs ih =>
    rw [List.mem_cons, not_or] at hc
    have hx : p.head? ≠ some x := by
      rw [hhead, Ne, Option.some.injEq]
      exact hc.1
    rw [List.cons_append, occurrences_cons_of_head hx hp, ih hc.2]

/-- Nothing occurs across an element that is at most the first of the pattern. -/
theorem occurrences_append_cons (hc : c ∉ p.tail) (xs ys : List α) :
    occurrences p (xs ++ c :: ys) = occurrences p xs + occurrences p (c :: ys) := by
  induction xs with
  | nil => simp [occurrences]
  | cons x xs ih =>
    have hpre : p <+: x :: (xs ++ c :: ys) ↔ p <+: x :: xs := by
      cases p with
      | nil => simp
      | cons b p =>
        have hrest : p <+: xs ++ c :: ys ↔ p <+: xs := prefix_append_cons hc xs ys
        rw [List.cons_prefix_cons, List.cons_prefix_cons, hrest]
    rw [List.cons_append, occurrences_cons, occurrences_cons, ih, Nat.add_assoc]
    simp only [hpre]

/-- An element that is not in the pattern keeps the two sides apart. -/
theorem occurrences_separated (hp : p ≠ []) (hc : c ∉ p) (xs ys : List α) :
    occurrences p (xs ++ c :: ys) = occurrences p xs + occurrences p ys := by
  have hhead : p.head? ≠ some c := fun h => hc (List.mem_of_head? h)
  rw [occurrences_append_cons (fun h => hc (List.mem_of_mem_tail h)),
    occurrences_cons_of_head hhead hp]

/-- One element more can be the end of one occurrence more. -/
theorem occurrences_concat (hp : p ≠ []) (xs : List α) (c : α) :
    occurrences p (xs ++ [c]) = occurrences p xs + if p <:+ xs ++ [c] then 1 else 0 := by
  induction xs with
  | nil =>
    have hends : p <+: [c] ↔ p <:+ [c] := by
      rw [List.suffix_cons_iff, List.suffix_nil, List.prefix_cons_iff]
      simp [hp]
    simp only [List.nil_append, occurrences_cons, hends, occurrences, Nat.add_comm]
  | cons x xs ih =>
    rw [List.cons_append, occurrences_cons, occurrences_cons, ih]
    by_cases hall : p = x :: (xs ++ [c])
    · have hpre : ¬ p <+: x :: xs := by
        intro hpre
        have hle := hpre.length_le
        rw [hall] at hle
        simp only [List.length_cons, List.length_append, List.length_nil] at hle
        omega
      have hsuf : ¬ p <:+ xs ++ [c] := by
        intro hsuf
        have hle := hsuf.length_le
        rw [hall] at hle
        simp only [List.length_cons, List.length_append, List.length_nil] at hle
        omega
      have hpre' : p <+: x :: (xs ++ [c]) := hall ▸ List.prefix_refl _
      have hsuf' : p <:+ x :: (xs ++ [c]) := hall ▸ List.suffix_refl _
      simp only [hpre, hsuf, hpre', hsuf', if_true, if_false]
      omega
    · have hpre : p <+: x :: (xs ++ [c]) ↔ p <+: x :: xs := by
        rw [← List.cons_append, List.prefix_concat_iff]
        exact or_iff_right hall
      have hsuf : p <:+ x :: (xs ++ [c]) ↔ p <:+ xs ++ [c] := by
        rw [List.suffix_cons_iff]
        exact or_iff_right hall
      simp only [hpre, hsuf, Nat.add_assoc]

end NetworkUtility.Occurrences
