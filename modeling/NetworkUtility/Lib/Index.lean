import Mathlib.Data.List.Basic

/-! A list around one of its indices, and at some of them. -/
namespace NetworkUtility.Index

variable {α : Type} {p : α → Bool} {l : List α} {a b : α} {i : Nat}

/-- The `i`-th element splits the list; erasing and replacing it act at the split. -/
theorem split_at (h : l[i]? = some a) :
    ∃ front back, l = front ++ a :: back ∧ l.eraseIdx i = front ++ back ∧
      ∀ b, l.set i b = front ++ b :: back := by
  obtain ⟨hi, rfl⟩ := List.getElem?_eq_some_iff.mp h
  refine ⟨l.take i, l.drop (i + 1), ?_, List.eraseIdx_eq_take_drop_succ .., fun b => ?_⟩
  · rw [List.getElem_cons_drop, List.take_append_drop]
  · rw [List.set_eq_take_append_cons_drop, if_pos hi]

theorem countP_eraseIdx (h : l[i]? = some a) :
    l.countP p = (l.eraseIdx i).countP p + (p a).toNat := by
  obtain ⟨front, back, hl, he, -⟩ := split_at h
  rw [he, hl, List.countP_append, List.countP_append, List.countP_cons]
  have htoNat : (p a).toNat = if p a then 1 else 0 := by cases p a <;> rfl
  omega

theorem countP_set (h : l[i]? = some a) (hb : p b = p a) : (l.set i b).countP p = l.countP p := by
  obtain ⟨front, back, hl, -, hs⟩ := split_at h
  rw [hs, hl, List.countP_append, List.countP_append, List.countP_cons, List.countP_cons, hb]

theorem mem_eraseIdx_of_ne (h : l[i]? = some a) (hb : b ∈ l) (hne : b ≠ a) :
    b ∈ l.eraseIdx i := by
  obtain ⟨front, back, hl, he, -⟩ := split_at h
  rw [hl, List.mem_append, List.mem_cons] at hb
  rw [he, List.mem_append]
  rcases hb with hb | hb | hb
  · exact Or.inl hb
  · exact absurd hb hne
  · exact Or.inr hb

/-- The elements at increasing indices are a part of the list in its order. -/
theorem filterMap_getElem?_sublist {ks : List Nat} (h : ks.Pairwise (· < ·)) :
    (ks.filterMap fun k => l[k]?).Sublist l := by
  have hfin : (ks.filterMap fun k => if hk : k < l.length then some (Fin.mk k hk) else none).Pairwise
      (· < ·) := by
    refine h.filterMap _ fun a a' hlt b hb b' hb' => ?_
    split_ifs at hb hb'
    cases hb
    cases hb'
    exact hlt
  have hsub := List.map_getElem_sublist hfin
  rw [List.map_filterMap] at hsub
  have hsame : (fun k => l[k]?) =
      fun k => (if hk : k < l.length then some (Fin.mk k hk) else none).map (l[·]) := by
    funext k
    by_cases hk : k < l.length
    · rw [List.getElem?_eq_getElem hk, dif_pos hk]
      rfl
    · rw [List.getElem?_eq_none (Nat.not_lt.mp hk), dif_neg hk]
      rfl
  rw [hsame]
  exact hsub

theorem filterMap_getElem?_range (l : List α) :
    ((List.range l.length).filterMap fun k => l[k]?) = l := by
  induction l with
  | nil => rfl
  | cons a l ih =>
    rw [List.length_cons, List.range_succ_eq_map, List.filterMap_cons, List.filterMap_map]
    exact congrArg (a :: ·) ih

end NetworkUtility.Index
