import Mathlib.Data.List.Basic

/-! Length-prefixed frames over any alphabet: the frames that stand complete at the front of a
stream, and the streams that are made of whole frames. -/
namespace NetworkUtility.Framing

/-- `bodySize` reads a header of `headSize` symbols; it gives nothing for a header it refuses. -/
structure Format (α : Type) where
  headSize : Nat
  headSize_pos : 0 < headSize
  bodySize : List α → Option Nat

namespace Format

variable {α : Type} {f : Format α} {bs head body rest more : List α} {ps : List (List α)} {n k : Nat}

/-- The body of the first frame and what follows it. -/
def split (f : Format α) (bs : List α) : Option (List α × List α) :=
  if f.headSize ≤ bs.length then
    match f.bodySize (bs.take f.headSize) with
    | some n =>
      if f.headSize + n ≤ bs.length then
        some ((bs.drop f.headSize).take n, bs.drop (f.headSize + n))
      else none
    | none => none
  else none

def framesWithin (f : Format α) : Nat → List α → List (List α)
  | 0, _ => []
  | k + 1, bs =>
    match f.split bs with
    | some (body, rest) => body :: f.framesWithin k rest
    | none => []

/-- The bodies of the complete frames at the front of the stream. -/
def frames (f : Format α) (bs : List α) : List (List α) := f.framesWithin bs.length bs

theorem split_length (h : f.split bs = some (body, rest)) : rest.length < bs.length := by
  have hp := f.headSize_pos
  unfold split at h
  split at h
  · next hl =>
    split at h
    · split at h
      · simp only [Option.some.injEq, Prod.mk.injEq] at h
        rw [← h.2, List.length_drop]
        omega
      · cases h
    · cases h
  · cases h

theorem split_nil : f.split [] = none := by
  have hp := f.headSize_pos
  simp [split]
  omega

/-- Every frame takes at least a header, so the length of the stream is fuel enough. -/
theorem framesWithin_eq {j : Nat} (hk : bs.length ≤ k) (hj : bs.length ≤ j) :
    f.framesWithin k bs = f.framesWithin j bs := by
  induction k generalizing j bs with
  | zero =>
    have hb : bs = [] := List.length_eq_zero_iff.mp (by omega)
    cases j <;> simp [framesWithin, hb, split_nil]
  | succ k ih =>
    cases j with
    | zero =>
      have hb : bs = [] := List.length_eq_zero_iff.mp (by omega)
      simp [framesWithin, hb, split_nil]
    | succ j =>
      cases hs : f.split bs with
      | none => simp [framesWithin, hs]
      | some p =>
        have hl : p.2.length < bs.length := split_length hs
        simp only [framesWithin, hs]
        rw [ih (j := j) (Nat.le_of_lt_succ (by omega)) (Nat.le_of_lt_succ (by omega))]

theorem frames_of_split (h : f.split bs = some (body, rest)) :
    f.frames bs = body :: f.frames rest := by
  have hl := split_length h
  obtain ⟨m, hm⟩ : ∃ m, bs.length = m + 1 := ⟨bs.length - 1, by omega⟩
  rw [frames, hm, framesWithin, h]
  simp only
  rw [framesWithin_eq (j := rest.length) (by omega) (Nat.le_refl _), frames]

theorem frames_of_no_split (h : f.split bs = none) : f.frames bs = [] := by
  unfold frames
  cases bs.length with
  | zero => rfl
  | succ m => simp [framesWithin, h]

theorem split_frame (hl : head.length = f.headSize) (hs : f.bodySize head = some body.length) :
    f.split (head ++ (body ++ rest)) = some (body, rest) := by
  have ht : (head ++ (body ++ rest)).take f.headSize = head := by rw [← hl]; simp
  have hd : (head ++ (body ++ rest)).drop f.headSize = body ++ rest := by rw [← hl]; simp
  simp only [split, ht, hs, hd]
  rw [if_pos (by simp; omega), if_pos (by simp; omega), ← List.drop_drop, hd]
  simp

theorem split_eq_some (h : f.split bs = some (body, rest)) :
    ∃ head, bs = head ++ (body ++ rest) ∧ head.length = f.headSize ∧
      f.bodySize head = some body.length := by
  unfold split at h
  split at h
  · next hl =>
    split at h
    · next n hs =>
      split at h
      · next hn =>
        simp only [Option.some.injEq, Prod.mk.injEq] at h
        obtain ⟨rfl, rfl⟩ := h
        refine ⟨bs.take f.headSize, ?_, List.length_take_of_le hl, ?_⟩
        · rw [← List.drop_drop, List.take_append_drop, List.take_append_drop]
        · rw [hs, List.length_take_of_le (by rw [List.length_drop]; omega)]
      · cases h
    · cases h
  · cases h

theorem split_of_short (h : bs.length < f.headSize) : f.split bs = none := by
  simp [split]
  omega

theorem split_of_refused (hl : head.length = f.headSize) (hs : f.bodySize head = none) :
    f.split (head ++ rest) = none := by
  have ht : (head ++ rest).take f.headSize = head := by rw [← hl]; simp
  simp [split, ht, hs]

theorem split_of_cut (hl : head.length = f.headSize) (hs : f.bodySize head = some n)
    (hb : body.length < n) : f.split (head ++ body) = none := by
  have ht : (head ++ body).take f.headSize = head := by rw [← hl]; simp
  simp only [split, ht, hs]
  rw [if_pos (by simp; omega), if_neg (by simp; omega)]

/-- The stream is a sequence of whole frames with these bodies. -/
inductive Whole (f : Format α) : List α → List (List α) → Prop
  | nil : Whole f [] []
  | cons {head body bs : List α} {ps : List (List α)} :
      head.length = f.headSize → f.bodySize head = some body.length → Whole f bs ps →
      Whole f (head ++ (body ++ bs)) (body :: ps)

theorem Whole.frames_append (h : f.Whole bs ps) (rest : List α) :
    f.frames (bs ++ rest) = ps ++ f.frames rest := by
  induction h with
  | nil => simp
  | cons hl hs _ ih =>
    rw [List.append_assoc, List.append_assoc, frames_of_split (split_frame hl hs), ih,
      List.cons_append]

/-- A tail that holds no complete frame adds nothing. -/
theorem Whole.frames_of_no_split (h : f.Whole bs ps) (hr : f.split rest = none) :
    f.frames (bs ++ rest) = ps := by
  rw [h.frames_append, Format.frames_of_no_split hr, List.append_nil]

theorem Whole.append {cs : List α} {qs : List (List α)} (h : f.Whole bs ps) (h' : f.Whole cs qs) :
    f.Whole (bs ++ cs) (ps ++ qs) := by
  induction h with
  | nil => exact h'
  | cons hl hs _ ih => simpa only [List.append_assoc, List.cons_append] using Whole.cons hl hs ih

theorem Whole.snoc (h : f.Whole bs ps) (hl : head.length = f.headSize)
    (hs : f.bodySize head = some body.length) :
    f.Whole (bs ++ (head ++ body)) (ps ++ [body]) := by
  simpa using h.append (.cons hl hs .nil)

/-- A stream is its complete frames and a rest that does not begin with one. -/
theorem exists_rest (bs : List α) :
    ∃ front rest, bs = front ++ rest ∧ f.Whole front (f.frames bs) ∧ f.split rest = none := by
  generalize hn : bs.length = n
  induction n using Nat.strongRecOn generalizing bs with
  | ind n ih =>
    cases hs : f.split bs with
    | none => exact ⟨[], bs, rfl, frames_of_no_split hs ▸ .nil, hs⟩
    | some p =>
      obtain ⟨body, more⟩ := p
      obtain ⟨head, rfl, hl, hb⟩ := split_eq_some hs
      obtain ⟨front, rest, rfl, hw, hrest⟩ := ih more.length (hn ▸ split_length hs) more rfl
      refine ⟨head ++ (body ++ front), rest, by simp, ?_, hrest⟩
      rw [frames_of_split hs]
      exact .cons hl hb hw

/-- The grammar is unambiguous: whole frames before a cut are the first frames of the stream. -/
theorem Whole.cut {qs : List (List α)} (h : f.Whole bs ps) (hw : f.Whole (bs ++ rest) qs) :
    ∃ rs, qs = ps ++ rs ∧ f.Whole rest rs := by
  induction h generalizing qs with
  | nil => exact ⟨qs, rfl, hw⟩
  | @cons head body bs ps hl hs _ ih =>
    have hp := f.headSize_pos
    generalize hx : head ++ (body ++ bs) ++ rest = xs at hw
    cases hw with
    | nil =>
      have : head = [] := by simp_all
      simp [this] at hl
      omega
    | @cons head' body' bs' ps' hl' hs' hw' =>
      rw [List.append_assoc, List.append_assoc] at hx
      obtain ⟨rfl, hy⟩ := List.append_inj hx (by omega)
      have hb : body.length = body'.length := Option.some.inj (hs.symm.trans hs')
      obtain ⟨rfl, rfl⟩ := List.append_inj hy hb
      obtain ⟨rs, rfl, hr⟩ := ih hw'
      exact ⟨rs, rfl, hr⟩

/-- A stream of whole frames that starts with these symbols starts with this header. -/
theorem Whole.next (h : f.Whole (head ++ rest) ps) (hl : head.length = f.headSize) :
    ∃ body more qs, ps = body :: qs ∧ rest = body ++ more ∧
      f.bodySize head = some body.length ∧ f.Whole more qs := by
  have hp := f.headSize_pos
  generalize hx : head ++ rest = xs at h
  cases h with
  | nil =>
    have : head = [] := by simp_all
    simp [this] at hl
    omega
  | @cons head' body bs qs hl' hs hw =>
    obtain ⟨rfl, rfl⟩ := List.append_inj hx (by omega)
    exact ⟨body, bs, qs, rfl, rfl, hs, hw⟩

end Format

end NetworkUtility.Framing
