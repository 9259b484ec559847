import Mathlib.Data.List.Basic

/-! A reader of a stream that knows at all times how many symbols it needs before it can turn to what
comes next. What it makes of a stream does not depend on how the stream is cut. -/
namespace NetworkUtility.Blocks

/-- What was put out, and the state or the error in the end. -/
abbrev Outcome (σ ω ε : Type) := List ω × Except ε σ

section
variable {σ ω ε : Type} {r : Outcome σ ω ε} {f g h : σ → Outcome σ ω ε} {s : σ} {e : ε} {out : List ω}

def Outcome.andThen (r : Outcome σ ω ε) (f : σ → Outcome σ ω ε) : Outcome σ ω ε :=
  match r.2 with
  | .ok s => (r.1 ++ (f s).1, (f s).2)
  | .error e => (r.1, .error e)

@[simp] theorem ok_andThen : Outcome.andThen (out, .ok s) f = (out ++ (f s).1, (f s).2) := rfl

@[simp] theorem error_andThen : Outcome.andThen (out, .error e) f = (out, .error e) := rfl

theorem andThen_assoc : (r.andThen f).andThen g = r.andThen fun s => (f s).andThen g := by
  obtain ⟨out, _ | s⟩ := r
  · rfl
  · rcases hf : f s with ⟨out', _ | t⟩
    · simp [hf]
    · simp [hf]

theorem andThen_grows : r.1 <+: (r.andThen f).1 := by
  obtain ⟨out, _ | s⟩ := r
  · exact List.prefix_rfl
  · exact List.prefix_append _ _

theorem andThen_congr (h : ∀ s, r.2 = .ok s → f s = g s) : r.andThen f = r.andThen g := by
  obtain ⟨out, _ | s⟩ := r
  · rfl
  · rw [ok_andThen, ok_andThen, h s rfl]

end

/-- `need` symbols are missing. `store` takes some of them; when none is missing, `turn` prepares for
what comes next, and may put out a result. -/
structure Reader (α σ ω ε : Type) where
  need : σ → Nat
  store : σ → List α → Except ε σ
  turn : σ → Except ε (Option ω × σ)

variable {α σ ω ε : Type}

namespace Reader

variable {r : Reader α σ ω ε}

def stored (r : Reader α σ ω ε) (s : σ) (a : List α) : Outcome σ ω ε := ([], r.store s a)

def turned (r : Reader α σ ω ε) (s : σ) : Outcome σ ω ε :=
  match r.turn s with
  | .ok (out, t) => (out.toList, .ok t)
  | .error e => ([], .error e)

/-- Turns as long as nothing is missing, at most `k` times. -/
def settle (r : Reader α σ ω ε) : Nat → σ → Outcome σ ω ε
  | 0, s => ([], .ok s)
  | k + 1, s => if r.need s = 0 then (r.turned s).andThen (r.settle k) else ([], .ok s)

/-- One symbol at a time. -/
def feed (r : Reader α σ ω ε) (turns : Nat) : σ → List α → Outcome σ ω ε
  | s, [] => ([], .ok s)
  | s, a :: rest => ((r.stored s [a]).andThen (r.settle turns)).andThen fun t => r.feed turns t rest

/-- From a state that may have to turn first. -/
def go (r : Reader α σ ω ε) (turns : Nat) (s : σ) (bs : List α) : Outcome σ ω ε :=
  (r.settle turns s).andThen fun t => r.feed turns t bs

/-- Storing is gradual, and there are fewer than `turns` turns before something is missing. -/
structure Lawful (r : Reader α σ ω ε) (inv : σ → Prop) (rank : σ → Nat) (turns : Nat) : Prop where
  rank_lt : ∀ s, rank s < turns
  store_nil : ∀ s, r.store s [] = .ok s
  store_append : ∀ s a b, inv s → a.length + b.length ≤ r.need s →
    r.store s (a ++ b) = (r.store s a).bind fun t => r.store t b
  store_ok : ∀ s a t, inv s → a.length ≤ r.need s → r.store s a = .ok t →
    inv t ∧ r.need t = r.need s - a.length
  turn_ok : ∀ s out t, inv s → r.need s = 0 → r.turn s = .ok (out, t) →
    inv t ∧ (r.need t = 0 → rank t < rank s)

variable {inv : σ → Prop} {rank : σ → Nat} {turns j k : Nat} {s t : σ} {a b bs rest : List α}
  {out : List ω}

theorem turned_ok (h : (r.turned s).2 = .ok t) : ∃ o, r.turn s = .ok (o, t) := by
  unfold turned at h
  split at h
  · next o u heq =>
    cases h
    exact ⟨o, heq⟩
  · cases h

theorem feed_append (s : σ) (a b : List α) :
    r.feed turns s (a ++ b) = (r.feed turns s a).andThen fun t => r.feed turns t b := by
  induction a generalizing s with
  | nil => rfl
  | cons x a ih =>
    rw [List.cons_append, feed, feed, andThen_assoc (f := fun t => r.feed turns t a)]
    exact andThen_congr fun t _ => ih t

namespace Lawful

theorem settle_eq (hr : r.Lawful inv rank turns) (hs : inv s) (hj : rank s < j) (hk : rank s < k) :
    r.settle j s = r.settle k s := by
  induction j generalizing s k with
  | zero => exact absurd hj (Nat.not_lt_zero _)
  | succ j ih =>
    cases k with
    | zero => exact absurd hk (Nat.not_lt_zero _)
    | succ k =>
      simp only [settle]
      split
      · next hneed =>
        refine andThen_congr fun t ht => ?_
        obtain ⟨o, ho⟩ := turned_ok ht
        obtain ⟨hinv, hrank⟩ := hr.turn_ok s o t hs hneed ho
        by_cases h0 : r.need t = 0
        · have := hrank h0
          exact ih hinv (by omega) (by omega)
        · cases j <;> cases k <;> simp [settle, h0]
      · rfl

theorem settle_pos (h : r.need s ≠ 0) : r.settle k s = ([], .ok s) := by
  cases k with
  | zero => rfl
  | succ k => exact if_neg h

theorem go_pos (h : r.need s ≠ 0) : r.go turns s bs = r.feed turns s bs := by
  rw [go, settle_pos h]
  simp

/-- A state in which nothing is missing turns. -/
theorem go_turn (hr : r.Lawful inv rank turns) (hs : inv s) (h : r.need s = 0) :
    r.go turns s b = (r.turned s).andThen fun t => r.go turns t b := by
  have hlt := hr.rank_lt s
  have hsettle : r.settle turns s = (r.turned s).andThen (r.settle turns) := by
    rw [hr.settle_eq hs hlt (Nat.lt_succ_of_lt hlt), settle, if_pos h]
  rw [go, hsettle, andThen_assoc]
  rfl

theorem stored_append (hr : r.Lawful inv rank turns) (hs : inv s)
    (hlen : a.length + b.length ≤ r.need s) :
    r.stored s (a ++ b) = (r.stored s a).andThen fun t => r.stored t b := by
  rw [stored, hr.store_append s a b hs hlen, stored]
  cases r.store s a <;> rfl

/-- Some of what is missing is stored at once. -/
theorem feed_block (hr : r.Lawful inv rank turns) (hs : inv s) (hne : a ≠ [])
    (hlen : a.length ≤ r.need s) :
    r.feed turns s (a ++ rest) = (r.stored s a).andThen fun t => r.go turns t rest := by
  induction a generalizing s with
  | nil => exact absurd rfl hne
  | cons x a ih =>
    rw [List.cons_append, feed, andThen_assoc]
    by_cases ha : a = []
    · rw [ha]
      rfl
    · have hpos := List.length_pos_of_ne_nil ha
      rw [List.length_cons] at hlen
      have hsplit : r.stored s (x :: a) = (r.stored s [x]).andThen fun t => r.stored t a :=
        hr.stored_append (a := [x]) hs (by rw [List.length_singleton]; omega)
      rw [hsplit, andThen_assoc]
      refine andThen_congr fun t ht => ?_
      obtain ⟨hinv, hneed⟩ := hr.store_ok s [x] t hs (by rw [List.length_singleton]; omega) ht
      rw [List.length_singleton] at hneed
      rw [settle_pos (by omega), ← ih hinv ha (by omega)]
      simp

/-- The rule for a block, which may be empty or only a part of what is missing. -/
theorem go_block (hr : r.Lawful inv rank turns) (hs : inv s) (hlen : a.length ≤ r.need s) :
    r.go turns s (a ++ b) = (r.stored s a).andThen fun t => r.go turns t b := by
  by_cases ha : a = []
  · rw [ha, stored, hr.store_nil]
    simp
  · have hpos := List.length_pos_of_ne_nil ha
    rw [go_pos (by omega), hr.feed_block hs ha hlen]

/-- After a stream the reader has nothing to turn to before it gets another symbol. -/
theorem settle_need (hr : r.Lawful inv rank turns) (hs : inv s)
    (h : (r.settle k s).2 = .ok t) (hk : rank s < k) : inv t ∧ r.need t ≠ 0 := by
  induction k generalizing s with
  | zero => exact absurd hk (Nat.not_lt_zero _)
  | succ k ih =>
    rw [settle] at h
    split at h
    · next hneed =>
      rcases hu : r.turned s with ⟨o, _ | u⟩
      · rw [hu] at h
        cases h
      · rw [hu] at h
        obtain ⟨o', ho'⟩ := turned_ok (congrArg Prod.snd hu)
        obtain ⟨hinv, hrank⟩ := hr.turn_ok s o' u hs hneed ho'
        by_cases h0 : r.need u = 0
        · exact ih hinv h (by have := hrank h0; omega)
        · rw [ok_andThen, settle_pos h0] at h
          cases h
          exact ⟨hinv, h0⟩
    · next hneed =>
      cases h
      exact ⟨hs, hneed⟩

theorem feed_need (hr : r.Lawful inv rank turns) (hs : inv s) (hneed : r.need s ≠ 0)
    (h : (r.feed turns s bs).2 = .ok t) : inv t ∧ r.need t ≠ 0 := by
  induction bs generalizing s with
  | nil =>
    cases h
    exact ⟨hs, hneed⟩
  | cons b bs ih =>
    rw [feed, stored] at h
    cases hb : r.store s [b] with
    | error e =>
      rw [hb] at h
      cases h
    | ok u =>
      rw [hb, ok_andThen] at h
      rcases hv : r.settle turns u with ⟨out, _ | v⟩
      · rw [hv] at h
        cases h
      · rw [hv] at h
        obtain ⟨hu, -⟩ := hr.store_ok s [b] u hs (by rw [List.length_singleton]; omega) hb
        obtain ⟨hinv, hpos⟩ := hr.settle_need hu (congrArg Prod.snd hv) (hr.rank_lt u)
        exact ih hinv hpos h

end Lawful

/-- The stream in the pieces in which it comes. -/
def feedChunks (r : Reader α σ ω ε) (turns : Nat) : σ → List (List α) → Outcome σ ω ε
  | s, [] => ([], .ok s)
  | s, c :: cs => (r.feed turns s c).andThen fun t => r.feedChunks turns t cs

theorem feedChunks_eq (s : σ) (cs : List (List α)) :
    r.feedChunks turns s cs = r.feed turns s cs.flatten := by
  induction cs generalizing s with
  | nil => rfl
  | cons c cs ih =>
    rw [feedChunks, List.flatten_cons, feed_append]
    exact andThen_congr fun t _ => ih t

end Reader

end NetworkUtility.Blocks
