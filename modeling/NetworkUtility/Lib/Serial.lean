import Mathlib.Data.Nat.Basic
import Mathlib.Tactic.Ring

/-! Serial numbers: numbers that are told apart only modulo `m`. A reader who knows one of them
places the others by their distance from it, counted in single numbers or in windows of `w`. -/
namespace NetworkUtility.Serial

variable {m w k r n q : Nat}

/-- How far the residue `q` is in front of the residue `r`. -/
def rank (m r q : Nat) : Nat := if q < r then q + m - r else q - r

/-- The first number from `r` on that has the residue `q`. -/
def lift (m r q : Nat) : Nat := r + rank m (r % m) q

/-- The window of the residue `q` as seen from the residue `r`; `k` windows make a round. -/
def window (w k r q : Nat) : Nat := q / w + if q < r then k else 0

/-- Less than a round apart, two numbers are in one round or in two that follow each other. -/
theorem div_cases (hle : r ≤ n) (hlt : n < r + m) : n / m = r / m ∨ n / m = r / m + 1 := by
  have hlow := Nat.div_le_div_right (c := m) hle
  have hm : 0 < m := by omega
  have hhigh : n / m ≤ (r + m) / m := Nat.div_le_div_right (Nat.le_of_lt hlt)
  rw [Nat.add_div_right _ hm] at hhigh
  omega

theorem rank_mod (hle : r ≤ n) (hlt : n < r + m) : rank m (r % m) (n % m) = n - r := by
  have hm : 0 < m := by omega
  have hr := Nat.div_add_mod r m
  have hn := Nat.div_add_mod n m
  have hrm := Nat.mod_lt r hm
  have hnm := Nat.mod_lt n hm
  unfold rank
  rcases div_cases hle hlt with h | h
  · rw [h] at hn
    split <;> omega
  · rw [h, Nat.mul_succ] at hn
    split <;> omega

/-- A reader who is less than a round behind recovers the number. -/
theorem lift_mod (hle : r ≤ n) (hlt : n < r + m) : lift m r (n % m) = n := by
  unfold lift
  rw [rank_mod hle hlt]
  omega

/-- The reader may move on, up to the number itself. -/
theorem lift_eq_lift {r' : Nat} (h : q = n % m) (hle : r ≤ n) (hlt : n < r + m) (hr : r ≤ r')
    (hr' : r' ≤ n) : lift m r' q = lift m r q := by
  subst h
  rw [lift_mod hle hlt, lift_mod hr' (by omega)]

theorem mod_inj (h : n % m = q % m) (hle : r ≤ n) (hlt : n < r + m) (hle' : r ≤ q)
    (hlt' : q < r + m) : n = q := by
  rw [← lift_mod hle hlt, ← lift_mod hle' hlt', h]

theorem mod_div (n w k : Nat) : n % (w * k) / w = n / w % k := Nat.mod_mul_right_div_self ..

theorem lt_of_div_lt (hw : 0 < w) (h : n / w < r / w + k) : n < r + w * k := by
  have hn := Nat.lt_mul_div_succ n hw
  have hr := Nat.mul_div_le r w
  have hle : w * (n / w + 1) ≤ w * (r / w + k) := Nat.mul_le_mul_left w h
  rw [Nat.mul_add w (r / w) k] at hle
  omega

/-- A number in front is seen as many windows ahead as it is. -/
theorem window_ahead (hw : 0 < w) (hle : r ≤ n) (hlt : n / w < r / w + k) :
    window w k (r % (w * k)) (n % (w * k)) = r % (w * k) / w + (n / w - r / w) := by
  have hdiv := Nat.div_le_div_right (c := w) hle
  have hwin := rank_mod (m := k) hdiv hlt
  have hnum := rank_mod (m := w * k) hle (lt_of_div_lt hw hlt)
  have hk : 0 < k := by omega
  have hmk := Nat.mod_lt (r / w) hk
  have hround := Nat.mod_lt r (Nat.mul_pos hw hk)
  unfold window
  rw [mod_div, mod_div]
  unfold rank at hwin hnum
  by_cases hsame : n / w % k = r / w % k
  · -- one window: nothing has wrapped
    have heq : n / w = r / w := by
      rw [if_neg (by omega), hsame] at hwin
      omega
    have hn := Nat.div_add_mod n w
    have hr := Nat.div_add_mod r w
    rw [heq] at hn
    have hmodn := Nat.mod_mul (a := w) (b := k) (x := n)
    have hmodr := Nat.mod_mul (a := w) (b := k) (x := r)
    rw [heq] at hmodn
    rw [if_neg (by omega), heq]
    omega
  · have hlt_iff : n % (w * k) < r % (w * k) ↔ n / w % k < r / w % k := by
      rw [← mod_div, ← mod_div] at hsame ⊢
      constructor
      · intro h
        have := Nat.div_le_div_right (c := w) (Nat.le_of_lt h)
        omega
      · intro h
        by_contra hge
        have := Nat.div_le_div_right (c := w) (Nat.le_of_not_lt hge)
        omega
    by_cases h : n / w % k < r / w % k
    · rw [if_pos (hlt_iff.mpr h)]
      rw [if_pos h] at hwin
      omega
    · rw [if_neg fun h' => h (hlt_iff.mp h')]
      rw [if_neg h] at hwin
      omega

/-- A number behind is seen a round ahead of where it is. -/
theorem window_behind (hw : 0 < w) (hlt : n < r) (hclose : r / w < n / w + k) :
    window w k (r % (w * k)) (n % (w * k)) = r % (w * k) / w + (k - (r / w - n / w)) := by
  have hdiv := Nat.div_le_div_right (c := w) (Nat.le_of_lt hlt)
  have hahead := window_ahead hw (Nat.le_of_lt hlt) hclose
  have hk : 0 < k := by omega
  have hne : n % (w * k) ≠ r % (w * k) := fun h =>
    absurd (mod_inj h (Nat.le_refl n) (by have := Nat.mul_pos hw hk; omega) (Nat.le_of_lt hlt)
      (lt_of_div_lt hw hclose)) (Nat.ne_of_lt hlt)
  have hmodn := mod_div n w k
  have hmodr := mod_div r w k
  have hbn := Nat.mod_lt (n / w) hk
  have hbr := Nat.mod_lt (r / w) hk
  unfold window at hahead ⊢
  by_cases h : n % (w * k) < r % (w * k)
  · rw [if_neg (Nat.lt_asymm h)] at hahead
    rw [if_pos h]
    omega
  · rw [if_pos (by omega)] at hahead
    rw [if_neg h]
    omega

end NetworkUtility.Serial
