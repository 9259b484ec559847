import Mathlib.Data.List.Basic
import Mathlib.Data.Nat.Bitwise

/-! Numbers as bits, the most significant first, and lists of numbers of one width as one string of
bits. Two widths can cut the same string. -/
namespace NetworkUtility.Bits

/-- The `w` low bits of `x`. -/
def bits : Nat → Nat → List Bool
  | 0, _ => []
  | w + 1, x => x.testBit w :: bits w x

def allBits (w : Nat) (xs : List Nat) : List Bool := xs.flatMap (bits w)

variable {w x y n : Nat} {xs ys : List Nat}

@[simp] theorem length_bits (w x : Nat) : (bits w x).length = w := by
  induction w with
  | zero => rfl
  | succ w ih => simp [bits, ih]

theorem bits_zero (w : Nat) : bits w 0 = List.replicate w false := by
  induction w with
  | zero => rfl
  | succ w ih => rw [bits, ih, Nat.zero_testBit, List.replicate_succ]

theorem testBit_of_bits (h : bits w x = bits w y) (hn : n < w) : x.testBit n = y.testBit n := by
  induction w with
  | zero => omega
  | succ w ih =>
    simp only [bits, List.cons.injEq] at h
    by_cases heq : n = w
    · subst heq
      exact h.1
    · exact ih h.2 (by omega)

/-- A number that fits is known by its bits. -/
theorem bits_inj (hx : x < 2 ^ w) (hy : y < 2 ^ w) (h : bits w x = bits w y) : x = y := by
  apply Nat.eq_of_testBit_eq
  intro n
  by_cases hn : n < w
  · exact testBit_of_bits h hn
  · have hle : 2 ^ w ≤ 2 ^ n := Nat.pow_le_pow_right (by omega) (Nat.le_of_not_lt hn)
    rw [Nat.testBit_lt_two_pow (Nat.lt_of_lt_of_le hx hle),
      Nat.testBit_lt_two_pow (Nat.lt_of_lt_of_le hy hle)]

@[simp] theorem allBits_nil (w : Nat) : allBits w [] = [] := rfl

@[simp] theorem allBits_cons (w x : Nat) (xs : List Nat) :
    allBits w (x :: xs) = bits w x ++ allBits w xs := rfl

@[simp] theorem allBits_append (w : Nat) (xs ys : List Nat) :
    allBits w (xs ++ ys) = allBits w xs ++ allBits w ys :=
  List.flatMap_append

@[simp] theorem length_allBits (w : Nat) (xs : List Nat) :
    (allBits w xs).length = w * xs.length := by
  induction xs with
  | nil => simp
  | cons x xs ih => simp [ih, Nat.mul_add, Nat.add_comm]

theorem allBits_take (w n : Nat) (xs : List Nat) :
    allBits w (xs.take n) = (allBits w xs).take (w * n) := by
  induction xs generalizing n with
  | nil => simp
  | cons x xs ih =>
    cases n with
    | zero => simp
    | succ n =>
      have hmul : w * (n + 1) = (bits w x).length + w * n := by
        rw [length_bits, Nat.mul_succ, Nat.add_comm]
      rw [List.take_succ_cons, allBits_cons, allBits_cons, hmul, List.take_length_add_append, ih]

/-- Numbers that fit are known by their string of bits. -/
theorem allBits_inj (hw : 0 < w) (hx : ∀ x ∈ xs, x < 2 ^ w) (hy : ∀ y ∈ ys, y < 2 ^ w)
    (h : allBits w xs = allBits w ys) : xs = ys := by
  induction xs generalizing ys with
  | nil =>
    have hlen := congrArg List.length h
    rw [length_allBits, length_allBits, List.length_nil, Nat.mul_zero] at hlen
    exact (List.eq_nil_of_length_eq_zero (by simpa [Nat.ne_of_gt hw] using hlen.symm)).symm
  | cons x xs ih =>
    cases ys with
    | nil =>
      have hlen := congrArg List.length h
      rw [length_allBits, length_allBits, List.length_nil, Nat.mul_zero] at hlen
      simp [Nat.ne_of_gt hw] at hlen
    | cons y ys =>
      obtain ⟨hhead, htail⟩ := List.append_inj h (by simp)
      rw [bits_inj (hx x List.mem_cons_self) (hy y List.mem_cons_self) hhead,
        ih (fun z hz => hx z (List.mem_cons_of_mem _ hz))
          (fun z hz => hy z (List.mem_cons_of_mem _ hz)) htail]

end NetworkUtility.Bits
