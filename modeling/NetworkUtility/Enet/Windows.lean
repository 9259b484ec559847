import NetworkUtility.Enet.Channel
import Mathlib.Data.List.Basic
import Mathlib.Data.List.Nodup
import Mathlib.Data.List.Perm.Subperm
import Mathlib.Data.List.Range

/-! How the sender's windows account for the commands that wait for their acknowledgement. -/
namespace NetworkUtility.Enet

variable {windows : Nat → Nat} {used newest n w : Nat} {ns ns' : List Nat}

/-- `ns` are the numbers of the commands that have gone out and are not answered. They stand within
seven windows, every counter counts those of its window, and a bit is set when its counter is not 0. -/
structure Windowed (windows : Nat → Nat) (used newest : Nat) (ns : List Nat) : Prop where
  counts : ∀ w < 16, windows w = ns.countP fun n => n / 4096 % 16 = w
  bits : ∀ w, used.testBit w = true ↔ w < 16 ∧ 0 < windows w
  distinct : ns.Nodup
  range : ∀ n ∈ ns, 0 < n ∧ n ≤ newest
  span : ∀ n ∈ ns, newest / 4096 ≤ n / 4096 + 6

/-- A new window looks at its predecessor and at the ten windows from itself on. -/
def Blocked (windows : Nat → Nat) (used n : Nat) : Prop :=
  n % 4096 = 0 ∧ (4096 ≤ windows ((n / 4096 % 16 + 15) % 16) ∨
    used &&& Sender.usedMask (n / 4096 % 16) ≠ 0)

theorem windowed_init : Windowed (fun _ => 0) 0 0 [] :=
  ⟨fun _ _ => rfl, by simp, .nil, by simp, by simp⟩

theorem testBit_bit (w i : Nat) : (1 <<< w).testBit i = true ↔ w = i := by
  rw [Nat.one_shiftLeft, Nat.testBit_two_pow, decide_eq_true_iff]

/-- Of the ten windows the last is the one seven windows before the new one. -/
theorem usedMask_last : ∀ w < 16, (Sender.usedMask w).testBit ((w + 9) % 16) = true := by decide

namespace Windowed

theorem perm (h : Windowed windows used newest ns) (hp : ns.Perm ns') :
    Windowed windows used newest ns' where
  counts w hw := (h.counts w hw).trans (hp.countP_eq _)
  bits := h.bits
  distinct := hp.nodup_iff.mp h.distinct
  range n hn := h.range n (hp.mem_iff.mpr hn)
  span n hn := h.span n (hp.mem_iff.mpr hn)

/-- Where the new command may go out, nothing waits that is more than six windows behind it. -/
theorem add_span (h : Windowed windows used newest ns) (hb : ¬ Blocked windows used (newest + 1))
    (hn : n ∈ ns) : (newest + 1) / 4096 ≤ n / 4096 + 6 := by
  have hspan := h.span n hn
  have hrange := h.range n hn
  by_contra hfar
  have hstart : (newest + 1) % 4096 = 0 := by omega
  have hlast : n / 4096 % 16 = ((newest + 1) / 4096 % 16 + 9) % 16 := by omega
  refine hb ⟨hstart, Or.inr fun hzero => ?_⟩
  have hcount : 0 < windows (n / 4096 % 16) := by
    rw [h.counts _ (Nat.mod_lt _ (by decide)), List.countP_pos_iff]
    exact ⟨n, hn, by simp⟩
  have hused := (h.bits (n / 4096 % 16)).mpr ⟨Nat.mod_lt _ (by decide), hcount⟩
  have hmask := usedMask_last ((newest + 1) / 4096 % 16) (Nat.mod_lt _ (by decide))
  rw [← hlast] at hmask
  have hbit : (used &&& Sender.usedMask ((newest + 1) / 4096 % 16)).testBit (n / 4096 % 16) = true := by
    rw [Nat.testBit_and, hused, hmask]
    rfl
  rw [hzero, Nat.zero_testBit] at hbit
  cases hbit

/-- The first transmission of a command. -/
theorem add (h : Windowed windows used newest ns) (hb : ¬ Blocked windows used (newest + 1))
    (hw : w = (newest + 1) / 4096 % 16) :
    Windowed (Function.update windows w (windows w + 1)) (used ||| 1 <<< w) (newest + 1)
      ((newest + 1) :: ns) where
  counts v hv := by
    rw [List.countP_cons, ← h.counts v hv]
    by_cases he : v = w
    · subst he
      simp [hw]
    · rw [Function.update_of_ne he, if_neg (by simp only [decide_eq_true_eq]; omega), Nat.add_zero]
  bits v := by
    rw [Nat.testBit_or, Bool.or_eq_true, testBit_bit, h.bits]
    by_cases he : v = w
    · subst he
      rw [Function.update_self]
      omega
    · rw [Function.update_of_ne he]
      omega
  distinct := List.nodup_cons.mpr ⟨fun hm => by have := (h.range _ hm).2; omega, h.distinct⟩
  range n hn := by
    rcases List.mem_cons.mp hn with rfl | hn
    · omega
    · have := h.range n hn
      omega
  span n hn := by
    rcases List.mem_cons.mp hn with rfl | hn
    · omega
    · exact h.add_span hb hn

/-- A command is answered. -/
theorem remove (h : Windowed windows used newest (n :: ns)) (hw : w = n / 4096 % 16) :
    0 < windows w ∧
      Windowed (Function.update windows w (windows w - 1))
        (if windows w - 1 = 0 then used &&& (65535 ^^^ (1 <<< w)) else used) newest ns := by
  have hlt : w < 16 := hw ▸ Nat.mod_lt _ (by decide)
  have hcount := h.counts w hlt
  rw [List.countP_cons, if_pos (by simp [hw])] at hcount
  refine ⟨by omega, fun v hv => ?_, fun v => ?_, (List.nodup_cons.mp h.distinct).2,
    fun m hm => h.range m (List.mem_cons_of_mem _ hm),
    fun m hm => h.span m (List.mem_cons_of_mem _ hm)⟩
  · by_cases he : v = w
    · subst he
      rw [Function.update_self]
      omega
    · have hother := h.counts v hv
      rw [List.countP_cons, if_neg (by simp only [decide_eq_true_eq]; omega)] at hother
      rw [Function.update_of_ne he]
      exact hother
  · have hbit : (65535 : Nat).testBit v = decide (v < 16) := Nat.testBit_two_pow_sub_one 16 v
    have hold := h.bits v
    by_cases he : v = w
    · subst he
      rw [Function.update_self]
      split
      · next hz =>
        rw [hz, Nat.testBit_and, Nat.testBit_xor, hbit, decide_eq_true hlt,
          (testBit_bit v v).mpr rfl]
        simp
      · next hz =>
        rw [hold]
        omega
    · rw [Function.update_of_ne he, ← hold]
      split
      · have hother : (1 <<< w).testBit v = false := by
          rw [Bool.eq_false_iff]
          exact fun ht => he ((testBit_bit w v).mp ht).symm
        rw [Nat.testBit_and, Nat.testBit_xor, hbit, hother]
        by_cases hv : v < 16
        · simp [hv]
        · have : ¬ used.testBit v = true := fun ht => hv (hold.mp ht).1
          simp [hv, this]
      · exact Iff.rfl

/-- A window none of whose commands is answered is full. -/
theorem full (h : Windowed windows used newest ns) (hall : ∀ n, n / 4096 = w → n ∈ ns) :
    4096 ≤ windows (w % 16) := by
  have hsub : (List.range' (w * 4096) 4096).Subperm ns := by
    refine List.subperm_of_subset List.nodup_range' fun n hn => hall n ?_
    rw [List.mem_range'_1] at hn
    omega
  rw [h.counts _ (Nat.mod_lt _ (by decide))]
  have hcount := hsub.countP_le fun n => n / 4096 % 16 = w % 16
  rw [List.countP_eq_length.mpr, List.length_range'] at hcount
  · exact hcount
  · intro n hn
    rw [List.mem_range'_1] at hn
    rw [decide_eq_true_iff]
    omega

/-- No counter exceeds the size of a window. -/
theorem count_le (h : Windowed windows used newest ns) (hw : w < 16) : windows w ≤ 4096 := by
  rw [h.counts w hw, List.countP_eq_length_filter]
  rcases hf : ns.filter fun n => n / 4096 % 16 = w with _ | ⟨m, rest⟩
  · exact Nat.zero_le _
  · rw [← hf]
    have hm : m ∈ ns.filter fun n => n / 4096 % 16 = w := hf ▸ List.mem_cons_self
    have hsub : (ns.filter fun n => n / 4096 % 16 = w).Subperm
        (List.range' (m / 4096 * 4096) 4096) := by
      refine List.subperm_of_subset (h.distinct.filter _) fun n hn => ?_
      -- two windows with one counter are a round apart
      simp only [List.mem_filter, decide_eq_true_eq] at hm hn
      have := h.range n hn.1
      have := h.range m hm.1
      have := h.span n hn.1
      have := h.span m hm.1
      rw [List.mem_range'_1]
      omega
    exact hsub.length_le.trans (Nat.le_of_eq List.length_range')

end Windowed

end NetworkUtility.Enet
