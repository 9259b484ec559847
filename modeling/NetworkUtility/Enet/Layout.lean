import NetworkUtility.Enet.Channel
import Mathlib.Data.List.Basic
import Mathlib.Data.List.Range
import Mathlib.Tactic.Ring

/-! Where the packets of a channel stand in the sequence of its commands. Commands are counted from
1 on; every packet takes the next numbers. -/
namespace NetworkUtility.Enet

variable {mtu k k' n i j : Nat} {p p' : List UInt8} {packets : List (List UInt8)} {c c' : Command}
  {s t : Sender}

def commandCount (mtu : Nat) (p : List UInt8) : Nat :=
  if fragmentLength mtu < p.length then fragmentCount mtu p else 1

def total (mtu : Nat) (packets : List (List UInt8)) : Nat := (packets.map (commandCount mtu)).sum

/-- What the command carries of the packet. -/
def slice (mtu : Nat) (p : List UInt8) (i : Nat) : List UInt8 :=
  (p.drop (i * fragmentLength mtu)).take (fragmentLength mtu)

/-- The `i`-th command of a packet whose first command has the number `k`. -/
def commandAt (mtu : Nat) (p : List UInt8) (k i : Nat) : Command :=
  if fragmentLength mtu < p.length then
    ⟨(k + i) % 65536,
      some ⟨k % 65536, fragmentCount mtu p, i, p.length, i * fragmentLength mtu⟩, slice mtu p i⟩
  else ⟨(k + i) % 65536, none, p⟩

/-- The commands of `p` begin with the number `k`. -/
def Placed (mtu : Nat) (packets : List (List UInt8)) (k : Nat) (p : List UInt8) : Prop :=
  ∃ front back, packets = front ++ p :: back ∧ k = total mtu front + 1

/-- The command with the number `n` is `c`. -/
def Carries (mtu : Nat) (packets : List (List UInt8)) (n : Nat) (c : Command) : Prop :=
  ∃ k p i, Placed mtu packets k p ∧ i < commandCount mtu p ∧ n = k + i ∧ c = commandAt mtu p k i

@[simp] theorem total_nil : total mtu [] = 0 := rfl

@[simp] theorem total_cons : total mtu (p :: packets) = commandCount mtu p + total mtu packets := by
  simp [total]

@[simp] theorem total_append (packets' : List (List UInt8)) :
    total mtu (packets ++ packets') = total mtu packets + total mtu packets' := by
  simp [total]

@[simp] theorem commandAt_sequence (mtu : Nat) (p : List UInt8) (k i : Nat) :
    (commandAt mtu p k i).reliableSequenceNumber = (k + i) % 65536 := by
  unfold commandAt
  split <;> rfl

theorem commandAt_length (mtu : Nat) (p : List UInt8) (k i : Nat) :
    (commandAt mtu p k i).data.length ≤ fragmentLength mtu := by
  unfold commandAt
  split
  · simp only [slice, List.length_take]
    exact Nat.min_le_left ..
  · next h => exact Nat.le_of_not_lt h

/-- A number belongs to one packet. -/
theorem Placed.unique (h : Placed mtu packets k p) (h' : Placed mtu packets k' p')
    (hi : i < commandCount mtu p) (hj : j < commandCount mtu p') (he : k + i = k' + j) :
    k = k' ∧ p = p' ∧ i = j := by
  obtain ⟨front, back, rfl, rfl⟩ := h
  obtain ⟨front', back', heq, rfl⟩ := h'
  rcases List.append_eq_append_iff.mp heq with ⟨mid, hf, hb⟩ | ⟨mid, hf, hb⟩
  · cases mid with
    | nil =>
      rw [List.append_nil] at hf
      obtain ⟨rfl, -⟩ := List.cons.inj hb
      subst hf
      exact ⟨rfl, rfl, by omega⟩
    | cons q mid =>
      obtain ⟨rfl, -⟩ := List.cons.inj hb
      rw [hf, total_append, total_cons] at he
      omega
  · cases mid with
    | nil =>
      rw [List.append_nil] at hf
      obtain ⟨rfl, -⟩ := List.cons.inj hb
      subst hf
      exact ⟨rfl, rfl, by omega⟩
    | cons q mid =>
      obtain ⟨rfl, -⟩ := List.cons.inj hb
      rw [hf, total_append, total_cons] at he
      omega

section Positive

variable (hmtu : headerSize + sendFragmentSize < mtu)
include hmtu

theorem fragmentLength_pos : 0 < fragmentLength mtu := by
  unfold fragmentLength
  omega

/-- The fragments before the last are full. -/
theorem lt_fragmentCount_iff : i < fragmentCount mtu p ↔ i * fragmentLength mtu < p.length := by
  have hpos := fragmentLength_pos hmtu
  unfold fragmentCount
  rw [Nat.lt_div_iff_mul_lt hpos]
  omega

theorem fragmentCount_pos (h : fragmentLength mtu < p.length) : 1 < fragmentCount mtu p :=
  (lt_fragmentCount_iff hmtu).mpr (by omega)

theorem commandCount_pos (p : List UInt8) : 0 < commandCount mtu p := by
  unfold commandCount
  split
  · next h =>
    have := fragmentCount_pos hmtu h
    omega
  · exact Nat.one_pos

end Positive

theorem Placed.append (h : Placed mtu packets k p) (more : List (List UInt8)) :
    Placed mtu (packets ++ more) k p := by
  obtain ⟨front, back, rfl, rfl⟩ := h
  exact ⟨front, back ++ more, by simp, rfl⟩

theorem Placed.le_total (h : Placed mtu packets k p) (hi : i < commandCount mtu p) :
    k + i ≤ total mtu packets := by
  obtain ⟨front, back, rfl, rfl⟩ := h
  rw [total_append, total_cons]
  omega

theorem Carries.append (h : Carries mtu packets n c) (more : List (List UInt8)) :
    Carries mtu (packets ++ more) n c := by
  obtain ⟨k, p, i, hp, hi, hn, hc⟩ := h
  exact ⟨k, p, i, hp.append more, hi, hn, hc⟩

theorem Carries.sequence (h : Carries mtu packets n c) : c.reliableSequenceNumber = n % 65536 := by
  obtain ⟨k, p, i, -, -, rfl, rfl⟩ := h
  exact commandAt_sequence ..

/-! ### The loop of `enet_peer_send` -/

/-- A command before it is numbered. -/
def unnumbered (mtu : Nat) (p : List UInt8) (k i : Nat) : Command :=
  { commandAt mtu p k i with reliableSequenceNumber := 0 }

theorem fragmentLoop_eq (hmtu : headerSize + sendFragmentSize < mtu)
    (hlong : fragmentLength mtu < p.length) (fuel : Nat)
    (hfuel : p.length ≤ fuel + i * fragmentLength mtu) :
    fragmentLoop p (k % 65536) (fragmentCount mtu p) fuel i (i * fragmentLength mtu)
        (fragmentLength mtu) =
      (List.range' i (fragmentCount mtu p - i)).map (unnumbered mtu p k) := by
  induction fuel generalizing i with
  | zero =>
    have hn : ¬ i < fragmentCount mtu p := by
      rw [lt_fragmentCount_iff hmtu]
      omega
    rw [show fragmentCount mtu p - i = 0 by omega]
    rfl
  | succ fuel ih =>
    have hpos := fragmentLength_pos hmtu
    have hnext : (i + 1) * fragmentLength mtu = i * fragmentLength mtu + fragmentLength mtu :=
      Nat.succ_mul ..
    by_cases hi : i < fragmentCount mtu p
    · have hoff := (lt_fragmentCount_iff hmtu).mp hi
      rw [show fragmentCount mtu p - i = fragmentCount mtu p - (i + 1) + 1 by omega,
        List.range'_succ, List.map_cons]
      simp only [fragmentLoop, if_pos hoff]
      by_cases hlast : p.length - i * fragmentLength mtu < fragmentLength mtu
      · -- the last fragment is cut, and the loop ends behind it
        have hend : fragmentCount mtu p - (i + 1) = 0 := by
          have hn : ¬ i + 1 < fragmentCount mtu p := by
            rw [lt_fragmentCount_iff hmtu, hnext]
            omega
          omega
        rw [if_pos hlast, hend]
        have hstop : fragmentLoop p (k % 65536) (fragmentCount mtu p) fuel (i + 1)
            (i * fragmentLength mtu + (p.length - i * fragmentLength mtu))
            (p.length - i * fragmentLength mtu) = [] := by
          cases fuel with
          | zero => rfl
          | succ fuel =>
            unfold fragmentLoop
            exact if_neg (by omega)
        rw [hstop]
        simp only [unnumbered, commandAt, if_pos hlong, slice, List.range'_zero, List.map_nil]
        have hrest : (p.drop (i * fragmentLength mtu)).length =
          p.length - i * fragmentLength mtu := List.length_drop
        rw [List.take_of_length_le (Nat.le_of_eq hrest),
          List.take_of_length_le (hrest ▸ Nat.le_of_lt hlast)]
      · rw [if_neg hlast, ← hnext, ih (by omega)]
        simp only [unnumbered, commandAt, if_pos hlong, slice]
    · have hoff : ¬ i * fragmentLength mtu < p.length := by rwa [← lt_fragmentCount_iff hmtu]
      rw [show fragmentCount mtu p - i = 0 by omega]
      simp only [fragmentLoop, if_neg hoff, List.range'_zero, List.map_nil]

/-- The commands that the numbers from `k` on are given to. -/
def numberedFrom (mtu : Nat) (p : List UInt8) (k : Nat) (i count : Nat) : List OutgoingCommand :=
  (List.range' i count).map fun i => ⟨k + i, commandAt mtu p k i, 0⟩

theorem setup_foldl (mtu count : Nat) (hseq : s.outgoingReliableSequenceNumber = (k + i + 65535) % 65536)
    (hnum : s.numbered + 1 = k + i) :
    ((List.range' i count).map (unnumbered mtu p k)).foldl Sender.setupOutgoingCommand s =
      { s with
        outgoingReliableSequenceNumber := (k + i + count + 65535) % 65536
        outgoingCommands := s.outgoingCommands ++ numberedFrom mtu p k i count
        numbered := s.numbered + count } := by
  induction count generalizing s i with
  | zero => simp [numberedFrom, ← hseq]
  | succ count ih =>
    have hstep : (s.outgoingReliableSequenceNumber + 1) % 65536 = (k + i) % 65536 := by omega
    rw [List.range'_succ, List.map_cons, List.foldl_cons, ih]
    · simp only [Sender.setupOutgoingCommand, numberedFrom, List.range'_succ, List.map_cons,
        List.append_assoc, List.singleton_append, hnum, hstep]
      have hc : { unnumbered mtu p k i with reliableSequenceNumber := (k + i) % 65536 } =
          commandAt mtu p k i := by
        rw [← commandAt_sequence mtu p k i]
        rfl
      rw [hc, show k + (i + 1) + count + 65535 = k + i + (count + 1) + 65535 by omega,
        show k + i + count = s.numbered + (count + 1) by omega]
    · simp only [Sender.setupOutgoingCommand]
      omega
    · simp only [Sender.setupOutgoingCommand]
      omega

/-- `enet_peer_send` appends the commands of the packet. -/
theorem send_spec (hmtu : headerSize + sendFragmentSize < mtu)
    (hseq : s.outgoingReliableSequenceNumber = s.numbered % 65536)
    (h : s.send mtu p = some t) :
    t = { s with
      outgoingReliableSequenceNumber := (s.numbered + commandCount mtu p) % 65536
      outgoingCommands :=
        s.outgoingCommands ++ numberedFrom mtu p (s.numbered + 1) 0 (commandCount mtu p)
      numbered := s.numbered + commandCount mtu p } := by
  have hend (count : Nat) : (s.numbered + 1 + 0 + count + 65535) % 65536 =
      (s.numbered + count) % 65536 := by omega
  unfold Sender.send at h
  split at h
  · cases h
  · split at h
    · next hlong =>
      split at h
      · cases h
      · have hloop := fragmentLoop_eq (k := s.numbered + 1) (i := 0) hmtu hlong p.length (by omega)
        rw [Nat.zero_mul] at hloop
        simp only [hseq, Nat.mod_add_mod] at h
        rw [hloop, Nat.sub_zero,
          setup_foldl mtu (fragmentCount mtu p) (by omega) (by omega), hend] at h
        cases h
        simp only [commandCount, if_pos hlong]
    · next hshort =>
      have hone : [(⟨0, none, p⟩ : Command)] =
          (List.range' 0 1).map (unnumbered mtu p (s.numbered + 1)) := by
        simp [unnumbered, commandAt, hshort]
      have hfold := setup_foldl (p := p) (s := s) (k := s.numbered + 1) (i := 0) mtu 1
        (by omega) (by omega)
      rw [← hone, hend 1] at hfold
      cases h
      simp only [commandCount, if_neg hshort]
      exact hfold

/-- What is in the queue is what the layout says. -/
theorem numberedFrom_carries (h : k = total mtu packets + 1) :
    ∀ c ∈ numberedFrom mtu p k 0 (commandCount mtu p),
      Carries mtu (packets ++ [p]) c.number c.command := by
  intro c hc
  simp only [numberedFrom, List.mem_map, List.mem_range'_1] at hc
  obtain ⟨i, hi, rfl⟩ := hc
  exact ⟨k, p, i, ⟨packets, [], rfl, h⟩, by omega, rfl, rfl⟩

theorem numberedFrom_number (count : Nat) :
    (numberedFrom mtu p k 0 count).map OutgoingCommand.number = List.range' k count := by
  simp only [numberedFrom, List.map_map]
  exact (List.map_congr_left fun i _ => rfl).trans (List.map_add_range' ..)

end NetworkUtility.Enet
