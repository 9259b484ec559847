import NetworkUtility.Enet.Reassembly
import NetworkUtility.Lib.Serial
import Mathlib.Data.List.Infix
import Mathlib.Data.List.Nodup

/-! The list of the receiver. Sequence numbers are residues; the receiver places them by their
distance from the last number it has dispatched, and keeps its list in the order of the numbers. -/
namespace NetworkUtility.Enet

variable {mtu base n k i m newest : Nat} {p : List UInt8} {packets done : List (List UInt8)}
  {e d : IncomingCommand} {r : Receiver} {l l' before after : List IncomingCommand}

/-! ### Windows -/

theorem reliableWindow_ahead (hle : base ≤ n) (hlt : n / 4096 < base / 4096 + 16) :
    reliableWindow (base % 65536) (n % 65536) =
      base % 65536 / 4096 + (n / 4096 - base / 4096) :=
  Serial.window_ahead (w := 4096) (k := 16) (by decide) hle hlt

theorem reliableWindow_behind (hlt : n < base) (hnear : base / 4096 < n / 4096 + 16) :
    reliableWindow (base % 65536) (n % 65536) =
      base % 65536 / 4096 + (16 - (base / 4096 - n / 4096)) :=
  Serial.window_behind (w := 4096) (k := 16) (by decide) hlt hnear

theorem inWindow_ahead (hle : base ≤ n) (hlt : n / 4096 < base / 4096 + 16) :
    InWindow (base % 65536) (n % 65536) ↔ n / 4096 ≤ base / 4096 + 6 := by
  have hdiv := Nat.div_le_div_right (c := 4096) hle
  unfold InWindow
  rw [reliableWindow_ahead hle hlt]
  simp only [reliableWindowSize, freeReliableWindows]
  omega

theorem not_inWindow_behind (hlt : n < base) (hnear : base / 4096 ≤ n / 4096 + 9) :
    ¬ InWindow (base % 65536) (n % 65536) := by
  unfold InWindow
  rw [reliableWindow_behind hlt (by omega)]
  simp only [reliableWindowSize, freeReliableWindows]
  omega

theorem acknowledges_ahead (hseq : r.incomingReliableSequenceNumber = base % 65536) (hle : base ≤ n)
    (hlt : n / 4096 ≤ base / 4096 + 8) :
    r.Acknowledges (n % 65536) ↔ n / 4096 ≤ base / 4096 + 6 := by
  have hdiv := Nat.div_le_div_right (c := 4096) hle
  unfold Receiver.Acknowledges
  rw [hseq, reliableWindow_ahead hle (by omega)]
  simp only [reliableWindowSize, freeReliableWindows]
  omega

theorem acknowledges_behind (hseq : r.incomingReliableSequenceNumber = base % 65536) (hlt : n < base)
    (hnear : base / 4096 ≤ n / 4096 + 6) : r.Acknowledges (n % 65536) := by
  unfold Receiver.Acknowledges
  rw [hseq, reliableWindow_behind hlt (by omega)]
  simp only [reliableWindowSize, freeReliableWindows]
  omega

/-! ### The search -/

/-- The number of a stored command, when `base` has been dispatched. -/
def numberOf (base : Nat) (e : IncomingCommand) : Nat :=
  Serial.lift 65536 base e.reliableSequenceNumber

/-- The body of the search compares the distances from the last number dispatched. -/
theorem look_eq (incoming q stored : Nat) (hin : incoming < 65536) (hq : q < 65536)
    (hs : stored < 65536) :
    look incoming q stored =
      if Serial.rank 65536 incoming q < Serial.rank 65536 incoming stored then .next
      else if Serial.rank 65536 incoming stored < Serial.rank 65536 incoming q then .here
      else .found := by
  unfold look Serial.rank
  split_ifs <;> first | rfl | omega

theorem look_number (hle : base ≤ n) (hlt : n < base + 65536)
    (he : e.reliableSequenceNumber < 65536) :
    look (base % 65536) (n % 65536) e.reliableSequenceNumber =
      if n < numberOf base e then .next else if numberOf base e < n then .here else .found := by
  have hrank := Serial.rank_mod (m := 65536) hle hlt
  rw [look_eq _ _ _ (Nat.mod_lt _ (by decide)) (Nat.mod_lt _ (by decide)) he, hrank]
  unfold numberOf Serial.lift
  split_ifs <;> first | rfl | omega

/-- The numbers of the list increase. -/
def Ordered (base : Nat) (l : List IncomingCommand) : Prop :=
  l.Pairwise fun a b => numberOf base a < numberOf base b

theorem Ordered.injective (h : Ordered base l) (hd : d ∈ l) (he : e ∈ l)
    (heq : numberOf base d = numberOf base e) : d = e := by
  have hnodup : (l.map (numberOf base)).Nodup :=
    List.pairwise_map.mpr (h.imp fun hlt => Nat.ne_of_lt hlt)
  exact List.inj_on_of_nodup_map hnodup hd he heq

/-- The search ends at the command with the number, or where it belongs. -/
theorem searchBack_spec (after : List IncomingCommand) (hle : base ≤ n) (hlt : n < base + 65536)
    (hseq : ∀ e ∈ l, e.reliableSequenceNumber < 65536) (hord : Ordered base l.reverse)
    (hafter : ∀ e ∈ after, n < numberOf base e) :
    (∃ b c a, searchBack (base % 65536) (n % 65536) l after = .found b c a ∧
      l.reverse ++ after = b ++ c :: a ∧ numberOf base c = n) ∨
    (∃ b a, searchBack (base % 65536) (n % 65536) l after = .insert b a ∧
      l.reverse ++ after = b ++ a ∧ (∀ e ∈ b, numberOf base e < n) ∧
      ∀ e ∈ a, n < numberOf base e) := by
  induction l generalizing after with
  | nil => exact Or.inr ⟨[], after, rfl, rfl, by simp, hafter⟩
  | cons c l ih =>
    have hc := look_number (e := c) hle hlt (hseq c List.mem_cons_self)
    have hord' : Ordered base (l.reverse ++ [c]) := by rwa [← List.reverse_cons]
    obtain ⟨hl, -, hlast⟩ := List.pairwise_append.mp hord'
    simp only [searchBack, hc]
    split_ifs with hgt hless
    · have hafter' : ∀ e ∈ c :: after, n < numberOf base e := by
        intro e he
        rcases List.mem_cons.mp he with rfl | he
        · exact hgt
        · exact hafter e he
      have hrec := ih (c :: after) (fun e he => hseq e (List.mem_cons_of_mem _ he)) hl hafter'
      rw [List.reverse_cons, List.append_assoc, List.singleton_append]
      exact hrec
    · refine Or.inr ⟨(c :: l).reverse, after, rfl, rfl, fun e he => ?_, hafter⟩
      rw [List.reverse_cons, List.mem_append, List.mem_singleton] at he
      rcases he with he | rfl
      · exact Nat.lt_trans (hlast e he c (List.mem_singleton_self c)) hless
      · exact hless
    · refine Or.inl ⟨l.reverse, c, after, rfl, ?_, by omega⟩
      rw [List.reverse_cons, List.append_assoc, List.singleton_append]

/-! ### What the list holds -/

/-- A stored command stands for a packet behind the last one dispatched, within the free windows. -/
structure Stored (mtu : Nat) (packets : List (List UInt8)) (base : Nat) (e : IncomingCommand) :
    Prop where
  packet : ∃ p, Placed mtu packets (numberOf base e) p ∧ Holds mtu p e
  sequence : e.reliableSequenceNumber = numberOf base e % 65536
  ahead : base < numberOf base e
  near : numberOf base e / 4096 ≤ base / 4096 + 6

/-- The command with the number has come: its packet is dispatched, or it is stored. -/
def Covered (base : Nat) (l : List IncomingCommand) (n : Nat) : Prop :=
  n ≤ base ∨ ∃ e ∈ l, ∃ i, n = numberOf base e + i ∧ Has e i

/-- The packets `done` are dispatched, `l` stores others in the order of their numbers. -/
structure Storing (mtu : Nat) (packets done : List (List UInt8)) (l : List IncomingCommand) :
    Prop where
  begins : done <+: packets
  stored : ∀ e ∈ l, Stored mtu packets (total mtu done) e
  ordered : Ordered (total mtu done) l

/-- The next packet is not complete. -/
def Settled (base : Nat) (l : List IncomingCommand) : Prop :=
  ∀ e ∈ l, numberOf base e = base + 1 → 0 < e.fragmentsRemaining

theorem Stored.sequence_lt (h : Stored mtu packets base e) : e.reliableSequenceNumber < 65536 :=
  h.sequence ▸ Nat.mod_lt _ (by decide)

/-- The last number dispatched may move up to the stored command. -/
theorem Stored.numberOf_eq {base' : Nat} (h : Stored mtu packets base e) (hle : base ≤ base')
    (hlt : base' ≤ numberOf base e) : numberOf base' e = numberOf base e := by
  have hnear := h.near
  exact Serial.lift_eq_lift h.sequence (Nat.le_of_lt h.ahead) (by omega) hle hlt

theorem Stored.append (h : Stored mtu packets base e) (more : List (List UInt8)) :
    Stored mtu (packets ++ more) base e := by
  obtain ⟨⟨p, hp, hh⟩, hseq, hahead, hnear⟩ := h
  exact ⟨⟨p, hp.append more, hh⟩, hseq, hahead, hnear⟩

theorem Storing.append (h : Storing mtu packets done l) (more : List (List UInt8)) :
    Storing mtu (packets ++ more) done l :=
  ⟨h.begins.trans (List.prefix_append ..), fun e he => (h.stored e he).append more, h.ordered⟩

/-- A packet begins with a dispatched number when all of it is dispatched. -/
theorem Placed.dispatched (h : Placed mtu packets k p) (hdone : done <+: packets)
    (hk : k ≤ total mtu done) (hi : i < commandCount mtu p) : k + i ≤ total mtu done := by
  obtain ⟨front, back, rfl, rfl⟩ := h
  obtain ⟨rest, heq⟩ := hdone
  rcases List.append_eq_append_iff.mp heq with ⟨mid, hf, -⟩ | ⟨mid, hf, hb⟩
  · rw [hf, total_append] at hk
    omega
  · cases mid with
    | nil =>
      rw [hf, List.append_nil] at hk
      omega
    | cons q mid =>
      obtain ⟨rfl, -⟩ := List.cons.inj hb
      rw [hf, total_append, total_cons]
      omega

/-- The next packet stands behind the dispatched ones. -/
theorem Placed.next (h : Placed mtu packets (total mtu done + 1) p) (hdone : done <+: packets)
    (hmtu : headerSize + sendFragmentSize < mtu) : done ++ [p] <+: packets := by
  obtain ⟨rest, rfl⟩ := hdone
  cases rest with
  | nil =>
    rw [List.append_nil] at h
    have := h.le_total (commandCount_pos hmtu p)
    omega
  | cons q rest =>
    have hq : Placed mtu (done ++ q :: rest) (total mtu done + 1) q := ⟨done, rest, rfl, rfl⟩
    obtain ⟨-, rfl, -⟩ := h.unique hq (commandCount_pos hmtu p) (commandCount_pos hmtu q) rfl
    exact ⟨rest, by simp⟩

section Dispatch

variable (hmtu : headerSize + sendFragmentSize < mtu)
include hmtu

/-- One turn of the dispatch loop. -/
theorem Storing.dispatch_head (h : Storing mtu packets done (e :: l))
    (hall : e.fragmentsRemaining = 0) (hnext : numberOf (total mtu done) e = total mtu done + 1) :
    Storing mtu packets (done ++ [e.data]) l ∧
      (if 0 < e.fragmentCount then
          (e.reliableSequenceNumber + (e.fragmentCount - 1)) % 65536
        else e.reliableSequenceNumber) = total mtu (done ++ [e.data]) % 65536 ∧
      ∀ n, Covered (total mtu (done ++ [e.data])) l n ↔ Covered (total mtu done) (e :: l) n := by
  have he := h.stored e List.mem_cons_self
  obtain ⟨p, hp, hh⟩ := he.packet
  obtain ⟨hdata, hhas⟩ := hh.complete hmtu hall
  rw [hnext] at hp
  have hcount := commandCount_pos hmtu p
  have htotal : total mtu (done ++ [p]) = total mtu done + commandCount mtu p := by simp
  obtain ⟨hfirst, hord⟩ := List.pairwise_cons.mp h.ordered
  rw [hdata]
  -- the others stand behind the whole packet
  have hbehind : ∀ d ∈ l, total mtu (done ++ [p]) < numberOf (total mtu done) d := by
    intro d hd
    obtain ⟨p', hp', -⟩ := (h.stored d (List.mem_cons_of_mem _ hd)).packet
    have hlt := hfirst d hd
    rw [htotal]
    by_contra hle
    have huniq := hp'.unique hp (i := 0) (j := numberOf (total mtu done) d - (total mtu done + 1))
      (commandCount_pos hmtu p') (by omega) (by omega)
    omega
  have hsame : ∀ d ∈ l, numberOf (total mtu (done ++ [p])) d = numberOf (total mtu done) d :=
    fun d hd => (h.stored d (List.mem_cons_of_mem _ hd)).numberOf_eq (by omega)
      (Nat.le_of_lt (hbehind d hd))
  refine ⟨⟨hp.next h.begins hmtu, fun d hd => ?_, ?_⟩, ?_, fun n => ?_⟩
  · have hd' := h.stored d (List.mem_cons_of_mem _ hd)
    have hnear := hd'.near
    refine ⟨?_, ?_, ?_, ?_⟩
    · rw [hsame d hd]
      exact hd'.packet
    · rw [hsame d hd]
      exact hd'.sequence
    · rw [hsame d hd]
      exact hbehind d hd
    · rw [hsame d hd]
      omega
  · refine List.Pairwise.imp_of_mem (fun ha hb hlt => ?_) hord
    rwa [hsame _ ha, hsame _ hb]
  · rw [he.sequence, hnext, htotal]
    unfold Holds at hh
    unfold commandCount at hcount ⊢
    split at hh
    · next hlong =>
      rw [if_pos hlong] at hcount ⊢
      rw [hh.count, if_pos hcount]
      omega
    · next hshort =>
      rw [if_neg hshort, hh.2.1, if_neg (Nat.lt_irrefl 0)]
  · constructor
    · rintro (hle | ⟨d, hd, j, rfl, hj⟩)
      · rw [htotal] at hle
        by_cases hold : n ≤ total mtu done
        · exact Or.inl hold
        · exact Or.inr ⟨e, List.mem_cons_self, n - (total mtu done + 1), by omega,
            hhas _ (by omega)⟩
      · exact Or.inr ⟨d, List.mem_cons_of_mem _ hd, j, by rw [hsame d hd], hj⟩
    · rintro (hle | ⟨d, hd, j, rfl, hj⟩)
      · exact Or.inl (by omega)
      · rcases List.mem_cons.mp hd with rfl | hd
        · have hlt := hh.lt_count hj hcount
          exact Or.inl (by omega)
        · exact Or.inr ⟨d, hd, j, by rw [hsame d hd], hj⟩

/-- The loop dispatches packets in order and leaves a list whose next packet is not complete. -/
theorem dispatchLoop_spec (h : Storing mtu packets done l) :
    ∃ out l', Receiver.dispatchLoop (total mtu done % 65536) l =
        (total mtu (done ++ out) % 65536, out, l') ∧
      Storing mtu packets (done ++ out) l' ∧ Settled (total mtu (done ++ out)) l' ∧
      ∀ n, Covered (total mtu (done ++ out)) l' n ↔ Covered (total mtu done) l n := by
  induction l generalizing done with
  | nil =>
    refine ⟨[], [], ?_, ?_, ?_, ?_⟩
    · rw [List.append_nil]
      rfl
    · rwa [List.append_nil]
    · exact fun e he => absurd he List.not_mem_nil
    · intro n
      rw [List.append_nil]
  | cons e l ih =>
    have he := h.stored e List.mem_cons_self
    have hahead := he.ahead
    have hnear := he.near
    have hseq := he.sequence
    simp only [Receiver.dispatchLoop]
    split
    · next hstop =>
      refine ⟨[], e :: l, ?_, ?_, ?_, ?_⟩
      · rw [List.append_nil]
      · rwa [List.append_nil]
      · rw [List.append_nil]
        intro d hd hnext
        rcases List.mem_cons.mp hd with rfl | hd
        · exact hstop.resolve_right fun hne => hne (by rw [hseq, hnext]; omega)
        · have := (List.pairwise_cons.mp h.ordered).1 d hd
          omega
      · intro n
        rw [List.append_nil]
    · next hgo =>
      have hnext : numberOf (total mtu done) e = total mtu done + 1 := by
        rw [hseq] at hgo
        omega
      obtain ⟨hst, hincoming, hcov⟩ := h.dispatch_head hmtu (by omega) hnext
      obtain ⟨out, l', hloop, hst', hset, hcov'⟩ := ih hst
      rw [List.append_assoc, List.singleton_append] at hloop hst' hset hcov'
      refine ⟨e.data :: out, l', ?_, hst', hset, fun n => (hcov' n).trans (hcov n)⟩
      rw [hincoming, hloop]

end Dispatch

/-- Where the next packet is not complete, nothing is dispatched. -/
theorem dispatchLoop_settled (h : Storing mtu packets done l) (hset : Settled (total mtu done) l) :
    Receiver.dispatchLoop (total mtu done % 65536) l = (total mtu done % 65536, [], l) := by
  cases l with
  | nil => rfl
  | cons e l =>
    have he := h.stored e List.mem_cons_self
    have hahead := he.ahead
    have hnear := he.near
    simp only [Receiver.dispatchLoop]
    rw [if_pos]
    by_cases hnext : numberOf (total mtu done) e = total mtu done + 1
    · exact Or.inl (hset e List.mem_cons_self hnext)
    · refine Or.inr fun hseq => hnext ?_
      rw [he.sequence] at hseq
      omega

end NetworkUtility.Enet
