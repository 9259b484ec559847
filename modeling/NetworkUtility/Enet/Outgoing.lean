import NetworkUtility.Enet.Layout
import NetworkUtility.Enet.Windows
import Mathlib.Data.List.Perm.Basic

/-! The sender of a channel: what its two lists hold, whatever the order in which packets are sent,
passes are made, commands time out and acknowledgements arrive. -/
namespace NetworkUtility.Enet

variable {mtu limit slots room n : Nat} {p : List UInt8} {packets : List (List UInt8)}
  {c d : OutgoingCommand} {s t u : Sender} {l rest again fresh : List OutgoingCommand}
  {out : List (Nat × Command)}

/-- The commands that have gone out and are not answered. -/
def Sender.pending (s : Sender) : List OutgoingCommand :=
  s.outgoingCommands.filter (fun c => 0 < c.sendAttempts) ++ s.sentReliableCommands

def Sender.waiting (s : Sender) : List Nat := s.pending.map OutgoingCommand.number

/-- `outgoingCommands` begins with the commands that have to go out again; behind them stand those
that have never gone out, with consecutive numbers. -/
def Queued (s : Sender) (again fresh : List OutgoingCommand) : Prop :=
  s.outgoingCommands = again ++ fresh ∧ (∀ c ∈ again, 0 < c.sendAttempts) ∧
    (∀ c ∈ fresh, c.sendAttempts = 0) ∧
    fresh.map OutgoingCommand.number = List.range' (s.newest + 1) (s.numbered - s.newest)

structure Sending (mtu : Nat) (packets : List (List UInt8)) (s : Sender) : Prop where
  numbered : s.numbered = total mtu packets
  sequence : s.outgoingReliableSequenceNumber = s.numbered % 65536
  carries : ∀ c ∈ s.outgoingCommands ++ s.sentReliableCommands,
    Carries mtu packets c.number c.command
  attempted : ∀ c ∈ s.sentReliableCommands, 0 < c.sendAttempts
  queued : ∃ again fresh, Queued s again fresh
  newest_le : s.newest ≤ s.numbered
  windowed : Windowed s.reliableWindows s.usedReliableWindows s.newest s.waiting
  inTransit : s.reliableDataInTransit = Sender.dataLength s.sentReliableCommands

theorem sending_init (mtu : Nat) : Sending mtu [] Sender.init where
  numbered := rfl
  sequence := rfl
  carries _ hc := absurd hc List.not_mem_nil
  attempted _ hc := absurd hc List.not_mem_nil
  queued := ⟨[], [], rfl, by simp, by simp, rfl⟩
  newest_le := Nat.le_refl 0
  windowed := windowed_init
  inTransit := rfl

theorem filter_attempted (h : ∀ c ∈ l, 0 < c.sendAttempts) :
    l.filter (fun c => 0 < c.sendAttempts) = l :=
  List.filter_eq_self.mpr fun c hc => decide_eq_true (h c hc)

theorem filter_fresh (h : ∀ c ∈ l, c.sendAttempts = 0) :
    l.filter (fun c => 0 < c.sendAttempts) = [] :=
  List.filter_eq_nil_iff.mpr fun c hc => by simp [h c hc]

theorem Queued.pending (h : Queued s again fresh) : s.pending = again ++ s.sentReliableCommands := by
  obtain ⟨heq, hold, hnew, -⟩ := h
  unfold Sender.pending
  rw [heq, List.filter_append, filter_attempted hold, filter_fresh hnew, List.append_nil]

/-- The command at the head that has never gone out has the next number. -/
theorem Queued.head (h : Queued s again fresh) (hs : s.outgoingCommands = c :: rest)
    (hc : c.sendAttempts = 0) :
    again = [] ∧ c.number = s.newest + 1 ∧ s.newest < s.numbered ∧
      rest.map OutgoingCommand.number = List.range' (s.newest + 2) (s.numbered - (s.newest + 1)) := by
  obtain ⟨heq, hold, -, hnum⟩ := h
  rw [hs] at heq
  cases again with
  | cons a again =>
    obtain ⟨rfl, -⟩ := List.cons.inj heq
    have := hold _ List.mem_cons_self
    omega
  | nil =>
    rw [List.nil_append] at heq
    rw [← heq, List.map_cons] at hnum
    have hlt : s.newest < s.numbered := by
      by_contra hge
      rw [show s.numbered - s.newest = 0 by omega] at hnum
      cases hnum
    rw [show s.numbered - s.newest = s.numbered - (s.newest + 1) + 1 by omega,
      List.range'_succ] at hnum
    obtain ⟨hn, hr⟩ := List.cons.inj hnum
    exact ⟨rfl, hn, hlt, hr⟩

/-! ### Sending a packet -/

/-- `enet_peer_send` makes nothing wait. -/
theorem send_pending (hmtu : headerSize + sendFragmentSize < mtu) (h : s.send mtu p = some t)
    (hs : Sending mtu packets s) :
    Sending mtu (packets ++ [p]) t ∧ t.pending = s.pending ∧ t.newest = s.newest := by
  have ht := send_spec hmtu hs.sequence h
  have hle := hs.newest_le
  have hnew : ∀ c ∈ numberedFrom mtu p (s.numbered + 1) 0 (commandCount mtu p),
      c.sendAttempts = 0 := by
    intro c hc
    simp only [numberedFrom, List.mem_map] at hc
    obtain ⟨i, -, rfl⟩ := hc
    rfl
  have hpend : t.pending = s.pending := by
    simp [ht, Sender.pending, filter_fresh hnew]
  have hwait : t.waiting = s.waiting := congrArg (List.map OutgoingCommand.number) hpend
  subst ht
  refine ⟨⟨?_, rfl, ?_, hs.attempted, ?_, Nat.le_add_right_of_le hle, hwait ▸ hs.windowed,
    hs.inTransit⟩, hpend, rfl⟩
  · simp only [total_append, total_cons, total_nil, hs.numbered, Nat.add_zero]
  · intro c hc
    simp only [List.mem_append, or_assoc] at hc
    rcases hc with hc | hc | hc
    · exact (hs.carries c (List.mem_append_left _ hc)).append [p]
    · exact numberedFrom_carries (by rw [hs.numbered]) c hc
    · exact (hs.carries c (List.mem_append_right _ hc)).append [p]
  · obtain ⟨again, fresh, heq, hold, hfresh, hnum⟩ := hs.queued
    refine ⟨again, fresh ++ numberedFrom mtu p (s.numbered + 1) 0 (commandCount mtu p), ?_, hold,
      ?_, ?_⟩
    · simp only [heq, List.append_assoc]
    · intro c hc
      exact (List.mem_append.mp hc).elim (hfresh c) (hnew c)
    · simp only [List.map_append, hnum, numberedFrom_number]
      rw [show s.numbered + 1 = s.newest + 1 + (s.numbered - s.newest) by omega,
        List.range'_append_1]
      congr 1
      omega

/-! ### Transmission -/

/-- The conditions on which the pass transmits the command at its place. -/
def Sender.Sendable (s : Sender) (limit : Nat) (c : OutgoingCommand) : Prop :=
  ¬ s.Wraps c ∧ s.reliableDataInTransit + c.command.data.length ≤ limit

/-- The head of `outgoingCommands` goes out. -/
def Sender.transmitHead (s : Sender) (c : OutgoingCommand) (rest : List OutgoingCommand) : Sender :=
  { s.transmit c with outgoingCommands := rest }

theorem transmitHead_first (s : Sender) (rest : List OutgoingCommand) (hc : c.sendAttempts = 0) :
    s.transmitHead c rest =
      { s with
        usedReliableWindows := s.usedReliableWindows |||
          1 <<< (c.command.reliableSequenceNumber / reliableWindowSize)
        reliableWindows := Function.update s.reliableWindows
          (c.command.reliableSequenceNumber / reliableWindowSize)
          (s.reliableWindows (c.command.reliableSequenceNumber / reliableWindowSize) + 1)
        newest := c.number
        outgoingCommands := rest
        sentReliableCommands :=
          s.sentReliableCommands ++ [{ c with sendAttempts := c.sendAttempts + 1 }]
        reliableDataInTransit := s.reliableDataInTransit + c.command.data.length } := by
  simp only [Sender.transmitHead, Sender.transmit, hc, Nat.zero_lt_one, if_true]

theorem transmitHead_again (s : Sender) (rest : List OutgoingCommand) (hc : 0 < c.sendAttempts) :
    s.transmitHead c rest =
      { s with
        outgoingCommands := rest
        sentReliableCommands :=
          s.sentReliableCommands ++ [{ c with sendAttempts := c.sendAttempts + 1 }]
        reliableDataInTransit := s.reliableDataInTransit + c.command.data.length } := by
  simp only [Sender.transmitHead, Sender.transmit, if_neg (Nat.not_lt.mpr hc)]

theorem transmitHead_rest (s : Sender) (c : OutgoingCommand) (l rest : List OutgoingCommand) :
    Sender.transmitHead { s with outgoingCommands := l } c rest = s.transmitHead c rest := by
  unfold Sender.transmitHead Sender.transmit
  split <;> rfl

/-- Heads of `outgoingCommands` go out one after another. -/
inductive Transmits (limit : Nat) : Sender → List (Nat × Command) → Sender → Prop
  | nil (s : Sender) : Transmits limit s [] s
  | cons {s t : Sender} {c : OutgoingCommand} {rest : List OutgoingCommand}
      {out : List (Nat × Command)} :
      s.outgoingCommands = c :: rest → s.Sendable limit c →
      Transmits limit (s.transmitHead c rest) out t →
      Transmits limit s ((c.number, c.command) :: out) t

/-- The flags of the loop stay set, so none goes out behind the first command that is held back; and
none goes out into a full datagram. -/
theorem loop_held (limit : Nat) (l : List OutgoingCommand) (q : Pass)
    (h : q.windowWrap = true ∨ q.windowExceeded = true ∨ q.slots = 0) :
    (Pass.loop limit q l).1.sender = q.sender ∧ (Pass.loop limit q l).1.datagram = q.datagram ∧
      (Pass.loop limit q l).2 = l := by
  induction l generalizing q with
  | nil => exact ⟨rfl, rfl, rfl⟩
  | cons c rest ih =>
    simp only [Pass.loop]
    split
    · next hw =>
      obtain ⟨h1, h2, h3⟩ := ih { q with windowWrap := q.windowWrap || q.sender.Wraps c } (Or.inl hw)
      exact ⟨h1, h2, congrArg (c :: ·) h3⟩
    · next hw =>
      split
      · next he =>
        obtain ⟨h1, h2, h3⟩ := ih
          { q with
            windowWrap := q.windowWrap || q.sender.Wraps c
            windowExceeded := q.windowExceeded ||
              limit < q.sender.reliableDataInTransit + c.command.data.length }
          (Or.inr (Or.inl he))
        exact ⟨h1, h2, congrArg (c :: ·) h3⟩
      · next he =>
        have hfull : q.slots = 0 := by
          rcases h with h | h | h
          · simp [h] at hw
          · simp [h] at he
          · exact h
        rw [if_pos (Or.inl hfull)]
        exact ⟨rfl, rfl, rfl⟩

theorem loop_spec (limit : Nat) (l : List OutgoingCommand) (q : Pass) :
    ∃ out, (Pass.loop limit q l).1.datagram = q.datagram ++ out ∧
      Transmits limit { q.sender with outgoingCommands := l } out
        { (Pass.loop limit q l).1.sender with outgoingCommands := (Pass.loop limit q l).2 } := by
  induction l generalizing q with
  | nil => exact ⟨[], (List.append_nil _).symm, .nil _⟩
  | cons c rest ih =>
    simp only [Pass.loop]
    split
    · next hw =>
      obtain ⟨h1, h2, h3⟩ := loop_held limit rest
        { q with windowWrap := q.windowWrap || q.sender.Wraps c } (Or.inl hw)
      refine ⟨[], ?_, ?_⟩
      · rw [h2, List.append_nil]
      · rw [h1, h3]
        exact .nil _
    · next hw =>
      split
      · next he =>
        obtain ⟨h1, h2, h3⟩ := loop_held limit rest
          { q with
            windowWrap := q.windowWrap || q.sender.Wraps c
            windowExceeded := q.windowExceeded ||
              limit < q.sender.reliableDataInTransit + c.command.data.length } (Or.inr (Or.inl he))
        refine ⟨[], ?_, ?_⟩
        · rw [h2, List.append_nil]
        · rw [h1, h3]
          exact .nil _
      · next he =>
        split
        · exact ⟨[], (List.append_nil _).symm, .nil _⟩
        · obtain ⟨out, hout, hsteps⟩ := ih
            (Pass.transmit { q with
              windowWrap := q.windowWrap || q.sender.Wraps c
              windowExceeded := q.windowExceeded ||
                limit < q.sender.reliableDataInTransit + c.command.data.length } c)
          simp only [Bool.or_eq_true, decide_eq_true_eq, not_or, Nat.not_lt] at hw he
          refine ⟨(c.number, c.command) :: out, ?_, .cons rfl ⟨hw.2, he.2⟩ ?_⟩
          · rw [hout]
            simp only [Pass.transmit, List.append_assoc, List.singleton_append]
          · rw [transmitHead_rest]
            exact hsteps

/-- A pass is a sequence of transmissions from the head of the list. -/
theorem checkOutgoingCommands_spec (limit slots room : Nat) (s : Sender) :
    Transmits limit s (s.checkOutgoingCommands limit slots room).2
      (s.checkOutgoingCommands limit slots room).1 := by
  obtain ⟨out, hout, hsteps⟩ := loop_spec limit s.outgoingCommands
    ⟨s, false, false, slots, room, []⟩
  rw [List.nil_append] at hout
  subst hout
  exact hsteps

/-- What one transmission does to the commands that wait. -/
def Advances (s t : Sender) : Prop :=
  (t.newest = s.newest ∧ s.waiting.Perm t.waiting) ∨
    (t.newest = s.newest + 1 ∧ ((s.newest + 1) :: s.waiting).Perm t.waiting ∧
      ¬ Blocked s.reliableWindows s.usedReliableWindows (s.newest + 1))

theorem wraps_of_blocked (hcarry : Carries mtu packets c.number c.command)
    (hc : c.sendAttempts = 0) (hb : Blocked s.reliableWindows s.usedReliableWindows c.number) :
    s.Wraps c := by
  have hseq := hcarry.sequence
  obtain ⟨hstart, hused⟩ := hb
  have hwindow : c.command.reliableSequenceNumber / reliableWindowSize = c.number / 4096 % 16 := by
    rw [hseq]
    simp only [reliableWindowSize]
    omega
  refine ⟨by omega, ?_, ?_⟩
  · rw [hseq]
    simp only [reliableWindowSize]
    omega
  · rw [hwindow]
    exact hused

theorem carries_transmitted (hs : Sending mtu packets s) (hhead : s.outgoingCommands = c :: rest) :
    ∀ d ∈ rest ++ (s.sentReliableCommands ++ [{ c with sendAttempts := c.sendAttempts + 1 }]),
      Carries mtu packets d.number d.command := by
  intro d hd
  simp only [List.mem_append, List.mem_singleton] at hd
  rcases hd with hd | hd | rfl
  · exact hs.carries d (List.mem_append_left _ (hhead ▸ List.mem_cons_of_mem _ hd))
  · exact hs.carries d (List.mem_append_right _ hd)
  · exact hs.carries c (List.mem_append_left _ (hhead ▸ List.mem_cons_self))

theorem attempted_transmitted (hs : Sending mtu packets s) (c : OutgoingCommand) :
    ∀ d ∈ s.sentReliableCommands ++ [{ c with sendAttempts := c.sendAttempts + 1 }],
      0 < d.sendAttempts := by
  intro d hd
  rcases List.mem_append.mp hd with hd | hd
  · exact hs.attempted d hd
  · rw [List.mem_singleton.mp hd]
    exact Nat.succ_pos _

theorem inTransit_transmitted (hs : Sending mtu packets s) (c : OutgoingCommand) :
    s.reliableDataInTransit + c.command.data.length = Sender.dataLength
      (s.sentReliableCommands ++ [{ c with sendAttempts := c.sendAttempts + 1 }]) := by
  rw [hs.inTransit]
  simp [Sender.dataLength]

/-- The first time: a new number waits. -/
theorem transmitHead_new (hs : Sending mtu packets s) (hhead : s.outgoingCommands = c :: rest)
    (hsend : s.Sendable limit c) (hc : c.sendAttempts = 0) :
    Sending mtu packets (s.transmitHead c rest) ∧ Advances s (s.transmitHead c rest) ∧
      c.number ≤ (s.transmitHead c rest).newest := by
  have hcarry : Carries mtu packets c.number c.command :=
    hs.carries c (List.mem_append_left _ (hhead ▸ List.mem_cons_self))
  obtain ⟨again, fresh, hq⟩ := hs.queued
  have hpend := hq.pending
  rw [transmitHead_first s rest hc]
  obtain ⟨rfl, hnum, hlt, hrest⟩ := hq.head hhead hc
  obtain ⟨heq, -, hfresh, -⟩ := hq
  rw [List.nil_append] at heq hpend
  have hfresh' : ∀ d ∈ rest, d.sendAttempts = 0 := fun d hd =>
    hfresh d (heq ▸ hhead ▸ List.mem_cons_of_mem _ hd)
  have hblocked : ¬ Blocked s.reliableWindows s.usedReliableWindows (s.newest + 1) := fun hb =>
    hsend.1 (wraps_of_blocked hcarry hc (hnum ▸ hb))
  have hwindow : c.command.reliableSequenceNumber / reliableWindowSize =
      (s.newest + 1) / 4096 % 16 := by
    rw [hcarry.sequence, hnum]
    simp only [reliableWindowSize]
    omega
  have hwait : ((s.newest + 1) :: s.waiting).Perm
      ((rest.filter (fun d : OutgoingCommand => 0 < d.sendAttempts) ++ (s.sentReliableCommands ++
        [{ c with sendAttempts := c.sendAttempts + 1 }])).map OutgoingCommand.number) := by
    unfold Sender.waiting
    rw [hpend, filter_fresh hfresh', List.nil_append, List.map_append, ← hnum]
    exact (List.perm_append_singleton _ _).symm
  refine ⟨⟨hs.numbered, hs.sequence, carries_transmitted hs hhead, attempted_transmitted hs c,
      ⟨[], rest, ?_⟩, ?_, ?_, inTransit_transmitted hs c⟩,
    Or.inr ⟨hnum, hwait, hblocked⟩, Nat.le_refl _⟩
  · refine ⟨rfl, by simp, hfresh', ?_⟩
    rw [hrest, hnum]
  · rw [hnum]
    exact hlt
  · have hadd := (hs.windowed.add hblocked hwindow).perm hwait
    rw [← hnum] at hadd
    exact hadd

/-- Again: the command only moves. -/
theorem transmitHead_old (hs : Sending mtu packets s) (hhead : s.outgoingCommands = c :: rest)
    (hc : c.sendAttempts ≠ 0) :
    Sending mtu packets (s.transmitHead c rest) ∧ Advances s (s.transmitHead c rest) ∧
      c.number ≤ (s.transmitHead c rest).newest := by
  obtain ⟨again, fresh, hq⟩ := hs.queued
  have hpend := hq.pending
  rw [transmitHead_again s rest (Nat.pos_of_ne_zero hc)]
  obtain ⟨heq, hagain, hfresh, hnums⟩ := hq
  rw [hhead] at heq
  cases again with
  | nil =>
    rw [List.nil_append] at heq
    exact absurd (hfresh c (heq ▸ List.mem_cons_self)) hc
  | cons a again =>
    obtain ⟨rfl, htail⟩ := List.cons.inj heq
    have hrest : rest = again ++ fresh := htail
    have hagain' : ∀ d ∈ again, 0 < d.sendAttempts := fun d hd =>
      hagain d (List.mem_cons_of_mem _ hd)
    have hwait : s.waiting.Perm
        ((rest.filter (fun d : OutgoingCommand => 0 < d.sendAttempts) ++ (s.sentReliableCommands ++
          [{ c with sendAttempts := c.sendAttempts + 1 }])).map OutgoingCommand.number) := by
      unfold Sender.waiting
      rw [hpend, hrest, List.filter_append, filter_attempted hagain', filter_fresh hfresh,
        List.append_nil, ← List.append_assoc]
      simp only [List.map_append]
      exact (List.perm_append_singleton _ _).symm
    have hmem : c.number ∈ s.waiting := by
      unfold Sender.waiting
      rw [hpend]
      exact List.mem_cons_self
    exact ⟨⟨hs.numbered, hs.sequence, carries_transmitted hs hhead, attempted_transmitted hs c,
        ⟨again, fresh, hrest, hagain', hfresh, hnums⟩, hs.newest_le, hs.windowed.perm hwait,
        inTransit_transmitted hs c⟩,
      Or.inl ⟨rfl, hwait⟩, (hs.windowed.range c.number hmem).2⟩

theorem transmitHead_spec (hs : Sending mtu packets s) (hhead : s.outgoingCommands = c :: rest)
    (hsend : s.Sendable limit c) :
    Sending mtu packets (s.transmitHead c rest) ∧ Advances s (s.transmitHead c rest) ∧
      Carries mtu packets c.number c.command ∧ c.number ≤ (s.transmitHead c rest).newest := by
  have hcarry : Carries mtu packets c.number c.command :=
    hs.carries c (List.mem_append_left _ (hhead ▸ List.mem_cons_self))
  by_cases hc : c.sendAttempts = 0
  · obtain ⟨hsending, hadvances, hle⟩ := transmitHead_new hs hhead hsend hc
    exact ⟨hsending, hadvances, hcarry, hle⟩
  · obtain ⟨hsending, hadvances, hle⟩ := transmitHead_old hs hhead hc
    exact ⟨hsending, hadvances, hcarry, hle⟩

/-! ### Timeouts -/

theorem dataLength_perm {l l' : List OutgoingCommand} (h : l.Perm l') :
    Sender.dataLength l = Sender.dataLength l' := (h.map _).sum_nat

theorem checkTimeouts_spec (due : OutgoingCommand → Bool) (hs : Sending mtu packets s) :
    Sending mtu packets (s.checkTimeouts due) ∧
      s.pending.Perm (s.checkTimeouts due).pending := by
  obtain ⟨again, fresh, hq⟩ := hs.queued
  have hpend := hq.pending
  obtain ⟨heq, hagain, hfresh, hnum⟩ := hq
  have hq' : Queued (s.checkTimeouts due) (s.sentReliableCommands.filter due ++ again) fresh := by
    refine ⟨?_, ?_, hfresh, hnum⟩
    · simp only [Sender.checkTimeouts, heq, List.append_assoc]
    · intro c hc
      rcases List.mem_append.mp hc with hc | hc
      · exact hs.attempted c (List.mem_filter.mp hc).1
      · exact hagain c hc
  have hsplit := List.filter_append_perm due s.sentReliableCommands
  have hperm : s.pending.Perm (s.checkTimeouts due).pending := by
    rw [hpend, hq'.pending]
    refine ((hsplit.symm).append_left again).trans ?_
    rw [← List.append_assoc]
    exact List.perm_append_comm.append_right _
  have hwait : s.waiting.Perm (s.checkTimeouts due).waiting := hperm.map _
  refine ⟨⟨hs.numbered, hs.sequence, ?_, ?_, ⟨_, _, hq'⟩, hs.newest_le, hs.windowed.perm hwait, ?_⟩,
    hperm⟩
  · intro c hc
    simp only [Sender.checkTimeouts, List.mem_append, List.mem_filter] at hc
    rcases hc with (hc | hc) | hc
    · exact hs.carries c (List.mem_append_right _ hc.1)
    · exact hs.carries c (List.mem_append_left _ hc)
    · exact hs.carries c (List.mem_append_right _ hc.1)
  · intro c hc
    exact hs.attempted c (List.mem_filter.mp hc).1
  · have hsum := dataLength_perm hsplit
    simp only [Sender.dataLength, List.map_append, List.sum_append] at hsum
    simp only [Sender.checkTimeouts, hs.inTransit, Sender.dataLength]
    omega

/-! ### Acknowledgements -/

theorem searchSent_some {q : Nat} (h : Sender.searchSent q l = some (c, rest)) :
    c.command.reliableSequenceNumber = q ∧ l.Perm (c :: rest) := by
  induction l generalizing rest with
  | nil => cases h
  | cons d l ih =>
    simp only [Sender.searchSent] at h
    split at h
    · next hd =>
      cases h
      exact ⟨hd, .refl _⟩
    · obtain ⟨⟨c', rest'⟩, hr, he⟩ := Option.map_eq_some_iff.mp h
      cases he
      obtain ⟨hc, hp⟩ := ih hr
      exact ⟨hc, (hp.cons d).trans (.swap ..)⟩

theorem searchSent_none {q : Nat} (h : Sender.searchSent q l = none) :
    ∀ c ∈ l, c.command.reliableSequenceNumber ≠ q := by
  induction l with
  | nil => simp
  | cons d l ih =>
    simp only [Sender.searchSent] at h
    split at h
    · cases h
    · next hd =>
      intro c hc
      rcases List.mem_cons.mp hc with rfl | hc
      · exact hd
      · exact ih (Option.map_eq_none_iff.mp h) c hc

/-- The second search sees the commands that go out again, and no others. -/
theorem searchOutgoing_some {q : Nat} (hagain : ∀ c ∈ again, 0 < c.sendAttempts)
    (hfresh : ∀ c ∈ fresh, c.sendAttempts = 0)
    (h : Sender.searchOutgoing q (again ++ fresh) = some (c, rest)) :
    c.command.reliableSequenceNumber = q ∧
      ∃ again', rest = again' ++ fresh ∧ again.Perm (c :: again') := by
  induction again generalizing rest with
  | nil =>
    cases fresh with
    | nil => cases h
    | cons d fresh =>
      have hd := hfresh d List.mem_cons_self
      simp only [List.nil_append, Sender.searchOutgoing] at h
      rw [if_pos (by omega)] at h
      cases h
  | cons d again ih =>
    have hd := hagain d List.mem_cons_self
    simp only [List.cons_append, Sender.searchOutgoing] at h
    rw [if_neg (by omega)] at h
    split at h
    · next hq =>
      cases h
      exact ⟨hq, again, rfl, .refl _⟩
    · obtain ⟨⟨c', rest'⟩, hr, he⟩ := Option.map_eq_some_iff.mp h
      cases he
      obtain ⟨hc, again', rfl, hp⟩ := ih (fun c hc => hagain c (List.mem_cons_of_mem _ hc)) hr
      exact ⟨hc, d :: again', rfl, (hp.cons d).trans (.swap ..)⟩

theorem searchOutgoing_none {q : Nat} (hagain : ∀ c ∈ again, 0 < c.sendAttempts)
    (h : Sender.searchOutgoing q (again ++ fresh) = none) :
    ∀ c ∈ again, c.command.reliableSequenceNumber ≠ q := by
  induction again with
  | nil => simp
  | cons d again ih =>
    have hd := hagain d List.mem_cons_self
    simp only [List.cons_append, Sender.searchOutgoing] at h
    rw [if_neg (by omega)] at h
    split at h
    · cases h
    · next hq =>
      intro c hc
      rcases List.mem_cons.mp hc with rfl | hc
      · exact hq
      · exact ih (fun c hc => hagain c (List.mem_cons_of_mem _ hc)) (Option.map_eq_none_iff.mp h) c hc

theorem Sending.pending_carries (hs : Sending mtu packets s) (hc : c ∈ s.pending) :
    Carries mtu packets c.number c.command := by
  refine hs.carries c ?_
  rcases List.mem_append.mp hc with hc | hc
  · exact List.mem_append_left _ (List.mem_filter.mp hc).1
  · exact List.mem_append_right _ hc

/-- Within the span of the windows a sequence number names one command. -/
theorem Sending.number_unique (hs : Sending mtu packets s) (hc : c ∈ s.pending)
    (hseq : c.command.reliableSequenceNumber = n % 65536) (hn : n ≤ s.newest)
    (hnear : s.newest / 4096 ≤ n / 4096 + 6) : c.number = n := by
  have hwait : c.number ∈ s.waiting := List.mem_map_of_mem hc
  have hrange := hs.windowed.range _ hwait
  have hspan := hs.windowed.span _ hwait
  rw [(hs.pending_carries hc).sequence] at hseq
  omega

/-- `release` of the window of a command that waits. -/
theorem release_spec (h : Windowed s.reliableWindows s.usedReliableWindows s.newest (n :: t.waiting)) :
    Windowed (s.release (n % 65536 / reliableWindowSize)).reliableWindows
      (s.release (n % 65536 / reliableWindowSize)).usedReliableWindows s.newest t.waiting := by
  have hwindow : n % 65536 / reliableWindowSize = n / 4096 % 16 := by
    simp only [reliableWindowSize]
    omega
  obtain ⟨hpos, hrem⟩ := h.remove hwindow
  unfold Sender.release
  rw [if_pos hpos]
  exact hrem

@[simp] theorem release_same (s : Sender) (w : Nat) :
    (s.release w).outgoingReliableSequenceNumber = s.outgoingReliableSequenceNumber ∧
      (s.release w).outgoingCommands = s.outgoingCommands ∧
      (s.release w).sentReliableCommands = s.sentReliableCommands ∧
      (s.release w).reliableDataInTransit = s.reliableDataInTransit ∧
      (s.release w).numbered = s.numbered ∧ (s.release w).newest = s.newest := by
  unfold Sender.release
  split <;> exact ⟨rfl, rfl, rfl, rfl, rfl, rfl⟩

/-- A sender whose lists have lost just the command `c`, and whose counters have released its window. -/
theorem Sending.answered (hs : Sending mtu packets s) (hnumber : c.number = n)
    (hwindows : t.reliableWindows = (s.release (n % 65536 / reliableWindowSize)).reliableWindows)
    (hbits :
      t.usedReliableWindows = (s.release (n % 65536 / reliableWindowSize)).usedReliableWindows)
    (hnumbered : t.numbered = s.numbered)
    (hsequence : t.outgoingReliableSequenceNumber = s.outgoingReliableSequenceNumber)
    (hnewest : t.newest = s.newest) (hpend : s.pending.Perm (c :: t.pending))
    (hout : ∀ d ∈ t.outgoingCommands, d ∈ s.outgoingCommands)
    (hsent : ∀ d ∈ t.sentReliableCommands, d ∈ s.sentReliableCommands)
    (hqueued : Queued t again fresh)
    (htransit : t.reliableDataInTransit = Sender.dataLength t.sentReliableCommands) :
    Sending mtu packets t := by
  have hwait : s.waiting.Perm (n :: t.waiting) := by
    have hmap := hpend.map OutgoingCommand.number
    rwa [List.map_cons, hnumber] at hmap
  refine ⟨hnumbered.trans hs.numbered, ?_, ?_, ?_, ⟨again, fresh, hqueued⟩, ?_, ?_, htransit⟩
  · rw [hsequence, hnumbered]
    exact hs.sequence
  · intro d hd
    refine hs.carries d ?_
    rcases List.mem_append.mp hd with hd | hd
    · exact List.mem_append_left _ (hout d hd)
    · exact List.mem_append_right _ (hsent d hd)
  · intro d hd
    exact hs.attempted d (hsent d hd)
  · rw [hnewest, hnumbered]
    exact hs.newest_le
  · rw [hwindows, hbits, hnewest]
    exact release_spec (hs.windowed.perm hwait)

/-- The command answered is found among those sent. -/
theorem answer_sent (hs : Sending mtu packets s) (hn : n ≤ s.newest)
    (hnear : s.newest / 4096 ≤ n / 4096 + 6)
    (hsearch : Sender.searchSent (n % 65536) s.sentReliableCommands = some (c, rest))
    (ht : t =
      { s.release (n % 65536 / reliableWindowSize) with
        sentReliableCommands := rest
        reliableDataInTransit := s.reliableDataInTransit - c.command.data.length }) :
    Sending mtu packets t ∧ c.number = n ∧ s.pending.Perm (c :: t.pending) := by
  obtain ⟨again, fresh, hq⟩ := hs.queued
  obtain ⟨rseq, rout, -, -, rnumbered, rnewest⟩ := release_same s (n % 65536 / reliableWindowSize)
  obtain ⟨hseq, hperm⟩ := searchSent_some hsearch
  have hmem : c ∈ s.sentReliableCommands := hperm.mem_iff.mpr List.mem_cons_self
  have hnumber := hs.number_unique (List.mem_append_right _ hmem) hseq hn hnear
  have hq' : Queued t again fresh := by
    rw [ht]
    exact ⟨rout.trans hq.1, hq.2.1, hq.2.2.1, by rw [hq.2.2.2, rnewest, rnumbered]⟩
  have hpend : s.pending.Perm (c :: t.pending) := by
    rw [hq.pending, hq'.pending, ht]
    exact (hperm.append_left again).trans List.perm_middle
  refine ⟨?_, hnumber, hpend⟩
  refine hs.answered hnumber (by rw [ht]) (by rw [ht]) (by rw [ht, rnumbered]) (by rw [ht, rseq])
    (by rw [ht, rnewest]) hpend ?_ ?_ hq' ?_
  · rw [ht, rout]
    exact fun d hd => hd
  · rw [ht]
    exact fun d hd => hperm.mem_iff.mpr (List.mem_cons_of_mem _ hd)
  · have hsum := dataLength_perm hperm
    simp only [Sender.dataLength, List.map_cons, List.sum_cons] at hsum
    simp only [ht, hs.inTransit, Sender.dataLength]
    omega

/-- The command answered is found among those that have to go out again. -/
theorem answer_again (hs : Sending mtu packets s) (hn : n ≤ s.newest)
    (hnear : s.newest / 4096 ≤ n / 4096 + 6)
    (hsearch : Sender.searchOutgoing (n % 65536) s.outgoingCommands = some (c, rest))
    (ht : t = { s.release (n % 65536 / reliableWindowSize) with outgoingCommands := rest }) :
    Sending mtu packets t ∧ c.number = n ∧ s.pending.Perm (c :: t.pending) := by
  obtain ⟨again, fresh, hq⟩ := hs.queued
  have hpending := hq.pending
  obtain ⟨heq, hagain, hfresh, hnum⟩ := hq
  obtain ⟨rseq, -, rsent, rtransit, rnumbered, rnewest⟩ :=
    release_same s (n % 65536 / reliableWindowSize)
  rw [heq] at hsearch
  obtain ⟨hseq, again', rfl, hperm⟩ := searchOutgoing_some hagain hfresh hsearch
  have hmem : c ∈ again := hperm.mem_iff.mpr List.mem_cons_self
  have hnumber := hs.number_unique (hpending ▸ List.mem_append_left _ hmem) hseq hn hnear
  have hq' : Queued t again' fresh := by
    rw [ht]
    exact ⟨rfl, fun d hd => hagain d (hperm.mem_iff.mpr (List.mem_cons_of_mem _ hd)), hfresh,
      by rw [hnum, rnewest, rnumbered]⟩
  have hpend : s.pending.Perm (c :: t.pending) := by
    rw [hpending, hq'.pending, ht, rsent, ← List.cons_append]
    exact hperm.append_right _
  refine ⟨?_, hnumber, hpend⟩
  refine hs.answered hnumber (by rw [ht]) (by rw [ht]) (by rw [ht, rnumbered]) (by rw [ht, rseq])
    (by rw [ht, rnewest]) hpend ?_ ?_ hq' ?_
  · intro d hd
    rw [ht, List.mem_append] at hd
    rw [heq, List.mem_append, hperm.mem_iff, List.mem_cons]
    exact hd.imp Or.inr id
  · rw [ht, rsent]
    exact fun d hd => hd
  · rw [ht, rtransit, rsent]
    exact hs.inTransit

/-- A number that neither search finds has been answered before. -/
theorem answered_before (hs : Sending mtu packets s)
    (hsent : Sender.searchSent (n % 65536) s.sentReliableCommands = none)
    (hout : Sender.searchOutgoing (n % 65536) s.outgoingCommands = none) : n ∉ s.waiting := by
  obtain ⟨again, fresh, hq⟩ := hs.queued
  intro hmem
  obtain ⟨c, hc, rfl⟩ := List.mem_map.mp hmem
  rw [hq.pending, List.mem_append] at hc
  rcases hc with hc | hc
  · have hlist : c ∈ s.outgoingCommands := hq.1 ▸ List.mem_append_left _ hc
    rw [hq.1] at hout
    exact searchOutgoing_none hq.2.1 hout c hc
      (hs.carries c (List.mem_append_left _ hlist)).sequence
  · exact searchSent_none hsent c hc (hs.carries c (List.mem_append_right _ hc)).sequence

/-- An acknowledgement takes its command, and nothing when it has been answered before. -/
theorem removeSentReliableCommand_spec (hs : Sending mtu packets s) (hn : n ≤ s.newest)
    (hnear : s.newest / 4096 ≤ n / 4096 + 6) :
    Sending mtu packets (s.removeSentReliableCommand (n % 65536)) ∧
      (s.removeSentReliableCommand (n % 65536)).newest = s.newest ∧
      ((∃ c, c.number = n ∧ s.pending.Perm (c :: (s.removeSentReliableCommand (n % 65536)).pending)) ∨
        n ∉ s.waiting ∧ s.removeSentReliableCommand (n % 65536) = s) := by
  obtain ⟨-, -, -, -, -, rnewest⟩ := release_same s (n % 65536 / reliableWindowSize)
  unfold Sender.removeSentReliableCommand
  split
  · next c rest hsearch =>
    obtain ⟨hsending, hnumber, hpend⟩ := answer_sent hs hn hnear hsearch rfl
    exact ⟨hsending, rnewest, Or.inl ⟨c, hnumber, hpend⟩⟩
  · next hsearch =>
    split
    · next c rest hsearch' =>
      obtain ⟨hsending, hnumber, hpend⟩ := answer_again hs hn hnear hsearch' rfl
      exact ⟨hsending, rnewest, Or.inl ⟨c, hnumber, hpend⟩⟩
    · next hsearch' => exact ⟨hs, rfl, Or.inr ⟨answered_before hs hsearch hsearch', rfl⟩⟩

end NetworkUtility.Enet
