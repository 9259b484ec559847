import NetworkUtility.Enet.Reliable

/-! From wherever a link has got to, whatever has been lost, it can still finish: time out, repeat,
deliver and acknowledge, the smallest unanswered number first. -/
namespace NetworkUtility.Enet

open Machine

variable {mtu windowSize limit n : Nat} {l l' : Link} {a : LinkAction} {s t : Sender}
  {c : OutgoingCommand} {rest before after : List OutgoingCommand} {out : List (Nat × Command)}
  {packets : List (List UInt8)} {as : List LinkAction}

/-- `packetThrottle` is at most ENET_PEER_PACKET_THROTTLE_SCALE. -/
def LinkAction.Throttled : LinkAction → Prop
  | .checkOutgoingCommands packetThrottle _ _ => packetThrottle ≤ 32
  | _ => True

def Link.Paced (mtu : Nat) (l : Link) (a : LinkAction) : Prop := l.Timely mtu a ∧ a.Throttled

instance (a : LinkAction) : Decidable a.Throttled :=
  match a with
  | .checkOutgoingCommands packetThrottle _ _ => Nat.decLe packetThrottle 32
  | .send _ | .checkTimeouts _ | .deliver _ _ | .lose _ | .acknowledge _ | .loseAcknowledgement _
  | .receive => instDecidableTrue

instance (mtu : Nat) (l : Link) (a : LinkAction) : Decidable (l.Paced mtu a) :=
  inferInstanceAs (Decidable (_ ∧ _))

/-- The unanswered commands fit into the window together. -/
structure Steady (mtu windowSize : Nat) (l : Link) : Prop extends Linked mtu l where
  load : Sender.dataLength l.sender.pending ≤ max windowSize mtu

/-- What is left to be sent and to be answered. -/
def Sender.remaining (s : Sender) : Nat := s.waiting.length + (s.numbered - s.newest)

theorem remaining_zero (hs : Sending mtu packets s) (h : s.remaining = 0) :
    s.outgoingCommands = [] ∧ s.sentReliableCommands = [] := by
  obtain ⟨again, fresh, hq⟩ := hs.queued
  have hpend := hq.pending
  obtain ⟨heq, -, -, hnum⟩ := hq
  unfold Sender.remaining Sender.waiting at h
  rw [hpend, List.length_map, List.length_append] at h
  have hfresh := congrArg List.length hnum
  rw [List.length_map, List.length_range'] at hfresh
  rw [heq, List.append_eq_nil_iff]
  exact ⟨⟨List.length_eq_zero_iff.mp (by omega), List.length_eq_zero_iff.mp (by omega)⟩,
    List.length_eq_zero_iff.mp (by omega)⟩

/-! ### The load of the window -/

/-- A command that goes out for the first time finds everything unanswered in transit. -/
theorem transmitHead_load {bound : Nat} (hs : Sending mtu packets s)
    (hhead : s.outgoingCommands = c :: rest) (hsend : s.Sendable limit c) (hlimit : limit ≤ bound)
    (h : Sender.dataLength s.pending ≤ bound) :
    Sender.dataLength (s.transmitHead c rest).pending ≤ bound := by
  have htransit := hs.inTransit
  have hroom := hsend.2
  obtain ⟨again, fresh, hq⟩ := hs.queued
  by_cases hc : c.sendAttempts = 0
  · obtain ⟨rfl, -, -, -⟩ := hq.head hhead hc
    obtain ⟨heq, -, hfresh, -⟩ := hq
    rw [List.nil_append] at heq
    have hfresh' : ∀ d ∈ rest, d.sendAttempts = 0 := fun d hd =>
      hfresh d (heq ▸ hhead ▸ List.mem_cons_of_mem _ hd)
    rw [transmitHead_first s rest hc]
    simp only [Sender.pending, filter_fresh hfresh', List.nil_append, Sender.dataLength,
      List.map_append, List.map_cons, List.map_nil, List.sum_append, List.sum_cons, List.sum_nil]
    simp only [Sender.dataLength] at htransit
    omega
  · have hold : 0 < c.sendAttempts := Nat.pos_of_ne_zero hc
    rw [transmitHead_again s rest hold]
    simp only [Sender.pending, hhead, List.filter_cons, hold, decide_true, if_true,
      Sender.dataLength, List.cons_append, List.map_append, List.map_cons, List.map_nil,
      List.sum_append, List.sum_cons, List.sum_nil] at h ⊢
    omega

theorem Steady.transmits (h : Steady mtu windowSize l) (hs : Transmits limit s out t)
    (heq : l.sender = s) (hlimit : limit ≤ max windowSize mtu) :
    Steady mtu windowSize { l with sender := t, commands := l.commands ++ out } := by
  refine ⟨h.toLinked.transmits hs heq, ?_⟩
  have hsend := h.sending
  have hload := h.load
  rw [heq] at hsend hload
  clear h heq
  induction hs with
  | nil s => exact hload
  | cons hhead hcan _ ih =>
    exact ih (transmitHead_spec hsend hhead hcan).1
      (transmitHead_load hsend hhead hcan hlimit hload)

theorem Steady.step (hmtu : headerSize + sendFragmentSize < mtu) (h : Steady mtu windowSize l)
    (hok : l.Paced mtu a) (hstep : l.step mtu windowSize a = some l') : Steady mtu windowSize l' := by
  have hlinked := h.toLinked.step hmtu hok.1 hstep
  cases a with
  | send packet =>
    obtain ⟨s, hs, rfl⟩ := Option.map_eq_some_iff.mp hstep
    refine ⟨hlinked, ?_⟩
    rw [(send_pending hmtu hs h.sending).2.1]
    exact h.load
  | checkOutgoingCommands packetThrottle slots room =>
    cases hstep
    refine h.transmits (checkOutgoingCommands_spec ..) rfl ?_
    have hthrottle : packetThrottle ≤ 32 := hok.2
    have hscaled : packetThrottle * windowSize / 32 ≤ windowSize := by
      rw [Nat.div_le_iff_le_mul_add_pred (by decide)]
      have := Nat.mul_le_mul_right windowSize hthrottle
      omega
    unfold windowLimit
    omega
  | checkTimeouts due =>
    cases hstep
    refine ⟨hlinked, ?_⟩
    rw [← dataLength_perm (checkTimeouts_spec due h.sending).2]
    exact h.load
  | deliver i memory =>
    obtain ⟨⟨n, c⟩, hx, rfl⟩ := Option.map_eq_some_iff.mp hstep
    refine ⟨hlinked, ?_⟩
    unfold Link.deliver
    split <;> exact h.load
  | lose i =>
    cases hstep
    exact ⟨hlinked, h.load⟩
  | acknowledge i =>
    obtain ⟨⟨n, m⟩, hx, rfl⟩ := Option.map_eq_some_iff.mp hstep
    refine ⟨hlinked, ?_⟩
    obtain ⟨hm, hn, -⟩ := h.acknowledgements _ (List.mem_of_getElem? hx)
    obtain rfl : m = n % 65536 := hm
    have hload := h.load
    obtain ⟨-, -, ⟨c, -, hperm⟩ | ⟨-, hsame⟩⟩ :=
      removeSentReliableCommand_spec h.sending hn (hok.1 _ hx)
    · rw [dataLength_perm hperm] at hload
      simp only [Sender.dataLength, List.map_cons, List.sum_cons] at hload ⊢
      omega
    · rw [hsame]
      exact hload
  | loseAcknowledgement i =>
    cases hstep
    exact ⟨hlinked, h.load⟩
  | receive =>
    simp only [Link.step] at hstep
    split at hstep
    · cases hstep
    · cases hstep
      exact ⟨hlinked, h.load⟩

theorem steady_init (mtu windowSize : Nat) : Steady mtu windowSize .init :=
  ⟨linked_init mtu, Nat.zero_le _⟩

theorem run_steady (hmtu : headerSize + sendFragmentSize < mtu)
    (h : Run (Link.step mtu windowSize) (Link.Paced mtu) l as l') (hl : Steady mtu windowSize l) :
    Steady mtu windowSize l' :=
  h.invariant _ (fun _ _ _ hs hok hst => hs.step hmtu hok hst) hl

/-! ### A pass with one place -/

theorem checkOutgoingCommands_one {room : Nat} (hhead : s.outgoingCommands = c :: rest)
    (hsend : s.Sendable limit c) (hroom : c.command.size + c.command.data.length ≤ room) :
    s.checkOutgoingCommands limit 1 room = (s.transmitHead c rest, [(c.number, c.command)]) := by
  obtain ⟨hwrap, hlimit⟩ := hsend
  have hloop : Pass.loop limit ⟨s, false, false, 1, room, []⟩ (c :: rest) =
      Pass.loop limit (Pass.transmit ⟨s, false, false, 1, room, []⟩ c) rest := by
    simp only [Pass.loop, hwrap, decide_false, Bool.or_false, Bool.false_eq_true, if_false,
      decide_eq_false (Nat.not_lt.mpr hlimit)]
    rw [if_neg (by omega)]
  obtain ⟨h1, h2, h3⟩ := loop_held limit rest
    (Pass.transmit ⟨s, false, false, 1, room, []⟩ c) (Or.inr (Or.inr rfl))
  unfold Sender.checkOutgoingCommands
  rw [hhead]
  simp only [hloop, h1, h2, h3]
  rfl

/-- Every command fits into an empty datagram. -/
theorem command_fits (hcarry : Carries mtu packets n c.command) :
    c.command.size + c.command.data.length ≤ sendFragmentSize + fragmentLength mtu := by
  obtain ⟨k, p, i, -, -, -, heq⟩ := hcarry
  have hlen := commandAt_length mtu p k i
  rw [heq]
  unfold Command.size
  have : sendReliableSize ≤ sendFragmentSize := by decide
  split <;> omega

/-- The pass that transmits the command at the head alone. -/
def sendOne (mtu : Nat) : LinkAction :=
  .checkOutgoingCommands 32 1 (sendFragmentSize + fragmentLength mtu)

def Link.transmitHead (l : Link) (c : OutgoingCommand) (rest : List OutgoingCommand) : Link :=
  { l with
    sender := l.sender.transmitHead c rest
    commands := l.commands ++ [(c.number, c.command)] }

theorem Linked.sendOne (h : Linked mtu l) (hhead : l.sender.outgoingCommands = c :: rest)
    (hsend : l.sender.Sendable (max windowSize mtu) c) :
    Run (Link.step mtu windowSize) (Link.Paced mtu) l [sendOne mtu] (l.transmitHead c rest) := by
  have hcarry := h.sending.carries c (List.mem_append_left _ (hhead ▸ List.mem_cons_self))
  have hlimit : windowLimit mtu windowSize 32 = max windowSize mtu := by
    unfold windowLimit
    rw [Nat.mul_div_cancel_left _ (by decide)]
  have hone := checkOutgoingCommands_one hhead (hlimit.symm ▸ hsend) (command_fits hcarry)
  refine .cons ⟨trivial, Nat.le_refl 32⟩ ?_ (.nil _)
  simp only [NetworkUtility.Enet.sendOne, Link.step, hone]
  rfl

/-- What has gone out before may go out again. -/
theorem Steady.sendable_again (h : Steady mtu windowSize l)
    (hhead : l.sender.outgoingCommands = c :: rest) (hc : 0 < c.sendAttempts) :
    l.sender.Sendable (max windowSize mtu) c := by
  have hload := h.load
  rw [Sender.pending, hhead, List.filter_cons, if_pos (decide_eq_true hc)] at hload
  simp only [Sender.dataLength, List.cons_append, List.map_cons, List.map_append, List.sum_cons,
    List.sum_append] at hload
  refine ⟨fun hwrap => absurd hwrap.1 (by omega), ?_⟩
  rw [h.sending.inTransit, Sender.dataLength]
  omega

/-- The commands that go out again, up to a given one, go out one by one. -/
theorem Steady.resend (hmtu : headerSize + sendFragmentSize < mtu) (h : Steady mtu windowSize l)
    (hlist : l.sender.outgoingCommands = before ++ c :: after)
    (hbefore : ∀ d ∈ before, 0 < d.sendAttempts) (hc : 0 < c.sendAttempts) :
    ∃ bs l', Run (Link.step mtu windowSize) (Link.Paced mtu) l bs l' ∧
      (c.number, c.command) ∈ l'.commands ∧ l'.packets = l.packets ∧
      l.sender.waiting.Perm l'.sender.waiting ∧ l'.sender.remaining = l.sender.remaining := by
  -- one transmission keeps what waits
  have hone (l : Link) (d : OutgoingCommand) (rest : List OutgoingCommand)
      (h : Steady mtu windowSize l) (hhead : l.sender.outgoingCommands = d :: rest)
      (hd : 0 < d.sendAttempts) :
      Run (Link.step mtu windowSize) (Link.Paced mtu) l [Enet.sendOne mtu] (l.transmitHead d rest) ∧
        l.sender.waiting.Perm (l.transmitHead d rest).sender.waiting ∧
        (l.transmitHead d rest).sender.remaining = l.sender.remaining := by
    have hsend := h.sendable_again hhead hd
    have hsame : (l.sender.transmitHead d rest).newest = l.sender.newest ∧
        (l.sender.transmitHead d rest).numbered = l.sender.numbered := by
      rw [transmitHead_again l.sender rest hd]
      exact ⟨rfl, rfl⟩
    have hwait : l.sender.waiting.Perm (l.sender.transmitHead d rest).waiting := by
      rcases (transmitHead_spec h.sending hhead hsend).2.1 with ⟨-, hwait⟩ | ⟨hnewest, -⟩
      · exact hwait
      · omega
    refine ⟨h.toLinked.sendOne hhead hsend, hwait, ?_⟩
    simp only [Link.transmitHead, Sender.remaining, hsame.1, hsame.2, hwait.length_eq]
  induction before generalizing l with
  | nil =>
    obtain ⟨hrun, hwait, hrem⟩ := hone l c after h hlist hc
    exact ⟨_, _, hrun, List.mem_append_right _ List.mem_cons_self, rfl, hwait, hrem⟩
  | cons d before ih =>
    obtain ⟨hrun, hwait, hrem⟩ := hone l d (before ++ c :: after) h hlist
      (hbefore d List.mem_cons_self)
    obtain ⟨bs, l', hrun', hmem, hpackets, hwait', hrem'⟩ := ih (run_steady hmtu hrun h) rfl
      fun e he => hbefore e (List.mem_cons_of_mem _ he)
    exact ⟨_, l', hrun.append hrun', hmem, hpackets, hwait.trans hwait', hrem'.trans hrem⟩

/-! ### The smallest number that waits -/

/-- The smallest number that waits is within the free windows: what is missing of the next packet is
behind it. -/
theorem Linked.near_of_least (hmtu : headerSize + sendFragmentSize < mtu) (h : Linked mtu l)
    (hn : n ≤ l.sender.newest) (hleast : ∀ m ∈ l.sender.waiting, n ≤ m) :
    n / 4096 ≤ total mtu l.dispatched / 4096 + 6 := by
  by_cases hclose : n ≤ total mtu l.dispatched + 1
  · omega
  · obtain ⟨rest, hrest⟩ := h.receiving.storing.begins
    have htotal := h.sending.newest_le
    rw [h.sending.numbered, ← hrest, total_append] at htotal
    cases rest with
    | nil =>
      rw [total_nil] at htotal
      omega
    | cons p rest =>
      have hp : Placed mtu l.packets (total mtu l.dispatched + 1) p := ⟨_, rest, hrest.symm, rfl⟩
      have hfits := (h.fits p (hrest ▸ by simp)).2
      simp only [reliableWindowSize] at hfits
      have hmissing : ¬ ∀ i < commandCount mtu p,
          Covered (total mtu l.dispatched) l.receiver.incomingReliableCommands
            (total mtu l.dispatched + 1 + i) := by
        intro hall
        obtain ⟨e, he, hfirst, hzero⟩ := h.receiving.storing.next_complete hmtu hp hall
        have := h.receiving.settled e he hfirst
        omega
      simp only [not_forall] at hmissing
      obtain ⟨i, hi, hmissing⟩ := hmissing
      have hle : n ≤ total mtu l.dispatched + 1 + i := by
        by_contra hlt
        have hnot : total mtu l.dispatched + 1 + i ∉ l.sender.waiting := fun hm =>
          absurd (hleast _ hm) (by omega)
        exact hmissing (h.answered _ (by omega) (by omega) hnot).1
      omega

theorem Receiving.acknowledges {done : List (List UInt8)} {r : Receiver}
    (h : Receiving mtu packets done r) (hlow : total mtu done / 4096 ≤ n / 4096 + 6)
    (hnear : n / 4096 ≤ total mtu done / 4096 + 6) : r.Acknowledges (n % 65536) := by
  by_cases hle : total mtu done ≤ n
  · exact (acknowledges_ahead h.sequence hle (by omega)).mpr hnear
  · exact acknowledges_behind h.sequence (by omega) hlow

theorem Linked.deliver_acknowledges {command : Command}
    (hmtu : headerSize + sendFragmentSize < mtu) (h : Linked mtu l)
    (hmem : (n, command) ∈ l.commands) (hrecent : l.Recent n)
    (hnear : n / 4096 ≤ total mtu l.dispatched / 4096 + 6) :
    (n, n % 65536) ∈ (l.deliver n command (some [])).acknowledgements := by
  obtain ⟨hcarry, -⟩ := h.commands _ hmem
  have hbase := h.base_le
  have hrecent' : l.sender.newest / 4096 ≤ n / 4096 + 6 := hrecent
  have hseq : command.reliableSequenceNumber = n % 65536 := hcarry.sequence
  obtain ⟨i, hi, hx⟩ := List.getElem_of_mem hmem
  have hlinked := h.deliver (some []) hmtu
    ((List.getElem?_eq_getElem hi).trans (congrArg some hx)) hrecent
  have hbase' := hlinked.base_le
  have hrec' := hlinked.receiving
  unfold Link.deliver at hbase' hrec' ⊢
  rw [hseq] at hbase' hrec' ⊢
  rcases handleSend_spec (some []) hmtu h.receiving h.fits hcarry (by omega) (by omega) with
    ⟨hnone, -⟩ | ⟨r', hsome, hcase⟩
  · cases hnone
  · rw [hsome] at hbase' hrec' ⊢
    simp only [Link.dispatched] at hbase' hrec'
    have hgrow : total mtu l.dispatched ≤ total mtu (l.received ++ r'.dispatchedCommands) := by
      rcases hcase with ⟨rfl, -⟩ | ⟨out, hout, -⟩
      · exact Nat.le_refl _
      · rw [hout, ← List.append_assoc, total_append]
        exact Nat.le_add_right ..
    have hack := hrec'.acknowledges (n := n) (by omega) (by omega)
    simp only [if_pos hack]
    exact List.mem_append_right _ List.mem_cons_self

/-- The smallest number that waits is delivered and answered. -/
theorem Steady.answer {command : Command} (hmtu : headerSize + sendFragmentSize < mtu)
    (h : Steady mtu windowSize l) (hmem : (n, command) ∈ l.commands) (hn : n ∈ l.sender.waiting)
    (hleast : ∀ m ∈ l.sender.waiting, n ≤ m) :
    ∃ bs l', Run (Link.step mtu windowSize) (Link.Paced mtu) l bs l' ∧ l'.packets = l.packets ∧
      l'.sender.remaining + 1 = l.sender.remaining := by
  have hle := (h.sending.windowed.range n hn).2
  have hrecent : l.Recent n := h.sending.windowed.span n hn
  have hack := h.toLinked.deliver_acknowledges hmtu hmem hrecent
    (h.toLinked.near_of_least hmtu hle hleast)
  have hsame : (l.deliver n command (some [])).sender = l.sender ∧
      (l.deliver n command (some [])).packets = l.packets := by
    unfold Link.deliver
    split <;> exact ⟨rfl, rfl⟩
  obtain ⟨i, hi, hx⟩ := List.getElem_of_mem hmem
  obtain ⟨j, hj, hy⟩ := List.getElem_of_mem hack
  have hx' : l.commands[i]? = some (n, command) :=
    (List.getElem?_eq_getElem hi).trans (congrArg some hx)
  have hy' : (l.deliver n command (some [])).acknowledgements[j]? = some (n, n % 65536) :=
    (List.getElem?_eq_getElem hj).trans (congrArg some hy)
  have hok : l.Paced mtu (.deliver i (some [])) := by
    refine ⟨fun x hm => ?_, trivial⟩
    rw [hx'] at hm
    cases hm
    exact hrecent
  have hok' : (l.deliver n command (some [])).Paced mtu (.acknowledge j) := by
    refine ⟨fun x hm => ?_, trivial⟩
    rw [hy'] at hm
    cases hm
    unfold Link.Recent
    rw [hsame.1]
    exact hrecent
  have hrun : Run (Link.step mtu windowSize) (Link.Paced mtu) l [.deliver i (some []), .acknowledge j]
      { l.deliver n command (some []) with
        sender := l.sender.removeSentReliableCommand (n % 65536) } :=
    .cons hok (by simp [Link.step, hx']) (.cons hok' (by simp [Link.step, hy', hsame.1]) (.nil _))
  refine ⟨_, _, hrun, hsame.2, ?_⟩
  obtain ⟨hsending, hnewest, ⟨c, -, hperm⟩ | ⟨hnot, -⟩⟩ :=
    removeSentReliableCommand_spec h.sending hle hrecent
  · have hlen := hperm.length_eq
    have hnum := hsending.numbered.trans h.sending.numbered.symm
    rw [List.length_cons] at hlen
    simp only [Sender.remaining, Sender.waiting, List.length_map, hnum, hnewest]
    omega
  · exact absurd hn hnot

/-! ### To the end -/

/-- With nothing unanswered the next new command may go out. -/
theorem Steady.sendable_first (h : Steady mtu windowSize l)
    (hhead : l.sender.outgoingCommands = c :: rest) (hwait : l.sender.waiting = [])
    (hsent : l.sender.sentReliableCommands = []) : l.sender.Sendable (max windowSize mtu) c := by
  have hwindows := h.sending.windowed
  rw [hwait] at hwindows
  have hzero (w : Nat) (hw : w < 16) : l.sender.reliableWindows w = 0 := hwindows.counts w hw
  have hused : l.sender.usedReliableWindows = 0 := by
    refine Nat.eq_of_testBit_eq fun w => ?_
    rw [Nat.zero_testBit, Bool.eq_false_iff]
    intro hbit
    obtain ⟨hw, hpos⟩ := (hwindows.bits w).mp hbit
    rw [hzero w hw] at hpos
    exact Nat.lt_irrefl 0 hpos
  refine ⟨fun hwrap => ?_, ?_⟩
  · obtain ⟨-, -, hblocked⟩ := hwrap
    have hlast := hzero ((c.command.reliableSequenceNumber / reliableWindowSize +
      reliableWindowCount - 1) % reliableWindowCount) (Nat.mod_lt _ (by decide))
    rw [hlast, hused, Nat.zero_and] at hblocked
    exact hblocked.elim (fun hfull => absurd hfull (by decide)) fun hne => hne rfl
  · obtain ⟨k, p, i, -, -, -, heq⟩ :=
      h.sending.carries c (List.mem_append_left _ (hhead ▸ List.mem_cons_self))
    have hlen := commandAt_length mtu p k i
    rw [h.sending.inTransit, hsent, heq]
    unfold fragmentLength at hlen
    simp only [Sender.dataLength, List.map_nil, List.sum_nil]
    omega

/-- The oldest command that waits can be brought to the receiver, with the packets and the rest as they
are. -/
def Brings (mtu windowSize : Nat) (l : Link) : Prop :=
  ∃ bs l' n command, Run (Link.step mtu windowSize) (Link.Paced mtu) l bs l' ∧
    (n, command) ∈ l'.commands ∧ n ∈ l'.sender.waiting ∧ (∀ m ∈ l'.sender.waiting, n ≤ m) ∧
    l'.packets = l.packets ∧ l'.sender.remaining = l.sender.remaining

/-- Nothing waits: a new command goes out. -/
theorem Steady.brings_new (h : Steady mtu windowSize l) (hsent : l.sender.sentReliableCommands = [])
    (hempty : l.sender.waiting = []) (hpos : 0 < l.sender.remaining) : Brings mtu windowSize l := by
  obtain ⟨again, fresh, hq⟩ := h.sending.queued
  have hagain : again = [] := by
    have hpending := hq.pending
    rw [hsent, List.append_nil] at hpending
    rw [Sender.waiting, hpending, List.map_eq_nil_iff] at hempty
    exact hempty
  cases hhead : l.sender.outgoingCommands with
  | nil =>
    have hnum := hq.2.2.2
    rw [hq.1, List.append_eq_nil_iff] at hhead
    rw [hhead.2] at hnum
    have hlen := congrArg List.length hnum
    rw [List.length_range', List.map_nil, List.length_nil] at hlen
    unfold Sender.remaining at hpos
    rw [hempty, List.length_nil] at hpos
    omega
  | cons c rest =>
    have hfresh : c.sendAttempts = 0 := by
      have heq := hq.1
      rw [hagain, List.nil_append] at heq
      exact hq.2.2.1 c (heq ▸ hhead ▸ List.mem_cons_self)
    have hsend := h.sendable_first hhead hempty hsent
    obtain ⟨-, hnumber, hlt, -⟩ := hq.head hhead hfresh
    have hrun := h.toLinked.sendOne hhead hsend
    rcases (transmitHead_spec h.sending hhead hsend).2.1 with ⟨hsame, -⟩ | ⟨hnewest, hwait, -⟩
    · rw [transmitHead_first l.sender rest hfresh] at hsame
      simp only at hsame
      omega
    · rw [hempty] at hwait
      have hnumbered : (l.sender.transmitHead c rest).numbered = l.sender.numbered := by
        rw [transmitHead_first l.sender rest hfresh]
      refine ⟨_, _, c.number, c.command, hrun, List.mem_append_right _ List.mem_cons_self,
        hwait.mem_iff.mp (hnumber ▸ List.mem_cons_self), fun m hm => ?_, rfl, ?_⟩
      · rw [List.mem_singleton.mp (hwait.mem_iff.mpr hm), hnumber]
      · have hlen := hwait.length_eq
        simp only [Link.transmitHead, Sender.remaining, hnewest, hnumbered, hempty]
        simp only [List.length_cons, List.length_nil] at hlen ⊢
        omega

/-- The smallest number that waits goes out again, behind those in front of it. -/
theorem Steady.brings_again (hmtu : headerSize + sendFragmentSize < mtu)
    (h : Steady mtu windowSize l) (hsent : l.sender.sentReliableCommands = [])
    (hwaiting : l.sender.waiting ≠ []) : Brings mtu windowSize l := by
  obtain ⟨again, fresh, hq⟩ := h.sending.queued
  have hex : ∃ n, n ∈ l.sender.waiting := List.exists_mem_of_ne_nil _ hwaiting
  obtain ⟨c, hc, hnumber⟩ := List.mem_map.mp (Nat.find_spec hex)
  rw [hq.pending, hsent, List.append_nil] at hc
  obtain ⟨before, after, rfl⟩ := List.append_of_mem hc
  have hlist : l.sender.outgoingCommands = before ++ c :: (after ++ fresh) := by simpa using hq.1
  obtain ⟨bs, l', hrun, hmem, hpackets, hwait, hrem⟩ := h.resend hmtu hlist
    (fun d hd => hq.2.1 d (List.mem_append_left _ hd)) (hq.2.1 c hc)
  refine ⟨bs, l', c.number, c.command, hrun, hmem, ?_, fun m hm => ?_, hpackets, hrem⟩
  · rw [hnumber]
    exact hwait.mem_iff.mp (Nat.find_spec hex)
  · rw [hnumber]
    exact Nat.find_min' hex (hwait.mem_iff.mpr hm)

theorem Steady.advance (hmtu : headerSize + sendFragmentSize < mtu) (h : Steady mtu windowSize l)
    (hpos : 0 < l.sender.remaining) :
    ∃ bs l', Run (Link.step mtu windowSize) (Link.Paced mtu) l bs l' ∧ l'.packets = l.packets ∧
      l'.sender.remaining + 1 = l.sender.remaining := by
  -- everything times out
  obtain ⟨-, hpend⟩ := checkTimeouts_spec (fun _ => true) h.sending
  have hrun : Run (Link.step mtu windowSize) (Link.Paced mtu) l [.checkTimeouts fun _ => true]
      { l with sender := l.sender.checkTimeouts fun _ => true } :=
    .cons ⟨trivial, trivial⟩ rfl (.nil _)
  have h' := run_steady hmtu hrun h
  have hrem : (l.sender.checkTimeouts fun _ => true).remaining = l.sender.remaining := by
    simp only [Sender.remaining, Sender.waiting, List.length_map, hpend.length_eq]
    rfl
  have hsent : (l.sender.checkTimeouts fun _ => true).sentReliableCommands = [] := by
    simp [Sender.checkTimeouts]
  generalize (l.sender.checkTimeouts fun _ => true) = s at *
  have hbrings : Brings mtu windowSize { l with sender := s } := by
    by_cases hempty : s.waiting = []
    · exact h'.brings_new hsent hempty (hrem ▸ hpos)
    · exact h'.brings_again hmtu hsent hempty
  -- what has come is answered
  obtain ⟨bs, l1, n, command, hrun1, hmem, hn, hleast, hpackets, hrem1⟩ := hbrings
  obtain ⟨bs', l2, hrun2, hpackets2, hrem2⟩ :=
    (run_steady hmtu hrun1 h').answer hmtu hmem hn hleast
  exact ⟨_, l2, (hrun.append hrun1).append hrun2, hpackets2.trans hpackets,
    hrem2.trans (hrem1.trans hrem)⟩

theorem Steady.finish (hmtu : headerSize + sendFragmentSize < mtu) (h : Steady mtu windowSize l)
    (k : Nat) (hk : l.sender.remaining = k) :
    ∃ bs l', Run (Link.step mtu windowSize) (Link.Paced mtu) l bs l' ∧ l'.packets = l.packets ∧
      l'.sender.remaining = 0 := by
  induction k generalizing l with
  | zero => exact ⟨[], l, .nil l, rfl, hk⟩
  | succ k ih =>
    obtain ⟨bs, l', hrun, hpackets, hrem⟩ := h.advance hmtu (by omega)
    obtain ⟨bs', l'', hrun', hpackets', hzero⟩ := ih (run_steady hmtu hrun h) (by omega)
    exact ⟨_, l'', hrun.append hrun', hpackets'.trans hpackets, hzero⟩

/-- From every state, also when nothing is in flight any more, the two ends can go on until everything
sent is dispatched and acknowledged. -/
theorem can_finish (hmtu : headerSize + sendFragmentSize < mtu)
    (h : Run (Link.step mtu windowSize) (Link.Paced mtu) .init as l) :
    ∃ bs l', Run (Link.step mtu windowSize) (Link.Paced mtu) l bs l' ∧
      l'.packets = l.packets ∧ l'.dispatched = l.packets ∧ l'.sender.outgoingCommands = [] ∧
      l'.sender.sentReliableCommands = [] := by
  have hl := run_steady hmtu h (steady_init mtu windowSize)
  obtain ⟨bs, l', hrun, hpackets, hzero⟩ := hl.finish hmtu _ rfl
  obtain ⟨hout, hsent⟩ := remaining_zero (run_steady hmtu hrun hl).sending hzero
  have hall : Run (Link.step mtu windowSize) (Link.Timely mtu) .init (as ++ bs) l' :=
    (h.append hrun).mono fun _ _ hok => hok.1
  have hdispatched := (run_linked hmtu hall).dispatched_all hmtu hout hsent
  exact ⟨bs, l', hrun, hpackets, hpackets ▸ hdispatched, hout, hsent⟩

/-- One command is dispatched and its acknowledgement is lost; the other has been lost. -/
theorem can_finish_lost : ∃ as l, Run (Link.step 576 65536) (Link.Paced 576) .init as l ∧
    l.commands = [] ∧ l.acknowledgements = [] ∧ l.sender.sentReliableCommands ≠ [] ∧
    ∃ bs l', Run (Link.step 576 65536) (Link.Paced 576) l bs l' ∧
      l'.packets = l.packets ∧ l'.dispatched = l.packets ∧ l'.sender.outgoingCommands = [] ∧
      l'.sender.sentReliableCommands = [] :=
  have h := run_exec (Link.step 576 65536) (Link.Paced 576) .init
    [.send [7], .send [9], .checkOutgoingCommands 32 2 572, .deliver 0 (some []), .lose 0, .lose 0,
      .loseAcknowledgement 0] (by decide)
  ⟨_, _, h, by decide, by decide, by decide, can_finish (by decide) h⟩

end NetworkUtility.Enet
