import NetworkUtility.Enet.Outgoing
import NetworkUtility.Enet.Receiving
import NetworkUtility.Lib.Machine

/-! A connected ENet peer and its remote, with a channel of reliable packets from one to the other.
The net between them loses, repeats, delays and reorders what it carries. -/
namespace NetworkUtility.Enet

open Machine

/-- `packets` is what `enet_peer_send` has taken and `received` what `enet_peer_receive` has
returned. Every command travels alone with its number, which nothing reads; so does every
acknowledgement. -/
structure Link where
  packets : List (List UInt8)
  sender : Sender
  commands : List (Nat × Command)
  receiver : Receiver
  acknowledgements : List (Nat × Nat)
  received : List (List UInt8)

def Link.init : Link := ⟨[], .init, [], .init, [], []⟩

/-- The packets that are dispatched, in the order of dispatch. -/
def Link.dispatched (l : Link) : List (List UInt8) := l.received ++ l.receiver.dispatchedCommands

inductive LinkAction
  | send (packet : List UInt8)
  | checkOutgoingCommands (packetThrottle slots room : Nat)
  | checkTimeouts (due : OutgoingCommand → Bool)
  | deliver (i : Nat) (memory : Option (List UInt8))
  | lose (i : Nat)
  | acknowledge (i : Nat)
  | loseAcknowledgement (i : Nat)
  | receive

/-- `ENET_MAX (windowSize, peer -> mtu)`, with ENET_PEER_PACKET_THROTTLE_SCALE. -/
def windowLimit (mtu windowSize packetThrottle : Nat) : Nat :=
  max (packetThrottle * windowSize / 32) mtu

namespace Link

/-- The command is handled and acknowledged; what is delivered stays in the net. -/
def deliver (l : Link) (n : Nat) (c : Command) (memory : Option (List UInt8)) : Link :=
  match l.receiver.handleSend c memory with
  | none => l
  | some r =>
    { l with
      receiver := r
      acknowledgements :=
        if r.Acknowledges c.reliableSequenceNumber then
          l.acknowledgements ++ [(n, c.reliableSequenceNumber)]
        else l.acknowledgements }

def step (mtu windowSize : Nat) (l : Link) : LinkAction → Option Link
  | .send packet =>
    (l.sender.send mtu packet).map fun s => { l with sender := s, packets := l.packets ++ [packet] }
  | .checkOutgoingCommands packetThrottle slots room =>
    let r := l.sender.checkOutgoingCommands (windowLimit mtu windowSize packetThrottle) slots room
    some { l with sender := r.1, commands := l.commands ++ r.2 }
  | .checkTimeouts due => some { l with sender := l.sender.checkTimeouts due }
  | .deliver i memory => (l.commands[i]?).map fun x => l.deliver x.1 x.2 memory
  | .lose i => some { l with commands := l.commands.eraseIdx i }
  | .acknowledge i =>
    (l.acknowledgements[i]?).map fun x =>
      { l with sender := l.sender.removeSentReliableCommand x.2 }
  | .loseAcknowledgement i => some { l with acknowledgements := l.acknowledgements.eraseIdx i }
  | .receive =>
    match l.receiver.dispatchedCommands with
    | [] => none
    | p :: rest =>
      some { l with
        receiver := { l.receiver with dispatchedCommands := rest }
        received := l.received ++ [p] }

/-- What is delivered is not more than six windows behind the newest command sent. -/
def Recent (l : Link) (n : Nat) : Prop :=
  l.sender.newest / reliableWindowSize ≤ n / reliableWindowSize + 6

instance (l : Link) (n : Nat) : Decidable (l.Recent n) := inferInstanceAs (Decidable (_ ≤ _))

/-- A packet has at most three windows of commands, and the net does not deliver what is older than
the free windows. -/
def Timely (mtu : Nat) (l : Link) : LinkAction → Prop
  | .send packet => commandCount mtu packet ≤ 3 * reliableWindowSize
  | .deliver i _ => ∀ x ∈ l.commands[i]?, l.Recent x.1
  | .acknowledge i => ∀ x ∈ l.acknowledgements[i]?, l.Recent x.1
  | _ => True

instance (mtu : Nat) (l : Link) (a : LinkAction) : Decidable (l.Timely mtu a) := by
  cases a <;> unfold Timely <;> infer_instance

end Link

variable {mtu windowSize limit n m i : Nat} {p : List UInt8} {packets done : List (List UInt8)}
  {l l' : Link} {a : LinkAction} {s t : Sender} {r r' : Receiver} {c : Command}
  {memory : Option (List UInt8)} {out : List (Nat × Command)} {as : List LinkAction}

/-- The command with the number is dispatched or stored. -/
def Link.Covers (mtu : Nat) (l : Link) (n : Nat) : Prop :=
  Covered (total mtu l.dispatched) l.receiver.incomingReliableCommands n

/-- What the receiver has of the command may be acknowledged. -/
def Link.Answers (mtu : Nat) (l : Link) (n : Nat) : Prop :=
  l.Covers mtu n ∧ n / 4096 ≤ total mtu l.dispatched / 4096 + 6

structure Linked (mtu : Nat) (l : Link) : Prop where
  fits : ∀ p ∈ l.packets, Fits mtu p
  sending : Sending mtu l.packets l.sender
  receiving : Receiving mtu l.packets l.dispatched l.receiver
  commands : ∀ x ∈ l.commands, Carries mtu l.packets x.1 x.2 ∧ x.1 ≤ l.sender.newest
  arrived : ∀ n, l.Covers mtu n → n ≤ l.sender.newest
  answered : ∀ n, 0 < n → n ≤ l.sender.newest → n ∉ l.sender.waiting → l.Answers mtu n
  acknowledgements : ∀ x ∈ l.acknowledgements,
    x.2 = x.1 % 65536 ∧ x.1 ≤ l.sender.newest ∧ l.Answers mtu x.1
  near : l.sender.newest / 4096 ≤ total mtu l.dispatched / 4096 + 7

theorem linked_init (mtu : Nat) : Linked mtu .init where
  fits _ hp := absurd hp List.not_mem_nil
  sending := sending_init mtu
  receiving := receiving_init mtu
  commands _ hx := absurd hx List.not_mem_nil
  arrived n hn := by
    rcases hn with hn | ⟨e, he, -⟩
    · exact hn
    · exact absurd he List.not_mem_nil
  answered n hpos hn := absurd hn (Nat.not_le.mpr hpos)
  acknowledgements _ hx := absurd hx List.not_mem_nil
  near := Nat.zero_le _

/-- What has been dispatched has been sent. -/
theorem Linked.base_le (h : Linked mtu l) : total mtu l.dispatched ≤ l.sender.newest :=
  h.arrived _ (Or.inl (Nat.le_refl _))

/-! ### The sender's steps -/

theorem Linked.send (hmtu : headerSize + sendFragmentSize < mtu) (h : Linked mtu l)
    (hcount : commandCount mtu p ≤ 3 * reliableWindowSize) (hs : l.sender.send mtu p = some s) :
    Linked mtu { l with sender := s, packets := l.packets ++ [p] } := by
  obtain ⟨hsend, hpend, hnewest⟩ := send_pending hmtu hs h.sending
  have hwait : s.waiting = l.sender.waiting := congrArg (List.map OutgoingCommand.number) hpend
  have hsize : p.length ≤ maximumPacketSize := by
    unfold Sender.send at hs
    split at hs
    · cases hs
    · omega
  refine ⟨fun q hq => ?_, hsend, h.receiving.append [p], fun x hx => ?_, ?_, ?_, ?_, ?_⟩
  · rcases List.mem_append.mp hq with hq | hq
    · exact h.fits q hq
    · rw [List.mem_singleton.mp hq]
      exact ⟨hsize, hcount⟩
  · rw [hnewest]
    exact ⟨(h.commands x hx).1.append [p], (h.commands x hx).2⟩
  · rw [hnewest]
    exact h.arrived
  · rw [hnewest, hwait]
    exact h.answered
  · rw [hnewest]
    exact h.acknowledgements
  · rw [hnewest]
    exact h.near

/-- Where the first command of a window may go out, the receiver is not a window behind. -/
theorem Linked.advance (h : Linked mtu l) (ht : Sending mtu l.packets t)
    (hadv : Advances l.sender t) : Linked mtu { l with sender := t } := by
  rcases hadv with ⟨hnewest, hwait⟩ | ⟨hnewest, hwait, hfree⟩
  · refine ⟨h.fits, ht, h.receiving, ?_, ?_, fun n hpos hn hnot => ?_, ?_, ?_⟩
    · rw [hnewest]
      exact h.commands
    · rw [hnewest]
      exact h.arrived
    · rw [hnewest] at hn
      exact h.answered n hpos hn fun hm => hnot (hwait.mem_iff.mp hm)
    · rw [hnewest]
      exact h.acknowledgements
    · rw [hnewest]
      exact h.near
  · have hnear := h.near
    refine ⟨h.fits, ht, h.receiving, fun x hx => ?_, fun n hn => ?_, fun n hpos hn hnot => ?_,
      fun x hx => ?_, ?_⟩
    · have hc := h.commands x hx
      exact ⟨hc.1, by rw [hnewest]; exact Nat.le_succ_of_le hc.2⟩
    · have := h.arrived n hn
      rw [hnewest]
      exact Nat.le_succ_of_le this
    · rw [hnewest] at hn
      have hne : n ≠ l.sender.newest + 1 := fun he =>
        hnot (hwait.mem_iff.mp (he ▸ List.mem_cons_self))
      exact h.answered n hpos (by omega) fun hm =>
        hnot (hwait.mem_iff.mp (List.mem_cons_of_mem _ hm))
    · obtain ⟨hq, hn, ha⟩ := h.acknowledgements x hx
      exact ⟨hq, by rw [hnewest]; exact Nat.le_succ_of_le hn, ha⟩
    · rw [hnewest]
      change (l.sender.newest + 1) / 4096 ≤ total mtu l.dispatched / 4096 + 7
      by_contra hfar
      -- the window before the new one has no answered command, so it is full
      have hlast : l.sender.newest / 4096 = total mtu l.dispatched / 4096 + 7 := by omega
      have hall : ∀ n, n / 4096 = l.sender.newest / 4096 → n ∈ l.sender.waiting := by
        intro n hn
        by_contra hnot
        have hans := h.answered n (by omega) (by omega) hnot
        have := hans.2
        omega
      have hfull := h.sending.windowed.full hall
      refine hfree ⟨by omega, Or.inl ?_⟩
      rwa [show ((l.sender.newest + 1) / 4096 % 16 + 15) % 16 = l.sender.newest / 4096 % 16 by omega]

theorem Linked.transmits (h : Linked mtu l) (hs : Transmits limit s out t) (heq : l.sender = s) :
    Linked mtu { l with sender := t, commands := l.commands ++ out } := by
  induction hs generalizing l with
  | nil s =>
    subst heq
    rwa [List.append_nil]
  | @cons s t c rest out hhead hsend _ ih =>
    subst heq
    obtain ⟨hsending, hadv, hcarry, hle⟩ := transmitHead_spec h.sending hhead hsend
    have hmid := h.advance hsending hadv
    have hnext := ih (l := { l with
      sender := l.sender.transmitHead c rest
      commands := l.commands ++ [(c.number, c.command)] }) ?_ rfl
    · simpa only [List.append_assoc, List.singleton_append] using hnext
    · refine ⟨hmid.fits, hmid.sending, hmid.receiving, fun x hx => ?_, hmid.arrived, hmid.answered,
        hmid.acknowledgements, hmid.near⟩
      rcases List.mem_append.mp hx with hx | hx
      · exact hmid.commands x hx
      · rw [List.mem_singleton.mp hx]
        exact ⟨hcarry, hle⟩

theorem Linked.acknowledge (h : Linked mtu l) (hx : l.acknowledgements[i]? = some (n, m))
    (hrecent : l.Recent n) :
    Linked mtu { l with sender := l.sender.removeSentReliableCommand m } := by
  obtain ⟨hm, hn, hans⟩ := h.acknowledgements _ (List.mem_of_getElem? hx)
  obtain rfl : m = n % 65536 := hm
  obtain ⟨hsending, hnewest, hrem⟩ := removeSentReliableCommand_spec h.sending hn hrecent
  refine ⟨h.fits, hsending, h.receiving, ?_, ?_, fun k hpos hk hnot => ?_, ?_, ?_⟩
  · rw [hnewest]
    exact h.commands
  · rw [hnewest]
    exact h.arrived
  · rw [hnewest] at hk
    by_cases he : k = n
    · rw [he]
      exact hans
    · refine h.answered k hpos hk fun hm => hnot ?_
      rcases hrem with ⟨c, rfl, hperm⟩ | ⟨-, hsame⟩
      · exact (List.mem_cons.mp ((hperm.map _).mem_iff.mp hm)).resolve_left he
      · rw [hsame]
        exact hm
  · rw [hnewest]
    exact h.acknowledgements
  · rw [hnewest]
    exact h.near

/-! ### The receiver's steps -/

/-- SEND_RELIABLE or SEND_FRAGMENT, as `enet_peer_send` has made it. -/
theorem handleSend_spec (memory : Option (List UInt8)) (hmtu : headerSize + sendFragmentSize < mtu)
    (h : Receiving mtu packets done r) (hfits : ∀ p ∈ packets, Fits mtu p)
    (hc : Carries mtu packets n c) (hlow : total mtu done / 4096 ≤ n / 4096 + 6)
    (hhigh : n / 4096 ≤ total mtu done / 4096 + 7) :
    (memory = none ∧ r.handleSend c memory = none) ∨
    ∃ r', r.handleSend c memory = some r' ∧
      ((r' = r ∧ (r.Acknowledges (n % 65536) →
        Covered (total mtu done) r.incomingReliableCommands n)) ∨
        Takes mtu packets done r n r') := by
  obtain ⟨k, p, i, hp, hi, rfl, rfl⟩ := hc
  have hfit : Fits mtu p := by
    obtain ⟨front, back, rfl, -⟩ := hp
    exact hfits p (by simp)
  unfold commandAt Receiver.handleSend
  unfold commandCount at hi
  split at hi
  · next hlong =>
    rw [if_pos hlong]
    exact handleSendFragment_spec hmtu h hp hlong hi hfit hlow hhigh
  · next hshort =>
    obtain rfl : i = 0 := by omega
    rw [if_neg hshort]
    exact handleSendReliable_spec hmtu h hp hshort hfit hlow hhigh

/-- A command that may be acknowledged is within the free windows of the dispatched ones. -/
theorem Receiving.acknowledged_near (h : Receiving mtu packets done r)
    (hack : r.Acknowledges (n % 65536)) (hhigh : n / 4096 ≤ total mtu done / 4096 + 7) :
    n / 4096 ≤ total mtu done / 4096 + 6 := by
  by_cases hle : total mtu done ≤ n
  · exact (acknowledges_ahead h.sequence hle (by omega)).mp hack
  · omega

theorem Linked.deliver (memory : Option (List UInt8)) (hmtu : headerSize + sendFragmentSize < mtu)
    (h : Linked mtu l)
    (hx : l.commands[i]? = some (n, c)) (hrecent : l.Recent n) :
    Linked mtu (l.deliver n c memory) := by
  obtain ⟨hcarry, hn⟩ := h.commands _ (List.mem_of_getElem? hx)
  have hbase := h.base_le
  have hnear := h.near
  have hrecent : l.sender.newest / 4096 ≤ n / 4096 + 6 := hrecent
  have hseq : c.reliableSequenceNumber = n % 65536 := hcarry.sequence
  unfold Link.deliver
  rw [hseq]
  rcases handleSend_spec memory hmtu h.receiving h.fits hcarry (by omega) (by omega) with
    ⟨-, hnone⟩ | ⟨r', hsome, ⟨rfl, hcov⟩ | ⟨out, hout, hrec, hcov⟩⟩
  · rw [hnone]
    exact h
  · rw [hsome]
    refine ⟨h.fits, h.sending, h.receiving, h.commands, h.arrived, h.answered, fun x hx => ?_, h.near⟩
    dsimp only at hx
    split at hx
    · next hack =>
      rcases List.mem_append.mp hx with hx | hx
      · exact h.acknowledgements x hx
      · rw [List.mem_singleton.mp hx]
        exact ⟨rfl, hn, hcov hack, h.receiving.acknowledged_near hack (by omega)⟩
    · exact h.acknowledgements x hx
  · rw [hsome]
    have hdone : l.received ++ r'.dispatchedCommands = l.dispatched ++ out := by
      rw [hout, ← List.append_assoc]
      rfl
    have hgrow : total mtu l.dispatched ≤ total mtu (l.dispatched ++ out) := by
      rw [total_append]
      exact Nat.le_add_right ..
    have hgrow' := Nat.div_le_div_right (c := 4096) hgrow
    have hans (k : Nat) (hk : l.Answers mtu k) :
        Covered (total mtu (l.dispatched ++ out)) r'.incomingReliableCommands k ∧
          k / 4096 ≤ total mtu (l.dispatched ++ out) / 4096 + 6 :=
      ⟨(hcov k).mpr (Or.inl hk.1), by have := hk.2; omega⟩
    refine ⟨h.fits, h.sending, ?_, h.commands, fun k hk => ?_, fun k hpos hk hnot => ?_,
      fun x hx => ?_, ?_⟩
    · simp only [Link.dispatched, hdone]
      exact hrec
    · simp only [Link.Covers, Link.dispatched, hdone] at hk
      rcases (hcov k).mp hk with hk | rfl
      · exact h.arrived k hk
      · exact hn
    · simp only [Link.Answers, Link.Covers, Link.dispatched, hdone]
      exact hans k (h.answered k hpos hk hnot)
    · simp only [Link.Answers, Link.Covers, Link.dispatched, hdone]
      dsimp only at hx
      split at hx
      · next hack =>
        rcases List.mem_append.mp hx with hx | hx
        · obtain ⟨hq, hle, ha⟩ := h.acknowledgements x hx
          exact ⟨hq, hle, hans _ ha⟩
        · rw [List.mem_singleton.mp hx]
          exact ⟨rfl, hn, (hcov n).mpr (Or.inr rfl), hrec.acknowledged_near hack (by omega)⟩
      · obtain ⟨hq, hle, ha⟩ := h.acknowledgements x hx
        exact ⟨hq, hle, hans _ ha⟩
    · simp only [Link.dispatched, hdone]
      exact Nat.le_trans hnear (Nat.add_le_add_right hgrow' 7)

/-! ### Every run -/

theorem Linked.step (hmtu : headerSize + sendFragmentSize < mtu) (h : Linked mtu l)
    (hok : l.Timely mtu a) (hstep : l.step mtu windowSize a = some l') : Linked mtu l' := by
  cases a with
  | send packet =>
    obtain ⟨s, hs, rfl⟩ := Option.map_eq_some_iff.mp hstep
    exact h.send hmtu hok hs
  | checkOutgoingCommands packetThrottle slots room =>
    cases hstep
    exact h.transmits (checkOutgoingCommands_spec ..) rfl
  | checkTimeouts due =>
    cases hstep
    obtain ⟨hsending, hpend⟩ := checkTimeouts_spec due h.sending
    exact h.advance hsending (Or.inl ⟨rfl, hpend.map _⟩)
  | deliver i memory =>
    obtain ⟨⟨n, c⟩, hx, rfl⟩ := Option.map_eq_some_iff.mp hstep
    exact h.deliver memory hmtu hx (hok _ hx)
  | lose i =>
    cases hstep
    exact ⟨h.fits, h.sending, h.receiving,
      fun x hx => h.commands x (List.mem_of_mem_eraseIdx hx), h.arrived, h.answered,
      h.acknowledgements, h.near⟩
  | acknowledge i =>
    obtain ⟨⟨n, q⟩, hx, rfl⟩ := Option.map_eq_some_iff.mp hstep
    exact h.acknowledge hx (hok _ hx)
  | loseAcknowledgement i =>
    cases hstep
    exact ⟨h.fits, h.sending, h.receiving, h.commands, h.arrived, h.answered,
      fun x hx => h.acknowledgements x (List.mem_of_mem_eraseIdx hx), h.near⟩
  | receive =>
    simp only [Link.step] at hstep
    split at hstep
    · cases hstep
    · next p rest hd =>
      cases hstep
      have hdone : l.received ++ [p] ++ rest = l.dispatched := by
        simp [Link.dispatched, hd]
      refine ⟨h.fits, h.sending, ?_, h.commands, ?_, ?_, ?_, ?_⟩
      · simp only [Link.dispatched, hdone]
        exact ⟨h.receiving.storing, h.receiving.sequence, h.receiving.settled⟩
      · simp only [Link.Covers, Link.dispatched, hdone]
        exact h.arrived
      · simp only [Link.Answers, Link.Covers, Link.dispatched, hdone]
        exact h.answered
      · simp only [Link.Answers, Link.Covers, Link.dispatched, hdone]
        exact h.acknowledgements
      · simp only [Link.dispatched, hdone]
        exact h.near

theorem run_linked (hmtu : headerSize + sendFragmentSize < mtu)
    (h : Run (Link.step mtu windowSize) (Link.Timely mtu) .init as l) : Linked mtu l :=
  h.invariant (Linked mtu) (fun _ _ _ hs hok hst => hs.step hmtu hok hst) (linked_init mtu)

/-! ### What the two ends see -/

/-- Packets are dispatched in the order in which they were sent, each once and none is left out,
whatever the net does and whenever the sender repeats a command. -/
theorem dispatched_in_order (hmtu : headerSize + sendFragmentSize < mtu)
    (h : Run (Link.step mtu windowSize) (Link.Timely mtu) .init as l) : l.dispatched <+: l.packets :=
  (run_linked hmtu h).receiving.storing.begins

/-- A packet of three fragments at the smallest MTU. -/
def threeFragments : List UInt8 := List.replicate 548 1 ++ List.replicate 548 2 ++ [3, 4, 5]

/-- A packet of three fragments and a short one, repeated, reordered, and one without memory for it. -/
theorem dispatched_in_order_repeated :
    ∃ as l, Run (Link.step 576 65536) (Link.Timely 576) .init as l ∧
      l.received = [threeFragments, [9]] ∧ l.dispatched <+: l.packets :=
  have h := run_exec (Link.step 576 65536) (Link.Timely 576) .init
    [.send threeFragments, .send [9], .checkOutgoingCommands 32 32 572,
      .checkOutgoingCommands 32 32 572, .checkOutgoingCommands 32 32 572, .deliver 3 (some []),
      .deliver 1 none, .deliver 1 (some []), .deliver 0 (some []), .deliver 1 (some []),
      .checkTimeouts fun _ => true, .checkOutgoingCommands 32 1 572, .deliver 2 (some []), .lose 0,
      .receive, .receive] (by decide +kernel)
  ⟨_, _, h, by decide +kernel, dispatched_in_order (by decide) h⟩

/-- All commands of the next packet have come, so it is complete. -/
theorem Storing.next_complete (hmtu : headerSize + sendFragmentSize < mtu)
    {stored : List IncomingCommand} (h : Storing mtu packets done stored)
    (hp : Placed mtu packets (total mtu done + 1) p)
    (hall : ∀ i < commandCount mtu p, Covered (total mtu done) stored (total mtu done + 1 + i)) :
    ∃ e ∈ stored, numberOf (total mtu done) e = total mtu done + 1 ∧ e.fragmentsRemaining = 0 := by
  have hcount := commandCount_pos hmtu p
  -- a stored command with such a number is that of the packet
  have hown (i : Nat) (hi : i < commandCount mtu p) :
      ∃ e ∈ stored, numberOf (total mtu done) e = total mtu done + 1 ∧ Holds mtu p e ∧ Has e i := by
    rcases hall i hi with hle | ⟨e, he, j, heq, hj⟩
    · omega
    · obtain ⟨p', hp', hh⟩ := (h.stored e he).packet
      obtain ⟨hk, rfl, rfl⟩ :=
        hp.unique hp' hi (hh.lt_count hj (commandCount_pos hmtu p')) heq
      exact ⟨e, he, hk.symm, hh, hj⟩
  obtain ⟨e, he, hnum, hh, -⟩ := hown 0 hcount
  refine ⟨e, he, hnum, hh.remaining_zero fun i hi => ?_⟩
  obtain ⟨d, hd, hnum', -, hi⟩ := hown i hi
  obtain rfl := h.ordered.injective hd he (hnum'.trans hnum.symm)
  exact hi

theorem Linked.dispatched_all (hl : Linked mtu l) (hmtu : headerSize + sendFragmentSize < mtu)
    (hout : l.sender.outgoingCommands = []) (hsent : l.sender.sentReliableCommands = []) :
    l.dispatched = l.packets := by
  obtain ⟨again, fresh, heq, -, -, hnum⟩ := hl.sending.queued
  rw [hout] at heq
  obtain ⟨rfl, rfl⟩ := List.append_eq_nil_iff.mp heq.symm
  have hle := hl.sending.newest_le
  have hnewest : l.sender.newest = total mtu l.packets := by
    have hlen := congrArg List.length hnum
    rw [List.length_range', List.map_nil, List.length_nil] at hlen
    rw [← hl.sending.numbered]
    omega
  have hwait : l.sender.waiting = [] := by
    simp [Sender.waiting, Sender.pending, hout, hsent]
  obtain ⟨rest, hrest⟩ := hl.receiving.storing.begins
  cases rest with
  | nil => rw [← hrest, List.append_nil]
  | cons p rest =>
    have hp : Placed mtu l.packets (total mtu l.dispatched + 1) p := ⟨_, rest, hrest.symm, rfl⟩
    obtain ⟨e, he, hfirst, hzero⟩ := hl.receiving.storing.next_complete hmtu hp fun i hi =>
      (hl.answered _ (by omega) (hnewest ▸ hp.le_total hi) (by simp [hwait])).1
    have := hl.receiving.settled e he hfirst
    omega

/-- When nothing is left to send or to be acknowledged, everything has been dispatched. -/
theorem dispatched_of_acknowledged (hmtu : headerSize + sendFragmentSize < mtu)
    (h : Run (Link.step mtu windowSize) (Link.Timely mtu) .init as l)
    (hout : l.sender.outgoingCommands = []) (hsent : l.sender.sentReliableCommands = []) :
    l.dispatched = l.packets :=
  (run_linked hmtu h).dispatched_all hmtu hout hsent

theorem dispatched_of_acknowledged_repeated : ∃ as l,
    Run (Link.step 576 65536) (Link.Timely 576) .init as l ∧ l.packets = [threeFragments, [9]] ∧
      l.dispatched = l.packets :=
  have h := run_exec (Link.step 576 65536) (Link.Timely 576) .init
    [.send threeFragments, .send [9], .checkOutgoingCommands 32 32 572,
      .checkOutgoingCommands 32 32 572, .checkOutgoingCommands 32 32 572, .deliver 3 (some []),
      .deliver 1 (some []), .deliver 0 (some []), .lose 0, .acknowledge 0,
      .checkTimeouts fun _ => true, .checkOutgoingCommands 32 1 572, .deliver 1 (some []),
      .acknowledge 0, .acknowledge 1, .acknowledge 2, .acknowledge 3] (by decide +kernel)
  ⟨_, _, h, by decide +kernel,
    dispatched_of_acknowledged (by decide) h (by decide +kernel) (by decide +kernel)⟩

/-! ### The accounting -/

/-- In every state of such a run the counter of a window is the number of its commands that have gone
out and are not answered, no counter exceeds the size of a window, the bits say which are not 0, and
no two of these commands have one sequence number. -/
theorem windows_account (hmtu : headerSize + sendFragmentSize < mtu)
    (h : Run (Link.step mtu windowSize) (Link.Timely mtu) .init as l) :
    (∀ w < reliableWindowCount,
      l.sender.reliableWindows w = l.sender.pending.countP (fun c =>
        c.command.reliableSequenceNumber / reliableWindowSize = w) ∧
      l.sender.reliableWindows w ≤ reliableWindowSize ∧
      (l.sender.usedReliableWindows.testBit w = true ↔ 0 < l.sender.reliableWindows w)) ∧
    (l.sender.pending.map fun c => c.command.reliableSequenceNumber).Nodup ∧
    l.sender.reliableDataInTransit = Sender.dataLength l.sender.sentReliableCommands := by
  have hs := (run_linked hmtu h).sending
  have hw := hs.windowed
  refine ⟨fun w hlt => ⟨?_, hw.count_le hlt, ?_⟩, ?_, hs.inTransit⟩
  · rw [hw.counts w hlt, Sender.waiting, List.countP_map]
    refine List.countP_congr fun c hc => ?_
    have hseq := (hs.pending_carries hc).sequence
    simp only [Function.comp_apply, decide_eq_true_eq, hseq, reliableWindowSize]
    omega
  · rw [hw.bits]
    exact and_iff_right hlt
  · refine List.Nodup.map_on (fun c hc d hd heq => ?_) (List.Nodup.of_map _ hw.distinct)
    refine List.inj_on_of_nodup_map hw.distinct hc hd ?_
    have hd' : d.number ∈ l.sender.waiting := List.mem_map_of_mem hd
    exact hs.number_unique hc (heq.trans (hs.pending_carries hd).sequence) (hw.range _ hd').2
      (hw.span _ hd')

theorem windows_account_one : ∃ as l, Run (Link.step 576 65536) (Link.Timely 576) .init as l ∧
    l.sender.reliableWindows 0 = 1 ∧
    (∀ w < reliableWindowCount,
      l.sender.reliableWindows w = l.sender.pending.countP (fun c =>
        c.command.reliableSequenceNumber / reliableWindowSize = w) ∧
      l.sender.reliableWindows w ≤ reliableWindowSize ∧
      (l.sender.usedReliableWindows.testBit w = true ↔ 0 < l.sender.reliableWindows w)) ∧
    (l.sender.pending.map fun c => c.command.reliableSequenceNumber).Nodup ∧
    l.sender.reliableDataInTransit = Sender.dataLength l.sender.sentReliableCommands :=
  have h := run_exec (Link.step 576 65536) (Link.Timely 576) .init
    [.send [1, 2, 3], .send [9], .checkOutgoingCommands 32 32 572, .deliver 1 (some []),
      .checkTimeouts fun _ => true, .acknowledge 0] (by decide)
  ⟨_, _, h, by decide, windows_account (by decide) h⟩

end NetworkUtility.Enet
