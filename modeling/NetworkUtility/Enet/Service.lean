import NetworkUtility.Enet.Peer
import NetworkUtility.Enet.Reliable

/-! The receiving end of a link as its host's owner sees it: to the peer of `enet_host_service` the
channel is a sequence of packets that are complete and in order. -/
namespace NetworkUtility.Enet

open Machine

variable {mtu windowSize : Nat} {l : Link} {as : List LinkAction} {ss : List Service}
  {packets : List (List UInt8)} {p : Peer} {events : List Event}

/-- A connected peer with what waits in `dispatchedCommands`. -/
def Peer.holding (packets : List (List UInt8)) : Peer := ⟨.connected, decide (packets ≠ []), packets⟩

/-- The peer, and the events of the service calls so far; each call begins without one. -/
def serviceStep (x : Peer × List Event) (a : Service) : Option (Peer × List Event) :=
  (serve x.1 none a).map fun r => (r.1, x.2 ++ r.2.toList)

def Service.handled : Service → Option (List UInt8)
  | .incident (.packet data) => some data
  | _ => none

/-- The packets that are handled in the service calls. -/
def packetsOf (ss : List Service) : List (List UInt8) := ss.filterMap Service.handled

theorem serves_packets (waiting new : List (List UInt8)) (events : List Event) :
    Run serviceStep Free (Peer.holding waiting, events) (new.map fun p => .incident (.packet p))
      (Peer.holding (waiting ++ new), events) := by
  induction new generalizing waiting with
  | nil =>
    rw [List.append_nil]
    exact .nil _
  | cons p new ih =>
    have hrest := ih (waiting ++ [p])
    rw [List.append_assoc, List.singleton_append] at hrest
    refine .cons trivial ?_ hrest
    simp [serviceStep, serve, Peer.handle, Peer.handleSend, Peer.holding]

theorem packetsOf_map (new : List (List UInt8)) :
    packetsOf (new.map fun p => .incident (.packet p)) = new := by
  induction new with
  | nil => rfl
  | cons p new ih => exact congrArg (p :: ·) ih

/-- The first packet comes out as the event of a service call. -/
theorem serves_dispatch (p : List UInt8) (rest : List (List UInt8)) (events : List Event) :
    Run serviceStep Free (Peer.holding (p :: rest), events) [.dispatch]
      (Peer.holding rest, events ++ [.receive p]) :=
  .cons trivial (by simp [serviceStep, serve, Peer.dispatchIncoming, Peer.holding]) (.nil _)

/-- A run of the receiver's peer that shows what the link has done. -/
def Served (l : Link) : Prop :=
  ∃ ss, Run serviceStep Free (Peer.holding [], []) ss
      (Peer.holding l.receiver.dispatchedCommands, l.received.map .receive) ∧
    packetsOf ss = l.dispatched

theorem Served.deliver {l' : Link} {out : List (List UInt8)} (h : Served l)
    (hout : l'.receiver.dispatchedCommands = l.receiver.dispatchedCommands ++ out)
    (hrec : l'.received = l.received) : Served l' := by
  obtain ⟨ss, hrun, hpackets⟩ := h
  refine ⟨ss ++ out.map fun p => .incident (.packet p), hrun.append ?_, ?_⟩
  · rw [hout, hrec]
    exact serves_packets ..
  · unfold packetsOf at hpackets ⊢
    rw [List.filterMap_append, hpackets, Link.dispatched, Link.dispatched, hrec, hout,
      List.append_assoc]
    exact congrArg _ (congrArg _ (packetsOf_map out))

theorem served_step {l' : Link} {a : LinkAction} (hmtu : headerSize + sendFragmentSize < mtu)
    (hl : Linked mtu l) (h : Served l) (hok : l.Timely mtu a)
    (hstep : l.step mtu windowSize a = some l') : Served l' := by
  cases a with
  | send packet =>
    obtain ⟨s, -, rfl⟩ := Option.map_eq_some_iff.mp hstep
    exact h
  | checkOutgoingCommands packetThrottle slots room =>
    cases hstep
    exact h
  | checkTimeouts due =>
    cases hstep
    exact h
  | deliver i memory =>
    obtain ⟨⟨n, c⟩, hx, rfl⟩ := Option.map_eq_some_iff.mp hstep
    obtain ⟨hcarry, hn⟩ := hl.commands _ (List.mem_of_getElem? hx)
    have hbase := hl.base_le
    have hnear := hl.near
    have hrecent : l.sender.newest / 4096 ≤ n / 4096 + 6 := hok _ hx
    unfold Link.deliver
    rcases handleSend_spec memory hmtu hl.receiving hl.fits hcarry (by omega)
        (by omega) with ⟨-, hnone⟩ | ⟨r', hsome, ⟨rfl, -⟩ | ⟨out, hout, -⟩⟩
    · rw [hnone]
      exact h
    · rw [hsome]
      exact h
    · rw [hsome]
      exact h.deliver hout rfl
  | lose i =>
    cases hstep
    exact h
  | acknowledge i =>
    obtain ⟨x, -, rfl⟩ := Option.map_eq_some_iff.mp hstep
    exact h
  | loseAcknowledgement i =>
    cases hstep
    exact h
  | receive =>
    simp only [Link.step] at hstep
    split at hstep
    · cases hstep
    · next p rest hd =>
      cases hstep
      obtain ⟨ss, hrun, hpackets⟩ := h
      rw [hd] at hrun
      refine ⟨ss ++ [.dispatch], hrun.append ?_, ?_⟩
      · rw [List.map_append]
        exact serves_dispatch p rest _
      · unfold packetsOf at hpackets ⊢
        rw [List.filterMap_append, hpackets]
        simp [Link.dispatched, Service.handled, hd]

/-- The link refines the peer: its receiver is a peer that has handled, in the order in which they were
sent, a beginning of the packets sent, and whose service calls have returned what was received. -/
theorem link_serves (hmtu : headerSize + sendFragmentSize < mtu)
    (h : Run (Link.step mtu windowSize) (Link.Timely mtu) .init as l) :
    ∃ ss, Run serviceStep Free (Peer.holding [], []) ss
        (Peer.holding l.receiver.dispatchedCommands, l.received.map .receive) ∧
      packetsOf ss <+: l.packets := by
  have hboth := h.invariant (fun l => Linked mtu l ∧ Served l)
    (fun _ _ _ hs hok hst => ⟨hs.1.step hmtu hok hst, served_step hmtu hs.1 hs.2 hok hst⟩)
    ⟨linked_init mtu, [], .nil _, rfl⟩
  obtain ⟨hl, ss, hrun, hpackets⟩ := hboth
  exact ⟨ss, hrun, hpackets ▸ hl.receiving.storing.begins⟩

theorem link_serves_two : ∃ as l ss, Run (Link.step 576 65536) (Link.Timely 576) .init as l ∧
    l.received = [[7]] ∧ Run serviceStep Free (Peer.holding [], []) ss
      (Peer.holding l.receiver.dispatchedCommands, l.received.map .receive) ∧
    packetsOf ss <+: l.packets :=
  have h := run_exec (Link.step 576 65536) (Link.Timely 576) .init
    [.send [7], .send [9], .checkOutgoingCommands 32 2 572, .deliver 1 (some []),
      .deliver 0 (some []), .receive] (by decide)
  (link_serves (by decide) h).elim fun ss hs => ⟨_, _, ss, h, by decide, hs⟩

end NetworkUtility.Enet
