import NetworkUtility.EnetClient.Steps

/-! The peer of the host is free whenever `m_enet_peer` is null and the event thread is idle, when
every `do_close` gets to see the DISCONNECT event. -/
namespace NetworkUtility.EnetClient

open Enet Machine

variable {s t : State} {a : Action} {as : List Action}

/-- The single peer of the host is not leaked. -/
def NoLeak (s : State) : Prop :=
  (s.eventThread = .idle → s.peer = false → s.enetPeer.state = .disconnected) ∧
    (s.eventThread = .connectHost → s.enetPeer.hostConnect.isSome)

/-- The event thread is behind the test of `do_close`. -/
def closing (s : State) : Bool := s.eventThread = .closeDisconnect ∨ s.eventThread = .closeJoin

/-- No other host connects to the free peer, and during a `do_close` the send thread does not find
the peer in between: still taken, and not connected. -/
def Served (s : State) : Action → Prop
  | .serve (.incident .connect) => s.enetPeer.state ≠ .disconnected
  | .send =>
    s.sendThread = .test → closing s → s.isConnected ∨ s.enetPeer.state = .disconnected
  | _ => True

instance : Decidable (Served s a) := by
  unfold Served
  split <;> infer_instance

structure Slot (s : State) : Prop where
  joinable : s.peer = true ↔ s.sendThread ≠ .none
  free : s.peer = false → (∀ event, s.eventThread ≠ .connectService event) →
    s.enetPeer.state = .disconnected
  closing : closing s = true → s.peer = true
  joining : s.eventThread = .connectJoin → s.enetPeer.state = .disconnected
  hosting : s.eventThread = .connectHost → s.peer = false
  connecting : ∀ event, s.eventThread = .connectService event → s.peer = false
  returned : s.sendThread = .returned → s.enetPeer.state ≠ .connected ∧
    (EnetClient.closing s = true → s.enetPeer.state = .disconnected)
  event : s.sendThread = .service (some .disconnect) → s.enetPeer.state = .disconnected

theorem slot_initial : Slot initial := by
  constructor <;> simp [initial, closing]

theorem disconnect_disconnected {p : Peer} (h : p.state = .disconnected) : p.disconnect = p := by
  simp [Peer.disconnect, h]

theorem disconnect_ne_connected (p : Peer) : p.disconnect.state ≠ .connected := by
  unfold Peer.disconnect
  split <;> simp_all [Peer.reset, Peer.resetQueues]

theorem closing_iff :
    closing s = true ↔ s.eventThread = .closeDisconnect ∨ s.eventThread = .closeJoin := by
  simp [closing]

/-! ### One step -/

/-- A step that leaves the peer and the two threads alone. -/
theorem Slot.keep (hs : Slot s) (hpeer : t.peer = s.peer) (hstate : t.enetPeer = s.enetPeer)
    (hevent : t.eventThread = s.eventThread) (hsend : t.sendThread = s.sendThread) : Slot t where
  joinable := by rw [hpeer, hsend]; exact hs.joinable
  free := by rw [hpeer, hevent, hstate]; exact hs.free
  closing h := by
    rw [closing_iff, hevent] at h
    rw [hpeer]
    exact hs.closing (closing_iff.mpr h)
  joining := by rw [hevent, hstate]; exact hs.joining
  hosting := by rw [hevent, hpeer]; exact hs.hosting
  connecting := by rw [hevent, hpeer]; exact hs.connecting
  returned := by
    rw [hsend, hstate, closing_iff, hevent, ← closing_iff]
    exact hs.returned
  event := by rw [hsend, hstate]; exact hs.event

/-- The event thread is in front of `do_connect` or of the test of `do_close`, or waits. -/
theorem Slot.quiet
    (hquiet : t.eventThread = .idle ∨ t.eventThread = .connectReset ∨ t.eventThread = .closeTest)
    (hjoin : t.peer = true ↔ t.sendThread ≠ .none)
    (hfree : t.peer = false → t.enetPeer.state = .disconnected)
    (hret : t.sendThread = .returned → t.enetPeer.state ≠ .connected)
    (hev : t.sendThread = .service (some .disconnect) → t.enetPeer.state = .disconnected) :
    Slot t := by
  have hno : ∀ thread, t.eventThread = thread →
      thread = .idle ∨ thread = .connectReset ∨ thread = .closeTest := by
    rintro thread rfl
    exact hquiet
  have hopen : ¬ EnetClient.closing t = true := by
    rw [closing_iff]
    rintro (h | h) <;> simpa using hno _ h
  exact ⟨hjoin, fun hp _ => hfree hp, fun h => absurd h hopen, fun h => by simpa using hno _ h,
    fun h => by simpa using hno _ h, fun event h => by simpa using hno _ h,
    fun h => ⟨hret h, fun hc => absurd hc hopen⟩, hev⟩

/-- The peer of the host is free. -/
theorem Slot.of_disconnected (hstate : t.enetPeer.state = .disconnected)
    (hjoin : t.peer = true ↔ t.sendThread ≠ .none) (hclosing : ¬ EnetClient.closing t = true)
    (hhost : t.eventThread = .connectHost → t.peer = false)
    (hservice : ∀ event, t.eventThread ≠ .connectService event) : Slot t := by
  have hne : t.enetPeer.state ≠ .connected := by
    rw [hstate]
    decide
  exact ⟨hjoin, fun _ _ => hstate, fun h => absurd h hclosing, fun _ => hstate, hhost,
    fun event h => absurd h (hservice event), fun _ => ⟨hne, fun _ => hstate⟩, fun _ => hstate⟩

/-- The send thread goes on. -/
theorem Slot.sends (hs : Slot s) (hpeer : t.peer = s.peer) (hstate : t.enetPeer = s.enetPeer)
    (hevent : t.eventThread = s.eventThread) (hbefore : s.sendThread ≠ .none)
    (hbehind : t.sendThread ≠ .none) (hno : t.sendThread ≠ .service (some .disconnect))
    (hret : t.sendThread = .returned → s.enetPeer.state ≠ .connected ∧
      (EnetClient.closing s = true → s.enetPeer.state = .disconnected)) : Slot t where
  joinable := by
    rw [hpeer, hs.joinable]
    exact iff_of_true hbefore hbehind
  free := by rw [hpeer, hevent, hstate]; exact hs.free
  closing h := by
    rw [closing_iff, hevent] at h
    rw [hpeer]
    exact hs.closing (closing_iff.mpr h)
  joining := by rw [hevent, hstate]; exact hs.joining
  hosting := by rw [hevent, hpeer]; exact hs.hosting
  connecting := by rw [hevent, hpeer]; exact hs.connecting
  returned := by
    rw [hstate, closing_iff, hevent, ← closing_iff]
    exact hret
  event h := absurd h hno

theorem joins_iff : s.joins = true ↔ s.sendThread = .none ∨ s.sendThread = .returned := by
  simp [State.joins]

theorem slot_event (hs : Slot s) (h : s.stepEvent = some t) : Slot t := by
  have hreturned : s.sendThread = .returned → s.enetPeer.state ≠ .connected :=
    fun h => (hs.returned h).1
  cases State.effect_of_event h with
  | takeConnect _ hth =>
    exact .quiet (.inr (.inl rfl)) hs.joinable (fun hp => hs.free hp (by simp [hth])) hreturned hs.event
  | takeClose _ hth =>
    exact .quiet (.inr (.inr rfl)) hs.joinable (fun hp => hs.free hp (by simp [hth])) hreturned hs.event
  | connectReset =>
    exact .of_disconnected rfl hs.joinable (by simp [closing]) (by simp) (by simp)
  | connectFree hth hfree =>
    have hstate : s.enetPeer.state = .disconnected :=
      hfree.elim (fun hp => hs.free hp (by simp [hth])) id
    exact .of_disconnected hstate hs.joinable (by simp [closing]) (by simp) (by simp)
  | connectJoin hth =>
    exact .of_disconnected (hs.joining hth) (by simp) (by simp [closing]) (fun _ => rfl) (by simp)
  | connectRefused hth | closeShut hth =>
    exact .quiet (.inl rfl) hs.joinable (fun hp => hs.free hp (by simp [hth])) hreturned hs.event
  | connectHost p hth =>
    have hp := hs.hosting hth
    have hnone : s.sendThread = .none := by simpa [hp] using hs.joinable
    exact ⟨hs.joinable, fun _ h => absurd rfl (h none), by simp [closing], by simp, by simp,
      fun _ _ => hp, fun h => by simp [hnone] at h, fun h => by simp [hnone] at h⟩
  | connected =>
    exact .quiet (.inl rfl) (by simp [State.onConnect]) (by simp [State.onConnect])
      (by simp [State.onConnect]) (by simp [State.onConnect])
  | connectFailed =>
    exact .of_disconnected rfl hs.joinable (by simp [closing, State.onClose])
      (by simp [State.onClose]) (by simp [State.onClose])
  | closeOpen hth hcon =>
    obtain ⟨hp, hst⟩ : s.peer = true ∧ s.enetPeer.state = .connected := by
      simpa [State.isConnected] using hcon
    exact ⟨hs.joinable, fun hpf _ => hs.free hpf (by simp [hth]), fun _ => hp, by simp, by simp,
      by simp, fun h => absurd hst (hreturned h), hs.event⟩
  | closeDisconnect hth =>
    have hclosing : closing s = true := by simp [closing, hth]
    have hp : s.peer = true := hs.closing hclosing
    have hkeep : s.enetPeer.state = .disconnected → s.enetPeer.disconnect.state = .disconnected := by
      intro hst
      rw [disconnect_disconnected hst]
      exact hst
    have hfree (h : s.sendThread = .returned) := hkeep ((hs.returned h).2 hclosing)
    rw [if_pos hp]
    exact ⟨iff_of_true hp (hs.joinable.mp hp), by simp [hp], fun _ => hp, by simp, by simp, by simp,
      fun h => ⟨disconnect_ne_connected _, fun _ => hfree h⟩, fun h => hkeep (hs.event h)⟩
  | closeJoin hth hjoin =>
    have hclosing : closing s = true := by simp [closing, hth]
    have hback : s.sendThread = .returned :=
      (joins_iff.mp hjoin).resolve_left (hs.joinable.mp (hs.closing hclosing))
    exact .of_disconnected ((hs.returned hback).2 hclosing) (by simp [State.onClose])
      (by simp [closing, State.onClose]) (by simp [State.onClose]) (by simp [State.onClose])

theorem slot_send (hs : Slot s) (hg : Served s .send) (h : s.stepSend = some t) : Slot t := by
  cases State.effect_of_send h with
  | swap hth | sendDone hth | sendData _ _ hth | received _ hth | again hth | waited hth
  | testOpen hth =>
    exact hs.sends rfl rfl rfl (by simp [hth]) (by simp) (by simp) (by simp)
  | disconnected hth =>
    have hfree := hs.event hth
    exact hs.sends rfl rfl rfl (by simp [hth]) (by simp [State.onClose]) (by simp [State.onClose])
      fun _ => ⟨by simp [hfree], fun _ => hfree⟩
  | testShut hth hcon =>
    have hp : s.peer = true := hs.joinable.mpr (by simp [hth])
    have hne : s.enetPeer.state ≠ .connected := by
      simpa [State.isConnected, hp] using hcon
    exact hs.sends rfl rfl rfl (by simp [hth]) (by simp) (by simp)
      fun _ => ⟨hne, fun hc => (hg hth hc).resolve_left (by simp [hcon])⟩

theorem slot_serve {a : Service} (hs : Slot s) (hg : Served s (.serve a)) (h : s.serve a = some t) :
    Slot t := by
  have ha : s.enetPeer.state = .disconnected → a ≠ .incident .connect := by
    rintro hfree rfl
    exact hg hfree
  cases State.effect_of_serve h with
  | connecting event event' p hth =>
    have hp := hs.connecting event hth
    have hnone : s.sendThread = .none := by simpa [hp] using hs.joinable
    exact ⟨hs.joinable, fun _ h => absurd rfl (h event'), by simp [closing], by simp, by simp,
      fun _ _ => hp, fun h => by simp [hnone] at h, fun h => by simp [hnone] at h⟩
  | sending event event' p hth hserve =>
    have hp : s.peer = true := hs.joinable.mpr (by simp [hth])
    have hev := serve_event hserve (fun h => hs.event (h ▸ hth)) ha
    have hkeep : s.enetPeer.state = .disconnected → p.state = .disconnected :=
      fun hfree => (serve_disconnected hserve hfree (ha hfree)).1
    exact ⟨iff_of_true hp (by simp), fun hpf => by simp [hp] at hpf, fun _ => hp,
      fun h => hkeep (hs.joining h), hs.hosting, hs.connecting, by simp,
      fun h => hev (by simpa using h)⟩

theorem slot_step (hs : Slot s) (hg : Served s a) (h : step s a = some t) : Slot t := by
  cases effect_of_step h with
  | connect | close | callSend | push | callback => exact hs.keep rfl rfl rfl rfl
  | event _ hst => exact slot_event hs hst
  | send _ hst => exact slot_send hs hg hst
  | serve _ _ hst => exact slot_serve hs hg hst

theorem slot_run (h : Run step Served initial as s) : Slot s :=
  h.invariant _ (fun _ _ _ hs hg hst => slot_step hs hg hst) slot_initial

theorem Slot.noLeak (hs : Slot s) : NoLeak s := by
  constructor
  · intro hidle hnull
    exact hs.free hnull (by simp [hidle])
  · intro hhost
    have hfree := hs.free (hs.hosting hhost) (by simp [hhost])
    simp [Peer.hostConnect, hfree]

/-- While every `do_close` sees the peer go, the peer is free between two connections and
`enet_host_connect` never finds it taken. -/
theorem peer_never_leaked (h : Run step Served initial as s) : NoLeak s := (slot_run h).noLeak

/-- A connection that is closed with the acknowledgement in time. -/
theorem peer_never_leaked_example :
    ∃ as s, Run step Served initial as s ∧ s.conn = 1 ∧ s.peer = false ∧ NoLeak s :=
  have h := run_exec step Served initial
    [.connect, .event, .event, .event, .event, .serve (.incident (.verifyConnect true)), .event,
      .close, .event, .event, .event, .send, .send,
      .serve (.incident (.acknowledge .disconnect true)), .send, .event] (by decide)
  ⟨_, _, h, by decide, by decide, peer_never_leaked h⟩

/-- The acknowledgement misses the service call of a millisecond: the peer stays in
`disconnecting` with `m_enet_peer` null. -/
theorem peer_leaked_by_close : ¬ ∀ as s, Run step Free initial as s → NoLeak s := by
  intro h
  have hrun := run_exec step Free initial
    [.connect, .event, .event, .event, .event, .serve (.incident (.verifyConnect true)), .event,
      .close, .event, .event, .event, .send, .send, .send, .send, .event] (by decide)
  have hleak := (h _ _ hrun).1 (by decide) (by decide)
  revert hleak
  decide

end NetworkUtility.EnetClient
