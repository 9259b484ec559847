import NetworkUtility.EnetClient.Model

/-! What one step of each thread can do, said once. Every invariant is proved by cases on these. -/
namespace NetworkUtility.EnetClient

open Enet

variable {s t : State} {a : Action} {b : Service}

namespace State

/-- The event thread, with the outcome of each test. -/
inductive EventEffect (s : State) : State → Prop
  | takeConnect (rest : List Bool) : s.eventThread = .idle → s.eventList = true :: rest →
      EventEffect s { s with eventList := rest, eventThread := .connectReset }
  | takeClose (rest : List Bool) : s.eventThread = .idle → s.eventList = false :: rest →
      EventEffect s { s with eventList := rest, eventThread := .closeTest }
  | connectReset : s.eventThread = .connectReset → s.peer = true →
      s.enetPeer.state ≠ .disconnected →
      EventEffect s { s with enetPeer := s.enetPeer.reset, eventThread := .connectJoin }
  | connectFree : s.eventThread = .connectReset → s.peer = false ∨ s.enetPeer.state = .disconnected →
      EventEffect s { s with eventThread := .connectJoin }
  | connectJoin : s.eventThread = .connectJoin → s.joins = true →
      EventEffect s { s with
        sendThread := .none
        peer := false
        sendDataList := []
        eventThread := .connectHost }
  | connectRefused : s.eventThread = .connectHost → s.enetPeer.hostConnect = none →
      EventEffect s { s with
        log := s.log ++ [Notice.error "connect" "unable to resolve address"]
        eventThread := .idle }.onClose
  | connectHost (p : Peer) : s.eventThread = .connectHost → s.enetPeer.hostConnect = some p →
      EventEffect s { s with enetPeer := p, conn := s.conn + 1, eventThread := .connectService none }
  | connected : s.eventThread = .connectService (some .connect) →
      EventEffect s { s with peer := true, sendThread := .swap, eventThread := .idle }.onConnect
  | connectFailed (event : Option Event) : s.eventThread = .connectService event →
      event ≠ some .connect →
      EventEffect s { s with enetPeer := s.enetPeer.reset, eventThread := .idle }.onClose
  | closeOpen : s.eventThread = .closeTest → s.isConnected = true →
      EventEffect s { s with eventThread := .closeDisconnect }
  | closeShut : s.eventThread = .closeTest → s.isConnected = false →
      EventEffect s { s with eventThread := .idle }
  | closeDisconnect : s.eventThread = .closeDisconnect →
      EventEffect s { s with
        enetPeer := if s.peer then s.enetPeer.disconnect else s.enetPeer
        eventThread := .closeJoin }
  | closeJoin : s.eventThread = .closeJoin → s.joins = true →
      EventEffect s { s with sendThread := .none, peer := false, eventThread := .idle }.onClose

/-- The send thread. -/
inductive SendEffect (s : State) : State → Prop
  | swap : s.sendThread = .swap →
      SendEffect s { s with sendDataList := [], sendThread := .send s.sendDataList }
  | sendDone : s.sendThread = .send [] → SendEffect s { s with sendThread := .service none }
  | sendData (data : Bytes) (rest : List Bytes) : s.sendThread = .send (data :: rest) →
      SendEffect s { s with
        sent := if s.enetPeer.state = .connected then s.sent ++ [(s.conn, data)] else s.sent
        sendThread := .send rest }
  | received (packet : Bytes) : s.sendThread = .service (some (.receive packet)) →
      SendEffect s { s with log := s.log ++ [.recv packet], sendThread := .swap }
  | disconnected : s.sendThread = .service (some .disconnect) →
      SendEffect s { s with sendThread := .returned }.onClose
  | again : s.sendThread = .service (some .connect) → SendEffect s { s with sendThread := .swap }
  | waited : s.sendThread = .service none → SendEffect s { s with sendThread := .test }
  | testOpen : s.sendThread = .test → s.isConnected = true →
      SendEffect s { s with sendThread := .swap }
  | testShut : s.sendThread = .test → s.isConnected = false →
      SendEffect s { s with sendThread := .returned }

/-- The service call that is under way, in `do_connect` or in the send thread. -/
inductive ServeEffect (b : Service) (s : State) : State → Prop
  | connecting (event event' : Option Event) (p : Peer) : s.eventThread = .connectService event →
      Enet.serve s.enetPeer event b = some (p, event') →
      ServeEffect b s { s with enetPeer := p, eventThread := .connectService event' }
  | sending (event event' : Option Event) (p : Peer) : s.sendThread = .service event →
      Enet.serve s.enetPeer event b = some (p, event') →
      ServeEffect b s { s with enetPeer := p, sendThread := .service event' }

theorem effect_of_event (h : s.stepEvent = some t) : EventEffect s t := by
  simp only [stepEvent] at h
  split at h
  · next hth =>
    split at h
    · cases h
    · next event rest hlist =>
      cases h
      cases event with
      | true => exact .takeConnect rest hth hlist
      | false => exact .takeClose rest hth hlist
  · next hth =>
    cases h
    split
    · next htaken => exact .connectReset hth htaken.1 htaken.2
    · next hfree =>
      refine .connectFree hth ?_
      by_cases hp : s.peer = true
      · exact .inr (by_contra fun hne => hfree ⟨hp, hne⟩)
      · exact .inl (Bool.not_eq_true _ ▸ hp)
  · next hth =>
    simp only [Option.ite_none_right_eq_some, Option.some.injEq] at h
    obtain ⟨hj, rfl⟩ := h
    exact .connectJoin hth hj
  · next hth =>
    split at h
    · next hhost =>
      cases h
      exact .connectRefused hth hhost
    · next p hhost =>
      cases h
      exact .connectHost p hth hhost
  · next event hth =>
    split at h
    · next hevent =>
      cases h
      exact .connected (hevent ▸ hth)
    · next hevent =>
      cases h
      exact .connectFailed event hth hevent
  · next hth =>
    cases h
    split
    · next hconn => exact .closeOpen hth hconn
    · next hconn => exact .closeShut hth (Bool.not_eq_true _ ▸ hconn)
  · next hth =>
    cases h
    exact .closeDisconnect hth
  · next hth =>
    simp only [Option.ite_none_right_eq_some, Option.some.injEq] at h
    obtain ⟨hj, rfl⟩ := h
    exact .closeJoin hth hj

theorem effect_of_send (h : s.stepSend = some t) : SendEffect s t := by
  simp only [stepSend] at h
  split at h
  · next hth =>
    cases h
    exact .swap hth
  · next hth =>
    cases h
    exact .sendDone hth
  · next data rest hth =>
    cases h
    exact .sendData data rest hth
  · next event hth =>
    split at h
    · next packet =>
      cases h
      exact .received packet hth
    · cases h
      exact .disconnected hth
    · cases h
      exact .again hth
    · cases h
      exact .waited hth
  · next hth =>
    cases h
    split
    · next hconn => exact .testOpen hth hconn
    · next hconn => exact .testShut hth (Bool.not_eq_true _ ▸ hconn)
  · cases h

theorem effect_of_serve (h : s.serve b = some t) : ServeEffect b s t := by
  simp only [State.serve] at h
  split at h
  · next event hth =>
    obtain ⟨⟨p, event'⟩, hserve, rfl⟩ := Option.map_eq_some_iff.mp h
    exact .connecting event event' p hth hserve
  · next event hth _ =>
    obtain ⟨⟨p, event'⟩, hserve, rfl⟩ := Option.map_eq_some_iff.mp h
    exact .sending event event' p hth hserve
  · cases h

end State

/-- The steps of `step`. Those of a thread and of a service call are taken apart on their own. -/
inductive Effect (s : State) : Action → State → Prop
  | connect : Effect s .connect { s with eventList := s.eventList ++ [true] }
  | close : Effect s .close { s with eventList := s.eventList ++ [false] }
  | callSend (packet : Bytes) : s.isConnected = true →
      Effect s (.callSend packet) { s with sends := s.sends ++ [packet] }
  | push (i : Nat) (packet : Bytes) : s.sends[i]? = some packet →
      Effect s (.push i) { s with
        sends := s.sends.eraseIdx i
        sendDataList := s.sendDataList ++ [packet] }
  | event (t : State) : s.stepEvent = some t → Effect s .event t
  | send (t : State) : s.stepSend = some t → Effect s .send t
  | callback (connected : Bool) (rest : List Bool) : s.callbackList = connected :: rest →
      Effect s .callback { s with
        callbackList := rest
        log := s.log ++ [if connected then Notice.connect else Notice.close] }
  | serve (b : Service) (t : State) : s.serve b = some t → Effect s (.serve b) t

theorem effect_of_step (h : step s a = some t) : Effect s a t := by
  cases a with
  | connect =>
    cases h
    exact .connect
  | close =>
    cases h
    exact .close
  | callSend packet =>
    simp only [step, Option.ite_none_right_eq_some, Option.some.injEq] at h
    obtain ⟨hconn, rfl⟩ := h
    exact .callSend packet hconn
  | push i =>
    obtain ⟨packet, hp, rfl⟩ := Option.map_eq_some_iff.mp h
    exact .push i packet hp
  | event => exact .event t h
  | send => exact .send t h
  | callback =>
    simp only [step] at h
    split at h
    · cases h
    · next connected rest hlist =>
      cases h
      exact .callback connected rest hlist
  | serve b => exact .serve b t h

end NetworkUtility.EnetClient
