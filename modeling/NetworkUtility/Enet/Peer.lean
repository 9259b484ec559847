import Mathlib.Logic.Basic

/-! The peer of an ENet host with one peer, as far as its state goes: what the host's owner does to
it, and what happens to it inside `enet_host_service`. -/
namespace NetworkUtility.Enet

inductive PeerState
  | disconnected
  | connecting
  | acknowledgingConnect
  | connectionPending
  | connectionSucceeded
  | connected
  | disconnectLater
  | disconnecting
  | acknowledgingDisconnect
  | zombie
  deriving DecidableEq, Repr

/-- `state`, ENET_PEER_FLAG_NEEDS_DISPATCH, and the packets in `dispatchedCommands`. -/
structure Peer where
  state : PeerState
  needsDispatch : Bool
  dispatched : List (List UInt8)
  deriving DecidableEq, Repr

inductive Event
  | connect
  | disconnect
  | receive (packet : List UInt8)
  deriving DecidableEq, Repr

/-- The reliable command that an acknowledgement takes off `sentReliableCommands`. -/
inductive Acknowledged
  | verifyConnect
  | disconnect
  | other
  deriving DecidableEq, Repr

/-- What can happen to the peer in a service call: a command of the remote host is handled, the
acknowledgement of its DISCONNECT goes out, or a command of ours has not been answered for too long.
`drained` says that no command of ours is left to send or to be acknowledged. -/
inductive Incident
  | acknowledge (command : Acknowledged) (drained : Bool)
  | connect
  | verifyConnect (valid : Bool)
  | disconnect (reliable : Bool)
  | packet (data : List UInt8)
  | sendAcknowledgement
  | timeout
  deriving DecidableEq, Repr

namespace Peer

def resetQueues (p : Peer) : Peer := { p with needsDispatch := false, dispatched := [] }

/-- `enet_peer_reset`. -/
def reset (p : Peer) : Peer := { p.resetQueues with state := .disconnected }

/-- `enet_protocol_dispatch_state`. -/
def dispatchState (p : Peer) (state : PeerState) : Peer :=
  { p with state := state, needsDispatch := true }

/-- `enet_host_connect`: NULL when the peer is taken. -/
def hostConnect (p : Peer) : Option Peer :=
  if p.state = .disconnected then some { p with state := .connecting } else none

/-- `enet_peer_disconnect`. -/
def disconnect (p : Peer) : Peer :=
  match p.state with
  | .disconnecting | .disconnected | .acknowledgingDisconnect | .zombie => p
  | .connected | .disconnectLater => { p.resetQueues with state := .disconnecting }
  | _ => p.resetQueues.reset

/-- `enet_protocol_notify_connect`, with an event to fill. -/
def notifyConnect (p : Peer) : Peer × Option Event := ({ p with state := .connected }, some .connect)

/-- `enet_protocol_notify_disconnect`, with an event to fill. -/
def notifyDisconnect (p : Peer) : Peer × Option Event :=
  match p.state with
  | .disconnected | .acknowledgingConnect | .connectionPending => (p.reset, none)
  | _ => (p.reset, some .disconnect)

def handleAcknowledge (p : Peer) (command : Acknowledged) (drained : Bool) : Peer × Option Event :=
  match p.state with
  | .acknowledgingConnect => if command = .verifyConnect then p.notifyConnect else (p, none)
  | .disconnecting => if command = .disconnect then p.notifyDisconnect else (p, none)
  | .disconnectLater => (if drained then p.disconnect else p, none)
  | _ => (p, none)

/-- A CONNECT of a host that is not our peer takes the peer when it is free. -/
def handleConnect (p : Peer) : Peer :=
  if p.state = .disconnected then { p with state := .acknowledgingConnect } else p

def handleVerifyConnect (p : Peer) (valid : Bool) : Peer × Option Event :=
  if p.state = .connecting then
    if valid then p.notifyConnect else (p.dispatchState .zombie, none)
  else (p, none)

def handleDisconnect (p : Peer) (reliable : Bool) : Peer :=
  match p.state with
  | .disconnected | .zombie | .acknowledgingDisconnect => p
  | .connectionSucceeded | .disconnecting | .connecting => p.resetQueues.dispatchState .zombie
  | .connected | .disconnectLater =>
    if reliable then { p.resetQueues with state := .acknowledgingDisconnect }
    else p.resetQueues.dispatchState .zombie
  | _ => p.resetQueues.reset

/-- A packet is complete and in order. -/
def handleSend (p : Peer) (data : List UInt8) : Peer :=
  if p.state = .connected then { p with needsDispatch := true, dispatched := p.dispatched ++ [data] }
  else p

/-- The acknowledgement of a DISCONNECT is queued in this state only. -/
def sendAcknowledgements (p : Peer) : Peer :=
  if p.state = .acknowledgingDisconnect then p.dispatchState .zombie else p

/-- `enet_protocol_check_timeouts`, when the limit is reached. -/
def checkTimeouts (p : Peer) : Peer × Option Event :=
  if p.state = .disconnected ∨ p.state = .zombie then (p, none) else p.notifyDisconnect

def handle (p : Peer) : Incident → Peer × Option Event
  | .acknowledge command drained => p.handleAcknowledge command drained
  | .connect => (p.handleConnect, none)
  | .verifyConnect valid => p.handleVerifyConnect valid
  | .disconnect reliable => (p.handleDisconnect reliable, none)
  | .packet data => (p.handleSend data, none)
  | .sendAcknowledgement => (p.sendAcknowledgements, none)
  | .timeout => p.checkTimeouts

/-- `enet_protocol_dispatch_incoming_commands`. -/
def dispatchIncoming (p : Peer) : Peer × Option Event :=
  if p.needsDispatch then
    let p := { p with needsDispatch := false }
    match p.state, p.dispatched with
    | .connectionPending, _ | .connectionSucceeded, _ => p.notifyConnect
    | .zombie, _ => (p.reset, some .disconnect)
    | .connected, data :: rest =>
      ({ p with needsDispatch := rest ≠ [], dispatched := rest }, some (.receive data))
    | _, _ => (p, none)
  else (p, none)

end Peer

/-- After an event only the other commands of its datagram are handled, which come from the peer. -/
def Incident.ofPeer : Incident → Bool
  | .acknowledge .. | .verifyConnect _ | .disconnect _ | .packet _ => true
  | .connect | .sendAcknowledgement | .timeout => false

inductive Service
  | incident (i : Incident)
  | dispatch
  deriving DecidableEq, Repr

/-- One step inside `enet_host_service`; `event` is the event structure of the call. -/
def serve (p : Peer) (event : Option Event) : Service → Option (Peer × Option Event)
  | .incident i =>
    if event = none ∨ i.ofPeer then some ((p.handle i).1, (p.handle i).2.or event) else none
  | .dispatch => if event = none then some p.dispatchIncoming else none

variable {p q : Peer} {i : Incident} {event event' : Option Event} {a : Service}

/-- A free peer stays free, and silent, unless another host connects. -/
theorem handle_disconnected (h : p.state = .disconnected) (hi : i ≠ .connect) :
    p.handle i = (p, none) := by
  cases i with
  | connect => exact absurd rfl hi
  | acknowledge command drained => simp [Peer.handle, Peer.handleAcknowledge, h]
  | verifyConnect valid => simp [Peer.handle, Peer.handleVerifyConnect, h]
  | disconnect reliable => simp [Peer.handle, Peer.handleDisconnect, h]
  | packet data => simp [Peer.handle, Peer.handleSend, h]
  | sendAcknowledgement => simp [Peer.handle, Peer.sendAcknowledgements, h]
  | timeout => simp [Peer.handle, Peer.checkTimeouts, h]

theorem notifyDisconnect_state (p : Peer) : p.notifyDisconnect.1.state = .disconnected := by
  unfold Peer.notifyDisconnect
  split <;> rfl

/-- The DISCONNECT event comes with the peer reset. -/
theorem handle_disconnect_event (h : (p.handle i).2 = some .disconnect) :
    (p.handle i).1.state = .disconnected := by
  cases i with
  | acknowledge command drained =>
    simp only [Peer.handle, Peer.handleAcknowledge] at h ⊢
    split at h
    · split at h <;> cases h
    · next hst =>
      split at h
      · next hc =>
        simp only [hc, if_true]
        exact notifyDisconnect_state p
      · cases h
    · cases h
    · cases h
  | connect => cases h
  | verifyConnect valid =>
    simp only [Peer.handle, Peer.handleVerifyConnect] at h
    split at h
    · split at h <;> cases h
    · cases h
  | disconnect reliable => cases h
  | packet data => cases h
  | sendAcknowledgement => cases h
  | timeout =>
    simp only [Peer.handle, Peer.checkTimeouts] at h ⊢
    split at h
    · cases h
    · next hst =>
      rw [if_neg hst]
      exact notifyDisconnect_state p

theorem dispatchIncoming_disconnected (h : p.state = .disconnected) :
    p.dispatchIncoming.1.state = .disconnected ∧ p.dispatchIncoming.2 = none := by
  unfold Peer.dispatchIncoming
  split
  · simp [h]
  · exact ⟨h, rfl⟩

theorem dispatchIncoming_event (h : p.dispatchIncoming.2 = some .disconnect) :
    p.dispatchIncoming.1.state = .disconnected := by
  unfold Peer.dispatchIncoming at h ⊢
  split
  · next hd =>
    simp only [hd, if_true] at h
    split at h
    · cases h
    · cases h
    · next hz => simp [hz, Peer.reset]
    · cases h
    · cases h
  · next hd => simp [hd] at h

/-- A service call keeps a free peer free. -/
theorem serve_disconnected (h : serve p event a = some (q, event')) (hp : p.state = .disconnected)
    (ha : a ≠ .incident .connect) : q.state = .disconnected ∧ event' = event := by
  cases a with
  | incident i =>
    have hi : i ≠ .connect := fun he => ha (he ▸ rfl)
    simp only [serve, handle_disconnected hp hi] at h
    split at h
    · cases h
      exact ⟨hp, rfl⟩
    · cases h
  | dispatch =>
    simp only [serve] at h
    split at h
    · next hn =>
      have hd := dispatchIncoming_disconnected hp
      have heq := Option.some.inj h
      rw [heq] at hd
      exact ⟨hd.1, hd.2.trans hn.symm⟩
    · cases h

/-- The event of a service call is DISCONNECT only with the peer reset. -/
theorem serve_event (h : serve p event a = some (q, event'))
    (hev : event = some .disconnect → p.state = .disconnected)
    (ha : p.state = .disconnected → a ≠ .incident .connect) :
    event' = some .disconnect → q.state = .disconnected := by
  intro he
  by_cases hfree : p.state = .disconnected
  · exact (serve_disconnected h hfree (ha hfree)).1
  · cases a with
    | incident i =>
      simp only [serve] at h
      split at h
      · cases h
        cases hnew : (p.handle i).2 with
        | none =>
          rw [hnew] at he
          exact absurd (hev he) hfree
        | some ev =>
          rw [hnew] at he
          exact handle_disconnect_event (hnew.trans he)
      · cases h
    | dispatch =>
      simp only [serve] at h
      split at h
      · have heq := Option.some.inj h
        have hd := dispatchIncoming_event (p := p)
        rw [heq] at hd
        exact hd he
      · cases h

end NetworkUtility.Enet
