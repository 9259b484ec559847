import NetworkUtility.Base.ByteOrder
import NetworkUtility.Lib.Machine
import NetworkUtility.Enet.Peer

/-! `EnetClientImpl` between `init` and `exit`: the threads that call it, its event thread, the send
thread of a connection and the callback thread, over an ENet host with one peer. The sink is not
null. A step of a thread goes from one access of shared state to the next. -/
namespace NetworkUtility.EnetClient

open Enet

inductive Notice
  | connect
  | close
  | error (action message : String)
  | recv (packet : Bytes)
  deriving DecidableEq, Repr

/-- Where the event thread is: waiting, in `do_connect`, or in `do_close`. -/
inductive EventThread
  | idle
  | connectReset
  | connectJoin
  | connectHost
  | connectService (event : Option Event)
  | closeTest
  | closeDisconnect
  | closeJoin
  deriving DecidableEq, Repr

/-- `m_send_data_thread`: not joinable, in its loop, or returned. -/
inductive SendThread
  | none
  | swap
  | send (list : List Bytes)
  | service (event : Option Event)
  | test
  | returned
  deriving DecidableEq, Repr

/-- `peer` says that `m_enet_peer` is not null, `enetPeer` is the peer of `m_enet_host`. `sends` are
calls of `send_message` past their test. `conn`, `sent` and `log` are history: the connections tried,
the packets ENet took with their connections, and the calls of the sink. -/
structure State where
  peer : Bool
  enetPeer : Peer
  eventList : List Bool
  eventThread : EventThread
  sendThread : SendThread
  sendDataList : List Bytes
  sends : List Bytes
  callbackList : List Bool
  conn : Nat
  sent : List (Nat × Bytes)
  log : List Notice
  deriving DecidableEq, Repr

/-- After a successful `init`. -/
def initial : State where
  peer := false
  enetPeer := ⟨.disconnected, false, []⟩
  eventList := []
  eventThread := .idle
  sendThread := .none
  sendDataList := []
  sends := []
  callbackList := []
  conn := 0
  sent := []
  log := []

namespace State

def isConnected (s : State) : Bool := s.peer && s.enetPeer.state = .connected

def onConnect (s : State) : State := { s with callbackList := s.callbackList ++ [true] }

def onClose (s : State) : State := { s with callbackList := s.callbackList ++ [false] }

/-- The send thread is not joinable, or has returned. -/
def joins (s : State) : Bool := s.sendThread = .none ∨ s.sendThread = .returned

/-- `do_connect`, from one step to the next, and then `do_close`. -/
def stepEvent (s : State) : Option State :=
  match s.eventThread with
  | .idle =>
    match s.eventList with
    | [] => none
    | event :: rest =>
      some { s with
        eventList := rest
        eventThread := if event then .connectReset else .closeTest }
  | .connectReset =>
    some { s with
      enetPeer := if s.peer ∧ s.enetPeer.state ≠ .disconnected then s.enetPeer.reset else s.enetPeer
      eventThread := .connectJoin }
  | .connectJoin =>
    if s.joins then
      some { s with
        sendThread := .none
        peer := false
        sendDataList := []
        eventThread := .connectHost }
    else none
  | .connectHost =>
    match s.enetPeer.hostConnect with
    | none =>
      some { s with
        log := s.log ++ [Notice.error "connect" "unable to resolve address"]
        eventThread := .idle }.onClose
    | some enetPeer =>
      some { s with enetPeer := enetPeer, conn := s.conn + 1, eventThread := .connectService none }
  | .connectService event =>
    if event = some .connect then
      some { s with peer := true, sendThread := .swap, eventThread := .idle }.onConnect
    else some { s with enetPeer := s.enetPeer.reset, eventThread := .idle }.onClose
  | .closeTest => some { s with eventThread := if s.isConnected then .closeDisconnect else .idle }
  | .closeDisconnect =>
    some { s with
      enetPeer := if s.peer then s.enetPeer.disconnect else s.enetPeer
      eventThread := .closeJoin }
  | .closeJoin =>
    if s.joins then
      some { s with sendThread := .none, peer := false, eventThread := .idle }.onClose
    else none

/-- The loop of the send thread. -/
def stepSend (s : State) : Option State :=
  match s.sendThread with
  | .swap => some { s with sendDataList := [], sendThread := .send s.sendDataList }
  | .send [] => some { s with sendThread := .service none }
  | .send (data :: rest) =>
    some { s with
      sent := if s.enetPeer.state = .connected then s.sent ++ [(s.conn, data)] else s.sent
      sendThread := .send rest }
  | .service event =>
    match event with
    | some (.receive packet) => some { s with log := s.log ++ [.recv packet], sendThread := .swap }
    | some .disconnect => some { s with sendThread := .returned }.onClose
    | some .connect => some { s with sendThread := .swap }
    | none => some { s with sendThread := .test }
  | .test => some { s with sendThread := if s.isConnected then .swap else .returned }
  | _ => none

/-- What happens inside the service call that is under way. -/
def serve (s : State) (a : Service) : Option State :=
  match s.eventThread, s.sendThread with
  | .connectService event, _ =>
    (Enet.serve s.enetPeer event a).map fun (p, event) =>
      { s with enetPeer := p, eventThread := .connectService event }
  | _, .service event =>
    (Enet.serve s.enetPeer event a).map fun (p, event) =>
      { s with enetPeer := p, sendThread := .service event }
  | _, _ => none

end State

inductive Action
  | connect
  | close
  | callSend (packet : Bytes)
  | push (i : Nat)
  | event
  | send
  | callback
  | serve (a : Service)
  deriving Repr

def step (s : State) : Action → Option State
  | .connect => some { s with eventList := s.eventList ++ [true] }
  | .close => some { s with eventList := s.eventList ++ [false] }
  | .callSend packet => if s.isConnected then some { s with sends := s.sends ++ [packet] } else none
  | .push i =>
    (s.sends[i]?).map fun packet =>
      { s with sends := s.sends.eraseIdx i, sendDataList := s.sendDataList ++ [packet] }
  | .event => s.stepEvent
  | .send => s.stepSend
  | .callback =>
    match s.callbackList with
    | [] => none
    | connected :: rest =>
      some { s with
        callbackList := rest
        log := s.log ++ [if connected then Notice.connect else Notice.close] }
  | .serve a => s.serve a

end NetworkUtility.EnetClient
