import Mathlib.Logic.Function.Basic
import NetworkUtility.Base.ByteOrder
import NetworkUtility.Lib.Machine

/-! `WebsocketSession` from `init` to the end of `exit`: the threads that call it, its event thread, the
work thread of a connection and the callback thread, with what it uses of websocketpp. The sink is not
null. A step of a thread goes from one access of shared state to the next; `on_close` is one step, as
two threads are in it at once only inside `exit`. -/
namespace NetworkUtility.WebsocketClient

/-- `get_state` of a connection; before it is made, `absent`. -/
inductive Status
  | absent
  | connecting
  | opened
  | closing
  | closed
  deriving DecidableEq, Repr

inductive Notice
  | connect
  | close
  | error (action message : String)
  | recv (packet : Bytes) (binary : Bool)
  deriving DecidableEq, Repr

/-- `m_work_thread`: not joinable, about to set `m_callback`, in `real_connect` or in its `on_close`;
in `run` between two handlers; in the open handler before and behind its test, in the message handler,
in a close or fail handler before and behind its test; returned. -/
inductive WorkThread
  | none
  | start
  | connect
  | refused
  | run
  | opened
  | connected
  | message (packet : Bytes) (binary : Bool)
  | handler (k : Nat)
  | closed
  | returned
  deriving DecidableEq, Repr

/-- `real_close`, the join and `on_close`: about to terminate the connection, in the handler that
`terminate` calls itself, before and behind its test, about to reset the pointer, to stop the client, to
join, to call `on_close`. -/
inductive Closing
  | terminate
  | handler (k : Nat)
  | handlerClose
  | reset
  | stop
  | join
  | notify
  deriving DecidableEq, Repr

/-- Where the event thread is: in its loop, in `do_connect`, or in `do_close`. -/
inductive EventThread
  | idle
  | connect
  | connectOff
  | connectTest
  | connectClose (c : Closing)
  | connectJoin
  | connectStart
  | closeTest
  | close (c : Closing)
  | returned
  deriving DecidableEq, Repr

/-- Where `exit` is: not called, in `do_close`, joining the event thread, joining the work thread. -/
inductive ExitThread
  | none
  | closeTest
  | close (c : Closing)
  | joinEvent
  | joinWork
  | returned
  deriving DecidableEq, Repr

/-- `threads` counts the work threads; the connection of each has its number. `connection` is
`m_connection`, `stopped` and `queue` are the client's io_service with the terminations it has still to
report. In the callback list and in the log, which is history, the number says which attempt an entry
is about; no code reads it. `calls` is history too: the calls of `connect` and `close`. -/
structure State where
  running : Bool
  callback : Bool
  connection : Option Nat
  stopped : Bool
  status : Nat → Status
  queue : List Nat
  threads : Nat
  work : WorkThread
  eventList : List Bool
  event : EventThread
  exit : ExitThread
  callbackList : List (Nat × Bool)
  calls : List Bool
  log : List (Nat × Notice)

/-- After a successful `init`. -/
def initial : State where
  running := true
  callback := false
  connection := none
  stopped := false
  status := fun _ => .absent
  queue := []
  threads := 0
  work := .none
  eventList := []
  event := .idle
  exit := .none
  callbackList := []
  calls := []
  log := []

namespace State

def isConnected (s : State) : Bool :=
  match s.connection with
  | some k => s.status k = .opened
  | none => false

def onConnect (s : State) : State := { s with callbackList := s.callbackList ++ [(s.threads, true)] }

def onClose (s : State) : State :=
  if s.callback then
    { s with
      callback := false
      callbackList := s.callbackList ++ [(s.threads, false)] }
  else s

def onError (s : State) (action message : String) : State :=
  { s with log := s.log ++ [(s.threads, .error action message)] }

def setStatus (s : State) (k : Nat) (st : Status) : State :=
  { s with status := Function.update s.status k st }

/-- The work thread is not joinable, or has returned. -/
def joins (s : State) : Bool := s.work = .none ∨ s.work = .returned

/-- `real_close` from one step to the next, and what follows it. With `inline` the socket is a plain
one: `terminate` calls the handler itself; else the thread in `run` does. -/
def stepClosing (inline : Bool) (s : State) : Closing → Option (State × Option Closing)
  | .terminate =>
    match s.connection with
    | none => some (s, some .stop)
    | some k =>
      if s.status k = .closed then some (s, some .reset)
      else if inline then some (s.setStatus k .closed, some (.handler k))
      else some ({ s.setStatus k .closed with queue := s.queue ++ [k] }, some .reset)
  | .handler k =>
    if s.connection = some k then some ({ s with connection := none }, some .handlerClose)
    else some (s, some .reset)
  | .handlerClose => some (s.onClose, some .reset)
  | .reset => some ({ s with connection := none }, some .stop)
  | .stop => some ({ s with stopped := true }, some .join)
  | .join => if s.joins then some ({ s with work := .none }, some .notify) else none
  | .notify => some (s.onClose, none)

/-- The loop of the event thread, `do_connect` and `do_close`. -/
def stepEvent (inline : Bool) (s : State) : Option State :=
  match s.event with
  | .idle =>
    if s.running then
      match s.eventList with
      | [] => none
      | event :: rest =>
        some { s with
          eventList := rest
          event := if event then .connect else .closeTest }
    else some { s with event := .returned }
  | .connect => some { s with event := if s.running then .connectTest else .connectOff }
  | .connectOff => some { s with callback := true, event := .idle }.onClose
  | .connectTest =>
    some { s with event := if s.isConnected then .connectClose .terminate else .connectJoin }
  | .connectClose c =>
    (s.stepClosing inline c).map fun (s, c) =>
      { s with event := match c with
        | some c => .connectClose c
        | none => .connectStart }
  | .connectJoin => if s.joins then some { s with work := .none, event := .connectStart } else none
  | .connectStart => some { s with threads := s.threads + 1, work := .start, event := .idle }
  | .closeTest => some { s with event := if s.isConnected then .close .terminate else .idle }
  | .close c =>
    (s.stepClosing inline c).map fun (s, c) =>
      { s with event := match c with
        | some c => .close c
        | none => .idle }
  | .returned => none

/-- The work thread, where what it does next depends on nothing else. It leaves `run` when the client
has been stopped or no connection is left. -/
def stepWork (s : State) : Option State :=
  match s.work with
  | .start => some { s with callback := true, work := .connect }
  | .refused => some { s with work := .run }.onClose
  | .opened => some { s with work := if s.connection = some s.threads then .connected else .run }
  | .connected => some { s with work := .run }.onConnect
  | .message packet binary =>
    some { s with
      work := .run
      log := s.log ++ [(s.threads, .recv packet binary)] }
  | .handler k =>
    if s.connection = some k then some { s with connection := none, work := .closed }
    else some { s with work := .run }
  | .closed => some { s with work := .run }.onClose
  | .run =>
    if s.stopped ∨ s.queue = [] ∧ (s.status s.threads = .absent ∨ s.status s.threads = .closed) then
      some { s with stopped := true, work := .returned }
    else none
  | _ => none

/-- The thread of a user in `exit`. -/
def stepExit (inline : Bool) (s : State) : Option State :=
  match s.exit with
  | .none => if s.running then some { s with running := false, exit := .closeTest } else none
  | .closeTest => some { s with exit := if s.isConnected then .close .terminate else .joinEvent }
  | .close c =>
    (s.stepClosing inline c).map fun (s, c) =>
      { s with exit := match c with
        | some c => .close c
        | none => .joinEvent }
  | .joinEvent => if s.event = .returned then some { s with exit := .joinWork } else none
  | .joinWork =>
    if s.joins then
      some { s with
        work := .none
        eventList := []
        callbackList := []
        callback := false
        exit := .returned }
    else none
  | .returned => none

/-- The rest of `real_connect`, that fails or not. -/
def realConnect (s : State) (failure : Option String) : State :=
  let s := { s with stopped := false }
  match failure with
  | some message => { s.onError "connect" message with work := .refused }
  | none => { s.setStatus s.threads .connecting with connection := some s.threads, work := .run }

end State

/-- The calls of users and the threads, then what websocketpp brings about in `real_connect` and
`run`. -/
inductive Action
  | connect
  | close
  | exit
  | event
  | work
  | callback
  | realConnect (failure : Option String)
  | opened
  | receive (packet : Bytes) (binary : Bool)
  | closing
  | terminated
  | handle (i : Nat)
  deriving DecidableEq, Repr

def step (inline : Bool) (s : State) : Action → Option State
  | .connect => some { s with eventList := s.eventList ++ [true], calls := s.calls ++ [true] }
  | .close => some { s with eventList := s.eventList ++ [false], calls := s.calls ++ [false] }
  | .exit => s.stepExit inline
  | .event => s.stepEvent inline
  | .work => s.stepWork
  | .callback =>
    match s.callbackList with
    | [] => none
    | (k, connected) :: rest =>
      if s.running then
        some { s with
          callbackList := rest
          log := s.log ++ [(k, if connected then .connect else .close)] }
      else none
  | .realConnect failure => if s.work = .connect then some (s.realConnect failure) else none
  | .opened =>
    if s.work = .run ∧ s.stopped = false ∧ s.status s.threads = .connecting then
      some { s.setStatus s.threads .opened with work := .opened }
    else none
  | .receive packet binary =>
    if s.work = .run ∧ s.status s.threads = .opened ∧ packet ≠ [] then
      some { s with work := .message packet binary }
    else none
  | .closing =>
    if s.work = .run ∧ s.status s.threads = .opened then some (s.setStatus s.threads .closing)
    else none
  | .terminated =>
    if s.work = .run ∧ s.stopped = false ∧ s.status s.threads ≠ .absent ∧
        s.status s.threads ≠ .closed then
      some { s.setStatus s.threads .closed with queue := s.queue ++ [s.threads] }
    else none
  | .handle i =>
    if s.work = .run ∧ s.stopped = false then
      (s.queue[i]?).map fun k => { s with queue := s.queue.eraseIdx i, work := .handler k }
    else none

end NetworkUtility.WebsocketClient
