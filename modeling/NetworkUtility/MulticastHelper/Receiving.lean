import NetworkUtility.MulticastHelper.Envelope

/-! The receive path of `MulticastHelperImpl`: the handler of `do_recv`, which runs on the thread of
its io_context, and `handle_data`, which has a thread of its own. -/
namespace NetworkUtility.MulticastHelper

/-- Where `handle_data` is: in front of its loop, behind the lock where it waits for data, with what is
left of the list that it has swapped, or at its end. -/
inductive Handler (α : Type)
  | top
  | waiting
  | handling (recvDataList : List (α × Bytes))
  | ended
  deriving DecidableEq, Repr

namespace Handler

variable {α : Type}

/-- The list of `handle_data` itself. -/
def left : Handler α → List (α × Bytes)
  | handling recvDataList => recvDataList
  | _ => []

end Handler

/-- `receiving` says that there is an operation of `do_recv`. `arrived` and `handed` are history: the
datagrams, each with the address of its sender, and what `recv_multicast_data` was called with. -/
structure Recver (α : Type) where
  isOpen : Bool
  receiving : Bool
  recvDataList : List (α × Bytes)
  handler : Handler α
  arrived : List (α × Bytes)
  handed : List (α × Bytes)
  deriving DecidableEq, Repr

/-- The data of a message, if it is in its envelope. -/
def Protocol.content (p : Protocol) (message : Bytes) : Option Bytes :=
  match p.unpackMessage message with
  | .ok (some data) => some data
  | _ => none

/-- What `handle_data` makes of a datagram. -/
def Protocol.opened {α : Type} (p : Protocol) (x : α × Bytes) : Option (α × Bytes) :=
  (p.content x.2).map (Prod.mk x.1)

theorem Protocol.content_eq_some {p : Protocol} {message data : Bytes} :
    p.content message = some data ↔ p.unpackMessage message = .ok (some data) := by
  unfold content
  cases p.unpackMessage message with
  | error e => simp
  | ok result => cases result <;> simp

/-- A packet is not longer than the buffer that receives it. -/
theorem Protocol.content_packet {p : Protocol} {message data : Bytes}
    (h : p.packetMessage data = some message) : p.content (message.take capacity) = some data := by
  obtain ⟨hne, hlength, rfl⟩ := packetMessage_eq_some.mp h
  rw [List.take_of_length_le (by simpa [Nat.add_assoc] using hlength)]
  exact content_eq_some.mpr (unpackMessage_eq_some.mpr ⟨hne, rfl⟩)

namespace Recver

variable {α : Type} {p : Protocol} {r t : Recver α} {x : α × Bytes} {running : Bool}

/-- After `init`, with a receiver or without. -/
def initial (receives : Bool) : Recver α where
  isOpen := true
  receiving := receives
  recvDataList := []
  handler := if receives then .top else .ended
  arrived := []
  handed := []

/-- The handler of `do_recv`. A datagram that does not fit into `m_recv_buffer` is cut. -/
def onRecv (r : Recver α) (address : α) (datagram : Bytes) : Option (Recver α) :=
  if r.receiving then
    some { r with
      recvDataList := r.recvDataList ++ [(address, datagram.take capacity)]
      arrived := r.arrived ++ [(address, datagram.take capacity)] }
  else none

/-- The same handler with an error. -/
def onError (running : Bool) (r : Recver α) : Option (Recver α) :=
  if r.receiving then
    some { r with receiving := running && r.isOpen }
  else none

/-- The next thing that `handle_data` does. It waits while it is running and the list is empty. -/
def handleData (p : Protocol) (running : Bool) (r : Recver α) : Option (Recver α) :=
  match r.handler with
  | .top => some { r with handler := if running then .waiting else .ended }
  | .waiting =>
    if running = true ∧ r.recvDataList = [] then none
    else some { r with handler := .handling r.recvDataList, recvDataList := [] }
  | .handling [] => some { r with handler := .top }
  | .handling (x :: rest) =>
    if running then
      some { r with handler := .handling rest, handed := r.handed ++ (p.opened x).toList }
    else some { r with handler := .top }
  | .ended => none

/-- What `exit` does behind the threads. -/
def clear (r : Recver α) : Option (Recver α) :=
  match r.handler with
  | .ended => some { r with recvDataList := [] }
  | _ => none

theorem onRecv_arrived {address : α} {datagram : Bytes} (h : r.onRecv address datagram = some t) :
    t.arrived = r.arrived ++ [(address, datagram.take capacity)] := by
  unfold onRecv at h
  split_ifs at h
  obtain rfl := Option.some.inj h
  rfl

theorem onError_arrived (h : r.onError running = some t) : t.arrived = r.arrived := by
  unfold onError at h
  split_ifs at h
  obtain rfl := Option.some.inj h
  rfl

theorem handleData_arrived (h : r.handleData p running = some t) : t.arrived = r.arrived := by
  unfold handleData at h
  split at h
  · obtain rfl := Option.some.inj h
    rfl
  · split_ifs at h
    obtain rfl := Option.some.inj h
    rfl
  · obtain rfl := Option.some.inj h
    rfl
  · split_ifs at h <;> (obtain rfl := Option.some.inj h; rfl)
  · cases h

theorem clear_arrived (h : r.clear = some t) : t.arrived = r.arrived := by
  unfold clear at h
  split at h
  · obtain rfl := Option.some.inj h
    rfl
  · cases h

/-- What has arrived is handed on in its order, without what is no envelope; only an end drops some. -/
structure Handing (p : Protocol) (running : Bool) (r : Recver α) : Prop where
  order : r.handed <+: r.arrived.filterMap p.opened
  whole : running = true → r.arrived.filterMap p.opened =
    r.handed ++ (r.handler.left ++ r.recvDataList).filterMap p.opened

theorem handing_initial (receives : Bool) : Handing p running (initial (α := α) receives) := by
  refine ⟨List.nil_prefix, fun _ => ?_⟩
  cases receives <;> rfl

theorem Handing.onRecv {address : α} {datagram : Bytes} (h : Handing p running r)
    (ht : r.onRecv address datagram = some t) : Handing p running t := by
  simp only [Recver.onRecv, Option.ite_none_right_eq_some, Option.some.injEq] at ht
  obtain ⟨-, rfl⟩ := ht
  refine ⟨?_, fun hrun => ?_⟩
  · rw [List.filterMap_append]
    exact h.order.trans (List.prefix_append _ _)
  · rw [List.filterMap_append, h.whole hrun, List.append_assoc, ← List.filterMap_append,
      List.append_assoc]

theorem Handing.onError (h : Handing p running r) (ht : r.onError running = some t) :
    Handing p running t := by
  simp only [Recver.onError, Option.ite_none_right_eq_some, Option.some.injEq] at ht
  obtain ⟨-, rfl⟩ := ht
  exact ⟨h.order, h.whole⟩

/-- What one step of `handle_data` does while the helper is running. -/
theorem Handing.handleData (h : Handing p running r) (ht : r.handleData p running = some t) :
    Handing p running t := by
  unfold Recver.handleData at ht
  cases hhandler : r.handler with
  | top =>
    rw [hhandler] at ht
    obtain rfl := Option.some.inj ht
    refine ⟨h.order, fun hrun => ?_⟩
    have hwhole := h.whole hrun
    rw [hhandler] at hwhole
    rw [if_pos hrun]
    exact hwhole
  | waiting =>
    rw [hhandler] at ht
    simp only [Option.ite_none_left_eq_some, Option.some.injEq] at ht
    obtain ⟨-, rfl⟩ := ht
    refine ⟨h.order, fun hrun => ?_⟩
    have hwhole := h.whole hrun
    rw [hhandler] at hwhole
    simpa [Handler.left] using hwhole
  | handling left =>
    rw [hhandler] at ht
    cases left with
    | nil =>
      obtain rfl := Option.some.inj ht
      refine ⟨h.order, fun hrun => ?_⟩
      have hwhole := h.whole hrun
      rw [hhandler] at hwhole
      exact hwhole
    | cons x rest =>
      simp only at ht
      split_ifs at ht with hrun
      · obtain rfl := Option.some.inj ht
        have hwhole := h.whole hrun
        rw [hhandler] at hwhole
        have hnext : r.arrived.filterMap p.opened = r.handed ++ (p.opened x).toList ++
            (rest ++ r.recvDataList).filterMap p.opened := by
          rw [hwhole, Handler.left, List.cons_append, List.filterMap_cons]
          cases p.opened x with
          | none => simp
          | some y => simp
        exact ⟨⟨_, hnext.symm⟩, fun _ => hnext⟩
      · obtain rfl := Option.some.inj ht
        exact ⟨h.order, fun h => absurd h hrun⟩
  | ended =>
    rw [hhandler] at ht
    cases ht

/-- Only the first step behind `m_running = false` is bound to what has been handed. -/
theorem Handing.stop (h : Handing p running r) : Handing p false r :=
  ⟨h.order, nofun⟩

theorem Handing.clear (h : Handing p false r) (ht : r.clear = some t) : Handing p false t := by
  unfold Recver.clear at ht
  split at ht
  · obtain rfl := Option.some.inj ht
    exact ⟨h.order, nofun⟩
  · cases ht

end Recver

end NetworkUtility.MulticastHelper
