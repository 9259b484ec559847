import Mathlib.Data.Nat.Bitwise
import Mathlib.Logic.Function.Basic

/-! One channel of an ENet peer that only carries reliable packets: the commands a packet becomes,
the sender's two lists with the accounting of its windows, and the receiver that puts the commands
back in order. -/
namespace NetworkUtility.Enet

/-- ENET_PEER_RELIABLE_WINDOWS, ENET_PEER_RELIABLE_WINDOW_SIZE, ENET_PEER_FREE_RELIABLE_WINDOWS. -/
def reliableWindowCount : Nat := 16
def reliableWindowSize : Nat := 0x1000
def freeReliableWindows : Nat := 8

/-- ENET_PROTOCOL_MAXIMUM_FRAGMENT_COUNT, ENET_HOST_DEFAULT_MAXIMUM_PACKET_SIZE. -/
def maximumFragmentCount : Nat := 1024 * 1024
def maximumPacketSize : Nat := 32 * 1024 * 1024

/-- The sizes of ENetProtocolHeader, ENetProtocolSendReliable and ENetProtocolSendFragment. -/
def headerSize : Nat := 4
def sendReliableSize : Nat := 6
def sendFragmentSize : Nat := 24

structure Fragment where
  startSequenceNumber : Nat
  fragmentCount : Nat
  fragmentNumber : Nat
  totalLength : Nat
  fragmentOffset : Nat
  deriving DecidableEq, Repr

/-- SEND_RELIABLE, or SEND_FRAGMENT with the fields of `fragment`. -/
structure Command where
  reliableSequenceNumber : Nat
  fragment : Option Fragment
  data : List UInt8
  deriving DecidableEq, Repr

def Command.size (c : Command) : Nat :=
  if c.fragment.isSome then sendFragmentSize else sendReliableSize

/-- `number` counts the commands of the channel from 1 on. It is not a field of the source: nothing
reads it, and what the source has of it is `reliableSequenceNumber`. -/
structure OutgoingCommand where
  number : Nat
  command : Command
  sendAttempts : Nat
  deriving DecidableEq, Repr

/-- `numbered` and `newest` are for the reader only: the last number given out, and the last one
that has gone out. -/
structure Sender where
  outgoingReliableSequenceNumber : Nat
  reliableWindows : Nat → Nat
  usedReliableWindows : Nat
  outgoingCommands : List OutgoingCommand
  sentReliableCommands : List OutgoingCommand
  reliableDataInTransit : Nat
  numbered : Nat
  newest : Nat

def Sender.init : Sender := ⟨0, fun _ => 0, 0, [], [], 0, 0, 0⟩

/-! ### `enet_peer_send` -/

/-- The largest packet that goes out in one command. -/
def fragmentLength (mtu : Nat) : Nat := mtu - headerSize - sendFragmentSize

/-- The loop over a packet that is too long for one command. -/
def fragmentLoop (packet : List UInt8) (startSequenceNumber fragmentCount : Nat) :
    Nat → Nat → Nat → Nat → List Command
  | 0, _, _, _ => []
  | fuel + 1, fragmentNumber, fragmentOffset, length =>
    if fragmentOffset < packet.length then
      let length :=
        if packet.length - fragmentOffset < length then packet.length - fragmentOffset else length
      { reliableSequenceNumber := 0
        fragment := some
          { startSequenceNumber, fragmentCount, fragmentNumber, totalLength := packet.length,
            fragmentOffset }
        data := (packet.drop fragmentOffset).take length } ::
        fragmentLoop packet startSequenceNumber fragmentCount fuel (fragmentNumber + 1)
          (fragmentOffset + length) length
    else []

def fragmentCount (mtu : Nat) (packet : List UInt8) : Nat :=
  (packet.length + fragmentLength mtu - 1) / fragmentLength mtu

namespace Sender

/-- `enet_peer_setup_outgoing_command`. -/
def setupOutgoingCommand (s : Sender) (c : Command) : Sender :=
  let number := (s.outgoingReliableSequenceNumber + 1) % 65536
  { s with
    outgoingReliableSequenceNumber := number
    outgoingCommands := s.outgoingCommands ++
      [⟨s.numbered + 1, { c with reliableSequenceNumber := number }, 0⟩]
    numbered := s.numbered + 1 }

/-- `enet_peer_send` of a reliable packet on a connected peer. -/
def send (mtu : Nat) (s : Sender) (packet : List UInt8) : Option Sender :=
  if maximumPacketSize < packet.length then none
  else if fragmentLength mtu < packet.length then
    if maximumFragmentCount < fragmentCount mtu packet then none
    else
      let start := (s.outgoingReliableSequenceNumber + 1) % 65536
      some ((fragmentLoop packet start (fragmentCount mtu packet) packet.length 0 0
        (fragmentLength mtu)).foldl setupOutgoingCommand s)
  else some (s.setupOutgoingCommand ⟨0, none, packet⟩)

/-! ### `enet_protocol_check_outgoing_commands` -/

/-- The windows from `window` on that a new window must find unused. -/
def usedMask (window : Nat) : Nat :=
  ((1 <<< (freeReliableWindows + 2) - 1) <<< window) |||
    ((1 <<< (freeReliableWindows + 2) - 1) >>> (reliableWindowCount - window))

/-- The first command of a window may not go out yet. -/
def Wraps (s : Sender) (c : OutgoingCommand) : Prop :=
  let window := c.command.reliableSequenceNumber / reliableWindowSize
  c.sendAttempts < 1 ∧ c.command.reliableSequenceNumber % reliableWindowSize = 0 ∧
    (reliableWindowSize ≤
        s.reliableWindows ((window + reliableWindowCount - 1) % reliableWindowCount) ∨
      s.usedReliableWindows &&& usedMask window ≠ 0)

instance (s : Sender) (c : OutgoingCommand) : Decidable (s.Wraps c) :=
  inferInstanceAs (Decidable (_ ∧ _ ∧ (_ ∨ _)))

/-- A command moves to the end of `sentReliableCommands`. -/
def transmit (s : Sender) (c : OutgoingCommand) : Sender :=
  let window := c.command.reliableSequenceNumber / reliableWindowSize
  let s := if c.sendAttempts < 1 then
    { s with
      usedReliableWindows := s.usedReliableWindows ||| 1 <<< window
      reliableWindows := Function.update s.reliableWindows window (s.reliableWindows window + 1)
      newest := c.number }
    else s
  { s with
    sentReliableCommands :=
      s.sentReliableCommands ++ [{ c with sendAttempts := c.sendAttempts + 1 }]
    reliableDataInTransit := s.reliableDataInTransit + c.command.data.length }

end Sender

/-- The variables of the loop over `outgoingCommands`: `slots` more commands and `room` more bytes
fit into the datagram, `limit` is the window of the peer. -/
structure Pass where
  sender : Sender
  windowWrap : Bool
  windowExceeded : Bool
  slots : Nat
  room : Nat
  datagram : List (Nat × Command)

namespace Pass

def transmit (p : Pass) (c : OutgoingCommand) : Pass :=
  { p with
    sender := p.sender.transmit c
    slots := p.slots - 1
    room := p.room - (c.command.size + c.command.data.length)
    datagram := p.datagram ++ [(c.number, c.command)] }

/-- What is left in `outgoingCommands` comes second. -/
def loop (limit : Nat) : Pass → List OutgoingCommand → Pass × List OutgoingCommand
  | p, [] => (p, [])
  | p, c :: rest =>
    let p := { p with windowWrap := p.windowWrap || p.sender.Wraps c }
    if p.windowWrap then ((loop limit p rest).1, c :: (loop limit p rest).2)
    else
      let p := { p with
        windowExceeded := p.windowExceeded ||
          limit < p.sender.reliableDataInTransit + c.command.data.length }
      if p.windowExceeded then ((loop limit p rest).1, c :: (loop limit p rest).2)
      else if p.slots = 0 ∨ p.room < c.command.size + c.command.data.length then (p, c :: rest)
      else loop limit (p.transmit c) rest

end Pass

namespace Sender

/-- The sender after the pass, and the datagram. -/
def checkOutgoingCommands (limit slots room : Nat) (s : Sender) : Sender × List (Nat × Command) :=
  let r := Pass.loop limit ⟨s, false, false, slots, room, []⟩ s.outgoingCommands
  ({ r.1.sender with outgoingCommands := r.2 }, r.1.datagram)

def dataLength (commands : List OutgoingCommand) : Nat :=
  (commands.map fun c => c.command.data.length).sum

/-- `enet_protocol_check_timeouts`, when the connection lasts; `due` are the commands that have
waited for their `roundTripTimeout`. -/
def checkTimeouts (due : OutgoingCommand → Bool) (s : Sender) : Sender :=
  { s with
    sentReliableCommands := s.sentReliableCommands.filter fun c => !due c
    outgoingCommands := s.sentReliableCommands.filter due ++ s.outgoingCommands
    reliableDataInTransit :=
      s.reliableDataInTransit - dataLength (s.sentReliableCommands.filter due) }

/-! ### `enet_protocol_remove_sent_reliable_command` -/

def searchSent (sequenceNumber : Nat) :
    List OutgoingCommand → Option (OutgoingCommand × List OutgoingCommand)
  | [] => none
  | c :: rest =>
    if c.command.reliableSequenceNumber = sequenceNumber then some (c, rest)
    else (searchSent sequenceNumber rest).map fun r => (r.1, c :: r.2)

/-- The search in `outgoingCommands` ends at a command that has not been sent. -/
def searchOutgoing (sequenceNumber : Nat) :
    List OutgoingCommand → Option (OutgoingCommand × List OutgoingCommand)
  | [] => none
  | c :: rest =>
    if c.sendAttempts < 1 then none
    else if c.command.reliableSequenceNumber = sequenceNumber then some (c, rest)
    else (searchOutgoing sequenceNumber rest).map fun r => (r.1, c :: r.2)

/-- A command of the window has been answered. -/
def release (s : Sender) (window : Nat) : Sender :=
  if 0 < s.reliableWindows window then
    { s with
      reliableWindows := Function.update s.reliableWindows window (s.reliableWindows window - 1)
      usedReliableWindows :=
        if s.reliableWindows window - 1 = 0 then
          s.usedReliableWindows &&& (65535 ^^^ (1 <<< window))
        else s.usedReliableWindows }
  else s

def removeSentReliableCommand (s : Sender) (sequenceNumber : Nat) : Sender :=
  match searchSent sequenceNumber s.sentReliableCommands with
  | some (c, rest) =>
    { s.release (sequenceNumber / reliableWindowSize) with
      sentReliableCommands := rest
      reliableDataInTransit := s.reliableDataInTransit - c.command.data.length }
  | none =>
    match searchOutgoing sequenceNumber s.outgoingCommands with
    | some (_, rest) =>
      { s.release (sequenceNumber / reliableWindowSize) with outgoingCommands := rest }
    | none => s

end Sender

/-! ### The receiver -/

/-- A packet that is not dispatched: of fragments when `fragmentCount` is not 0, whole otherwise. -/
structure IncomingCommand where
  reliableSequenceNumber : Nat
  fragmented : Bool
  fragmentCount : Nat
  fragmentsRemaining : Nat
  data : List UInt8
  fragments : List Bool
  deriving DecidableEq, Repr

def IncomingCommand.create (sequenceNumber : Nat) (fragmented : Bool) (fragmentCount : Nat)
    (data : List UInt8) : IncomingCommand :=
  ⟨sequenceNumber, fragmented, fragmentCount, fragmentCount, data,
    List.replicate fragmentCount false⟩

structure Receiver where
  incomingReliableSequenceNumber : Nat
  incomingReliableCommands : List IncomingCommand
  dispatchedCommands : List (List UInt8)
  deriving DecidableEq, Repr

def Receiver.init : Receiver := ⟨0, [], []⟩

/-- The window of a sequence number, a round later when it is less than the incoming one. -/
def reliableWindow (incoming sequenceNumber : Nat) : Nat :=
  sequenceNumber / reliableWindowSize + if sequenceNumber < incoming then reliableWindowCount else 0

/-- A command is taken when its window is one of the free ones. -/
def InWindow (incoming sequenceNumber : Nat) : Prop :=
  incoming / reliableWindowSize ≤ reliableWindow incoming sequenceNumber ∧
    reliableWindow incoming sequenceNumber < incoming / reliableWindowSize + freeReliableWindows - 1

instance (incoming sequenceNumber : Nat) : Decidable (InWindow incoming sequenceNumber) :=
  inferInstanceAs (Decidable (_ ∧ _))

/-- What the body of the search says of one stored command. -/
inductive Look
  | next
  | here
  | found
  deriving DecidableEq, Repr

def look (incoming sequenceNumber stored : Nat) : Look :=
  if incoming ≤ sequenceNumber ∧ stored < incoming then .next
  else if sequenceNumber < incoming ∧ incoming ≤ stored then .here
  else if stored ≤ sequenceNumber then if stored < sequenceNumber then .here else .found
  else .next

/-- Where the search in `incomingReliableCommands` ends: at the command, or behind `before`. -/
inductive Place
  | found (before : List IncomingCommand) (c : IncomingCommand) (after : List IncomingCommand)
  | insert (before after : List IncomingCommand)
  deriving DecidableEq, Repr

/-- The search runs from the back: `after` has been passed. -/
def searchBack (incoming sequenceNumber : Nat) :
    List IncomingCommand → List IncomingCommand → Place
  | [], after => .insert [] after
  | c :: before, after =>
    match look incoming sequenceNumber c.reliableSequenceNumber with
    | .next => searchBack incoming sequenceNumber before (c :: after)
    | .here => .insert (c :: before).reverse after
    | .found => .found before.reverse c after

namespace Receiver

def search (r : Receiver) (sequenceNumber : Nat) : Place :=
  searchBack r.incomingReliableSequenceNumber sequenceNumber r.incomingReliableCommands.reverse []

/-- The loop of `enet_peer_dispatch_incoming_reliable_commands`. -/
def dispatchLoop : Nat → List IncomingCommand → Nat × List (List UInt8) × List IncomingCommand
  | incoming, [] => (incoming, [], [])
  | incoming, c :: rest =>
    if 0 < c.fragmentsRemaining ∨ c.reliableSequenceNumber ≠ (incoming + 1) % 65536 then
      (incoming, [], c :: rest)
    else
      let incoming := if 0 < c.fragmentCount then
        (c.reliableSequenceNumber + (c.fragmentCount - 1)) % 65536 else c.reliableSequenceNumber
      let r := dispatchLoop incoming rest
      (r.1, c.data :: r.2.1, r.2.2)

def dispatch (r : Receiver) : Receiver :=
  let d := dispatchLoop r.incomingReliableSequenceNumber r.incomingReliableCommands
  ⟨d.1, d.2.2, r.dispatchedCommands ++ d.2.1⟩

/-- `enet_peer_queue_incoming_command`. `memory` is what the new packet holds, and `none` when there
is no memory for it or too much data is waiting; the result is `none` for NULL. -/
def queueIncomingCommand (r : Receiver) (sequenceNumber : Nat) (fragmented : Bool)
    (memory : Option (List UInt8)) (fragmentCount : Nat) : Option Receiver :=
  let discardCommand := if 0 < fragmentCount then none else some r
  if ¬ InWindow r.incomingReliableSequenceNumber sequenceNumber then discardCommand
  else if sequenceNumber = r.incomingReliableSequenceNumber then discardCommand
  else
    match r.search sequenceNumber with
    | .found .. => discardCommand
    | .insert before after =>
      memory.bind fun data =>
        if maximumFragmentCount < fragmentCount then none
        else
          some (dispatch { r with
            incomingReliableCommands :=
              before ++ .create sequenceNumber fragmented fragmentCount data :: after })

/-- `enet_protocol_handle_send_reliable`. -/
def handleSendReliable (r : Receiver) (c : Command) (memory : Bool) : Option Receiver :=
  if maximumPacketSize < c.data.length then none
  else r.queueIncomingCommand c.reliableSequenceNumber false (if memory then some c.data else none) 0

end Receiver

/-- The bit of a fragment is set and its data copied. -/
def IncomingCommand.fill (s : IncomingCommand) (f : Fragment) (data : List UInt8) :
    IncomingCommand :=
  let length := if s.data.length < f.fragmentOffset + data.length then
    s.data.length - f.fragmentOffset else data.length
  { s with
    fragmentsRemaining := s.fragmentsRemaining - 1
    fragments := s.fragments.set f.fragmentNumber true
    data := s.data.take f.fragmentOffset ++ data.take length ++
      s.data.drop (f.fragmentOffset + length) }

namespace Receiver

/-- `startCommand` gets the fragment, when it does not have it. -/
def addFragment (r : Receiver) (before : List IncomingCommand) (startCommand : IncomingCommand)
    (after : List IncomingCommand) (f : Fragment) (data : List UInt8) : Receiver :=
  if startCommand.fragments.getD f.fragmentNumber false then r
  else
    let c := startCommand.fill f data
    let r := { r with incomingReliableCommands := before ++ c :: after }
    if c.fragmentsRemaining = 0 then r.dispatch else r

/-- `enet_protocol_handle_send_fragment`. The new `startCommand` is not dispatched before it has a
fragment, and is found again under its sequence number. -/
def handleSendFragment (r : Receiver) (f : Fragment) (data : List UInt8)
    (memory : Option (List UInt8)) : Option Receiver :=
  if maximumPacketSize < data.length then none
  else if ¬ InWindow r.incomingReliableSequenceNumber f.startSequenceNumber then some r
  else if maximumFragmentCount < f.fragmentCount ∨ f.fragmentCount ≤ f.fragmentNumber ∨
      maximumPacketSize < f.totalLength ∨ f.totalLength ≤ f.fragmentOffset ∨
      f.totalLength - f.fragmentOffset < data.length then none
  else
    match r.search f.startSequenceNumber with
    | .found before startCommand after =>
      if startCommand.fragmented = false ∨ f.totalLength ≠ startCommand.data.length ∨
          f.fragmentCount ≠ startCommand.fragmentCount then none
      else some (r.addFragment before startCommand after f data)
    | .insert .. =>
      (r.queueIncomingCommand f.startSequenceNumber true
          (memory.map fun m => (m ++ List.replicate f.totalLength 0).take f.totalLength)
          f.fragmentCount).bind fun r =>
        match r.search f.startSequenceNumber with
        | .found before startCommand after => some (r.addFragment before startCommand after f data)
        | .insert .. => none

def handleSend (r : Receiver) (c : Command) (memory : Option (List UInt8)) : Option Receiver :=
  match c.fragment with
  | none => r.handleSendReliable c memory.isSome
  | some f => r.handleSendFragment f c.data memory

/-- `enet_peer_queue_acknowledgement` takes the command. -/
def Acknowledges (r : Receiver) (sequenceNumber : Nat) : Prop :=
  let window := reliableWindow r.incomingReliableSequenceNumber sequenceNumber
  let currentWindow := r.incomingReliableSequenceNumber / reliableWindowSize
  ¬ (currentWindow + freeReliableWindows - 1 ≤ window ∧
    window ≤ currentWindow + freeReliableWindows)

instance (r : Receiver) (sequenceNumber : Nat) : Decidable (r.Acknowledges sequenceNumber) :=
  inferInstanceAs (Decidable (¬ (_ ∧ _)))

end Receiver

end NetworkUtility.Enet
