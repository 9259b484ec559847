import Mathlib.Logic.Function.Basic
import NetworkUtility.Lib.Index
import NetworkUtility.MulticastHelper.Receiving
import NetworkUtility.MulticastHelper.SendQueue

/-! The helpers of one multicast group on a network that loses, repeats and reorders datagrams and
brings others of its own. -/
namespace NetworkUtility.MulticastHelper

open Machine

/-- A host with its helper. `onAir` says that the datagram of the outstanding send has gone out, and
`air` is history: the datagrams that have. -/
structure Host (α : Type) where
  send : State
  onAir : Bool
  air : List Bytes
  recv : Recver α
  deriving DecidableEq, Repr

namespace Host

variable {α : Type}

def initial (receives : Bool) : Host α where
  send := MulticastHelper.initial
  onAir := false
  air := []
  recv := .initial receives

end Host

/-- The host of each address. -/
abbrev Group (α : Type) := α → Host α

inductive Event (α : Type)
  | sendData (i : α) (data : Bytes)
  | runPosted (i : α)
  | emit (i : α)
  | sent (i : α) (err : Bool)
  | arrive (i j : α) (k : Nat)
  | foreign (address j : α) (datagram : Bytes)
  | recvError (j : α)
  | handleData (j : α)
  | stop (i : α)
  | clear (i : α)
  deriving DecidableEq, Repr

namespace Host

variable {α : Type}

/-- The datagram of the outstanding send goes out, once. -/
def emit (h : Host α) : Option (Host α) :=
  match h.send.sending with
  | [] => none
  | datagram :: _ =>
    if h.onAir then none else some { h with onAir := true, air := h.air ++ [datagram] }

/-- A send completes without an error if its datagram has gone out. -/
def sent (p : Protocol) (err : Bool) (h : Host α) : Option (Host α) :=
  if h.onAir = err then none
  else (step p h.send (.complete 0 err)).map fun s => { h with send := s, onAir := false }

def stop (h : Host α) : Host α := { h with send := { h.send with running := false } }

def clear (p : Protocol) (h : Host α) : Option (Host α) :=
  (step p h.send .clear).bind fun s => h.recv.clear.map fun r => { h with send := s, recv := r }

end Host

namespace Group

variable {α : Type} [DecidableEq α]

/-- The helper of host `i` does something. -/
def act (g : Group α) (i : α) (h : Option (Host α)) : Option (Group α) :=
  h.map (Function.update g i)

/-- A datagram comes to `j`. -/
def arrive (g : Group α) (address j : α) (datagram : Bytes) : Option (Group α) :=
  g.act j (((g j).recv.onRecv address datagram).map fun r => { g j with recv := r })

/-- `arrive i j k` brings datagram `k` of host `i` to `j`, at any time and as often as it likes.
Loopback is disabled, so none comes to its own host. -/
def step (p : Protocol) (g : Group α) : Event α → Option (Group α)
  | .sendData i data => g.act i (some { g i with send := (g i).send.sendData p data })
  | .runPosted i =>
    g.act i ((MulticastHelper.step p (g i).send .runPosted).map fun s => { g i with send := s })
  | .emit i => g.act i (g i).emit
  | .sent i err => g.act i ((g i).sent p err)
  | .arrive i j k => if i = j then none else ((g i).air[k]?).bind (g.arrive i j)
  | .foreign address j datagram => g.arrive address j datagram
  | .recvError j =>
    g.act j (((g j).recv.onError (g j).send.running).map fun r => { g j with recv := r })
  | .handleData j =>
    g.act j (((g j).recv.handleData p (g j).send.running).map fun r => { g j with recv := r })
  | .stop i => g.act i (some (g i).stop)
  | .clear i => g.act i ((g i).clear p)

def initial (receives : α → Bool) : Group α := fun i => .initial (receives i)

end Group

/-! ### What one helper puts on the network -/

/-- What has gone out and what is on its way are accepted packets in their order, also when the helper
ends: `exit` drops what is posted and the list, never the datagram of the outstanding send. -/
structure State.Flow (s : State) : Prop where
  isOpen : s.isOpen = true
  serving : s.running = true → Serving s
  order : s.queued <+: s.accepted
  outgoing : (s.sending = [] ∧ s.sent <+: s.queued) ∨
    ∃ data, s.sending = [data] ∧ s.sent ++ [data] <+: s.queued ∧
      (s.sendDataList = [] ∨ ∃ more, s.sendDataList = data :: more ∧
        s.sent ++ s.sendDataList = s.queued)

namespace State

variable {p : Protocol} {s t : State} {data packet : Bytes}

/-- A helper that runs. -/
theorem flow_of_serving (hopen : s.isOpen = true) (h : Serving s) : s.Flow := by
  refine ⟨hopen, fun _ => h, ⟨_, h.accepted⟩, ?_⟩
  cases hlist : s.sendDataList with
  | nil =>
    have hone := h.one
    rw [hlist] at hone
    exact .inl ⟨hone, ⟨_, h.listed⟩⟩
  | cons data more =>
    have hone := h.one
    have hlisted := h.listed
    rw [hlist] at hone hlisted
    refine .inr ⟨data, hone, ⟨more, ?_⟩, .inr ⟨more, rfl, hlisted⟩⟩
    rw [List.append_assoc]
    exact hlisted

theorem flow_initial : initial.Flow := flow_of_serving rfl serving_initial

theorem Flow.length (h : s.Flow) : s.sending.length ≤ 1 := by
  obtain ⟨hsending, -⟩ | ⟨data, hsending, -⟩ := h.outgoing
  · rw [hsending]
    exact Nat.zero_le _
  · rw [hsending]
    exact Nat.le_refl _

/-- The datagram that goes out next is an accepted packet. -/
theorem Flow.emitted (h : s.Flow) : s.sent ++ s.sending <+: s.accepted := by
  refine List.IsPrefix.trans ?_ h.order
  obtain ⟨hsending, hsent⟩ | ⟨data, hsending, hsent, -⟩ := h.outgoing
  · rw [hsending, List.append_nil]
    exact hsent
  · rw [hsending]
    exact hsent

theorem sendData_cases (p : Protocol) (s : State) (data : Bytes) :
    s.sendData p data = s ∨ ∃ packet, p.packetMessage data = some packet ∧
      s.sendData p data = { s with posted := s.posted ++ [packet], accepted := s.accepted ++ [packet] } := by
  cases haccepts : s.accepts p data with
  | none => exact .inl (by rw [sendData, haccepts])
  | some packet =>
    refine .inr ⟨packet, ?_, by rw [sendData, haccepts]⟩
    unfold accepts at haccepts
    split_ifs at haccepts
    exact haccepts

theorem Flow.sendData (h : s.Flow) (data : Bytes) : (s.sendData p data).Flow := by
  by_cases hrun : s.running = true
  · have hopen : (s.sendData p data).Live := s.live_sendData.mpr ⟨hrun, h.isOpen⟩
    exact flow_of_serving hopen.2 (h.serving hrun).sendData
  · obtain heq | ⟨packet, -, heq⟩ := sendData_cases p s data
    · rwa [heq]
    · rw [heq]
      exact ⟨h.isOpen, fun h => absurd h hrun, h.order.trans (List.prefix_append _ _), h.outgoing⟩

/-- A posted lambda of a helper that has ended does nothing. -/
theorem Flow.onPosted {posted : List Bytes} (h : s.Flow) (hposted : s.posted = packet :: posted) :
    ({ s with posted := posted }.onPosted packet).Flow := by
  by_cases hrun : s.running = true
  · have hlive : ({ s with posted := posted }.onPosted packet).Live :=
      ({ s with posted := posted }.live_onPosted).mpr ⟨hrun, h.isOpen⟩
    exact flow_of_serving hlive.2 ((h.serving hrun).onPosted hposted hrun h.isOpen)
  · rw [State.onPosted, if_pos (.inl (Bool.eq_false_of_not_eq_true hrun))]
    exact ⟨h.isOpen, fun h => absurd h hrun, h.order, h.outgoing⟩

/-- The outstanding send completes, without an error only if its datagram has gone out. -/
theorem Flow.onSent {err : Bool} {buffer : Bytes} (h : s.Flow) (hi : s.sending[0]? = some buffer) :
    ({ s with sending := s.sending.eraseIdx 0 }.onSent buffer err).Flow := by
  by_cases hrun : s.running = true
  · have hlive : ({ s with sending := s.sending.eraseIdx 0 }.onSent buffer err).Live :=
      ({ s with sending := s.sending.eraseIdx 0 }.live_onSent err).mpr ⟨hrun, h.isOpen⟩
    exact flow_of_serving hlive.2 ((h.serving hrun).onSent hi hrun h.isOpen)
  have hstopped : s.running = false := Bool.eq_false_of_not_eq_true hrun
  obtain ⟨hsending, -⟩ | ⟨data, hsending, hsent, hlist⟩ := h.outgoing
  · rw [hsending] at hi
    cases hi
  obtain rfl : data = buffer := by
    rw [hsending] at hi
    exact Option.some.inj hi
  have hdone : s.sending.eraseIdx 0 = [] := by rw [hsending]; rfl
  rw [hdone]
  cases err with
  | true =>
    have heq : { s with sending := [] }.onSent data true = { s with sending := [] } := by
      simp [State.onSent, hstopped]
    rw [heq]
    exact ⟨h.isOpen, fun h => absurd h hrun, h.order,
      .inl ⟨rfl, (List.prefix_append _ _).trans hsent⟩⟩
  | false =>
    obtain hlist | ⟨more, hlist, hlisted⟩ := hlist
    · have heq : { s with sending := [] }.onSent data false =
          { s with sending := [], sent := s.sent ++ [data] } := by
        simp [State.onSent, hlist]
      rw [heq]
      exact ⟨h.isOpen, fun h => absurd h hrun, h.order, .inl ⟨rfl, hsent⟩⟩
    · rw [onSent_ok { s with sending := [] } hlist]
      refine ⟨h.isOpen, fun h => absurd h hrun, h.order, ?_⟩
      have hlisted' : s.sent ++ [data] ++ more = s.queued := by
        rw [← hlisted, hlist, List.append_assoc]
        rfl
      cases more with
      | nil => exact .inl ⟨rfl, hsent⟩
      | cons next more =>
        refine .inr ⟨next, rfl, ⟨more, ?_⟩, .inr ⟨more, rfl, hlisted'⟩⟩
        rw [List.append_assoc]
        exact hlisted'

theorem running_doSend (s : State) : s.doSend.running = s.running := by
  unfold doSend
  cases s.sendDataList <;> rfl

theorem running_onSent (s : State) (buffer : Bytes) (err : Bool) :
    (s.onSent buffer err).running = s.running := by
  unfold State.onSent
  dsimp only
  split_ifs <;> first | rfl | exact running_doSend _

theorem sent_doSend (s : State) : s.doSend.sent = s.sent := by
  unfold doSend
  cases s.sendDataList <;> rfl

theorem sent_onSent (s : State) (buffer : Bytes) (err : Bool) :
    (s.onSent buffer err).sent = s.sent ++ if err then [] else [buffer] := by
  unfold State.onSent
  dsimp only
  split_ifs <;> simp [sent_doSend]

theorem Flow.stop (h : s.Flow) : { s with running := false }.Flow :=
  ⟨h.isOpen, nofun, h.order, h.outgoing⟩

theorem Flow.clear (h : s.Flow) (hrun : s.running = false) : { s with sendDataList := [] }.Flow := by
  refine ⟨h.isOpen, fun h => ?_, h.order, ?_⟩
  · rw [show s.running = true from h] at hrun
    cases hrun
  · obtain hnone | ⟨data, hsending, hsent, -⟩ := h.outgoing
    · exact .inl hnone
    · exact .inr ⟨data, hsending, hsent, .inl rfl⟩

end State

/-! ### What one event does -/

namespace Event

variable {α : Type} [DecidableEq α]

/-- The packet that an event makes host `i` accept, if its helper is running. -/
def packet (p : Protocol) (i : α) : Event α → Option Bytes
  | sendData j data => if j = i then p.packetMessage data else none
  | _ => none

/-- The data of that packet. -/
def taken (p : Protocol) (i : α) : Event α → Option Bytes
  | sendData j data => if j = i ∧ (p.packetMessage data).isSome then some data else none
  | _ => none

/-- The number of the datagram of `i` that an event brings to `j`. -/
def arrival (i j : α) : Event α → Option Nat
  | arrive i' j' k => if i' = i ∧ j' = j then some k else none
  | _ => none

/-- What an event brings to `j`, while `air` is what the hosts have put on the network. -/
def brings (air : α → List Bytes) (j : α) : Event α → List (α × Bytes)
  | arrive i j' k =>
    if j' = j then ((air i)[k]?.map fun datagram => (i, datagram.take capacity)).toList else []
  | foreign address j' datagram => if j' = j then [(address, datagram.take capacity)] else []
  | _ => []

end Event

/-- The steps of the helper of host `i`, while `air` is what the hosts have put on the network. -/
inductive Host.Moves {α : Type} (p : Protocol) (air : α → List Bytes) (i : α) (h : Host α) :
    Event α → Host α → Prop
  | sendData (data : Bytes) :
    Moves p air i h (.sendData i data) { h with send := h.send.sendData p data }
  | runPosted {packet : Bytes} {posted : List Bytes} (hposted : h.send.posted = packet :: posted) :
    Moves p air i h (.runPosted i)
      { h with send := { h.send with posted := posted }.onPosted packet }
  | emit {datagram : Bytes} {more : List Bytes} (hsending : h.send.sending = datagram :: more)
    (hair : h.onAir = false) :
    Moves p air i h (.emit i) { h with onAir := true, air := h.air ++ [datagram] }
  | sent {buffer : Bytes} (err : Bool) (hair : h.onAir = !err) (hi : h.send.sending[0]? = some buffer) :
    Moves p air i h (.sent i err) { h with
      send := { h.send with sending := h.send.sending.eraseIdx 0 }.onSent buffer err
      onAir := false }
  | arrive {j : α} {k : Nat} {datagram : Bytes} {r : Recver α} (hne : j ≠ i)
    (hk : (air j)[k]? = some datagram) (hr : h.recv.onRecv j datagram = some r) :
    Moves p air i h (.arrive j i k) { h with recv := r }
  | foreign {address : α} {datagram : Bytes} {r : Recver α}
    (hr : h.recv.onRecv address datagram = some r) :
    Moves p air i h (.foreign address i datagram) { h with recv := r }
  | recvError {r : Recver α} (hr : h.recv.onError h.send.running = some r) :
    Moves p air i h (.recvError i) { h with recv := r }
  | handleData {r : Recver α} (hr : h.recv.handleData p h.send.running = some r) :
    Moves p air i h (.handleData i) { h with recv := r }
  | stop : Moves p air i h (.stop i) h.stop
  | clear {r : Recver α} (hrun : h.send.running = false) (hr : h.recv.clear = some r) :
    Moves p air i h (.clear i) { h with send := { h.send with sendDataList := [] }, recv := r }

/-- What has gone out is what the sends were for, and what is handed on is what has arrived. -/
structure Host.Inv {α : Type} (p : Protocol) (h : Host α) : Prop where
  flow : h.send.Flow
  air : h.air = h.send.sent ++ if h.onAir then h.send.sending else []
  onAir : h.onAir = true → h.send.sending ≠ []
  handing : Recver.Handing p h.send.running h.recv

namespace Host

variable {α : Type} {p : Protocol} {h h' : Host α} {receives : Bool} {air : α → List Bytes} {i : α}
  {e : Event α}

theorem inv_initial : Inv p (initial (α := α) receives) :=
  ⟨State.flow_initial, rfl, nofun, Recver.handing_initial receives⟩

theorem Inv.sendData (h1 : h.Inv p) (data : Bytes) :
    Inv p { h with send := h.send.sendData p data } := by
  have hflow := h1.flow.sendData (p := p) data
  obtain heq | ⟨packet, -, heq⟩ := State.sendData_cases p h.send data
  · rw [heq]
    exact h1
  · rw [heq] at hflow ⊢
    exact ⟨hflow, h1.air, h1.onAir, h1.handing⟩

theorem Inv.runPosted {packet : Bytes} {posted : List Bytes} (h1 : h.Inv p)
    (hposted : h.send.posted = packet :: posted) :
    Inv p { h with send := { h.send with posted := posted }.onPosted packet } := by
  have hflow := h1.flow.onPosted hposted
  by_cases hrun : h.send.running = true
  · have heq := State.onPosted_eq { h.send with posted := posted } hrun h1.flow.isOpen packet
    rw [heq] at hflow ⊢
    have hsending : h.onAir = true → h.send.sendDataList ≠ [] := by
      intro hair hnil
      have hone := (h1.flow.serving hrun).one
      rw [hnil] at hone
      exact h1.onAir hair hone
    cases hair : h.onAir with
    | false =>
      refine ⟨hflow, ?_, (fun h => by cases h), h1.handing⟩
      have hbefore := h1.air
      rw [hair] at hbefore
      exact hbefore
    | true =>
      have hkept : (if h.send.sendDataList = [] then h.send.sending ++ [packet] else h.send.sending) =
          h.send.sending := if_neg (hsending hair)
      refine ⟨hflow, ?_, fun _ => ?_, h1.handing⟩
      · have hbefore := h1.air
        rw [hair] at hbefore
        simp only [hkept]
        exact hbefore
      · simp only [hkept]
        exact h1.onAir hair
  · rw [State.onPosted, if_pos (.inl (Bool.eq_false_of_not_eq_true hrun))] at hflow ⊢
    exact ⟨hflow, h1.air, h1.onAir, h1.handing⟩

theorem Inv.emit {datagram : Bytes} {more : List Bytes} (h1 : h.Inv p)
    (hsending : h.send.sending = datagram :: more) (hair : h.onAir = false) :
    Inv p { h with onAir := true, air := h.air ++ [datagram] } := by
  have hlength := h1.flow.length
  rw [hsending] at hlength
  obtain rfl : more = [] := List.eq_nil_of_length_eq_zero (by simpa using hlength)
  have hbefore := h1.air
  rw [hair, if_neg Bool.false_ne_true, List.append_nil] at hbefore
  refine ⟨h1.flow, ?_, fun _ => ?_, h1.handing⟩
  · rw [hbefore, hsending]
    rfl
  · rw [hsending]
    exact List.cons_ne_nil _ _

theorem Inv.sent {buffer : Bytes} {err : Bool} (h1 : h.Inv p) (hair : h.onAir = !err)
    (hi : h.send.sending[0]? = some buffer) :
    Inv p { h with
      send := { h.send with sending := h.send.sending.eraseIdx 0 }.onSent buffer err
      onAir := false } := by
  have hrunning := State.running_onSent { h.send with sending := h.send.sending.eraseIdx 0 } buffer err
  have hsent := State.sent_onSent { h.send with sending := h.send.sending.eraseIdx 0 } buffer err
  refine ⟨h1.flow.onSent hi, ?_, nofun, ?_⟩
  · have hbefore := h1.air
    have hone : h.send.sending = [buffer] := by
      obtain ⟨hnone, -⟩ | ⟨data, hdata, -⟩ := h1.flow.outgoing
      · rw [hnone] at hi
        cases hi
      · rw [hdata] at hi ⊢
        rw [Option.some.inj hi]
    rw [if_neg Bool.false_ne_true, List.append_nil, hsent, hbefore, hair, hone]
    cases err with
    | true => rfl
    | false => rfl
  · rw [hrunning]
    exact h1.handing

theorem Inv.moves (h1 : h.Inv p) (hm : h.Moves p air i e h') : h'.Inv p := by
  cases hm with
  | sendData data => exact h1.sendData data
  | runPosted hposted => exact h1.runPosted hposted
  | emit hsending hair => exact h1.emit hsending hair
  | sent err hair hi => exact h1.sent hair hi
  | arrive hne hk hr => exact ⟨h1.flow, h1.air, h1.onAir, h1.handing.onRecv hr⟩
  | foreign hr => exact ⟨h1.flow, h1.air, h1.onAir, h1.handing.onRecv hr⟩
  | recvError hr => exact ⟨h1.flow, h1.air, h1.onAir, h1.handing.onError hr⟩
  | handleData hr => exact ⟨h1.flow, h1.air, h1.onAir, h1.handing.handleData hr⟩
  | stop => exact ⟨h1.flow.stop, h1.air, h1.onAir, h1.handing.stop⟩
  | clear hrun hr =>
    have hhanding := h1.handing
    rw [hrun] at hhanding
    refine ⟨h1.flow.clear hrun, h1.air, h1.onAir, ?_⟩
    have hnext := hhanding.clear hr
    rw [← hrun] at hnext
    exact hnext

theorem running_onPosted (s : State) (packet : Bytes) : (s.onPosted packet).running = s.running := by
  unfold State.onPosted
  dsimp only
  split_ifs <;> first | rfl | exact State.running_doSend _

/-- A helper that runs has always run. -/
theorem Moves.running (hm : h.Moves p air i e h') (hrun : h'.send.running = true) :
    h.send.running = true := by
  cases hm with
  | sendData data =>
    obtain heq | ⟨packet, -, heq⟩ := State.sendData_cases p h.send data
    · simpa [heq] using hrun
    · simpa [heq] using hrun
  | runPosted hposted => simpa [running_onPosted] using hrun
  | sent err hair hi => simpa [State.running_onSent] using hrun
  | stop => cases hrun
  | _ => exact hrun

theorem accepted_onPosted (s : State) (packet : Bytes) : (s.onPosted packet).accepted = s.accepted := by
  unfold State.onPosted
  dsimp only
  split_ifs <;> first | rfl | exact State.accepted_doSend _

theorem accepted_onSent (s : State) (buffer : Bytes) (err : Bool) :
    (s.onSent buffer err).accepted = s.accepted := by
  unfold State.onSent
  dsimp only
  split_ifs <;> simp

/-- A call of `send_data` is accepted if its data can be packed and the helper is running. -/
theorem Moves.accepted [DecidableEq α] (hm : h.Moves p air i e h') :
    h'.send.accepted = h.send.accepted ++ if h.send.running then (e.packet p i).toList else [] := by
  cases hm with
  | sendData data =>
    rw [Event.packet, if_pos rfl]
    cases hrun : h.send.running with
    | true =>
      have haccepts := State.accepts_eq (p := p) hrun data
      dsimp only [State.sendData]
      rw [haccepts]
      cases p.packetMessage data <;> simp
    | false =>
      have haccepts : h.send.accepts p data = none := by simp [State.accepts, hrun]
      dsimp only [State.sendData]
      rw [haccepts]
      simp
  | runPosted hposted => simp [Event.packet, accepted_onPosted]
  | sent err hair hi => simp [Event.packet, accepted_onSent]
  | _ => simp [Event.packet, Host.stop]

theorem Moves.arrived [DecidableEq α] (hm : h.Moves p air i e h') :
    h'.recv.arrived = h.recv.arrived ++ e.brings air i := by
  cases hm with
  | arrive hne hk hr => simp [Event.brings, hk, Recver.onRecv_arrived hr]
  | foreign hr => simp [Event.brings, Recver.onRecv_arrived hr]
  | recvError hr => simp [Event.brings, Recver.onError_arrived hr]
  | handleData hr => simp [Event.brings, Recver.handleData_arrived hr]
  | clear hrun hr => simp [Event.brings, Recver.clear_arrived hr]
  | _ => simp [Event.brings, Host.stop]

/-- An event is about one host. -/
theorem Moves.other [DecidableEq α] {j : α} (hm : h.Moves p air i e h') (hj : j ≠ i) :
    e.packet p j = none ∧ e.brings air j = [] := by
  cases hm <;> simp [Event.packet, Event.brings, hj.symm]

/-- What is on the network stays there. -/
theorem Moves.air_grows (hm : h.Moves p air i e h') : h.air <+: h'.air := by
  cases hm with
  | emit hsending hair => exact List.prefix_append _ _
  | _ => exact List.prefix_rfl

end Host

/-! ### What a run of the group does -/

namespace Group

variable {α : Type} [DecidableEq α] {p : Protocol} {g g' : Group α} {e : Event α} {es : List (Event α)}
  {receives : α → Bool} {i j : α}

theorem act_cases {h : Option (Host α)} (hact : g.act i h = some g') :
    ∃ host, h = some host ∧ g' = Function.update g i host := by
  obtain ⟨host, hhost, rfl⟩ := Option.map_eq_some_iff.mp hact
  exact ⟨host, hhost, rfl⟩

/-- An event is a step of one helper. -/
theorem step_moves (h : step p g e = some g') :
    ∃ i host, (g i).Moves p (fun j => (g j).air) i e host ∧ g' = Function.update g i host := by
  cases e with
  | sendData i data =>
    obtain ⟨_, heq, rfl⟩ := act_cases h
    obtain rfl := Option.some.inj heq
    exact ⟨i, _, .sendData data, rfl⟩
  | runPosted i =>
    obtain ⟨_, heq, rfl⟩ := act_cases h
    obtain ⟨s, hs, rfl⟩ := Option.map_eq_some_iff.mp heq
    cases hposted : (g i).send.posted with
    | nil =>
      simp only [MulticastHelper.step, hposted] at hs
      cases hs
    | cons packet posted =>
      simp only [MulticastHelper.step, hposted] at hs
      obtain rfl := Option.some.inj hs
      exact ⟨i, _, .runPosted hposted, rfl⟩
  | emit i =>
    obtain ⟨host, heq, rfl⟩ := act_cases h
    unfold Host.emit at heq
    cases hsending : (g i).send.sending with
    | nil =>
      rw [hsending] at heq
      cases heq
    | cons datagram more =>
      rw [hsending] at heq
      simp only [Option.ite_none_left_eq_some, Option.some.injEq] at heq
      obtain ⟨hair, rfl⟩ := heq
      exact ⟨i, _, .emit hsending (Bool.eq_false_of_not_eq_true hair), rfl⟩
  | sent i err =>
    obtain ⟨host, heq, rfl⟩ := act_cases h
    unfold Host.sent at heq
    split_ifs at heq with hair
    obtain ⟨s, hs, rfl⟩ := Option.map_eq_some_iff.mp heq
    obtain ⟨buffer, hi, rfl⟩ := Option.map_eq_some_iff.mp hs
    exact ⟨i, _, .sent err (Bool.eq_not_of_ne hair) hi, rfl⟩
  | arrive i j k =>
    simp only [step, Option.ite_none_left_eq_some] at h
    obtain ⟨hne, h⟩ := h
    obtain ⟨datagram, hk, harrive⟩ := Option.bind_eq_some_iff.mp h
    obtain ⟨host, heq, rfl⟩ := act_cases harrive
    obtain ⟨r, hr, rfl⟩ := Option.map_eq_some_iff.mp heq
    exact ⟨j, _, .arrive hne hk hr, rfl⟩
  | foreign address j datagram =>
    obtain ⟨host, heq, rfl⟩ := act_cases h
    obtain ⟨r, hr, rfl⟩ := Option.map_eq_some_iff.mp heq
    exact ⟨j, _, .foreign hr, rfl⟩
  | recvError j =>
    obtain ⟨host, heq, rfl⟩ := act_cases h
    obtain ⟨r, hr, rfl⟩ := Option.map_eq_some_iff.mp heq
    exact ⟨j, _, .recvError hr, rfl⟩
  | handleData j =>
    obtain ⟨host, heq, rfl⟩ := act_cases h
    obtain ⟨r, hr, rfl⟩ := Option.map_eq_some_iff.mp heq
    exact ⟨j, _, .handleData hr, rfl⟩
  | stop i =>
    obtain ⟨_, heq, rfl⟩ := act_cases h
    obtain rfl := Option.some.inj heq
    exact ⟨i, _, .stop, rfl⟩
  | clear i =>
    obtain ⟨_, heq, rfl⟩ := act_cases h
    obtain ⟨s, hs, heq⟩ := Option.bind_eq_some_iff.mp heq
    obtain ⟨r, hr, rfl⟩ := Option.map_eq_some_iff.mp heq
    simp only [MulticastHelper.step, Option.ite_none_left_eq_some, Option.some.injEq] at hs
    obtain ⟨hrun, rfl⟩ := hs
    exact ⟨i, _, .clear (Bool.eq_false_of_not_eq_true hrun) hr, rfl⟩

theorem inv_step (hg : ∀ i, (g i).Inv p) (h : step p g e = some g') (i : α) : (g' i).Inv p := by
  obtain ⟨j, host, hm, rfl⟩ := step_moves h
  by_cases hij : i = j
  · subst hij
    rw [Function.update_self]
    exact (hg i).moves hm
  · rw [Function.update_of_ne hij]
    exact hg i

theorem inv_run (h : Run (step p) Free (initial receives) es g) : ∀ i, (g i).Inv p :=
  h.invariant (fun g => ∀ i, (g i).Inv p) (fun _ _ _ hg _ hst => inv_step hg hst)
    fun _ => Host.inv_initial

theorem air_step (h : step p g e = some g') (i : α) : (g i).air <+: (g' i).air := by
  obtain ⟨j, host, hm, rfl⟩ := step_moves h
  by_cases hij : i = j
  · subst hij
    rw [Function.update_self]
    exact hm.air_grows
  · have hsame : Function.update g j host i = g i := Function.update_of_ne hij host g
    exact hsame ▸ List.prefix_rfl

theorem air_run (h : Run (step p) Free g es g') (i : α) : (g i).air <+: (g' i).air := by
  induction h with
  | nil => exact List.prefix_rfl
  | cons _ hst _ ih => exact (air_step hst i).trans ih

theorem accepted_step (h : step p g e = some g') (i : α) :
    (g' i).send.accepted =
      (g i).send.accepted ++ if (g i).send.running then (e.packet p i).toList else [] := by
  obtain ⟨j, host, hm, rfl⟩ := step_moves h
  by_cases hij : i = j
  · subst hij
    rw [Function.update_self]
    exact hm.accepted
  · rw [Function.update_of_ne hij, (hm.other hij).1]
    split_ifs <;> exact (List.append_nil _).symm

theorem arrived_step (h : step p g e = some g') (j : α) :
    (g' j).recv.arrived = (g j).recv.arrived ++ e.brings (fun i => (g i).air) j := by
  obtain ⟨i, host, hm, rfl⟩ := step_moves h
  by_cases hij : j = i
  · subst hij
    rw [Function.update_self]
    exact hm.arrived
  · rw [Function.update_of_ne hij, (hm.other (p := p) hij).2]
    exact (List.append_nil _).symm

/-- Only what is on the network arrives, and never at its own host. -/
theorem arrival_step {k : Nat} (h : step p g (.arrive i j k) = some g') :
    i ≠ j ∧ ∃ datagram, (g i).air[k]? = some datagram := by
  simp only [step, Option.ite_none_left_eq_some] at h
  obtain ⟨hne, h⟩ := h
  obtain ⟨datagram, hk, -⟩ := Option.bind_eq_some_iff.mp h
  exact ⟨hne, datagram, hk⟩

theorem running_step (h : step p g e = some g') (hrun : (g' i).send.running = true) :
    (g i).send.running = true := by
  obtain ⟨j, host, hm, rfl⟩ := step_moves h
  by_cases hij : i = j
  · subst hij
    rw [Function.update_self] at hrun
    exact hm.running hrun
  · rwa [Function.update_of_ne hij] at hrun

theorem accepted_run (h : Run (step p) Free g es g') (i : α) :
    ∃ l, l.Sublist (es.filterMap (Event.packet p i)) ∧
      (g' i).send.accepted = (g i).send.accepted ++ l ∧
      ((g' i).send.running = true → (g i).send.running = true ∧ l = es.filterMap (Event.packet p i)) := by
  induction h with
  | nil => exact ⟨[], List.Sublist.refl _, (List.append_nil _).symm, fun h => ⟨h, rfl⟩⟩
  | @cons g g₁ g' e es _ hst _ ih =>
    obtain ⟨l, hsub, heq, hall⟩ := ih
    have hcons : (e :: es).filterMap (Event.packet p i) =
        (e.packet p i).toList ++ es.filterMap (Event.packet p i) := by
      rw [List.filterMap_cons]
      cases e.packet p i <;> rfl
    refine ⟨(if (g i).send.running then (e.packet p i).toList else []) ++ l, ?_, ?_, fun hrun => ?_⟩
    · rw [hcons]
      refine List.Sublist.append ?_ hsub
      split_ifs
      · exact List.Sublist.refl _
      · exact List.nil_sublist _
    · rw [heq, accepted_step hst, List.append_assoc]
    · obtain ⟨hrun₁, rfl⟩ := hall hrun
      have hrun₀ := running_step hst hrun₁
      rw [if_pos hrun₀, hcons]
      exact ⟨hrun₀, rfl⟩

/-- Where a datagram in the list of `j` comes from. -/
theorem arrived_run (h : Run (step p) Free g es g') (j : α) : ∀ x ∈ (g' j).recv.arrived,
    x ∈ (g j).recv.arrived ∨
      (x.1 ≠ j ∧ ∃ datagram ∈ (g' x.1).air, x.2 = datagram.take capacity) ∨
      ∃ datagram, Event.foreign x.1 j datagram ∈ es ∧ x.2 = datagram.take capacity := by
  induction h with
  | nil => exact fun x hx => .inl hx
  | @cons g g₁ g' e es _ hst hrun ih =>
    intro x hafter
    obtain hbefore | hx | ⟨datagram, hmem, hx⟩ := ih x hafter
    · rw [arrived_step hst, List.mem_append] at hbefore
      obtain hbefore | hx := hbefore
      · exact .inl hbefore
      · cases e with
        | arrive i j' k =>
          obtain ⟨hne, datagram, hk⟩ := arrival_step hst
          simp only [Event.brings, hk] at hx
          split_ifs at hx with hj
          · subst hj
            obtain rfl : x = (i, datagram.take capacity) := by simpa using! hx
            refine .inr (.inl ⟨hne, datagram, ?_, rfl⟩)
            refine ((air_step hst i).trans (air_run hrun i)).subset ?_
            exact List.mem_of_getElem? hk
          · cases hx
        | foreign address j' datagram =>
          simp only [Event.brings] at hx
          split_ifs at hx with hj
          · subst hj
            obtain rfl := List.mem_singleton.mp hx
            exact .inr (.inr ⟨datagram, List.mem_cons_self, rfl⟩)
          · cases hx
        | _ => cases hx
    · exact .inr (.inl hx)
    · exact .inr (.inr ⟨datagram, List.mem_cons_of_mem _ hmem, hx⟩)

/-- What `j` has got from `i`. -/
def heard (g : Group α) (i j : α) : List Bytes :=
  ((g j).recv.arrived.filter fun x => x.1 = i).map Prod.snd

theorem heard_brings (h : step p g e = some g') (hforeign : ∀ datagram, e ≠ .foreign i j datagram) :
    ((e.brings (fun i => (g i).air) j).filter fun x => x.1 = i).map Prod.snd =
      ((e.arrival i j).bind fun k => (g i).air[k]?).toList.map (List.take capacity) := by
  cases e with
  | arrive i' j' k =>
    obtain ⟨-, datagram, hk⟩ := arrival_step h
    simp only [Event.brings, Event.arrival, hk]
    by_cases hj : j' = j
    · by_cases hi : i' = i
      · simp [hi ▸ hk, hi, hj]
      · simp [hi, hj]
    · simp [hj]
  | foreign address j' datagram =>
    simp only [Event.brings, Event.arrival]
    by_cases hj : j' = j
    · have hne : address ≠ i := fun heq => hforeign datagram (by rw [heq, hj])
      simp [hj, hne]
    · simp [hj]
  | _ => rfl

/-- If nobody else sends under the address of `i`, the datagrams that have arrived are those that the
network has brought. -/
theorem heard_run (h : Run (step p) Free g es g') (hforeign : ∀ datagram, Event.foreign i j datagram ∉ es) :
    g'.heard i j = g.heard i j ++
      ((es.filterMap (Event.arrival i j)).filterMap fun k => (g' i).air[k]?).map (List.take capacity) := by
  induction h with
  | nil => exact (List.append_nil _).symm
  | @cons g g₁ g' e es _ hst hrun ih =>
    rw [ih fun datagram hmem => hforeign datagram (List.mem_cons_of_mem _ hmem), heard,
      arrived_step hst, List.filter_append, List.map_append, ← heard, List.append_assoc]
    congr 1
    rw [heard_brings hst fun datagram heq => hforeign datagram (heq ▸ List.mem_cons_self),
      List.filterMap_cons]
    cases hk : e.arrival i j with
    | none => rfl
    | some k =>
      obtain ⟨datagram, hdatagram⟩ : ∃ datagram, (g i).air[k]? = some datagram := by
        cases e with
        | arrive i' j' k' =>
          simp only [Event.arrival] at hk
          split_ifs at hk with hsame
          cases hk
          rw [← hsame.1]
          exact (arrival_step hst).2
        | _ => cases hk
      obtain ⟨more, hmore⟩ := (air_step hst i).trans (air_run hrun i)
      have hstays : (g' i).air[k]? = some datagram := by
        rw [← hmore, List.getElem?_append_left (List.getElem?_eq_some_iff.mp hdatagram).1, hdatagram]
      simp [hdatagram, hstays]

theorem filter_opened (p : Protocol) (i : α) (l : List (α × Bytes)) :
    ((l.filterMap p.opened).filter fun x => x.1 = i).map Prod.snd =
      ((l.filter fun x => x.1 = i).map Prod.snd).filterMap p.content := by
  induction l with
  | nil => rfl
  | cons x l ih =>
    rw [List.filterMap_cons, List.filter_cons]
    cases hx : p.content x.2 with
    | none =>
      have hopened : p.opened x = none := by rw [Protocol.opened, hx]; rfl
      rw [hopened]
      split_ifs
      · rw [List.map_cons, List.filterMap_cons, hx]
        exact ih
      · exact ih
    | some data =>
      have hopened : p.opened x = some (x.1, data) := by rw [Protocol.opened, hx]; rfl
      rw [hopened]
      by_cases hi : x.1 = i
      · simpa [hi, hx] using ih
      · simpa [hi] using ih

theorem content_packets (p : Protocol) (i : α) (es : List (Event α)) :
    ((es.filterMap (Event.packet p i)).map (List.take capacity)).filterMap p.content =
      es.filterMap (Event.taken p i) := by
  rw [List.filterMap_map, List.filterMap_filterMap]
  congr 1
  funext e
  cases e with
  | sendData j data =>
    by_cases hj : j = i
    · cases hpacket : p.packetMessage data with
      | none => simp [Event.packet, Event.taken, hj, hpacket]
      | some packet => simp [Event.packet, Event.taken, hj, hpacket, Protocol.content_packet hpacket]
    · simp [Event.packet, Event.taken, hj]
  | _ => rfl

/-- What has gone out is accepted packets in their order. -/
theorem air_le (h : Run (step p) Free (initial receives) es g) (i : α) :
    (g i).air.Sublist (es.filterMap (Event.packet p i)) := by
  have hinv := inv_run h i
  obtain ⟨l, hsub, heq, -⟩ := accepted_run h i
  have hair : (g i).air <+: (g i).send.accepted := by
    refine List.IsPrefix.trans ?_ hinv.flow.emitted
    rw [hinv.air]
    refine (List.prefix_append_right_inj _).mpr ?_
    split_ifs
    · exact List.prefix_rfl
    · exact List.nil_prefix
  rw [heq] at hair
  exact hair.sublist.trans hsub

theorem handed_all (h : Run (step p) Free (initial receives) es g) (hrun : (g j).send.running = true)
    (hleft : (g j).recv.handler.left = []) (hlist : (g j).recv.recvDataList = []) :
    (g j).recv.handed = (g j).recv.arrived.filterMap p.opened := by
  rw [(inv_run h j).handing.whole hrun, hleft, hlist]
  exact (List.append_nil _).symm

/-- What a receiver is handed was given to `send_data` at the host it is said to come from, or is what
a stranger has put into the envelope; and of what has come to a helper that runs and waits for more,
everything in an envelope has been handed on, in the order of arrival. -/
theorem group_handed (h : Run (step p) Free (initial receives) es g) (j : α) :
    (∀ x ∈ (g j).recv.handed,
      (x.1 ≠ j ∧ Event.sendData x.1 x.2 ∈ es) ∨
        ∃ datagram, Event.foreign x.1 j datagram ∈ es ∧
          p.unpackMessage (datagram.take 1472) = .ok (some x.2)) ∧
    ((g j).send.running = true → (g j).recv.handler.left = [] → (g j).recv.recvDataList = [] →
      (g j).recv.handed = (g j).recv.arrived.filterMap p.opened) := by
  have hhanding := (inv_run h j).handing
  refine ⟨fun x hx => ?_, handed_all h⟩
  obtain ⟨y, hy, hopened⟩ := List.mem_filterMap.mp (hhanding.order.subset hx)
  obtain ⟨data, hdata, rfl⟩ := Option.map_eq_some_iff.mp hopened
  obtain hnew | ⟨hne, datagram, hair, hmessage⟩ | ⟨datagram, hmem, hmessage⟩ := arrived_run h j y hy
  · cases hnew
  · obtain ⟨e, he, hpacket⟩ := List.mem_filterMap.mp ((air_le h y.1).subset hair)
    cases e with
    | sendData i sent =>
      simp only [Event.packet] at hpacket
      split_ifs at hpacket with hi
      rw [hmessage, Protocol.content_packet hpacket] at hdata
      obtain rfl := Option.some.inj hdata
      exact .inl ⟨hne, hi ▸ he⟩
    | _ => cases hpacket
  · rw [hmessage] at hdata
    exact .inr ⟨datagram, hmem, Protocol.content_eq_some.mp hdata⟩

/-- One helper sends twice, the first time with an error, and the other is handed both, one of them
repeated by the network, and what a stranger has sent. -/
def repeated : List (Event Bool) :=
  [.sendData false [65], .sendData false [66], .runPosted false, .runPosted false, .sent false true,
    .emit false, .sent false false, .handleData true, .arrive false true 0, .emit false,
    .sent false false, .arrive false true 0, .foreign true true [60, 67, 62], .arrive false true 1,
    .foreign false true [1, 2], .handleData true, .handleData true, .handleData true,
    .handleData true, .handleData true, .handleData true, .handleData true]

theorem group_handed_repeated : ∃ g : Group Bool,
    Run (step ⟨[60], [62]⟩) Free (initial fun i => i) repeated g ∧
      (g true).recv.handed = [(false, [65]), (false, [65]), (true, [67]), (false, [66])] ∧
      (g true).recv.handed = (g true).recv.arrived.filterMap (Protocol.opened ⟨[60], [62]⟩) := by
  have h := run_exec (step ⟨[60], [62]⟩) Free (initial fun i => i) repeated (by decide)
  exact ⟨_, h, by decide, (group_handed h true).2 (by decide) (by decide) (by decide)⟩

/-- If the network keeps the datagrams from `i` to `j` in order and repeats none, and no stranger uses
the address of `i`, then what `j` is handed from `i` are data that `i` has sent, in their order and each
at most once. -/
theorem group_in_order (h : Run (step p) Free (initial receives) es g) (i j : α)
    (hnet : (es.filterMap (Event.arrival i j)).Pairwise (· < ·))
    (hforeign : ∀ datagram, Event.foreign i j datagram ∉ es) :
    (((g j).recv.handed.filter fun x => x.1 = i).map Prod.snd).Sublist
      (es.filterMap (Event.taken p i)) := by
  have hheard : (heard g i j).Sublist ((g i).air.map (List.take capacity)) := by
    rw [heard_run h hforeign]
    exact (Index.filterMap_getElem?_sublist hnet).map _
  have horder := (((inv_run h j).handing.order.sublist.filter fun x => x.1 = i).map Prod.snd)
  rw [filter_opened] at horder
  have hsent := ((hheard.trans ((air_le h i).map _)).filterMap p.content)
  rw [content_packets] at hsent
  exact horder.trans hsent

/-- Two datagrams, of which the network brings those of `ks`. -/
def inTurn (ks : List Nat) : List (Event Bool) :=
  [.sendData false [65], .sendData false [66], .runPosted false, .runPosted false, .emit false,
    .sent false false, .emit false, .sent false false] ++ ks.map (.arrive false true) ++
    [.handleData true, .handleData true, .handleData true, .handleData true]

theorem group_in_order_lost : ∃ g : Group Bool,
    Run (step ⟨[60], [62]⟩) Free (initial fun i => i) (inTurn [1]) g ∧
      (g true).recv.handed = [(false, [66])] ∧
      (((g true).recv.handed.filter fun x => x.1 = false).map Prod.snd).Sublist
        ((inTurn [1]).filterMap (Event.taken ⟨[60], [62]⟩ false)) := by
  have h := run_exec (step ⟨[60], [62]⟩) Free (initial fun i => i) (inTurn [1]) (by decide)
  refine ⟨_, h, by decide, group_in_order h false true (by decide) fun datagram hmem => ?_⟩
  simp [inTurn] at hmem

/-- On a network that loses nothing either, a receiver that waits for more has been handed everything
that a sender with nothing left to send has taken. -/
theorem group_complete (h : Run (step p) Free (initial receives) es g) (i j : α)
    (hnet : es.filterMap (Event.arrival i j) = List.range (g i).air.length)
    (hforeign : ∀ datagram, Event.foreign i j datagram ∉ es)
    (hi : (g i).send.running = true) (hposted : (g i).send.posted = [])
    (hlist : (g i).send.sendDataList = []) (hj : (g j).send.running = true)
    (hleft : (g j).recv.handler.left = []) (hqueue : (g j).recv.recvDataList = []) :
    ((g j).recv.handed.filter fun x => x.1 = i).map Prod.snd = es.filterMap (Event.taken p i) := by
  have hserving := (inv_run h i).flow.serving hi
  have hsending : (g i).send.sending = [] := by rw [hserving.one, hlist, List.take_nil]
  have haccepted : (g i).send.accepted = es.filterMap (Event.packet p i) := by
    obtain ⟨l, -, heq, hall⟩ := accepted_run h i
    rw [heq, (hall hi).2]
    rfl
  have hair : (g i).air = es.filterMap (Event.packet p i) := by
    rw [← haccepted, ← hserving.accepted, ← hserving.listed, hposted, hlist, (inv_run h i).air,
      hsending]
    simp
  have hheard : heard g i j = (g i).air.map (List.take capacity) := by
    rw [heard_run h hforeign, hnet, Index.filterMap_getElem?_range]
    rfl
  rw [handed_all h hj hleft hqueue, filter_opened]
  rw [← content_packets, ← hair, ← hheard, heard]

theorem group_complete_both : ∃ g : Group Bool,
    Run (step ⟨[60], [62]⟩) Free (initial fun i => i) (inTurn [0, 1]) g ∧
      ((g true).recv.handed.filter fun x => x.1 = false).map Prod.snd =
        (inTurn [0, 1]).filterMap (Event.taken ⟨[60], [62]⟩ false) := by
  have h := run_exec (step ⟨[60], [62]⟩) Free (initial fun i => i) (inTurn [0, 1]) (by decide)
  refine ⟨_, h, group_complete h false true (by decide) (fun datagram hmem => ?_) (by decide)
    (by decide) (by decide) (by decide) (by decide) (by decide)⟩
  simp [inTurn] at hmem

end Group

end NetworkUtility.MulticastHelper
