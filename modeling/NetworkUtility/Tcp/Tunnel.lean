import Mathlib.Data.List.Infix
import NetworkUtility.Lib.Machine
import NetworkUtility.Tcp.Forward
import NetworkUtility.Tcp.Gateway

/-! The whole way from an application through `TcpForwardAcceptor` and `TcpGatewayServerImpl` to a
target and back: two processes, each with a handshake and a session, and three connections. -/
namespace NetworkUtility.Tcp

open Relay Machine

structure Tunnel where
  application : Socket UInt8
  forward : Forward
  gateway : Gateway
  target : Socket UInt8
  deriving DecidableEq, Repr

/-- Either end writes and reads as it likes. -/
inductive Tunnel.Action
  | applicationSend (data : Bytes)
  | applicationRecv (data : Bytes)
  | forward (progress : Progress)
  | gateway (progress : Progress)
  | targetSend (data : Bytes)
  | targetRecv (data : Bytes)
  deriving DecidableEq, Repr

namespace Tunnel

def initial (message : Bytes) : Tunnel := ⟨.fresh, .initial message, .initial, .fresh⟩

/-- What is read is what the other end of the connection has written next; nothing else is asked of
the segmentation. -/
def step (o : ByteOrder) (resolve : Resolver) (t : Tunnel) : Action → Option Tunnel
  | .applicationSend data => some { t with application := t.application.send data }
  | .applicationRecv data =>
    if t.application.received ++ data <+: t.forward.hostSocket.sent then
      some { t with application := t.application.receive data }
    else none
  | .forward p =>
    if t.forward.hostSocket.received ++ p.localData <+: t.application.sent ∧
        t.forward.peerSocket.received ++ p.remoteData <+: t.gateway.peerSocket.sent then
      (t.forward.step p).map fun forward => { t with forward := forward }
    else none
  | .gateway p =>
    if t.gateway.hostSocket.received ++ p.localData <+: t.target.sent ∧
        t.gateway.peerSocket.received ++ p.remoteData <+: t.forward.peerSocket.sent then
      (t.gateway.step o resolve p).map fun gateway => { t with gateway := gateway }
    else none
  | .targetSend data => some { t with target := t.target.send data }
  | .targetRecv data =>
    if t.target.received ++ data <+: t.gateway.hostSocket.sent then
      some { t with target := t.target.receive data }
    else none

/-- An operation of one of the two processes fails, or its read comes to the end of the stream. -/
def Action.isError : Action → Bool
  | .forward p => p.op = .error
  | .gateway p => p.op = .error
  | _ => false

/-- What is on its way to the target: in the three connections and in the two loops. The request is
not a part of it. -/
def upward (t : Tunnel) : Bytes :=
  inFlight t.gateway.hostSocket t.target ++ t.gateway.session.remoteRecv.buffer ++
    t.forward.peerSocket.sent.drop (max requestSize t.gateway.peerSocket.received.length) ++
    t.forward.session.localRecv.buffer ++ inFlight t.application t.forward.hostSocket

/-- What is on its way to the application. The result is not a part of it. -/
def downward (t : Tunnel) : Bytes :=
  inFlight t.forward.hostSocket t.application ++ t.forward.session.remoteRecv.buffer ++
    t.gateway.peerSocket.sent.drop (max 1 t.forward.peerSocket.received.length) ++
    t.gateway.session.localRecv.buffer ++ inFlight t.target t.gateway.hostSocket

/-- Every end has received a prefix of what the other end has sent. -/
structure Wired (t : Tunnel) : Prop where
  application : t.application.received <+: t.forward.hostSocket.sent
  forwardHost : t.forward.hostSocket.received <+: t.application.sent
  forwardPeer : t.forward.peerSocket.received <+: t.gateway.peerSocket.sent
  gatewayPeer : t.gateway.peerSocket.received <+: t.forward.peerSocket.sent
  gatewayHost : t.gateway.hostSocket.received <+: t.target.sent
  target : t.target.received <+: t.gateway.hostSocket.sent

structure Account (o : ByteOrder) (resolve : Resolver) (message : Bytes) (t : Tunnel) : Prop where
  wired : t.Wired
  forward : t.forward.Account
  message : t.forward.message = message
  gateway : t.gateway.Account o resolve

variable {o : ByteOrder} {resolve : Resolver} {message : Bytes} {t t' : Tunnel} {a : Action}
  {as : List Action}

/-- The steps of `step`. Those of the two processes are steps of `Forward` and `Gateway`. -/
inductive Effect (o : ByteOrder) (resolve : Resolver) (t : Tunnel) : Action → Tunnel → Prop
  | applicationSend (data : Bytes) : Effect o resolve t (.applicationSend data)
      { t with application := t.application.send data }
  | applicationRecv (data : Bytes) :
      t.application.received ++ data <+: t.forward.hostSocket.sent →
      Effect o resolve t (.applicationRecv data)
        { t with application := t.application.receive data }
  | forward (p : Progress) (forward : Forward) :
      t.forward.hostSocket.received ++ p.localData <+: t.application.sent →
      t.forward.peerSocket.received ++ p.remoteData <+: t.gateway.peerSocket.sent →
      t.forward.step p = some forward →
      Effect o resolve t (.forward p) { t with forward := forward }
  | gateway (p : Progress) (gateway : Gateway) :
      t.gateway.hostSocket.received ++ p.localData <+: t.target.sent →
      t.gateway.peerSocket.received ++ p.remoteData <+: t.forward.peerSocket.sent →
      t.gateway.step o resolve p = some gateway →
      Effect o resolve t (.gateway p) { t with gateway := gateway }
  | targetSend (data : Bytes) : Effect o resolve t (.targetSend data)
      { t with target := t.target.send data }
  | targetRecv (data : Bytes) : t.target.received ++ data <+: t.gateway.hostSocket.sent →
      Effect o resolve t (.targetRecv data) { t with target := t.target.receive data }

theorem effect_of_step (h : t.step o resolve a = some t') : Effect o resolve t a t' := by
  cases a with
  | applicationSend data =>
    cases h
    exact .applicationSend data
  | applicationRecv data =>
    simp only [step, Option.ite_none_right_eq_some, Option.some.injEq] at h
    obtain ⟨hnext, rfl⟩ := h
    exact .applicationRecv data hnext
  | forward p =>
    simp only [step, Option.ite_none_right_eq_some, Option.map_eq_some_iff] at h
    obtain ⟨⟨hlocal, hremote⟩, forward, hstep, rfl⟩ := h
    exact .forward p forward hlocal hremote hstep
  | gateway p =>
    simp only [step, Option.ite_none_right_eq_some, Option.map_eq_some_iff] at h
    obtain ⟨⟨hlocal, hremote⟩, gateway, hstep, rfl⟩ := h
    exact .gateway p gateway hlocal hremote hstep
  | targetSend data =>
    cases h
    exact .targetSend data
  | targetRecv data =>
    simp only [step, Option.ite_none_right_eq_some, Option.some.injEq] at h
    obtain ⟨hnext, rfl⟩ := h
    exact .targetRecv data hnext

theorem account_initial : Account o resolve message (initial message) := by
  refine ⟨?_, Forward.account_initial, rfl, Gateway.account_initial⟩
  exact ⟨List.prefix_rfl, List.prefix_rfl, List.prefix_rfl, List.prefix_rfl, List.prefix_rfl,
    List.prefix_rfl⟩

theorem wired_step (hw : t.Wired) (h : t.step o resolve a = some t') : t'.Wired := by
  obtain ⟨happ, hfhost, hfpeer, hgpeer, hghost, htarget⟩ := hw
  cases effect_of_step h with
  | applicationSend data =>
    exact ⟨happ, hfhost.trans (List.prefix_append _ _), hfpeer, hgpeer, hghost, htarget⟩
  | applicationRecv data hnext => exact ⟨hnext, hfhost, hfpeer, hgpeer, hghost, htarget⟩
  | forward p forward hlocal hremote hstep =>
    obtain ⟨hsentHost, hsentPeer, hhost, hpeer⟩ := Forward.step_sockets hstep
    rw [← hhost] at hlocal
    rw [← hpeer] at hremote
    exact ⟨happ.trans hsentHost, hlocal, hremote, hgpeer.trans hsentPeer, hghost, htarget⟩
  | gateway p gateway hlocal hremote hstep =>
    obtain ⟨hsentHost, hsentPeer, hhost, hpeer⟩ := Gateway.step_sockets hstep
    rw [← hhost] at hlocal
    rw [← hpeer] at hremote
    exact ⟨happ, hfhost, hfpeer.trans hsentPeer, hremote, hlocal, htarget.trans hsentHost⟩
  | targetSend data =>
    exact ⟨happ, hfhost, hfpeer, hgpeer, hghost.trans (List.prefix_append _ _), htarget⟩
  | targetRecv data hnext => exact ⟨happ, hfhost, hfpeer, hgpeer, hghost, hnext⟩

theorem account_step (ht : Account o resolve message t) (h : t.step o resolve a = some t') :
    Account o resolve message t' := by
  have hwired := wired_step ht.wired h
  cases effect_of_step h with
  | forward p forward _ _ hstep =>
    have hmessage := (Forward.message_step hstep).trans ht.message
    exact ⟨hwired, Forward.account_step ht.forward hstep, hmessage, ht.gateway⟩
  | gateway p gateway _ _ hstep =>
    exact ⟨hwired, ht.forward, ht.message, Gateway.account_step ht.gateway hstep⟩
  | applicationSend | applicationRecv | targetSend | targetRecv =>
    exact ⟨hwired, ht.forward, ht.message, ht.gateway⟩

theorem account_run {guard : Tunnel → Action → Prop}
    (h : Run (step o resolve) guard (initial message) as t) : Account o resolve message t :=
  h.invariant _ (fun _ _ _ ht _ hstep => account_step ht hstep) account_initial

/-- Without an error neither session is closed. -/
theorem open_run (h : Run (step o resolve) Free (initial message) as t)
    (hall : ∀ a ∈ as, a.isError = false) :
    t.forward.session.closed = false ∧ t.gateway.session.closed = false := by
  refine (h.restrict hall).invariant
    (fun t => t.forward.session.closed = false ∧ t.gateway.session.closed = false) ?_ ⟨rfl, rfl⟩
  intro s a u hopen hno hstep
  cases effect_of_step hstep with
  | forward p forward _ _ hforward =>
    have hop : p.op ≠ .error := of_decide_eq_false hno
    exact ⟨(Forward.closed_step hop hforward).trans hopen.1, hopen.2⟩
  | gateway p gateway _ _ hgateway =>
    have hop : p.op ≠ .error := of_decide_eq_false hno
    exact ⟨hopen.1, (Gateway.closed_step hop hgateway).trans hopen.2⟩
  | applicationSend | applicationRecv | targetSend | targetRecv => exact hopen

/-! ### The two streams -/

section Streams

variable (ht : Account o resolve message t) (hlen : message.length = requestSize)
  (hword : message ≠ connectWord)

include ht hlen hword

theorem gateway_opened :
    t.gateway.session.Opened requestSize (binaryAnswer o message).response := by
  have horder := (Forward.opened_of_account ht.forward).order.2
  rw [ht.message] at horder
  apply Gateway.opened_of_account ht.gateway _ hlen hword
  have htake : t.gateway.peerSocket.received.take requestSize <+: t.gateway.peerSocket.received :=
    List.take_prefix _ _
  apply List.prefix_of_prefix_length_le (htake.trans (ht.wired.gatewayPeer.trans horder))
    (List.prefix_append _ _)
  rw [List.length_take, hlen]
  exact Nat.min_le_left _ _

/-- Up to the target: the request is written first and is taken out again by the handshake. -/
theorem upward_order : t.target.received <+: t.application.sent ∧
    t.forward.peerSocket.sent <+: message ++ t.forward.hostSocket.received ∧
    t.gateway.hostSocket.sent <+: t.gateway.peerSocket.received.drop requestSize := by
  have hforward := (Forward.opened_of_account ht.forward).order.2
  rw [ht.message] at hforward
  have hgateway := (gateway_opened ht hlen hword).order.1
  refine ⟨?_, hforward, hgateway⟩
  have hpeer : t.gateway.peerSocket.received.drop requestSize <+: t.forward.hostSocket.received := by
    have hdrop := List.IsPrefix.drop (ht.wired.gatewayPeer.trans hforward) requestSize
    rwa [← hlen, List.drop_left, hlen] at hdrop
  exact ht.wired.target.trans (hgateway.trans (hpeer.trans ht.wired.forwardHost))

/-- Down to the application: the same with the result. -/
theorem downward_order : t.application.received <+: t.target.sent ∧
    t.gateway.peerSocket.sent <+: (binaryAnswer o message).response ++ t.gateway.hostSocket.received ∧
    t.forward.hostSocket.sent <+: t.forward.peerSocket.received.drop 1 := by
  have hgateway := (gateway_opened ht hlen hword).order.2
  have hforward := (Forward.opened_of_account ht.forward).order.1
  refine ⟨?_, hgateway, hforward⟩
  have hpeer : t.forward.peerSocket.received.drop 1 <+: t.gateway.hostSocket.received := by
    have hdrop := List.IsPrefix.drop (ht.wired.forwardPeer.trans hgateway) 1
    rwa [← length_binaryAnswer o message, List.drop_left] at hdrop
  exact ht.wired.application.trans (hforward.trans (hpeer.trans ht.wired.gatewayHost))

theorem upward_whole (hforward : t.forward.session.closed = false)
    (hgateway : t.gateway.session.closed = false) :
    t.application.sent = t.target.received ++ t.upward := by
  have htaken := ((Forward.opened_of_account ht.forward).whole hforward).2
  have hgiven := ((gateway_opened ht hlen hword).whole hgateway).1
  have harrived := drop_arrived ht.wired.gatewayPeer requestSize
  rw [ht.message, hlen] at htaken
  have happlication := received_append_inFlight ht.wired.forwardHost
  have htarget := received_append_inFlight ht.wired.target
  calc t.application.sent
      = t.forward.peerSocket.sent.drop requestSize ++ t.forward.session.localRecv.buffer ++
          inFlight t.application t.forward.hostSocket := by rw [← htaken, happlication]
    _ = t.target.received ++ t.upward := by
      rw [← harrived, hgiven, ← htarget]
      simp only [upward, List.append_assoc]

theorem downward_whole (hforward : t.forward.session.closed = false)
    (hgateway : t.gateway.session.closed = false) :
    t.target.sent = t.application.received ++ t.downward := by
  have htaken := ((gateway_opened ht hlen hword).whole hgateway).2
  have hgiven := ((Forward.opened_of_account ht.forward).whole hforward).1
  have harrived := drop_arrived ht.wired.forwardPeer 1
  rw [length_binaryAnswer] at htaken
  have htarget := received_append_inFlight ht.wired.gatewayHost
  have happlication := received_append_inFlight ht.wired.application
  calc t.target.sent
      = t.gateway.peerSocket.sent.drop 1 ++ t.gateway.session.localRecv.buffer ++
          inFlight t.target t.gateway.hostSocket := by rw [← htaken, htarget]
    _ = t.application.received ++ t.downward := by
      rw [← harrived, hgiven, ← happlication]
      simp only [downward, List.append_assoc]

end Streams

/-- The request and the result stay inside the tunnel, in front of what is relayed; the two streams
are relayed in order, and as long as there is no error every byte that one end has sent is at the
other end or on its way. -/
theorem transparent (o o' : ByteOrder) (resolve : Resolver) (mask : Mask) (addr : UInt32)
    (port : UInt16) {as : List Action} {t : Tunnel}
    (h : Run (step o' resolve) Free (initial (makeForwardMessage o mask addr port)) as t) :
    t.target.received <+: t.application.sent ∧ t.application.received <+: t.target.sent ∧
      t.forward.peerSocket.sent <+:
        makeForwardMessage o mask addr port ++ t.forward.hostSocket.received ∧
      t.gateway.hostSocket.sent <+: t.gateway.peerSocket.received.drop requestSize ∧
      t.gateway.peerSocket.sent <+:
        (binaryAnswer o' (makeForwardMessage o mask addr port)).response ++
          t.gateway.hostSocket.received ∧
      t.forward.hostSocket.sent <+: t.forward.peerSocket.received.drop 1 ∧
      ((∀ a ∈ as, a.isError = false) →
        t.application.sent = t.target.received ++ t.upward ∧
        t.target.sent = t.application.received ++ t.downward) := by
  have ht := account_run h
  have hlen : (makeForwardMessage o mask addr port).length = requestSize :=
    length_makeForwardMessage
  have hword : makeForwardMessage o mask addr port ≠ connectWord :=
    makeForwardMessage_ne_connectWord
  obtain ⟨hup, hrequest, htaken⟩ := upward_order ht hlen hword
  obtain ⟨hdown, hresult, hleft⟩ := downward_order ht hlen hword
  refine ⟨hup, hdown, hrequest, htaken, hresult, hleft, fun hall => ?_⟩
  obtain ⟨hforward, hgateway⟩ := open_run h hall
  exact ⟨upward_whole ht hlen hword hforward hgateway,
    downward_whole ht hlen hword hforward hgateway⟩

/-- Two bytes are sent before the acceptor has even accepted; the first of them and a byte of the
target arrive. -/
theorem transparent_example : ∃ as t,
    Run (step .big fun _ _ => none) Free
      (initial (makeForwardMessage .little ⟨3, by decide, by decide⟩ 0x0100007f 0x5000)) as t ∧
    (t.application.sent = [65, 66] ∧ t.target.received = [65] ∧ t.application.received = [90]) ∧
    t.application.sent = t.target.received ++ t.upward ∧
    t.target.sent = t.application.received ++ t.downward :=
  have h := run_exec (step .big fun _ _ => none) Free
    (initial (makeForwardMessage .little ⟨3, by decide, by decide⟩ 0x0100007f 0x5000))
    [.applicationSend [65, 66],
      .forward (.handshake .ready), .forward (.handshake .run), .forward (.handshake .ready),
      .forward (.handshake .run), .forward (.handshake (.write 7)), .forward (.handshake .run),
      .gateway (.handshake .ready), .gateway (.handshake .run),
      .gateway (.handshake (.read [3, 124, 3])), .gateway (.handshake (.read [3, 2, 3, 83])),
      .gateway (.handshake .run), .gateway (.handshake (.write 1)), .gateway (.handshake .run),
      .forward (.handshake (.read [1])), .forward (.handshake .run),
      .forward (.relay true (.read [65, 66])), .forward (.relay true .run),
      .forward (.relay true (.write 2)), .gateway (.handshake .ready), .gateway (.handshake .run),
      .gateway (.relay false (.read [65])), .gateway (.relay false .run),
      .gateway (.relay false (.write 1)), .targetRecv [65], .targetSend [90],
      .gateway (.relay true (.read [90])), .gateway (.relay true .run),
      .gateway (.relay true (.write 1)), .forward (.relay false (.read [90])),
      .forward (.relay false .run), .forward (.relay false (.write 1)), .applicationRecv [90]]
    (by decide)
  ⟨_, _, h, by decide, (transparent .little .big _ ⟨3, by decide, by decide⟩ _ _ h).2.2.2.2.2.2
    (by decide)⟩

end Tunnel

end NetworkUtility.Tcp
