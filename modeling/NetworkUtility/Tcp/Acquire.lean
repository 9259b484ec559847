import NetworkUtility.Lib.InetAddress
import NetworkUtility.Tcp.ForwardRequest

/-! `acquire_local_forward_port` with its two readers of the target host: `inet_addr`, which guards, and
`make_address_v4`, which throws. -/
namespace NetworkUtility.Tcp

open InetAddress

/-- `INADDR_NONE`. -/
def inaddrNone : UInt32 := 0xffffffff

/-- `inet_addr` on the text. -/
def inetAddrText (o : ByteOrder) (host : Bytes) : UInt32 :=
  match inetAton host with
  | some address => inetAddr o (UInt32.ofNat address)
  | none => inaddrNone

/-- How the system answers `TcpForwardAcceptor::listen`; the port is zero if `local_endpoint` fails. -/
structure Listening where
  opens : Bool
  binds : Bool
  listens : Bool
  port : UInt16
  deriving DecidableEq, Repr

/-- `start`: the errors of `open` and `bind` are returned, that of `listen` is thrown. -/
def Listening.start (l : Listening) : Option Bool :=
  if l.opens then
    if l.binds then
      if l.listens then some (l.port != 0) else none
    else some false
  else some false

/-- `m_target_endpoint`, `m_message` and `m_listen_port` of an acceptor. -/
structure ForwardAcceptor where
  targetAddress : Nat
  targetPort : UInt16
  message : Bytes
  listenPort : UInt16
  deriving DecidableEq, Repr

/-- `m_acceptor_map`. -/
abbrev AcceptorMap := UInt16 → Option ForwardAcceptor

inductive Acquired
  | returned (listenPort : UInt16)
  | threw
  deriving DecidableEq, Repr

def acquireLocalForwardPort (o : ByteOrder) (mask : Mask) (l : Listening) (acceptors : AcceptorMap)
    (targetHost : Bytes) (targetPort : UInt16) : Acquired × AcceptorMap :=
  if targetHost = [] ∨ targetPort = 0 then (.returned 0, acceptors)
  else if inetAddrText o targetHost = inaddrNone then (.returned 0, acceptors)
  else
    match inetPton targetHost, l.start with
    | none, _ => (.threw, acceptors)
    | some _, none => (.threw, acceptors)
    | some _, some false => (.returned 0, acceptors)
    | some address, some true =>
      let message := makeForwardMessage o mask (inetAddrText o targetHost) (htons o targetPort)
      (.returned l.port,
        Function.update acceptors l.port (some ⟨address, targetPort, message, l.port⟩))

/-- The bytes of the address in a request, without the mask. -/
def requestAddress (message : Bytes) : Bytes :=
  ((message.drop 1).take 4).map (· ^^^ message.headD 0)

/-- The checks pass. -/
def Passes (o : ByteOrder) (targetHost : Bytes) (targetPort : UInt16) : Prop :=
  targetHost ≠ [] ∧ targetPort ≠ 0 ∧ inetAddrText o targetHost ≠ inaddrNone

/-- Nothing is thrown; zero is returned and the map is as it was, or the returned port is registered. -/
def Returns (acceptors : AcceptorMap) (result : Acquired × AcceptorMap) : Prop :=
  result = (.returned 0, acceptors) ∨
    ∃ port acceptor, port ≠ 0 ∧ acceptor.listenPort = port ∧
      result = (.returned port, Function.update acceptors port (some acceptor))

/-- The call returns, and the two readers agree about a host that passes the checks. -/
def ReadersAgree (o : ByteOrder) (mask : Mask) (l : Listening) (acceptors : AcceptorMap)
    (targetHost : Bytes) (targetPort : UInt16) : Prop :=
  Returns acceptors (acquireLocalForwardPort o mask l acceptors targetHost targetPort) ∧
  (Passes o targetHost targetPort → ∃ address, inetPton targetHost = some address ∧
    requestAddress (makeForwardMessage o mask (inetAddrText o targetHost) (htons o targetPort)) =
      ByteOrder.big.store 4 address)

variable {o : ByteOrder} {mask : Mask} {l : Listening} {acceptors : AcceptorMap} {host : Bytes}
  {port : UInt16} {address : Nat}

theorem requestAddress_makeForwardMessage (o : ByteOrder) (mask : Mask) (addr : UInt32)
    (port : UInt16) :
    requestAddress (makeForwardMessage o mask addr port) = o.store 4 addr.toNat := by
  have hunmask := unmask mask.val (o.store 4 addr.toNat ++ o.store 2 port.toNat)
  have hdata : requestAddress (makeForwardMessage o mask addr port) =
      (((o.store 4 addr.toNat ++ o.store 2 port.toNat).map (· ^^^ mask.val)).map
        (· ^^^ mask.val)).take 4 := List.map_take
  rw [hdata, hunmask, List.take_left' (length_store ..)]

/-- The message of a quad has the octets of the quad. -/
theorem requestAddress_of_inetPton (mask : Mask) (h : inetPton host = some address) :
    requestAddress (makeForwardMessage o mask (inetAddrText o host) (htons o port)) =
      ByteOrder.big.store 4 address := by
  obtain ⟨haton, hlt⟩ := inetAton_of_inetPton h
  have haddr : inetAddrText o host = inetAddr o (UInt32.ofNat address) := by
    rw [inetAddrText, haton]
  rw [requestAddress_makeForwardMessage, haddr, toNat_inetAddr, UInt32.toNat_ofNat_of_lt' hlt,
    store_networkOrder]

theorem start_eq_none : l.start = none ↔ l.opens = true ∧ l.binds = true ∧ l.listens = false := by
  unfold Listening.start
  split_ifs with hopens hbinds hlistens
  · simp [hlistens]
  · simpa [hopens, hbinds] using hlistens
  · simp [hbinds]
  · simp [hopens]

theorem port_of_start (h : l.start = some true) : l.port ≠ 0 := by
  unfold Listening.start at h
  split_ifs at h with hopens hbinds hlistens
  · simpa using h
  · simp at h
  · simp at h

theorem acquire_of_not_passes (h : ¬ Passes o host port) :
    acquireLocalForwardPort o mask l acceptors host port = (.returned 0, acceptors) := by
  unfold acquireLocalForwardPort
  split_ifs with hempty hnone
  · rfl
  · rfl
  · exact absurd ⟨(not_or.mp hempty).1, (not_or.mp hempty).2, hnone⟩ h

/-- Behind the checks both the second reader and `listen` throw. -/
theorem returns_iff (h : Passes o host port) :
    Returns acceptors (acquireLocalForwardPort o mask l acceptors host port) ↔
      (inetPton host).isSome ∧ l.start ≠ none := by
  unfold acquireLocalForwardPort
  rw [if_neg (not_or.mpr ⟨h.1, h.2.1⟩), if_neg h.2.2]
  have hthrew : ¬ Returns acceptors (.threw, acceptors) := by
    rintro (heq | ⟨port, acceptor, -, -, heq⟩)
    · exact absurd (congrArg Prod.fst heq) nofun
    · exact absurd (congrArg Prod.fst heq) nofun
  cases hquad : inetPton host with
  | none => exact iff_of_false hthrew (by simp)
  | some address =>
    cases hstart : l.start with
    | none => exact iff_of_false hthrew (by simp)
    | some started =>
      refine iff_of_true ?_ (by simp)
      cases started with
      | false => exact .inl rfl
      | true => exact .inr ⟨l.port, _, port_of_start hstart, rfl, rfl⟩

/-- The readers agree when the checks refuse the host, or when it is a dotted quad and the acceptor can
listen. -/
theorem readersAgree_iff (o : ByteOrder) (mask : Mask) (l : Listening) (acceptors : AcceptorMap)
    (host : Bytes) (port : UInt16) :
    ReadersAgree o mask l acceptors host port ↔
      ¬ Passes o host port ∨ (inetPton host).isSome ∧
        ¬ (l.opens = true ∧ l.binds = true ∧ l.listens = false) := by
  unfold ReadersAgree
  rw [← start_eq_none]
  by_cases hpasses : Passes o host port
  · rw [returns_iff hpasses]
    constructor
    · intro h
      exact .inr h.1
    · intro h
      have h := h.resolve_left (not_not.mpr hpasses)
      obtain ⟨address, haddress⟩ := Option.isSome_iff_exists.mp h.1
      exact ⟨h, fun _ => ⟨address, haddress, requestAddress_of_inetPton mask haddress⟩⟩
  · refine iff_of_true ⟨?_, fun h => absurd h hpasses⟩ (.inl hpasses)
    exact .inl (acquire_of_not_passes hpasses)

/-- `127.1` passes the checks and throws. -/
theorem shorthand_throws : ¬ ∀ host port, ReadersAgree .little ⟨1, by decide, by decide⟩
    ⟨true, true, true, 40000⟩ (fun _ => none) host port := by
  intro h
  obtain ⟨hreturns, -⟩ := h [49, 50, 55, 46, 49] 80
  have hthrew : (acquireLocalForwardPort .little ⟨1, by decide, by decide⟩
      ⟨true, true, true, 40000⟩ (fun _ => none) [49, 50, 55, 46, 49] 80).1 = .threw := by decide
  rcases hreturns with heq | ⟨port, acceptor, -, -, heq⟩
  · rw [heq] at hthrew
    cases hthrew
  · rw [heq] at hthrew
    cases hthrew

end NetworkUtility.Tcp
