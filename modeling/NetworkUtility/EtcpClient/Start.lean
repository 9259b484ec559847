import NetworkUtility.EtcpClient.Init

/-! `EtcpClient::init` and `EtcpClientImpl::init` to their end, with what throws in them: `make_address`
on a string that is not an IP literal, and the constructor of `std::thread`. -/
namespace NetworkUtility.EtcpClient

inductive Exception
  | address
  | thread
  deriving DecidableEq, Repr

/-- How a call ends. -/
inductive Outcome
  | returned (value : Bool)
  | threw (exception : Exception)
  deriving DecidableEq, Repr

/-- The members of `EtcpClientImpl` that `init` and `exit` use; the endpoint is the one set last, and
the thread is joinable. -/
structure Impl (α : Type) where
  running : Bool
  closed : Bool
  request : Bytes
  endpoint : Option (α × UInt16)
  work : Bool
  thread : Bool
  deriving DecidableEq, Repr

namespace Impl

variable {α : Type}

def new : Impl α := ⟨false, true, [], none, false, false⟩

/-- `EtcpClientImpl::exit`, which joins the thread. -/
def exit (impl : Impl α) : Impl α :=
  if impl.running then { impl with running := false, work := false, thread := false, request := [] }
  else impl

/-- From `make_address` to the end of the `do` block. -/
def launch (makeAddress : Bytes → Option α) (spawns : Bool) (impl : Impl α) (host : Bytes)
    (port : UInt16) : Outcome × Impl α :=
  match makeAddress host with
  | none => (.threw .address, impl)
  | some address =>
    let impl := { impl with endpoint := some (address, port), work := true }
    if spawns then (.returned true, { impl with thread := true }) else (.threw .thread, impl)

/-- `EtcpClientImpl::init`. -/
def init (makeAddress : Bytes → Option α) (spawns : Bool) (impl : Impl α) (t : Target) :
    Outcome × Impl α :=
  let impl := { impl.exit with running := true, closed := true }
  if t.targetHost ≠ [] ∧ t.targetPort ≠ 0 then
    if t.gatewayHost ≠ [] ∧ t.gatewayPort ≠ 0 then
      { impl with request := connectRequest t.targetHost t.targetPort t.connectData }.launch
        makeAddress spawns t.gatewayHost t.gatewayPort
    else impl.launch makeAddress spawns t.targetHost t.targetPort
  else if t.gatewayHost ≠ [] ∧ t.gatewayPort ≠ 0 then
    impl.launch makeAddress spawns t.gatewayHost t.gatewayPort
  else (.returned false, impl.exit)

end Impl

/-- `m_impl`. -/
structure Client (α : Type) where
  impl : Option (Impl α)
  deriving DecidableEq, Repr

/-- The arguments of `EtcpClient::init` but the sink; a host may be a null pointer. -/
structure Arguments where
  targetHost : Option Bytes
  targetPort : UInt16
  gatewayHost : Option Bytes
  gatewayPort : UInt16
  connectData : Option Bytes
  deriving DecidableEq, Repr

/-- A host and a port count only together. -/
def Arguments.target (a : Arguments) : Target :=
  let target := a.targetHost.getD [] ≠ [] ∧ a.targetPort ≠ 0
  let gateway := a.gatewayHost.getD [] ≠ [] ∧ a.gatewayPort ≠ 0
  { targetHost := if target then a.targetHost.getD [] else []
    targetPort := if target then a.targetPort else 0
    gatewayHost := if gateway then a.gatewayHost.getD [] else []
    gatewayPort := if gateway then a.gatewayPort else 0
    connectData := a.connectData.getD [] }

namespace Client

variable {α : Type}

/-- `exit`: the object is deleted. -/
def exit (_ : Client α) : Client α := ⟨none⟩

/-- `EtcpClient::init`. An exception passes through it. -/
def init (makeAddress : Bytes → Option α) (spawns : Bool) (client : Client α) (a : Arguments) :
    Outcome × Client α :=
  let client := client.exit
  match Impl.new.init makeAddress spawns a.target with
  | (.returned true, impl) => (.returned true, { client with impl := some impl })
  | (.returned false, impl) => (.returned false, exit { client with impl := some impl })
  | (.threw exception, impl) => (.threw exception, { client with impl := some impl })

/-- The call returns true with a running io thread, or false with nothing left. -/
def Clean (result : Outcome × Client α) : Prop :=
  (result.1 = .returned true ∧
    ∃ impl ∈ result.2.impl, impl.running = true ∧ impl.work = true ∧ impl.thread = true) ∨
  (result.1 = .returned false ∧ result.2.impl = none)

end Client

/-- The address that is dialled: the gateway's if there is one. -/
def Arguments.dialled (a : Arguments) : Option (Bytes × UInt16) :=
  if a.gatewayHost.getD [] ≠ [] ∧ a.gatewayPort ≠ 0 then some (a.gatewayHost.getD [], a.gatewayPort)
  else if a.targetHost.getD [] ≠ [] ∧ a.targetPort ≠ 0 then some (a.targetHost.getD [], a.targetPort)
  else none

/-- Nothing is dialled, or the host is an IP literal and the thread starts. -/
def Starts {α : Type} (makeAddress : Bytes → Option α) (spawns : Bool) (a : Arguments) : Prop :=
  ∀ dialled ∈ a.dialled, (makeAddress dialled.1).isSome ∧ spawns = true

section

variable {α : Type} {makeAddress : Bytes → Option α} {spawns : Bool} {impl : Impl α} {t : Target}
  {a : Arguments} {host : Bytes} {port : UInt16}

/-- What `launch` does to the members, by whether it throws. -/
theorem launch_cases (makeAddress : Bytes → Option α) (spawns : Bool) (impl : Impl α) (host : Bytes)
    (port : UInt16) :
    (∃ address, makeAddress host = some address ∧ spawns = true ∧
      impl.launch makeAddress spawns host port =
        (.returned true, { impl with endpoint := some (address, port), work := true, thread := true })) ∨
    (¬ ((makeAddress host).isSome ∧ spawns = true) ∧
      ∃ exception left, impl.launch makeAddress spawns host port = (.threw exception, left) ∧
        left.running = impl.running ∧ left.thread = impl.thread) := by
  unfold Impl.launch
  cases makeAddress host with
  | none => exact .inr ⟨by simp, .address, impl, rfl, rfl, rfl⟩
  | some address =>
    cases spawns with
    | true => exact .inl ⟨address, rfl, rfl, rfl⟩
    | false => exact .inr ⟨by simp, .thread, _, rfl, rfl, rfl⟩

/-- Without a host `init` fails its check; with one it is launched there. -/
theorem init_cases (makeAddress : Bytes → Option α) (spawns : Bool) (a : Arguments) :
    (a.dialled = none ∧ ∃ left, Impl.new.init makeAddress spawns a.target = (.returned false, left)) ∨
    ∃ host port impl, a.dialled = some (host, port) ∧ impl.running = true ∧ impl.thread = false ∧
      Impl.new.init makeAddress spawns a.target = Impl.launch makeAddress spawns impl host port := by
  by_cases htarget : a.targetHost.getD [] ≠ [] ∧ a.targetPort ≠ 0
  · by_cases hgateway : a.gatewayHost.getD [] ≠ [] ∧ a.gatewayPort ≠ 0
    · let request := connectRequest (a.targetHost.getD []) a.targetPort (a.connectData.getD [])
      refine .inr ⟨a.gatewayHost.getD [], a.gatewayPort,
        { Impl.new with running := true, request := request }, if_pos hgateway, rfl, rfl, ?_⟩
      simp only [Impl.init, Arguments.target, if_pos htarget, if_pos hgateway]
      rfl
    · refine .inr ⟨a.targetHost.getD [], a.targetPort, { Impl.new with running := true }, ?_, rfl, rfl,
        ?_⟩
      · rw [Arguments.dialled, if_neg hgateway, if_pos htarget]
      · simp only [Impl.init, Arguments.target, if_pos htarget, if_neg hgateway]
        rfl
  · by_cases hgateway : a.gatewayHost.getD [] ≠ [] ∧ a.gatewayPort ≠ 0
    · refine .inr ⟨a.gatewayHost.getD [], a.gatewayPort, { Impl.new with running := true },
        if_pos hgateway, rfl, rfl, ?_⟩
      simp only [Impl.init, Arguments.target, if_neg htarget, if_pos hgateway]
      rfl
    · refine .inl ⟨?_, Impl.new, ?_⟩
      · rw [Arguments.dialled, if_neg hgateway, if_neg htarget]
      · simp only [Impl.init, Arguments.target, if_neg htarget, if_neg hgateway]
        rfl

theorem launch_returned {left : Impl α}
    (h : impl.launch makeAddress spawns host port = (.returned true, left)) :
    ∃ address, makeAddress host = some address ∧ left.endpoint = some (address, port) ∧
      left.request = impl.request := by
  rcases launch_cases makeAddress spawns impl host port with
    ⟨address, haddress, -, heq⟩ | ⟨-, exception, left', heq, -⟩
  · rw [heq] at h
    obtain rfl := (Prod.mk.inj h).2
    exact ⟨address, haddress, rfl, rfl⟩
  · rw [heq] at h
    cases h

theorem request_exit (h : impl.running = true ∨ impl.request = []) : impl.exit.request = [] := by
  unfold Impl.exit
  split
  · rfl
  · next hstopped => exact h.resolve_left hstopped

/-- When `init` returns true, what it has prepared is in the members. -/
theorem prepared_of_init {left : Impl α} (hclear : impl.running = true ∨ impl.request = [])
    (h : impl.init makeAddress spawns t = (.returned true, left)) :
    ∃ prepared, init makeAddress t = some prepared ∧ left.endpoint = some prepared.endpoint ∧
      left.request = prepared.request := by
  have hempty := request_exit hclear
  unfold Impl.init at h
  unfold init
  split_ifs at h ⊢ with htarget hgateway hgateway
  · obtain ⟨address, haddress, hend, hreq⟩ := launch_returned h
    exact ⟨_, by rw [haddress]; rfl, hend, hreq⟩
  · obtain ⟨address, haddress, hend, hreq⟩ := launch_returned h
    exact ⟨_, by rw [haddress]; rfl, hend, hreq.trans hempty⟩
  · obtain ⟨address, haddress, hend, hreq⟩ := launch_returned h
    exact ⟨_, by rw [haddress]; rfl, hend, hreq.trans hempty⟩
  · cases h

/-- `init` succeeds or leaves nothing behind just when nothing throws. -/
theorem clean_iff_starts (makeAddress : Bytes → Option α) (spawns : Bool) (client : Client α)
    (a : Arguments) :
    Client.Clean (client.init makeAddress spawns a) ↔ Starts makeAddress spawns a := by
  rcases init_cases makeAddress spawns a with
    ⟨hnone, left, hinit⟩ | ⟨host, port, impl, hdialled, hrunning, -, hinit⟩
  · simp only [Client.init, hinit]
    exact iff_of_true (.inr ⟨rfl, rfl⟩) (by simp [Starts, hnone])
  have hstarts : Starts makeAddress spawns a ↔ (makeAddress host).isSome ∧ spawns = true := by
    simp [Starts, hdialled]
  rw [hstarts]
  rcases launch_cases makeAddress spawns impl host port with
    ⟨address, haddress, hspawns, hlaunch⟩ | ⟨hthrows, exception, left, hlaunch, -⟩
  · simp only [Client.init, hinit, hlaunch]
    exact iff_of_true (.inl ⟨rfl, _, rfl, hrunning, rfl, rfl⟩) ⟨by simp [haddress], hspawns⟩
  · simp only [Client.init, hinit, hlaunch]
    refine iff_of_false (fun hclean => ?_) hthrows
    rcases hclean with ⟨hreturned, -⟩ | ⟨hreturned, -⟩
    · cases hreturned
    · cases hreturned

/-- An exception leaves an object behind that is running and has no thread. -/
theorem reachable_of_throw {exception : Exception} {client left : Client α}
    (h : client.init makeAddress spawns a = (.threw exception, left)) :
    ∃ impl ∈ left.impl, impl.running = true ∧ impl.thread = false := by
  rcases init_cases makeAddress spawns a with
    ⟨-, impl, hinit⟩ | ⟨host, port, impl, -, hrunning, hthread, hinit⟩
  · simp only [Client.init, hinit] at h
    cases h
  rcases launch_cases makeAddress spawns impl host port with
    ⟨address, -, -, hlaunch⟩ | ⟨-, thrown, left', hlaunch, hrun, hjoinable⟩
  · simp only [Client.init, hinit, hlaunch] at h
    cases h
  · simp only [Client.init, hinit, hlaunch] at h
    cases h
    exact ⟨left', rfl, hrun.trans hrunning, hjoinable.trans hthread⟩

end

/-- `make_address` throws on `"localhost"`. -/
theorem host_name_escapes : ¬ ∀ a, Client.Clean ((Client.mk none).init
    (fun host => if host = Tcp.ascii "127.0.0.1" then some 0x7f000001 else none) true a) := by
  intro h
  have hclean := h ⟨some (Tcp.ascii "localhost"), 80, none, 0, none⟩
  rcases hclean with ⟨hreturned, -⟩ | ⟨hreturned, -⟩
  · exact absurd hreturned (by decide)
  · exact absurd hreturned (by decide)

end NetworkUtility.EtcpClient
