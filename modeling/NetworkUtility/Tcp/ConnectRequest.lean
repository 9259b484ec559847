import NetworkUtility.EtcpClient.Init
import NetworkUtility.Lib.InetAddress
import NetworkUtility.Lib.Occurrences
import NetworkUtility.Lib.ScanLine
import NetworkUtility.Tcp.Gateway

/-! The CONNECT request that `EtcpClientImpl` builds, as `TcpGatewayServerImpl` reads it. -/
namespace NetworkUtility.Tcp

open EtcpClient (Target Prepared init connectRequest portText userData mem_portText portText_ne_nil
  decimal_portText)
open Scan Occurrences

variable {α : Type} {makeAddress : Bytes → Option α} {address : α} {t : Target}
  {prepared : Prepared α} {o : ByteOrder} {resolve : Resolver} {g : Gateway}
  {host data read digits : Bytes} {port : UInt16} {index : Nat} {hostEnd : Option Nat}

theorem ascii_connect : ascii "CONNECT " = connectWord ++ [32] := by decide

theorem ascii_colon : ascii ":" = [58] := by decide

theorem ascii_crlf : ascii "\r\n" = [13, 10] := by decide

/-- `"HTTP/1.0"`. -/
def version : Bytes := [72, 84, 84, 80, 47, 49, 46, 48]

theorem ascii_version : ascii " HTTP/1.0\r\n" = 32 :: (version ++ [13, 10]) := by decide

/-- `"user_data:"` without the colon. -/
def userDataWord : Bytes := [117, 115, 101, 114, 95, 100, 97, 116, 97]

theorem ascii_userData : ascii "user_data:" = userDataWord ++ [58] := by decide

/-- What stands behind the version, up to the end of the header block. -/
def ending (data : Bytes) : Bytes :=
  if data = [] then [13, 10, 13, 10]
  else 13 :: 10 :: (userDataWord ++ 58 :: (data ++ [13, 10, 13, 10]))

theorem ending_eq (data : Bytes) : 13 :: 10 :: (userData data ++ [13, 10]) = ending data := by
  by_cases hdata : data = []
  · simp [userData, ending, hdata]
  · simp [userData, ending, hdata, ascii_userData, ascii_crlf]

/-- The request from its first character on: what is read as the head, the target and what follows. -/
theorem connectRequest_eq (host : Bytes) (port : UInt16) (data : Bytes) :
    connectRequest host port data = connectWord ++ (32 :: (host ++ 58 :: portText port) ++
      32 :: (version ++ ending data)) := by
  simp [connectRequest, ascii_connect, ascii_colon, ascii_version, ascii_crlf, ← ending_eq]

theorem take_connectRequest : (connectRequest host port data).take 7 = connectWord := by
  rw [connectRequest_eq]
  rfl

theorem drop_connectRequest : (connectRequest host port data).drop 7 =
    32 :: (host ++ 58 :: portText port) ++
      32 :: (version ++ ending data) := by
  rw [connectRequest_eq]
  rfl

/-- The port ends at the blank behind it. -/
theorem scanTarget_port (hdigits : ∀ b ∈ digits, 48 ≤ b.toNat ∧ b.toNat ≤ 57) (more : Bytes) :
    scanTarget index hostEnd (digits ++ 32 :: more) = some (hostEnd, index + digits.length) := by
  induction digits generalizing index with
  | nil => rfl
  | cons b digits ih =>
    have hb := hdigits b List.mem_cons_self
    have hends : ¬ (b = 32 ∨ b = 13) := by
      rintro (rfl | rfl)
      · exact absurd hb (by decide)
      · exact absurd hb (by decide)
    have hcolon : b ≠ 58 := by
      rintro rfl
      exact absurd hb (by decide)
    rw [List.cons_append, scanTarget, if_neg hends, if_neg hcolon,
      ih fun d hd => hdigits d (List.mem_cons_of_mem _ hd), List.length_cons]
    congr 2
    omega

/-- The last colon of the target is that of the port, whatever colons are in the host. -/
theorem scanTarget_host (hspace : 32 ∉ host) (hcr : 13 ∉ host)
    (hdigits : ∀ b ∈ digits, 48 ≤ b.toNat ∧ b.toNat ≤ 57) (more : Bytes) :
    scanTarget index hostEnd (host ++ 58 :: (digits ++ 32 :: more)) =
      some (some (index + host.length), index + host.length + 1 + digits.length) := by
  induction host generalizing index hostEnd with
  | nil => exact scanTarget_port hdigits more
  | cons b host ih =>
    rw [List.mem_cons, not_or] at hspace hcr
    have hends : ¬ (b = 32 ∨ b = 13) := not_or.mpr ⟨Ne.symm hspace.1, Ne.symm hcr.1⟩
    rw [List.cons_append, scanTarget, if_neg hends, ih hspace.2 hcr.2, List.length_cons]
    congr 3
    · omega
    · omega

/-- What is extracted of the request line. -/
theorem connectAnswer_target (hhost : host ≠ []) (hspace : 32 ∉ host) (hcr : 13 ∉ host)
    (resolve : Resolver) (port : UInt16) (more : Bytes) :
    connectAnswer resolve (32 :: (host ++ 58 :: portText port) ++ 32 :: more) =
      some (resolvedAnswer (resolve host (portText port))) := by
  have hskip : (32 :: (host ++ 58 :: portText port) ++ 32 :: more).dropWhile (· = 32) =
      host ++ 58 :: (portText port ++ 32 :: more) := by
    obtain ⟨b, host, rfl⟩ := List.exists_cons_of_ne_nil hhost
    rw [List.mem_cons, not_or] at hspace
    simp [Ne.symm hspace.1]
  rw [connectAnswer, hskip]
  simp only [scanTarget_host hspace hcr (fun b hb => mem_portText hb), Nat.zero_add, Option.map_some]
  have hport : (host ++ 58 :: (portText port ++ 32 :: more)).drop (host.length + 1) =
      portText port ++ 32 :: more := by
    rw [← List.drop_drop, List.drop_left]
    rfl
  rw [List.take_left, List.drop_take, hport, Nat.add_sub_cancel_left, List.take_left]

/-- As soon as the end of a header block is read, the target is. -/
theorem target_read (hcr : 13 ∉ host) (hread : read <+: (connectRequest host port data).drop 7)
    (hend : (endOfHead read).isSome) :
    ∃ more, read = 32 :: (host ++ 58 :: portText port) ++ 32 :: more := by
  rw [drop_connectRequest] at hread
  have hline : 32 :: (host ++ 58 :: portText port) ++ [32] <+:
      32 :: (host ++ 58 :: portText port) ++
        32 :: (version ++ ending data) := by
    exact ⟨version ++ ending data, by simp⟩
  rcases List.prefix_or_prefix_of_prefix hread hline with hshort | ⟨more, hmore⟩
  · -- what is read has a CR, and the target has not
    obtain ⟨rest, hrest⟩ := firstLine_spec hend
    have hmem : (13 : UInt8) ∈ read := by
      rw [hrest]
      simp
    have hport : (13 : UInt8) ∉ portText port := fun h => absurd (mem_portText h) (by decide)
    have hmem' := hshort.subset hmem
    simp [hcr, hport] at hmem'
  · exact ⟨more, by rw [← hmore, List.append_assoc, List.singleton_append]⟩

/-- The request ends with a blank line. -/
theorem endOfHead_connectRequest (host : Bytes) (port : UInt16) (data : Bytes) :
    (endOfHead ((connectRequest host port data).drop 7)).isSome := by
  have hending : (endOfHead (ending data)).isSome := by
    by_cases hdata : data = []
    · rw [ending, if_pos hdata]
      rfl
    · have hblank : (endOfHead [13, 10, 13, 10]).isSome := rfl
      have hbehind := endOfHead_behind (13 :: 10 :: (userDataWord ++ 58 :: data)) hblank
      simpa [ending, hdata] using hbehind
  have hrest := endOfHead_behind (32 :: (host ++ 58 :: portText port) ++ 32 :: version) hending
  rw [drop_connectRequest]
  simpa using hrest

/-- The gateway takes the request that the client prepares for a CONNECT request, and extracts the
target that the client was given. -/
theorem connect_understood (hhost : t.targetHost ≠ []) (hport : t.targetPort ≠ 0)
    (hgatewayHost : t.gatewayHost ≠ []) (hgatewayPort : t.gatewayPort ≠ 0)
    (haddress : makeAddress t.gatewayHost = some address) (hspace : 32 ∉ t.targetHost)
    (hcr : 13 ∉ t.targetHost) :
    ∃ request, init makeAddress t = some ⟨request, address, t.gatewayPort⟩ ∧
      (endOfHead (request.drop 7)).isSome ∧
      decimal (portText t.targetPort) = t.targetPort.toNat ∧
      ∀ (o : ByteOrder) (resolve : Resolver) (g : Gateway),
        (g.phase = .recvHead (request.take 7) →
          g.stepHandshake o resolve .run = some (g.enter (.recvBody []))) ∧
        ∀ read, read <+: request.drop 7 → (endOfHead read).isSome → g.phase = .recvBody read →
          g.stepHandshake o resolve .run = some (g.doSendResult
            (resolvedAnswer (resolve t.targetHost (portText t.targetPort)))) := by
  refine ⟨connectRequest t.targetHost t.targetPort t.connectData, ?_,
    endOfHead_connectRequest _ _ _, decimal_portText t.targetPort, ?_⟩
  · simp only [init, hhost, hport, hgatewayHost, hgatewayPort, haddress, ne_eq, not_false_eq_true,
      and_self, if_true, Option.map_some]
  · intro o resolve g
    refine ⟨?_, ?_⟩
    · intro hph
      rw [take_connectRequest] at hph
      simp [Gateway.stepHandshake, hph, Gateway.headReceived, requestSize, connectWord]
    · intro read hread hend hph
      obtain ⟨more, hmore⟩ := target_read hcr hread hend
      have hanswer := connectAnswer_target hhost hspace hcr resolve t.targetPort more
      rw [← hmore] at hanswer
      simp [Gateway.stepHandshake, hph, hend, hanswer]

/-- `a:b` on port 8080, behind a gateway on port 3128 of this host. -/
def colonTarget : Target := ⟨[97, 58, 98], 8080, ascii "127.0.0.1", 3128, [120]⟩

theorem connect_understood_colon :
    ∃ request, init InetAddress.inetPton colonTarget = some ⟨request, 0x7f000001, 3128⟩ ∧
      ∀ g : Gateway, g.phase = .recvBody (request.drop 7) →
        g.stepHandshake .little (fun _ _ => none) .run =
          some (g.doSendResult (resolvedAnswer none)) := by
  obtain ⟨request, hinit, hend, -, hsteps⟩ :=
    @connect_understood Nat InetAddress.inetPton 0x7f000001 colonTarget (by decide) (by decide)
      (by decide) (by decide) (by decide) (by decide) (by decide)
  refine ⟨request, hinit, ?_⟩
  intro g hph
  exact (hsteps .little (fun _ _ => none) g).2 _ (List.prefix_refl _) hend hph

end NetworkUtility.Tcp
