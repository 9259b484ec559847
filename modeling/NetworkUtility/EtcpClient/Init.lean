import NetworkUtility.Lib.Scan
import NetworkUtility.Tcp.Request

/-! `EtcpClientImpl::init` up to the start of its work thread: where the client connects to, and the
CONNECT request for the gateway. -/
namespace NetworkUtility.EtcpClient

open Scan
open Tcp (ascii connectWord)

/-- The arguments of `init` but the sink. -/
structure Target where
  targetHost : Bytes
  targetPort : UInt16
  gatewayHost : Bytes
  gatewayPort : UInt16
  connectData : Bytes
  deriving DecidableEq, Repr

/-- `m_request` and `m_endpoint`, with the addresses of asio. -/
structure Prepared (α : Type) where
  request : Bytes
  endpoint : α × UInt16
  deriving DecidableEq, Repr

/-- `std::to_string(target_port)`. -/
def portText (port : UInt16) : Bytes := ascii (toString port.toNat)

/-- The line that is sent if there is any data. -/
def userData (connectData : Bytes) : Bytes :=
  if connectData ≠ [] then ascii "user_data:" ++ connectData ++ ascii "\r\n" else []

/-- `m_request`. -/
def connectRequest (targetHost : Bytes) (targetPort : UInt16) (connectData : Bytes) : Bytes :=
  ascii "CONNECT " ++ targetHost ++ ascii ":" ++ portText targetPort ++ ascii " HTTP/1.0\r\n" ++
    userData connectData ++ ascii "\r\n"

/-- Nothing when `init` returns false, or when `make_address` throws. -/
def init {α : Type} (makeAddress : Bytes → Option α) (t : Target) : Option (Prepared α) :=
  if t.targetHost ≠ [] ∧ t.targetPort ≠ 0 then
    if t.gatewayHost ≠ [] ∧ t.gatewayPort ≠ 0 then
      (makeAddress t.gatewayHost).map fun address =>
        ⟨connectRequest t.targetHost t.targetPort t.connectData, address, t.gatewayPort⟩
    else (makeAddress t.targetHost).map fun address => ⟨[], address, t.targetPort⟩
  else if t.gatewayHost ≠ [] ∧ t.gatewayPort ≠ 0 then
    (makeAddress t.gatewayHost).map fun address => ⟨[], address, t.gatewayPort⟩
  else none

variable {α : Type} {makeAddress : Bytes → Option α} {t : Target} {prepared : Prepared α}
  {host data : Bytes} {port : UInt16}

theorem connectRequest_ne_nil (host : Bytes) (port : UInt16) (data : Bytes) :
    connectRequest host port data ≠ [] := by
  simp [connectRequest, ascii]

/-- A request is prepared when both the target and the gateway are given. -/
theorem request_of_init (h : init makeAddress t = some prepared) (hne : prepared.request ≠ []) :
    prepared.request = connectRequest t.targetHost t.targetPort t.connectData ∧
      t.targetHost ≠ [] ∧ t.targetPort ≠ 0 ∧ t.gatewayHost ≠ [] ∧ t.gatewayPort ≠ 0 := by
  unfold init at h
  split_ifs at h with htarget hgateway hgateway
  · obtain ⟨address, -, rfl⟩ := Option.map_eq_some_iff.mp h
    exact ⟨rfl, htarget.1, htarget.2, hgateway.1, hgateway.2⟩
  · obtain ⟨address, -, rfl⟩ := Option.map_eq_some_iff.mp h
    exact absurd rfl hne
  · obtain ⟨address, -, rfl⟩ := Option.map_eq_some_iff.mp h
    exact absurd rfl hne

theorem portText_eq (port : UInt16) :
    portText port = (Nat.toDigits 10 port.toNat).map fun c => c.toNat.toUInt8 := by
  rw [portText, ascii, Nat.toString_eq_ofList_toDigits, String.toList_ofList]

theorem digit_bounds {n : Nat} {c : Char} (hc : c ∈ Nat.toDigits 10 n) :
    48 ≤ c.toNat ∧ c.toNat ≤ 57 := by
  have hdigit := Nat.isDigit_of_mem_toDigits (by decide) (by decide) hc
  exact Char.isDigit_iff_toNat.mp hdigit

theorem toNat_toUInt8 {n : Nat} (hn : n ≤ 57) : n.toUInt8.toNat = n :=
  UInt8.toNat_ofNat_of_lt' (Nat.lt_of_le_of_lt hn (by decide))

/-- The text is made of digits. -/
theorem mem_portText {b : UInt8} (hb : b ∈ portText port) : 48 ≤ b.toNat ∧ b.toNat ≤ 57 := by
  rw [portText_eq] at hb
  obtain ⟨c, hc, rfl⟩ := List.mem_map.mp hb
  have hbounds := digit_bounds hc
  rwa [toNat_toUInt8 hbounds.2]

theorem portText_ne_nil (port : UInt16) : portText port ≠ [] := by
  rw [portText_eq]
  simp

/-- The text denotes the port. -/
theorem decimal_portText (port : UInt16) : decimal (portText port) = port.toNat := by
  have hfold : ∀ (cs : List Char) (n : Nat), (∀ c ∈ cs, c.toNat ≤ 57) →
      (cs.map fun c => c.toNat.toUInt8).foldl (fun n b => 10 * n + (b.toNat - 48)) n =
        Nat.ofDigitChars 10 cs n := by
    intro cs
    induction cs with
    | nil => exact fun n _ => rfl
    | cons c cs ih =>
      intro n hcs
      have hbyte := toNat_toUInt8 (hcs c List.mem_cons_self)
      rw [List.map_cons, List.foldl_cons, hbyte, Nat.ofDigitChars_cons]
      exact ih _ fun d hd => hcs d (List.mem_cons_of_mem _ hd)
  rw [decimal, portText_eq, hfold _ _ fun c hc => (digit_bounds hc).2]
  exact Nat.ofDigitChars_ten_toDigits

end NetworkUtility.EtcpClient
