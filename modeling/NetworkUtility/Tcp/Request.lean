import NetworkUtility.Base.ByteOrder
import NetworkUtility.Lib.Scan

/-! What a client asks of the gateway and what the gateway answers: the binary request of
`TcpForwardServerImpl` and the CONNECT request. -/
namespace NetworkUtility.Tcp

open Scan

inductive Endpoint
  | v4 (address port : Nat)
  | v6 (address port : Nat)
  deriving DecidableEq, Repr

def Endpoint.isV4 : Endpoint → Bool
  | v4 _ _ => true
  | v6 _ _ => false

/-- `tcp::resolver::resolve` on a host and a port, nothing in case of an error. -/
abbrev Resolver := Bytes → Bytes → Option (List Endpoint)

/-! ### The binary request -/

/-- What the loop of `make_forward_message` can leave in `xor_val`: neither 0x0 nor `C`. -/
structure Mask where
  val : UInt8
  nonzero : val ≠ 0x0
  not_C : val ≠ 67
  deriving DecidableEq, Repr

/-- The address and the port are in network order already. -/
def makeForwardMessage (o : ByteOrder) (mask : Mask) (addr : UInt32) (port : UInt16) : Bytes :=
  mask.val :: (o.store 4 addr.toNat ++ o.store 2 port.toNat).map (· ^^^ mask.val)

def requestSize : Nat := 7

/-- `"CONNECT"`. -/
def connectWord : Bytes := [67, 79, 78, 78, 69, 67, 84]

/-- `ntohl` and `ntohs`. -/
def netToHostValue (o : ByteOrder) (size value : Nat) : Nat :=
  ByteOrder.big.load (o.store size value)

/-- `response`, `*result` and `endpoint` of `do_send_result`. -/
structure Answer where
  response : Bytes
  result : Bool
  endpoint : Option Endpoint
  deriving DecidableEq, Repr

/-- `do_recv_head` on a request that is not `"CONNECT"`. -/
def binaryAnswer (o : ByteOrder) (request : Bytes) : Answer :=
  let data := (request.drop 1).map (· ^^^ request.headD 0)
  let addr := o.load (data.take 4)
  let port := o.load ((data.drop 4).take 2)
  let response : UInt8 := if addr = 0 ∨ port = 0 then 0x0 else 0x1
  { response := [response]
    result := response ≠ 0
    endpoint := some (.v4 (netToHostValue o 4 addr) (netToHostValue o 2 port)) }

/-! ### The CONNECT request -/

/-- The second loop of `do_recv_body` from `host_beg` on: `host_end`, if it is set, and `port_end`. It
stops at a blank or a CR; without one it reads past the data. -/
def scanTarget (index : Nat) (hostEnd : Option Nat) : Bytes → Option (Option Nat × Nat)
  | [] => none
  | c :: cs =>
    if c = 32 ∨ c = 13 then some (hostEnd, index)
    else scanTarget (index + 1) (if c = 58 then some index else hostEnd) cs

def ascii (text : String) : Bytes := text.toList.map fun c => c.toNat.toUInt8

def badRequest : Bytes := ascii "HTTP/1.1 400 Bad Request\r\nContent-Length: 0\r\n\r\n"

def badGateway : Bytes := ascii "HTTP/1.1 502 Bad Gateway\r\nContent-Length: 0\r\n\r\n"

def notFound : Bytes := ascii "HTTP/1.1 404 Not Found\r\nContent-Length: 0\r\n\r\n"

def connectionEstablished : Bytes :=
  ascii "HTTP/1.1 200 Connection Established\r\nContent-Length: 0\r\n\r\n"

/-- The first v4 address is taken. -/
def resolvedAnswer : Option (List Endpoint) → Answer
  | none => ⟨badGateway, false, none⟩
  | some endpoints =>
    match endpoints.find? (·.isV4) with
    | none => ⟨notFound, false, none⟩
    | some endpoint => ⟨connectionEstablished, true, some endpoint⟩

/-- `do_recv_body` on what has been read behind `"CONNECT"`, which may be more than the header block.
Nothing when the scan reads past it. -/
def connectAnswer (resolve : Resolver) (data : Bytes) : Option Answer :=
  let target := data.dropWhile (· = 32)
  (scanTarget 0 none target).map fun
    | (none, _) => ⟨badRequest, false, none⟩
    | (some hostEnd, portEnd) =>
      resolvedAnswer (resolve (target.take hostEnd) ((target.take portEnd).drop (hostEnd + 1)))

/-! ### What stands behind the target does not matter -/

theorem dropWhile_append_of_ne {p : UInt8 → Bool} {data : Bytes} (h : data.dropWhile p ≠ [])
    (more : Bytes) : (data ++ more).dropWhile p = data.dropWhile p ++ more := by
  induction data with
  | nil => exact absurd rfl h
  | cons b data ih =>
    rw [List.cons_append]
    cases hb : p b with
    | false => simp [hb]
    | true =>
      simp only [List.dropWhile_cons, hb, if_true] at h ⊢
      exact ih h

theorem scanTarget_bounds {index portEnd : Nat} {hostEnd hostEnd' : Option Nat} {target : Bytes}
    (h : scanTarget index hostEnd target = some (hostEnd', portEnd)) :
    portEnd ≤ index + target.length ∧
      ((∀ n ∈ hostEnd, n ≤ index) → ∀ n ∈ hostEnd', n ≤ portEnd) := by
  induction target generalizing index hostEnd with
  | nil => cases h
  | cons c cs ih =>
    unfold scanTarget at h
    split at h
    · cases h
      exact ⟨Nat.le_add_right _ _, id⟩
    · obtain ⟨hle, hhost⟩ := ih h
      rw [List.length_cons]
      refine ⟨by omega, fun hn => hhost ?_⟩
      intro n hmem
      split at hmem
      · obtain rfl : index = n := by simpa using hmem
        omega
      · exact Nat.le_succ_of_le (hn n hmem)

theorem scanTarget_append {index : Nat} {hostEnd : Option Nat} {target : Bytes}
    {found : Option Nat × Nat} (h : scanTarget index hostEnd target = some found) (more : Bytes) :
    scanTarget index hostEnd (target ++ more) = some found := by
  induction target generalizing index hostEnd with
  | nil => cases h
  | cons c cs ih =>
    rw [List.cons_append]
    unfold scanTarget at h ⊢
    split at h
    · next hc => rw [if_pos hc, h]
    · next hc => rw [if_neg hc, ih h]

theorem connectAnswer_append {resolve : Resolver} {data : Bytes} {answer : Answer}
    (h : connectAnswer resolve data = some answer) (more : Bytes) :
    connectAnswer resolve (data ++ more) = some answer := by
  obtain ⟨⟨hostEnd, portEnd⟩, hscan, rfl⟩ := Option.map_eq_some_iff.mp h
  have hne : data.dropWhile (· = 32) ≠ [] := by
    intro hnil
    simp [hnil, scanTarget] at hscan
  obtain ⟨hport, hhost⟩ := scanTarget_bounds hscan
  simp only [connectAnswer, dropWhile_append_of_ne hne, scanTarget_append hscan]
  cases hostEnd with
  | none => rfl
  | some hostEnd =>
    have hle : hostEnd ≤ portEnd := hhost (by simp) hostEnd rfl
    rw [Nat.zero_add] at hport
    simp only [Option.map_some]
    rw [List.take_append_of_le_length (Nat.le_trans hle hport),
      List.take_append_of_le_length hport]

/-! ### The binary request is no CONNECT -/

variable {o : ByteOrder} {mask : Mask} {addr : UInt32} {port : UInt16}

theorem length_makeForwardMessage : (makeForwardMessage o mask addr port).length = requestSize := by
  simp [makeForwardMessage, requestSize]

theorem makeForwardMessage_ne_connectWord : makeForwardMessage o mask addr port ≠ connectWord := by
  intro h
  simp only [makeForwardMessage, connectWord, List.cons.injEq] at h
  exact mask.not_C h.1

theorem length_binaryAnswer (o : ByteOrder) (request : Bytes) :
    (binaryAnswer o request).response.length = 1 := rfl

end NetworkUtility.Tcp
