import NetworkUtility.Tcp.Gateway

/-! The binary request that `TcpForwardServerImpl` builds, as `TcpGatewayServerImpl` reads it. The two
hosts may differ in their byte order. -/
namespace NetworkUtility.Tcp

/-- The integer that has the bytes of `value` in network order. -/
def networkOrder (o : ByteOrder) (size value : Nat) : Nat := o.load (ByteOrder.big.store size value)

/-- `inet_addr`, on the text of an address. -/
def inetAddr (o : ByteOrder) (address : UInt32) : UInt32 :=
  UInt32.ofNat (networkOrder o 4 address.toNat)

def htons (o : ByteOrder) (port : UInt16) : UInt16 := UInt16.ofNat (networkOrder o 2 port.toNat)

/-- What `acquire_local_forward_port` gives to the acceptor for a target. -/
def forwardMessage (o : ByteOrder) (mask : Mask) (address : UInt32) (port : UInt16) : Bytes :=
  makeForwardMessage o mask (inetAddr o address) (htons o port)

variable {o : ByteOrder} {mask : Mask} {size value : Nat} {bytes : Bytes} {address : UInt32}
  {port : UInt16}

theorem load_store (o : ByteOrder) (hvalue : value < 256 ^ size) :
    o.load (o.store size value) = value := by
  cases o with
  | little => exact littleValue_littleEndian hvalue
  | big =>
    rw [ByteOrder.load, ByteOrder.store, List.reverse_reverse]
    exact littleValue_littleEndian hvalue

theorem store_load (o : ByteOrder) (bytes : Bytes) :
    o.store bytes.length (o.load bytes) = bytes := by
  cases o with
  | little => exact littleEndian_littleValue bytes
  | big =>
    have h := littleEndian_littleValue bytes.reverse
    rw [List.length_reverse] at h
    rw [ByteOrder.load, ByteOrder.store, h, List.reverse_reverse]

theorem load_lt (o : ByteOrder) (bytes : Bytes) : o.load bytes < 256 ^ bytes.length := by
  cases o with
  | little => exact littleValue_lt bytes
  | big =>
    rw [← List.length_reverse]
    exact littleValue_lt bytes.reverse

theorem networkOrder_lt (o : ByteOrder) (size value : Nat) :
    networkOrder o size value < 256 ^ size := by
  have h := load_lt o (ByteOrder.big.store size value)
  rwa [length_store] at h

/-- In memory an integer in network order has the bytes that are sent. -/
theorem store_networkOrder (o : ByteOrder) (size value : Nat) :
    o.store size (networkOrder o size value) = ByteOrder.big.store size value := by
  have h := store_load o (ByteOrder.big.store size value)
  rwa [length_store] at h

/-- `ntohl` and `ntohs` undo it on any host. -/
theorem netToHostValue_networkOrder (o : ByteOrder) (hvalue : value < 256 ^ size) :
    netToHostValue o size (networkOrder o size value) = value := by
  rw [netToHostValue, store_networkOrder, load_store .big hvalue]

theorem littleEndian_zero (size : Nat) : littleEndian size 0 = List.replicate size 0 := by
  induction size with
  | zero => rfl
  | succ size ih => rw [littleEndian, Nat.zero_div, ih, List.replicate_succ]; rfl

theorem littleValue_zero (size : Nat) : littleValue (List.replicate size 0) = 0 := by
  induction size with
  | zero => rfl
  | succ size ih => rw [List.replicate_succ, littleValue, ih]; rfl

/-- Zero is zero in any order, and nothing else is. -/
theorem networkOrder_eq_zero (o : ByteOrder) (hvalue : value < 256 ^ size) :
    networkOrder o size value = 0 ↔ value = 0 := by
  have hzero : networkOrder o size 0 = 0 := by
    cases o with
    | little => simp [networkOrder, ByteOrder.load, ByteOrder.store, littleEndian_zero, littleValue_zero]
    | big => simp [networkOrder, ByteOrder.load, ByteOrder.store, littleEndian_zero, littleValue_zero]
  constructor
  · intro h
    have hback := netToHostValue_networkOrder o hvalue
    have hback' := netToHostValue_networkOrder o (Nat.zero_lt_of_lt hvalue)
    rw [h, ← hzero, hback'] at hback
    exact hback.symm
  · rintro rfl
    exact hzero

theorem toNat_inetAddr (o : ByteOrder) (address : UInt32) :
    (inetAddr o address).toNat = networkOrder o 4 address.toNat :=
  UInt32.toNat_ofNat_of_lt' (networkOrder_lt o 4 address.toNat)

theorem toNat_htons (o : ByteOrder) (port : UInt16) :
    (htons o port).toNat = networkOrder o 2 port.toNat :=
  UInt16.toNat_ofNat_of_lt' (networkOrder_lt o 2 port.toNat)

/-- The mask is taken off again. -/
theorem unmask (m : UInt8) (bytes : Bytes) : (bytes.map (· ^^^ m)).map (· ^^^ m) = bytes := by
  rw [List.map_map]
  refine (List.map_congr_left fun b _ => ?_).trans (List.map_id bytes)
  exact (UInt8.xor_assoc b m m).trans (by rw [UInt8.xor_self, UInt8.xor_zero]; rfl)

/-- The gateway sees the integers in the order of its own host, and the zeros where they are. -/
theorem binaryAnswer_forwardMessage (o o' : ByteOrder) (mask : Mask) (address : UInt32)
    (port : UInt16) :
    binaryAnswer o' (forwardMessage o mask address port) =
      { response := [if address ≠ 0 ∧ port ≠ 0 then 0x1 else 0x0]
        result := decide (address ≠ 0 ∧ port ≠ 0)
        endpoint := some (.v4 address.toNat port.toNat) } := by
  have haddress : address.toNat < 256 ^ 4 := address.toNat_lt
  have hport : port.toNat < 256 ^ 2 := port.toNat_lt
  have hdata : ((forwardMessage o mask address port).drop 1).map
      (· ^^^ (forwardMessage o mask address port).headD 0) =
      ByteOrder.big.store 4 address.toNat ++ ByteOrder.big.store 2 port.toNat := by
    refine (unmask mask.val _).trans ?_
    rw [toNat_inetAddr, toNat_htons, store_networkOrder, store_networkOrder]
  have haddr : o'.load ((ByteOrder.big.store 4 address.toNat ++
      ByteOrder.big.store 2 port.toNat).take 4) = networkOrder o' 4 address.toNat := by
    rw [List.take_left' (length_store _ _ _)]
    rfl
  have hport' : o'.load (((ByteOrder.big.store 4 address.toNat ++
      ByteOrder.big.store 2 port.toNat).drop 4).take 2) = networkOrder o' 2 port.toNat := by
    rw [List.drop_left' (length_store _ _ _), List.take_of_length_le (length_store _ _ _).le]
    rfl
  have hzero : address.toNat = 0 ↔ address = 0 := by rw [← UInt32.toNat_inj]; rfl
  have hzero' : port.toNat = 0 ↔ port = 0 := by rw [← UInt16.toNat_inj]; rfl
  simp only [binaryAnswer, hdata, haddr, hport', netToHostValue_networkOrder o' haddress,
    netToHostValue_networkOrder o' hport, networkOrder_eq_zero o' haddress,
    networkOrder_eq_zero o' hport, hzero, hzero']
  by_cases h : address = 0 ∨ port = 0
  · have hno : ¬ (address ≠ 0 ∧ port ≠ 0) := by
      rwa [← not_or, not_not]
    rw [if_pos h, if_neg hno, decide_eq_false hno]
    rfl
  · have hyes : address ≠ 0 ∧ port ≠ 0 := not_or.mp h
    rw [if_neg h, if_pos hyes, decide_eq_true hyes]
    rfl

/-- Every integer of this size is in network order for some value. -/
theorem networkOrder_netToHostValue (o : ByteOrder) (hvalue : value < 256 ^ size) :
    networkOrder o size (netToHostValue o size value) = value := by
  have h := store_load .big (o.store size value)
  rw [length_store] at h
  rw [networkOrder, netToHostValue, h, load_store o hvalue]

theorem netToHostValue_lt (o : ByteOrder) (size value : Nat) :
    netToHostValue o size value < 256 ^ size := by
  have h := load_lt .big (o.store size value)
  rwa [length_store] at h

theorem exists_inetAddr (o : ByteOrder) (addr : UInt32) : ∃ address, inetAddr o address = addr ∧
    netToHostValue o 4 addr.toNat = address.toNat := by
  have haddress : (UInt32.ofNat (netToHostValue o 4 addr.toNat)).toNat =
      netToHostValue o 4 addr.toNat :=
    UInt32.toNat_ofNat_of_lt' (netToHostValue_lt o 4 addr.toNat)
  refine ⟨UInt32.ofNat (netToHostValue o 4 addr.toNat), ?_, haddress.symm⟩
  rw [← UInt32.toNat_inj, toNat_inetAddr, haddress, networkOrder_netToHostValue o addr.toNat_lt]

theorem exists_htons (o : ByteOrder) (port : UInt16) : ∃ hostPort, htons o hostPort = port ∧
    netToHostValue o 2 port.toNat = hostPort.toNat := by
  have hhostPort : (UInt16.ofNat (netToHostValue o 2 port.toNat)).toNat =
      netToHostValue o 2 port.toNat :=
    UInt16.toNat_ofNat_of_lt' (netToHostValue_lt o 2 port.toNat)
  refine ⟨UInt16.ofNat (netToHostValue o 2 port.toNat), ?_, hhostPort.symm⟩
  rw [← UInt16.toNat_inj, toNat_htons, hhostPort, networkOrder_netToHostValue o port.toNat_lt]

theorem inetAddr_eq_zero (o : ByteOrder) (address : UInt32) : inetAddr o address = 0 ↔ address = 0 := by
  rw [← UInt32.toNat_inj, ← UInt32.toNat_inj, toNat_inetAddr]
  exact networkOrder_eq_zero o address.toNat_lt

theorem htons_eq_zero (o : ByteOrder) (port : UInt16) : htons o port = 0 ↔ port = 0 := by
  rw [← UInt16.toNat_inj, ← UInt16.toNat_inj, toNat_htons]
  exact networkOrder_eq_zero o port.toNat_lt

/-- The request is taken for a binary one, whatever stands in it, and the gateway finds in it the
endpoint that the forward server reads from its own integers, which is the one that it was asked for.
The answer is 0x01 unless the address or the port is zero. -/
theorem forward_understood (o o' : ByteOrder) (mask : Mask) (addr : UInt32) (port : UInt16)
    (resolve : Resolver) (g : Gateway) :
    makeForwardMessage o mask addr port ≠ connectWord ∧
      (makeForwardMessage o mask addr port).length = 7 ∧
      (g.phase = .recvHead (makeForwardMessage o mask addr port) →
        g.stepHandshake o' resolve .run = some (g.doSendResult
          { response := [if addr ≠ 0 ∧ port ≠ 0 then 0x1 else 0x0]
            result := decide (addr ≠ 0 ∧ port ≠ 0)
            endpoint := some (.v4 (netToHostValue o 4 addr.toNat) (netToHostValue o 2 port.toNat)) })) ∧
      ∀ (address : UInt32) (hostPort : UInt16), inetAddr o address = addr → htons o hostPort = port →
        netToHostValue o 4 addr.toNat = address.toNat ∧
          netToHostValue o 2 port.toNat = hostPort.toNat := by
  have hword : makeForwardMessage o mask addr port ≠ connectWord := makeForwardMessage_ne_connectWord
  have hlen : (makeForwardMessage o mask addr port).length = requestSize := length_makeForwardMessage
  refine ⟨hword, hlen, ?_, ?_⟩
  · intro hph
    obtain ⟨address, rfl, haddress⟩ := exists_inetAddr o addr
    obtain ⟨hostPort, rfl, hhostPort⟩ := exists_htons o port
    have hanswer := binaryAnswer_forwardMessage o o' mask address hostPort
    rw [← haddress, ← hhostPort] at hanswer
    simp only [ne_eq, inetAddr_eq_zero, htons_eq_zero]
    rw [← hanswer]
    simp [Gateway.stepHandshake, hph, hlen, Gateway.headReceived, hword, forwardMessage]
  · rintro address hostPort rfl rfl
    rw [toNat_inetAddr, toNat_htons]
    exact ⟨netToHostValue_networkOrder o address.toNat_lt,
      netToHostValue_networkOrder o hostPort.toNat_lt⟩

/-- A gateway that has read a request for 127.0.0.1:80, from a host that stores integers the other
way. -/
def localGateway : Gateway :=
  ⟨.recvHead (makeForwardMessage .little ⟨3, by decide, by decide⟩ 0x0100007f 0x5000), .fresh⟩

theorem forward_understood_local :
    localGateway.stepHandshake .big (fun _ _ => none) .run =
      some (localGateway.doSendResult ⟨[1], true, some (.v4 0x7f000001 80)⟩) :=
  (forward_understood .little .big ⟨3, by decide, by decide⟩ 0x0100007f 0x5000 (fun _ _ => none)
    localGateway).2.2.1 rfl

end NetworkUtility.Tcp
