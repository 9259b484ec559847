import NetworkUtility.Base.ByteOrder
import NetworkUtility.Lib.Framing

/-! The messages of etcp, as `send_message` queues them and `do_read` takes them apart. The client
(`EtcpHeader`) and the session (`EtcpPrefix`) have the same code for both. -/
namespace NetworkUtility.Etcp

open Framing

/-- PROTOCOL_SIGN, 'ET'. -/
def protocolSign : Nat := 0x4554

structure EtcpHeader where
  sign : Nat
  size : Nat
  deriving DecidableEq, Repr

/-- The struct the session uses under its own name. -/
abbrev EtcpPrefix := EtcpHeader

namespace EtcpHeader

/-- The packed struct in the memory of a host. -/
def bytes (o : ByteOrder) (h : EtcpHeader) : Bytes := o.store 2 h.sign ++ o.store 4 h.size

def ofBytes (o : ByteOrder) (head : Bytes) : EtcpHeader := ⟨o.load (head.take 2), o.load (head.drop 2)⟩

/-- `encode` and `decode` reorder the two members in place. -/
def encode (o : ByteOrder) (head : Bytes) : Bytes :=
  hostToNet o (head.take 2) ++ hostToNet o (head.drop 2)

def decode (o : ByteOrder) (head : Bytes) : Bytes :=
  netToHost o (head.take 2) ++ netToHost o (head.drop 2)

end EtcpHeader

/-- The string `head` that the lambda of `send_message` builds for a packet. -/
def messageHead (o : ByteOrder) (pack : Bytes) : Bytes :=
  EtcpHeader.encode o (EtcpHeader.bytes o ⟨protocolSign, pack.length % 2 ^ 32⟩)

/-- The two `emplace_back` of that lambda. -/
def pushMessage (o : ByteOrder) (sendDataList : List Bytes) (pack : Bytes) : List Bytes :=
  sendDataList ++ [messageHead o pack, pack]

/-- What the handler of the header read finds in `m_recv_head`. -/
inductive HeadCheck
  | badSign
  | empty
  | body (size : Nat)
  deriving DecidableEq, Repr

def checkHead (o : ByteOrder) (recvHead : Bytes) : HeadCheck :=
  let header := EtcpHeader.ofBytes o (EtcpHeader.decode o recvHead)
  if protocolSign ≠ header.sign then .badSign
  else if 0 = header.size then .empty
  else .body header.size

/-- `std::string::resize(size, 0x0)`. -/
def resize (data : Bytes) (size : Nat) : Bytes :=
  data.take size ++ List.replicate (size - data.length) 0

/-- A read puts the bytes it gets behind the `done` it has. -/
def fill (buffer : Bytes) (done : Nat) (data : Bytes) : Bytes :=
  buffer.take done ++ data ++ buffer.drop (done + data.length)

/-- The grammar on the wire: sign and size in network order. -/
def format : Format UInt8 where
  headSize := 6
  headSize_pos := by decide
  bodySize head :=
    if littleValue (head.take 2).reverse = protocolSign then some (littleValue (head.drop 2).reverse)
    else none

/-- Header and body of one packet. -/
def frame (o : ByteOrder) (pack : Bytes) : Bytes := messageHead o pack ++ pack

variable {o : ByteOrder} {pack head buffer data : Bytes} {ps : List Bytes} {n done : Nat}

@[simp] theorem length_messageHead (o : ByteOrder) (pack : Bytes) :
    (messageHead o pack).length = 6 := by
  simp [messageHead, EtcpHeader.encode, EtcpHeader.bytes, hostToNet]

theorem messageHead_eq (o : ByteOrder) (pack : Bytes) :
    messageHead o pack =
      (littleEndian 2 protocolSign).reverse ++ (littleEndian 4 (pack.length % 2 ^ 32)).reverse := by
  have ht : (o.store 2 protocolSign ++ o.store 4 (pack.length % 2 ^ 32)).take 2 =
      o.store 2 protocolSign := List.take_left' (length_store ..)
  have hd : (o.store 2 protocolSign ++ o.store 4 (pack.length % 2 ^ 32)).drop 2 =
      o.store 4 (pack.length % 2 ^ 32) := List.drop_left' (length_store ..)
  simp only [messageHead, EtcpHeader.encode, EtcpHeader.bytes, ht, hd, hostToNet_store]

theorem bodySize_messageHead (h : pack.length < 2 ^ 32) :
    format.bodySize (messageHead o pack) = some pack.length := by
  rw [messageHead_eq, Nat.mod_eq_of_lt h]
  have ht : ((littleEndian 2 protocolSign).reverse ++ (littleEndian 4 pack.length).reverse).take 2 =
      (littleEndian 2 protocolSign).reverse := List.take_left' (by simp)
  have hd : ((littleEndian 2 protocolSign).reverse ++ (littleEndian 4 pack.length).reverse).drop 2 =
      (littleEndian 4 pack.length).reverse := List.drop_left' (by simp)
  simp only [format, ht, hd, List.reverse_reverse]
  rw [littleValue_littleEndian (by decide), littleValue_littleEndian (by simpa using h)]
  simp

/-- The check reads the wire format, whatever the order of the host. -/
theorem checkHead_eq (o : ByteOrder) (h : head.length = 6) :
    checkHead o head =
      match format.bodySize head with
      | none => .badSign
      | some 0 => .empty
      | some n => .body n := by
  have ht : (netToHost o (head.take 2) ++ netToHost o (head.drop 2)).take 2 =
      netToHost o (head.take 2) := List.take_left' (by simp [netToHost, h])
  have hd : (netToHost o (head.take 2) ++ netToHost o (head.drop 2)).drop 2 =
      netToHost o (head.drop 2) := List.drop_left' (by simp [netToHost, h])
  simp only [checkHead, EtcpHeader.ofBytes, EtcpHeader.decode, ht, hd, load_netToHost, format]
  by_cases hs : littleValue (head.take 2).reverse = protocolSign
  · rw [if_neg (by simpa using hs.symm), if_pos hs]
    cases hn : littleValue (head.drop 2).reverse <;> simp
  · rw [if_pos (Ne.symm hs), if_neg hs]

@[simp] theorem length_decode (o : ByteOrder) (head : Bytes) :
    (EtcpHeader.decode o head).length = head.length := by
  simp [EtcpHeader.decode, netToHost]
  omega

@[simp] theorem length_resize (data : Bytes) (n : Nat) : (resize data n).length = n := by
  simp [resize]
  omega

theorem length_fill (h : done + data.length ≤ buffer.length) :
    (fill buffer done data).length = buffer.length := by
  simp [fill]
  omega

theorem take_fill (h : done + data.length ≤ buffer.length) :
    (fill buffer done data).take (done + data.length) = buffer.take done ++ data := by
  have hl : (buffer.take done ++ data).length = done + data.length := by simp; omega
  exact List.take_left' hl

/-- A stream of queued packets is a stream of whole frames. -/
theorem whole_frames (h : ∀ p ∈ ps, p.length < 2 ^ 32) :
    format.Whole (ps.map (frame o)).flatten ps := by
  induction ps with
  | nil => exact .nil
  | cons p ps ih =>
    have hp := bodySize_messageHead (o := o) (h p List.mem_cons_self)
    have ht := ih fun q hq => h q (List.mem_cons_of_mem _ hq)
    simpa [frame] using Format.Whole.cons (length_messageHead o p) hp ht

/-- A header says how it was encoded. -/
theorem head_eq (hl : head.length = 6) (hb : format.bodySize head = some pack.length) :
    head = messageHead o pack ∧ pack.length < 2 ^ 32 := by
  simp only [format, Option.ite_none_right_eq_some, Option.some.injEq] at hb
  obtain ⟨hsign, hsize⟩ := hb
  have hlt : pack.length < 2 ^ 32 := by
    have hbound := littleValue_lt (head.drop 2).reverse
    rw [hsize] at hbound
    simpa [hl] using hbound
  have hfront : (littleEndian 2 protocolSign).reverse = head.take 2 := by
    have hback := littleEndian_littleValue (head.take 2).reverse
    rw [hsign] at hback
    have hlen : (head.take 2).reverse.length = 2 := by simp [hl]
    rw [hlen] at hback
    rw [hback, List.reverse_reverse]
  have hrear : (littleEndian 4 pack.length).reverse = head.drop 2 := by
    have hback := littleEndian_littleValue (head.drop 2).reverse
    rw [hsize] at hback
    have hlen : (head.drop 2).reverse.length = 4 := by simp [hl]
    rw [hlen] at hback
    rw [hback, List.reverse_reverse]
  refine ⟨?_, hlt⟩
  rw [messageHead_eq, Nat.mod_eq_of_lt hlt, hfront, hrear, List.take_append_drop]

/-- Whole frames are the encodings of their bodies. -/
theorem encoded_of_whole {bs : Bytes} (h : format.Whole bs ps) :
    bs = (ps.map (frame o)).flatten ∧ ∀ p ∈ ps, p.length < 2 ^ 32 := by
  induction h with
  | nil => exact ⟨rfl, nofun⟩
  | cons hl hb _ ih =>
    obtain ⟨hhead, hlt⟩ := head_eq (o := o) hl hb
    obtain ⟨hbs, hall⟩ := ih
    refine ⟨?_, List.forall_mem_cons.mpr ⟨hlt, hall⟩⟩
    rw [hhead, hbs]
    simp [frame]

/-- A header is refused for its first two bytes. -/
theorem bodySize_eq_none (hl : head.length = 6) :
    format.bodySize head = none ↔ head.take 2 ≠ [0x45, 0x54] := by
  simp only [format, ite_eq_right_iff, reduceCtorEq, imp_false]
  refine not_congr ⟨fun hsign => ?_, fun hsign => by rw [hsign]; rfl⟩
  have hback := littleEndian_littleValue (head.take 2).reverse
  rw [hsign] at hback
  have hlen : (head.take 2).reverse.length = 2 := by simp [hl]
  rw [hlen] at hback
  rw [← List.reverse_reverse (head.take 2), ← hback]
  rfl

/-- What a reader delivers of a stream: the complete frames, without the empty ones. -/
def packets (bs : Bytes) : List Bytes := (format.frames bs).filter (· ≠ [])

section Packets

variable {bs body : Bytes}

theorem packets_append (hw : format.Whole bs ps) (rest : Bytes) :
    packets (bs ++ rest) = ps.filter (· ≠ []) ++ packets rest := by
  simp [packets, hw.frames_append]

theorem packets_of_no_split (hw : format.Whole bs ps) {rest : Bytes}
    (h : format.split rest = none) : packets (bs ++ rest) = ps.filter (· ≠ []) := by
  rw [packets, hw.frames_of_no_split h]

theorem packets_short (hw : format.Whole bs ps) (h : head.length < 6) :
    packets (bs ++ head) = ps.filter (· ≠ []) :=
  packets_of_no_split hw (Format.split_of_short h)

theorem packets_cut (hw : format.Whole bs ps) (hl : head.length = 6)
    (hs : format.bodySize head = some n) (hb : body.length < n) :
    packets (bs ++ (head ++ body)) = ps.filter (· ≠ []) :=
  packets_of_no_split hw (Format.split_of_cut hl hs hb)

/-- A header alone is no packet, whatever it says. -/
theorem packets_head (hw : format.Whole bs ps) (hl : head.length = 6) :
    packets (bs ++ head) = ps.filter (· ≠ []) := by
  cases hs : format.bodySize head with
  | none =>
    have hn : format.split (head ++ []) = none := Format.split_of_refused hl hs
    rw [List.append_nil] at hn
    exact packets_of_no_split hw hn
  | some n =>
    cases n with
    | zero =>
      have hwhole : format.Whole (bs ++ (head ++ [])) (ps ++ [[]]) := hw.snoc hl hs
      have hp := packets_of_no_split hwhole Format.split_nil
      simpa using hp
    | succ n =>
      have hp : packets (bs ++ (head ++ [])) = _ := packets_cut hw hl hs (Nat.succ_pos n)
      rwa [List.append_nil] at hp

end Packets

end NetworkUtility.Etcp
