import NetworkUtility.Base.ByteOrder
import Mathlib.Data.List.Rotate

/-! frame.hpp of websocketpp: the header of a frame and the masking of its payload. A `size_t` has
eight bytes. -/
namespace NetworkUtility.Websocketpp

/-- `frame::opcode::value`. -/
inductive Opcode
  | continuation
  | text
  | binary
  | rsv3
  | rsv4
  | rsv5
  | rsv6
  | rsv7
  | close
  | ping
  | pong
  | controlRsvb
  | controlRsvc
  | controlRsvd
  | controlRsve
  | controlRsvf
  deriving DecidableEq, Repr

namespace Opcode

def all : List Opcode := [continuation, text, binary, rsv3, rsv4, rsv5, rsv6, rsv7, close, ping,
  pong, controlRsvb, controlRsvc, controlRsvd, controlRsve, controlRsvf]

def value (op : Opcode) : Nat := all.idxOf op

def ofValue (v : Nat) : Opcode := all.getD v .continuation

def reserved (op : Opcode) : Bool :=
  (rsv3.value ≤ op.value && op.value ≤ rsv7.value) ||
    (controlRsvb.value ≤ op.value && op.value ≤ controlRsvf.value)

def invalid (op : Opcode) : Bool := 0xF < op.value

def isControl (op : Opcode) : Bool := 0x8 ≤ op.value

end Opcode

abbrev payloadSizeBasic : Nat := 125
abbrev payloadSizeExtended : Nat := 0xFFFF
abbrev payloadSizeCode16bit : Nat := 0x7E
abbrev payloadSizeCode64bit : Nat := 0x7F
abbrev basicHeaderLength : Nat := 2
abbrev maxExtendedHeaderLength : Nat := 12

/-- `basic_header`. -/
structure BasicHeader where
  b0 : UInt8
  b1 : UInt8
  deriving DecidableEq, Repr

def basicValue (size : Nat) : UInt8 :=
  if size ≤ payloadSizeBasic then UInt8.ofNat size
  else if size ≤ payloadSizeExtended then UInt8.ofNat payloadSizeCode16bit
  else UInt8.ofNat payloadSizeCode64bit

namespace BasicHeader

/-- The constructor from the values of the fields; the reserved bits stay clear. -/
def make (op : Opcode) (size : Nat) (fin mask : Bool) : BasicHeader where
  b0 := (if fin then 0x80 else 0) ||| (UInt8.ofNat op.value &&& 0x0F)
  b1 := (if mask then 0x80 else 0) ||| basicValue size

def getFin (h : BasicHeader) : Bool := h.b0 &&& 0x80 = 0x80
def getRsv1 (h : BasicHeader) : Bool := h.b0 &&& 0x40 = 0x40
def getRsv2 (h : BasicHeader) : Bool := h.b0 &&& 0x20 = 0x20
def getRsv3 (h : BasicHeader) : Bool := h.b0 &&& 0x10 = 0x10
def getOpcode (h : BasicHeader) : Opcode := .ofValue (h.b0 &&& 0x0F).toNat
def getMasked (h : BasicHeader) : Bool := h.b1 &&& 0x80 = 0x80
def getBasicSize (h : BasicHeader) : Nat := (h.b1 &&& 0x7F).toNat

def getMaskingKeyOffset (h : BasicHeader) : Nat :=
  if h.getBasicSize = payloadSizeCode16bit then 2
  else if h.getBasicSize = payloadSizeCode64bit then 8
  else 0

def getHeaderLen (h : BasicHeader) : Nat :=
  let size := basicHeaderLength + h.getMaskingKeyOffset
  if h.getMasked then size + 4 else size

end BasicHeader

/-- An integer of `w` bytes from one byte order to the other, where the two differ. -/
def networkOrder (o : ByteOrder) (w v : Nat) : Nat :=
  match o with
  | .little => o.load (o.store w v).reverse
  | .big => v

def htonll (o : ByteOrder) (src : Nat) : Nat := networkOrder o 8 src
def ntohll (o : ByteOrder) (src : Nat) : Nat := htonll o src
def ntohs (o : ByteOrder) (v : Nat) : Nat := networkOrder o 2 v

/-- `std::copy` into an array. -/
def copyInto (bytes : Bytes) (offset : Nat) (src : Bytes) : Bytes :=
  bytes.take offset ++ src ++ bytes.drop (offset + src.length)

/-- The `bytes` of an `extended_header`. -/
abbrev ExtendedHeader := Bytes

namespace ExtendedHeader

def empty : ExtendedHeader := List.replicate maxExtendedHeaderLength 0

def copyPayload (o : ByteOrder) (e : ExtendedHeader) (payloadSize : Nat) : ExtendedHeader × Nat :=
  let payloadOffset :=
    if payloadSize ≤ payloadSizeBasic then 8
    else if payloadSize ≤ payloadSizeExtended then 6
    else 0
  (copyInto e 0 ((o.store 8 (htonll o payloadSize)).drop payloadOffset), 8 - payloadOffset)

def ofSize (o : ByteOrder) (payloadSize : Nat) : ExtendedHeader := (copyPayload o empty payloadSize).1

def ofSizeKey (o : ByteOrder) (payloadSize maskingKey : Nat) : ExtendedHeader :=
  let r := copyPayload o empty payloadSize
  copyInto r.1 r.2 (o.store 4 maskingKey)

def getExtendedSize (o : ByteOrder) (e : ExtendedHeader) : Nat := ntohs o (o.load (e.take 2))

def getJumboSize (o : ByteOrder) (e : ExtendedHeader) : Nat := ntohll o (o.load (e.take 8))

end ExtendedHeader

def prepareHeader (h : BasicHeader) (e : ExtendedHeader) : Bytes :=
  h.b0 :: h.b1 :: e.take (h.getHeaderLen - basicHeaderLength)

/-- The `i` of the masking key. -/
def getMaskingKey (o : ByteOrder) (h : BasicHeader) (e : ExtendedHeader) : Nat :=
  if h.getMasked then o.load ((e.drop h.getMaskingKeyOffset).take 4) else 0

def getPayloadSize (o : ByteOrder) (h : BasicHeader) (e : ExtendedHeader) : Nat :=
  if h.getBasicSize ≤ payloadSizeBasic then h.getBasicSize
  else if h.getBasicSize = payloadSizeCode16bit then e.getExtendedSize o
  else e.getJumboSize o

def prepareMaskingKey (key : Nat) : Nat := (key <<< 32 % 2 ^ 64) ||| key

def circshiftPreparedKey (o : ByteOrder) (preparedKey offset : Nat) : Nat :=
  if offset = 0 then preparedKey
  else
    match o with
    | .little => (preparedKey >>> (offset * 8)) ||| (preparedKey <<< ((8 - offset) * 8) % 2 ^ 64)
    | .big => (preparedKey <<< (offset * 8) % 2 ^ 64) ||| (preparedKey >>> ((8 - offset) * 8))

/-- The loop of `byte_mask`, from `key_index`; `key` is the `c` of the masking key. -/
def byteMask (key : Bytes) : Nat → Bytes → Bytes
  | _, [] => []
  | keyIndex, b :: rest => (b ^^^ key.getD keyIndex 0) :: byteMask key ((keyIndex + 1) % 4) rest

/-- The masked bytes, and the prepared key for the bytes that follow. -/
def byteMaskCirc (o : ByteOrder) (data : Bytes) (preparedKey : Nat) : Bytes × Nat :=
  let key := o.store 4 (preparedKey % 2 ^ 32)
  (data.mapIdx fun i b => b ^^^ key.getD (i % 4) 0, circshiftPreparedKey o preparedKey (data.length % 4))

/-! ### The fields of a header -/

variable {o : ByteOrder} {op : Opcode} {fin mask : Bool} {size n : Nat} {h : BasicHeader}
  {key data a b e : Bytes}

theorem Opcode.ofValue_value (op : Opcode) : ofValue op.value = op := by cases op <;> decide

theorem Opcode.value_lt (op : Opcode) : op.value < 16 := by cases op <;> decide

namespace BasicHeader

theorem first_byte : ∀ v < 16, ∀ fin : Bool,
    let b : UInt8 := (if fin then 0x80 else 0) ||| (UInt8.ofNat v &&& 0x0F)
    (b &&& 0x80 = 0x80 ↔ fin = true) ∧ b &&& 0x40 ≠ 0x40 ∧ b &&& 0x20 ≠ 0x20 ∧ b &&& 0x10 ≠ 0x10 ∧
      (b &&& 0x0F).toNat = v := by
  decide +kernel

@[simp] theorem getFin_make : (make op size fin mask).getFin = fin := by
  unfold getFin make
  rw [Bool.eq_iff_iff, decide_eq_true_iff]
  exact (first_byte _ op.value_lt fin).1

@[simp] theorem getRsv1_make : (make op size fin mask).getRsv1 = false :=
  decide_eq_false (first_byte _ op.value_lt fin).2.1

@[simp] theorem getRsv2_make : (make op size fin mask).getRsv2 = false :=
  decide_eq_false (first_byte _ op.value_lt fin).2.2.1

@[simp] theorem getRsv3_make : (make op size fin mask).getRsv3 = false :=
  decide_eq_false (first_byte _ op.value_lt fin).2.2.2.1

@[simp] theorem getOpcode_make : (make op size fin mask).getOpcode = op := by
  unfold getOpcode make
  rw [(first_byte _ op.value_lt fin).2.2.2.2, op.ofValue_value]

/-- The seven bits that stand for a size. -/
def sizeCode (size : Nat) : Nat :=
  if size ≤ 125 then size else if size ≤ 0xFFFF then 126 else 127

theorem sizeCode_lt (size : Nat) : sizeCode size < 128 := by
  unfold sizeCode
  split_ifs <;> omega

theorem basicValue_eq (size : Nat) : basicValue size = UInt8.ofNat (sizeCode size) := by
  unfold basicValue sizeCode payloadSizeBasic payloadSizeExtended
  split_ifs <;> rfl

theorem second_byte : ∀ n < 128, ∀ mask : Bool,
    ((((if mask then 0x80 else 0) ||| UInt8.ofNat n : UInt8) &&& 0x80 = 0x80) ↔ mask = true) ∧
      (((if mask then 0x80 else 0) ||| UInt8.ofNat n : UInt8) &&& 0x7F).toNat = n := by
  decide +kernel

@[simp] theorem getMasked_make : (make op size fin mask).getMasked = mask := by
  unfold getMasked make
  rw [basicValue_eq, Bool.eq_iff_iff, decide_eq_true_iff]
  exact (second_byte _ (sizeCode_lt size) mask).1

@[simp] theorem getBasicSize_make : (make op size fin mask).getBasicSize = sizeCode size := by
  unfold getBasicSize make
  rw [basicValue_eq]
  exact (second_byte _ (sizeCode_lt size) mask).2

theorem header_bytes : ∀ n < 256,
    let b := UInt8.ofNat n
    (b &&& 0x40 ≠ 0x40 → b &&& 0x20 ≠ 0x20 → b &&& 0x10 ≠ 0x10 →
      b = (if b &&& 0x80 = 0x80 then 0x80 else 0) ||| (UInt8.ofNat (b &&& 0x0F).toNat &&& 0x0F)) ∧
      b = (if b &&& 0x80 = 0x80 then 0x80 else 0) ||| UInt8.ofNat (b &&& 0x7F).toNat ∧
      (b &&& 0x0F).toNat < 16 ∧ (b &&& 0x7F).toNat < 128 := by
  decide +kernel

theorem byte_parts (b : UInt8) :
    (b &&& 0x40 ≠ 0x40 → b &&& 0x20 ≠ 0x20 → b &&& 0x10 ≠ 0x10 →
      b = (if b &&& 0x80 = 0x80 then 0x80 else 0) ||| (UInt8.ofNat (b &&& 0x0F).toNat &&& 0x0F)) ∧
      b = (if b &&& 0x80 = 0x80 then 0x80 else 0) ||| UInt8.ofNat (b &&& 0x7F).toNat ∧
      (b &&& 0x0F).toNat < 16 ∧ (b &&& 0x7F).toNat < 128 := by
  have h := header_bytes b.toNat b.toNat_lt
  simp only [UInt8.ofNat_toNat] at h ⊢
  exact h

theorem value_ofValue : ∀ v < 16, (Opcode.ofValue v).value = v := by decide

theorem getBasicSize_lt (h : BasicHeader) : h.getBasicSize < 128 := (byte_parts h.b1).2.2.2

/-- A header without reserved bits is the one that is made of its fields. -/
theorem eq_make (h : BasicHeader) (h1 : h.getRsv1 = false) (h2 : h.getRsv2 = false)
    (h3 : h.getRsv3 = false) (hsize : sizeCode size = h.getBasicSize) :
    h = make h.getOpcode size h.getFin h.getMasked := by
  obtain ⟨b0, b1⟩ := h
  have hfirst := (byte_parts b0).1 (of_decide_eq_false h1) (of_decide_eq_false h2)
    (of_decide_eq_false h3)
  have hsecond := (byte_parts b1).2.1
  have hop : (getOpcode ⟨b0, b1⟩).value = (b0 &&& 0x0F).toNat :=
    value_ofValue _ (byte_parts b0).2.2.1
  unfold make
  rw [basicValue_eq, hsize, hop]
  simp only [getFin, getMasked, getBasicSize, decide_eq_true_eq]
  rw [← hfirst, ← hsecond]

end BasicHeader

/-! ### Sizes and keys behind the basic header -/

theorem store_networkOrder (o : ByteOrder) (w v : Nat) :
    o.store w (networkOrder o w v) = (littleEndian w v).reverse := by
  cases o with
  | little =>
    have h := littleEndian_littleValue (littleEndian w v).reverse
    rw [List.length_reverse, length_littleEndian] at h
    exact h
  | big => rfl

theorem networkOrder_load (o : ByteOrder) (bs : Bytes) :
    networkOrder o bs.length (o.load bs) = littleValue bs.reverse := by
  cases o with
  | little =>
    simp only [networkOrder, ByteOrder.load, ByteOrder.store, littleEndian_littleValue]
  | big => rfl

/-- The bytes of a size behind the basic header. -/
def sizeBytes (size : Nat) : Bytes :=
  if size ≤ 125 then []
  else if size ≤ 0xFFFF then (littleEndian 2 size).reverse
  else (littleEndian 8 size).reverse

/-- The bytes of a masking key, behind those of the size. -/
def keyBytes (mask : Bool) (key : Bytes) : Bytes := if mask then key else []

theorem copyPayload_eq (o : ByteOrder) (size : Nat) :
    ExtendedHeader.copyPayload o .empty size =
      (sizeBytes size ++ ExtendedHeader.empty.drop (sizeBytes size).length,
        (sizeBytes size).length) := by
  simp only [ExtendedHeader.copyPayload, htonll, store_networkOrder, payloadSizeBasic,
    payloadSizeExtended, sizeBytes]
  by_cases h1 : size ≤ 125
  · simp only [if_pos h1]
    rfl
  · by_cases h2 : size ≤ 0xFFFF
    · simp only [if_neg h1, if_pos h2]
      rfl
    · simp only [if_neg h1, if_neg h2]
      rfl

theorem length_sizeBytes (size : Nat) : (sizeBytes size).length ≤ 8 := by
  unfold sizeBytes
  split_ifs <;> simp

theorem ofSizeKey_take (o : ByteOrder) (size key : Nat) :
    (ExtendedHeader.ofSizeKey o size key).take ((sizeBytes size).length + 4) =
      sizeBytes size ++ o.store 4 key := by
  unfold ExtendedHeader.ofSizeKey
  rw [copyPayload_eq]
  dsimp only [copyInto]
  rw [List.take_left' rfl, List.take_left' (by simp)]

theorem ofSize_take (o : ByteOrder) (size : Nat) :
    (ExtendedHeader.ofSize o size).take (sizeBytes size).length = sizeBytes size := by
  unfold ExtendedHeader.ofSize
  rw [copyPayload_eq]
  exact List.take_left

theorem getMaskingKeyOffset_eq (hsize : BasicHeader.sizeCode size = h.getBasicSize) :
    h.getMaskingKeyOffset = (sizeBytes size).length := by
  unfold BasicHeader.getMaskingKeyOffset payloadSizeCode16bit payloadSizeCode64bit
  rw [← hsize]
  unfold BasicHeader.sizeCode sizeBytes
  split_ifs <;> first | omega | rfl

theorem getHeaderLen_eq (hsize : BasicHeader.sizeCode n = h.getBasicSize) :
    h.getHeaderLen - basicHeaderLength = (sizeBytes n).length + if h.getMasked then 4 else 0 := by
  unfold BasicHeader.getHeaderLen
  rw [getMaskingKeyOffset_eq hsize]
  split_ifs <;> simp only [basicHeaderLength] <;> omega

/-- The fields of a header one after another. -/
def headerBytes (op : Opcode) (size : Nat) (fin mask : Bool) (key : Bytes) : Bytes :=
  let h := BasicHeader.make op size fin mask
  [h.b0, h.b1] ++ (sizeBytes size ++ keyBytes mask key)

theorem prepareHeader_key (o : ByteOrder) (op : Opcode) (size : Nat) (fin : Bool) (key : Nat) :
    prepareHeader (.make op size fin true) (.ofSizeKey o size key) =
      headerBytes op size fin true (o.store 4 key) := by
  rw [prepareHeader, getHeaderLen_eq (n := size) BasicHeader.getBasicSize_make.symm,
    BasicHeader.getMasked_make, if_pos rfl, ofSizeKey_take]
  rfl

theorem prepareHeader_plain (o : ByteOrder) (op : Opcode) (size : Nat) (fin : Bool) (key : Bytes) :
    prepareHeader (.make op size fin false) (.ofSize o size) = headerBytes op size fin false key := by
  rw [prepareHeader, getHeaderLen_eq (n := size) BasicHeader.getBasicSize_make.symm,
    BasicHeader.getMasked_make, if_neg Bool.false_ne_true, Nat.add_zero, ofSize_take]
  simp [headerBytes, keyBytes]

theorem getPayloadSize_eq (hsize : BasicHeader.sizeCode size = h.getBasicSize) (hlt : size < 2 ^ 64)
    (he : e.take (sizeBytes size).length = sizeBytes size) : getPayloadSize o h e = size := by
  unfold BasicHeader.sizeCode at hsize
  unfold sizeBytes at he
  unfold getPayloadSize
  rw [← hsize]
  by_cases h1 : size ≤ 125
  · simp only [if_pos h1]
  · by_cases h2 : size ≤ 0xFFFF
    · simp only [if_neg h1, if_pos h2, List.length_reverse, length_littleEndian] at he ⊢
      have hload := networkOrder_load o (littleEndian 2 size).reverse
      rw [List.length_reverse, length_littleEndian, List.reverse_reverse,
        littleValue_littleEndian (by omega)] at hload
      rw [if_neg (by decide), if_pos trivial, ExtendedHeader.getExtendedSize, he]
      exact hload
    · simp only [if_neg h1, if_neg h2, List.length_reverse, length_littleEndian] at he ⊢
      have hload := networkOrder_load o (littleEndian 8 size).reverse
      rw [List.length_reverse, length_littleEndian, List.reverse_reverse,
        littleValue_littleEndian (by omega)] at hload
      rw [if_neg (by decide), if_neg (by decide), ExtendedHeader.getJumboSize, he]
      exact hload

theorem take_networkOrder {w : Nat} (hlen : w ≤ e.length) :
    networkOrder o w (o.load (e.take w)) < 256 ^ w ∧
      (littleEndian w (networkOrder o w (o.load (e.take w)))).reverse = e.take w := by
  have hw : (e.take w).length = w := by rw [List.length_take]; omega
  have hload := networkOrder_load o (e.take w)
  have hlt := littleValue_lt (e.take w).reverse
  have hback := littleEndian_littleValue (e.take w).reverse
  rw [List.length_reverse, hw] at hlt hback
  rw [hw] at hload
  rw [hload, hback, List.reverse_reverse]
  exact ⟨hlt, rfl⟩

/-- A size that is not written longer than it must be. -/
theorem size_of_header (hlen : e.length = maxExtendedHeaderLength)
    (h16 : h.getBasicSize = payloadSizeCode16bit → payloadSizeBasic < getPayloadSize o h e)
    (h64 : h.getBasicSize = payloadSizeCode64bit → payloadSizeExtended < getPayloadSize o h e) :
    BasicHeader.sizeCode (getPayloadSize o h e) = h.getBasicSize ∧
      e.take (sizeBytes (getPayloadSize o h e)).length = sizeBytes (getPayloadSize o h e) ∧
      getPayloadSize o h e < 2 ^ 64 := by
  have hlt := h.getBasicSize_lt
  unfold getPayloadSize at h16 h64 ⊢
  unfold payloadSizeBasic payloadSizeCode16bit at *
  unfold payloadSizeExtended payloadSizeCode64bit at h64
  unfold maxExtendedHeaderLength at hlen
  by_cases h1 : h.getBasicSize ≤ 125
  · rw [if_pos h1]
    refine ⟨if_pos h1, ?_, by omega⟩
    rw [sizeBytes, if_pos h1]
    rfl
  · by_cases h2 : h.getBasicSize = 0x7E
    · obtain ⟨hvalue, hbytes⟩ := take_networkOrder (o := o) (e := e) (w := 2) (by omega)
      have hbig := h16 h2
      rw [if_neg h1, if_pos h2, ExtendedHeader.getExtendedSize, ntohs] at hbig ⊢
      generalize networkOrder o 2 (o.load (e.take 2)) = v at hvalue hbytes hbig ⊢
      refine ⟨?_, ?_, by omega⟩
      · rw [BasicHeader.sizeCode, if_neg (by omega), if_pos (by omega), h2]
      · rw [sizeBytes, if_neg (by omega), if_pos (by omega), hbytes, List.length_take]
        exact congrArg (List.take · e) (by omega)
    · obtain ⟨hvalue, hbytes⟩ := take_networkOrder (o := o) (e := e) (w := 8) (by omega)
      have hbig := h64 (by omega)
      rw [if_neg h1, if_neg h2, ExtendedHeader.getJumboSize, ntohll, htonll] at hbig ⊢
      generalize networkOrder o 8 (o.load (e.take 8)) = v at hvalue hbytes hbig ⊢
      refine ⟨?_, ?_, by omega⟩
      · rw [BasicHeader.sizeCode, if_neg (by omega), if_neg (by omega)]
        omega
      · rw [sizeBytes, if_neg (by omega), if_neg (by omega), hbytes, List.length_take]
        exact congrArg (List.take · e) (by omega)

/-! ### Masking -/

@[simp] theorem length_byteMask (key : Bytes) (n : Nat) (data : Bytes) :
    (byteMask key n data).length = data.length := by
  induction data generalizing n with
  | nil => rfl
  | cons b data ih => rw [byteMask, List.length_cons, ih, List.length_cons]

theorem byteMask_append (hn : n < 4) (a b : Bytes) :
    byteMask key n (a ++ b) = byteMask key n a ++ byteMask key ((n + a.length) % 4) b := by
  induction a generalizing n with
  | nil => simp [byteMask, Nat.mod_eq_of_lt hn]
  | cons x a ih =>
    rw [List.cons_append, byteMask, ih (by omega), byteMask, List.cons_append, List.length_cons]
    congr 3
    omega

/-- Masking twice with one key gives the data back. -/
theorem byteMask_byteMask (key : Bytes) (n : Nat) (data : Bytes) :
    byteMask key n (byteMask key n data) = data := by
  induction data generalizing n with
  | nil => rfl
  | cons b data ih =>
    rw [byteMask, byteMask, ih, UInt8.xor_assoc, UInt8.xor_self, UInt8.xor_zero]

theorem byteMask_rotate (hkey : key.length = 4) (hn : n < 4) (m : Nat) (data : Bytes) :
    byteMask (key.rotate m) n data = byteMask key ((n + m) % 4) data := by
  induction data generalizing n with
  | nil => rfl
  | cons b data ih =>
    have hget : (key.rotate m).getD n 0 = key.getD ((n + m) % 4) 0 := by
      rw [List.getD_eq_getElem?_getD, List.getElem?_rotate (by omega), hkey,
        List.getD_eq_getElem?_getD]
    rw [byteMask, byteMask, ih (by omega), hget]
    congr 2
    omega

theorem byteMask_eq_mapIdx (key data : Bytes) (n : Nat) (hn : n < 4) :
    byteMask key n data = data.mapIdx fun i b => b ^^^ key.getD ((n + i) % 4) 0 := by
  induction data generalizing n with
  | nil => rfl
  | cons b data ih =>
    rw [byteMask, List.mapIdx_cons, ih _ (by omega)]
    congr 2
    · rw [Nat.add_zero, Nat.mod_eq_of_lt hn]
    · funext i b
      congr 2
      omega

theorem littleValue_append (a b : Bytes) :
    littleValue (a ++ b) = littleValue a + 256 ^ a.length * littleValue b := by
  induction a with
  | nil => simp [littleValue]
  | cons x a ih =>
    rw [List.cons_append, littleValue, littleValue, ih, List.length_cons, pow_succ]
    ring

/-- The prepared key for a position where `key` comes next: the key twice, as eight bytes of memory. -/
def prepared (o : ByteOrder) (key : Bytes) : Nat := o.load (key ++ key)

theorem prepareMaskingKey_eq (o : ByteOrder) (hkey : key.length = 4) :
    prepareMaskingKey (o.load key) = prepared o key := by
  have key_twice : ∀ bs : Bytes, bs.length = 4 →
      prepareMaskingKey (littleValue bs) = littleValue (bs ++ bs) := by
    intro bs hbs
    have hlt := littleValue_lt bs
    rw [hbs] at hlt
    have hmod : littleValue bs <<< 32 % 2 ^ 64 = littleValue bs <<< 32 := by
      rw [Nat.shiftLeft_eq]
      exact Nat.mod_eq_of_lt (by omega)
    rw [prepareMaskingKey, hmod, ← Nat.shiftLeft_add_eq_or_of_lt (by omega), Nat.shiftLeft_eq,
      littleValue_append, hbs]
    omega
  cases o with
  | little => exact key_twice key hkey
  | big =>
    rw [prepared, ByteOrder.load, ByteOrder.load, List.reverse_append]
    exact key_twice _ (by rw [List.length_reverse, hkey])

/-- The low bytes of a number to its top. -/
theorem rotate_low (a b : Bytes) (hlen : a.length + b.length = 8) :
    (littleValue (a ++ b) >>> (a.length * 8)) |||
        (littleValue (a ++ b) <<< ((8 - a.length) * 8) % 2 ^ 64) = littleValue (b ++ a) := by
  have ha := littleValue_lt a
  have hb := littleValue_lt b
  have hpow : ∀ k, 2 ^ (k * 8) = 256 ^ k := fun k => by
    rw [Nat.mul_comm, pow_mul, show (2 : Nat) ^ 8 = 256 from rfl]
  have hblen : 8 - a.length = b.length := by omega
  have h64 : (2 : Nat) ^ 64 = 256 ^ a.length * 256 ^ b.length := by
    rw [← pow_add, hlen, show (2 : Nat) ^ 64 = 256 ^ 8 from rfl]
  have hlow : littleValue (a ++ b) >>> (a.length * 8) = littleValue b := by
    rw [Nat.shiftRight_eq_div_pow, hpow, littleValue_append,
      Nat.add_mul_div_left _ _ (Nat.pow_pos (by decide)), Nat.div_eq_of_lt ha, Nat.zero_add]
  have hhigh : littleValue (a ++ b) <<< ((8 - a.length) * 8) % 2 ^ 64 =
      littleValue a <<< (b.length * 8) := by
    rw [Nat.shiftLeft_eq, Nat.shiftLeft_eq, hblen, hpow, h64, Nat.mul_mod_mul_right,
      littleValue_append, Nat.add_mul_mod_self_left, Nat.mod_eq_of_lt ha]
  rw [hlow, hhigh, Nat.or_comm, ← Nat.shiftLeft_add_eq_or_of_lt (by rw [hpow]; exact hb),
    Nat.shiftLeft_eq, hpow, littleValue_append]
  ring

theorem circshiftPreparedKey_append (o : ByteOrder) (a b : Bytes) (hkey : (a ++ b).length = 4)
    (hb : b ≠ []) :
    circshiftPreparedKey o (prepared o (a ++ b)) a.length = prepared o (b ++ a) := by
  have hpos := List.length_pos_of_ne_nil hb
  rw [List.length_append] at hkey
  unfold circshiftPreparedKey
  split
  · next h0 =>
    rw [List.eq_nil_of_length_eq_zero h0, List.nil_append, List.append_nil]
  · cases o with
    | little =>
      have h := rotate_low a (b ++ (a ++ b)) (by simp only [List.length_append]; omega)
      simp only [← List.append_assoc] at h
      dsimp only [prepared, ByteOrder.load]
      simp only [← List.append_assoc]
      exact h
    | big =>
      have h := rotate_low (b ++ (a ++ b)).reverse a.reverse
        (by simp only [List.length_reverse, List.length_append]; omega)
      rw [← List.reverse_append, ← List.reverse_append, List.length_reverse, Nat.or_comm] at h
      have hwidth : (b ++ (a ++ b)).length = 8 - a.length := by
        simp only [List.length_append]
        omega
      have hback : 8 - (8 - a.length) = a.length := by omega
      rw [hwidth, hback] at h
      dsimp only [prepared, ByteOrder.load]
      simp only [← List.append_assoc] at h ⊢
      exact h

theorem circshiftPreparedKey_eq (o : ByteOrder) (hkey : key.length = 4) (hn : n < 4) :
    circshiftPreparedKey o (prepared o key) n = prepared o (key.rotate n) := by
  have htake : (key.take n).length = n := by rw [List.length_take]; omega
  have hdrop : (key.drop n).length = 4 - n := by rw [List.length_drop, hkey]
  have h := circshiftPreparedKey_append o (key.take n) (key.drop n)
    (by rw [List.take_append_drop, hkey]) (List.ne_nil_of_length_pos (by omega))
  rw [List.take_append_drop, htake] at h
  rw [h, List.rotate_eq_drop_append_take (by omega)]

/-- The masking of a stream in pieces is that of the whole. -/
theorem byteMaskCirc_eq (o : ByteOrder) (hkey : key.length = 4) (data : Bytes) :
    byteMaskCirc o data (prepared o key) =
      (byteMask key 0 data, prepared o (key.rotate (data.length % 4))) := by
  have hlow : o.store 4 (prepared o key % 2 ^ 32) = key := by
    cases o with
    | little =>
      have hlt := littleValue_lt key
      have hback := littleEndian_littleValue key
      rw [hkey] at hlt hback
      dsimp only [prepared, ByteOrder.load, ByteOrder.store]
      rw [littleValue_append, hkey, show (2 : Nat) ^ 32 = 256 ^ 4 from rfl, Nat.add_mul_mod_self_left,
        Nat.mod_eq_of_lt hlt, hback]
    | big =>
      have hlt := littleValue_lt key.reverse
      have hback := littleEndian_littleValue key.reverse
      rw [List.length_reverse, hkey] at hlt hback
      dsimp only [prepared, ByteOrder.load, ByteOrder.store]
      rw [List.reverse_append, littleValue_append, List.length_reverse, hkey,
        show (2 : Nat) ^ 32 = 256 ^ 4 from rfl, Nat.add_mul_mod_self_left, Nat.mod_eq_of_lt hlt, hback,
        List.reverse_reverse]
  dsimp only [byteMaskCirc]
  rw [hlow, circshiftPreparedKey_eq o hkey (Nat.mod_lt _ (by decide)),
    byteMask_eq_mapIdx key data 0 (by decide)]
  simp only [Nat.zero_add]

end NetworkUtility.Websocketpp
