import Mathlib.Data.List.Basic
import NetworkUtility.Base.ByteOrder

/-! What the overloads of string_codec.cpp read from and write to. The codecs look at the bits of a
`char` only. -/
namespace NetworkUtility.StringCodec

inductive CharType
  | char
  | unsignedChar
  deriving Repr, DecidableEq

/-- A `char` is taken to be signed. -/
abbrev CharType.Elem : CharType → Type
  | char => Int8
  | unsignedChar => UInt8

def toByte : {c : CharType} → c.Elem → UInt8
  | .char, x => Int8.toUInt8 x
  | .unsignedChar, x => x

def ofByte : {c : CharType} → UInt8 → c.Elem
  | .char, byte => UInt8.toInt8 byte
  | .unsignedChar, byte => byte

variable {c : CharType}

@[simp] theorem ofByte_toByte (x : c.Elem) : ofByte (toByte x) = x := by
  cases c <;> rfl

@[simp] theorem toByte_ofByte (byte : UInt8) : toByte (ofByte byte : c.Elem) = byte := by
  cases c <;> rfl

def toBytes (xs : List c.Elem) : Bytes := xs.map toByte

def ofBytes (bytes : Bytes) : List c.Elem := bytes.map ofByte

@[simp] theorem ofBytes_toBytes (xs : List c.Elem) : ofBytes (toBytes xs) = xs := by
  induction xs with
  | nil => rfl
  | cons x xs ih => exact congrArg₂ List.cons (ofByte_toByte x) ih

@[simp] theorem toBytes_ofBytes (bytes : Bytes) :
    toBytes (ofBytes bytes : List c.Elem) = bytes := by
  induction bytes with
  | nil => rfl
  | cons byte bytes ih => exact congrArg₂ List.cons (toByte_ofByte byte) ih

@[simp] theorem length_toBytes (xs : List c.Elem) : (toBytes xs).length = xs.length :=
  List.length_map _

@[simp] theorem length_ofBytes (bytes : Bytes) :
    (ofBytes bytes : List c.Elem).length = bytes.length :=
  List.length_map _

@[simp] theorem ofBytes_eq_nil {bytes : Bytes} :
    (ofBytes bytes : List c.Elem) = [] ↔ bytes = [] :=
  List.map_eq_nil_iff

/-- The characters of a `std::string`. -/
abbrev StdString := List CharType.char.Elem

/-- A pointer and a length. A null pointer can come with any length. -/
inductive Buffer
  | null (len : Nat)
  | data (bytes : Bytes)
  deriving Repr, DecidableEq

def Buffer.length : Buffer → Nat
  | null len => len
  | data bytes => bytes.length

/-- `std::vector`. An empty one may have no memory behind it. -/
structure StdVector (c : CharType) where
  elems : List c.Elem
  isNull : Bool
  empty_of_isNull : isNull = true → elems = []

/-- `data()` and `size()`. -/
def StdVector.data (v : StdVector c) : Buffer :=
  if v.isNull then .null v.elems.length else .data (toBytes v.elems)

/-- A C string, up to its zero. -/
structure CString where
  bytes : Bytes
  no_zero : 0 ∉ bytes

/-- What `hex_encode` and `base64_encode` are called with; a null C string is `none`. -/
inductive Source
  | pointer (src : Buffer)
  | vector (c : CharType) (src : StdVector c)
  | string (src : StdString)
  | cString (src : Option CString)

/-- What `hex_decode` and `base64_decode` are called with. -/
inductive Text
  | pointer (src : Buffer)
  | string (src : StdString)
  | cString (src : Option CString)

/-- What the source stands for, if it stands for anything. -/
def Source.bytes : Source → Option Bytes
  | pointer (.null len) => if len = 0 then some [] else none
  | pointer (.data src) => some src
  | vector _ src => some (toBytes src.elems)
  | string src => some (toBytes src)
  | cString src => src.map CString.bytes

def Text.bytes : Text → Option Bytes
  | pointer (.null _) => none
  | pointer (.data src) => some src
  | string src => some (toBytes src)
  | cString src => src.map CString.bytes

/-- The source comes down to a null pointer. -/
def Source.isNull : Source → Bool
  | pointer (.null _) => true
  | pointer (.data _) => false
  | vector _ src => src.isNull
  | string _ => false
  | cString src => src.isNone

/-- The result, and the bytes that `dst` is left with. -/
def written (r : Bool × Bytes) : Bool × List c.Elem := (r.1, ofBytes r.2)

/-- The overloads of an encoder. That for a C string looks at the pointer before `dst` is cleared. -/
def encodeOverload (encode : Buffer → Bool × Bytes) : Source → StdString → Bool × StdString
  | .pointer src, _ => written (encode src)
  | .vector _ src, _ => written (encode src.data)
  | .string src, _ => written (encode (.data (toBytes src)))
  | .cString none, dst => (false, dst)
  | .cString (some src), _ => written (encode (.data src.bytes))

/-- The overloads of a decoder, for any container. -/
def decodeOverload (decode : Option Bytes → Bool × Bytes) :
    Text → List c.Elem → Bool × List c.Elem
  | .pointer (.null _), _ => written (decode none)
  | .pointer (.data src), _ => written (decode (some src))
  | .string src, _ => written (decode (some (toBytes src)))
  | .cString none, dst => (false, dst)
  | .cString (some src), _ => written (decode (some src.bytes))

variable {v : StdVector c} {src : Bytes} {source : Source} {text : Text}
  {decode : Option Bytes → Bool × Bytes}

theorem StdVector.data_of_isNull (h : v.isNull = true) : v.data = .null 0 := by
  simp [StdVector.data, h, v.empty_of_isNull h]

theorem StdVector.data_of_not_isNull (h : v.isNull = false) : v.data = .data (toBytes v.elems) := by
  simp [StdVector.data, h]

theorem encodeOverload_of_bytes (encode : Buffer → Bool × Bytes)
    (h : source.bytes = some src) (hnull : source.isNull = false) (dst : StdString) :
    encodeOverload encode source dst = written (encode (.data src)) := by
  cases source with
  | pointer buffer =>
    cases buffer with
    | null len => simp [Source.isNull] at hnull
    | data bytes =>
      obtain rfl : bytes = src := by simpa [Source.bytes] using h
      rfl
  | vector c v =>
    obtain rfl : toBytes v.elems = src := by simpa [Source.bytes] using h
    simp only [encodeOverload, StdVector.data_of_not_isNull hnull]
  | string s =>
    obtain rfl : toBytes s = src := by simpa [Source.bytes] using h
    rfl
  | cString s =>
    cases s with
    | none => simp [Source.bytes] at h
    | some s =>
      obtain rfl : s.bytes = src := by simpa [Source.bytes] using h
      rfl

/-- A null pointer can only stand for no bytes at all. -/
theorem encodeOverload_of_isNull (encode : Buffer → Bool × Bytes)
    (h : source.bytes = some src) (hnull : source.isNull = true) (dst : StdString) :
    src = [] ∧ encodeOverload encode source dst = written (encode (.null 0)) := by
  cases source with
  | pointer buffer =>
    cases buffer with
    | null len =>
      by_cases hlen : len = 0
      · subst hlen
        exact ⟨by simpa [Source.bytes] using h.symm, rfl⟩
      · simp [Source.bytes, hlen] at h
    | data bytes => simp [Source.isNull] at hnull
  | vector c v =>
    obtain rfl : toBytes v.elems = src := by simpa [Source.bytes] using h
    refine ⟨by simp [v.empty_of_isNull hnull, toBytes], ?_⟩
    simp only [encodeOverload, StdVector.data_of_isNull hnull]
  | string s => simp [Source.isNull] at hnull
  | cString s =>
    cases s with
    | none => simp [Source.bytes] at h
    | some s => simp [Source.isNull] at hnull

theorem decodeOverload_of_bytes (h : text.bytes = some src) (dst : List c.Elem) :
    decodeOverload decode text dst = written (decode (some src)) := by
  cases text with
  | pointer buffer =>
    cases buffer with
    | null len => simp [Text.bytes] at h
    | data bytes =>
      obtain rfl : bytes = src := by simpa [Text.bytes] using h
      rfl
  | string s =>
    obtain rfl : toBytes s = src := by simpa [Text.bytes] using h
    rfl
  | cString s =>
    cases s with
    | none => simp [Text.bytes] at h
    | some s =>
      obtain rfl : s.bytes = src := by simpa [Text.bytes] using h
      rfl

end NetworkUtility.StringCodec
