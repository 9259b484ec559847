import NetworkUtility.StringCodec.Hex
import NetworkUtility.StringCodec.RoundTrip

/-! The checks in front of the loops of string_codec.cpp. `hex_encode` looks at the pointer where
`base64_encode` looks at the length first, and the overloads for C strings look at the pointer before
anything is cleared. -/
namespace NetworkUtility.StringCodec

variable {c : CharType} {src dst s t : Bytes} {lower : Bool} {source : Source} {text : Text}
  {encode : Buffer → Bool × Bytes} {decode : Option Bytes → Bool × Bytes}

/-- The digits of a byte, and the byte that they are read back as. -/
theorem binaryToHex_spec (lower : Bool) (byte : UInt8) : ∃ high low,
    binaryToHex lower byte = [high, low] ∧ high ∈ hexTable lower ∧ low ∈ hexTable lower ∧
      hexIndex high <<< 4 ||| hexIndex low = byte := by
  have hlt := byte.toNat_lt
  obtain ⟨hhigh, hhighIndex⟩ := hexIndex_hexTable lower (n := byte.toNat / 16) (by omega)
  obtain ⟨hlow, hlowIndex⟩ := hexIndex_hexTable lower (n := byte.toNat % 16) (by omega)
  rw [← toNat_high, UInt8.toNat_inj] at hhighIndex
  rw [← toNat_low, UInt8.toNat_inj] at hlowIndex
  rw [← toNat_high] at hhigh
  rw [← toNat_low] at hlow
  refine ⟨_, _, rfl, hhigh, hlow, ?_⟩
  rw [hhighIndex, hlowIndex, pair_of_halves]

theorem isHexDigit_of_mem {symbol : UInt8} (h : symbol ∈ hexTable lower) : IsHexDigit symbol := by
  rw [isHexDigit_iff_mem, List.mem_append]
  cases lower with
  | true => exact Or.inl h
  | false => exact Or.inr h

/-- The text of a byte sequence. -/
theorem hexText_spec (lower : Bool) (src : Bytes) :
    (src.flatMap (binaryToHex lower)).length = 2 * src.length ∧
      (∀ symbol ∈ src.flatMap (binaryToHex lower), symbol ∈ hexTable lower) ∧
      hexPairs (src.flatMap (binaryToHex lower)) = src := by
  induction src with
  | nil => exact ⟨rfl, by simp, rfl⟩
  | cons byte src ih =>
    obtain ⟨hlen, hdigits, hpairs⟩ := ih
    obtain ⟨high, low, hbyte, hhigh, hlow, hread⟩ := binaryToHex_spec lower byte
    rw [List.flatMap_cons, hbyte]
    refine ⟨?_, ?_, ?_⟩
    · simp only [List.length_append, List.length_cons, List.length_nil, hlen]
      omega
    · intro symbol hmem
      rcases List.mem_append.mp hmem with hmem | hmem
      · rcases List.mem_pair.mp hmem with rfl | rfl
        · exact hhigh
        · exact hlow
      · exact hdigits symbol hmem
    · exact congrArg₂ List.cons hread hpairs

/-- A vector is encoded in hexadecimal and decoded again exactly when it has memory, which only an
empty one may lack. -/
theorem hexDecode_undoes_encode_iff (lower : Bool) (v : StdVector c) (out : StdString)
    (dst : List c.Elem) :
    (∃ t : Bytes, hexEncodeFrom lower (.vector c v) out = (true, ofBytes t) ∧
      t.length = 2 * v.elems.length ∧ (∀ symbol ∈ t, symbol ∈ hexTable lower) ∧
      ∀ text : Text, text.bytes = some t → hexDecodeFrom text dst = (true, v.elems)) ↔
    v.isNull = false := by
  have hbytes : (Source.vector c v).bytes = some (toBytes v.elems) := rfl
  have hencode := hexEncodeFrom_of_bytes lower hbytes out
  constructor
  · rintro ⟨t, hencoded, -⟩
    rw [hencode] at hencoded
    simpa [Source.isNull] using congrArg Prod.fst hencoded
  · intro hnull
    obtain ⟨hlen, hdigits, hpairs⟩ := hexText_spec lower (toBytes v.elems)
    refine ⟨_, ?_, by simpa using hlen, hdigits, ?_⟩
    · rw [hencode]
      simp [Source.isNull, hnull]
    · intro text htext
      have hdecode := hexDecode_of_digits (by omega)
        fun symbol hmem => isHexDigit_of_mem (hdigits symbol hmem)
      rw [hexDecodeFrom, decodeOverload_of_bytes htext dst, hdecode, hpairs, written, ofBytes_toBytes]

/-- An empty vector without memory: hexadecimal is refused, base64 is not. -/
theorem hexEncode_refuses_empty :
    ¬ (∃ t : Bytes, hexEncodeFrom true (.vector .unsignedChar ⟨[], true, fun _ => rfl⟩) [] =
        (true, ofBytes t) ∧ t.length = 2 * 0 ∧ (∀ symbol ∈ t, symbol ∈ hexTable true) ∧
        ∀ text : Text, text.bytes = some t →
          hexDecodeFrom text ([] : List CharType.unsignedChar.Elem) = (true, [])) ∧
      base64EncodeFrom (.vector .unsignedChar ⟨[], true, fun _ => rfl⟩) [] = (true, []) := by
  have hrefused : (hexEncodeFrom true (.vector .unsignedChar ⟨[], true, fun _ => rfl⟩) []).1 =
      false := rfl
  refine ⟨?_, rfl⟩
  rintro ⟨t, hencoded, -⟩
  rw [hencoded] at hrefused
  cases hrefused

/-- A failing call leaves `dst` empty. -/
def Clears {α : Type} (r : Bool × List α) : Prop := r.1 = false → r.2 = []

theorem clears_written {r : Bool × Bytes} : Clears (written r : Bool × List c.Elem) ↔ Clears r := by
  simp [Clears, written]

/-- An encoder that clears `dst` does so from every overload but one. -/
theorem clears_encodeOverload (hencode : ∀ buffer, Clears (encode buffer)) (out : StdString) :
    Clears (encodeOverload encode source out) ↔ (source = .cString none → out = []) := by
  have hwritten : ∀ buffer, Clears (written (encode buffer) : Bool × StdString) :=
    fun buffer => clears_written.mpr (hencode buffer)
  cases source with
  | pointer buffer => exact iff_of_true (hwritten _) (by simp)
  | vector c v => exact iff_of_true (hwritten _) (by simp)
  | string s => exact iff_of_true (hwritten _) (by simp)
  | cString s =>
    cases s with
    | none => simp [Clears, encodeOverload]
    | some s => exact iff_of_true (hwritten _) (by simp)

/-- So does a decoder, as far as it clears `dst` itself. -/
theorem clears_decodeOverload (hnone : Clears (decode none)) (dst : List c.Elem) :
    Clears (decodeOverload decode text dst) ↔ (text = .cString none → dst = []) ∧
      ∀ s, text.bytes = some s → Clears (decode (some s)) := by
  have hbytes : ∀ bytes, text.bytes = some bytes → text ≠ .cString none →
      (Clears (decodeOverload decode text dst) ↔ (text = .cString none → dst = []) ∧
        ∀ s, text.bytes = some s → Clears (decode (some s))) := by
    intro bytes hbytes hne
    rw [decodeOverload_of_bytes hbytes dst, clears_written]
    constructor
    · intro hclears
      refine ⟨fun h => absurd h hne, ?_⟩
      intro s hs
      obtain rfl := Option.some.inj (hbytes.symm.trans hs)
      exact hclears
    · exact fun h => h.2 bytes hbytes
  cases text with
  | pointer buffer =>
    cases buffer with
    | null len => exact iff_of_true (clears_written.mpr hnone) (by simp [Text.bytes])
    | data bytes => exact hbytes bytes rfl (by simp)
  | string s => exact hbytes (toBytes s) rfl (by simp)
  | cString s =>
    cases s with
    | none => simp [Clears, decodeOverload, Text.bytes]
    | some s => exact hbytes s.bytes rfl (by simp)

theorem clears_hexEncode (lower : Bool) (buffer : Buffer) : Clears (hexEncode lower buffer) := by
  cases buffer with
  | null len => exact fun _ => rfl
  | data src => simp [Clears, hexEncode]

theorem clears_base64Encode (buffer : Buffer) : Clears (base64Encode buffer) := by
  unfold base64Encode
  by_cases hlen : buffer.length = 0
  · simp [Clears, hlen]
  · cases buffer with
    | null len => simp [Clears, hlen]
    | data src => simp [Clears, hlen]

/-- `base64_decode` has made all its checks before it resizes `dst`. -/
theorem clears_base64Decode (src : Option Bytes) : Clears (base64Decode src) := by
  cases src with
  | none => exact fun _ => rfl
  | some src =>
    unfold Clears base64Decode
    dsimp only
    split_ifs
    · simp
    · simp
    · simp
    · simp
    · split <;> simp

/-- `hex_decode` has not: from the loop it returns with what it has written by then. -/
theorem clears_hexDecode_iff : Clears (hexDecode (some s)) ↔
    (s.length % 2 = 0 → ∀ symbol ∈ s, IsHexDigit symbol) := by
  have hiff := hexDecode_fst s
  by_cases hlen : s.length % 2 = 0
  · by_cases hdigits : ∀ symbol ∈ s, IsHexDigit symbol
    · refine iff_of_true ?_ (fun _ => hdigits)
      intro hfailed
      rw [hiff.mpr ⟨hlen, hdigits⟩] at hfailed
      cases hfailed
    · refine iff_of_false ?_ (fun h => hdigits (h hlen))
      intro hclears
      have hfailed : (hexDecode (some s)).1 = false :=
        Bool.eq_false_iff.mpr fun h => hdigits (hiff.mp h).2
      have hne : s.length ≠ 0 := by
        intro hzero
        rw [List.eq_nil_of_length_eq_zero hzero] at hdigits
        simp at hdigits
      have hempty := congrArg List.length (hclears hfailed)
      simp only [hexDecode, hlen, hne, if_false, ne_eq, not_true_eq_false, length_hexDecodeLoop,
        List.length_replicate, List.length_nil] at hempty
      omega
  · refine iff_of_true ?_ (fun h => absurd h hlen)
    intro _
    simp [hexDecode, hlen]

/-- When a failing call leaves `dst` empty: whatever the call, unless a null C string comes with a
`dst` that is not empty, or a text for `hex_decode` of even length has a foreign character. -/
theorem failure_clears_iff (lower : Bool) (source : Source) (out : StdString) (text : Text)
    (dst : List c.Elem) :
    (Clears (hexEncodeFrom lower source out) ↔ (source = .cString none → out = [])) ∧
    (Clears (base64EncodeFrom source out) ↔ (source = .cString none → out = [])) ∧
    (Clears (base64DecodeFrom text dst) ↔ (text = .cString none → dst = [])) ∧
    (Clears (hexDecodeFrom text dst) ↔ (text = .cString none → dst = []) ∧
      ∀ s, text.bytes = some s → s.length % 2 = 0 → ∀ symbol ∈ s, IsHexDigit symbol) := by
  refine ⟨clears_encodeOverload (clears_hexEncode lower) out,
    clears_encodeOverload clears_base64Encode out, ?_, ?_⟩
  · rw [base64DecodeFrom, clears_decodeOverload (clears_base64Decode none)]
    exact and_iff_left fun s _ => clears_base64Decode (some s)
  · rw [hexDecodeFrom, clears_decodeOverload fun _ => rfl]
    simp only [clears_hexDecode_iff]

/-- `617g` leaves two bytes, and a null C string what was there before. -/
theorem failure_leaves_output :
    ¬ Clears (hexDecodeFrom (.string (ofBytes [54, 49, 55, 103])) ([] : StdString)) ∧
      ¬ Clears (base64DecodeFrom (.cString none) (ofBytes [120] : StdString)) := by
  refine ⟨?_, ?_⟩
  · intro hclears
    exact absurd (hclears (by decide)) (by decide)
  · intro hclears
    exact absurd (hclears rfl) (by decide)

end NetworkUtility.StringCodec
