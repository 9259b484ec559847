import NetworkUtility.StringCodec.Containers

/-! `hex_encode` and `hex_decode` of string_codec.cpp. Decoding checks each pair as it comes to it, and
what it has written by then stays. -/
namespace NetworkUtility.StringCodec

/-- `s_hex_lower_table`. -/
def hexLowerTable : Bytes :=
  [48, 49, 50, 51, 52, 53, 54, 55, 56, 57, 97, 98, 99, 100, 101, 102]

/-- `s_hex_upper_table`. -/
def hexUpperTable : Bytes :=
  [48, 49, 50, 51, 52, 53, 54, 55, 56, 57, 65, 66, 67, 68, 69, 70]

def hexIndex (symbol : UInt8) : UInt8 :=
  if 48 ≤ symbol ∧ symbol ≤ 57 then symbol - 48
  else if 97 ≤ symbol ∧ symbol ≤ 102 then symbol - 97 + 10
  else if 65 ≤ symbol ∧ symbol ≤ 70 then symbol - 65 + 10
  else 16

def hexTable (lower : Bool) : Bytes := if lower then hexLowerTable else hexUpperTable

/-- The two characters that `binary_to_hex` writes. -/
def binaryToHex (lower : Bool) (src : UInt8) : Bytes :=
  [(hexTable lower).getD (src >>> 4 &&& (15 : UInt8)).toNat 0,
    (hexTable lower).getD (src &&& (15 : UInt8)).toNat 0]

def hexToBinary (high low : UInt8) : Option UInt8 :=
  if hexIndex high > 15 ∨ hexIndex low > 15 then none
  else some (hexIndex high <<< 4 ||| hexIndex low)

/-- The result and what is left in `dst`. -/
def hexEncode (lower : Bool) : Buffer → Bool × Bytes
  | .null _ => (false, [])
  | .data src => (true, src.flatMap (binaryToHex lower))

/-- The loop of `hex_decode`, from `index` on. -/
def hexDecodeLoop (dst : Bytes) (index : Nat) : Bytes → Bool × Bytes
  | high :: low :: src =>
    match hexToBinary high low with
    | none => (false, dst)
    | some byte => hexDecodeLoop (dst.set (index / 2) byte) (index + 2) src
  | _ => (true, dst)

/-- The result and what is left in `dst`; the null pointer is `none`. -/
def hexDecode : Option Bytes → Bool × Bytes
  | none => (false, [])
  | some src =>
    if src.length % 2 ≠ 0 then (false, [])
    else if src.length = 0 then (true, [])
    else hexDecodeLoop (List.replicate (src.length / 2) 0) 0 src

/-- `hex_encode`, for any source. -/
def hexEncodeFrom (lower : Bool) (source : Source) (dst : StdString) : Bool × StdString :=
  encodeOverload (hexEncode lower) source dst

/-- `hex_decode`, for any source and container. -/
def hexDecodeFrom {c : CharType} (text : Text) (dst : List c.Elem) : Bool × List c.Elem :=
  decodeOverload hexDecode text dst

def IsHexDigit (symbol : UInt8) : Prop :=
  (48 ≤ symbol ∧ symbol ≤ 57) ∨ (97 ≤ symbol ∧ symbol ≤ 102) ∨ (65 ≤ symbol ∧ symbol ≤ 70)

/-- Lower case or upper case, for ASCII. -/
def toCase (lower : Bool) (symbol : UInt8) : UInt8 :=
  if lower then if 65 ≤ symbol ∧ symbol ≤ 90 then symbol + 32 else symbol
  else if 97 ≤ symbol ∧ symbol ≤ 122 then symbol - 32 else symbol

/-- The bytes of a text of whole pairs. -/
def hexPairs : Bytes → Bytes
  | high :: low :: src => (hexIndex high <<< 4 ||| hexIndex low) :: hexPairs src
  | _ => []

variable {c : CharType} {src dst s : Bytes} {symbol high low : UInt8} {lower : Bool} {index : Nat}
  {source : Source} {text : Text}

instance (symbol : UInt8) : Decidable (IsHexDigit symbol) :=
  inferInstanceAs (Decidable (_ ∨ _ ∨ _))

theorem hexIndex_le : hexIndex symbol ≤ 15 ↔ IsHexDigit symbol := by
  have hlt := symbol.toNat_lt
  simp only [hexIndex, IsHexDigit, UInt8.le_iff_toNat_le]
  split_ifs
  all_goals simp_all [UInt8.toNat_sub, UInt8.toNat_add]
  all_goals omega

/-- The digits are the characters of the two tables. -/
theorem isHexDigit_iff_mem : IsHexDigit symbol ↔ symbol ∈ hexLowerTable ++ hexUpperTable := by
  constructor
  · intro h
    simp only [hexLowerTable, hexUpperTable, List.cons_append, List.nil_append, List.mem_cons,
      List.not_mem_nil, or_false, ← UInt8.toNat_inj]
    simp only [IsHexDigit, UInt8.le_iff_toNat_le, UInt8.reduceToNat] at h ⊢
    omega
  · intro hmem
    have hall : (hexLowerTable ++ hexUpperTable).all (IsHexDigit ·) = true := by decide
    exact of_decide_eq_true (List.all_eq_true.mp hall symbol hmem)

/-- Written again a digit only changes its case. -/
theorem hexTable_hexIndex (lower : Bool) (hdigit : IsHexDigit symbol) :
    (hexTable lower).getD (hexIndex symbol).toNat 0 = toCase lower symbol := by
  have hall : (hexLowerTable ++ hexUpperTable).all (fun s =>
      (hexTable lower).getD (hexIndex s).toNat 0 = toCase lower s) = true := by
    cases lower <;> decide
  exact of_decide_eq_true (List.all_eq_true.mp hall symbol (isHexDigit_iff_mem.mp hdigit))

/-- The tables and `hex_index` are inverse to each other. -/
theorem hexIndex_hexTable (lower : Bool) {n : Nat} (hn : n < 16) :
    (hexTable lower).getD n 0 ∈ hexTable lower ∧
      (hexIndex ((hexTable lower).getD n 0)).toNat = n := by
  have hall : ∀ lower, ∀ i : Fin 16, (hexTable lower).getD i.val 0 ∈ hexTable lower ∧
      (hexIndex ((hexTable lower).getD i.val 0)).toNat = i.val := by
    decide
  exact hall lower ⟨n, hn⟩

theorem le_15_iff {x : UInt8} : x ≤ 15 ↔ x.toNat ≤ 15 := UInt8.le_iff_toNat_le

@[simp] theorem toNat_high (byte : UInt8) :
    (byte >>> 4 &&& (15 : UInt8)).toNat = byte.toNat / 16 := by
  have hlt := byte.toNat_lt
  have hmask := Nat.and_two_pow_sub_one_eq_mod (byte.toNat >>> 4) 4
  have hshift := Nat.shiftRight_eq_div_pow byte.toNat 4
  simp only [UInt8.toNat_and, UInt8.toNat_shiftRight, UInt8.reduceToNat]
  norm_num at hmask hshift ⊢
  omega

@[simp] theorem toNat_low (byte : UInt8) : (byte &&& (15 : UInt8)).toNat = byte.toNat % 16 := by
  have hmask := Nat.and_two_pow_sub_one_eq_mod byte.toNat 4
  simpa using hmask

theorem toNat_pair {h l : UInt8} (hh : h ≤ 15) (hl : l ≤ 15) :
    (h <<< 4 ||| l).toNat = 16 * h.toNat + l.toNat := by
  rw [le_15_iff] at hh hl
  have hlow : l.toNat < 2 ^ 4 := by omega
  have hor := Nat.shiftLeft_add_eq_or_of_lt hlow h.toNat
  have hshift := Nat.shiftLeft_eq h.toNat 4
  have hhigh : (h <<< 4).toNat = h.toNat <<< 4 := by
    have hmod : h.toNat <<< 4 % 256 = h.toNat <<< 4 := Nat.mod_eq_of_lt (by omega)
    exact (UInt8.toNat_shiftLeft h 4).trans hmod
  rw [UInt8.toNat_or, hhigh, ← hor, hshift]
  omega

theorem pair_of_halves (byte : UInt8) :
    (byte >>> 4 &&& (15 : UInt8)) <<< 4 ||| (byte &&& (15 : UInt8)) = byte := by
  have hlt := byte.toNat_lt
  rw [← UInt8.toNat_inj, toNat_pair]
  · rw [toNat_high, toNat_low]
    omega
  · rw [le_15_iff, toNat_high]
    omega
  · rw [le_15_iff, toNat_low]
    omega

/-- A pair that is decoded is encoded again, in one case. -/
theorem binaryToHex_pair (lower : Bool) (hhigh : IsHexDigit high) (hlow : IsHexDigit low) :
    binaryToHex lower (hexIndex high <<< 4 ||| hexIndex low) =
      [toCase lower high, toCase lower low] := by
  have hh := hexIndex_le.mpr hhigh
  have hl := hexIndex_le.mpr hlow
  have hpair := toNat_pair hh hl
  rw [le_15_iff] at hh hl
  have hdiv : (16 * (hexIndex high).toNat + (hexIndex low).toNat) / 16 = (hexIndex high).toNat := by
    omega
  have hmod : (16 * (hexIndex high).toNat + (hexIndex low).toNat) % 16 = (hexIndex low).toNat := by
    omega
  rw [binaryToHex, toNat_high, toNat_low, hpair, hdiv, hmod, hexTable_hexIndex lower hhigh,
    hexTable_hexIndex lower hlow]

theorem hexToBinary_eq_some (hhigh : IsHexDigit high) (hlow : IsHexDigit low) :
    hexToBinary high low = some (hexIndex high <<< 4 ||| hexIndex low) := by
  have hno : ¬ (hexIndex high > 15 ∨ hexIndex low > 15) := by
    rw [not_or]
    exact ⟨UInt8.not_lt.mpr (hexIndex_le.mpr hhigh), UInt8.not_lt.mpr (hexIndex_le.mpr hlow)⟩
  rw [hexToBinary, if_neg hno]

theorem isHexDigit_of_hexToBinary {byte : UInt8} (h : hexToBinary high low = some byte) :
    IsHexDigit high ∧ IsHexDigit low := by
  by_cases hforeign : hexIndex high > 15 ∨ hexIndex low > 15
  · rw [hexToBinary, if_pos hforeign] at h
    cases h
  · rw [not_or] at hforeign
    exact ⟨hexIndex_le.mp (UInt8.not_lt.mp hforeign.1), hexIndex_le.mp (UInt8.not_lt.mp hforeign.2)⟩

/-- A text of whole pairs goes on with whole pairs. -/
theorem even_of_pair (hlen : (high :: low :: src).length % 2 = 0) : src.length % 2 = 0 := by
  simp only [List.length_cons] at hlen
  omega

/-- Where the loop ends a text of whole pairs is at its end. -/
theorem eq_nil_of_no_pair (hlen : src.length % 2 = 0)
    (hshort : ∀ high low rest, src = high :: low :: rest → False) : src = [] := by
  rcases src with _ | ⟨high, _ | ⟨low, rest⟩⟩
  · rfl
  · cases hlen
  · exact absurd rfl (hshort high low rest)

theorem length_hexDecodeLoop (dst : Bytes) (index : Nat) (src : Bytes) :
    (hexDecodeLoop dst index src).2.length = dst.length := by
  induction dst, index, src using hexDecodeLoop.induct with
  | case1 dst index high low src hnone => rw [hexDecodeLoop, hnone]
  | case2 dst index high low src byte hsome ih => rw [hexDecodeLoop, hsome, ih, List.length_set]
  | case3 src dst index hshort => rw [hexDecodeLoop.eq_2 dst index src hshort]

/-- The loop stops at a pair that is not hexadecimal, and nowhere else. -/
theorem hexDecodeLoop_fst (hlen : src.length % 2 = 0) :
    (hexDecodeLoop dst index src).1 = true ↔ ∀ symbol ∈ src, IsHexDigit symbol := by
  induction dst, index, src using hexDecodeLoop.induct with
  | case1 dst index high low src hnone =>
    have hnot : ¬ ∀ symbol ∈ high :: low :: src, IsHexDigit symbol := by
      intro hall
      rw [hexToBinary_eq_some (hall high (by simp)) (hall low (by simp))] at hnone
      cases hnone
    rw [hexDecodeLoop, hnone]
    exact iff_of_false Bool.false_ne_true hnot
  | case2 dst index high low src byte hsome ih =>
    obtain ⟨hhigh, hlow⟩ := isHexDigit_of_hexToBinary hsome
    have hlen' := even_of_pair hlen
    rw [hexDecodeLoop, hsome, ih hlen']
    simp [hhigh, hlow]
  | case3 src dst index hshort =>
    obtain rfl := eq_nil_of_no_pair hlen hshort
    simp [hexDecodeLoop]

/-- The loop fills `dst` from the front. `done` is what it has written, and the zeros are what it has
not reached. -/
theorem hexDecodeLoop_snd (done : Bytes) (hlen : src.length % 2 = 0)
    (hdigits : ∀ symbol ∈ src, IsHexDigit symbol) :
    hexDecodeLoop (done ++ List.replicate (src.length / 2) 0) (2 * done.length) src =
      (true, done ++ hexPairs src) := by
  induction src using hexPairs.induct generalizing done with
  | case1 high low src ih =>
    have hhalf : (high :: low :: src).length / 2 = src.length / 2 + 1 := by
      simp only [List.length_cons]
      omega
    have hlen' := even_of_pair hlen
    have hindex : 2 * done.length / 2 = done.length := by omega
    have hset : ∀ byte : UInt8,
        (done ++ List.replicate (src.length / 2 + 1) 0).set done.length byte =
          (done ++ [byte]) ++ List.replicate (src.length / 2) 0 := by
      intro byte
      simp [List.replicate_succ]
    have hnext : 2 * done.length + 2 = 2 * (done ++ [hexIndex high <<< 4 ||| hexIndex low]).length := by
      simp only [List.length_append, List.length_cons, List.length_nil]
      omega
    rw [hexDecodeLoop, hexToBinary_eq_some (hdigits high (by simp)) (hdigits low (by simp))]
    simp only [hhalf, hindex, hset, hnext]
    rw [ih _ hlen' fun symbol hmem => hdigits symbol (by simp [hmem]), hexPairs, List.append_assoc,
      List.singleton_append]
  | case2 src hshort =>
    obtain rfl := eq_nil_of_no_pair hlen hshort
    rfl

/-- What is accepted. -/
theorem hexDecode_fst (s : Bytes) :
    (hexDecode (some s)).1 = true ↔ s.length % 2 = 0 ∧ ∀ symbol ∈ s, IsHexDigit symbol := by
  by_cases hlen : s.length % 2 = 0
  · by_cases hempty : s.length = 0
    · obtain rfl := List.eq_nil_of_length_eq_zero hempty
      simp [hexDecode]
    · simp only [hexDecode, hlen, hempty, if_false, ne_eq, not_true_eq_false]
      rw [hexDecodeLoop_fst hlen]
      simp
  · simp [hexDecode, hlen]

/-- What it is decoded to. -/
theorem hexDecode_of_digits (hlen : s.length % 2 = 0) (hdigits : ∀ symbol ∈ s, IsHexDigit symbol) :
    hexDecode (some s) = (true, hexPairs s) := by
  by_cases hempty : s.length = 0
  · obtain rfl := List.eq_nil_of_length_eq_zero hempty
    rfl
  · simp only [hexDecode, hlen, hempty, if_false, ne_eq, not_true_eq_false]
    exact hexDecodeLoop_snd [] hlen hdigits

theorem flatMap_binaryToHex_hexPairs (lower : Bool) (hlen : s.length % 2 = 0)
    (hdigits : ∀ symbol ∈ s, IsHexDigit symbol) :
    (hexPairs s).flatMap (binaryToHex lower) = s.map (toCase lower) := by
  induction s using hexPairs.induct with
  | case1 high low src ih =>
    have hlen' := even_of_pair hlen
    rw [hexPairs, List.flatMap_cons,
      binaryToHex_pair lower (hdigits high (by simp)) (hdigits low (by simp)),
      ih hlen' fun symbol hmem => hdigits symbol (by simp [hmem])]
    rfl
  | case2 src hshort =>
    obtain rfl := eq_nil_of_no_pair hlen hshort
    rfl

/-- A null pointer is refused, also when there is nothing to encode. -/
theorem hexEncodeFrom_of_bytes (lower : Bool) (h : source.bytes = some src) (dst : StdString) :
    hexEncodeFrom lower source dst =
      (!source.isNull, ofBytes (src.flatMap (binaryToHex lower))) := by
  cases hnull : source.isNull with
  | false => exact encodeOverload_of_bytes (hexEncode lower) h hnull dst
  | true =>
    obtain ⟨rfl, hencode⟩ := encodeOverload_of_isNull (hexEncode lower) h hnull dst
    exact hencode

/-- Hexadecimal is accepted and nothing else, and encoded again it is in one case. -/
theorem hexDecode_iff_and_normalises (h : text.bytes = some s) (dst : List c.Elem) :
    ((hexDecodeFrom text dst).1 = true ↔
      s.length % 2 = 0 ∧ ∀ symbol ∈ s, IsHexDigit symbol) ∧
    ((hexDecodeFrom text dst).1 = true → ∀ (lower : Bool) (source : Source) (out : StdString),
      source.bytes = some (toBytes (hexDecodeFrom text dst).2) →
        hexEncodeFrom lower source out = (!source.isNull, ofBytes (s.map (toCase lower)))) := by
  have hfrom : hexDecodeFrom text dst = written (hexDecode (some s)) := decodeOverload_of_bytes h dst
  have hiff := hexDecode_fst s
  refine ⟨by rw [hfrom]; exact hiff, ?_⟩
  intro haccepted lower source out hsource
  rw [hfrom] at haccepted hsource
  obtain ⟨hlen, hdigits⟩ := hiff.mp haccepted
  have hdecoded := hexDecode_of_digits hlen hdigits
  have hbytes : source.bytes = some (hexPairs s) := by
    rw [hsource, hdecoded]
    exact congrArg some (toBytes_ofBytes _)
  rw [hexEncodeFrom_of_bytes lower hbytes out, flatMap_binaryToHex_hexPairs lower hlen hdigits]

/-- `7F` is one byte, and `7f` when it is written in lower case. -/
theorem hexDecode_iff_and_normalises_7f :
    hexDecodeFrom (.string (ofBytes [55, 70])) ([] : StdString) = (true, ofBytes [127]) ∧
      hexEncodeFrom true (.string (ofBytes [127])) [] = (true, ofBytes [55, 102]) := by
  have hdecoded : hexDecodeFrom (.string (ofBytes [55, 70])) ([] : StdString) =
      (true, ofBytes [127]) := by decide
  have hbytes : (Text.string (ofBytes [55, 70])).bytes = some [55, 70] := by decide
  have h := (hexDecode_iff_and_normalises hbytes ([] : StdString)).2 (by rw [hdecoded]) true
    (.string (ofBytes [127])) [] (by rw [hdecoded]; rfl)
  exact ⟨hdecoded, h⟩

end NetworkUtility.StringCodec
