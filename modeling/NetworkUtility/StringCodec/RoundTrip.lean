import NetworkUtility.StringCodec.Encode

/-! base64 there and back. A text and its bytes are compared as strings of bits; the decoder cuts the
string of the text short, and the encoder fills it up with zeros. -/
namespace NetworkUtility.StringCodec
open Bits

/-- The 6-bit values of a base64 text. -/
def sextets (text : Bytes) : List Nat := (text.filter (· ≠ padding)).map base64Table.idxOf

variable {c : CharType} {src dst t body : Bytes} {pad : Nat} {a b : UInt8} {source : Source}
  {text : Text}

/-- `base64_decode`, for any source and container. -/
def base64DecodeFrom (text : Text) (dst : List c.Elem) : Bool × List c.Elem :=
  decodeOverload base64Decode text dst

/-- `base64_encode`, for any source. -/
def base64EncodeFrom (source : Source) (dst : StdString) : Bool × StdString :=
  encodeOverload base64Encode source dst

theorem testBit_of_le_63 {x : UInt8} (hx : x ≤ 63) {n : Nat} (hn : 6 ≤ n) :
    x.toNat.testBit n = false := by
  have hlt : x.toNat < 2 ^ 6 := Nat.lt_succ_of_le (UInt8.le_iff_toNat_le.mp hx)
  have hle : 2 ^ 6 ≤ 2 ^ n := Nat.pow_le_pow_right (by omega) hn
  exact Nat.testBit_lt_two_pow (Nat.lt_of_lt_of_le hlt hle)

/-- Four indices are put together to three bytes. -/
theorem bits_shifts (a : UInt8) {b c d : UInt8} (hb : b ≤ 63) (hc : c ≤ 63) (hd : d ≤ 63) :
    allBits 8 (octets [a <<< 2 ||| b >>> 4, b <<< 4 ||| c >>> 2, c <<< 6 ||| d]) =
      allBits 6 [a.toNat, b.toNat, c.toNat, d.toNat] := by
  simp +decide [octets, bits, UInt8.toNat_shiftRight, UInt8.toNat_shiftLeft, Nat.testBit_or,
    Nat.testBit_shiftRight, testBit_shiftLeft_byte, testBit_of_le_63, hb, hc, hd]

/-- Where the loop ends there are less than four characters. -/
theorem length_lt_four (h : ∀ a b c d rest, src = a :: b :: c :: d :: rest → False) :
    src.length < 4 := by
  rcases src with _ | ⟨a, _ | ⟨b, _ | ⟨c, _ | ⟨d, rest⟩⟩⟩⟩
  · simp
  · simp
  · simp
  · simp
  · exact absurd rfl (h a b c d rest)

theorem length_decodeQuanta (src : Bytes) : (decodeQuanta src).length = 3 * (src.length / 4) := by
  induction src using decodeQuanta.induct with
  | case1 a b c d src ih =>
    simp only [decodeQuanta, List.length_cons, ih]
    omega
  | case2 src hshort =>
    have hdst : decodeQuanta src = [] := decodeQuanta.eq_2 src hshort
    rw [hdst, Nat.div_eq_of_lt (length_lt_four hshort)]
    rfl

/-- The loop of `base64_decode` regroups the bits. -/
theorem allBits_decodeQuanta (hlen : src.length % 4 = 0)
    (hindex : ∀ symbol ∈ src, base64Index symbol ≤ 63) :
    allBits 8 (octets (decodeQuanta src)) = allBits 6 (indices src) := by
  induction src using decodeQuanta.induct with
  | case1 a b c d src ih =>
    have hlen' : src.length % 4 = 0 := by
      simp only [List.length_cons] at hlen
      omega
    have hquantum := bits_shifts (base64Index a) (hindex b (by simp)) (hindex c (by simp))
      (hindex d (by simp))
    have hrest := ih hlen' fun symbol hmem => hindex symbol (by simp [hmem])
    exact (allBits_append 8 _ _).trans ((congrArg₂ (· ++ ·) hquantum hrest).trans
      (allBits_append 6 [_, _, _, _] _).symm)
  | case2 src hshort =>
    have hlt := length_lt_four hshort
    obtain rfl : src = [] := List.eq_nil_of_length_eq_zero (by omega)
    rfl

/-- The number of characters that are padding is told by the last two. -/
theorem padLen_eq_count {front : Bytes} {c d : UInt8} (hfront : padding ∉ front)
    (htail : TailAccepted c d) : padLen c d = some ((front ++ [c, d]).count padding) := by
  have hzero := List.count_eq_zero_of_not_mem hfront
  obtain ⟨-, -, hcd⟩ := htail
  unfold padLen
  by_cases hd : d = padding
  · by_cases hc : c = padding <;> simp [hzero, hd, hc]
  · have hc : c ≠ padding := fun hc => hd (hcd hc)
    simp [hzero, hd, hc]

/-- What a base64 text is decoded to. -/
theorem base64Decode_of_isBase64 (h : IsBase64 t) :
    base64Decode (some t) = (true, (decodeQuanta t).take (3 * t.length / 4 - t.count padding)) := by
  rcases Nat.lt_or_ge t.length 2 with hshort | htail
  · have hlen := h.1
    obtain rfl : t = [] := List.eq_nil_of_length_eq_zero (by omega)
    rfl
  · obtain ⟨front, c, d, rfl⟩ := exists_tail htail
    obtain ⟨⟨hlen, hfront, htail⟩, -⟩ := isBase64_tail.mp h
    have hc : (front ++ [c, d]).getD ((front ++ [c, d]).length - 2) 0 = c := by simp
    have hd : (front ++ [c, d]).getD ((front ++ [c, d]).length - 1) 0 = d := by simp
    have htake : (front ++ [c, d]).take ((front ++ [c, d]).length - 2) = front := by simp
    have hpos : (front ++ [c, d]).length ≠ 0 := by simp
    have hindex : ¬ (base64Index d > 63 ∨ base64Index c > 63) := by
      rw [not_or]
      exact ⟨UInt8.not_lt.mpr htail.1, UInt8.not_lt.mpr htail.2.1⟩
    have hdst : ((front ++ [c, d]).length + 3) / 4 * 3 = 3 * (front ++ [c, d]).length / 4 := by
      omega
    simp only [base64Decode, hc, hd, htake]
    rw [if_neg (not_not.mpr hlen), if_neg hpos, if_neg hfront, if_neg hindex,
      padLen_eq_count hfront htail, hdst]

/-- A body from the table with at most two characters of padding is base64, and these are counted. -/
theorem isBase64_body (hbody : ∀ symbol ∈ body, symbol ∈ base64Table) (hpad : pad ≤ 2)
    (hlen : (body.length + pad) % 4 = 0) :
    IsBase64 (body ++ List.replicate pad padding) ∧
      (body ++ List.replicate pad padding).count padding = pad ∧
      sextets (body ++ List.replicate pad padding) = indices body := by
  have hne : ∀ symbol ∈ body, symbol ≠ padding := by
    rintro symbol hmem rfl
    exact padding_notMem_base64Table (hbody padding hmem)
  refine ⟨⟨by simpa using hlen, body, pad, rfl, hpad, hbody⟩, ?_, ?_⟩
  · have hzero : body.count padding = 0 :=
      List.count_eq_zero_of_not_mem fun hmem => hne padding hmem rfl
    rw [List.count_append, hzero, List.count_replicate_self, Nat.zero_add]
  · have hfilter : (body ++ List.replicate pad padding).filter (· ≠ padding) = body := by
      rw [List.filter_append, List.filter_eq_self.mpr (by simpa using hne)]
      simp
    rw [sextets, hfilter]
    exact List.map_congr_left fun symbol hmem => (base64Index_eq_idxOf (hbody symbol hmem)).symm

/-- The parts of a base64 text, by its body. -/
theorem isBase64_parts (h : IsBase64 t) : ∃ body,
    t = body ++ List.replicate (t.count padding) padding ∧
      body.length + t.count padding = t.length ∧ t.count padding ≤ 2 ∧
      sextets t = indices body ∧ (∀ symbol ∈ body, symbol ∈ base64Table) ∧
      indices t = indices body ++ List.replicate (t.count padding) 0 := by
  obtain ⟨hlen, body, pad, rfl, hpad, hbody⟩ := h
  obtain ⟨-, hcount, hsextets⟩ := isBase64_body hbody hpad (by simpa using hlen)
  refine ⟨body, by rw [hcount], ?_, by rwa [hcount], hsextets, hbody, ?_⟩
  · rw [hcount, List.length_append, List.length_replicate]
  rw [hcount, indices_append]
  simp [indices, show base64Index padding = 0 from rfl]

/-- The decoder keeps the bits of the text up to the last whole byte. -/
theorem base64Decode_spec (h : IsBase64 t) : ∃ src, base64Decode (some t) = (true, src) ∧
    src.length = 3 * t.length / 4 - t.count padding ∧
    allBits 8 (octets src) = (allBits 6 (sextets t)).take (8 * src.length) := by
  obtain ⟨body, ht, hbodyLen, hpad, hsextets, hbody, hindices⟩ := isBase64_parts h
  have hindex : ∀ symbol ∈ t, base64Index symbol ≤ 63 := by
    intro symbol hmem
    rw [ht] at hmem
    rcases List.mem_append.mp hmem with hmem | hmem
    · exact base64Index_le.mpr (Or.inr (hbody symbol hmem))
    · exact base64Index_le.mpr (Or.inl (List.eq_of_mem_replicate hmem))
  have hlen := length_decodeQuanta t
  have hmod := h.1
  have hsrc : ((decodeQuanta t).take (3 * t.length / 4 - t.count padding)).length =
      3 * t.length / 4 - t.count padding := by
    rw [List.length_take, hlen]
    omega
  refine ⟨_, base64Decode_of_isBase64 h, hsrc, ?_⟩
  -- no bit of the padding is among those that are kept
  rw [hsrc, octets, List.map_take, allBits_take, ← octets, allBits_decodeQuanta hmod hindex,
    hindices, allBits_append, hsextets, List.take_append_of_le_length]
  rw [length_allBits, length_indices]
  omega

/-- A body from the table is its indices, looked up. -/
theorem map_base64Symbol_indices (hbody : ∀ symbol ∈ body, symbol ∈ base64Table) :
    (indices body).map (fun n => base64Symbol n.toUInt8) = body := by
  rw [indices, List.map_map]
  refine (List.map_congr_left fun symbol hmem => ?_).trans (List.map_id body)
  simpa using base64Symbol_base64Index (hbody symbol hmem)

theorem indices_lt (hbody : ∀ symbol ∈ body, symbol ∈ base64Table) :
    ∀ n ∈ indices body, n < 2 ^ 6 := by
  intro n hn
  obtain ⟨symbol, hmem, rfl⟩ := List.mem_map.mp hn
  have hle := base64Index_le.mpr (Or.inr (hbody symbol hmem))
  exact Nat.lt_succ_of_le (UInt8.le_iff_toNat_le.mp hle)

/-- Bodies from the table are known by the bits of their indices. -/
theorem eq_of_indices {body' : Bytes} (hbody : ∀ symbol ∈ body, symbol ∈ base64Table)
    (hbody' : ∀ symbol ∈ body', symbol ∈ base64Table)
    (h : allBits 6 (indices body) = allBits 6 (indices body')) : body = body' := by
  have hindices := allBits_inj (by decide) (indices_lt hbody) (indices_lt hbody') h
  rw [← map_base64Symbol_indices hbody, hindices, map_base64Symbol_indices hbody']

/-- All sources of the same bytes are encoded alike, also an empty vector without memory. -/
theorem base64EncodeFrom_of_bytes (h : source.bytes = some src) (dst : StdString) :
    base64EncodeFrom source dst = written (base64Encode (.data src)) := by
  cases hnull : source.isNull with
  | false => exact encodeOverload_of_bytes base64Encode h hnull dst
  | true =>
    obtain ⟨rfl, hencode⟩ := encodeOverload_of_isNull base64Encode h hnull dst
    exact hencode

/-- Of a text the bytes are left that were encoded. -/
theorem eq_of_encoded (hlen : src.length = dst.length)
    (h : allBits 8 (octets src) =
      (allBits 8 (octets dst) ++ List.replicate (2 * pad) false).take (8 * src.length)) :
    src = dst := by
  have hdst : (allBits 8 (octets dst)).length = 8 * src.length := by
    rw [length_allBits, length_octets, hlen]
  exact eq_of_octets (h.trans (List.take_left' hdst))

/-- Every byte sequence is encoded, and decoded again from the text to any container. -/
theorem base64Decode_undoes_encode (h : source.bytes = some src) (dst : StdString) :
    ∃ t : Bytes, base64EncodeFrom source dst = (true, ofBytes t) ∧
      t.length = 4 * ((src.length + 2) / 3) ∧
      (∃ body, t = body ++ List.replicate ((3 - src.length % 3) % 3) padding ∧
        ∀ symbol ∈ body, symbol ∈ base64Table) ∧
      ∀ text : Text, text.bytes = some t → ∀ (c : CharType) (out : List c.Elem),
        base64DecodeFrom text out = (true, ofBytes src) := by
  obtain ⟨body, hencode, hbody, hlen, hbits⟩ := base64Encode_spec src
  have hpad := padCount_le src.length
  obtain ⟨hbase64, hcount, hsextets⟩ := isBase64_body hbody hpad (by omega)
  obtain ⟨out', hdecode, hout, houtBits⟩ := base64Decode_spec hbase64
  have hsame : out' = src := by
    have htext : (body ++ List.replicate (padCount src.length) padding).length =
        4 * ((src.length + 2) / 3) := by
      simpa using hlen
    have houtLen : out'.length = src.length := by
      rw [hout, hcount, htext]
      unfold padCount
      omega
    rw [hsextets, hbits] at houtBits
    exact eq_of_encoded houtLen houtBits
  refine ⟨body ++ List.replicate (padCount src.length) padding, ?_, by simpa using hlen,
    ⟨body, rfl, hbody⟩, ?_⟩
  · rw [base64EncodeFrom_of_bytes h dst, hencode]
    rfl
  · intro text htext c out
    rw [base64DecodeFrom, decodeOverload_of_bytes htext out, hdecode, hsame]
    rfl

theorem base64Decode_undoes_encode_hi :
    ∃ t : Bytes, base64EncodeFrom (.vector .char ⟨[104, 105], false, by simp⟩) [] =
        (true, ofBytes t) ∧
      ∀ text : Text, text.bytes = some t → ∀ (c : CharType) (out : List c.Elem),
        base64DecodeFrom text out = (true, ofBytes [104, 105]) := by
  have hbytes : (Source.vector .char ⟨[104, 105], false, by simp⟩).bytes = some [104, 105] := rfl
  obtain ⟨t, hencode, -, -, hdecode⟩ := base64Decode_undoes_encode hbytes []
  exact ⟨t, hencode, hdecode⟩

/-- The encoder gives a text back exactly when the bits that the decoder drops are zeros. -/
theorem base64Encode_undoes_decode_iff (h : text.bytes = some t) (hbase64 : IsBase64 t)
    (dst : List c.Elem) :
    ∃ src : Bytes, base64DecodeFrom text dst = (true, ofBytes src) ∧
      src.length = 3 * t.length / 4 - t.count padding ∧
      allBits 8 (octets src) = (allBits 6 (sextets t)).take (8 * src.length) ∧
      ∀ source : Source, source.bytes = some src → ∀ out : StdString,
        (base64EncodeFrom source out = (true, ofBytes t) ↔
          ∀ bit ∈ (allBits 6 (sextets t)).drop (8 * src.length), bit = false) := by
  obtain ⟨src, hdecode, hlen, hbits⟩ := base64Decode_spec hbase64
  obtain ⟨body, ht, hbodyLen, hpad, hsextets, hbody, -⟩ := isBase64_parts hbase64
  obtain ⟨body', hencode, hbody', hlen', hbits'⟩ := base64Encode_spec src
  refine ⟨src, ?_, hlen, hbits, ?_⟩
  · rw [base64DecodeFrom, decodeOverload_of_bytes h dst, hdecode]
    rfl
  intro source hsource out
  rw [base64EncodeFrom_of_bytes hsource out, hencode]
  have hmod := hbase64.1
  -- the encoder pads as much as was padded before
  have hsame : padCount src.length = t.count padding := by
    unfold padCount
    omega
  rw [hsame] at hbits' ⊢
  have hdropLen : ((allBits 6 (sextets t)).drop (8 * src.length)).length =
      2 * t.count padding := by
    rw [List.length_drop, length_allBits, hsextets, length_indices]
    omega
  have hall : (∀ bit ∈ (allBits 6 (sextets t)).drop (8 * src.length), bit = false) ↔
      (allBits 6 (sextets t)).drop (8 * src.length) =
        List.replicate (2 * t.count padding) false := by
    rw [List.eq_replicate_iff, hdropLen]
    simp
  rw [hbits] at hbits'
  rw [hall]
  constructor
  · intro hwritten
    have htext : body' ++ List.replicate (t.count padding) padding = t := by
      have := congrArg (fun r => toBytes r.2) hwritten
      simpa [written] using this
    have hbodies : body' = body := List.append_cancel_right (htext.trans ht)
    rw [hbodies, ← hsextets] at hbits'
    have hsplit := (List.take_append_drop (8 * src.length) (allBits 6 (sextets t))).trans hbits'
    exact List.append_cancel_left hsplit
  · intro hzeros
    have hbodies : body' = body := by
      refine eq_of_indices hbody' hbody ?_
      rw [hbits', ← hzeros, List.take_append_drop, hsextets]
    rw [hbodies, ← ht]
    rfl

/-- `AB==` is decoded to one byte and encoded again as `AA==`: four bits are dropped. -/
theorem base64Encode_undoes_decode_ab :
    ∃ src : Bytes, base64DecodeFrom (.pointer (.data [65, 66, 61, 61])) ([] : StdString) =
        (true, ofBytes src) ∧ src.length = 1 ∧
      ¬ base64EncodeFrom (.string (ofBytes src)) [] = (true, ofBytes [65, 66, 61, 61]) := by
  have hbase64 : IsBase64 [65, 66, 61, 61] := by
    refine ⟨rfl, [65, 66], 2, rfl, by decide, ?_⟩
    simp [base64Table_eq]
    decide
  have hbytes : (Text.pointer (.data [65, 66, 61, 61])).bytes = some [65, 66, 61, 61] := rfl
  obtain ⟨src, hdecode, hlen, -, hiff⟩ :=
    base64Encode_undoes_decode_iff hbytes hbase64 ([] : StdString)
  have hone : src.length = 1 := hlen
  refine ⟨src, hdecode, hone, ?_⟩
  rw [hiff (.string (ofBytes src)) (by simp [Source.bytes]) [], hone]
  simp only [sextets, base64Table_eq]
  decide

end NetworkUtility.StringCodec
