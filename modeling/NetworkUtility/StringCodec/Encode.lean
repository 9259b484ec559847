import NetworkUtility.Lib.Bits
import NetworkUtility.StringCodec.Base64
import NetworkUtility.StringCodec.Containers

/-! `base64_encode` of string_codec.cpp, and the bits of what it writes. -/
namespace NetworkUtility.StringCodec
open Bits

/-- `s_base64_table[index]`. -/
def base64Symbol (index : UInt8) : UInt8 := base64Table.getD index.toNat 0

/-- One turn of the loop of `base64_encode`, on `tmp`. -/
def encodeQuantum (a b c : UInt8) : Bytes :=
  [base64Symbol (a >>> 2 &&& (63 : UInt8)),
    base64Symbol (a <<< 4 &&& (48 : UInt8) ||| b >>> 4 &&& (15 : UInt8)),
    base64Symbol (b <<< 2 &&& (60 : UInt8) ||| c >>> 6 &&& (3 : UInt8)),
    base64Symbol (c &&& (63 : UInt8))]

/-- The loop of `base64_encode`. Behind the end of `src` there are zeros in `tmp`. -/
def encodeQuanta : Bytes → Bytes
  | [] => []
  | [a] => encodeQuantum a 0 0
  | [a, b] => encodeQuantum a b 0
  | a :: b :: c :: src => encodeQuantum a b c ++ encodeQuanta src

/-- The `switch` behind the loop. Case 1 falls through to case 2. -/
def padEnd (srcLen : Nat) (dst : Bytes) : Bytes :=
  match srcLen % 3 with
  | 1 => (dst.set (dst.length - 1) padding).set (dst.length - 1 - 1) padding
  | 2 => dst.set (dst.length - 1) padding
  | _ => dst

/-- The result and what is left in `dst`. The length is looked at before the pointer. -/
def base64Encode (src : Buffer) : Bool × Bytes :=
  if src.length = 0 then (true, [])
  else
    match src with
    | .null _ => (false, [])
    | .data src => (true, padEnd src.length (encodeQuanta src))

/-- How many characters of a text are padding. -/
def padCount (srcLen : Nat) : Nat := (3 - srcLen % 3) % 3

/-- The bytes as numbers. -/
def octets (bytes : Bytes) : List Nat := bytes.map UInt8.toNat

/-- The indices of the characters, as the decoder reads them. -/
def indices (text : Bytes) : List Nat := text.map fun symbol => (base64Index symbol).toNat

variable {src dst text : Bytes} {a b c d : UInt8} {symbol index : UInt8}

theorem base64Encode_data (src : Bytes) :
    base64Encode (.data src) = (true, padEnd src.length (encodeQuanta src)) := by
  by_cases hlen : src.length = 0
  · obtain rfl := List.eq_nil_of_length_eq_zero hlen
    rfl
  · simp [base64Encode, Buffer.length, hlen]

@[simp] theorem length_octets (bytes : Bytes) : (octets bytes).length = bytes.length :=
  List.length_map _

@[simp] theorem length_indices (text : Bytes) : (indices text).length = text.length :=
  List.length_map _

theorem octets_lt (bytes : Bytes) : ∀ n ∈ octets bytes, n < 2 ^ 8 := by
  intro n hn
  obtain ⟨byte, -, rfl⟩ := List.mem_map.mp hn
  exact byte.toNat_lt

/-- Bytes are known by their bits. -/
theorem eq_of_octets {bytes : Bytes} (h : allBits 8 (octets src) = allBits 8 (octets bytes)) :
    src = bytes := by
  have hoctets := allBits_inj (by decide) (octets_lt src) (octets_lt bytes) h
  exact List.map_injective_iff.mpr (fun _ _ => UInt8.toNat_inj.mp) hoctets

/-- The table and `base64_index` are inverse to each other. -/
theorem base64Index_base64Symbol (hindex : index ≤ 63) :
    base64Symbol index ∈ base64Table ∧ base64Index (base64Symbol index) = index := by
  have hall : ∀ i : Fin 64, base64Symbol i.val.toUInt8 ∈ base64Table ∧
      base64Index (base64Symbol i.val.toUInt8) = i.val.toUInt8 := by
    simp only [base64Symbol, base64Table_eq]
    decide
  have hlt : index.toNat < 64 := by
    have := UInt8.le_iff_toNat_le.mp hindex
    exact Nat.lt_succ_of_le this
  have heq : index.toNat.toUInt8 = index := UInt8.ofNat_toNat
  have := hall ⟨index.toNat, hlt⟩
  rwa [heq] at this

/-- The position of a character in the table is its index. -/
theorem base64Index_eq_idxOf (hsymbol : symbol ∈ base64Table) :
    (base64Index symbol).toNat = base64Table.idxOf symbol := by
  have hall : ∀ n ∈ alphabet, (base64Index n.toUInt8).toNat =
      (alphabet.map Nat.toUInt8).idxOf n.toUInt8 := by decide
  rw [base64Table_eq] at hsymbol ⊢
  obtain ⟨n, hn, rfl⟩ := List.mem_map.mp hsymbol
  exact hall n hn

theorem base64Symbol_base64Index (hsymbol : symbol ∈ base64Table) :
    base64Symbol (base64Index symbol) = symbol := by
  have hall : ∀ n ∈ alphabet,
      (alphabet.map Nat.toUInt8).getD (base64Index n.toUInt8).toNat 0 = n.toUInt8 := by decide
  rw [base64Table_eq] at hsymbol
  obtain ⟨n, hn, rfl⟩ := List.mem_map.mp hsymbol
  rw [base64Symbol, base64Table_eq]
  exact hall n hn

/-- The bits of a byte that is shifted to the left. -/
theorem testBit_shiftLeft_byte (x n i : Nat) :
    (x <<< n % 256).testBit i = (decide (i < 8) && (decide (n ≤ i) && x.testBit (i - n))) := by
  have h : 256 = 2 ^ 8 := rfl
  rw [h, Nat.testBit_mod_two_pow, Nat.testBit_shiftLeft]

/-- The four masks of a quantum cut its three bytes into four pieces. -/
theorem bits_masks (a b c : UInt8) :
    allBits 6 [(a >>> 2 &&& (63 : UInt8)).toNat,
      (a <<< 4 &&& (48 : UInt8) ||| b >>> 4 &&& (15 : UInt8)).toNat,
      (b <<< 2 &&& (60 : UInt8) ||| c >>> 6 &&& (3 : UInt8)).toNat,
      (c &&& (63 : UInt8)).toNat] = allBits 8 (octets [a, b, c]) := by
  simp +decide [octets, bits, UInt8.toNat_shiftRight, UInt8.toNat_shiftLeft, Nat.testBit_and,
    Nat.testBit_or, Nat.testBit_shiftRight, testBit_shiftLeft_byte]
  simp [Nat.testBit_eq_decide_div_mod_eq]

theorem and_le_63 (x : UInt8) : x &&& (63 : UInt8) ≤ 63 :=
  UInt8.le_iff_toNat_le.mpr (by simpa using Nat.and_le_right)

theorem masks_le {m n : UInt8} (hm : m ≤ 63) (hn : n ≤ 63) (x y : UInt8) :
    x &&& m ||| y &&& n ≤ 63 := by
  rw [UInt8.le_iff_toNat_le] at hm hn ⊢
  have hx : x.toNat &&& m.toNat < 2 ^ 6 := Nat.lt_succ_of_le (Nat.le_trans Nat.and_le_right hm)
  have hy : y.toNat &&& n.toNat < 2 ^ 6 := Nat.lt_succ_of_le (Nat.le_trans Nat.and_le_right hn)
  have hor := Nat.or_lt_two_pow hx hy
  simpa using Nat.le_of_lt_succ hor

theorem encodeQuantum_mem (a b c : UInt8) : ∀ symbol ∈ encodeQuantum a b c, symbol ∈ base64Table := by
  simp only [encodeQuantum, List.mem_cons, List.not_mem_nil, or_false]
  rintro symbol (rfl | rfl | rfl | rfl)
  · exact (base64Index_base64Symbol (and_le_63 _)).1
  · exact (base64Index_base64Symbol (masks_le (by decide) (by decide) _ _)).1
  · exact (base64Index_base64Symbol (masks_le (by decide) (by decide) _ _)).1
  · exact (base64Index_base64Symbol (and_le_63 _)).1

theorem allBits_encodeQuantum (a b c : UInt8) :
    allBits 6 (indices (encodeQuantum a b c)) = allBits 8 (octets [a, b, c]) := by
  rw [← bits_masks]
  simp only [indices, encodeQuantum, List.map_cons, List.map_nil]
  rw [(base64Index_base64Symbol (and_le_63 _)).2, (base64Index_base64Symbol (and_le_63 _)).2,
    (base64Index_base64Symbol (masks_le (by decide) (by decide) _ _)).2,
    (base64Index_base64Symbol (masks_le (by decide) (by decide) _ _)).2]

theorem indices_append (text text' : Bytes) :
    indices (text ++ text') = indices text ++ indices text' :=
  List.map_append

theorem encodeQuanta_mem (src : Bytes) : ∀ symbol ∈ encodeQuanta src, symbol ∈ base64Table := by
  induction src using encodeQuanta.induct with
  | case1 => simp [encodeQuanta]
  | case2 a => exact encodeQuantum_mem a 0 0
  | case3 a b => exact encodeQuantum_mem a b 0
  | case4 a b c src ih =>
    intro symbol hmem
    rcases List.mem_append.mp hmem with hmem | hmem
    · exact encodeQuantum_mem a b c symbol hmem
    · exact ih symbol hmem

theorem length_encodeQuanta (src : Bytes) :
    (encodeQuanta src).length = 4 * ((src.length + 2) / 3) := by
  induction src using encodeQuanta.induct with
  | case1 => rfl
  | case2 a => simp [encodeQuanta, encodeQuantum]
  | case3 a b => simp [encodeQuanta, encodeQuantum]
  | case4 a b c src ih =>
    simp only [encodeQuanta, List.length_append, ih, List.length_cons]
    simp only [encodeQuantum, List.length_cons, List.length_nil]
    omega

/-- The loop writes the bits of `src`, and zeros up to the end of the last quantum. -/
theorem allBits_encodeQuanta (src : Bytes) :
    allBits 6 (indices (encodeQuanta src)) =
      allBits 8 (octets src) ++ List.replicate (8 * padCount src.length) false := by
  induction src using encodeQuanta.induct with
  | case1 => rfl
  | case2 a =>
    rw [encodeQuanta, allBits_encodeQuantum]
    simp [octets, padCount, bits_zero]
  | case3 a b =>
    rw [encodeQuanta, allBits_encodeQuantum]
    simp [octets, padCount, bits_zero]
  | case4 a b c src ih =>
    have hpad : padCount (a :: b :: c :: src).length = padCount src.length := by
      simp only [padCount, List.length_cons]
      omega
    rw [encodeQuanta, indices_append, allBits_append, ih, allBits_encodeQuantum, hpad]
    simp [octets]

theorem padCount_le (srcLen : Nat) : padCount srcLen ≤ 2 := by
  unfold padCount
  omega

/-- The characters at the end are written over. -/
theorem padEnd_eq (srcLen : Nat) (hdst : padCount srcLen ≤ dst.length) :
    padEnd srcLen dst = dst.take (dst.length - padCount srcLen) ++
      List.replicate (padCount srcLen) padding := by
  have hcase : srcLen % 3 = 0 ∨ srcLen % 3 = 1 ∨ srcLen % 3 = 2 := by omega
  unfold padCount padEnd at *
  obtain h | h | h := hcase
  · simp [h]
  · rw [h] at hdst
    obtain ⟨front, c, d, rfl⟩ := exists_tail hdst
    simp [h]
  · rw [h] at hdst
    have hne : dst ≠ [] := List.ne_nil_of_length_pos hdst
    obtain ⟨front, d, rfl⟩ := (List.eq_nil_or_concat' dst).resolve_left hne
    simp [h]

/-- The text is a body from the table, with the bits of `src` and zeros, and padding. -/
theorem base64Encode_spec (src : Bytes) : ∃ body,
    base64Encode (.data src) = (true, body ++ List.replicate (padCount src.length) padding) ∧
    (∀ symbol ∈ body, symbol ∈ base64Table) ∧
    body.length + padCount src.length = 4 * ((src.length + 2) / 3) ∧
    allBits 6 (indices body) =
      allBits 8 (octets src) ++ List.replicate (2 * padCount src.length) false := by
  have hpad := padCount_le src.length
  have hlen := length_encodeQuanta src
  have hle : padCount src.length ≤ (encodeQuanta src).length := by
    rw [hlen]
    unfold padCount
    omega
  refine ⟨(encodeQuanta src).take ((encodeQuanta src).length - padCount src.length), ?_, ?_, ?_, ?_⟩
  · rw [base64Encode_data, padEnd_eq src.length hle]
  · intro symbol hmem
    exact encodeQuanta_mem src symbol (List.mem_of_mem_take hmem)
  · rw [List.length_take, hlen]
    omega
  · -- what is cut off carries six of the eight zero bits of each missing byte
    have htake : 6 * ((encodeQuanta src).length - padCount src.length) =
        (allBits 8 (octets src)).length + 2 * padCount src.length := by
      rw [length_allBits, length_octets, hlen]
      unfold padCount
      omega
    rw [indices, List.map_take, allBits_take, ← indices, allBits_encodeQuanta, htake,
      List.take_length_add_append, List.take_replicate]
    congr 2
    omega

end NetworkUtility.StringCodec
