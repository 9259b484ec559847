import Mathlib.Data.List.Basic
import NetworkUtility.Base.ByteOrder

/-! `base64_decode` of string_codec.cpp, on the bytes of a text. The container of the result makes no
difference. -/
namespace NetworkUtility.StringCodec

/-- `s_base64_table`. -/
def base64Table : Bytes :=
  "ABCDEFGHIJKLMNOPQRSTUVWXYZabcdefghijklmnopqrstuvwxyz0123456789+/".toList.map (·.toNat.toUInt8)

/-- `'='`. -/
def padding : UInt8 := 61

def base64Index (symbol : UInt8) : UInt8 :=
  if 65 ≤ symbol ∧ symbol ≤ 90 then symbol - 65 + 0
  else if 97 ≤ symbol ∧ symbol ≤ 122 then symbol - 97 + 26
  else if 48 ≤ symbol ∧ symbol ≤ 57 then symbol - 48 + 52
  else if symbol = 43 then 62
  else if symbol = 47 then 63
  else if symbol = padding then 0
  else 64

/-- The loop of `base64_decode`. No index is looked at. -/
def decodeQuanta : Bytes → Bytes
  | a :: b :: c :: d :: src =>
    (base64Index a <<< 2 ||| base64Index b >>> 4) ::
      (base64Index b <<< 4 ||| base64Index c >>> 2) ::
      (base64Index c <<< 6 ||| base64Index d) :: decodeQuanta src
  | _ => []

/-- `pad_len`, from the last character but one and the last. -/
def padLen (c d : UInt8) : Option Nat :=
  if d = padding then some (if c = padding then 2 else 1)
  else if c = padding then none
  else some 0

/-- The result and what is left in `dst`; the null pointer is `none`. -/
def base64Decode : Option Bytes → Bool × Bytes
  | none => (false, [])
  | some src =>
    let c := src.getD (src.length - 2) 0
    let d := src.getD (src.length - 1) 0
    if src.length % 4 ≠ 0 then (false, [])
    else if src.length = 0 then (true, [])
    else if padding ∈ src.take (src.length - 2) then (false, [])
    else if base64Index d > 63 ∨ base64Index c > 63 then (false, [])
    else
      match padLen c d with
      | none => (false, [])
      | some padLen => (true, (decodeQuanta src).take ((src.length + 3) / 4 * 3 - padLen))

/-- The text is base64: characters of the alphabet, then at most two `=`. -/
def IsBase64 (src : Bytes) : Prop :=
  src.length % 4 = 0 ∧ ∃ body pad, src = body ++ List.replicate pad padding ∧ pad ≤ 2 ∧
    ∀ symbol ∈ body, symbol ∈ base64Table

/-- The last two characters as `base64_decode` wants them. -/
def TailAccepted (c d : UInt8) : Prop :=
  base64Index d ≤ 63 ∧ base64Index c ≤ 63 ∧ (c = padding → d = padding)

/-- If nothing else is wrong with the text, no character in front of the last two is foreign. -/
def FrontSound (src : Bytes) : Prop :=
  ∀ front c d, src = front ++ [c, d] → src.length % 4 = 0 → padding ∉ front → TailAccepted c d →
    ∀ symbol ∈ front, base64Index symbol ≤ 63

variable {src front : Bytes} {c d symbol : UInt8}

/-- The alphabet is the three ranges of `base64_index`, then `+` and `/`. -/
def alphabet : List Nat :=
  List.range' 65 26 ++ List.range' 97 26 ++ List.range' 48 10 ++ [43, 47]

theorem base64Table_eq : base64Table = alphabet.map Nat.toUInt8 := by decide

theorem mem_base64Table : symbol ∈ base64Table ↔ symbol.toNat ∈ alphabet := by
  have hlt : ∀ n ∈ alphabet, n < 256 := by decide
  rw [base64Table_eq, List.mem_map]
  constructor
  · rintro ⟨n, hn, rfl⟩
    rwa [UInt8.toNat_ofNat_of_lt' (hlt n hn)]
  · intro hmem
    exact ⟨_, hmem, UInt8.ofNat_toNat⟩

theorem mem_alphabet {n : Nat} : n ∈ alphabet ↔ (65 ≤ n ∧ n ≤ 90) ∨ (97 ≤ n ∧ n ≤ 122) ∨
    (48 ≤ n ∧ n ≤ 57) ∨ n = 43 ∨ n = 47 := by
  simp only [alphabet, List.mem_append, List.mem_range'_1, List.mem_pair]
  omega

/-- Within its range each branch stays below 64. -/
theorem base64Index_le : base64Index symbol ≤ 63 ↔ symbol = padding ∨ symbol ∈ base64Table := by
  have hlt := symbol.toNat_lt
  rw [mem_base64Table, mem_alphabet]
  simp only [base64Index, padding, UInt8.le_iff_toNat_le, ← UInt8.toNat_inj]
  split_ifs
  all_goals simp_all [UInt8.toNat_sub, UInt8.toNat_add]
  all_goals omega

theorem padding_notMem_base64Table : padding ∉ base64Table := by
  rw [mem_base64Table, mem_alphabet]
  decide

/-- Every text but the shortest has a tail. -/
theorem exists_tail (hlen : 2 ≤ src.length) : ∃ front c d, src = front ++ [c, d] := by
  refine ⟨src.take (src.length - 2), ?_⟩
  have hdrop : (src.drop (src.length - 2)).length = 2 := by
    rw [List.length_drop]
    omega
  obtain ⟨c, d, htail⟩ := List.length_eq_two.mp hdrop
  exact ⟨c, d, by rw [← htail, List.take_append_drop]⟩

/-- What is checked of a text that has a tail. -/
theorem base64Decode_tail : (base64Decode (some (front ++ [c, d]))).1 = true ↔
    (front ++ [c, d]).length % 4 = 0 ∧ padding ∉ front ∧ TailAccepted c d := by
  have hc : (front ++ [c, d]).getD ((front ++ [c, d]).length - 2) 0 = c := by simp
  have hd : (front ++ [c, d]).getD ((front ++ [c, d]).length - 1) 0 = d := by simp
  have hfront : (front ++ [c, d]).take ((front ++ [c, d]).length - 2) = front := by simp
  have hpos : (front ++ [c, d]).length ≠ 0 := by simp
  have hle : ∀ n : UInt8, ¬ n > 63 ↔ n ≤ 63 := fun _ => UInt8.not_lt
  simp only [base64Decode, hc, hd, hfront, hpos, if_false, TailAccepted, padLen]
  generalize (front ++ [c, d]).length = len
  generalize decodeQuanta (front ++ [c, d]) = dst
  by_cases hlen : len % 4 = 0
  · by_cases hpad : padding ∈ front
    · simp [hpad]
    · by_cases hindex : base64Index d > 63 ∨ base64Index c > 63
      · have hno : ¬ (base64Index d ≤ 63 ∧ base64Index c ≤ 63 ∧ (c = padding → d = padding)) := by
          rintro ⟨hd', hc', -⟩
          exact hindex.elim ((hle _).mpr hd') ((hle _).mpr hc')
        simp [hpad, hindex, hno]
      · have hboth : base64Index d ≤ 63 ∧ base64Index c ≤ 63 := by
          rwa [not_or, hle, hle] at hindex
        rw [if_neg (not_not.mpr hlen), if_neg hpad, if_neg hindex]
        by_cases hdp : d = padding
        · subst hdp
          simp [hlen, hpad, hboth]
        · by_cases hcp : c = padding <;> simp [hlen, hpad, hboth, hdp, hcp]
  · simp [hlen]

/-- A text with a tail is base64 if it passes the checks and its front is in the alphabet. -/
theorem isBase64_tail : IsBase64 (front ++ [c, d]) ↔
    ((front ++ [c, d]).length % 4 = 0 ∧ padding ∉ front ∧ TailAccepted c d) ∧
      ∀ symbol ∈ front, base64Index symbol ≤ 63 := by
  have hin : ∀ {symbol}, symbol ∈ base64Table → base64Index symbol ≤ 63 ∧ symbol ≠ padding := by
    intro symbol hmem
    refine ⟨base64Index_le.mpr (.inr hmem), ?_⟩
    rintro rfl
    exact padding_notMem_base64Table hmem
  have hpadding : base64Index padding ≤ 63 := by decide
  constructor
  · rintro ⟨hlen, body, pad, hsrc, hpad, hbody⟩
    have hfront : ∀ {symbol}, symbol ∈ front → symbol ∈ body →
        base64Index symbol ≤ 63 ∧ symbol ≠ padding := fun _ hmem => hin (hbody _ hmem)
    obtain rfl | rfl | rfl : pad = 0 ∨ pad = 1 ∨ pad = 2 := by omega
    · obtain rfl : front ++ [c, d] = body := by simpa using hsrc
      obtain ⟨hd, -⟩ := hin (hbody d (by simp))
      obtain ⟨hc, hcp⟩ := hin (hbody c (by simp))
      refine ⟨⟨hlen, ?_, hd, hc, fun h => absurd h hcp⟩, ?_⟩
      · exact fun hmem => (hin (hbody padding (by simp [hmem]))).2 rfl
      · exact fun symbol hmem => (hin (hbody symbol (by simp [hmem]))).1
    · obtain ⟨rfl, rfl⟩ : front ++ [c] = body ∧ d = padding := by
        have hsnoc : (front ++ [c]) ++ [d] = body ++ [padding] := by simpa using hsrc
        simpa using List.append_inj' hsnoc rfl
      obtain ⟨hc, -⟩ := hin (hbody c (by simp))
      refine ⟨⟨hlen, ?_, hpadding, hc, fun _ => rfl⟩, ?_⟩
      · exact fun hmem => (hin (hbody padding (by simp [hmem]))).2 rfl
      · exact fun symbol hmem => (hin (hbody symbol (by simp [hmem]))).1
    · obtain ⟨rfl, hcd⟩ := List.append_inj' hsrc (by simp)
      obtain ⟨rfl, rfl⟩ : c = padding ∧ d = padding := by simpa using hcd
      refine ⟨⟨hlen, ?_, hpadding, hpadding, fun _ => rfl⟩, ?_⟩
      · exact fun hmem => (hin (hbody padding hmem)).2 rfl
      · exact fun symbol hmem => (hin (hbody symbol hmem)).1
  · rintro ⟨⟨hlen, hpad, hd, hc, hcd⟩, hfront⟩
    have hbody : ∀ symbol ∈ front, symbol ∈ base64Table := by
      intro symbol hmem
      refine (base64Index_le.mp (hfront symbol hmem)).resolve_left ?_
      rintro rfl
      exact hpad hmem
    refine ⟨hlen, ?_⟩
    rcases base64Index_le.mp hd with rfl | hd
    · rcases base64Index_le.mp hc with rfl | hc
      · exact ⟨front, 2, rfl, Nat.le_refl 2, hbody⟩
      · refine ⟨front ++ [c], 1, by simp, by omega, ?_⟩
        intro symbol hmem
        rcases List.mem_append.mp hmem with hmem | hmem
        · exact hbody symbol hmem
        · rwa [List.mem_singleton.mp hmem]
    · have hcp : c ∈ base64Table := by
        refine (base64Index_le.mp hc).resolve_left fun hcp => ?_
        rw [hcd hcp] at hd
        exact padding_notMem_base64Table hd
      refine ⟨front ++ [c, d], 0, by simp, by omega, ?_⟩
      intro symbol hmem
      rcases List.mem_append.mp hmem with hmem | hmem
      · exact hbody symbol hmem
      · rcases List.mem_pair.mp hmem with rfl | rfl
        · exact hcp
        · exact hd

/-- A text without a tail is accepted if it is empty, and so it should be. -/
theorem accepts_short (hlen : src.length < 2) :
    (base64Decode (some src)).1 = true ↔ IsBase64 src := by
  cases src with
  | nil => exact ⟨fun _ => ⟨rfl, [], 0, rfl, Nat.zero_le 2, by simp⟩, fun _ => rfl⟩
  | cons symbol src =>
    cases src with
    | nil => simp [base64Decode, IsBase64]
    | cons symbol' src =>
      simp only [List.length_cons] at hlen
      omega

/-- `base64_decode` accepts base64 and nothing else exactly when no foreign character stands in front
of the last two of a text that it accepts. -/
theorem accepts_base64_iff :
    ((base64Decode (some src)).1 = true ↔ IsBase64 src) ↔ FrontSound src := by
  rcases Nat.lt_or_ge src.length 2 with hlen | hlen
  · refine iff_of_true (accepts_short hlen) ?_
    rintro front c d rfl
    simp at hlen
  · obtain ⟨front, c, d, rfl⟩ := exists_tail hlen
    rw [base64Decode_tail, isBase64_tail]
    constructor
    · intro h front' c' d' hsrc hlen hpad htail
      obtain ⟨rfl, hcd⟩ := List.append_inj' hsrc rfl
      obtain ⟨rfl, rfl⟩ : c = c' ∧ d = d' := by simpa using hcd
      exact (h.mp ⟨hlen, hpad, htail⟩).2
    · intro hsound
      refine ⟨fun h => ⟨h, ?_⟩, fun h => h.1⟩
      exact hsound front c d rfl h.1 h.2.1 h.2.2

/-- `!AAA` is decoded. -/
theorem foreign_accepted : ¬ ((base64Decode (some [33, 65, 65, 65])).1 = true ↔
    IsBase64 [33, 65, 65, 65]) := by
  have haccepted : (base64Decode (some [33, 65, 65, 65])).1 = true := by decide
  intro h
  have hbase : IsBase64 ([33, 65] ++ [65, 65]) := h.mp haccepted
  exact absurd ((isBase64_tail.mp hbase).2 33 (by decide)) (by decide)

end NetworkUtility.StringCodec
