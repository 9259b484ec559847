import Mathlib.Data.List.Basic
import Mathlib.Data.List.GetD
import Mathlib.Tactic.Ring

/-! `order_bytes` of base.cpp, and how a host lays an unsigned integer out in memory. -/
namespace NetworkUtility

abbrev Bytes := List UInt8

inductive ByteOrder
  | little
  | big
  deriving DecidableEq, Repr

/-- The `w` low bytes of `v`, least significant first. -/
def littleEndian : Nat → Nat → Bytes
  | 0, _ => []
  | w + 1, v => UInt8.ofNat v :: littleEndian w (v / 256)

def littleValue : Bytes → Nat
  | [] => 0
  | b :: bs => b.toNat + 256 * littleValue bs

/-- An unsigned integer of `w` bytes in the memory of a host. -/
def ByteOrder.store : ByteOrder → Nat → Nat → Bytes
  | .little, w, v => littleEndian w v
  | .big, w, v => (littleEndian w v).reverse

def ByteOrder.load : ByteOrder → Bytes → Nat
  | .little, bs => littleValue bs
  | .big, bs => littleValue bs.reverse

/-- One round of the loop of `order_bytes`: bytes `i` and `size - 1 - i` change places. -/
def swapBytes (bytes : Bytes) (i : Nat) : Bytes :=
  (bytes.set i (bytes.getD (bytes.length - 1 - i) 0)).set (bytes.length - 1 - i) (bytes.getD i 0)

/-- `uc[0]` is the first byte of the `unsigned short` 0x0001 on this host. -/
def orderBytes (o : ByteOrder) (obj : Bytes) : Bytes :=
  if 1 < obj.length ∧ (o.store 2 0x0001).head? = some 0x01 then
    (List.range (obj.length / 2)).foldl swapBytes obj
  else
    obj

def hostToNet (o : ByteOrder) (obj : Bytes) : Bytes := orderBytes o obj

def netToHost (o : ByteOrder) (obj : Bytes) : Bytes := orderBytes o obj

variable {bs : Bytes} {i j k v w : Nat}

@[simp] theorem length_littleEndian (w v : Nat) : (littleEndian w v).length = w := by
  induction w generalizing v with
  | zero => rfl
  | succ w ih => simp [littleEndian, ih]

@[simp] theorem length_store (o : ByteOrder) (w v : Nat) : (o.store w v).length = w := by
  cases o <;> simp [ByteOrder.store]

theorem littleValue_littleEndian (h : v < 256 ^ w) : littleValue (littleEndian w v) = v := by
  induction w generalizing v with
  | zero => simp at h; simp [littleEndian, littleValue, h]
  | succ w ih =>
    have hv : v / 256 < 256 ^ w := Nat.div_lt_of_lt_mul (by rw [pow_succ] at h; omega)
    simp only [littleEndian, littleValue, ih hv, UInt8.toNat_ofNat']
    omega

theorem littleEndian_littleValue (bs : Bytes) : littleEndian bs.length (littleValue bs) = bs := by
  induction bs with
  | nil => rfl
  | cons b bs ih =>
    have hb := b.toNat_lt
    have hdiv : (b.toNat + 256 * littleValue bs) / 256 = littleValue bs := by omega
    have hmod : UInt8.ofNat (b.toNat + 256 * littleValue bs) = b := by
      apply UInt8.toNat_inj.mp
      rw [UInt8.toNat_ofNat']
      omega
    simp only [List.length_cons, littleEndian, littleValue, hdiv, hmod, ih]

theorem littleValue_lt (bs : Bytes) : littleValue bs < 256 ^ bs.length := by
  induction bs with
  | nil => simp [littleValue]
  | cons b bs ih =>
    have hb := b.toNat_lt
    simp only [littleValue, List.length_cons, pow_succ]
    omega

@[simp] theorem length_swapBytes (bs : Bytes) (i : Nat) : (swapBytes bs i).length = bs.length := by
  simp [swapBytes]

theorem length_swapLoop (bs : Bytes) (k : Nat) :
    ((List.range k).foldl swapBytes bs).length = bs.length := by
  induction k with
  | zero => rfl
  | succ k ih => simp [List.range_succ, ih]

theorem getElem?_swapBytes (hi : i < bs.length) (hj : j < bs.length) :
    (swapBytes bs i)[j]? =
      if j = i then bs[bs.length - 1 - i]?
      else if j = bs.length - 1 - i then bs[i]? else bs[j]? := by
  have hr : bs.length - 1 - i < bs.length := by omega
  simp only [swapBytes, List.getElem?_set, List.length_set]
  by_cases h1 : bs.length - 1 - i = j
  · subst h1
    by_cases h2 : bs.length - 1 - i = i
    · simp [h2, hi]
    · simp [h2, hi, hr]
  · by_cases h2 : i = j
    · subst h2
      simp [h1, hi, hr]
    · simp [h1, h2, Ne.symm h1, Ne.symm h2]

/-- After `k` rounds the outer `k` pairs are swapped and the middle is untouched. -/
theorem getElem?_swapLoop (hk : k ≤ bs.length / 2) (hj : j < bs.length) :
    ((List.range k).foldl swapBytes bs)[j]? =
      if j < k ∨ bs.length - 1 - j < k then bs[bs.length - 1 - j]? else bs[j]? := by
  induction k generalizing j with
  | zero => simp
  | succ k ih =>
    have hl := length_swapLoop bs k
    have hkl : k < bs.length := by omega
    rw [List.range_succ, List.foldl_append, List.foldl_cons, List.foldl_nil,
      getElem?_swapBytes (by omega) (by omega), hl]
    split
    · next h =>
      subst h
      rw [ih (by omega) (by omega), if_neg (by omega), if_pos (by omega)]
    · split
      · next h =>
        subst h
        rw [ih (by omega) hkl, if_neg (by omega), if_pos (by omega)]
        congr 1
        omega
      · rw [ih (by omega) hj]
        have : (j < k ∨ bs.length - 1 - j < k) ↔ (j < k + 1 ∨ bs.length - 1 - j < k + 1) := by omega
        simp only [this]

theorem swapLoop_eq_reverse (bs : Bytes) :
    (List.range (bs.length / 2)).foldl swapBytes bs = bs.reverse := by
  apply List.ext_getElem?
  intro j
  by_cases hj : j < bs.length
  · rw [getElem?_swapLoop le_rfl hj, List.getElem?_reverse hj]
    split
    · rfl
    · congr 1
      omega
  · rw [List.getElem?_eq_none, List.getElem?_eq_none]
    · simpa using hj
    · simpa [length_swapLoop] using hj

@[simp] theorem orderBytes_little (bs : Bytes) : orderBytes .little bs = bs.reverse := by
  unfold orderBytes
  split
  · exact swapLoop_eq_reverse bs
  · next h =>
    have hl : bs.length ≤ 1 := by
      by_contra hl
      exact h ⟨by omega, rfl⟩
    match bs, hl with
    | [], _ => rfl
    | [b], _ => rfl

@[simp] theorem orderBytes_big (bs : Bytes) : orderBytes .big bs = bs := by
  simp [orderBytes, ByteOrder.store, littleEndian]

@[simp] theorem length_orderBytes (o : ByteOrder) (bs : Bytes) :
    (orderBytes o bs).length = bs.length := by
  cases o <;> simp

/-- The network form of an integer does not depend on the host that wrote it. -/
theorem hostToNet_store (o : ByteOrder) (w v : Nat) :
    hostToNet o (o.store w v) = (littleEndian w v).reverse := by
  cases o <;> simp [hostToNet, ByteOrder.store]

/-- Nor does the integer read back depend on the host that reads it. -/
theorem load_netToHost (o : ByteOrder) (bs : Bytes) :
    o.load (netToHost o bs) = littleValue bs.reverse := by
  cases o <;> simp [netToHost, ByteOrder.load]

end NetworkUtility
