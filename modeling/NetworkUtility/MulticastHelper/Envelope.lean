import Mathlib.Data.List.Basic
import NetworkUtility.Base.ByteOrder

/-! `packet_message` and `unpack_message` of `MulticastHelperImpl`. What `unpack_message` reads of a
message is read with its bounds: to read outside is an error of its own. -/
namespace NetworkUtility.MulticastHelper

/-- The size of `m_recv_buffer`. -/
def capacity : Nat := 1472

/-- `m_protocol_prefix` and `m_protocol_suffix`. -/
structure Protocol where
  protocolPrefix : Bytes
  protocolSuffix : Bytes
  deriving DecidableEq, Repr

inductive Outside
  | read
  | underflow
  deriving DecidableEq, Repr

/-- `len` bytes from `pos` on. -/
def readAt (message : Bytes) (pos len : Nat) : Except Outside Bytes :=
  if pos + len ≤ message.length then .ok ((message.drop pos).take len) else .error .read

/-- A difference of two sizes, which have no sign. -/
def subSize (a b : Nat) : Except Outside Nat := if b ≤ a then .ok (a - b) else .error .underflow

namespace Protocol

def packetMessage (p : Protocol) (data : Bytes) : Option Bytes :=
  if data = [] ∨ p.protocolPrefix.length + data.length + p.protocolSuffix.length > capacity then none
  else some (p.protocolPrefix ++ data ++ p.protocolSuffix)

/-- The second check of `unpack_message`. -/
def prefixDiffers (p : Protocol) (message : Bytes) : Except Outside Bool :=
  if p.protocolPrefix = [] then .ok false
  else do
    let head ← readAt message 0 p.protocolPrefix.length
    return head ≠ p.protocolPrefix

/-- The third check. -/
def suffixDiffers (p : Protocol) (message : Bytes) : Except Outside Bool :=
  if p.protocolSuffix = [] then .ok false
  else do
    let pos ← subSize message.length p.protocolSuffix.length
    let tail ← readAt message pos p.protocolSuffix.length
    return tail ≠ p.protocolSuffix

def unpackMessage (p : Protocol) (message : Bytes) : Except Outside (Option Bytes) :=
  if message.length ≤ p.protocolPrefix.length + p.protocolSuffix.length then .ok none
  else do
    if ← p.prefixDiffers message then return none
    if ← p.suffixDiffers message then return none
    let size ← subSize message.length p.protocolPrefix.length
    let size ← subSize size p.protocolSuffix.length
    let data ← readAt message p.protocolPrefix.length size
    return some data

variable {p : Protocol} {data message : Bytes}

theorem packetMessage_eq_some : p.packetMessage data = some message ↔
    data ≠ [] ∧ p.protocolPrefix.length + data.length + p.protocolSuffix.length ≤ capacity ∧
      message = p.protocolPrefix ++ data ++ p.protocolSuffix := by
  unfold packetMessage
  split_ifs with h
  · refine iff_of_false (by simp) ?_
    rintro ⟨hne, hle, -⟩
    exact h.elim hne (Nat.not_lt.mpr hle)
  · rw [not_or, Nat.not_lt] at h
    rw [Option.some.injEq]
    exact ⟨fun heq => ⟨h.1, h.2, heq.symm⟩, fun hall => hall.2.2.symm⟩

theorem readAt_ok {pos len : Nat} (h : pos + len ≤ message.length) :
    readAt message pos len = .ok ((message.drop pos).take len) :=
  if_pos h

theorem subSize_ok {a b : Nat} (h : b ≤ a) : subSize a b = .ok (a - b) :=
  if_pos h

theorem prefixDiffers_ok (h : p.protocolPrefix.length ≤ message.length) :
    p.prefixDiffers message =
      .ok (decide (message.take p.protocolPrefix.length ≠ p.protocolPrefix)) := by
  unfold prefixDiffers
  split_ifs with hempty
  · simp [hempty]
  · rw [readAt_ok (by omega)]
    rfl

theorem suffixDiffers_ok (h : p.protocolSuffix.length ≤ message.length) :
    p.suffixDiffers message = .ok (decide
      (message.drop (message.length - p.protocolSuffix.length) ≠ p.protocolSuffix)) := by
  unfold suffixDiffers
  split_ifs with hempty
  · simp [hempty]
  · have htail : (message.drop (message.length - p.protocolSuffix.length)).take
        p.protocolSuffix.length =
        message.drop (message.length - p.protocolSuffix.length) := by
      apply List.take_of_length_le
      rw [List.length_drop]
      omega
    rw [subSize_ok h]
    simp only [bind, Except.bind, pure, Except.pure]
    rw [readAt_ok (by omega), htail]

/-- A message that is longer than both ends together is looked at from both ends, and never outside. -/
theorem unpackMessage_long
    (h : p.protocolPrefix.length + p.protocolSuffix.length < message.length) :
    p.unpackMessage message = .ok
      (if message.take p.protocolPrefix.length = p.protocolPrefix ∧
          message.drop (message.length - p.protocolSuffix.length) = p.protocolSuffix then
        some ((message.drop p.protocolPrefix.length).take
          (message.length - p.protocolPrefix.length - p.protocolSuffix.length))
      else none) := by
  unfold unpackMessage
  rw [if_neg (Nat.not_le.mpr h), prefixDiffers_ok (by omega), suffixDiffers_ok (by omega),
    subSize_ok (by omega)]
  simp only [bind, Except.bind, pure, Except.pure]
  rw [subSize_ok (by omega)]
  simp only
  rw [readAt_ok (by omega)]
  by_cases hfront : message.take p.protocolPrefix.length = p.protocolPrefix
  · by_cases hback :
        message.drop (message.length - p.protocolSuffix.length) = p.protocolSuffix
    · simp [hfront, hback]
    · simp [hfront, hback]
  · simp [hfront]

/-- One that is not has no room for data. -/
theorem unpackMessage_short
    (h : message.length ≤ p.protocolPrefix.length + p.protocolSuffix.length) :
    p.unpackMessage message = .ok none :=
  if_pos h

/-- Two ends that do not meet, and what is between them. -/
theorem split_ends {a b : Nat} (h : a + b ≤ message.length) :
    message.take a ++ (message.drop a).take (message.length - a - b) ++
      message.drop (message.length - b) = message := by
  have hdrop : message.drop (message.length - b) =
      (message.drop a).drop (message.length - a - b) := by
    rw [List.drop_drop]
    congr 1
    omega
  rw [hdrop, List.append_assoc, List.take_append_drop, List.take_append_drop]

theorem unpackMessage_eq_some : p.unpackMessage message = .ok (some data) ↔
    data ≠ [] ∧ message = p.protocolPrefix ++ data ++ p.protocolSuffix := by
  rcases Nat.lt_or_ge (p.protocolPrefix.length + p.protocolSuffix.length) message.length
    with hlong | hshort
  · have hsplit := split_ends (Nat.le_of_lt hlong)
    rw [unpackMessage_long hlong]
    constructor
    · intro h
      split_ifs at h with hends
      · rw [hends.1, hends.2] at hsplit
        obtain rfl := Option.some.inj (Except.ok.inj h)
        refine ⟨?_, hsplit.symm⟩
        apply List.ne_nil_of_length_pos
        rw [List.length_take, List.length_drop]
        omega
      · cases h
    · rintro ⟨-, rfl⟩
      have hhead : (p.protocolPrefix ++ data ++ p.protocolSuffix).take p.protocolPrefix.length =
          p.protocolPrefix := by
        simp
      have htail : (p.protocolPrefix ++ data ++ p.protocolSuffix).drop
          ((p.protocolPrefix ++ data ++ p.protocolSuffix).length - p.protocolSuffix.length) =
          p.protocolSuffix := by
        apply List.drop_left'
        simp only [List.length_append]
        omega
      rw [if_pos ⟨hhead, htail⟩]
      rw [hhead, htail] at hsplit
      exact congrArg (Except.ok ∘ some) (List.append_cancel_left (List.append_cancel_right hsplit))
  · rw [unpackMessage_short hshort]
    refine iff_of_false (by simp) ?_
    rintro ⟨hne, rfl⟩
    have hpos := List.length_pos_of_ne_nil hne
    simp only [List.length_append] at hshort
    omega

/-- No read is outside, whatever the message. -/
theorem unpackMessage_total (p : Protocol) (message : Bytes) :
    ∃ result, p.unpackMessage message = .ok result := by
  rcases Nat.lt_or_ge (p.protocolPrefix.length + p.protocolSuffix.length) message.length
    with hlong | hshort
  · exact ⟨_, unpackMessage_long hlong⟩
  · exact ⟨none, unpackMessage_short hshort⟩

/-- The envelope: what is packed, what is unpacked, that each undoes the other, and that a message in
which the two ends overlap is refused without a read outside. -/
theorem packet_unpack (p : Protocol) (data message : Bytes) :
    (p.packetMessage data = some message ↔
      data ≠ [] ∧ p.protocolPrefix.length + data.length + p.protocolSuffix.length ≤ 1472 ∧
        message = p.protocolPrefix ++ data ++ p.protocolSuffix) ∧
    (p.unpackMessage message = .ok (some data) ↔
      data ≠ [] ∧ message = p.protocolPrefix ++ data ++ p.protocolSuffix) ∧
    (p.packetMessage data = some message → p.unpackMessage message = .ok (some data)) ∧
    (p.unpackMessage message = .ok (some data) → message.length ≤ 1472 →
      p.packetMessage data = some message) ∧
    (message.length < p.protocolPrefix.length + p.protocolSuffix.length →
      p.unpackMessage message = .ok none) ∧
    ∃ result, p.unpackMessage message = .ok result := by
  refine ⟨packetMessage_eq_some, unpackMessage_eq_some, ?_, ?_, ?_, unpackMessage_total p message⟩
  · intro h
    obtain ⟨hne, -, heq⟩ := packetMessage_eq_some.mp h
    exact unpackMessage_eq_some.mpr ⟨hne, heq⟩
  · intro h hle
    obtain ⟨hne, rfl⟩ := unpackMessage_eq_some.mp h
    refine packetMessage_eq_some.mpr ⟨hne, ?_, rfl⟩
    simpa [capacity, Nat.add_assoc] using hle
  · exact fun h => unpackMessage_short (Nat.le_of_lt h)

/-- With `AB` in front and `BA` behind, `ABA` is refused and `ABCBA` carries `C`. -/
theorem packet_unpack_aba :
    Protocol.unpackMessage ⟨[65, 66], [66, 65]⟩ [65, 66, 65] = .ok none ∧
      Protocol.unpackMessage ⟨[65, 66], [66, 65]⟩ [65, 66, 67, 66, 65] = .ok (some [67]) := by
  have hshort := (packet_unpack ⟨[65, 66], [66, 65]⟩ [67] [65, 66, 65]).2.2.2.2.1 (by decide)
  have hpacked : Protocol.packetMessage ⟨[65, 66], [66, 65]⟩ [67] = some [65, 66, 67, 66, 65] := by
    decide
  exact ⟨hshort, (packet_unpack _ _ _).2.2.1 hpacked⟩

end Protocol

end NetworkUtility.MulticastHelper
