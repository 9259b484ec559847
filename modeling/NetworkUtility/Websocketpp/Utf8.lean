import NetworkUtility.Base.ByteOrder
import Mathlib.Data.List.Basic

/-! The table-driven validator of utf8_validator.hpp against the encoding of characters. -/
namespace NetworkUtility.Websocketpp

/-- `utf8d`: the types of the 256 bytes, then sixteen entries for each of the nine states. -/
def utf8d : List Nat := [
  0,0,0,0,0,0,0,0,0,0,0,0,0,0,0,0,0,0,0,0,0,0,0,0,0,0,0,0,0,0,0,0,
  0,0,0,0,0,0,0,0,0,0,0,0,0,0,0,0,0,0,0,0,0,0,0,0,0,0,0,0,0,0,0,0,
  0,0,0,0,0,0,0,0,0,0,0,0,0,0,0,0,0,0,0,0,0,0,0,0,0,0,0,0,0,0,0,0,
  0,0,0,0,0,0,0,0,0,0,0,0,0,0,0,0,0,0,0,0,0,0,0,0,0,0,0,0,0,0,0,0,
  1,1,1,1,1,1,1,1,1,1,1,1,1,1,1,1,9,9,9,9,9,9,9,9,9,9,9,9,9,9,9,9,
  7,7,7,7,7,7,7,7,7,7,7,7,7,7,7,7,7,7,7,7,7,7,7,7,7,7,7,7,7,7,7,7,
  8,8,2,2,2,2,2,2,2,2,2,2,2,2,2,2,2,2,2,2,2,2,2,2,2,2,2,2,2,2,2,2,
  0xa,0x3,0x3,0x3,0x3,0x3,0x3,0x3,0x3,0x3,0x3,0x3,0x3,0x4,0x3,0x3,
  0xb,0x6,0x6,0x6,0x5,0x8,0x8,0x8,0x8,0x8,0x8,0x8,0x8,0x8,0x8,0x8,
  0x0,0x1,0x2,0x3,0x5,0x8,0x7,0x1,0x1,0x1,0x4,0x6,0x1,0x1,0x1,0x1,
  1,1,1,1,1,1,1,1,1,1,1,1,1,1,1,1,1,0,1,1,1,1,1,0,1,0,1,1,1,1,1,1,
  1,2,1,1,1,1,1,2,1,2,1,1,1,1,1,1,1,1,1,1,1,1,1,2,1,1,1,1,1,1,1,1,
  1,2,1,1,1,1,1,1,1,2,1,1,1,1,1,1,1,1,1,1,1,1,1,3,1,3,1,1,1,1,1,1,
  1,3,1,1,1,1,1,3,1,3,1,1,1,1,1,1,1,3,1,1,1,1,1,1,1,1,1,1,1,1,1,1]

def utf8Accept : Nat := 0
def utf8Reject : Nat := 1

/-- `validator`. -/
structure Validator where
  state : Nat
  codepoint : Nat
  deriving DecidableEq, Repr

namespace Validator

def init : Validator := ⟨utf8Accept, 0⟩

/-- `utf8_validator::decode`. -/
def next (v : Validator) (byte : UInt8) : Validator :=
  let type := utf8d.getD byte.toNat 0
  { codepoint :=
      if v.state ≠ utf8Accept then (byte.toNat &&& 0x3f) ||| (v.codepoint <<< 6 % 2 ^ 32)
      else (0xff >>> type) &&& byte.toNat
    state := utf8d.getD (256 + v.state * 16 + type) 0 }

/-- `validator::decode`: false at the first byte that is rejected. -/
def decode (v : Validator) : Bytes → Validator × Bool
  | [] => (v, true)
  | byte :: rest =>
    let v := v.next byte
    if v.state = utf8Reject then (v, false) else v.decode rest

def complete (v : Validator) : Bool := v.state = utf8Accept

end Validator

/-- `utf8_validator::validate`. -/
def validate (s : Bytes) : Bool :=
  let r := Validator.init.decode s
  if r.2 then r.1.complete else false

/-! ### The automaton in ranges of bytes -/

/-- The state after the first byte of a character. -/
def firstState (byte : Nat) : Nat :=
  if byte < 0x80 then 0
  else if byte < 0xC2 then 1
  else if byte < 0xE0 then 2
  else if byte = 0xE0 then 4
  else if byte = 0xED then 5
  else if byte < 0xF0 then 3
  else if byte = 0xF0 then 6
  else if byte < 0xF4 then 7
  else if byte = 0xF4 then 8
  else 1

def within (low high byte next : Nat) : Nat := if low ≤ byte ∧ byte < high then next else 1

/-- What the table makes of a byte: 0 is between characters, 1 is an error, 2, 3 and 7 wait for one,
two and three bytes, and 4, 5, 6 and 8 for a second byte from a smaller range. -/
def nextState : Nat → Nat → Nat
  | 0, byte => firstState byte
  | 2, byte => within 0x80 0xC0 byte 0
  | 3, byte => within 0x80 0xC0 byte 2
  | 4, byte => within 0xA0 0xC0 byte 2
  | 5, byte => within 0x80 0xA0 byte 2
  | 6, byte => within 0x90 0xC0 byte 3
  | 7, byte => within 0x80 0xC0 byte 3
  | 8, byte => within 0x80 0x90 byte 3
  | _, _ => 1

theorem table_eq : ∀ state < 9, ∀ byte < 256,
    utf8d.getD (256 + state * 16 + utf8d.getD byte 0) 0 = nextState state byte := by decide +kernel

theorem nextState_lt (state byte : Nat) : nextState state byte < 9 := by
  unfold nextState
  split
  · unfold firstState
    split_ifs <;> omega
  all_goals first | omega | (unfold within; split_ifs <;> omega)

variable {v : Validator} {s more : Bytes} {b c d e : UInt8} {n : Nat}

theorem next_state (h : v.state < 9) (b : UInt8) :
    (v.next b).state = nextState v.state b.toNat := table_eq _ h _ b.toNat_lt

/-- The states of a validator, without the code point. -/
def runStates (state : Nat) : Bytes → Nat
  | [] => state
  | b :: rest => runStates (nextState state b.toNat) rest

theorem runStates_append (state : Nat) (s t : Bytes) :
    runStates state (s ++ t) = runStates (runStates state s) t := by
  induction s generalizing state with
  | nil => rfl
  | cons b s ih => exact ih _

theorem runStates_lt (h : n < 9) (s : Bytes) : runStates n s < 9 := by
  induction s generalizing n with
  | nil => exact h
  | cons b s ih => exact ih (nextState_lt ..)

theorem runStates_reject (s : Bytes) : runStates 1 s = 1 := by
  induction s with
  | nil => rfl
  | cons b s ih => exact ih

/-- The loop stops early, but only where the automaton stays. -/
theorem decode_spec (h : v.state < 9) (hne : v.state ≠ 1) (s : Bytes) :
    ((v.decode s).2 = true ↔ runStates v.state s ≠ 1) ∧
      ((v.decode s).2 = true → (v.decode s).1.state = runStates v.state s) := by
  induction s generalizing v with
  | nil => exact ⟨⟨fun _ => hne, fun _ => rfl⟩, fun _ => rfl⟩
  | cons b s ih =>
    have hstate := next_state h b
    simp only [Validator.decode, runStates]
    split
    · next hr =>
      rw [hstate] at hr
      rw [hr, show utf8Reject = 1 from rfl, runStates_reject]
      simp
    · next hr =>
      have := ih (v := v.next b) (hstate ▸ nextState_lt ..) hr
      rwa [hstate] at this

theorem validate_iff (s : Bytes) : validate s = true ↔ runStates 0 s = 0 := by
  obtain ⟨hok, hstate⟩ := decode_spec (v := Validator.init) (by decide) (by decide) s
  have h0 : Validator.init.state = 0 := rfl
  rw [h0] at hok hstate
  unfold validate
  simp only [Validator.complete]
  constructor
  · intro h
    split at h
    · next hr =>
      rw [← hstate hr]
      exact of_decide_eq_true h
    · cases h
  · intro h
    have hr := hok.mpr (by omega)
    rw [if_pos hr, hstate hr, h]
    rfl

/-! ### Characters -/

theorem within_of {low high byte next : Nat} (hlow : low ≤ byte) (hhigh : byte < high) :
    within low high byte next = next := if_pos ⟨hlow, hhigh⟩

theorem within_run {low high next : Nat} {s : Bytes}
    (h : runStates (within low high b.toNat next) s = 0) :
    low ≤ b.toNat ∧ b.toNat < high ∧ runStates next s = 0 := by
  unfold within at h
  split at h
  · next hin => exact ⟨hin.1, hin.2, h⟩
  · rw [runStates_reject] at h
    cases h

theorem runStates_one (h : b.toNat < 0x80) : runStates 0 [b] = 0 := if_pos h

theorem runStates_two (hlow : 0xC2 ≤ b.toNat) (hhigh : b.toNat < 0xE0) (hc : 0x80 ≤ c.toNat)
    (hc' : c.toNat < 0xC0) : runStates 0 [b, c] = 0 := by
  have hfirst : nextState 0 b.toNat = 2 := by
    change firstState b.toNat = 2
    unfold firstState
    split_ifs <;> omega
  rw [runStates, hfirst]
  exact within_of hc hc'

theorem runStates_three (hlow : 0xE0 ≤ b.toNat) (hhigh : b.toNat < 0xF0) (hc : 0x80 ≤ c.toNat)
    (hc' : c.toNat < 0xC0) (hshort : b.toNat = 0xE0 → 0xA0 ≤ c.toNat)
    (hsurrogate : b.toNat = 0xED → c.toNat < 0xA0) (hd : 0x80 ≤ d.toNat) (hd' : d.toNat < 0xC0) :
    runStates 0 [b, c, d] = 0 := by
  have hsecond : nextState (nextState 0 b.toNat) c.toNat = 2 := by
    change nextState (firstState b.toNat) c.toNat = 2
    unfold firstState
    split_ifs
    all_goals first | omega | exact within_of (by omega) (by omega)
  rw [runStates, runStates, hsecond]
  exact within_of hd hd'

theorem runStates_four (hlow : 0xF0 ≤ b.toNat) (hhigh : b.toNat ≤ 0xF4) (hc : 0x80 ≤ c.toNat)
    (hc' : c.toNat < 0xC0) (hshort : b.toNat = 0xF0 → 0x90 ≤ c.toNat)
    (hlarge : b.toNat = 0xF4 → c.toNat < 0x90) (hd : 0x80 ≤ d.toNat) (hd' : d.toNat < 0xC0)
    (he : 0x80 ≤ e.toNat) (he' : e.toNat < 0xC0) : runStates 0 [b, c, d, e] = 0 := by
  have hsecond : nextState (nextState 0 b.toNat) c.toNat = 3 := by
    change nextState (firstState b.toNat) c.toNat = 3
    unfold firstState
    split_ifs
    all_goals first | omega | exact within_of (by omega) (by omega)
  have hthird : nextState 3 d.toNat = 2 := within_of hd hd'
  rw [runStates, runStates, runStates, hsecond, hthird]
  exact within_of he he'

/-- The automaton goes through a character and is between characters again. -/
theorem runStates_encode (ch : Char) : runStates 0 (String.utf8EncodeChar ch) = 0 := by
  have hvalid : ch.val.toNat < 0xD800 ∨ 0xDFFF < ch.val.toNat ∧ ch.val.toNat < 0x110000 := ch.valid
  unfold String.utf8EncodeChar
  generalize ch.val.toNat = v at hvalid
  dsimp only
  split_ifs with h1 h2 h3
  · apply runStates_one
    rw [UInt8.toNat_ofNat']
    omega
  · apply runStates_two <;> rw [UInt8.toNat_ofNat'] <;> omega
  · apply runStates_three <;> simp only [UInt8.toNat_ofNat'] <;> omega
  · apply runStates_four <;> simp only [UInt8.toNat_ofNat'] <;> omega

/-- A character from its code point. -/
theorem exists_char {v : Nat} (hvalid : v < 0xD800 ∨ 0xDFFF < v ∧ v < 0x110000) :
    ∃ ch : Char, ch.val.toNat = v := ⟨Char.ofNatAux v hvalid, rfl⟩

theorem encode_one (hb : b.toNat < 0x80) : ∃ ch, String.utf8EncodeChar ch = [b] := by
  obtain ⟨ch, hch⟩ := exists_char (v := b.toNat) (by omega)
  refine ⟨ch, ?_⟩
  unfold String.utf8EncodeChar
  dsimp only
  rw [hch, if_pos (by omega), UInt8.ofNat_toNat]

theorem ofNat_eq {v : Nat} (h : v = b.toNat) : UInt8.ofNat v = b := by
  rw [h, UInt8.ofNat_toNat]

theorem encode_two (hlow : 0xC2 ≤ b.toNat) (hhigh : b.toNat < 0xE0) (hc : 0x80 ≤ c.toNat)
    (hc' : c.toNat < 0xC0) : ∃ ch, String.utf8EncodeChar ch = [b, c] := by
  obtain ⟨ch, hch⟩ := exists_char (v := (b.toNat - 0xC0) * 64 + (c.toNat - 0x80)) (by omega)
  refine ⟨ch, ?_⟩
  unfold String.utf8EncodeChar
  dsimp only
  rw [hch, if_neg (by omega), if_pos (by omega), ofNat_eq (b := b) (by omega),
    ofNat_eq (b := c) (by omega)]

theorem encode_three (hlow : 0xE0 ≤ b.toNat) (hhigh : b.toNat < 0xF0) (hc : 0x80 ≤ c.toNat)
    (hc' : c.toNat < 0xC0) (hshort : b.toNat = 0xE0 → 0xA0 ≤ c.toNat)
    (hsurrogate : b.toNat = 0xED → c.toNat < 0xA0) (hd : 0x80 ≤ d.toNat) (hd' : d.toNat < 0xC0) :
    ∃ ch, String.utf8EncodeChar ch = [b, c, d] := by
  obtain ⟨ch, hch⟩ := exists_char
    (v := (b.toNat - 0xE0) * 4096 + (c.toNat - 0x80) * 64 + (d.toNat - 0x80)) (by omega)
  refine ⟨ch, ?_⟩
  unfold String.utf8EncodeChar
  dsimp only
  rw [hch, if_neg (by omega), if_neg (by omega), if_pos (by omega), ofNat_eq (b := b) (by omega),
    ofNat_eq (b := c) (by omega), ofNat_eq (b := d) (by omega)]

theorem encode_four (hlow : 0xF0 ≤ b.toNat) (hhigh : b.toNat ≤ 0xF4) (hc : 0x80 ≤ c.toNat)
    (hc' : c.toNat < 0xC0) (hshort : b.toNat = 0xF0 → 0x90 ≤ c.toNat)
    (hlarge : b.toNat = 0xF4 → c.toNat < 0x90) (hd : 0x80 ≤ d.toNat) (hd' : d.toNat < 0xC0)
    (he : 0x80 ≤ e.toNat) (he' : e.toNat < 0xC0) :
    ∃ ch, String.utf8EncodeChar ch = [b, c, d, e] := by
  obtain ⟨ch, hch⟩ := exists_char
    (v := (b.toNat - 0xF0) * 262144 + (c.toNat - 0x80) * 4096 + (d.toNat - 0x80) * 64 +
      (e.toNat - 0x80)) (by omega)
  refine ⟨ch, ?_⟩
  unfold String.utf8EncodeChar
  dsimp only
  rw [hch, if_neg (by omega), if_neg (by omega), if_neg (by omega), ofNat_eq (b := b) (by omega),
    ofNat_eq (b := c) (by omega), ofNat_eq (b := d) (by omega), ofNat_eq (b := e) (by omega)]

/-- A byte of a range comes next. -/
theorem run_within {state low high next : Nat} {s : Bytes} (h : runStates state s = 0)
    (hstep : ∀ byte, nextState state byte = within low high byte next) (hne : state ≠ 0) :
    ∃ c rest, s = c :: rest ∧ low ≤ c.toNat ∧ c.toNat < high ∧ runStates next rest = 0 := by
  cases s with
  | nil => exact absurd h hne
  | cons c rest =>
    rw [runStates, hstep] at h
    obtain ⟨hlow, hhigh, hrest⟩ := within_run h
    exact ⟨c, rest, rfl, hlow, hhigh, hrest⟩

/-- Two bytes are missing. -/
theorem run_three {s : Bytes} (h : runStates 3 s = 0) :
    ∃ d e rest, s = d :: e :: rest ∧ 0x80 ≤ d.toNat ∧ d.toNat < 0xC0 ∧ 0x80 ≤ e.toNat ∧
      e.toNat < 0xC0 ∧ runStates 0 rest = 0 := by
  obtain ⟨d, rest, rfl, h1, h2, hrest⟩ := run_within h (fun _ => rfl) (by decide)
  obtain ⟨e, rest, rfl, h3, h4, hrest⟩ := run_within hrest (fun _ => rfl) (by decide)
  exact ⟨d, e, rest, rfl, h1, h2, h3, h4, hrest⟩

/-- What is accepted begins with a character. -/
theorem first_char {s : Bytes} (h : runStates 0 (b :: s) = 0) :
    ∃ ch rest, b :: s = String.utf8EncodeChar ch ++ rest ∧ runStates 0 rest = 0 := by
  have hlt := b.toNat_lt
  simp only [runStates, nextState, firstState] at h
  split_ifs at h with h1 h2 h3 h4 h5 h6 h7 h8 h9
  · obtain ⟨ch, hch⟩ := encode_one h1
    exact ⟨ch, s, by rw [hch]; rfl, h⟩
  · rw [runStates_reject] at h
    cases h
  · obtain ⟨c, rest, rfl, hc, hc', hrest⟩ := run_within h (fun _ => rfl) (by decide)
    obtain ⟨ch, hch⟩ := encode_two (by omega) h3 hc hc'
    exact ⟨ch, rest, by rw [hch]; rfl, hrest⟩
  · obtain ⟨c, rest, rfl, hc, hc', hrest⟩ := run_within h (fun _ => rfl) (by decide)
    obtain ⟨d, rest, rfl, hd, hd', hrest⟩ := run_within hrest (fun _ => rfl) (by decide)
    obtain ⟨ch, hch⟩ := encode_three (b := b) (c := c) (d := d) (by omega) (by omega) (by omega)
      hc' (by omega) (by omega) hd hd'
    exact ⟨ch, rest, by rw [hch]; rfl, hrest⟩
  · obtain ⟨c, rest, rfl, hc, hc', hrest⟩ := run_within h (fun _ => rfl) (by decide)
    obtain ⟨d, rest, rfl, hd, hd', hrest⟩ := run_within hrest (fun _ => rfl) (by decide)
    obtain ⟨ch, hch⟩ := encode_three (b := b) (c := c) (d := d) (by omega) (by omega) hc
      (by omega) (by omega) (by omega) hd hd'
    exact ⟨ch, rest, by rw [hch]; rfl, hrest⟩
  · obtain ⟨c, d, rest, rfl, hc, hc', hd, hd', hrest⟩ := run_three h
    obtain ⟨ch, hch⟩ := encode_three (b := b) (c := c) (d := d) (by omega) (by omega) hc hc'
      (by omega) (by omega) hd hd'
    exact ⟨ch, rest, by rw [hch]; rfl, hrest⟩
  · obtain ⟨c, rest, rfl, hc, hc', hrest⟩ := run_within h (fun _ => rfl) (by decide)
    obtain ⟨d, e, rest, rfl, hd, hd', he, he', hrest⟩ := run_three hrest
    obtain ⟨ch, hch⟩ := encode_four (b := b) (c := c) (d := d) (e := e) (by omega) (by omega)
      (by omega) hc' (by omega) (by omega) hd hd' he he'
    exact ⟨ch, rest, by rw [hch]; rfl, hrest⟩
  · obtain ⟨c, rest, rfl, hc, hc', hrest⟩ := run_within h (fun _ => rfl) (by decide)
    obtain ⟨d, e, rest, rfl, hd, hd', he, he', hrest⟩ := run_three hrest
    obtain ⟨ch, hch⟩ := encode_four (b := b) (c := c) (d := d) (e := e) (by omega) (by omega) hc
      hc' (by omega) (by omega) hd hd' he he'
    exact ⟨ch, rest, by rw [hch]; rfl, hrest⟩
  · obtain ⟨c, rest, rfl, hc, hc', hrest⟩ := run_within h (fun _ => rfl) (by decide)
    obtain ⟨d, e, rest, rfl, hd, hd', he, he', hrest⟩ := run_three hrest
    obtain ⟨ch, hch⟩ := encode_four (b := b) (c := c) (d := d) (e := e) (by omega) (by omega) hc
      (by omega) (by omega) (by omega) hd hd' he he'
    exact ⟨ch, rest, by rw [hch]; rfl, hrest⟩
  · rw [runStates_reject] at h
    cases h

/-- The bytes of a text. -/
def encodeText (text : List Char) : Bytes := text.flatMap String.utf8EncodeChar

theorem accepted_iff (s : Bytes) : runStates 0 s = 0 ↔ ∃ text, s = encodeText text := by
  constructor
  · intro h
    induction hn : s.length using Nat.strong_induction_on generalizing s with
    | h n ih =>
      cases s with
      | nil => exact ⟨[], rfl⟩
      | cons b s =>
        obtain ⟨ch, rest, heq, hrest⟩ := first_char h
        have hlen := congrArg List.length heq
        have hpos := ch.utf8Size_pos
        rw [List.length_append, String.length_utf8EncodeChar] at hlen
        obtain ⟨text, rfl⟩ := ih rest.length (by omega) rest hrest rfl
        exact ⟨ch :: text, heq⟩
  · rintro ⟨text, rfl⟩
    induction text with
    | nil => rfl
    | cons ch text ih =>
      rw [encodeText, List.flatMap_cons, runStates_append, runStates_encode]
      exact ih

/-- From every state but the error the automaton can still get between two characters. -/
theorem completion (h : n < 9) (hne : n ≠ 1) : ∃ more, runStates n more = 0 := by
  have hcases : n = 0 ∨ n = 2 ∨ n = 3 ∨ n = 4 ∨ n = 5 ∨ n = 6 ∨ n = 7 ∨ n = 8 := by omega
  obtain rfl | rfl | rfl | rfl | rfl | rfl | rfl | rfl := hcases
  · exact ⟨[], rfl⟩
  · exact ⟨[0x80], rfl⟩
  · exact ⟨[0x80, 0x80], rfl⟩
  · exact ⟨[0xA0, 0x80], rfl⟩
  · exact ⟨[0x80, 0x80], rfl⟩
  · exact ⟨[0x90, 0x80, 0x80], rfl⟩
  · exact ⟨[0x80, 0x80, 0x80], rfl⟩
  · exact ⟨[0x80, 0x80, 0x80], rfl⟩

/-- The bytes that a text can begin with. -/
def BeginsText (s : Bytes) : Prop := ∃ more text, s ++ more = encodeText text

theorem beginsText_iff (s : Bytes) : BeginsText s ↔ runStates 0 s ≠ 1 := by
  constructor
  · rintro ⟨more, text, heq⟩ hreject
    have haccept := (accepted_iff _).mpr ⟨text, heq⟩
    rw [runStates_append, hreject, runStates_reject] at haccept
    cases haccept
  · intro hne
    obtain ⟨more, hmore⟩ := completion (runStates_lt (by decide) s) hne
    obtain ⟨text, heq⟩ := (accepted_iff (s ++ more)).mp (by rw [runStates_append, hmore])
    exact ⟨more, text, heq⟩

/-- A validator that has been given `s` and has not rejected it. -/
def Validator.Read (v : Validator) (s : Bytes) : Prop :=
  v.state = runStates 0 s ∧ v.state ≠ utf8Reject

theorem Validator.read_init : Validator.init.Read [] := ⟨rfl, by decide⟩

theorem Validator.Read.lt (h : v.Read s) : v.state < 9 := h.1 ▸ runStates_lt (by decide) s

/-- A text may be validated in pieces, and an error is found with the first byte that no text has
there. -/
theorem Validator.Read.decode (h : v.Read s) (more : Bytes) :
    ((v.decode more).2 = true ↔ BeginsText (s ++ more)) ∧
      ((v.decode more).2 = true → (v.decode more).1.Read (s ++ more)) := by
  obtain ⟨hok, hstate⟩ := decode_spec h.lt h.2 more
  rw [h.1, ← runStates_append] at hok hstate
  rw [beginsText_iff]
  refine ⟨hok, fun hd => ⟨hstate hd, ?_⟩⟩
  rw [hstate hd]
  exact hok.mp hd

/-- The validator of the websocket messages accepts the encodings of characters, each in its shortest
form and no surrogates, and nothing else. -/
theorem validate_iff_text (s : Bytes) : validate s = true ↔ ∃ text, s = encodeText text := by
  rw [validate_iff, accepted_iff]

end NetworkUtility.Websocketpp
