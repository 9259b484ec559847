import Mathlib.Algebra.Group.Int.Defs
import Mathlib.Algebra.Group.Nat.Defs
import Mathlib.Data.List.Basic

/-! The part of `sscanf` that reads numbers: white space, `%f` (only how far it reads) and `%d`. A
conversion reads the longest input that can begin a match and fails if that is not a match. At the
end, the search of `async_read_until` for the end of a header block. -/
namespace NetworkUtility.Scan

abbrev Text := List UInt8

def isDigit (c : UInt8) : Bool := 48 ≤ c && c ≤ 57

def isSpace (c : UInt8) : Bool := c == 32 || (9 ≤ c && c ≤ 13)

def lower (c : UInt8) : UInt8 := if 65 ≤ c && c ≤ 90 then c + 32 else c

def isHexDigit (c : UInt8) : Bool := isDigit c || (97 ≤ lower c && lower c ≤ 102)

def skipSign : Text → Text
  | [] => []
  | c :: cs => if c == 43 || c == 45 then cs else c :: cs

/-- Digits and at most one point: whether there was a digit, and the rest. -/
def mantissa (digit : UInt8 → Bool) (bs : Text) : Bool × Text :=
  let rest := bs.dropWhile digit
  match rest with
  | [] => (bs ≠ [], [])
  | c :: cs =>
    if c == 46 then (rest.length < bs.length || (cs.dropWhile digit).length < cs.length, cs.dropWhile digit)
    else (rest.length < bs.length, rest)

/-- An exponent mark must be followed by digits. -/
def exponent (mark : UInt8) (bs : Text) : Option Text :=
  match bs with
  | [] => some []
  | c :: cs =>
    if lower c == mark then
      let ds := skipSign cs
      if (ds.dropWhile isDigit).length < ds.length then some (ds.dropWhile isDigit) else none
    else some bs

def scanNumber (digit : UInt8 → Bool) (mark : UInt8) (bs : Text) : Option Text :=
  if (mantissa digit bs).1 then exponent mark (mantissa digit bs).2 else none

/-- A word in any case; the pattern is in lower case. -/
def scanWord : Text → Text → Option Text
  | [], bs => some bs
  | _ :: _, [] => none
  | w :: ws, b :: bs => if lower b == w then scanWord ws bs else none

/-- What follows `inf`: nothing more, or the rest of `infinity`. -/
def scanInfinity : Text → Option Text
  | [] => some []
  | c :: cs => if lower c == 105 then scanWord [105, 110, 105, 116, 121] (c :: cs) else some (c :: cs)

def scanUnsigned : Text → Option Text
  | [] => none
  | [c] => scanNumber isDigit 101 [c]
  | c :: x :: cs =>
    if c == 48 && lower x == 120 then scanNumber isHexDigit 112 cs
    else scanNumber isDigit 101 (c :: x :: cs)

/-- `%f`: what follows the number. -/
def scanFloat (bs : Text) : Option Text :=
  let bs := skipSign (bs.dropWhile isSpace)
  match scanWord [105, 110, 102] bs with
  | some rest => scanInfinity rest
  | none =>
    match scanWord [110, 97, 110] bs with
    | some rest => some rest
    | none => scanUnsigned bs

def decimal (bs : Text) : Nat := bs.foldl (fun n c => 10 * n + (c.toNat - 48)) 0

/-- `%d`: the value, as `strtol` bounds it and an `int` stores it, and what follows. -/
def scanInt (bs : Text) : Option (Int × Text) :=
  let bs := bs.dropWhile isSpace
  let ds := skipSign bs
  let value : Int := decimal (ds.takeWhile isDigit)
  let signed := if bs.head? = some 45 then -value else value
  if ds.takeWhile isDigit ≠ [] then
    some (Int.bmod (max (-2 ^ 63) (min (2 ^ 63 - 1) signed)) (2 ^ 32), ds.dropWhile isDigit)
  else none

/-- A literal of the format, byte for byte. -/
def scanLiteral : Text → Text → Option Text
  | [], bs => some bs
  | _ :: _, [] => none
  | w :: ws, b :: bs => if b == w then scanLiteral ws bs else none

/-- `async_read_until` looks for the end of the header block; `len` is the offset behind it. -/
def endOfHead : Text → Option Nat
  | [] => none
  | b :: bs => if [13, 10, 13, 10].isPrefixOf (b :: bs) then some 4 else (endOfHead bs).map (· + 1)

variable {head bytes : Text}

theorem endOfHead_le {bs : Text} {len : Nat} (h : endOfHead bs = some len) : len ≤ bs.length := by
  induction bs generalizing len with
  | nil => cases h
  | cons b bs ih =>
    unfold endOfHead at h
    split at h
    · next hp =>
      have hle := (List.isPrefixOf_iff_prefix.mp hp).length_le
      obtain rfl : 4 = len := by simpa using h
      simpa using hle
    · obtain ⟨n, hn, rfl⟩ := Option.map_eq_some_iff.mp h
      simpa using ih hn

theorem four_le_endOfHead {bs : Text} {len : Nat} (h : endOfHead bs = some len) : 4 ≤ len := by
  induction bs generalizing len with
  | nil => cases h
  | cons b bs ih =>
    unfold endOfHead at h
    split at h
    · exact Nat.le_of_eq (by simpa using h)
    · obtain ⟨n, hn, rfl⟩ := Option.map_eq_some_iff.mp h
      exact Nat.le_succ_of_le (ih hn)

/-- The header block that has been found stays where it is. -/
theorem endOfHead_append {bs : Text} {len : Nat} (h : endOfHead bs = some len) (more : Text) :
    endOfHead (bs ++ more) = some len := by
  induction bs generalizing len with
  | nil => cases h
  | cons b bs ih =>
    unfold endOfHead at h
    rw [List.cons_append]
    unfold endOfHead
    split at h
    · next hp =>
      have hpre := (List.isPrefixOf_iff_prefix.mp hp).trans (List.prefix_append (b :: bs) more)
      rw [List.cons_append] at hpre
      rw [if_pos (List.isPrefixOf_iff_prefix.mpr hpre)]
      exact h
    · next hp =>
      obtain ⟨n, hn, rfl⟩ := Option.map_eq_some_iff.mp h
      have hlen := Nat.le_trans (four_le_endOfHead hn) (endOfHead_le hn)
      have hnot : ¬ [13, 10, 13, 10].isPrefixOf (b :: (bs ++ more)) = true := by
        intro hpre
        apply hp
        have hpre := List.isPrefixOf_iff_prefix.mp hpre
        rw [← List.cons_append] at hpre
        apply List.isPrefixOf_iff_prefix.mpr
        exact List.prefix_of_prefix_length_le hpre (List.prefix_append (b :: bs) more)
          (by simp; omega)
      rw [if_neg hnot, ih hn]
      rfl

theorem endOfHead_cons (b : UInt8) (h : (endOfHead bytes).isSome) : (endOfHead (b :: bytes)).isSome := by
  unfold endOfHead
  split
  · rfl
  · simpa using h

theorem endOfHead_behind (bytes : Text) (h : (endOfHead head).isSome) :
    (endOfHead (bytes ++ head)).isSome := by
  induction bytes with
  | nil => exact h
  | cons b bytes ih => exact endOfHead_cons b ih

theorem endOfHead_more (h : (endOfHead head).isSome) (more : Text) :
    (endOfHead (head ++ more)).isSome := by
  obtain ⟨len, hlen⟩ := Option.isSome_iff_exists.mp h
  exact Option.isSome_iff_exists.mpr ⟨len, endOfHead_append hlen more⟩

end NetworkUtility.Scan
