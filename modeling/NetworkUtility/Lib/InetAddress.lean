import Mathlib.Data.List.TakeWhile
import Mathlib.Tactic.Ring
import NetworkUtility.Lib.Scan

/-! The two readers of IPv4 addresses: the numbers and dots of `inet_aton`, and the strict dotted quad of
`inet_pton`. An address is a number below 2 ^ 32. -/
namespace NetworkUtility.InetAddress

open Scan

/-- What a C string is of a `std::string`. -/
def cString (text : Text) : Text := text.takeWhile (· != 0)

/-! ### Numbers and dots -/

def isOctDigit (c : UInt8) : Bool := 48 ≤ c && c ≤ 55

def digitValue (c : UInt8) : Nat := if isDigit c then c.toNat - 48 else (lower c).toNat - 87

def valueIn (base : Nat) (ds : Text) : Nat := ds.foldl (fun n c => base * n + digitValue c) 0

/-- `0x` and a digit: what is read in base 16. -/
def hexPart : Text → Option Text
  | zero :: x :: c :: cs =>
    if zero == 48 && lower x == 120 && isHexDigit c then some (c :: cs) else none
  | _ => none

/-- A number begins with a digit. It is hexadecimal, octal or decimal as `strtoul` takes it. -/
def scanPart (bs : Text) : Option (Nat × Text) :=
  match hexPart bs with
  | some cs => some (valueIn 16 (cs.takeWhile isHexDigit), cs.dropWhile isHexDigit)
  | none =>
    match bs with
    | [] => none
    | c :: cs =>
      if c == 48 then
        some (valueIn 8 ((c :: cs).takeWhile isOctDigit), (c :: cs).dropWhile isOctDigit)
      else if isDigit c then
        some (valueIn 10 ((c :: cs).takeWhile isDigit), (c :: cs).dropWhile isDigit)
      else none

/-- The end of the string, or white space and anything behind it. -/
def ends : Text → Bool
  | [] => true
  | c :: _ => isSpace c

/-- Numbers with at most so many dots; all but the last are bytes. -/
def parts : Nat → Text → Option (List Nat)
  | 0, bs => (scanPart bs).bind fun p => if ends p.2 then some [p.1] else none
  | dots + 1, bs => (scanPart bs).bind fun p =>
    if p.2.head? = some 46 then
      if p.1 ≤ 255 then (parts dots p.2.tail).map (p.1 :: ·) else none
    else if ends p.2 then some [p.1]
    else none

/-- The last number fills the `k` bytes that the others leave. -/
def combine : Nat → List Nat → Option Nat
  | _, [] => none
  | 0, _ :: _ => none
  | k + 1, [last] => if last < 256 ^ (k + 1) then some last else none
  | k + 1, part :: rest => (combine k rest).map (part * 256 ^ k + ·)

/-- `inet_aton`. -/
def inetAton (text : Text) : Option Nat := (parts 3 (cString text)).bind (combine 4)

/-! ### Dotted quads -/

/-- At most 255, without leading zeros. -/
def octet (bs : Text) : Option (Nat × Text) :=
  let ds := bs.takeWhile isDigit
  if ds ≠ [] ∧ (ds = [48] ∨ ds.head? ≠ some 48) ∧ decimal ds ≤ 255 then
    some (decimal ds, bs.dropWhile isDigit)
  else none

/-- Octets with exactly so many dots. -/
def octets : Nat → Text → Option (List Nat)
  | 0, bs => (octet bs).bind fun p => if p.2 = [] then some [p.1] else none
  | dots + 1, bs => (octet bs).bind fun p =>
    if p.2.head? = some 46 then (octets dots p.2.tail).map (p.1 :: ·) else none

/-- The number that has these octets. -/
def ofOctets (vs : List Nat) : Nat := vs.foldl (fun n v => 256 * n + v) 0

/-- `inet_pton`. -/
def inetPton (text : Text) : Option Nat := (octets 3 (cString text)).map ofOctets

/-! ### Every quad is read by both -/

variable {bs rest ds : Text} {n v k dots : Nat} {vs : List Nat}

theorem valueIn_ten (h : ∀ c ∈ ds, isDigit c = true) : valueIn 10 ds = decimal ds := by
  unfold valueIn decimal
  refine List.foldl_ext _ _ 0 fun n c hc => ?_
  simp [digitValue, h c hc]

/-- An octet stands before a dot or the end. -/
def Closed (rest : Text) : Prop := rest = [] ∨ rest.head? = some 46

theorem hexPart_of_ne {c : UInt8} (h : c ≠ 48) (cs : Text) : hexPart (c :: cs) = none := by
  unfold hexPart
  split
  · next zero x d ds heq =>
    obtain ⟨rfl, -⟩ := List.cons.inj heq
    simp [h]
  · rfl

theorem hexPart_of_closed (h : Closed rest) : hexPart (48 :: rest) = none := by
  rcases h with rfl | h
  · rfl
  · obtain ⟨more, rfl⟩ := List.head?_eq_some_iff.mp h
    cases more with
    | nil => rfl
    | cons c cs =>
      have hdot : (lower 46 == 120) = false := by decide
      simp [hexPart, hdot]

theorem takeWhile_of_closed (h : Closed rest) {p : UInt8 → Bool} (hp : p 46 = false) :
    rest.takeWhile p = [] ∧ rest.dropWhile p = rest := by
  rcases h with rfl | h
  · exact ⟨rfl, rfl⟩
  · obtain ⟨more, rfl⟩ := List.head?_eq_some_iff.mp h
    simp [hp]

theorem octet_spec (h : octet bs = some (v, rest)) :
    ∃ ds, bs = ds ++ rest ∧ bs.takeWhile isDigit = ds ∧ bs.dropWhile isDigit = rest ∧ ds ≠ [] ∧
      (ds = [48] ∨ ds.head? ≠ some 48) ∧ decimal ds = v ∧ v ≤ 255 := by
  simp only [octet, Option.ite_none_right_eq_some, Option.some.injEq, Prod.mk.injEq] at h
  obtain ⟨⟨hne, hzero, hle⟩, rfl, rfl⟩ := h
  exact ⟨_, List.takeWhile_append_dropWhile.symm, rfl, rfl, hne, hzero, rfl, hle⟩

/-- Without a leading zero a number is decimal, and zero alone is zero in base 8. -/
theorem scanPart_of_octet (h : octet bs = some (v, rest)) (hc : Closed rest) :
    scanPart bs = some (v, rest) ∧ v ≤ 255 := by
  obtain ⟨ds, hbs, htake, hdrop, hne, hzero, hv, hle⟩ := octet_spec h
  refine ⟨?_, hle⟩
  rcases hzero with rfl | hzero
  · obtain ⟨hnone, hrest⟩ := takeWhile_of_closed hc (p := isOctDigit) rfl
    have hbs : bs = 48 :: rest := hbs
    have hoct : (48 :: rest).takeWhile isOctDigit = [48] := by
      rw [List.takeWhile_cons, if_pos (by decide), hnone]
    have hrest : (48 :: rest).dropWhile isOctDigit = rest := by
      rw [List.dropWhile_cons, if_pos (by decide), hrest]
    rw [hbs, scanPart, hexPart_of_closed hc]
    simp only [beq_self_eq_true, if_true, hoct, hrest]
    rw [← hv]
    rfl
  · obtain ⟨c, cs, rfl⟩ := List.exists_cons_of_ne_nil hne
    have hc48 : c ≠ 48 := fun heq => hzero (congrArg some heq)
    have hbs : bs = c :: (cs ++ rest) := hbs
    have hdigits : ∀ d ∈ c :: cs, isDigit d = true := by
      intro d hd
      rw [← htake] at hd
      exact List.mem_takeWhile_imp hd
    rw [hbs] at htake hdrop
    rw [hbs, scanPart, hexPart_of_ne hc48]
    simp only [beq_iff_eq, hc48, if_false, hdigits c List.mem_cons_self, if_true, htake, hdrop,
      valueIn_ten hdigits, hv]

theorem parts_of_octets (h : octets dots bs = some vs) :
    parts dots bs = some vs ∧ (∀ v ∈ vs, v ≤ 255) ∧ vs.length = dots + 1 := by
  induction dots generalizing bs vs with
  | zero =>
    obtain ⟨p, hp, hend⟩ := Option.bind_eq_some_iff.mp h
    simp only [Option.ite_none_right_eq_some, Option.some.injEq] at hend
    obtain ⟨hnil, rfl⟩ := hend
    obtain ⟨hpart, hle⟩ := scanPart_of_octet hp (.inl hnil)
    refine ⟨?_, by simpa using hle, rfl⟩
    simp [parts, hpart, hnil, ends]
  | succ dots ih =>
    obtain ⟨p, hp, hmore⟩ := Option.bind_eq_some_iff.mp h
    simp only [Option.ite_none_right_eq_some] at hmore
    obtain ⟨hdot, hmore⟩ := hmore
    obtain ⟨ws, hws, rfl⟩ := Option.map_eq_some_iff.mp hmore
    obtain ⟨hpart, hle⟩ := scanPart_of_octet hp (.inr hdot)
    obtain ⟨hparts, hall, hlen⟩ := ih hws
    refine ⟨?_, List.forall_mem_cons.mpr ⟨hle, hall⟩, by rw [List.length_cons, hlen]⟩
    simp [parts, hpart, hdot, hle, hparts]

theorem foldl_octets (n : Nat) (vs : List Nat) :
    vs.foldl (fun n v => 256 * n + v) n = n * 256 ^ vs.length + ofOctets vs := by
  induction vs generalizing n with
  | nil => simp [ofOctets]
  | cons v vs ih =>
    have hrest : ofOctets (v :: vs) = v * 256 ^ vs.length + ofOctets vs := by
      simpa [ofOctets] using ih v
    rw [List.foldl_cons, ih, hrest, List.length_cons, pow_succ]
    ring

theorem combine_octets (h : ∀ v ∈ vs, v ≤ 255) (hl : vs.length = k + 1) :
    combine (k + 1) vs = some (ofOctets vs) ∧ ofOctets vs < 256 ^ (k + 1) := by
  induction vs generalizing k with
  | nil => cases hl
  | cons v vs ih =>
    obtain ⟨hv, hvs⟩ := List.forall_mem_cons.mp h
    have hcons : ofOctets (v :: vs) = v * 256 ^ vs.length + ofOctets vs := by
      simpa [ofOctets] using foldl_octets v vs
    rw [List.length_cons, Nat.add_right_cancel_iff] at hl
    cases vs with
    | nil =>
      obtain rfl := hl
      have hone : ofOctets [v] = v := by simp [ofOctets]
      have hlt : v < 256 ^ (0 + 1) := by omega
      rw [hone]
      exact ⟨if_pos hlt, hlt⟩
    | cons w ws =>
      obtain ⟨j, rfl⟩ : ∃ j, k = j + 1 := ⟨ws.length, hl.symm⟩
      obtain ⟨hcombine, hlt⟩ := ih hvs hl
      rw [hcons, hl]
      refine ⟨?_, ?_⟩
      · simp only [combine, hcombine, Option.map_some]
      · calc v * 256 ^ (j + 1) + ofOctets (w :: ws)
            < v * 256 ^ (j + 1) + 256 ^ (j + 1) := Nat.add_lt_add_left hlt _
          _ = (v + 1) * 256 ^ (j + 1) := by ring
          _ ≤ 256 * 256 ^ (j + 1) := Nat.mul_le_mul_right _ (by omega)
          _ = 256 ^ (j + 1 + 1) := by ring

/-- What the strict reader takes, the other one takes for the same address. -/
theorem inetAton_of_inetPton {text : Text} (h : inetPton text = some v) :
    inetAton text = some v ∧ v < 2 ^ 32 := by
  obtain ⟨vs, hvs, rfl⟩ := Option.map_eq_some_iff.mp h
  obtain ⟨hparts, hall, hlen⟩ := parts_of_octets hvs
  obtain ⟨hcombine, hlt⟩ := combine_octets hall hlen
  refine ⟨?_, hlt⟩
  rw [inetAton, hparts, Option.bind_some, hcombine]

end NetworkUtility.InetAddress
