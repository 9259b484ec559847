import NetworkUtility.Lib.Scan

/-! A conversion that finds something to read in front of a carriage return does not read past it:
what stands behind the line makes no difference. -/
namespace NetworkUtility.Scan

variable {bs rest more : Text} {digit : UInt8 → Bool} {mark : UInt8}

/-- What stands in front of the first carriage return. -/
def firstLine (bs : Text) : Text := bs.takeWhile (· != 13)

theorem dropWhile_line (p : UInt8 → Bool) (hp : p 13 = false) (bs more : Text) :
    (bs ++ 13 :: more).dropWhile p = bs.dropWhile p ++ 13 :: more := by
  induction bs with
  | nil => simp [hp]
  | cons b bs ih =>
    by_cases hb : p b = true
    · simpa [hb] using ih
    · simp [hb]

theorem takeWhile_line (p : UInt8 → Bool) (hp : p 13 = false) (bs more : Text) :
    (bs ++ 13 :: more).takeWhile p = bs.takeWhile p := by
  induction bs with
  | nil => simp [hp]
  | cons b bs ih =>
    by_cases hb : p b = true
    · simpa [hb] using ih
    · simp [hb]

theorem skipSign_line (bs more : Text) : skipSign (bs ++ 13 :: more) = skipSign bs ++ 13 :: more := by
  cases bs with
  | nil => rfl
  | cons b bs =>
    simp only [skipSign, List.cons_append]
    split <;> rfl

theorem scanWord_line (w bs more : Text) (hw : 13 ∉ w) :
    scanWord w (bs ++ 13 :: more) = (scanWord w bs).map (· ++ 13 :: more) := by
  induction w generalizing bs with
  | nil => rfl
  | cons c w ih =>
    simp only [List.mem_cons, not_or] at hw
    cases bs with
    | nil =>
      have hc : (lower 13 == c) = false := by simpa [lower] using hw.1
      simp [scanWord, hc]
    | cons b bs =>
      simp only [scanWord, List.cons_append, ih bs hw.2]
      split <;> rfl

theorem scanLiteral_line (w bs more : Text) (hw : 13 ∉ w) :
    scanLiteral w (bs ++ 13 :: more) = (scanLiteral w bs).map (· ++ 13 :: more) := by
  induction w generalizing bs with
  | nil => rfl
  | cons c w ih =>
    simp only [List.mem_cons, not_or] at hw
    cases bs with
    | nil =>
      have hc : ((13 : UInt8) == c) = false := by simpa using hw.1
      simp [scanLiteral, hc]
    | cons b bs =>
      simp only [scanLiteral, List.cons_append, ih bs hw.2]
      split <;> rfl

theorem scanInfinity_line (bs more : Text) :
    scanInfinity (bs ++ 13 :: more) = (scanInfinity bs).map (· ++ 13 :: more) := by
  cases bs with
  | nil => rfl
  | cons b bs =>
    have hword := scanWord_line [105, 110, 105, 116, 121] (b :: bs) more (by decide)
    rw [List.cons_append] at hword
    simp only [scanInfinity, List.cons_append, hword]
    split <;> rfl

theorem mantissa_line (hd : digit 13 = false) (bs more : Text) :
    mantissa digit (bs ++ 13 :: more) =
      ((mantissa digit bs).1, (mantissa digit bs).2 ++ 13 :: more) := by
  have hdrop := dropWhile_line digit hd bs more
  simp only [mantissa, hdrop]
  cases hrest : bs.dropWhile digit with
  | nil =>
    have hlen : (bs ≠ []) ↔ 0 < bs.length := List.length_pos_iff.symm
    simp [hlen]
  | cons c cs =>
    have hlen : (c :: (cs ++ 13 :: more)).length < (bs ++ 13 :: more).length ↔
        (c :: cs).length < bs.length := by
      simp only [List.length_cons, List.length_append]
      omega
    simp only [List.cons_append, dropWhile_line digit hd cs more, hlen]
    split
    · simp
    · rfl

theorem exponent_line (hm : lower 13 ≠ mark) (bs more : Text) :
    exponent mark (bs ++ 13 :: more) = (exponent mark bs).map (· ++ 13 :: more) := by
  cases bs with
  | nil => simp [exponent, hm]
  | cons b bs =>
    simp only [exponent, List.cons_append, skipSign_line, dropWhile_line isDigit rfl]
    split
    · simp only [List.length_append, Nat.add_lt_add_iff_right]
      split <;> rfl
    · rfl

theorem scanNumber_line (hd : digit 13 = false) (hm : lower 13 ≠ mark) (bs more : Text) :
    scanNumber digit mark (bs ++ 13 :: more) = (scanNumber digit mark bs).map (· ++ 13 :: more) := by
  simp only [scanNumber, mantissa_line hd, exponent_line hm]
  split <;> rfl

theorem scanUnsigned_line (bs more : Text) :
    scanUnsigned (bs ++ 13 :: more) = (scanUnsigned bs).map (· ++ 13 :: more) := by
  have hdec (bs more : Text) : scanNumber isDigit 101 (bs ++ 13 :: more) =
      (scanNumber isDigit 101 bs).map (· ++ 13 :: more) := scanNumber_line rfl (by decide) bs more
  cases bs with
  | nil =>
    cases more with
    | nil => rfl
    | cons m more => exact hdec [] (m :: more)
  | cons c cs =>
    cases cs with
    | nil =>
      have hx : (lower 13 == 120) = false := by decide
      simpa [scanUnsigned, hx] using hdec [c] more
    | cons x cs =>
      simp only [scanUnsigned, List.cons_append]
      split
      · exact scanNumber_line rfl (by decide) cs more
      · exact hdec (c :: x :: cs) more

/-- `%f` stays on the line when the line is not blank. -/
theorem scanFloat_line (hbs : bs.dropWhile isSpace ≠ []) (more : Text) :
    scanFloat (bs ++ 13 :: more) = (scanFloat bs).map (· ++ 13 :: more) := by
  have hskip : (bs ++ 13 :: more).dropWhile isSpace = bs.dropWhile isSpace ++ 13 :: more := by
    rw [List.dropWhile_append]
    simp [hbs]
  simp only [scanFloat, hskip, skipSign_line]
  rw [scanWord_line [105, 110, 102] _ more (by decide), scanWord_line [110, 97, 110] _ more (by decide)]
  cases scanWord [105, 110, 102] (skipSign (bs.dropWhile isSpace)) with
  | some rest => exact scanInfinity_line rest more
  | none =>
    cases scanWord [110, 97, 110] (skipSign (bs.dropWhile isSpace)) with
    | some rest => rfl
    | none => exact scanUnsigned_line _ more

/-- `%d` stays on the line when the line is not blank. -/
theorem scanInt_line (hbs : bs.dropWhile isSpace ≠ []) (more : Text) :
    scanInt (bs ++ 13 :: more) = (scanInt bs).map fun r => (r.1, r.2 ++ 13 :: more) := by
  have hskip : (bs ++ 13 :: more).dropWhile isSpace = bs.dropWhile isSpace ++ 13 :: more := by
    rw [List.dropWhile_append]
    simp [hbs]
  have hhead : (bs.dropWhile isSpace ++ 13 :: more).head? = (bs.dropWhile isSpace).head? := by
    rw [List.head?_append_of_ne_nil _ hbs]
  simp only [scanInt, hskip, hhead, skipSign_line, takeWhile_line isDigit rfl,
    dropWhile_line isDigit rfl]
  split <;> rfl

/-- A header block has a first line. -/
theorem firstLine_spec (h : (endOfHead bs).isSome) : ∃ rest, bs = firstLine bs ++ 13 :: rest := by
  induction bs with
  | nil => cases h
  | cons b bs ih =>
    by_cases hb : b = 13
    · exact ⟨bs, by simp [firstLine, hb]⟩
    · have hnot : ¬ [13, 10, 13, 10].isPrefixOf (b :: bs) = true := by
        simp [List.isPrefixOf, Ne.symm hb]
      have hsome : (endOfHead bs).isSome := by
        simpa [endOfHead, hnot] using h
      obtain ⟨rest, hrest⟩ := ih hsome
      refine ⟨rest, ?_⟩
      have hline : firstLine (b :: bs) = b :: firstLine bs := by simp [firstLine, hb]
      rw [hline, List.cons_append, ← hrest]

theorem firstLine_more (h : (endOfHead bs).isSome) (more : Text) :
    firstLine (bs ++ more) = firstLine bs := by
  obtain ⟨rest, hrest⟩ := firstLine_spec h
  calc firstLine (bs ++ more) = firstLine (firstLine bs ++ 13 :: (rest ++ more)) := by
        rw [show firstLine bs ++ 13 :: (rest ++ more) = bs ++ more by
          conv_rhs => rw [hrest]
          simp]
    _ = firstLine (firstLine bs) := takeWhile_line _ rfl _ _
    _ = firstLine (firstLine bs ++ 13 :: rest) := (takeWhile_line _ rfl _ _).symm
    _ = firstLine bs := by rw [← hrest]

end NetworkUtility.Scan
