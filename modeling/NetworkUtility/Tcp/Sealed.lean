import NetworkUtility.Tcp.ConnectRequest

/-! The CONNECT request as a header block: whether the strings of the caller stay inside it. `init`
looks at none of them. -/
namespace NetworkUtility.Tcp

open EtcpClient (Target Prepared init connectRequest connectRequest_ne_nil portText mem_portText
  portText_ne_nil request_of_init)
open Scan Occurrences

def crlf : Bytes := [13, 10]

/-- The end of a header block. -/
def blank : Bytes := [13, 10, 13, 10]

/-- `"CONNECT "`. -/
def connectMark : Bytes := connectWord ++ [32]

/-- `"user_data:"`. -/
def userDataMark : Bytes := userDataWord ++ [58]

/-- How many lines of a request start with a mark: the first one may, and each behind a CRLF. -/
def linesWith (mark request : Bytes) : Nat :=
  (if mark <+: request then 1 else 0) + occurrences (crlf ++ mark) request

/-- The request is one header block, with one request line and at most one line of user data, and the
gateway reads it to its end. -/
structure Sealed (request : Bytes) : Prop where
  blank_last : blank <:+ request
  blank_once : occurrences blank request = 1
  requestLine : linesWith connectMark request = 1
  userData : linesWith userDataMark request ≤ 1
  consumed : endOfHead (request.drop 7) = some (request.drop 7).length

/-- Neither the host nor the data ends the header block, and neither starts a second line of a kind.
Behind the host stands a colon, and behind the data a CRLF. -/
structure Harmless (host data : Bytes) : Prop where
  host_blank : ¬ blank <:+: host
  data_blank : ¬ blank <:+: data ++ crlf
  host_connect : ¬ crlf ++ connectMark <:+: host
  data_connect : ¬ crlf ++ connectMark <:+: data
  userData : occurrences (crlf ++ userDataMark) (host ++ [58]) +
    occurrences (crlf ++ userDataMark) data + (if data = [] then 0 else 1) ≤ 1

variable {α : Type} {makeAddress : Bytes → Option α} {t : Target} {prepared : Prepared α}
  {host data bs pattern : Bytes} {port : UInt16}

/-- What is found in the request is found in the host, with the colon behind it, or behind the
version. -/
theorem occurrences_connectRequest (hhead : pattern.head? = some 13)
    (hdigits : pattern.any isDigit = false) (host : Bytes) (port : UInt16) (data : Bytes) :
    occurrences pattern (connectRequest host port data) =
      occurrences pattern (host ++ [58]) + occurrences pattern (ending data) := by
  have hp : pattern ≠ [] := by
    rintro rfl
    cases hhead
  obtain ⟨d, ds, hport⟩ := List.exists_cons_of_ne_nil (portText_ne_nil port)
  have hd : ∀ b ∈ d :: ds, 48 ≤ b.toNat ∧ b.toNat ≤ 57 := by
    intro b hb
    rw [← hport] at hb
    exact mem_portText hb
  have hdout : d ∉ pattern := by
    intro hmem
    have hdigit : isDigit d = true := by
      simpa [isDigit, UInt8.le_iff_toNat_le] using hd d List.mem_cons_self
    rw [List.any_eq_true.mpr ⟨d, hmem, hdigit⟩] at hdigits
    cases hdigits
  have hrest : 13 ∉ ds ++ 32 :: version := by
    intro hmem
    rcases List.mem_append.mp hmem with hmem | hmem
    · exact absurd (hd 13 (List.mem_cons_of_mem _ hmem)) (by decide)
    · exact absurd hmem (by decide)
  have hparts : connectRequest host port data = (connectWord ++ [32]) ++
      ((host ++ [58]) ++ d :: ((ds ++ 32 :: version) ++ ending data)) := by
    rw [connectRequest_eq, hport]
    simp
  rw [hparts, occurrences_append_of_head hhead (by decide), occurrences_separated hp hdout,
    occurrences_append_of_head hhead hrest]

/-- Behind the version: nothing but the blank line, or the mark of the data, the data and the blank
line. -/
theorem occurrences_ending (hhead : pattern.head? = some 13) (hdata : data ≠ []) :
    occurrences pattern (ending data) =
      (if pattern <+: 13 :: 10 :: (userDataMark ++ (data ++ blank)) then 1 else 0) +
        occurrences pattern (data ++ blank) := by
  have hmark : (13 : UInt8) ∉ 10 :: userDataMark := by decide
  have hending : ending data = 13 :: ((10 :: userDataMark) ++ (data ++ blank)) := by
    simp [ending, hdata, userDataMark, blank]
  rw [hending, occurrences_cons, occurrences_append_of_head hhead hmark, List.cons_append]

theorem blank_ne_nil : blank ≠ [] := by decide

/-- Of a blank line at the end only the last LF ends an occurrence. -/
theorem occurrences_blank (data : Bytes) :
    occurrences blank (data ++ blank) = occurrences blank (data ++ crlf) + 1 := by
  have hcr : ¬ blank <:+ data ++ crlf ++ [13] := by
    intro hsuf
    have hlast := hsuf.getLast blank_ne_nil
    simp [blank] at hlast
  have hlf : blank <:+ data ++ crlf ++ [13] ++ [10] := ⟨data, by simp [crlf, blank]⟩
  have hparts : data ++ blank = data ++ crlf ++ [13] ++ [10] := by simp [crlf, blank]
  rw [hparts, occurrences_concat blank_ne_nil, occurrences_concat blank_ne_nil, if_neg hcr,
    if_pos hlf]

/-- A mark behind a CRLF has no second CR. -/
theorem occurrences_mark {mark : Bytes} (hmark : 13 ∉ mark) (data : Bytes) :
    occurrences (crlf ++ mark) (data ++ blank) =
      occurrences (crlf ++ mark) data + occurrences (crlf ++ mark) blank := by
  refine occurrences_append_cons ?_ data [10, 13, 10]
  simpa [crlf] using hmark

theorem request_blank_once : occurrences blank (connectRequest host port data) = 1 ↔
    ¬ blank <:+: host ∧ ¬ blank <:+: data ++ crlf := by
  have hhost : occurrences blank (host ++ [58]) = occurrences blank host := by
    simpa [occurrences] using occurrences_separated blank_ne_nil (by decide) host []
  rw [occurrences_connectRequest rfl (by decide), hhost, ← occurrences_eq_zero blank_ne_nil,
    ← occurrences_eq_zero blank_ne_nil]
  by_cases hdata : data = []
  · subst hdata
    have hend : occurrences blank (ending []) = 1 := by decide
    have hnone : occurrences blank ([] ++ crlf) = 0 := by decide
    rw [hend, hnone]
    simp
  · have hno : ¬ blank <+: 13 :: 10 :: (userDataMark ++ (data ++ blank)) := by
      simp [blank, userDataMark, userDataWord]
    rw [occurrences_ending rfl hdata, if_neg hno, occurrences_blank]
    omega

theorem linesWith_connectMark : linesWith connectMark (connectRequest host port data) = 1 ↔
    ¬ crlf ++ connectMark <:+: host ∧ ¬ crlf ++ connectMark <:+: data := by
  have hp : crlf ++ connectMark ≠ [] := by decide
  have hpre : connectMark <+: connectRequest host port data := by
    rw [connectRequest_eq]
    exact ⟨_, by simp [connectMark]; rfl⟩
  have hhost : occurrences (crlf ++ connectMark) (host ++ [58]) =
      occurrences (crlf ++ connectMark) host := by
    simpa [occurrences] using occurrences_separated hp (by decide) host []
  rw [linesWith, if_pos hpre, occurrences_connectRequest rfl (by decide), hhost,
    ← occurrences_eq_zero hp, ← occurrences_eq_zero hp]
  by_cases hdata : data = []
  · subst hdata
    have hend : occurrences (crlf ++ connectMark) (ending []) = 0 := by decide
    rw [hend]
    simp [occurrences]
  · have hno : ¬ crlf ++ connectMark <+: 13 :: 10 :: (userDataMark ++ (data ++ blank)) := by
      simp [crlf, connectMark, connectWord, userDataMark, userDataWord]
    have hblank : occurrences (crlf ++ connectMark) blank = 0 := by decide
    rw [occurrences_ending rfl hdata, if_neg hno, occurrences_mark (by decide), hblank]
    omega

theorem linesWith_userDataMark : linesWith userDataMark (connectRequest host port data) =
    occurrences (crlf ++ userDataMark) (host ++ [58]) +
      occurrences (crlf ++ userDataMark) data + if data = [] then 0 else 1 := by
  have hpre : ¬ userDataMark <+: connectRequest host port data := by
    rw [connectRequest_eq]
    simp [userDataMark, userDataWord, connectWord]
  rw [linesWith, if_neg hpre, occurrences_connectRequest rfl (by decide)]
  by_cases hdata : data = []
  · subst hdata
    have hend : occurrences (crlf ++ userDataMark) (ending []) = 0 := by decide
    rw [hend]
    simp [occurrences]
  · have hyes : crlf ++ userDataMark <+: 13 :: 10 :: (userDataMark ++ (data ++ blank)) :=
      ⟨data ++ blank, by simp [crlf]⟩
    have hblank : occurrences (crlf ++ userDataMark) blank = 0 := by decide
    rw [occurrences_ending rfl hdata, if_pos hyes, occurrences_mark (by decide), hblank,
      if_neg hdata]
    omega

/-- What the gateway has to read behind the first seven bytes. -/
theorem blank_suffix (host : Bytes) (port : UInt16) (data : Bytes) :
    blank <:+ (connectRequest host port data).drop 7 := by
  obtain ⟨front, hfront⟩ : ∃ front, ending data = front ++ blank := by
    by_cases hdata : data = []
    · exact ⟨[], if_pos hdata⟩
    · exact ⟨13 :: 10 :: (userDataWord ++ 58 :: data), by simp [ending, hdata, blank]⟩
  rw [drop_connectRequest, hfront]
  exact ⟨32 :: (host ++ 58 :: portText port) ++ 32 :: (version ++ front), by simp⟩

theorem occurrences_drop : occurrences blank ((connectRequest host port data).drop 7) =
    occurrences blank (connectRequest host port data) := by
  have hparts := List.take_append_drop 7 (connectRequest host port data)
  rw [take_connectRequest] at hparts
  calc occurrences blank ((connectRequest host port data).drop 7)
      = occurrences blank (connectWord ++ (connectRequest host port data).drop 7) :=
        (occurrences_append_of_head rfl (by decide) _).symm
    _ = occurrences blank (connectRequest host port data) := by rw [hparts]

/-- When a blank line is nowhere but at the end, the whole is one header block. -/
theorem endOfHead_of_once (hlast : blank <:+ bs) (honce : occurrences blank bs = 1) :
    endOfHead bs = some bs.length := by
  induction bs with
  | nil => exact absurd (List.suffix_nil.mp hlast) blank_ne_nil
  | cons b bs ih =>
    rw [occurrences_cons] at honce
    by_cases hpre : blank <+: b :: bs
    · rw [if_pos hpre] at honce
      have hno : ¬ blank <:+: bs := (occurrences_eq_zero blank_ne_nil).mp (by omega)
      have hwhole : blank = b :: bs := by
        rcases List.suffix_cons_iff.mp hlast with hwhole | hsuf
        · exact hwhole
        · exact absurd hsuf.isInfix hno
      rw [← hwhole]
      rfl
    · rw [if_neg hpre, Nat.zero_add] at honce
      have hsuf : blank <:+ bs := by
        rcases List.suffix_cons_iff.mp hlast with hwhole | hsuf
        · exact absurd (hwhole ▸ List.prefix_refl _) hpre
        · exact hsuf
      have hpre' : ¬ [13, 10, 13, 10].isPrefixOf (b :: bs) = true := by
        rwa [List.isPrefixOf_iff_prefix]
      rw [endOfHead, if_neg hpre', ih hsuf honce]
      rfl

/-- Without a CRLF in its strings the request has no lines but its own. -/
theorem occurrences_crlf_connectRequest : occurrences crlf (connectRequest host port data) =
    occurrences crlf host + occurrences crlf data + if data = [] then 2 else 3 := by
  have hhost : occurrences crlf (host ++ [58]) = occurrences crlf host := by
    simpa [occurrences] using occurrences_separated (by decide : crlf ≠ []) (by decide) host []
  rw [occurrences_connectRequest rfl (by decide), hhost]
  by_cases hdata : data = []
  · subst hdata
    have hend : occurrences crlf (ending []) = 2 := by decide
    rw [hend]
    simp [occurrences]
  · have hyes : crlf <+: 13 :: 10 :: (userDataMark ++ (data ++ blank)) := ⟨_, rfl⟩
    have hblank : occurrences crlf blank = 2 := by decide
    have hdataBlank : occurrences crlf (data ++ blank) =
        occurrences crlf data + occurrences crlf blank :=
      occurrences_append_cons (by decide) data [10, 13, 10]
    rw [occurrences_ending rfl hdata, if_pos hyes, hdataBlank, hblank, if_neg hdata]
    omega

/-- The request is sealed exactly when its strings are harmless. -/
theorem sealed_iff_harmless (h : init makeAddress t = some prepared) (hne : prepared.request ≠ []) :
    Sealed prepared.request ↔ Harmless t.targetHost t.connectData := by
  rw [(request_of_init h hne).1]
  constructor
  · intro hsealed
    obtain ⟨hhost, hdata⟩ := request_blank_once.mp hsealed.blank_once
    obtain ⟨hhost', hdata'⟩ := linesWith_connectMark.mp hsealed.requestLine
    exact ⟨hhost, hdata, hhost', hdata', linesWith_userDataMark ▸ hsealed.userData⟩
  · intro hharmless
    have hlast := blank_suffix t.targetHost t.targetPort t.connectData
    have honce : occurrences blank (connectRequest t.targetHost t.targetPort t.connectData) = 1 :=
      request_blank_once.mpr ⟨hharmless.host_blank, hharmless.data_blank⟩
    exact ⟨hlast.trans (List.drop_suffix 7 _), honce,
      linesWith_connectMark.mpr ⟨hharmless.host_connect, hharmless.data_connect⟩,
      linesWith_userDataMark ▸ hharmless.userData,
      endOfHead_of_once hlast (occurrences_drop.trans honce)⟩

/-- To `example` on port 80, behind a gateway of this host, with the data `a` CRLF CRLF `b`. -/
def breakingTarget : Target :=
  ⟨ascii "example", 80, ascii "127.0.0.1", 3128, [97, 13, 10, 13, 10, 98]⟩

/-- The header block ends in the middle of the data. -/
theorem data_breaks_out : ∃ prepared, init InetAddress.inetPton breakingTarget = some prepared ∧
    prepared.request ≠ [] ∧ ¬ Sealed prepared.request := by
  have hinit : init InetAddress.inetPton breakingTarget =
      some ⟨connectRequest (ascii "example") 80 [97, 13, 10, 13, 10, 98], 0x7f000001, 3128⟩ := by
    decide
  refine ⟨_, hinit, connectRequest_ne_nil _ _ _, ?_⟩
  intro hsealed
  have hblank : blank <:+: [97, 13, 10, 13, 10, 98] ++ crlf := by decide
  exact (request_blank_once.mp hsealed.blank_once).2 hblank

theorem sealed_iff_harmless_plain : ∃ prepared,
    init InetAddress.inetPton ⟨ascii "example", 80, ascii "127.0.0.1", 3128, [98]⟩ = some prepared ∧
      Sealed prepared.request := by
  have hinit : init InetAddress.inetPton ⟨ascii "example", 80, ascii "127.0.0.1", 3128, [98]⟩ =
      some ⟨connectRequest (ascii "example") 80 [98], 0x7f000001, 3128⟩ := by decide
  refine ⟨_, hinit, (sealed_iff_harmless hinit (connectRequest_ne_nil _ _ _)).mpr ?_⟩
  exact ⟨by decide, by decide, by decide, by decide, by decide⟩

end NetworkUtility.Tcp
