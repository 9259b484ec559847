import Mathlib.Data.List.TakeWhile
import NetworkUtility.Lib.Machine
import NetworkUtility.Lib.ScanLine
import NetworkUtility.Tcp.Request

/-! The two pointer loops of `do_recv_body`. Nothing bounds them but what they find in the data. -/
namespace NetworkUtility.Tcp

open Machine Scan

/-- Where the loops are; the pointers are offsets in the data. `stopped` is behind both. -/
inductive Scanner
  | blanks (hostBeg : Nat)
  | target (hostBeg : Nat) (hostEnd : Option Nat) (portEnd : Nat)
  | stopped (hostBeg : Nat) (hostEnd : Option Nat) (portEnd : Nat)
  deriving DecidableEq, Repr

namespace Scanner

/-- The offset that is read next. -/
def pointer : Scanner → Option Nat
  | blanks hostBeg => some hostBeg
  | target _ _ portEnd => some portEnd
  | stopped .. => none

/-- The condition of a loop and its body. There is no step where the read is outside the data. -/
def step (data : Bytes) (s : Scanner) (_ : Unit) : Option Scanner :=
  match s with
  | blanks hostBeg => (data[hostBeg]?).map fun c =>
    if c = 32 then blanks (hostBeg + 1) else target hostBeg none hostBeg
  | target hostBeg hostEnd portEnd => (data[portEnd]?).map fun c =>
    if c = 32 ∨ c = 13 then stopped hostBeg hostEnd portEnd
    else target hostBeg (if c = 58 then some portEnd else hostEnd) (portEnd + 1)
  | stopped .. => none

end Scanner

/-- The string between two pointers. -/
def slice (data : Bytes) (first last : Nat) : Bytes := (data.take last).drop first

/-- Behind the leading blanks, what stands before the next blank or CR. -/
def token (data : Bytes) : Bytes :=
  (data.dropWhile (· = 32)).takeWhile fun c => c ≠ 32 ∧ c ≠ 13

/-- The token is taken apart at its last colon. -/
structure Parts (data : Bytes) (hostBeg hostEnd portEnd : Nat) : Prop where
  first : hostBeg ≤ hostEnd
  last : hostEnd < portEnd
  colon : token data = slice data hostBeg hostEnd ++ 58 :: slice data (hostEnd + 1) portEnd
  final : 58 ∉ slice data (hostEnd + 1) portEnd

/-- What the loops leave in the pointers and what the rest of the handler makes of them. -/
structure Scanned (resolve : Resolver) (data : Bytes) (hostBeg : Nat) (hostEnd : Option Nat)
    (portEnd : Nat) (answer : Answer) : Prop where
  ends : ∃ as, Run (Scanner.step data) Free (.blanks 0) as (.stopped hostBeg hostEnd portEnd)
  leading : hostBeg = (data.takeWhile (· = 32)).length
  inLine : portEnd ≤ (firstLine data).length
  maximal : slice data hostBeg portEnd = token data
  unset : hostEnd = none ↔ 58 ∉ token data
  parts : ∀ e ∈ hostEnd, Parts data hostBeg e portEnd
  answered : connectAnswer resolve data = some answer
  rejected : answer = ⟨badRequest, false, none⟩ ↔ 58 ∉ token data
  asked : ∀ e ∈ hostEnd,
    answer = resolvedAnswer (resolve (slice data hostBeg e) (slice data (e + 1) portEnd))

/-- What the second loop leaves in `host_end` behind these bytes. -/
def lastColon (index : Nat) (hostEnd : Option Nat) : Bytes → Option Nat
  | [] => hostEnd
  | c :: cs => lastColon (index + 1) (if c = 58 then some index else hostEnd) cs

variable {resolve : Resolver} {data tok host port rest : Bytes} {c : UInt8} {s t : Scanner}
  {as : List Unit} {index hostBeg portEnd n p : Nat} {hostEnd : Option Nat}

/-! ### No read behind the first CR -/

theorem getElem?_firstLine (h : (endOfHead data).isSome) :
    data[(firstLine data).length]? = some 13 := by
  obtain ⟨rest, hrest⟩ := firstLine_spec h
  calc data[(firstLine data).length]? =
        (firstLine data ++ 13 :: rest)[(firstLine data).length]? := by rw [← hrest]
    _ = some 13 := by simp

def Scanner.Within (data : Bytes) (s : Scanner) : Prop := ∀ p ∈ s.pointer, p ≤ (firstLine data).length

/-- A loop that does not stop has not read the CR. -/
theorem next_within (h : (endOfHead data).isSome) (hp : p ≤ (firstLine data).length)
    (hc : data[p]? = some c) (hne : c ≠ 13) : p + 1 ≤ (firstLine data).length := by
  rcases Nat.lt_or_eq_of_le hp with hlt | rfl
  · exact hlt
  · rw [getElem?_firstLine h] at hc
    exact absurd (Option.some.inj hc).symm hne

theorem within_step (h : (endOfHead data).isSome) (hs : s.Within data)
    (hst : s.step data () = some t) : t.Within data := by
  cases s with
  | blanks hostBeg =>
    have hle := hs hostBeg rfl
    obtain ⟨c, hc, rfl⟩ := Option.map_eq_some_iff.mp hst
    intro p hp
    split at hp
    · next hblank =>
      obtain rfl := Option.some.inj hp
      exact next_within h hle hc (by simp [hblank])
    · obtain rfl := Option.some.inj hp
      exact hle
  | target hostBeg hostEnd portEnd =>
    have hle := hs portEnd rfl
    obtain ⟨c, hc, rfl⟩ := Option.map_eq_some_iff.mp hst
    intro p hp
    split at hp
    · cases hp
    · next hgo =>
      obtain rfl := Option.some.inj hp
      exact next_within h hle hc fun hcr => hgo (.inr hcr)
  | stopped hostBeg hostEnd portEnd => cases hst

theorem within_of_run (h : (endOfHead data).isSome)
    (hrun : Run (Scanner.step data) Free (.blanks 0) as s) : s.Within data :=
  hrun.invariant (Scanner.Within data) (fun _ _ _ hs _ hst => within_step h hs hst)
    (fun _ hp => Option.some.inj hp ▸ Nat.zero_le _)

/-! ### The pointers -/

theorem lastColon_of_none (h : 58 ∉ tok) : lastColon index hostEnd tok = hostEnd := by
  induction tok generalizing index hostEnd with
  | nil => rfl
  | cons c cs ih =>
    rw [List.mem_cons, not_or] at h
    rw [lastColon, if_neg (Ne.symm h.1), ih h.2]

theorem lastColon_append (h : 58 ∉ port) :
    lastColon index hostEnd (host ++ 58 :: port) = some (index + host.length) := by
  induction host generalizing index hostEnd with
  | nil => rw [List.nil_append, lastColon, if_pos rfl, lastColon_of_none h]; rfl
  | cons c cs ih =>
    rw [List.cons_append, lastColon, ih, List.length_cons]
    congr 1
    omega

theorem exists_last_colon (h : 58 ∈ tok) : ∃ host port, tok = host ++ 58 :: port ∧ 58 ∉ port := by
  obtain ⟨front, back, heq, hnot⟩ := List.eq_append_cons_of_mem (List.mem_reverse.mpr h)
  refine ⟨back.reverse, front.reverse, ?_, by rwa [List.mem_reverse]⟩
  rw [← List.reverse_reverse tok, heq]
  simp

theorem read_of_drop (h : data.drop p = c :: rest) : data[p]? = some c := by
  rw [← List.head?_drop, h]
  rfl

theorem drop_next (h : data.drop p = c :: rest) : data.drop (p + 1) = rest := by
  rw [← List.tail_drop, h]
  rfl

/-- The second loop runs through the token and stops behind it. -/
theorem run_target (hostBeg : Nat) (hostEnd : Option Nat) (htok : ∀ b ∈ tok, b ≠ 32 ∧ b ≠ 13)
    (hc : c = 32 ∨ c = 13) (hdata : data.drop portEnd = tok ++ c :: rest) :
    ∃ as, Run (Scanner.step data) Free (.target hostBeg hostEnd portEnd) as
      (.stopped hostBeg (lastColon portEnd hostEnd tok) (portEnd + tok.length)) := by
  induction tok generalizing portEnd hostEnd with
  | nil =>
    have hread := read_of_drop hdata
    exact ⟨[()], .cons trivial (by simp [Scanner.step, hread, hc]; rfl) (.nil _)⟩
  | cons b tok ih =>
    obtain ⟨hb, htok⟩ := List.forall_mem_cons.mp htok
    have hread := read_of_drop hdata
    obtain ⟨as, has⟩ := ih _ htok (drop_next hdata)
    have hlen : portEnd + (b :: tok).length = portEnd + 1 + tok.length := by
      rw [List.length_cons]
      omega
    rw [lastColon, hlen]
    exact ⟨() :: as, .cons trivial (by simp [Scanner.step, hread, hb]) has⟩

/-- The first loop runs through the blanks. -/
theorem run_blanks (hostBeg : Nat) (hc : c ≠ 32)
    (hdata : data.drop hostBeg = List.replicate n 32 ++ c :: rest) :
    ∃ as, Run (Scanner.step data) Free (.blanks hostBeg) as
      (.target (hostBeg + n) none (hostBeg + n)) := by
  induction n generalizing hostBeg with
  | zero =>
    have hread := read_of_drop hdata
    exact ⟨[()], .cons trivial (by simp [Scanner.step, hread, hc]) (.nil _)⟩
  | succ n ih =>
    have hread := read_of_drop hdata
    obtain ⟨as, has⟩ := ih (hostBeg + 1) (drop_next hdata)
    have hlen : hostBeg + (n + 1) = hostBeg + 1 + n := by omega
    rw [hlen]
    exact ⟨() :: as, .cons trivial (by simp [Scanner.step, hread]) has⟩

/-- Leading blanks, the token, and a blank or CR behind it. -/
theorem exists_token (h : (endOfHead data).isSome) : ∃ n c rest,
    data = List.replicate n 32 ++ (token data ++ c :: rest) ∧ (c = 32 ∨ c = 13) ∧
      (token data ++ c :: rest).head? ≠ some 32 ∧ (∀ b ∈ token data, b ≠ 32 ∧ b ≠ 13) ∧
      n = (data.takeWhile (· = 32)).length ∧ data.dropWhile (· = 32) = token data ++ c :: rest := by
  have hblanks : data.takeWhile (· = 32) = List.replicate (data.takeWhile (· = 32)).length 32 :=
    List.eq_replicate_of_mem fun b hb => by simpa using List.mem_takeWhile_imp hb
  have htoken : ∀ b ∈ token data, b ≠ 32 ∧ b ≠ 13 := fun b hb => by
    simpa using List.mem_takeWhile_imp hb
  have hmem : 13 ∈ data := List.mem_of_getElem? (getElem?_firstLine h)
  have hdrop : 13 ∈ data.dropWhile (· = 32) := by
    rw [← List.takeWhile_append_dropWhile (p := fun b => decide (b = 32)) (l := data)] at hmem
    refine (List.mem_append.mp hmem).resolve_left fun hfront => ?_
    simpa using List.mem_takeWhile_imp hfront
  have hsplit := List.takeWhile_append_dropWhile (p := fun b => decide (b ≠ 32 ∧ b ≠ 13))
    (l := data.dropWhile (· = 32))
  cases hrest : (data.dropWhile (· = 32)).dropWhile (fun b => decide (b ≠ 32 ∧ b ≠ 13)) with
  | nil =>
    rw [hrest, List.append_nil] at hsplit
    rw [← hsplit] at hdrop
    exact absurd rfl (htoken 13 hdrop).2
  | cons c rest =>
    rw [hrest] at hsplit
    have hsplit : data.dropWhile (· = 32) = token data ++ c :: rest := hsplit.symm
    have hc : c = 32 ∨ c = 13 := by
      have hhead := List.head?_dropWhile_not (fun b => decide (b ≠ 32 ∧ b ≠ 13))
        (data.dropWhile (· = 32))
      simp only [hrest, List.head?_cons] at hhead
      by_contra hne
      simp [not_or.mp hne] at hhead
    refine ⟨_, c, rest, ?_, hc, ?_, htoken, rfl, hsplit⟩
    · rw [← hblanks, ← hsplit, List.takeWhile_append_dropWhile]
    · intro hhead
      rw [← hsplit] at hhead
      have hnot := List.head?_dropWhile_not (fun b => decide (b = 32)) data
      simp [hhead] at hnot

theorem scanTarget_token (index : Nat) (hostEnd : Option Nat) (rest : Bytes)
    (htok : ∀ b ∈ tok, b ≠ 32 ∧ b ≠ 13) (hc : c = 32 ∨ c = 13) :
    scanTarget index hostEnd (tok ++ c :: rest) =
      some (lastColon index hostEnd tok, index + tok.length) := by
  induction tok generalizing index hostEnd with
  | nil => simp [scanTarget, hc, lastColon]
  | cons b tok ih =>
    obtain ⟨hb, htok⟩ := List.forall_mem_cons.mp htok
    rw [List.cons_append, scanTarget, if_neg (by simp [hb]), ih _ _ htok, lastColon, List.length_cons]
    congr 2
    omega

theorem le_firstLine {front : Bytes} (back : Bytes) (h : 13 ∉ front) :
    front.length ≤ (firstLine (front ++ back)).length := by
  rw [firstLine, List.takeWhile_append_of_pos fun b hb => by
    simpa using fun hcr : b = 13 => h (hcr ▸ hb), List.length_append]
  exact Nat.le_add_right ..

theorem slice_append (front mid back : Bytes) :
    slice (front ++ (mid ++ back)) front.length (front.length + mid.length) = mid := by
  rw [slice, List.take_length_add_append, List.take_left', List.drop_left']
  · rfl
  · rfl

/-! ### The request -/

theorem badRequest_ne_resolved (found : Option (List Endpoint)) :
    resolvedAnswer found ≠ ⟨badRequest, false, none⟩ := by
  intro h
  unfold resolvedAnswer at h
  split at h
  · exact absurd (congrArg Answer.response h) (by decide)
  · split at h
    · exact absurd (congrArg Answer.response h) (by decide)
    · exact absurd (congrArg Answer.result h) Bool.noConfusion

/-- No read is behind the first CR, the loops end, and the pointers take the token apart. -/
theorem scans_request (resolve : Resolver) (data : Bytes) (h : (endOfHead data).isSome) :
    (∀ as s, Run (Scanner.step data) Free (.blanks 0) as s → s.Within data) ∧
    ∃ hostBeg hostEnd portEnd answer, Scanned resolve data hostBeg hostEnd portEnd answer := by
  refine ⟨fun as s => within_of_run h, ?_⟩
  obtain ⟨n, c, rest, hdata, hc, hfirst, htok, hn, hdrop⟩ := exists_token h
  generalize hgen : token data = tok at hdata hfirst htok hdrop
  have hbehind : data.drop n = tok ++ c :: rest := by
    rw [hdata]
    exact List.drop_left' List.length_replicate
  obtain ⟨d, ds, hcons⟩ := List.exists_cons_of_ne_nil (l := tok ++ c :: rest) (by simp)
  have hd : d ≠ 32 := by simpa [hcons] using hfirst
  obtain ⟨as, has⟩ := run_blanks 0 hd (hcons ▸ hdata)
  rw [Nat.zero_add] at has
  obtain ⟨bs, hbs⟩ := run_target n none htok hc hbehind
  have hends := has.append hbs
  have hscan := scanTarget_token 0 none rest htok hc
  rw [Nat.zero_add] at hscan
  have hmaximal : slice data n (n + tok.length) = tok := by
    have hslice := slice_append (List.replicate n 32) tok (c :: rest)
    rwa [← hdata, List.length_replicate] at hslice
  have hinLine : n + tok.length ≤ (firstLine data).length := by
    have hfront : 13 ∉ List.replicate n 32 ++ tok := by
      rw [List.mem_append, not_or]
      exact ⟨fun hcr => absurd (List.eq_of_mem_replicate hcr) (by decide),
        fun hcr => (htok 13 hcr).2 rfl⟩
    have hle := le_firstLine (c :: rest) hfront
    rwa [List.append_assoc, ← hdata, List.length_append, List.length_replicate] at hle
  by_cases hcolon : 58 ∈ tok
  · obtain ⟨host, port, rfl, hport⟩ := exists_last_colon hcolon
    rw [lastColon_append hport] at hends hscan
    have hhost : slice data n (n + host.length) = host := by
      have hslice := slice_append (List.replicate n 32) host (58 :: port ++ c :: rest)
      rw [← List.append_assoc host, ← hdata, List.length_replicate] at hslice
      exact hslice
    have hbehind : slice data (n + host.length + 1) (n + (host ++ 58 :: port).length) = port := by
      have hslice := slice_append (List.replicate n 32 ++ host ++ [58]) port (c :: rest)
      simpa [hdata, Nat.add_assoc, Nat.add_comm 1] using hslice
    have hanswer : connectAnswer resolve data = some (resolvedAnswer (resolve host port)) := by
      have htake : (host ++ 58 :: port ++ c :: rest).take (host ++ 58 :: port).length =
          host ++ 58 :: port := List.take_left' rfl
      have hfront : (host ++ 58 :: port ++ c :: rest).take (0 + host.length) = host := by simp
      have hback : (host ++ 58 :: port).drop (0 + host.length + 1) = port := by simp
      simp only [connectAnswer, hdrop, hscan, Option.map_some, htake, hfront, hback]
    refine ⟨n, some (n + host.length), _, _, ⟨_, hends⟩, hn, hinLine, hgen ▸ hmaximal,
      by simp [hgen], ?_, hanswer, ?_, ?_⟩
    · intro e he
      obtain rfl := Option.some.inj he
      refine ⟨Nat.le_add_right .., by simp, ?_, ?_⟩
      · rw [hgen, hhost, hbehind]
      · rwa [hbehind]
    · exact iff_of_false (badRequest_ne_resolved _) (by rw [hgen]; simp)
    · intro e he
      obtain rfl := Option.some.inj he
      rw [hhost, hbehind]
  · rw [lastColon_of_none hcolon] at hends hscan
    have hanswer : connectAnswer resolve data = some ⟨badRequest, false, none⟩ := by
      simp only [connectAnswer, hdrop, hscan]
      rfl
    refine ⟨n, none, n + tok.length, _, ⟨_, hends⟩, hn, hinLine, hgen ▸ hmaximal,
      by simp [hgen, hcolon], fun e he => ?_, hanswer, by simp [hgen, hcolon], fun e he => ?_⟩
    · cases he
    · cases he

/-- `"  a:b:1 x"` and the end of the block. -/
theorem scans_request_example : ∃ hostBeg hostEnd portEnd answer,
    Scanned (fun _ _ => none) [32, 32, 97, 58, 98, 58, 49, 32, 120, 13, 10, 13, 10]
      hostBeg hostEnd portEnd answer :=
  (scans_request (fun _ _ => none) _ (by decide)).2

end NetworkUtility.Tcp
