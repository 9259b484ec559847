import NetworkUtility.Etcp.Receiver
import NetworkUtility.Lib.Machine

/-! `do_read` is a parser of sequences of frames, whatever arrives and in whatever pieces. -/
namespace NetworkUtility.Etcp

open Framing Machine

/-- The longest sequence of frames that a stream begins with, and what is behind it. -/
structure Parse (o : ByteOrder) (total : Bytes) (bodies : List Bytes) (rest : Bytes) : Prop where
  encoded : total = (bodies.map (frame o)).flatten ++ rest
  sized : ∀ body ∈ bodies, body.length < 2 ^ 32
  longest : ∀ others behind, total = (others.map (frame o)).flatten ++ behind →
    (∀ body ∈ others, body.length < 2 ^ 32) → others <+: bodies

/-- The first complete header has another sign. -/
def Refused (rest : Bytes) : Prop := 6 ≤ rest.length ∧ rest.take 2 ≠ [0x45, 0x54]

instance (rest : Bytes) : Decidable (Refused rest) := inferInstanceAs (Decidable (_ ∧ _))

namespace Receiver

inductive Action
  | arrive (i : Nat) (data : Bytes)
  | run (i : Nat)
  deriving DecidableEq, Repr

/-- The bytes that a step brings. -/
def Action.bytes : Action → Bytes
  | .arrive _ data => data
  | .run _ => []

def step (o : ByteOrder) (r : Receiver) : Action → Option Receiver
  | .arrive i data => r.arrive i data
  | .run i => r.runRead o i

/-- All handlers have run, and what has not been read is not read on. -/
def Complete (total : Bytes) (r : Receiver) : Prop :=
  r.Settled ∧ r.input <+: total ∧ (r.input = total ∨ r.reads = [])

/-- What the reader has made of a stream with these frames and this rest. -/
structure Parsed (bodies : List Bytes) (rest : Bytes) (r : Receiver) : Prop where
  delivered : r.delivered = bodies.filter (· ≠ [])
  errors : r.errors = if Refused rest then [signError] else []
  stops : r.reads = [] ↔ Refused rest

variable {o : ByteOrder} {r t : Receiver} {a : Action} {as : List Action} {total rest : Bytes}
  {bodies : List Bytes}

theorem exists_parse (o : ByteOrder) (total : Bytes) :
    ∃ rest, Parse o total (format.frames total) rest ∧ format.split rest = none := by
  obtain ⟨front, rest, heq, hw, hrest⟩ := Format.exists_rest (f := format) total
  obtain ⟨hfront, hsized⟩ := encoded_of_whole (o := o) hw
  refine ⟨rest, ⟨hfront ▸ heq, hsized, fun others behind hother hall => ?_⟩, hrest⟩
  have hframes := (whole_frames (o := o) hall).frames_append behind
  rw [← hother] at hframes
  rw [hframes]
  exact List.prefix_append _ _

/-- Behind whole frames, the rest of the parse is what begins with no frame. -/
theorem rest_eq {bs tail : Bytes} {ps : List Bytes} (hp : Parse o total (format.frames total) rest)
    (hw : format.Whole bs ps) (heq : total = bs ++ tail) (htail : format.split tail = none) :
    rest = tail := by
  have hframes : format.frames total = ps := by rw [heq, hw.frames_of_no_split htail]
  have hfront := (encoded_of_whole (o := o) hw).1
  have hencoded := hp.encoded
  rw [hframes, ← hfront, heq] at hencoded
  exact (List.append_cancel_left hencoded).symm

theorem refused_iff {head more : Bytes} (hl : head.length = 6) :
    Refused (head ++ more) ↔ format.bodySize head = none := by
  rw [bodySize_eq_none hl]
  have htake : (head ++ more).take 2 = head.take 2 := List.take_append_of_le_length (by omega)
  constructor
  · intro h
    exact htake ▸ h.2
  · intro h
    refine ⟨by rw [List.length_append]; omega, ?_⟩
    rwa [htake]

theorem Reading.parsed (hr : Reading r) (hc : Complete total r)
    (hp : Parse o total (format.frames total) rest) : Parsed (format.frames total) rest r := by
  obtain ⟨hs, hpre, hend⟩ := hc
  cases hr with
  | inHead bs ps n hw hdel herr hreads hl hn hin =>
    have htotal : r.input = total := hend.resolve_right (by simp [hreads])
    have hlt : n < 6 := by simpa [hl, need] using hs ⟨.head, n⟩ (by simp [hreads])
    have hshort : (r.recvHead.take n).length < format.headSize := by simp [format]; omega
    have hno := Format.split_of_short hshort
    have heq : total = bs ++ r.recvHead.take n := htotal.symm.trans hin
    have hrest := rest_eq hp hw heq hno
    have hnot : ¬ Refused rest := by
      rintro ⟨hlong, -⟩
      rw [hrest] at hlong
      have hsix : format.headSize = 6 := rfl
      omega
    refine ⟨?_, by rw [if_neg hnot]; exact herr, by simp [hreads, hnot]⟩
    rw [hdel, heq, hw.frames_of_no_split hno]
  | inBody bs head ps n hw hdel herr hreads hl hhl hb hne hn hin =>
    have htotal : r.input = total := hend.resolve_right (by simp [hreads])
    have hlt : n < r.recvData.length := by simpa [need] using hs ⟨.body, n⟩ (by simp [hreads])
    have hno : format.split (head ++ r.recvData.take n) = none :=
      Format.split_of_cut hhl hb (by simp; omega)
    have heq : total = bs ++ (head ++ r.recvData.take n) := htotal.symm.trans hin
    have hrest := rest_eq hp hw heq hno
    have hnot : ¬ Refused rest := by
      rw [hrest, refused_iff hhl, hb]
      rintro ⟨⟩
    refine ⟨?_, by rw [if_neg hnot]; exact herr, by simp [hreads, hnot]⟩
    rw [hdel, heq, hw.frames_of_no_split hno]
  | refused bs head ps hw hdel herr hreads hl hb hin =>
    obtain ⟨more, hmore⟩ := hpre
    have hno : format.split (head ++ more) = none := Format.split_of_refused hl hb
    have heq : total = bs ++ (head ++ more) := by rw [← hmore, hin, List.append_assoc]
    have hrest := rest_eq hp hw heq hno
    have hyes : Refused rest := by rw [hrest, refused_iff hl, hb]
    refine ⟨?_, by rw [if_pos hyes]; exact herr, by simp [hreads, hyes]⟩
    rw [hdel, heq, hw.frames_of_no_split hno]

theorem reading_step (hr : Reading r) (h : step o r a = some t) :
    Reading t ∧ t.input = r.input ++ a.bytes := by
  cases a with
  | arrive i data => exact reading_arrive h hr
  | run i =>
    obtain ⟨ht, hin⟩ := reading_runRead h hr
    exact ⟨ht, by simpa [Action.bytes] using hin⟩

theorem reading_run (h : Run (step o) Free r as t) (hr : Reading r) :
    Reading t ∧ t.input = r.input ++ (as.map Action.bytes).flatten := by
  induction h with
  | nil => exact ⟨hr, by simp⟩
  | cons _ hst _ ih =>
    obtain ⟨hu, hin⟩ := reading_step hr hst
    obtain ⟨ht, hin'⟩ := ih hu
    exact ⟨ht, by simp [hin', hin]⟩

/-! ### Every stream is read to its end -/

theorem pos_of_body {head : Bytes} {n : Nat} (h : checkHead o head = .body n) : 0 < n := by
  simp only [checkHead] at h
  split at h
  · cases h
  · split at h
    · cases h
    · next hne =>
      cases h
      omega

/-- The read that a header handler starts is not full. -/
theorem settled_onHead (hl : r.recvHead.length = 6) (hreads : r.reads = []) :
    (r.onHead o).Settled := by
  intro q hq
  cases hc : checkHead o r.recvHead with
  | badSign => simp [onHead, hc, hreads] at hq
  | empty =>
    simp only [onHead, hc, doRead, hreads, List.nil_append, List.mem_singleton] at hq
    subst hq
    simp [onHead, hc, doRead, need, hl]
  | body n =>
    have hpos := pos_of_body hc
    simp only [onHead, hc, hreads, List.nil_append, List.mem_singleton] at hq
    subst hq
    simpa [onHead, hc, need] using hpos

theorem not_settled {part : Part} {n : Nat} (hs : ¬ r.Settled) (hreads : r.reads = [⟨part, n⟩]) :
    r.need part ≤ n := by
  by_contra hlt
  refine hs fun q hq => ?_
  rw [hreads, List.mem_singleton] at hq
  subst hq
  exact Nat.lt_of_not_le hlt

/-- The handler of a full read runs, and the next read is not full. -/
theorem exists_settled (o : ByteOrder) (hr : Reading r) :
    ∃ as t, Run (step o) Free r as t ∧ Reading t ∧ t.Settled ∧ t.input = r.input := by
  by_cases hs : r.Settled
  · exact ⟨[], r, .nil r, hr, hs, rfl⟩
  have hrun : ∃ t, r.runRead o 0 = some t ∧ t.Settled := by
    cases hr with
    | inHead bs ps n hw hdel herr hreads hl hn hin =>
      have hfull : n = r.need .head := by
        have hle : r.need .head ≤ n := not_settled hs hreads
        have hneed : r.need .head = 6 := hl
        omega
      refine ⟨{ r with reads := [] }.onHead o, by simp [runRead, hreads, hfull], ?_⟩
      exact settled_onHead (r := { r with reads := [] }) hl rfl
    | inBody bs head ps n hw hdel herr hreads hl hhl hb hne hn hin =>
      have hfull : n = r.need .body := by
        have hle : r.need .body ≤ n := not_settled hs hreads
        have hneed : r.need .body = r.recvData.length := rfl
        omega
      refine ⟨{ r with reads := [] }.onBody, by simp [runRead, hreads, hfull], fun q hq => ?_⟩
      simp only [onBody, doRead, List.nil_append, List.mem_singleton] at hq
      subst hq
      simp [onBody, doRead, need, hl]
    | refused bs head ps hw hdel herr hreads hl hb hin =>
      exact absurd (fun q hq => by rw [hreads] at hq; cases hq) hs
  obtain ⟨t, ht, hst⟩ := hrun
  obtain ⟨hread, hin⟩ := reading_runRead ht hr
  exact ⟨[.run 0], t, .cons trivial ht (.nil t), hread, hst, hin⟩

/-- A read that is not full takes a byte. -/
theorem exists_arrive (hr : Reading r) (hs : r.Settled) (hreads : r.reads ≠ []) (b : UInt8) :
    ∃ t, r.arrive 0 [b] = some t := by
  obtain ⟨q, hq⟩ : ∃ q, r.reads = [q] := by
    cases hr with
    | inHead bs ps n hw hdel herr h => exact ⟨_, h⟩
    | inBody bs head ps n hw hdel herr h => exact ⟨_, h⟩
    | refused bs head ps hw hdel herr h => exact absurd h hreads
  have hlt := hs q (by simp [hq])
  obtain ⟨part, done⟩ := q
  have hfits : [b] ≠ [] ∧ done + [b].length ≤ r.need part := ⟨nofun, hlt⟩
  refine Option.isSome_iff_exists.mp ?_
  simp only [arrive, hq, List.getElem?_cons_zero, if_pos hfits]
  cases part <;> rfl

/-- However a stream has been cut so far, the rest of it can arrive and is read. -/
theorem exists_complete (o : ByteOrder) (hr : Reading r) (hpre : r.input <+: total) :
    ∃ as t, Run (step o) Free r as t ∧ Complete total t := by
  obtain ⟨as, u, hrun, hu, hsettled, hinput⟩ := exists_settled o hr
  obtain ⟨more, hmore⟩ := hpre
  induction more generalizing r as u with
  | nil =>
    rw [List.append_nil] at hmore
    have htotal : u.input = total := hinput.trans hmore
    exact ⟨as, u, hrun, hsettled, htotal ▸ List.prefix_rfl, .inl htotal⟩
  | cons b more ih =>
    have hpre : u.input <+: total := ⟨b :: more, hinput ▸ hmore⟩
    by_cases hreads : u.reads = []
    · exact ⟨as, u, hrun, hsettled, hpre, .inr hreads⟩
    obtain ⟨v, hv⟩ := exists_arrive hu hsettled hreads b
    obtain ⟨hv', hin⟩ := reading_arrive hv hu
    obtain ⟨bs, w, hw, hwr, hws, hwin⟩ := exists_settled o hv'
    have hnext : v.input ++ more = total := by rw [hin, hinput, ← hmore]; simp
    obtain ⟨cs, t, ht, hc⟩ := ih hv' bs w hw hwr hws hwin hnext
    exact ⟨as ++ .arrive 0 [b] :: cs, t, hrun.append (.cons trivial hv ht), hc⟩

/-- Whatever the bytes are and however they are cut: at any moment a part of what the parse says has
been delivered, and at the end all of it, with one error if the next header is refused and none else. -/
theorem parses_any_stream (o : ByteOrder) (total : Bytes) : ∃ bodies rest,
    Parse o total bodies rest ∧
    ∀ as r, Run (step o) Free initial as r → (as.map Action.bytes).flatten <+: total →
      r.delivered <+: bodies.filter (· ≠ []) ∧ (Complete total r → Parsed bodies rest r) ∧
      ∃ bs t, Run (step o) Free r bs t ∧ Complete total t := by
  obtain ⟨rest, hp, -⟩ := exists_parse o total
  refine ⟨format.frames total, rest, hp, fun as r h hcut => ?_⟩
  obtain ⟨hr, hinput⟩ := reading_run h reading_initial
  have hpre : r.input <+: total := hinput ▸ hcut
  obtain ⟨bs, t, hrun, hc⟩ := exists_complete o hr hpre
  refine ⟨?_, fun hc => hr.parsed hc hp, bs, t, hrun, hc⟩
  obtain ⟨more, rfl⟩ := hpre
  obtain ⟨front, back, hback, hw, -⟩ := Format.exists_rest (f := format) r.input
  have hframes : format.frames (r.input ++ more) =
      format.frames r.input ++ format.frames (back ++ more) := by
    rw [← hw.frames_append, ← List.append_assoc, ← hback]
  rw [hframes, List.filter_append]
  exact hr.delivered_prefix.trans (List.prefix_append _ _)

end Receiver

end NetworkUtility.Etcp
