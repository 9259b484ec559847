import NetworkUtility.Etcp.Message

/-! The receive path of one end: `do_read` with its header and body handlers, which are the same in
`EtcpClientImpl` and `EtcpSession`. The bytes that arrive are arbitrary. -/
namespace NetworkUtility.Etcp

open Framing

inductive Part
  | head
  | body
  deriving DecidableEq, Repr

/-- An `async_read` whose handler has not run, and how much of its buffer is filled. -/
structure Read where
  part : Part
  done : Nat
  deriving DecidableEq, Repr

/-- `input`, `delivered` and `errors` are history: the bytes read off the socket and the calls of
`on_etcp_recv` and `on_etcp_error`. -/
structure Receiver where
  recvHead : Bytes
  recvData : Bytes
  reads : List Read
  input : Bytes
  delivered : List Bytes
  errors : List (String × String)
  deriving DecidableEq, Repr

namespace Receiver

def doRead (r : Receiver) : Receiver := { r with reads := r.reads ++ [⟨.head, 0⟩] }

/-- The member as the constructor leaves it, and the first `do_read`. -/
def initial : Receiver := doRead ⟨List.replicate 6 0, [], [], [], [], []⟩

/-- The size of the buffer that a read fills. -/
def need (r : Receiver) : Part → Nat
  | .head => r.recvHead.length
  | .body => r.recvData.length

def signError : String × String := ("recv", "protocol sign check failed")

/-- The handler of the header read. A bad sign ends the connection: nothing reads on. -/
def onHead (o : ByteOrder) (r : Receiver) : Receiver :=
  let r' := { r with recvHead := EtcpHeader.decode o r.recvHead }
  match checkHead o r.recvHead with
  | .badSign => { r' with errors := r.errors ++ [signError] }
  | .empty => r'.doRead
  | .body n => { r' with recvData := resize r.recvData n, reads := r.reads ++ [⟨.body, 0⟩] }

/-- The handler of the body read: it reads on before it hands the packet over. -/
def onBody (r : Receiver) : Receiver :=
  let r' := r.doRead
  { r' with recvData := [], delivered := r.delivered ++ [r.recvData] }

/-- A segment, or a part of one, arrives for a read. -/
def arrive (r : Receiver) (i : Nat) (data : Bytes) : Option Receiver :=
  match r.reads[i]? with
  | some ⟨part, done⟩ =>
    if data ≠ [] ∧ done + data.length ≤ r.need part then
      let r' := { r with
        reads := r.reads.set i ⟨part, done + data.length⟩
        input := r.input ++ data }
      match part with
      | .head => some { r' with recvHead := fill r.recvHead done data }
      | .body => some { r' with recvData := fill r.recvData done data }
    else none
  | none => none

/-- With transfer_all the handler runs when the buffer is full. -/
def runRead (o : ByteOrder) (r : Receiver) (i : Nat) : Option Receiver :=
  match r.reads[i]? with
  | some ⟨part, done⟩ =>
    if done = r.need part then
      let r' := { r with reads := r.reads.eraseIdx i }
      match part with
      | .head => some (r'.onHead o)
      | .body => some r'.onBody
    else none
  | none => none

/-- No read is full and waiting for its handler. -/
def Settled (r : Receiver) : Prop := ∀ q ∈ r.reads, q.done < r.need q.part

/-- What was read is whole frames, delivered unless empty, and the part of a frame that the one
outstanding read has; after a bad sign there is no such read. -/
inductive Reading (r : Receiver) : Prop
  | inHead (bs : Bytes) (ps : List Bytes) (n : Nat) :
      format.Whole bs ps → r.delivered = ps.filter (· ≠ []) → r.errors = [] →
      r.reads = [⟨.head, n⟩] → r.recvHead.length = 6 → n ≤ 6 →
      r.input = bs ++ r.recvHead.take n → Reading r
  | inBody (bs head : Bytes) (ps : List Bytes) (n : Nat) :
      format.Whole bs ps → r.delivered = ps.filter (· ≠ []) → r.errors = [] →
      r.reads = [⟨.body, n⟩] → r.recvHead.length = 6 → head.length = 6 →
      format.bodySize head = some r.recvData.length → r.recvData ≠ [] → n ≤ r.recvData.length →
      r.input = bs ++ (head ++ r.recvData.take n) → Reading r
  | refused (bs head : Bytes) (ps : List Bytes) :
      format.Whole bs ps → r.delivered = ps.filter (· ≠ []) → r.errors = [signError] →
      r.reads = [] → head.length = 6 → format.bodySize head = none →
      r.input = bs ++ head → Reading r

variable {o : ByteOrder} {r r' : Receiver} {data : Bytes} {i n : Nat}

theorem reading_initial : Reading initial :=
  .inHead [] [] 0 .nil rfl rfl rfl rfl (Nat.zero_le _) rfl

theorem reading_arrive (h : r.arrive i data = some r') (hr : Reading r) :
    Reading r' ∧ r'.input = r.input ++ data := by
  simp only [arrive] at h
  split at h
  · next part done hq =>
    split at h
    · next hd =>
      cases hr with
      | inHead bs ps n hw hdel herr hreads hl hn hin =>
        obtain ⟨rfl, rfl, rfl⟩ : i = 0 ∧ part = .head ∧ done = n := by
          rw [hreads] at hq
          cases i <;> simp_all
        have hneed : done + data.length ≤ r.recvHead.length := hd.2
        simp only [Option.some.injEq] at h
        subst r'
        refine ⟨.inHead bs ps (done + data.length) hw hdel herr ?_ ?_ ?_ ?_, rfl⟩
        · simp [hreads]
        · exact (length_fill hneed).trans hl
        · omega
        · simp only [hin, take_fill hneed, List.append_assoc]
      | inBody bs head ps n hw hdel herr hreads hl hhl hs hne hn hin =>
        obtain ⟨rfl, rfl, rfl⟩ : i = 0 ∧ part = .body ∧ done = n := by
          rw [hreads] at hq
          cases i <;> simp_all
        have hneed : done + data.length ≤ r.recvData.length := hd.2
        have hf := length_fill hneed
        simp only [Option.some.injEq] at h
        subst r'
        refine ⟨.inBody bs head ps (done + data.length) hw hdel herr ?_ hl hhl ?_ ?_ ?_ ?_, rfl⟩
        · simp [hreads]
        · simpa only [hf] using hs
        · intro he
          have hz : (fill r.recvData done data).length = 0 := congrArg List.length he
          exact hne (List.length_eq_zero_iff.mp (hf ▸ hz))
        · simpa only [hf] using hneed
        · simp only [hin, take_fill hneed, List.append_assoc]
      | refused bs head ps hw hdel herr hreads hl hs hin => simp [hreads] at hq
    · cases h
  · cases h

theorem reading_onHead {bs : Bytes} {ps : List Bytes} (hw : format.Whole bs ps)
    (hdel : r.delivered = ps.filter (· ≠ [])) (herr : r.errors = []) (hreads : r.reads = [])
    (hl : r.recvHead.length = 6) (hin : r.input = bs ++ r.recvHead) :
    Reading (r.onHead o) := by
  have hc := checkHead_eq o hl
  unfold onHead
  cases hs : format.bodySize r.recvHead with
  | none =>
    simp only [hs] at hc
    simp only [hc]
    exact .refused bs r.recvHead ps hw hdel (by simp [herr]) hreads hl hs hin
  | some n =>
    cases n with
    | zero =>
      simp only [hs] at hc
      simp only [hc]
      refine .inHead (bs ++ r.recvHead) (ps ++ [[]]) 0 ?_ ?_ herr ?_ ?_ (Nat.zero_le _) ?_
      · have hb : format.Whole (bs ++ (r.recvHead ++ [])) (ps ++ [[]]) := hw.snoc hl hs
        simpa using hb
      · simpa [doRead] using hdel
      · simp [doRead, hreads]
      · simpa [doRead] using hl
      · simpa [doRead] using hin
    | succ n =>
      simp only [hs] at hc
      simp only [hc]
      refine .inBody bs r.recvHead ps 0 hw hdel herr ?_ ?_ hl ?_ ?_ (Nat.zero_le _) ?_
      · simp [hreads]
      · simpa using hl
      · simpa using hs
      · exact fun he => by simpa using congrArg List.length he
      · simpa using hin

theorem reading_runRead (h : r.runRead o i = some r') (hr : Reading r) :
    Reading r' ∧ r'.input = r.input := by
  simp only [runRead] at h
  split at h
  · next part done hq =>
    split at h
    · next hd =>
      cases hr with
      | inHead bs ps n hw hdel herr hreads hl hn hin =>
        obtain ⟨rfl, rfl, rfl⟩ : i = 0 ∧ part = .head ∧ done = n := by
          rw [hreads] at hq
          cases i <;> simp_all
        simp only [Option.some.injEq] at h
        subst r'
        refine ⟨reading_onHead hw hdel herr (by simp [hreads]) hl ?_, ?_⟩
        · simpa [hd, need] using hin
        · simp only [onHead]
          split <;> rfl
      | inBody bs head ps n hw hdel herr hreads hl hhl hs hne hn hin =>
        obtain ⟨rfl, rfl, rfl⟩ : i = 0 ∧ part = .body ∧ done = n := by
          rw [hreads] at hq
          cases i <;> simp_all
        simp only [Option.some.injEq] at h
        subst r'
        refine ⟨.inHead (bs ++ (head ++ r.recvData)) (ps ++ [r.recvData]) 0 (hw.snoc hhl hs) ?_ herr
          ?_ hl (Nat.zero_le _) ?_, rfl⟩
        · simp [onBody, doRead, hdel, hne]
        · simp [onBody, doRead, hreads]
        · simpa [onBody, doRead, hd, need] using hin
      | refused bs head ps hw hdel herr hreads hl hs hin => simp [hreads] at hq
    · cases h
  · cases h

/-- When no handler waits, exactly the complete frames of the input have been delivered. -/
theorem Reading.delivered_eq (hr : Reading r) (hs : r.Settled) :
    r.delivered = (format.frames r.input).filter (· ≠ []) := by
  cases hr with
  | inHead bs ps n hw hdel herr hreads hl hn hin =>
    have hlt : n < 6 := by simpa [hl, need] using hs ⟨.head, n⟩ (by simp [hreads])
    have hshort : (r.recvHead.take n).length < format.headSize := by simp [format]; omega
    rw [hin, hw.frames_of_no_split (Format.split_of_short hshort), hdel]
  | inBody bs head ps n hw hdel herr hreads hl hhl hb hne hn hin =>
    have hlt : n < r.recvData.length := by simpa [need] using hs ⟨.body, n⟩ (by simp [hreads])
    rw [hin, hw.frames_of_no_split (Format.split_of_cut hhl hb (by simp; omega)), hdel]
  | refused bs head ps hw hdel herr hreads hl hs hin =>
    have hn : format.split (head ++ []) = none := Format.split_of_refused hl hs
    rw [List.append_nil] at hn
    rw [hin, hw.frames_of_no_split hn, hdel]

/-- At any moment a prefix of them has. -/
theorem Reading.delivered_prefix (hr : Reading r) :
    r.delivered <+: (format.frames r.input).filter (· ≠ []) := by
  cases hr with
  | inHead bs ps n hw hdel herr hreads hl hn hin =>
    rw [hin, hw.frames_append, List.filter_append, hdel]
    exact List.prefix_append _ _
  | inBody bs head ps n hw hdel herr hreads hl hhl hb hne hn hin =>
    rw [hin, hw.frames_append, List.filter_append, hdel]
    exact List.prefix_append _ _
  | refused bs head ps hw hdel herr hreads hl hs hin =>
    rw [hin, hw.frames_append, List.filter_append, hdel]
    exact List.prefix_append _ _

end Receiver

end NetworkUtility.Etcp
