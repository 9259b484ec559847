import NetworkUtility.EtcpClient.Reading

/-! Where the response of the gateway ends and the etcp stream begins. `async_read_until` may read
past the response: the surplus stays in `m_response`, and `do_read` reads the socket. -/
namespace NetworkUtility.EtcpClient

open Etcp Machine Framing Scan

variable {e : Env} {s t : State} {a : Action} {as : List Action} {k n len : Nat}
  {response head body bytes more : Bytes} {segs segs' : List Bytes} {base ps : List Bytes}

/-- Bytes arrive and handlers run, and nothing else happens. -/
def Receives (_ : State) : Action → Prop
  | .receive .. => True
  | .run => True
  | _ => False

instance : Decidable (Receives s a) := by
  cases a <;> unfold Receives <;> infer_instance

/-- The segments that the reads of the socket return. -/
def segments (as : List Action) : List Bytes :=
  as.filterMap fun
    | .receive _ bytes => some bytes
    | _ => none

/-- What a step gives to the reads of `do_read`. -/
def given (s : State) : Action → Bytes
  | .receive i bytes =>
    match s.pending[i]? with
    | some p => if p.op = .readHead ∨ p.op = .readBody then bytes else []
    | none => []
  | _ => []

/-- What the frame reader sees in a run. -/
def seen (e : Env) : State → List Action → Bytes
  | _, [] => []
  | s, a :: as =>
    given s a ++
      match step e s a with
      | some t => seen e t as
      | none => []

def delivered (log : List (Nat × Callback)) : List Bytes :=
  log.filterMap fun
    | (_, .recv packet) => some packet
    | _ => none

/-- The CONNECT request has been written on an open connection, which has not been called back. -/
structure Requested (s : State) : Prop where
  ready : ∃ n, s.ready = [.complete s.socket.conn .proxyWrite (.success n)]
  pending : s.pending = []
  isOpen : s.socket.isOpen = true
  headLength : s.recvHead.length = 6
  silent : (s.socket.conn, .connect) ∉ s.log

/-- With `response` read before, `async_read_until` completes with the last of these segments. -/
def StopsAfter (response : Bytes) (segs : List Bytes) : Prop :=
  (endOfHead (response ++ segs.flatten)).isSome ∧
    ∀ l, l <+: segs → l ≠ segs → endOfHead (response ++ l.flatten) = none

/-- The response ends where a segment ends, and it is then that `async_read_until` completes, with a
2xx status at the front of `m_response`. -/
def CutBehind (response head : Bytes) (segs : List Bytes) : Prop :=
  ∃ l, l <+: segs ∧ l.flatten = head ∧ StopsAfter response l ∧
    succeeded (httpStatus (response ++ head)) = true

/-- The frame reader was started and sees `body`, and its packets have been delivered. -/
def Sees (e : Env) (s : State) (as : List Action) (t : State) (body : Bytes) : Prop :=
  (s.socket.conn, .connect) ∈ t.log ∧ seen e s as = body ∧
    delivered t.log = delivered s.log ++ packets body

/-- The one read that is outstanding on connection `k`, after these bytes. -/
inductive Reader (s : State) (k : Nat) (input : Bytes) (ps : List Bytes) : Prop
  | waiting (op : Op) (n : Nat) : s.ready = [] → s.pending = [⟨op, [], n⟩] →
      Reads s input ps ⟨k, op, .waiting⟩ → Reader s k input ps
  | full (op : Op) (len : Nat) : s.ready = [.complete k op (.success len)] → s.pending = [] →
      (op = .readBody → len = s.recvData.length) → Reads s input ps ⟨k, op, .succeeded⟩ →
      Reader s k input ps
  | ended : s.ready = [] → s.pending = [] → ps = packets input → Reader s k input ps

/-- From the request on: the segments that have arrived, and what the frame reader has seen. -/
inductive Phase (response : Bytes) (k : Nat) (base : List Bytes) (s : State) :
    List Bytes → Bytes → Prop
  | asked (n : Nat) : s.ready = [.complete k .proxyWrite (.success n)] → s.pending = [] →
      s.response = response → (k, .connect) ∉ s.log → delivered s.log = base →
      Phase response k base s [] []
  | waiting (segs : List Bytes) (n : Nat) : s.ready = [] → s.pending = [⟨.proxyRead, [], n⟩] →
      s.response = response ++ segs.flatten →
      (∀ l, l <+: segs → endOfHead (response ++ l.flatten) = none) → (k, .connect) ∉ s.log →
      delivered s.log = base → Phase response k base s segs []
  | answered (segs : List Bytes) (len : Nat) :
      s.ready = [.complete k .proxyRead (.success len)] → s.pending = [] →
      s.response = response ++ segs.flatten → StopsAfter response segs → (k, .connect) ∉ s.log →
      delivered s.log = base → Phase response k base s segs []
  | refused (segs : List Bytes) : s.ready = [] → s.pending = [] → StopsAfter response segs →
      succeeded (httpStatus (response ++ segs.flatten)) = false → (k, .connect) ∉ s.log →
      Phase response k base s segs []
  | reading (segs more : List Bytes) (ps : List Bytes) : StopsAfter response segs →
      succeeded (httpStatus (response ++ segs.flatten)) = true → (k, .connect) ∈ s.log →
      delivered s.log = base ++ ps → Reader s k more.flatten ps →
      Phase response k base s (segs ++ more) more.flatten

structure Stage (response : Bytes) (k : Nat) (base : List Bytes) (s : State) (segs : List Bytes)
    (input : Bytes) : Prop where
  conn : s.socket.conn = k
  headLength : s.recvHead.length = 6
  isOpen : s.ready ≠ [] ∨ s.pending ≠ [] → s.socket.isOpen = true
  phase : Phase response k base s segs input

/-- The first connection of a client, with the request written. -/
def asking (request : Bytes) : State :=
  { initial request with
    closed := false
    socket := ⟨1, true, true, false, false⟩
    tickets := 2
    ready := [.complete 1 .proxyWrite (.success request.length)]
    born := Function.update (fun _ => 0) 1 1
    owner := 1
    sent := Function.update (fun _ => []) 1 request
    handed := Function.update (fun _ => []) 1 request }

/-! ### Logs -/

theorem delivered_snoc (log : List (Nat × Callback)) (conn : Nat) (c : Callback) :
    delivered (log ++ [(conn, c)]) =
      match c with
      | .recv packet => delivered log ++ [packet]
      | _ => delivered log := by
  cases c <;> simp [delivered]

/-! ### Where the read of the response stops -/

theorem StopsAfter.unique {xs : List Bytes} (h : StopsAfter response segs)
    (h' : StopsAfter response segs') (hs : segs <+: xs) (hs' : segs' <+: xs) : segs = segs' := by
  by_contra hne
  rcases List.prefix_or_prefix_of_prefix hs hs' with hle | hle
  · have hnone := h'.2 segs hle hne
    have hsome := h.1
    rw [hnone] at hsome
    cases hsome
  · have hnone := h.2 segs' hle fun he => hne he.symm
    have hsome := h'.1
    rw [hnone] at hsome
    cases hsome

theorem prefix_snoc {l xs : List Bytes} {x : Bytes} (h : l <+: xs ++ [x]) (hne : l ≠ xs ++ [x]) :
    l <+: xs := by
  rcases List.prefix_concat_iff.mp h with rfl | h
  · exact absurd rfl hne
  · exact h

/-! ### Steps -/

theorem receive_cases {i : Nat} (h : step e s (.receive i bytes) = some t) :
    ∃ p, s.pending[i]? = some p ∧ bytes ≠ [] ∧ s.receive i p bytes = some t := by
  simp only [step] at h
  split at h
  · next p hp =>
    split at h
    · next hb => exact ⟨p, hp, hb.2, h⟩
    · cases h
  · cases h

theorem receive_one {i : Nat} {p : Pending} (hp : s.pending = [p])
    (h : step e s (.receive i bytes) = some t) :
    i = 0 ∧ bytes ≠ [] ∧ s.receive 0 p bytes = some t := by
  obtain ⟨q, hq, hb, ht⟩ := receive_cases h
  rw [hp] at hq
  cases i with
  | zero =>
    obtain rfl : p = q := by simpa using hq
    exact ⟨rfl, hb, ht⟩
  | succ i => cases hq

theorem receive_none {i : Nat} (hp : s.pending = []) : step e s (.receive i bytes) ≠ some t := by
  intro h
  obtain ⟨q, hq, _⟩ := receive_cases h
  rw [hp] at hq
  cases hq

theorem run_one {h : Handler} (hr : s.ready = [h]) (hst : step e s .run = some t) :
    t = State.runHandler e { s with ready := [] } h := by
  simp only [step, hr, Option.some.injEq] at hst
  exact hst.symm

theorem run_none (hr : s.ready = []) : step e s .run ≠ some t := by
  simp [step, hr]

/-- A part of the response arrives. -/
theorem stage_response {i : Nat} (hs : Stage response k base s segs more)
    (hp : s.pending = [⟨.proxyRead, [], n⟩]) (h : step e s (.receive i bytes) = some t) :
    Stage response k base t (segs ++ [bytes]) more ∧ given s (.receive i bytes) = [] := by
  obtain ⟨rfl, _, ht⟩ := receive_one hp h
  have hgiven : given s (.receive 0 bytes) = [] := by simp [given, hp]
  have hopen := hs.isOpen (Or.inr (by simp [hp]))
  cases hs.phase with
  | asked n hr hpend => simp [hpend] at hp
  | answered _ len hr hpend => simp [hpend] at hp
  | refused _ hr hpend => simp [hpend] at hp
  | reading _ _ ps _ _ _ _ hreader =>
    cases hreader with
    | waiting op m hr hpend hread =>
      simp only [hpend, List.cons.injEq, Pending.mk.injEq] at hp
      obtain ⟨⟨rfl, _⟩, _⟩ := hp
      cases hread
    | full op len hr hpend => simp [hpend] at hp
    | ended hr hpend => simp [hpend] at hp
  | waiting _ m hr _ hresp hnone hsilent hbase =>
    have hall : s.response ++ bytes = response ++ (segs ++ [bytes]).flatten := by
      rw [hresp, List.flatten_append, List.append_assoc]
      simp
    have hbefore : ∀ l, l <+: segs ++ [bytes] → l ≠ segs ++ [bytes] →
        endOfHead (response ++ l.flatten) = none := fun l hl hne => hnone l (prefix_snoc hl hne)
    simp only [State.receive, Option.some.injEq] at ht
    subst ht
    refine ⟨?_, hgiven⟩
    cases hend : endOfHead (s.response ++ bytes) with
    | none =>
      refine ⟨hs.conn, hs.headLength, fun _ => hopen, ?_⟩
      refine .waiting _ (n + bytes.length) hr (by simp [State.progress, hp]) hall ?_ hsilent hbase
      intro l hl
      by_cases hne : l = segs ++ [bytes]
      · rw [hne, ← hall]
        exact hend
      · exact hbefore l hl hne
    | some len =>
      refine ⟨hs.conn, hs.headLength, fun _ => hopen, ?_⟩
      refine .answered _ len ?_ (by simp [State.progress, State.finish, hp]) hall ⟨?_, hbefore⟩
        hsilent hbase
      · simp [State.progress, State.finish, hr, hs.conn]
      · rw [← hall, hend]
        rfl

/-- Bytes arrive for the frame reader. -/
theorem reader_receive {op : Op} {input : Bytes} (hc : s.socket.conn = k)
    (hl : s.recvHead.length = 6) (hr : s.ready = []) (hp : s.pending = [⟨op, [], n⟩])
    (hread : Reads s input ps ⟨k, op, .waiting⟩) (h : s.receive 0 ⟨op, [], n⟩ bytes = some t) :
    Reader t k (input ++ bytes) ps ∧ t.socket = s.socket ∧ t.recvHead.length = 6 ∧ t.log = s.log := by
  subst hc
  have hop : op = .readHead ∨ op = .readBody := by
    cases hread with
    | head => exact Or.inl rfl
    | body => exact Or.inr rfl
  have hmem : (⟨op, [], n⟩ : Pending) ∈ s.pending := by simp [hp]
  rcases hop with rfl | rfl
  · simp only [State.receive] at h
    split at h
    · next hle =>
      simp only [Option.some.injEq] at h
      subst h
      have hfill : (fill s.recvHead n bytes).length = s.recvHead.length := length_fill hle
      by_cases hfull : n + bytes.length = s.recvHead.length
      · rw [if_pos hfull]
        refine ⟨.full .readHead (n + bytes.length) ?_ ?_ (by rintro ⟨⟩) ?_, rfl, hfill.trans hl, rfl⟩
        · simp [State.progress, State.finish, hr]
        · simp [State.progress, State.finish, hp]
        · exact hread.head_all hmem rfl hl rfl (hfull.trans hl)
      · have hlt : n + bytes.length < 6 := by omega
        rw [if_neg hfull]
        refine ⟨.waiting .readHead (n + bytes.length) hr ?_ ?_, rfl, hfill.trans hl, rfl⟩
        · simp [State.progress, hp]
        · refine hread.head_part hmem rfl hl rfl hlt ?_
          intro q hq _
          simp only [State.progress, hp, List.set_cons_zero, List.mem_singleton] at hq
          rw [hq]
    · cases h
  · simp only [State.receive] at h
    split at h
    · next hle =>
      simp only [Option.some.injEq] at h
      subst h
      have hfill : (fill s.recvData n bytes).length = s.recvData.length := length_fill hle
      by_cases hfull : n + bytes.length = s.recvData.length
      · rw [if_pos hfull]
        refine ⟨.full .readBody (n + bytes.length) ?_ ?_ ?_ ?_, rfl, hl, rfl⟩
        · simp [State.progress, State.finish, hr]
        · simp [State.progress, State.finish, hp]
        · exact fun _ => hfull.trans hfill.symm
        · exact hread.body_all hmem rfl rfl hfull
      · have hlt : n + bytes.length < s.recvData.length := by omega
        rw [if_neg hfull]
        refine ⟨.waiting .readBody (n + bytes.length) hr ?_ ?_, rfl, hl, rfl⟩
        · simp [State.progress, hp]
        · refine hread.body_part hmem rfl rfl hlt ?_
          intro q hq _
          simp only [State.progress, hp, List.set_cons_zero, List.mem_singleton] at hq
          rw [hq]
    · cases h

/-- `do_read` on the open socket. -/
theorem reader_doRead {input : Bytes} {qs : List Bytes} (hc : s.socket.conn = k)
    (ho : s.socket.isOpen = true) (hr : s.ready = []) (hp : s.pending = [])
    (hw : format.Whole input qs) (hq : qs.filter (· ≠ []) = ps) : Reader s.doRead k input ps := by
  subst hc
  have hpend : s.doRead.pending = [⟨.readHead, [], 0⟩] := by
    simp [State.doRead, State.start, ho, hp]
  refine .waiting .readHead 0 (by simp [State.doRead, State.start, ho, hr]) hpend ?_
  refine reads_start hw hq ?_
  intro q hq _
  rw [hpend] at hq
  rw [List.mem_singleton.mp hq]

/-- A handler that gives up the connection leaves nothing outstanding and no packet. -/
theorem give_up {conn : Nat} {action message : String}
    (ht : t = ((s.onError conn action message).realClose e).onClose) (hr : s.ready = [])
    (hp : s.pending = []) :
    t.ready = [] ∧ t.pending = [] ∧ t.socket.conn = s.socket.conn ∧ t.recvHead = s.recvHead ∧
      delivered t.log = delivered s.log ∧
      ∀ j, (j, .connect) ∈ t.log ↔ (j, .connect) ∈ s.log := by
  subst ht
  have hlog (log : List (Nat × Callback)) (closed : Bool) (owner : Nat) :
      delivered (if closed then log else log ++ [(owner, .close)]) = delivered log ∧
        ∀ j, (j, .connect) ∈ (if closed then log else log ++ [(owner, .close)]) ↔
          (j, .connect) ∈ log := by
    cases closed
    · exact ⟨by simp [delivered], by simp⟩
    · exact ⟨rfl, fun _ => Iff.rfl⟩
  refine ⟨?_, ?_, rfl, rfl, ?_, ?_⟩
  · cases hc : e.closing <;>
      simp [State.onClose, State.realClose, State.release, State.onError, hr, hp, hc, Closing.settle]
  · simp [State.onClose, State.realClose, State.release, State.onError, hp]
  · exact (hlog _ s.closed s.owner).1.trans (delivered_snoc ..)
  · intro j
    refine ((hlog _ s.closed s.owner).2 j).trans ?_
    simp [State.realClose, State.release, State.onError]

/-- The handler of the header read. -/
theorem reader_onReadHead {input : Bytes} (hc : s.socket.conn = k) (ho : s.socket.isOpen = true)
    (hl : s.recvHead.length = 6) (hr : s.ready = []) (hp : s.pending = [])
    (hread : Reads s input ps ⟨k, .readHead, .succeeded⟩)
    (ht : t = s.onReadHead e k (.success len)) :
    Reader t k input ps ∧ t.socket.conn = k ∧ t.recvHead.length = 6 ∧
      (t.ready ≠ [] ∨ t.pending ≠ [] → t.socket.isOpen = true) ∧ delivered t.log = delivered s.log ∧
      ((k, .connect) ∈ s.log → (k, .connect) ∈ t.log) := by
  subst hc
  have hhead : (EtcpHeader.decode e.order s.recvHead).length = 6 := by simpa using hl
  simp only [State.onReadHead] at ht
  split at ht
  · obtain ⟨hr', hp', hc', hh', hd', hm'⟩ := give_up ht hr hp
    refine ⟨.ended hr' hp' (hread.packets_eq (by rintro ⟨⟩)), hc', by rw [hh']; exact hhead, ?_, hd',
      (hm' _).mpr⟩
    rintro (hne | hne)
    · exact absurd hr' hne
    · exact absurd hp' hne
  · next hcheck =>
    subst ht
    obtain ⟨qs, hw, hq⟩ := hread.skip hcheck
    exact ⟨reader_doRead rfl ho hr hp hw hq, rfl, hhead, fun _ => ho, rfl, id⟩
  · next m hcheck =>
    subst ht
    refine ⟨.waiting .readBody 0 ?_ ?_ ?_, rfl, hhead, fun _ => ho, rfl, id⟩
    · simp [State.start, ho, hr]
    · simp [State.start, ho, hp]
    · refine hread.open hcheck (length_resize ..) ?_
      intro q hq _
      simp only [State.start, ho, hp, if_true, List.nil_append, List.mem_singleton] at hq
      rw [hq]

/-- The handler of the body read. -/
theorem reader_onReadBody {input : Bytes} (hc : s.socket.conn = k) (ho : s.socket.isOpen = true)
    (hr : s.ready = []) (hp : s.pending = []) (hlen : len = s.recvData.length)
    (hread : Reads s input ps ⟨k, .readBody, .succeeded⟩)
    (ht : t = s.onReadBody k (.success len)) :
    ∃ packet, Reader t k input (ps ++ [packet]) ∧
      delivered t.log = delivered s.log ++ [packet] ∧ t.socket = s.socket ∧
      t.recvHead = s.recvHead ∧ ((k, .connect) ∈ s.log → (k, .connect) ∈ t.log) := by
  subst hc
  obtain ⟨qs, hw, hq⟩ := hread.deliver
  simp only [State.onReadBody, ← hlen, ne_eq, not_true_eq_false, if_false] at ht
  subst ht
  refine ⟨s.recvData, ?_, delivered_snoc .., rfl, rfl, List.mem_append_left _⟩
  exact reader_doRead (s := { s with
    recvData := []
    log := s.log ++ [(s.socket.conn, .recv s.recvData)] }) rfl ho hr hp hw hq

/-- A reader waits for nothing but headers and bodies. -/
theorem Reader.op_of_ready {op : Op} {res : Result} {ps : List Bytes} (hs : Reader s k input ps)
    (hr : s.ready = [.complete k op res]) : op = .readHead ∨ op = .readBody := by
  cases hs with
  | waiting _ _ hr' => simp [hr'] at hr
  | ended hr' => simp [hr'] at hr
  | full _ _ hr' _ _ hread =>
    simp only [hr', List.cons.injEq, Handler.complete.injEq] at hr
    obtain ⟨⟨-, rfl, -⟩, -⟩ := hr
    cases hread with
    | headAll => exact .inl rfl
    | bodyAll => exact .inr rfl

/-- The request has been written. -/
theorem stage_requested (hs : Stage response k base s segs more)
    (hr : s.ready = [.complete k .proxyWrite (.success n)]) (h : step e s .run = some t) :
    Stage response k base t segs more := by
  have hopen := hs.isOpen (Or.inl (by simp [hr]))
  have ht := run_one hr h
  cases hs.phase with
  | waiting _ _ hr' => simp [hr'] at hr
  | answered _ _ hr' => simp [hr'] at hr
  | refused _ hr' => simp [hr'] at hr
  | reading _ _ _ _ _ _ _ hreader =>
    rcases hreader.op_of_ready hr with hop | hop
    · cases hop
    · cases hop
  | asked m _ hp hresp hsilent hbase =>
    have hnil : response ++ [].flatten = s.response := by simp [hresp]
    have hfirst : ∀ l : List Bytes, l <+: [] → l ≠ [] → endOfHead (response ++ l.flatten) = none :=
      fun l hl hne => absurd (List.prefix_nil.mp hl) hne
    simp only [State.runHandler, State.onComplete, State.onProxyWritten, State.readUntil] at ht
    split at ht
    · next len hlen =>
      subst ht
      refine ⟨hs.conn, hs.headLength, fun _ => hopen, ?_⟩
      refine .answered [] len (by simp [hs.conn]) hp hnil.symm ⟨?_, hfirst⟩ hsilent hbase
      rw [hnil, hlen]
      rfl
    · next hlen =>
      subst ht
      refine ⟨hs.conn, hs.headLength, fun _ => hopen, ?_⟩
      refine .waiting [] 0 ?_ ?_ hnil.symm ?_ hsilent hbase
      · simp [State.start, hopen]
      · simp [State.start, hopen, hp]
      · intro l hl
        rw [List.prefix_nil.mp hl, hnil]
        exact hlen

/-- The response is there. -/
theorem stage_answered (hs : Stage response k base s segs more)
    (hr : s.ready = [.complete k .proxyRead (.success len)]) (h : step e s .run = some t) :
    Stage response k base t segs more := by
  have hopen := hs.isOpen (Or.inl (by simp [hr]))
  have ht := run_one hr h
  cases hs.phase with
  | asked _ hr' => simp [hr'] at hr
  | waiting _ _ hr' => simp [hr'] at hr
  | refused _ hr' => simp [hr'] at hr
  | reading _ _ _ _ _ _ _ hreader =>
    rcases hreader.op_of_ready hr with hop | hop
    · cases hop
    · cases hop
  | answered _ m _ hp hresp hstops hsilent hbase =>
    simp only [State.runHandler, State.onComplete, State.onProxyRead] at ht
    split at ht
    · next hok =>
      subst ht
      refine ⟨hs.conn, hs.headLength, fun _ => hopen, ?_⟩
      have hreading : Phase response k base (State.onConnect (State.doRead { s with
          ready := []
          response := s.response.drop len
          socket := { s.socket with tunneled := true } }) k) (segs ++ []) [].flatten :=
        .reading segs [] [] hstops (hresp ▸ hok) (List.mem_append_right _ List.mem_cons_self)
          ?_ ?_
      · simpa using hreading
      · rw [List.append_nil, ← hbase]
        exact delivered_snoc ..
      · exact reader_doRead (s := { s with
          ready := []
          response := s.response.drop len
          socket := { s.socket with tunneled := true }
          log := s.log ++ [(k, .connect)] }) hs.conn hopen rfl hp .nil rfl
    · next hok =>
      obtain ⟨hr', hp', hc', hh', _, hm'⟩ := give_up ht rfl hp
      refine ⟨hc'.trans hs.conn, by rw [hh']; exact hs.headLength, ?_, ?_⟩
      · rintro (hne | hne)
        · exact absurd hr' hne
        · exact absurd hp' hne
      · refine .refused segs hr' hp' hstops ?_ fun hm => hsilent ((hm' k).mp hm)
        rw [← hresp]
        simpa using hok

/-- A handler of the frame reader runs. -/
theorem stage_reads {op : Op} (hs : Stage response k base s segs more)
    (hop : op = .readHead ∨ op = .readBody) (hr : s.ready = [.complete k op (.success len)])
    (h : step e s .run = some t) : Stage response k base t segs more := by
  have hopen := hs.isOpen (Or.inl (by simp [hr]))
  have ht := run_one hr h
  cases hs.phase with
  | asked _ hr' =>
    simp only [hr', List.cons.injEq, Handler.complete.injEq] at hr
    obtain ⟨⟨_, rfl, _⟩, _⟩ := hr
    simp at hop
  | waiting _ _ hr' => simp [hr'] at hr
  | answered _ _ hr' =>
    simp only [hr', List.cons.injEq, Handler.complete.injEq] at hr
    obtain ⟨⟨_, rfl, _⟩, _⟩ := hr
    simp at hop
  | refused _ hr' => simp [hr'] at hr
  | reading _ more' ps hstops hok hcalled hbase hreader =>
    cases hreader with
    | waiting _ _ hr' => simp [hr'] at hr
    | ended hr' => simp [hr'] at hr
    | full op' len' hr' hp hlen hread =>
      simp only [hr', List.cons.injEq, Handler.complete.injEq, Result.success.injEq] at hr
      obtain ⟨⟨_, rfl, rfl⟩, _⟩ := hr
      have hread : Reads { s with ready := [] } more'.flatten ps ⟨k, op', .succeeded⟩ :=
        hread.congr rfl rfl rfl fun _ hp _ => hp
      rcases hop with rfl | rfl
      · have ht : t = State.onReadHead e { s with ready := [] } k (.success len') := ht
        obtain ⟨hreader, hc, hl, ho, hd, hm⟩ :=
          reader_onReadHead (s := { s with ready := [] }) hs.conn hopen hs.headLength rfl hp hread ht
        exact ⟨hc, hl, ho, .reading _ more' ps hstops hok (hm hcalled) (hd.trans hbase) hreader⟩
      · obtain ⟨packet, hreader, hd, hsock, hh, hm⟩ :=
          reader_onReadBody (s := { s with ready := [] }) hs.conn hopen rfl hp (hlen rfl) hread ht
        refine ⟨by rw [hsock]; exact hs.conn, by rw [hh]; exact hs.headLength,
          fun _ => by rw [hsock]; exact hopen, ?_⟩
        refine .reading _ more' (ps ++ [packet]) hstops hok (hm hcalled) ?_ hreader
        rw [hd, ← List.append_assoc]
        exact congrArg (· ++ [packet]) hbase

theorem stage_receive {i : Nat} (hs : Stage response k base s segs more)
    (h : step e s (.receive i bytes) = some t) :
    Stage response k base t (segs ++ [bytes]) (more ++ given s (.receive i bytes)) := by
  cases hp : s.pending with
  | nil => exact absurd h (receive_none hp)
  | cons p rest =>
    have hopen := hs.isOpen (Or.inr (by simp [hp]))
    cases hs.phase with
    | asked _ _ hp' => simp [hp'] at hp
    | answered _ _ _ hp' => simp [hp'] at hp
    | refused _ _ hp' => simp [hp'] at hp
    | waiting _ n _ hp' =>
      obtain ⟨hstage, hgiven⟩ := stage_response hs hp' h
      rw [hgiven]
      exact hstage
    | reading segs more' ps hstops hok hcalled hbase hreader =>
      cases hreader with
      | full _ _ _ hp' => simp [hp'] at hp
      | ended _ hp' => simp [hp'] at hp
      | waiting op n hr hp' hread =>
        obtain ⟨rfl, _, ht⟩ := receive_one hp' h
        obtain ⟨hreader, hsock, hl, hlog⟩ := reader_receive hs.conn hs.headLength hr hp' hread ht
        have hgiven : given s (.receive 0 bytes) = bytes := by
          have hop : op = .readHead ∨ op = .readBody := by
            cases hread with
            | head => exact Or.inl rfl
            | body => exact Or.inr rfl
          simp [given, hp', hop]
        have hmore : more'.flatten ++ bytes = (more' ++ [bytes]).flatten := by simp
        rw [hgiven, hmore, List.append_assoc]
        refine ⟨by rw [hsock]; exact hs.conn, hl, fun _ => by rw [hsock]; exact hopen, ?_⟩
        refine .reading segs (more' ++ [bytes]) ps hstops hok (hlog ▸ hcalled) (hlog ▸ hbase) ?_
        rw [← hmore]
        exact hreader

theorem stage_step (hs : Stage response k base s segs more) (hg : Receives s a)
    (h : step e s a = some t) :
    Stage response k base t (segs ++ segments [a]) (more ++ given s a) := by
  cases a with
  | receive i bytes => exact stage_receive hs h
  | run =>
    have hsame : Stage response k base t segs more := by
      cases hs.phase with
      | asked n hr => exact stage_requested hs hr h
      | waiting _ _ hr => exact absurd h (run_none hr)
      | answered _ len hr => exact stage_answered hs hr h
      | refused _ hr => exact absurd h (run_none hr)
      | reading _ _ _ _ _ _ _ hreader =>
        cases hreader with
        | waiting _ _ hr => exact absurd h (run_none hr)
        | ended hr => exact absurd h (run_none hr)
        | full op len hr _ _ hread =>
          refine stage_reads hs ?_ hr h
          cases hread with
          | headAll => exact Or.inl rfl
          | bodyAll => exact Or.inr rfl
    simpa [segments, given] using hsame
  | _ => exact hg.elim

/-- The whole run: what has arrived, cut as it arrived, and what the frame reader has seen of it. -/
theorem stage_run (h : Run (step e) Receives s as t) (hs : Stage response k base s segs more) :
    Stage response k base t (segs ++ segments as) (more ++ seen e s as) := by
  induction h generalizing segs more with
  | nil => simpa [segments, seen] using hs
  | @cons s u t a as hg hst _ ih =>
    have hnext := ih (stage_step hs hg hst)
    have hsegs : segments ([a] ++ as) = segments [a] ++ segments as := List.filterMap_append
    rw [List.singleton_append] at hsegs
    have hseen : seen e s (a :: as) = given s a ++ seen e u as := by simp [seen, hst]
    rw [hsegs, hseen, ← List.append_assoc, ← List.append_assoc]
    exact hnext

theorem stage_of_requested (hs : Requested s) :
    Stage s.response s.socket.conn (delivered s.log) s [] [] := by
  obtain ⟨n, hr⟩ := hs.ready
  exact ⟨rfl, hs.headLength, fun _ => hs.isOpen, .asked n hr hs.pending rfl hs.silent rfl⟩

/-- The frame reader sees exactly what follows the response, and its packets are delivered, if and
only if the segments are cut behind the response. -/
theorem sees_body_iff (hs : Requested s) (h : Run (step e) Receives s as t) (hidle : t.ready = [])
    (hin : (segments as).flatten = head ++ body) (hhead : endOfHead head = some head.length) :
    Sees e s as t body ↔ CutBehind s.response head (segments as) := by
  have hstage := stage_run h (stage_of_requested hs)
  rw [List.nil_append, List.nil_append] at hstage
  have hsome : (endOfHead (s.response ++ head)).isSome := endOfHead_behind _ (by simp [hhead])
  generalize hxs : segments as = xs at hstage hin
  generalize hsee : seen e s as = input at hstage
  have hphase := hstage.phase
  cases hphase with
  | asked _ hr => simp [hr] at hidle
  | answered _ _ hr => simp [hr] at hidle
  | waiting _ n _ _ _ hnone _ _ =>
    exfalso
    have hall := endOfHead_more hsome body
    rw [List.append_assoc, ← hin, hnone _ List.prefix_rfl] at hall
    cases hall
  | refused _ _ _ hstops hbad hsilent =>
    constructor
    · exact fun hsees => absurd hsees.1 hsilent
    · rintro ⟨l, hl, rfl, hfirst, hok⟩
      obtain rfl := hfirst.unique hstops hl List.prefix_rfl
      rw [hbad] at hok
      cases hok
  | reading segs more ps hstops hok hcalled hbase hreader =>
    have hps : ps = packets more.flatten := by
      cases hreader with
      | waiting op n _ _ hread => exact hread.packets_eq fun _ => by simp
      | full op len hr => simp [hr] at hidle
      | ended _ _ hps => exact hps
    rw [List.flatten_append] at hin
    constructor
    · rintro ⟨_, hseen, _⟩
      rw [hsee] at hseen
      have hcut : segs.flatten = head := by
        rw [hseen] at hin
        exact List.append_cancel_right hin
      exact ⟨segs, List.prefix_append _ _, hcut, hstops, hcut ▸ hok⟩
    · rintro ⟨l, hl, hcut, hfirst, _⟩
      obtain rfl := hfirst.unique hstops hl (List.prefix_append _ _)
      rw [hcut] at hin
      have hbody : more.flatten = body := List.append_cancel_left hin
      exact ⟨hcalled, hsee.trans hbody, by rw [hbase, hps, hbody]⟩

/-- The client gets there. -/
theorem asking_run {request : Bytes} (hreq : request ≠ []) :
    Run (step e) Free (initial request)
      [.callConnect, .post 0, .run, .connected 0, .run, .transfer 0 request.length]
      (asking request) := by
  obtain ⟨b, bs, rfl⟩ := List.exists_cons_of_ne_nil hreq
  have hconnected : Run (step e) Free (initial (b :: bs))
      [.callConnect, .post 0, .run, .connected 0, .run] { asking (b :: bs) with
        ready := []
        pending := [⟨.proxyWrite, b :: bs, 0⟩]
        sent := fun _ => [] } :=
    .cons trivial rfl (.cons trivial rfl (.cons trivial rfl (.cons trivial rfl
      (.cons trivial rfl (.nil _)))))
  refine hconnected.append (.cons trivial ?_ (.nil _))
  simp [step, Op.writes, asking, initial, State.transfer, State.progress, State.finish]

theorem requested_asking (request : Bytes) : Requested (asking request) :=
  ⟨⟨request.length, rfl⟩, rfl, rfl, rfl, by simp [asking, initial]⟩

/-- The response and the first packet arrive in segments of their own. -/
theorem sees_body_iff_example :
    ∃ as t, Run (step ⟨.little, .keep, fun _ => ""⟩) Receives (asking [67]) as t ∧
      t.ready = [] ∧ Sees ⟨.little, .keep, fun _ => ""⟩ (asking [67]) as t [69, 84, 0, 0, 0, 1, 7] := by
  have h := run_exec (step ⟨.little, .keep, fun _ => ""⟩) Receives (asking [67])
    [.run, .receive 0 [72, 84, 84, 80, 47, 49, 32, 50, 48, 48, 13, 10, 13, 10], .run,
      .receive 0 [69, 84, 0, 0, 0, 1], .run, .receive 0 [7], .run] (by decide)
  have hstops : StopsAfter [] [[72, 84, 84, 80, 47, 49, 32, 50, 48, 48, 13, 10, 13, 10]] := by
    refine ⟨by decide, fun l hl hne => ?_⟩
    have hle : l <+: ([] : List Bytes) := prefix_snoc hl hne
    rw [List.prefix_nil.mp hle]
    rfl
  refine ⟨_, _, h, by decide, ?_⟩
  apply (sees_body_iff (requested_asking _) h (by decide) rfl (by decide)).mpr
  exact ⟨_, List.prefix_append [_] [_, _], rfl, hstops, by decide⟩

/-- The response and the first packet arrive in one segment: the packet is lost. -/
theorem packet_lost_behind_response :
    ¬ ∀ request as t head body,
      Run (step ⟨.little, .keep, fun _ => ""⟩) Receives (asking request) as t → t.ready = [] →
      (segments as).flatten = head ++ body → endOfHead head = some head.length →
      succeeded (httpStatus head) = true →
      Sees ⟨.little, .keep, fun _ => ""⟩ (asking request) as t body := by
  intro h
  have hrun := run_exec (step ⟨.little, .keep, fun _ => ""⟩) Receives (asking [67])
    [.run, .receive 0 ([72, 84, 84, 80, 47, 49, 32, 50, 48, 48, 13, 10, 13, 10] ++
      [69, 84, 0, 0, 0, 1, 7]), .run] (by decide)
  have hsees := h [67] _ _ [72, 84, 84, 80, 47, 49, 32, 50, 48, 48, 13, 10, 13, 10]
    [69, 84, 0, 0, 0, 1, 7] hrun (by decide) rfl (by decide) (by decide)
  have hseen := hsees.2.1
  revert hseen
  decide

end NetworkUtility.EtcpClient
