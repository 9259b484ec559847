import NetworkUtility.EtcpClient.Streams

/-! What a connection delivers: the frames of its own byte stream. -/
namespace NetworkUtility.EtcpClient

open Etcp Machine Framing Scan

variable {e : Env} {s t : State} {a : Action} {request : Bytes} {as : List Action} {x : Item}
  {h : Handler} {rest : List Handler} {k : Nat} {ps : List Bytes}

/-- No handler is outstanding but a write's. -/
structure Bare (e : Env) (s : State) : Prop where
  chained : Chained e mainOp s
  empty : s.chain mainOp = []
  headLength : s.recvHead.length = 6
  fresh : ∀ k, s.socket.conn < k → s.received k = []
  current : ∀ k ps, session s.log = some (k, ps) → k ≤ s.socket.conn ∧
    (s.request = [] ∨ (endOfHead (s.received k)).isSome) ∧
    (k ≠ s.socket.conn → ps = packets (s.stream k))

theorem Bare.like (hs : Bare e s) (hl : Like t s) (hh : t.recvHead.length = 6)
    (hlog : ∀ k ps, session t.log = some (k, ps) → session s.log = some (k, ps) ∨
      k = s.socket.conn ∧ (s.request = [] ∨ (endOfHead (s.received k)).isSome)) : Bare e t := by
  constructor
  · exact hs.chained.like hl
  · rw [State.chain_like hl]
    exact hs.empty
  · exact hh
  · rw [hl.conn, hl.received]
    exact hs.fresh
  · intro k ps hk
    rw [hl.conn, hl.request, hl.received, stream_congr hl.request (by rw [hl.received])]
    rcases hlog k ps hk with hk | ⟨rfl, ht⟩
    · exact hs.current k ps hk
    · exact ⟨Nat.le_refl _, ht, fun hne => absurd rfl hne⟩

theorem Bare.no_success (hs : Bare e s) {conn len : Nat} {op : Op} (hop : mainOp op = true) :
    .complete conn op (.success len) ∉ s.ready := by
  intro hm
  have hmem := success_mem hm hop
  rw [hs.empty] at hmem
  cases hmem

theorem Bare.streams (hs : Bare e s)
    (hall : ∀ ps, session s.log = some (s.socket.conn, ps) → ps = packets (s.stream s.socket.conn)) :
    Streams e s := by
  refine ⟨hs.chained, hs.headLength, hs.fresh, ?_, ?_, ?_, ?_, ?_, ?_⟩
  · simp [hs.empty]
  · simp [hs.empty]
  · simp [hs.empty]
  · intro op len hm
    exact ⟨fun h => absurd hm (hs.no_success (by rw [h]; rfl)),
      fun h => absurd hm (hs.no_success (by rw [h]; rfl))⟩
  · simp [hs.empty]
  · intro k ps hk
    obtain ⟨hle, ht, hold⟩ := hs.current k ps hk
    refine ⟨hle, ht, by simp [hs.empty], fun _ => ?_⟩
    by_cases hkc : k = s.socket.conn
    · subst hkc
      exact hall ps hk
    · exact hold hkc

/-- The handler that succeeded is the only one. -/
theorem Streams.bare {conn len : Nat} {op : Op} (hs : Streams e s)
    (hr : s.ready = .complete conn op (.success len) :: rest) (hop : mainOp op = true) :
    conn = s.socket.conn ∧ s.chain mainOp = [⟨s.socket.conn, op, .succeeded⟩] ∧
      Bare e { s with ready := rest } := by
  obtain ⟨hconn, hnil⟩ := hs.chained.chain_last hr hop
  have hpop := State.chain_pop mainOp hr
  simp only [Handler.item?, Option.toList_some, List.filter_cons, hop, if_true, List.filter_nil, hnil,
    List.append_nil, hconn] at hpop
  refine ⟨hconn, hpop, hs.chained.pop hr, hnil, hs.headLength, hs.fresh, ?_⟩
  intro k ps hk
  have hsess := hs.current k ps hk
  refine ⟨hsess.bounded, hsess.tunnel, fun hne => hsess.ended ?_⟩
  intro x hx hxk
  rw [hpop] at hx
  obtain rfl := List.mem_singleton.mp hx
  exact hne hxk.symm

/-- The next operation of the connection starts. -/
theorem Bare.start {op : Op} (hs : Bare e s) (hop : mainOp op = true) (data : Bytes)
    (hgate : op = .proxyWrite ∨ op = .proxyRead → s.request ≠ [])
    (hearly : op = .connect ∨ op = .proxyWrite → s.received s.socket.conn = [])
    (hproxy : op = .proxyRead → s.received s.socket.conn = s.response)
    (howner : op = .readHead ∨ op = .readBody →
      ∀ k ps, session s.log = some (k, ps) → k = s.socket.conn)
    (hreads : ∀ ps, session s.log = some (s.socket.conn, ps) →
      ps = packets (s.stream s.socket.conn) ∧
        (s.socket.isOpen = true →
          Reads (s.start op data) (s.stream s.socket.conn) ps ⟨s.socket.conn, op, .waiting⟩)) :
    Streams e (s.start op data) := by
  have hchain := State.chain_start hs.chained.idle hop data
  rw [hs.empty, List.nil_append] at hchain
  have hmem : ∀ x ∈ (s.start op data).chain mainOp,
      x = ⟨s.socket.conn, op, if s.socket.isOpen then .waiting else .failed⟩ := by
    intro x hx
    rw [hchain] at hx
    exact List.mem_singleton.mp hx
  have hno : ∀ op' len, mainOp op' = true →
      .complete s.socket.conn op' (.success len) ∉ (s.start op data).ready := by
    intro op' len hop' hm
    simp only [State.start] at hm
    split at hm
    · exact hs.no_success hop' hm
    · rcases List.mem_append.mp hm with hm | hm
      · exact hs.no_success hop' hm
      · simp at hm
  constructor
  · refine chained_single hchain ?_ ?_
    · intro _ hst
      split at hst <;> cases hst
    · intro ho
      have ho : s.socket.isOpen = false := ho
      simp [State.start, ho, hs.chained.idle ho]
  · exact hs.headLength
  · exact hs.fresh
  · intro x hx hxo
    rw [hmem x hx] at hxo
    exact hgate hxo
  · intro x hx _ hxo
    rw [hmem x hx] at hxo
    exact hearly hxo
  · intro x hx _ hxo _
    rw [hmem x hx] at hxo
    exact hproxy hxo
  · intro op' len hm
    exact ⟨fun h => absurd hm (hno op' len (by rw [h]; rfl)),
      fun h => absurd hm (hno op' len (by rw [h]; rfl))⟩
  · intro x hx hxo k ps hk
    rw [hmem x hx] at hxo ⊢
    exact howner hxo k ps hk
  · intro k ps hk
    obtain ⟨hle, ht, hold⟩ := hs.current k ps hk
    refine ⟨hle, ht, ?_, ?_⟩
    · intro x hx hxk
      rw [hmem x hx] at hxk ⊢
      subst hxk
      obtain ⟨hp, hread⟩ := hreads ps hk
      by_cases ho : s.socket.isOpen = true
      · rw [if_pos ho]
        exact hread ho
      · rw [if_neg ho]
        exact .ended _ _ hp
    · intro hnone
      apply hold
      rintro rfl
      exact hnone _ (hchain ▸ List.mem_singleton.mpr rfl) rfl

theorem Bare.start_done (hs : Bare e s) (op : Op) (data : Bytes) :
    ∀ q ∈ (s.start op data).pending, mainOp q.op = true → q.done = 0 := by
  intro q hq hm
  have hold : q ∉ s.pending := by
    intro hq
    have hmem : (⟨s.socket.conn, q.op, .waiting⟩ : Item) ∈ s.chain mainOp :=
      List.mem_filter.mpr ⟨List.mem_append_right _ (List.mem_map_of_mem hq), hm⟩
    rw [hs.empty] at hmem
    cases hmem
  simp only [State.start] at hq
  split at hq
  · rcases List.mem_append.mp hq with hq | hq
    · exact absurd hq hold
    · rw [List.mem_singleton.mp hq]
  · exact absurd hq hold

/-- `do_read` with the stream delivered up to here. -/
theorem Bare.doRead (hs : Bare e s) (howner : ∀ k ps, session s.log = some (k, ps) →
      k = s.socket.conn)
    (hreads : ∀ ps, session s.log = some (s.socket.conn, ps) →
      ∃ qs, format.Whole (s.stream s.socket.conn) qs ∧ qs.filter (· ≠ []) = ps) :
    Streams e s.doRead := by
  refine hs.start rfl [] nofun nofun nofun (fun _ => howner) ?_
  intro ps hk
  obtain ⟨qs, hw, hq⟩ := hreads ps hk
  refine ⟨by rw [packets_of_whole hw, hq], fun _ => ?_⟩
  exact reads_start hw hq fun p hp hop => hs.start_done _ _ p hp (by rw [hop]; rfl)

section Runs

variable {conn len : Nat} {res : Result} {ticket : Nat} {pack : Bytes}

theorem Streams.startWrite (hs : Streams e s) (data : Bytes) :
    Streams e (s.startWrite .write data) := by
  refine hs.same (State.chain_start_unselected rfl data) ?_ rfl ?_ (Or.inr rfl)
  · refine ⟨rfl, rfl, rfl, rfl, rfl, rfl, ?_, ?_⟩
    · intro q hq hqo
      simp only [State.startWrite, State.start] at hq
      split at hq
      · rcases List.mem_append.mp hq with hq | hq
        · exact hq
        · rw [List.mem_singleton.mp hq] at hqo
          rcases hqo with hqo | hqo <;> cases hqo
      · exact hq
    · intro op len _ hm
      simp only [State.startWrite, State.start] at hm
      split at hm
      · exact hm
      · rcases List.mem_append.mp hm with hm | hm
        · exact hm
        · simp at hm
  · intro ho
    have ho : s.socket.isOpen = false := ho
    simp [State.startWrite, State.start, ho, hs.chained.idle ho]

theorem Streams.list (hs : Streams e s) (list : List Bytes) :
    Streams e { s with sendDataList := list } := by
  refine hs.same rfl ?_ rfl hs.chained.idle (Or.inr rfl)
  exact ⟨rfl, rfl, rfl, rfl, rfl, rfl, fun _ hp _ => hp, fun _ _ _ hm => hm⟩

theorem Streams.doWrite (hs : Streams e s) : Streams e s.doWrite := by
  unfold State.doWrite
  split
  · exact hs
  · exact hs.startWrite _

theorem Streams.runSend (hs : Streams e s) (pack : Bytes) : Streams e (s.runSend e pack) := by
  simp only [State.runSend]
  split
  · split
    · exact (hs.list _).doWrite
    · exact hs.list _
  · exact hs

theorem Streams.runClose (hk : e.closing = .keep) (hs : Streams e s) : Streams e (s.runClose e) := by
  simp only [State.runClose]
  split
  · exact (hs.release hk).onClose
  · exact hs

theorem Streams.onWritten (hs : Streams e s) (res : Result) : Streams e (s.onWritten res) := by
  cases res with
  | failure err => exact hs.list []
  | success len =>
    simp only [State.onWritten]
    split
    · exact (hs.list _).doWrite
    · exact hs.list _

theorem streams_realConnect (hk : e.closing = .keep) (hs : Streams e s) (ticket : Nat)
    (hclean : ∀ x ∈ s.chain mainOp, x.status ≠ .succeeded) :
    Streams e (s.realConnect e ticket) := by
  have hrel := hs.release hk
  have hfail := hs.chained.all_failed fun _ => hclean
  have hempty : s.received (s.socket.conn + 1) = [] := hs.fresh _ (Nat.lt_succ_self _)
  have hmem : ∀ x ∈ (s.realConnect e ticket).chain mainOp,
      x ∈ (s.release e.closing).chain mainOp ∧ x.conn ≤ s.socket.conn ∨
        x = ⟨s.socket.conn + 1, .connect, .waiting⟩ := by
    intro x hx
    rw [chain_realConnect hs.chained] at hx
    rcases List.mem_append.mp hx with hx | hx
    · exact Or.inl ⟨hx, hrel.chained.bounded x hx⟩
    · exact Or.inr (by simpa [mainOp] using hx)
  have hnew : ∀ op len, mainOp op = true →
      .complete (s.socket.conn + 1) op (.success len) ∉ (s.realConnect e ticket).ready := by
    intro op len hop hm
    have hm : .complete (s.socket.conn + 1) op (.success len) ∈ (s.release e.closing).ready := hm
    have hle := hs.chained.bounded _ (success_mem (success_of_release hk hm) hop)
    exact Nat.not_succ_le_self _ hle
  constructor
  · exact chained_realConnect hs.chained ticket fun _ => hclean
  · exact hs.headLength
  · exact fun k hlt => hs.fresh k (Nat.lt_of_succ_lt hlt)
  · intro x hx hop
    rcases hmem x hx with ⟨hx, _⟩ | rfl
    · exact hrel.gateway x hx hop
    · simp at hop
  · exact fun _ _ _ _ => hempty
  · intro x hx hconn hop _
    have hconn : x.conn = s.socket.conn + 1 := hconn
    rcases hmem x hx with ⟨_, hle⟩ | rfl
    · omega
    · cases hop
  · intro op len hm
    exact ⟨fun h => absurd hm (hnew op len (by rw [h]; rfl)),
      fun h => absurd hm (hnew op len (by rw [h]; rfl))⟩
  · intro x hx hop
    rcases hmem x hx with ⟨hx, _⟩ | rfl
    · exact hrel.owner x hx hop
    · simp at hop
  · intro k ps hsome
    have hsess := hrel.current k ps hsome
    have hlt : k ≤ s.socket.conn := hsess.bounded
    refine ⟨Nat.le_succ_of_le hlt, hsess.tunnel, ?_, ?_⟩
    · intro x hx hxk
      rcases hmem x hx with ⟨hx, _⟩ | rfl
      · have hst := hfail x hx
        have hp := (hsess.reads x hx hxk).packets_eq fun _ => by simp [hst]
        obtain ⟨conn, op, st⟩ := x
        obtain rfl : st = .failed := hst
        exact .ended _ _ hp
      · have hxk : s.socket.conn + 1 = k := hxk
        omega
    · intro hnone
      apply hsess.ended
      intro x hx
      apply hnone x
      rw [chain_realConnect hs.chained]
      exact List.mem_append_left _ hx

theorem streams_onConnected (hs : Streams e s) (hr : s.ready = .complete conn .connect res :: rest) :
    Streams e (State.onConnected e { s with ready := rest } conn res) := by
  cases res with
  | failure err =>
    have hpop : Streams e { s with ready := rest, closed := false, owner := conn } := by
      refine (hs.pop hr (by simp [Handler.item?])).same rfl ?_ rfl hs.chained.idle (Or.inr rfl)
      exact ⟨rfl, rfl, rfl, rfl, rfl, rfl, fun _ hp _ => hp, fun _ _ _ hm => hm⟩
    exact (hpop.onError conn _ _).onClose
  | success len =>
    obtain ⟨rfl, hchain, hbare⟩ := hs.bare hr rfl
    have hempty := hs.early ⟨s.socket.conn, .connect, .succeeded⟩ (by simp [hchain]) rfl (Or.inl rfl)
    have hno : ∀ ps, session s.log ≠ some (s.socket.conn, ps) := by
      intro ps hk
      have hread := (hs.current _ ps hk).reads ⟨s.socket.conn, .connect, .succeeded⟩
        (by simp [hchain]) rfl
      cases hread
    simp only [State.onConnected]
    split
    · next hreq =>
      have hb : Bare e { s with
          ready := rest
          closed := false
          owner := s.socket.conn
          handed := Function.update s.handed s.socket.conn (s.handed s.socket.conn ++ s.request) } :=
        hbare.like (by constructor <;> rfl) hs.headLength fun k ps hk => Or.inl hk
      exact hb.start rfl _ (fun _ => hreq) (fun _ => hempty) (by rintro ⟨⟩) (by rintro (h | h) <;> cases h)
        fun ps hk => absurd hk (hno ps)
    · next hreq =>
      have hreq : s.request = [] := by simpa using hreq
      have hlog : session (s.log ++ [(s.socket.conn, .connect)]) = some (s.socket.conn, []) :=
        session_snoc ..
      have hb : Bare e { s with
          ready := rest
          closed := false
          owner := s.socket.conn
          log := s.log ++ [(s.socket.conn, .connect)] } := by
        refine hbare.like (by constructor <;> rfl) hs.headLength fun k ps hk => Or.inr ?_
        rw [hlog] at hk
        cases hk
        exact ⟨rfl, Or.inl hreq⟩
      refine hb.doRead ?_ ?_
      · intro k ps hk
        rw [hlog] at hk
        cases hk
        rfl
      · intro ps hk
        rw [hlog] at hk
        cases hk
        refine ⟨[], ?_, rfl⟩
        simp only [State.stream, hreq, if_true, hempty]
        exact .nil

theorem readUntil_of_empty (h : s.response = []) : s.readUntil = s.start .proxyRead [] := by
  simp only [State.readUntil, h, endOfHead]

theorem streams_onProxyWritten (hk : e.closing = .keep) (hs : Streams e s)
    (hr : s.ready = .complete conn .proxyWrite res :: rest)
    (hg : ∀ len, res = .success len → s.response = []) :
    Streams e (State.onProxyWritten e { s with ready := rest } conn res) := by
  cases res with
  | failure err => exact (hs.pop hr (by simp [Handler.item?])).fail hk conn _ _
  | success len =>
    obtain ⟨rfl, hchain, hbare⟩ := hs.bare hr rfl
    have hmem : (⟨s.socket.conn, .proxyWrite, .succeeded⟩ : Item) ∈ s.chain mainOp := by
      simp [hchain]
    have hempty := hs.early _ hmem rfl (Or.inr rfl)
    have hresp := hg len rfl
    have huntil : State.readUntil { s with ready := rest } =
        State.start { s with ready := rest } .proxyRead [] := readUntil_of_empty hresp
    simp only [State.onProxyWritten, huntil]
    refine hbare.start rfl _ (fun _ => hs.gateway _ hmem (Or.inl rfl)) (by rintro (h | h) <;> cases h)
      (fun _ => hempty.trans hresp.symm) (by rintro (h | h) <;> cases h) ?_
    intro ps hsome
    have hread := (hs.current _ ps hsome).reads _ hmem rfl
    cases hread

theorem streams_onProxyRead (hk : e.closing = .keep) (hs : Streams e s)
    (hr : s.ready = .complete conn .proxyRead res :: rest)
    (hg : ∀ len, res = .success len → succeeded (httpStatus s.response) = true →
      s.response.length = len) :
    Streams e (State.onProxyRead e { s with ready := rest } conn res) := by
  cases res with
  | failure err => exact (hs.pop hr (by simp [Handler.item?])).fail hk conn _ _
  | success len =>
    obtain ⟨rfl, hchain, hbare⟩ := hs.bare hr rfl
    have hmem : (⟨s.socket.conn, .proxyRead, .succeeded⟩ : Item) ∈ s.chain mainOp := by
      simp [hchain]
    have hreceived := hs.proxy _ hmem rfl rfl (by simp)
    have hfound := (hs.lengths .proxyRead len (by simp [hr])).2 rfl
    have hno : ∀ ps, session s.log ≠ some (s.socket.conn, ps) := by
      intro ps hsome
      have hread := (hs.current _ ps hsome).reads _ hmem rfl
      cases hread
    simp only [State.onProxyRead]
    split
    · next hok =>
      have hlog : session (s.log ++ [(s.socket.conn, .connect)]) = some (s.socket.conn, []) :=
        session_snoc ..
      have hb : Bare e { s with
          ready := rest
          response := s.response.drop len
          socket := { s.socket with tunneled := true }
          log := s.log ++ [(s.socket.conn, .connect)] } := by
        refine hbare.like (by constructor <;> rfl) hs.headLength fun k ps hsome => Or.inr ?_
        rw [hlog] at hsome
        cases hsome
        refine ⟨rfl, Or.inr ?_⟩
        show (endOfHead (s.received s.socket.conn)).isSome
        rw [hreceived, hfound]
        rfl
      refine hb.doRead ?_ ?_
      · intro k ps hsome
        rw [hlog] at hsome
        cases hsome
        rfl
      · intro ps hsome
        rw [hlog] at hsome
        cases hsome
        refine ⟨[], ?_, rfl⟩
        have hnil : s.response.drop len = [] := by
          rw [← hg len rfl hok, List.drop_length]
        simp only [State.stream, hs.gateway _ hmem (Or.inr rfl), if_false, hreceived, hfound, hnil]
        exact .nil
    · have hb : Bare e { s with ready := rest, response := s.response.drop len } :=
        hbare.like (by constructor <;> rfl) hs.headLength fun k ps hsome => Or.inl hsome
      exact (hb.streams fun ps hsome => absurd hsome (hno ps)).fail hk _ _ _

theorem streams_onReadHead (hk : e.closing = .keep) (hs : Streams e s)
    (hr : s.ready = .complete conn .readHead res :: rest) :
    Streams e (State.onReadHead e { s with ready := rest } conn res) := by
  cases res with
  | failure err => exact (hs.pop hr (by simp [Handler.item?])).onClose
  | success len =>
    obtain ⟨rfl, hchain, hbare⟩ := hs.bare hr rfl
    have hmem : (⟨s.socket.conn, .readHead, .succeeded⟩ : Item) ∈ s.chain mainOp := by
      simp [hchain]
    have howner := hs.owner _ hmem (Or.inl rfl)
    have hread : ∀ ps, session s.log = some (s.socket.conn, ps) →
        Reads s (s.stream s.socket.conn) ps ⟨s.socket.conn, .readHead, .succeeded⟩ :=
      fun ps hsome => (hs.current _ ps hsome).reads _ hmem rfl
    have hb : Bare e { s with ready := rest, recvHead := EtcpHeader.decode e.order s.recvHead } :=
      hbare.like (by constructor <;> rfl) (by simpa using hs.headLength) fun k ps hsome => Or.inl hsome
    have hp : ∀ ps, session s.log = some (s.socket.conn, ps) → ps = packets (s.stream s.socket.conn) :=
      fun ps hsome => (hread ps hsome).packets_eq (by rintro ⟨⟩)
    simp only [State.onReadHead]
    split
    · exact (hb.streams hp).fail hk _ _ _
    · next hcheck =>
      exact hb.doRead howner fun ps hsome => (hread ps hsome).skip hcheck
    · next n hcheck =>
      have hb : Bare e { s with
          ready := rest
          recvHead := EtcpHeader.decode e.order s.recvHead
          recvData := resize s.recvData n } :=
        hb.like (by constructor <;> rfl) hb.headLength fun k ps hsome => Or.inl hsome
      refine hb.start rfl [] (by rintro (h | h) <;> cases h) (by rintro (h | h) <;> cases h)
        (by rintro ⟨⟩) (fun _ => howner)
        fun ps hsome => ⟨hp ps hsome, ?_⟩
      intro _
      exact (hread ps hsome).open hcheck (length_resize ..)
        fun q hq hqo => hb.start_done _ _ q hq (by rw [hqo]; rfl)

theorem streams_onReadBody (hs : Streams e s) (hr : s.ready = .complete conn .readBody res :: rest) :
    Streams e (State.onReadBody { s with ready := rest } conn res) := by
  cases res with
  | failure err => exact (hs.pop hr (by simp [Handler.item?])).onClose
  | success len =>
    obtain ⟨rfl, hchain, hbare⟩ := hs.bare hr rfl
    have hmem : (⟨s.socket.conn, .readBody, .succeeded⟩ : Item) ∈ s.chain mainOp := by
      simp [hchain]
    have hlen := (hs.lengths .readBody len (by simp [hr])).1 rfl
    have hsess : ∀ k ps, session (s.log ++ [(s.socket.conn, .recv s.recvData)]) = some (k, ps) →
        k = s.socket.conn ∧ ∃ qs, session s.log = some (s.socket.conn, qs) ∧
          ps = qs ++ [s.recvData] := by
      intro k ps hk
      obtain ⟨qs, hj, hps⟩ := session_recv hk
      obtain rfl := hs.owner _ hmem (Or.inr rfl) k qs hj
      exact ⟨rfl, qs, hj, hps⟩
    have hb : Bare e { s with
        ready := rest
        recvData := []
        log := s.log ++ [(s.socket.conn, .recv s.recvData)] } := by
      refine hbare.like (by constructor <;> rfl) hs.headLength fun k ps hk => Or.inr ?_
      obtain ⟨rfl, qs, hq, _⟩ := hsess k ps hk
      exact ⟨rfl, (hs.current _ qs hq).tunnel⟩
    simp only [State.onReadBody, ← hlen, ne_eq, not_true_eq_false, if_false]
    refine hb.doRead (fun k ps hk => (hsess k ps hk).1) ?_
    intro ps hk
    obtain ⟨_, qs, hq, rfl⟩ := hsess _ ps hk
    exact ((hs.current _ qs hq).reads _ hmem rfl).deliver

end Runs

theorem streams_step (hk : e.closing = .keep) (hs : Streams e s) (hg : Separate e s a)
    (h : step e s a = some t) : Streams e t := by
  by_cases ha : a = .run
  · subst ha
    obtain ⟨hd, rest, hr, rfl⟩ := handler_of_run h
    cases hd with
    | doConnect ticket =>
      have hpop := hs.pop hr (by simp [Handler.item?])
      apply streams_realConnect hk hpop
      intro x hx
      apply hg.1 (by simp [connects, hr]) hk
      rw [State.chain_pop _ hr]
      exact List.mem_append_right _ hx
    | doClose ticket => exact (hs.pop hr (by simp [Handler.item?])).runClose hk
    | sendMessage ticket pack => exact (hs.pop hr (by simp [Handler.item?])).runSend pack
    | complete conn op res =>
      have halone := hg.2.1
      simp only [responseAlone, hr] at halone
      cases op with
      | connect => exact streams_onConnected hs hr
      | proxyWrite =>
        refine streams_onProxyWritten hk hs hr ?_
        rintro len rfl
        simpa using halone
      | proxyRead =>
        refine streams_onProxyRead hk hs hr ?_
        rintro len rfl hok
        simpa [hok] using halone
      | write =>
        refine (hs.pop hr ?_).onWritten res
        cases res <;> simp [Handler.item?]
      | readHead => exact streams_onReadHead hk hs hr
      | readBody => exact streams_onReadBody hs hr
  · exact streams_outside hs (effect_of_step h) ha

theorem streams_initial (request : Bytes) : Streams e (initial request) := by
  have hnil : (initial request).chain mainOp = [] := by simp [State.chain, State.items, initial]
  have hb : Bare e (initial request) := by
    refine ⟨chained_initial request, hnil, rfl, fun _ _ => rfl, ?_⟩
    intro k ps hk
    simp [initial, session] at hk
  exact hb.streams (by simp [initial, session])

theorem streams_run (hk : e.closing = .keep)
    (h : Run (step e) (Separate e) (initial request) as s) : Streams e s :=
  h.invariant _ (fun _ _ _ hs hg hst => streams_step hk hs hg hst) (streams_initial request)

theorem Streams.ownPackets (hs : Streams e s) : OwnPackets s := by
  constructor
  · have hsub : (s.pending.filter (·.op.reads)).length ≤ (s.pending.filter (mainOp ·.op)).length := by
      apply List.Sublist.length_le
      apply List.monotone_filter_right
      intro p hp
      cases hop : p.op <;> simp_all [Op.reads, mainOp]
    exact Nat.le_trans hsub (length_pending_le hs.chained.ordered)
  · intro k ps hk
    have hsess := hs.current k ps hk
    by_cases hx : ∃ x ∈ s.chain mainOp, x.conn = k
    · obtain ⟨x, hx, rfl⟩ := hx
      have hread := hsess.reads x hx rfl
      by_cases hready : x.op = .readBody ∧ x.status = .succeeded
      · -- the packet is complete, and its handler has not run
        obtain ⟨conn, op, st⟩ := x
        obtain ⟨rfl, rfl⟩ : op = .readBody ∧ st = .succeeded := hready
        refine ⟨?_, fun hnone => ?_⟩
        · cases hread with
          | bodyAll bs head qs hw hq hl hb hne hstream =>
            rw [hstream, packets_append hw, hq]
            exact List.prefix_append _ _
        · obtain ⟨len, hm⟩ := complete_of_mem hx
          exact absurd hm (hnone len)
      · have hp := hread.packets_eq fun hop hst => hready ⟨hop, hst⟩
        exact ⟨hp ▸ List.prefix_rfl, fun _ => hp⟩
    · have hp := hsess.ended fun x hm hc => hx ⟨x, hm, hc⟩
      exact ⟨hp ▸ List.prefix_rfl, fun _ => hp⟩

/-- While every `real_connect` finds the old connection's successes run and none of its operations
half done, and the handshake reads the response alone, a connection delivers the frames of its own
stream. -/
theorem own_packets (hk : e.closing = .keep)
    (h : Run (step e) (Separate e) (initial request) as s) : OwnPackets s :=
  (streams_run hk h).ownPackets

/-- A second connection after the first was closed in the middle of a frame. -/
theorem own_packets_example :
    ∃ as s, Run (step ⟨.little, .keep, fun _ => ""⟩) (Separate ⟨.little, .keep, fun _ => ""⟩)
        (initial []) as s ∧ session s.log = some (2, [[7]]) ∧ OwnPackets s :=
  have h := run_exec (step ⟨.little, .keep, fun _ => ""⟩) (Separate ⟨.little, .keep, fun _ => ""⟩)
    (initial [])
    [.callConnect, .post 0, .run, .connected 0, .run, .receive 0 [0x45, 0x54, 0], .callClose,
      .post 0, .run, .run, .callConnect, .post 0, .run, .connected 0, .run,
      .receive 0 [0x45, 0x54, 0, 0, 0, 1], .run, .receive 0 [7], .run] (by decide)
  ⟨_, _, h, by decide, own_packets rfl h⟩

/-- The header of a frame is complete when `connect()` is called again: its handler runs behind
`real_connect` and starts a second read on the new socket. -/
theorem two_reads_after_reconnect :
    ¬ ∀ as s, Run (step ⟨.little, .keep, fun _ => ""⟩) Free (initial []) as s → OwnPackets s := by
  intro h
  have hrun := run_exec (step ⟨.little, .keep, fun _ => ""⟩) Free (initial [])
    [.callConnect, .post 0, .run, .connected 0, .run, .callConnect, .post 0, .post 0,
      .receive 0 [0x45, 0x54, 0, 0, 0, 1], .run, .run, .run, .connected 0, .run] (by decide)
  have hreads := (h _ _ hrun).1
  revert hreads
  decide

end NetworkUtility.EtcpClient
