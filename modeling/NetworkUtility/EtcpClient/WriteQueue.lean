import NetworkUtility.EtcpClient.Chain

/-! `m_send_data_list` has one write while it is not empty, whatever is connected or closed. -/
namespace NetworkUtility.EtcpClient

open Etcp Machine

variable {e : Env} {s t : State} {a : Action} {request : Bytes} {as : List Action} {x : Item}
  {h : Handler} {rest : List Handler}

def isWrite (op : Op) : Bool := op == .write

namespace State

/-- The writes of `do_write` whose handlers have not run. -/
def writes (s : State) : List Item := s.chain isWrite

theorem op_of_writes (hx : x ∈ s.writes) : x.op = .write := by
  simpa [isWrite] using List.of_mem_filter hx

theorem doWrite_cons {data : Bytes} {more : List Bytes} (hl : s.sendDataList = data :: more) :
    s.doWrite = s.startWrite .write data := by
  simp only [doWrite, hl]

/-- The size is 2 behind the two `emplace_back` when the list was empty. -/
theorem runSend_eq (ho : s.socket.isOpen = true) (pack : Bytes) :
    s.runSend e pack =
      if s.sendDataList = [] then
        State.startWrite { s with sendDataList := [messageHead e.order pack, pack] } .write
          (messageHead e.order pack)
      else { s with sendDataList := s.sendDataList ++ [messageHead e.order pack, pack] } := by
  cases hl : s.sendDataList with
  | nil => simp [runSend, ho, pushMessage, hl, doWrite]
  | cons data more => simp [runSend, ho, pushMessage, hl]

theorem sendDataList_complete {op : Op} (hop : op ≠ .write) (conn : Nat) (res : Result) :
    (s.onComplete e conn op res).sendDataList = s.sendDataList := by
  cases op with
  | write => exact absurd rfl hop
  | connect =>
    cases res with
    | failure err => rfl
    | success len =>
      simp only [onComplete, onConnected]
      split <;> rfl
  | proxyWrite =>
    cases res with
    | failure err => rfl
    | success len =>
      simp only [onComplete, onProxyWritten, readUntil]
      split <;> rfl
  | proxyRead =>
    cases res with
    | failure err => rfl
    | success len =>
      simp only [onComplete, onProxyRead]
      split <;> rfl
  | readHead =>
    cases res with
    | failure err => rfl
    | success len =>
      simp only [onComplete, onReadHead]
      split <;> rfl
  | readBody => cases res <;> rfl

theorem writes_pop (hr : s.ready = h :: rest) (hw : h.item?.toList.filter (isWrite ·.op) = []) :
    State.writes { s with ready := rest } = s.writes := by
  have hpop := chain_pop isWrite hr
  rw [hw, List.nil_append] at hpop
  exact hpop.symm

end State

/-- The list has a write on its way while it is not empty, and only then. -/
structure OneWrite (s : State) : Prop where
  idle : s.socket.isOpen = false → s.pending = []
  one : (s.writes = [] ∧ s.sendDataList = []) ∨ ∃ x, s.writes = [x] ∧ s.sendDataList ≠ []
  bounded : ∀ x ∈ s.writes, x.conn ≤ s.socket.conn

theorem oneWrite_initial (request : Bytes) : OneWrite (initial request) := by
  refine ⟨fun _ => rfl, Or.inl ⟨rfl, rfl⟩, ?_⟩
  intro x hx
  cases hx

theorem OneWrite.ordered (hs : OneWrite s) : s.writes.Pairwise (·.conn < ·.conn) := by
  rcases hs.one with ⟨hw, _⟩ | ⟨x, hw, _⟩ <;> simp [hw]

theorem OneWrite.of_eq (hs : OneWrite s) (hw : t.writes = s.writes)
    (hl : t.sendDataList = s.sendDataList) (hc : s.socket.conn ≤ t.socket.conn)
    (hi : t.socket.isOpen = false → t.pending = []) : OneWrite t := by
  refine ⟨hi, ?_, ?_⟩
  · rw [hw, hl]
    exact hs.one
  · rw [hw]
    intro x hx
    exact Nat.le_trans (hs.bounded x hx) hc

theorem OneWrite.like (hs : OneWrite s) (h : Like t s) (hl : t.sendDataList = s.sendDataList) :
    OneWrite t := by
  apply hs.of_eq (State.chain_like h isWrite) hl (Nat.le_of_eq h.conn.symm)
  rw [h.isOpen, h.pending]
  exact hs.idle

theorem OneWrite.pop (hs : OneWrite s) (hr : s.ready = h :: rest)
    (hw : h.item?.toList.filter (isWrite ·.op) = []) : OneWrite { s with ready := rest } :=
  hs.of_eq (State.writes_pop hr hw) rfl le_rfl hs.idle

theorem OneWrite.writes_release (hs : OneWrite s) :
    (s.release e.closing).writes =
      if s.socket.isOpen then s.writes.map (Item.settled e.closing s.socket.conn) else s.writes :=
  State.chain_release (hs.ordered.imp fun h => Nat.le_of_lt h) hs.bounded _

theorem OneWrite.release (hs : OneWrite s) : OneWrite (s.release e.closing) := by
  have hi : (s.release e.closing).socket.isOpen = false → (s.release e.closing).pending = [] := by
    intro _
    by_cases ho : s.socket.isOpen = true
    · simp [State.release, ho]
    · simp [State.release, ho, hs.idle (by simpa using ho)]
  have hw := hs.writes_release (e := e)
  refine ⟨hi, ?_, ?_⟩
  · rw [hw]
    rcases hs.one with ⟨hn, hl⟩ | ⟨x, hx, hl⟩
    · exact Or.inl ⟨by simp [hn], hl⟩
    · by_cases ho : s.socket.isOpen = true
      · exact Or.inr ⟨_, by rw [if_pos ho, hx]; rfl, hl⟩
      · exact Or.inr ⟨x, by rw [if_neg ho, hx], hl⟩
  · rw [hw]
    intro x hx
    split at hx
    · obtain ⟨y, hy, rfl⟩ := List.mem_map.mp hx
      rw [conn_settled]
      exact hs.bounded y hy
    · exact hs.bounded x hx

theorem OneWrite.start (hs : OneWrite s) {op : Op} (hop : isWrite op = false) (data : Bytes) :
    OneWrite (s.start op data) := by
  apply hs.of_eq (State.chain_start_unselected hop data) rfl le_rfl
  intro ho
  have ho : s.socket.isOpen = false := ho
  simp [State.start, ho, hs.idle ho]

/-- `do_write` with none on its way. -/
theorem OneWrite.write (hi : s.socket.isOpen = false → s.pending = []) (hw : s.writes = [])
    (hl : s.sendDataList ≠ []) (data : Bytes) :
    OneWrite (s.startWrite .write data) ∧ (s.startWrite .write data).writes =
      [⟨s.socket.conn, .write, if s.socket.isOpen then .waiting else .failed⟩] := by
  have hsel : isWrite .write = true := rfl
  have hc : (s.startWrite .write data).writes =
      s.writes ++ [⟨s.socket.conn, .write, if s.socket.isOpen then .waiting else .failed⟩] :=
    State.chain_start (s := { s with handed := _ }) hi hsel data
  rw [hw, List.nil_append] at hc
  refine ⟨⟨?_, Or.inr ⟨_, hc, hl⟩, ?_⟩, hc⟩
  · intro ho
    have ho : s.socket.isOpen = false := ho
    simp [State.startWrite, State.start, ho, hi ho]
  · rw [hc]
    intro x hx
    obtain rfl := List.mem_singleton.mp hx
    exact le_rfl

theorem oneWrite_runSend (hs : OneWrite s) (pack : Bytes) : OneWrite (s.runSend e pack) := by
  by_cases ho : s.socket.isOpen = true
  · rw [State.runSend_eq ho]
    split
    · next hl =>
      rcases hs.one with ⟨hw, _⟩ | ⟨x, _, hne⟩
      · exact (OneWrite.write (s := { s with sendDataList := [messageHead e.order pack, pack] })
          hs.idle hw (List.cons_ne_nil _ _) _).1
      · exact absurd hl hne
    · next hl =>
      rcases hs.one with ⟨_, hn⟩ | ⟨x, hx, _⟩
      · exact absurd hn hl
      · exact ⟨hs.idle, Or.inr ⟨x, hx, by simp⟩, hs.bounded⟩
  · have hsend : s.runSend e pack = s := by simp [State.runSend, ho]
    rw [hsend]
    exact hs

/-- With its handler out of the queue, nothing else writes. -/
theorem OneWrite.last {conn : Nat} {res : Result} (hs : OneWrite s)
    (hr : s.ready = .complete conn .write res :: rest) :
    ∃ st, st ≠ .waiting ∧ (Handler.complete conn .write res).item? = some ⟨conn, .write, st⟩ ∧
      s.writes = [⟨conn, .write, st⟩] ∧ State.writes { s with ready := rest } = [] ∧
      s.sendDataList ≠ [] := by
  obtain ⟨st, hst, hitem⟩ := item_complete conn .write res
  have hpop : s.writes = ⟨conn, .write, st⟩ :: State.writes { s with ready := rest } := by
    have hp := State.chain_pop isWrite hr
    rw [hitem] at hp
    exact hp
  rcases hs.one with ⟨hw, _⟩ | ⟨x, hx, hl⟩
  · simp [hpop] at hw
  · rw [hpop] at hx
    obtain ⟨rfl, hnil⟩ := List.cons.inj hx
    exact ⟨st, hst, hitem, by rw [hpop, hnil], hnil, hl⟩

theorem oneWrite_onWritten {conn : Nat} {res : Result} (hs : OneWrite s)
    (hr : s.ready = .complete conn .write res :: rest) :
    OneWrite (State.onWritten { s with ready := rest } res) := by
  obtain ⟨_, _, _, _, hnil, _⟩ := hs.last hr
  have hbounded : ∀ x ∈ State.writes { s with ready := rest }, x.conn ≤ s.socket.conn := by
    simp [hnil]
  cases res with
  | failure err => exact ⟨hs.idle, Or.inl ⟨hnil, rfl⟩, hbounded⟩
  | success len =>
    simp only [State.onWritten]
    cases hl : s.sendDataList.tail with
    | nil => exact ⟨hs.idle, Or.inl ⟨hnil, rfl⟩, hbounded⟩
    | cons data more =>
      simp only [ne_eq, reduceCtorEq, not_false_eq_true, if_true]
      rw [State.doWrite_cons rfl]
      exact (OneWrite.write (s := { s with ready := rest, sendDataList := data :: more }) hs.idle
        hnil (List.cons_ne_nil _ _) data).1

theorem write_notMem_next {op op' : Op} (h : op' ∈ op.next) (hop : op ≠ .write) :
    isWrite op' = false := by
  cases op <;> simp_all [Op.next] <;> rcases h with rfl | rfl <;> rfl

theorem oneWrite_turn (hs : OneWrite s) (hl : t.sendDataList = s.sendDataList)
    (hop : ∀ conn res, h ≠ .complete conn .write res) (hsend : ∀ ticket pack, h ≠ .sendMessage ticket pack)
    (ht : Turn e s h t) : OneWrite t := by
  cases ht with
  | stay _ _ hlike => exact hs.like hlike hl
  | close _ _ hlike => exact hs.release.like hlike hl
  | send ticket pack => exact absurd rfl (hsend ticket pack)
  | next conn len op op' data _ hnext hlike =>
    have hne : op ≠ .write := by
      rintro rfl
      exact hop conn _ rfl
    exact (hs.start (write_notMem_next hnext hne) data).like hlike hl
  | found conn len n _ hlike =>
    have hw : (s.queue .proxyRead (.success n)).writes = s.writes := by
      simp [State.writes, State.chain_eq, State.queue, Handler.item?, isWrite]
    exact (hs.of_eq (t := s.queue .proxyRead (.success n)) hw rfl le_rfl hs.idle).like hlike hl

theorem writes_realConnect (hs : OneWrite s) (ticket : Nat) :
    (s.realConnect e ticket).writes = (s.release e.closing).writes := by
  have hp : (s.release e.closing).pending = [] := hs.release.idle rfl
  simp [State.writes, State.chain_eq, State.realConnect, State.start, hp, isWrite]

theorem oneWrite_step (hs : OneWrite s) (h : step e s a = some t) : OneWrite t := by
  rcases effect_cases (effect_of_step h) with ⟨hu, ho⟩ | ⟨hd, rest, rfl, hr, rfl⟩
  · have hi (hp : s.pending = [] → t.pending = []) : t.socket.isOpen = false → t.pending = [] := by
      rw [hu.isOpen]
      exact fun hc => hp (hs.idle hc)
    have hconn := Nat.le_of_eq hu.conn.symm
    cases ho with
    | same hready _ hops =>
      apply hs.of_eq (State.chain_congr hready hops hu.conn) hu.sendDataList hconn
      apply hi
      intro hn
      simpa [hn] using hops
    | post hd hitem _ hready _ hp =>
      refine hs.of_eq ?_ hu.sendDataList hconn (hi fun hn => hp.trans hn)
      rw [State.writes, State.writes, State.chain_eq, State.chain_eq, hready, hp, hu.conn]
      simp [hitem]
    | finish l r p res hl hp hready =>
      have hpend : s.pending = [] → t.pending = [] := fun hn => by simp [hn] at hl
      rcases chain_finish hs.ordered hl hp hready hu.conn with ⟨_, hc⟩ | ⟨xs, st, _, _, hxs, hys⟩
      · exact hs.of_eq hc hu.sendDataList hconn (hi hpend)
      · rcases hs.one with ⟨hw, _⟩ | ⟨x, hx, hlist⟩
        · simp [State.writes, hxs] at hw
        · have hnil : xs = [] := by
            rw [State.writes, hxs] at hx
            cases xs with
            | nil => rfl
            | cons y ys => simp at hx
          rw [hnil] at hys
          refine ⟨hi hpend, Or.inr ⟨_, hys, hu.sendDataList ▸ hlist⟩, ?_⟩
          rw [State.writes, hys, hu.conn]
          intro y hy
          obtain rfl := List.mem_singleton.mp hy
          exact le_rfl
  · cases hd with
    | doConnect ticket =>
      have hpop := hs.pop hr rfl
      exact hpop.release.of_eq (writes_realConnect hpop ticket) rfl (Nat.le_succ _)
        (by simp [State.runHandler, State.realConnect, State.start])
    | sendMessage ticket pack => exact oneWrite_runSend (hs.pop hr rfl) pack
    | doClose ticket =>
      have hpop := hs.pop hr rfl
      refine oneWrite_turn (h := .doClose ticket) hpop ?_ (by simp) (by simp)
        (turn_of_run _ (by simp))
      simp only [State.runHandler, State.runClose]
      split <;> rfl
    | complete conn op res =>
      by_cases hop : op = .write
      · subst hop
        exact oneWrite_onWritten hs hr
      · have hw : (Handler.complete conn op res).item?.toList.filter (isWrite ·.op) = [] := by
          obtain ⟨st, _, hitem⟩ := item_complete conn op res
          simp [hitem, isWrite, hop]
        exact oneWrite_turn (h := .complete conn op res) (hs.pop hr hw)
          (State.sendDataList_complete hop conn res) (by simp [hop]) (by simp)
          (turn_of_run _ (by simp))

end NetworkUtility.EtcpClient
