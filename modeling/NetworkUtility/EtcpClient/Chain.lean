import NetworkUtility.EtcpClient.Queue

/-! The handlers that have not run form a chain: those of earlier connections come first and have
failed, the current connection has at most one. `sel` says which operations are looked at. -/
namespace NetworkUtility.EtcpClient

open Etcp Machine

variable {e : Env} {s t : State} {a : Action} {c : Closing} {sel : Op → Bool} {x : Item}

/-- The next handler is the lambda of `do_connect`. -/
def connects (s : State) : Action → Bool
  | .run =>
    match s.ready with
    | .doConnect _ :: _ => true
    | _ => false
  | _ => false

/-- With a handler of `op'` selected, the handlers that start it are. -/
structure Leading (sel : Op → Bool) : Prop where
  write : sel .write = false
  back : ∀ op, ∀ op' ∈ op.next, sel op' = true → sel op = true

/-- The operations of connecting and reading; `do_write` has its own rules. -/
def mainOp (op : Op) : Bool := op != .write

theorem leading_mainOp : Leading mainOp := by
  constructor
  · rfl
  · intro op op' h hm
    cases op <;> simp_all [Op.next, mainOp]

/-- Where closing keeps queued successes, `real_connect` finds none among the selected. -/
def Clean (e : Env) (sel : Op → Bool) (s : State) (a : Action) : Prop :=
  connects s a = true → e.closing = .keep → ∀ x ∈ s.chain sel, x.status ≠ .succeeded

instance : Decidable (Clean e sel s a) := inferInstanceAs (Decidable (_ → _ → _))

/-- `real_connect` finds no operation of the old socket that has moved a part of its bytes and has
its handler still to run: the next part would be moved on the new socket. -/
def Intact (s : State) (a : Action) : Prop :=
  connects s a = true → (∀ p ∈ s.pending, p.done = 0) ∧ ∀ h ∈ s.torn, h ∉ s.ready

instance : Decidable (Intact s a) := inferInstanceAs (Decidable (_ → _ ∧ _))

structure Chained (e : Env) (sel : Op → Bool) (s : State) : Prop where
  ordered : (s.chain sel).Pairwise (·.conn < ·.conn)
  bounded : ∀ x ∈ s.chain sel, x.conn ≤ s.socket.conn
  past : ∀ x ∈ s.chain sel, x.conn < s.socket.conn → x.status = .failed
  live : e.closing ≠ .keep → ∀ x ∈ s.chain sel, x.status = .succeeded → s.socket.isOpen
  idle : s.socket.isOpen = false → s.pending = []

theorem item_complete (conn : Nat) (op : Op) (res : Result) :
    ∃ st, st ≠ .waiting ∧ (Handler.complete conn op res).item? = some ⟨conn, op, st⟩ := by
  cases res with
  | success len => exact ⟨.succeeded, by decide, rfl⟩
  | failure err => exact ⟨.failed, by decide, rfl⟩

namespace State

theorem chain_eq (s : State) (sel : Op → Bool) :
    s.chain sel = (s.ready.filterMap Handler.item?).filter (sel ·.op) ++
      (s.pending.map fun p => (⟨s.socket.conn, p.op, .waiting⟩ : Item)).filter (sel ·.op) :=
  List.filter_append ..

theorem chain_congr (hr : t.ready = s.ready) (hp : t.pending.map (·.op) = s.pending.map (·.op))
    (hc : t.socket.conn = s.socket.conn) : t.chain sel = s.chain sel := by
  have hops (u : State) : (u.pending.map fun p => (⟨u.socket.conn, p.op, .waiting⟩ : Item)) =
      (u.pending.map (·.op)).map fun op => ⟨u.socket.conn, op, .waiting⟩ := by simp
  rw [chain_eq, chain_eq, hops t, hops s, hr, hp, hc]

theorem chain_like (h : Like t s) (sel : Op → Bool) : t.chain sel = s.chain sel :=
  chain_congr h.ready (by rw [h.pending]) h.conn

/-- Only what is pending waits. -/
theorem pending_of_waiting (hx : x ∈ s.chain sel) (hw : x.status = .waiting) : s.pending ≠ [] := by
  intro hp
  have hm : x ∈ s.ready.filterMap Handler.item? := by
    have hq := List.mem_of_mem_filter hx
    simpa [items, hp] using hq
  obtain ⟨h, _, hh⟩ := List.mem_filterMap.mp hm
  exact item_ne_waiting hh hw

theorem chain_pop (sel : Op → Bool) {h : Handler} {rest : List Handler} (hr : s.ready = h :: rest) :
    s.chain sel = h.item?.toList.filter (sel ·.op) ++ { s with ready := rest }.chain sel := by
  rw [chain_eq, chain_eq, hr, List.filterMap_cons]
  cases hi : h.item? with
  | none => simp
  | some x => by_cases hx : sel x.op <;> simp [hx]

theorem chain_start_unselected {op : Op} (hop : sel op = false) (data : Bytes) :
    (s.start op data).chain sel = s.chain sel := by
  by_cases ho : s.socket.isOpen = true
  · simp [chain_eq, start, ho, hop]
  · simp [chain_eq, start, ho, hop, Handler.item?]

theorem chain_start {op : Op} (hi : s.socket.isOpen = false → s.pending = []) (hop : sel op)
    (data : Bytes) :
    (s.start op data).chain sel = s.chain sel ++
      [⟨s.socket.conn, op, if s.socket.isOpen then .waiting else .failed⟩] := by
  by_cases ho : s.socket.isOpen = true
  · simp [chain_eq, start, ho, hop]
  · simp [chain_eq, start, ho, hop, hi (by simpa using ho), Handler.item?]

theorem chain_queue {op : Op} (hs : s.chain sel = []) (hop : sel op) (len : Nat) :
    (s.queue op (.success len)).chain sel = [⟨s.socket.conn, op, .succeeded⟩] := by
  rw [chain_eq, List.append_eq_nil_iff] at hs
  rw [chain_eq]
  simp only [queue, List.filterMap_append, List.filter_append, hs.1, hs.2]
  simp [Handler.item?, hop]

theorem mem_chain_queue {op : Op} {res : Result} (hx : x ∈ (s.queue op res).chain sel) :
    x ∈ s.chain sel ∨ x.conn = s.socket.conn := by
  obtain ⟨st, _, hitem⟩ := item_complete s.socket.conn op res
  rw [chain_eq] at hx ⊢
  simp only [queue, List.filterMap_append, List.filter_append, List.filterMap_cons, hitem,
    List.filterMap_nil, List.mem_append] at hx ⊢
  rcases hx with (hx | hx) | hx
  · exact Or.inl (Or.inl hx)
  · obtain rfl := List.mem_singleton.mp (List.mem_of_mem_filter hx)
    exact Or.inr rfl
  · exact Or.inl (Or.inr hx)

theorem chain_release (hs : (s.chain sel).Pairwise (·.conn ≤ ·.conn))
    (hk : ∀ x ∈ s.chain sel, x.conn ≤ s.socket.conn) (c : Closing) :
    (s.release c).chain sel =
      if s.socket.isOpen then (s.chain sel).map (Item.settled c s.socket.conn)
      else s.chain sel := by
  by_cases ho : s.socket.isOpen = true
  · rw [chain_eq] at hs hk
    have hready := items_settle (c := c) (List.pairwise_append.mp hs).1
      fun x hx => hk x (List.mem_append_left _ hx)
    have hwait : ((s.pending.map fun p => Handler.complete s.socket.conn p.op
          (.failure .aborted)).filterMap Handler.item?).filter (sel ·.op) =
        ((s.pending.map fun p => (⟨s.socket.conn, p.op, .waiting⟩ : Item)).filter (sel ·.op)).map
          (Item.settled c s.socket.conn) := by
      simp [List.filter_map, List.filterMap_map, Function.comp_def, Handler.item?, Item.settled]
    simp only [chain_eq, release, ho, if_true, List.filterMap_append, List.filter_append, hready,
      hwait, List.map_append, List.map_nil, List.filter_nil, List.append_nil]
  · simp [chain_eq, release, ho]

end State

theorem settled_status {k : Nat} (hx : x.conn = k ∧ (x.status = .waiting ∨ c ≠ .keep)) :
    (x.settled c k).status = .failed := by
  rw [Item.settled, if_pos hx]

theorem settled_of_failed {k : Nat} (hx : x.status = .failed) : (x.settled c k).status = .failed := by
  unfold Item.settled
  split
  · rfl
  · exact hx

theorem chained_initial (request : Bytes) : Chained e sel (initial request) := by
  constructor <;> simp [State.chain, State.items, initial]

theorem Chained.of_eq (hs : Chained e sel s) (hc : t.chain sel = s.chain sel)
    (hk : t.socket.conn = s.socket.conn) (ho : t.socket.isOpen = s.socket.isOpen)
    (hi : t.socket.isOpen = false → t.pending = []) : Chained e sel t := by
  constructor
  · rw [hc]
    exact hs.ordered
  · rw [hc, hk]
    exact hs.bounded
  · rw [hc, hk]
    exact hs.past
  · rw [hc, ho]
    exact hs.live
  · exact hi

theorem Chained.like (hs : Chained e sel s) (h : Like t s) : Chained e sel t := by
  apply hs.of_eq (State.chain_like h sel) h.conn h.isOpen
  rw [h.isOpen, h.pending]
  exact hs.idle

theorem Chained.pop {h : Handler} {rest : List Handler} (hs : Chained e sel s)
    (hr : s.ready = h :: rest) : Chained e sel { s with ready := rest } := by
  have hsub : ∀ x ∈ State.chain { s with ready := rest } sel, x ∈ s.chain sel := by
    intro x hx
    rw [State.chain_pop _ hr]
    exact List.mem_append_right _ hx
  have ho := hs.ordered
  rw [State.chain_pop _ hr] at ho
  exact ⟨(List.pairwise_append.mp ho).2.1, fun x hx => hs.bounded x (hsub x hx),
    fun x hx => hs.past x (hsub x hx), fun hc x hx => hs.live hc x (hsub x hx), hs.idle⟩

theorem Chained.weak (hs : Chained e sel s) : (s.chain sel).Pairwise (·.conn ≤ ·.conn) :=
  hs.ordered.imp fun h => Nat.le_of_lt h

theorem Chained.chain_release (hs : Chained e sel s) :
    (s.release e.closing).chain sel =
      if s.socket.isOpen then (s.chain sel).map (Item.settled e.closing s.socket.conn)
      else s.chain sel :=
  State.chain_release hs.weak hs.bounded _

theorem Chained.release (hs : Chained e sel s) : Chained e sel (s.release e.closing) := by
  have hidle : (s.release e.closing).socket.isOpen = false → (s.release e.closing).pending = [] := by
    intro _
    by_cases ho : s.socket.isOpen = true
    · simp [State.release, ho]
    · simp [State.release, ho, hs.idle (by simpa using ho)]
  by_cases ho : s.socket.isOpen = true
  · have hc := hs.chain_release
    rw [if_pos ho] at hc
    constructor
    · rw [hc]
      exact List.pairwise_map.mpr (by simpa using hs.ordered)
    · rw [hc]
      intro x hx
      obtain ⟨y, hy, rfl⟩ := List.mem_map.mp hx
      simpa [State.release] using hs.bounded y hy
    · rw [hc]
      intro x hx hlt
      obtain ⟨y, hy, rfl⟩ := List.mem_map.mp hx
      exact settled_of_failed (hs.past y hy (by simpa [State.release] using hlt))
    · rw [hc]
      intro hk x hx hst
      obtain ⟨y, hy, rfl⟩ := List.mem_map.mp hx
      have hf : (y.settled e.closing s.socket.conn).status = .failed := by
        rcases Nat.lt_or_eq_of_le (hs.bounded y hy) with hlt | heq
        · exact settled_of_failed (hs.past y hy hlt)
        · exact settled_status ⟨heq, Or.inr hk⟩
      simp [hf] at hst
    · exact hidle
  · have hc := hs.chain_release
    rw [if_neg ho] at hc
    have hclosed : s.socket.isOpen = false := by simpa using ho
    exact hs.of_eq hc rfl hclosed.symm hidle

/-- Before the next connection is opened, every selected handler has failed. -/
theorem Chained.all_failed (hs : Chained e sel s)
    (hc : e.closing = .keep → ∀ x ∈ s.chain sel, x.status ≠ .succeeded) :
    ∀ x ∈ (s.release e.closing).chain sel, x.status = .failed := by
  rw [hs.chain_release]
  intro x hx
  by_cases ho : s.socket.isOpen = true
  · rw [if_pos ho] at hx
    obtain ⟨y, hy, rfl⟩ := List.mem_map.mp hx
    rcases Nat.lt_or_eq_of_le (hs.bounded y hy) with hlt | heq
    · exact settled_of_failed (hs.past y hy hlt)
    · by_cases hk : e.closing = .keep
      · cases hst : y.status with
        | waiting => exact settled_status ⟨heq, Or.inl hst⟩
        | succeeded => exact absurd hst (hc hk y hy)
        | failed => exact settled_of_failed hst
      · exact settled_status ⟨heq, Or.inr hk⟩
  · rw [if_neg ho] at hx
    cases hst : x.status with
    | waiting => exact absurd (hs.idle (by simpa using ho)) (State.pending_of_waiting hx hst)
    | succeeded =>
      by_cases hk : e.closing = .keep
      · exact absurd hst (hc hk x hx)
      · exact absurd (hs.live hk x hx hst) ho
    | failed => rfl

theorem chain_realConnect (hs : Chained e sel s) (ticket : Nat) :
    (s.realConnect e ticket).chain sel = (s.release e.closing).chain sel ++
      if sel .connect then [⟨s.socket.conn + 1, .connect, .waiting⟩] else [] := by
  have hp : (s.release e.closing).pending = [] := hs.release.idle rfl
  by_cases hc : sel .connect = true
  · simp [State.chain_eq, State.realConnect, State.start, hp, hc]
    rfl
  · simp [State.chain_eq, State.realConnect, State.start, hp, hc]

theorem chained_realConnect (hs : Chained e sel s) (ticket : Nat)
    (hc : e.closing = .keep → ∀ x ∈ s.chain sel, x.status ≠ .succeeded) :
    Chained e sel (s.realConnect e ticket) := by
  have hconn : (s.realConnect e ticket).socket.conn = s.socket.conn + 1 := rfl
  have hopen : (s.realConnect e ticket).socket.isOpen = true := rfl
  have hold : ∀ x ∈ (s.release e.closing).chain sel, x.conn ≤ s.socket.conn := hs.release.bounded
  have hfail := hs.all_failed hc
  have hnew : ∀ x ∈ (s.realConnect e ticket).chain sel,
      x ∈ (s.release e.closing).chain sel ∨ x.conn = s.socket.conn + 1 := by
    intro x hx
    rw [chain_realConnect hs] at hx
    rcases List.mem_append.mp hx with hx | hx
    · exact Or.inl hx
    · split at hx
      · exact Or.inr (by simp_all)
      · cases hx
  constructor
  · rw [chain_realConnect hs]
    refine List.pairwise_append.mpr ⟨hs.release.ordered, by split <;> simp, ?_⟩
    intro x hx y hy
    have hle := hold x hx
    have hy : y.conn = s.socket.conn + 1 := by
      split at hy
      · simp_all
      · cases hy
    omega
  · intro x hx
    rcases hnew x hx with hx | hx
    · exact Nat.le_succ_of_le (hold x hx)
    · exact Nat.le_of_eq hx
  · intro x hx hlt
    rcases hnew x hx with hx | hx
    · exact hfail x hx
    · omega
  · intro _ _ _ _
    rfl
  · intro ho
    cases ho

theorem eq_of_conn {xs : List Item} {y : Item} (ho : xs.Pairwise (·.conn < ·.conn)) (hx : x ∈ xs)
    (hy : y ∈ xs) (h : x.conn = y.conn) : x = y := by
  obtain ⟨i, hi, rfl⟩ := List.getElem_of_mem hx
  obtain ⟨j, hj, rfl⟩ := List.getElem_of_mem hy
  have hlt := List.pairwise_iff_getElem.mp ho
  rcases Nat.lt_trichotomy i j with hij | rfl | hij
  · have hne := hlt i j hi hj hij
    omega
  · rfl
  · have hne := hlt j i hj hi hij
    omega

/-- The chain has one place for each connection, so of the selected operations one is pending. -/
theorem pending_unique {l r : List Pending} {p : Pending}
    (ho : (s.chain sel).Pairwise (·.conn < ·.conn)) (hl : s.pending = l ++ p :: r)
    (hp : sel p.op = true) : (∀ q ∈ l, sel q.op = false) ∧ ∀ q ∈ r, sel q.op = false := by
  rw [State.chain_eq, hl] at ho
  simp only [List.map_append, List.map_cons, List.filter_append, List.filter_cons, hp,
    if_true] at ho
  have hwait := (List.pairwise_append.mp ho).2.1
  have hmem {ps : List Pending} {q : Pending} (hq : q ∈ ps) (hs : sel q.op = true) :
      (⟨s.socket.conn, q.op, .waiting⟩ : Item) ∈
        (ps.map fun p => (⟨s.socket.conn, p.op, .waiting⟩ : Item)).filter (sel ·.op) :=
    List.mem_filter.mpr ⟨List.mem_map_of_mem hq, hs⟩
  constructor
  · intro q hq
    by_contra hs
    have hlt := (List.pairwise_append.mp hwait).2.2 _ (hmem hq (by simpa using hs)) _
      List.mem_cons_self
    exact Nat.lt_irrefl _ hlt
  · intro q hq
    by_contra hs
    have hlt := (List.pairwise_cons.mp (List.pairwise_append.mp hwait).2.1).1 _
      (hmem hq (by simpa using hs))
    exact Nat.lt_irrefl _ hlt

theorem length_pending_le {sel : Op → Bool} (ho : (s.chain sel).Pairwise (·.conn < ·.conn)) :
    (s.pending.filter (sel ·.op)).length ≤ 1 := by
  rw [State.chain_eq] at ho
  have hwait := (List.pairwise_append.mp ho).2.1
  rw [List.filter_map] at hwait
  have hfun : ((fun x : Item => sel x.op) ∘
      fun p : Pending => (⟨s.socket.conn, p.op, .waiting⟩ : Item)) = fun p => sel p.op := rfl
  rw [hfun] at hwait
  match hl : s.pending.filter (sel ·.op) with
  | [] => simp [hl]
  | [_] => simp [hl]
  | p :: q :: more =>
    rw [hl] at hwait
    have hlt := (List.pairwise_cons.mp hwait).1 ⟨s.socket.conn, q.op, .waiting⟩ (by simp)
    exact absurd hlt (Nat.lt_irrefl _)

theorem waiting_filter_nil {ps : List Pending} {k : Nat} (h : ∀ q ∈ ps, sel q.op = false) :
    (ps.map fun p => (⟨k, p.op, .waiting⟩ : Item)).filter (sel ·.op) = [] := by
  apply List.filter_eq_nil_iff.mpr
  intro x hx
  obtain ⟨q, hq, rfl⟩ := List.mem_map.mp hx
  simp [h q hq]

/-- A completed operation of the socket takes its place at the end of the chain. -/
theorem chain_finish {l r : List Pending} {p : Pending} {res : Result}
    (ho : (s.chain sel).Pairwise (·.conn < ·.conn)) (hl : s.pending = l ++ p :: r)
    (hp : t.pending = l ++ r) (hr : t.ready = s.ready ++ [.complete s.socket.conn p.op res])
    (hc : t.socket.conn = s.socket.conn) :
    (sel p.op = false ∧ t.chain sel = s.chain sel) ∨ ∃ xs st, st ≠ .waiting ∧
      (Handler.complete s.socket.conn p.op res).item? = some ⟨s.socket.conn, p.op, st⟩ ∧
      s.chain sel = xs ++ [⟨s.socket.conn, p.op, .waiting⟩] ∧
      t.chain sel = xs ++ [⟨s.socket.conn, p.op, st⟩] := by
  obtain ⟨st, hst, hitem⟩ := item_complete s.socket.conn p.op res
  have hsplit := State.chain_eq s sel
  have hsplit' := State.chain_eq t sel
  rw [hl, List.map_append, List.filter_append, List.map_cons, List.filter_cons] at hsplit
  rw [hp, hr, hc, List.map_append, List.filter_append, List.filterMap_append,
    List.filter_append] at hsplit'
  by_cases hop : sel p.op = true
  · obtain ⟨hleft, hright⟩ := pending_unique ho hl hop
    rw [waiting_filter_nil hleft, waiting_filter_nil hright, if_pos hop] at hsplit
    rw [waiting_filter_nil hleft, waiting_filter_nil hright] at hsplit'
    refine Or.inr ⟨(s.ready.filterMap Handler.item?).filter (sel ·.op), st, hst, hitem, hsplit, ?_⟩
    rw [hsplit']
    simp [hitem, hop]
  · refine Or.inl ⟨by simpa using hop, ?_⟩
    rw [hsplit, hsplit']
    simp [hitem, hop]

/-- The same, as one change of the chain. -/
theorem chain_finish_map {l r : List Pending} {p : Pending} {res : Result}
    (ho : (s.chain sel).Pairwise (·.conn < ·.conn)) (hl : s.pending = l ++ p :: r)
    (hp : t.pending = l ++ r) (hr : t.ready = s.ready ++ [.complete s.socket.conn p.op res])
    (hc : t.socket.conn = s.socket.conn) :
    ∃ st, (Handler.complete s.socket.conn p.op res).item? = some ⟨s.socket.conn, p.op, st⟩ ∧
      t.chain sel = (s.chain sel).map fun x =>
        if x = ⟨s.socket.conn, p.op, .waiting⟩ then ⟨s.socket.conn, p.op, st⟩ else x := by
  have hid (xs : List Item) (st : Status) (hne : ∀ x ∈ xs, x ≠ ⟨s.socket.conn, p.op, .waiting⟩) :
      (xs.map fun x => if x = ⟨s.socket.conn, p.op, .waiting⟩ then ⟨s.socket.conn, p.op, st⟩
        else x) = xs := by
    calc xs.map _ = xs.map id := List.map_congr_left fun x hx => by simp [hne x hx]
      _ = xs := List.map_id xs
  rcases chain_finish ho hl hp hr hc with ⟨hop, hsame⟩ | ⟨xs, st, _, hitem, hxs, hys⟩
  · obtain ⟨st, _, hitem⟩ := item_complete s.socket.conn p.op res
    refine ⟨st, hitem, ?_⟩
    rw [hsame, hid]
    intro x hx he
    have hsel := List.of_mem_filter hx
    simp [he, hop] at hsel
  · refine ⟨st, hitem, ?_⟩
    rw [hxs] at ho
    rw [hys, hxs, List.map_append, hid]
    · simp
    · intro x hx he
      have hlt := (List.pairwise_append.mp ho).2.2 x hx _ List.mem_cons_self
      rw [he] at hlt
      exact Nat.lt_irrefl _ hlt

theorem chained_outside (hu : Unmoved t s) (h : Outside s t) (hs : Chained e sel s) :
    Chained e sel t := by
  have hcong (hc : t.chain sel = s.chain sel) (hi : s.pending = [] → t.pending = []) :
      Chained e sel t := by
    apply hs.of_eq hc hu.conn hu.isOpen
    rw [hu.isOpen]
    exact fun ho => hi (hs.idle ho)
  cases h with
  | same hr _ hp =>
    apply hcong (State.chain_congr hr hp hu.conn)
    intro hn
    simpa [hn] using hp
  | post h hi _ hr _ hp =>
    apply hcong
    · rw [State.chain_eq, State.chain_eq, hr, hp, hu.conn]
      simp [List.filterMap_append, hi]
    · exact fun hn => hp.trans hn
  | finish l r p res hl hp hr =>
    have hopen : s.socket.isOpen = true := by
      by_contra ho
      simp [hs.idle (by simpa using ho)] at hl
    rcases chain_finish hs.ordered hl hp hr hu.conn with ⟨_, hc⟩ | ⟨xs, st, hst, _, hxs, hys⟩
    · exact hcong hc fun hn => by simp [hn] at hl
    · have ho := hs.ordered
      have hb := hs.bounded
      have hpast := hs.past
      rw [hxs] at ho hb hpast
      constructor
      · rw [hys]
        simpa [List.pairwise_append] using ho
      · rw [hys, hu.conn]
        intro x hx
        rcases List.mem_append.mp hx with hx | hx
        · exact hb x (List.mem_append_left _ hx)
        · exact Nat.le_of_eq (by simp_all)
      · rw [hys, hu.conn]
        intro x hx hlt
        rcases List.mem_append.mp hx with hx | hx
        · exact hpast x (List.mem_append_left _ hx) hlt
        · simp_all
      · intro _ _ _ _
        rw [hu.isOpen, hopen]
      · intro ho
        rw [hu.isOpen, hopen] at ho
        cases ho

/-- Nothing joins the chain from outside. -/
theorem chain_origin (ho : (s.chain sel).Pairwise (·.conn < ·.conn)) (hu : Unmoved t s)
    (h : Outside s t) : ∀ x ∈ t.chain sel, ∃ y ∈ s.chain sel, y.op = x.op ∧ y.conn = x.conn := by
  intro x hx
  cases h with
  | same hr _ hp => exact ⟨x, State.chain_congr hr hp hu.conn ▸ hx, rfl, rfl⟩
  | post h hi _ hr _ hp =>
    have hc : t.chain sel = s.chain sel := by
      rw [State.chain_eq, State.chain_eq, hr, hp, hu.conn]
      simp [hi]
    exact ⟨x, hc ▸ hx, rfl, rfl⟩
  | finish l r p res hl hp hr =>
    rcases chain_finish ho hl hp hr hu.conn with ⟨_, hc⟩ | ⟨xs, st, _, _, hxs, hys⟩
    · exact ⟨x, hc ▸ hx, rfl, rfl⟩
    · rw [hys] at hx
      rcases List.mem_append.mp hx with hx | hx
      · exact ⟨x, hxs ▸ List.mem_append_left _ hx, rfl, rfl⟩
      · obtain rfl := List.mem_singleton.mp hx
        have hy : (⟨s.socket.conn, p.op, .waiting⟩ : Item) ∈ s.chain sel := by
          rw [hxs]
          exact List.mem_append_right _ List.mem_cons_self
        exact ⟨_, hy, rfl, rfl⟩

/-- When a selected handler of the current connection has run, nothing is left of the chain. -/
theorem Chained.chain_last {conn len : Nat} {op : Op} {rest : List Handler} (hs : Chained e sel s)
    (hr : s.ready = .complete conn op (.success len) :: rest) (hop : sel op = true) :
    conn = s.socket.conn ∧ State.chain { s with ready := rest } sel = [] := by
  have hpop := State.chain_pop sel hr
  simp only [Handler.item?, Option.toList_some, List.filter_cons, hop, if_true, List.filter_nil,
    List.singleton_append] at hpop
  have ho := hs.ordered
  have hb := hs.bounded
  have hp := hs.past
  rw [hpop] at ho hb hp
  have hconn : conn = s.socket.conn := by
    rcases Nat.lt_or_eq_of_le (hb _ List.mem_cons_self) with hlt | heq
    · exact absurd (hp _ List.mem_cons_self hlt) (by simp)
    · exact heq
  refine ⟨hconn, List.eq_nil_iff_forall_not_mem.mpr ?_⟩
  intro x hx
  have hlt := (List.pairwise_cons.mp ho).1 x hx
  have hle := hb x (List.mem_cons_of_mem _ hx)
  simp only at hlt
  omega

theorem chained_single {op : Op} {st : Status} (hc : t.chain sel = [⟨t.socket.conn, op, st⟩])
    (hl : e.closing ≠ .keep → st = .succeeded → t.socket.isOpen)
    (hi : t.socket.isOpen = false → t.pending = []) : Chained e sel t := by
  constructor
  · simp [hc]
  · simp [hc]
  · simp [hc]
  · intro hk x hx hst
    simp only [hc, List.mem_singleton] at hx
    exact hl hk (by simpa [hx] using hst)
  · exact hi

theorem Chained.start_unselected {op : Op} (hs : Chained e sel s) (hop : sel op = false)
    (data : Bytes) : Chained e sel (s.start op data) := by
  apply hs.of_eq (State.chain_start_unselected hop data) rfl rfl
  intro ho
  have ho : s.socket.isOpen = false := ho
  simp [State.start, ho, hs.idle ho]

theorem chained_turn (hsel : Leading sel) {h : Handler} {rest : List Handler}
    (hs : Chained e sel s) (hr : s.ready = h :: rest) (ht : Turn e { s with ready := rest } h t) :
    Chained e sel t := by
  have hpop := hs.pop hr
  cases ht with
  | stay _ _ hlike => exact hpop.like hlike
  | close _ _ hlike => exact hpop.release.like hlike
  | send ticket pack data _ _ hlike => exact (hpop.start_unselected hsel.write data).like hlike
  | next conn len op op' data _ hnext hlike =>
    by_cases hop : sel op' = true
    · obtain ⟨_, hnil⟩ := hs.chain_last hr (hsel.back op op' hnext hop)
      have hchain := State.chain_start hpop.idle hop data
      rw [hnil, List.nil_append] at hchain
      refine (chained_single hchain ?_ ?_).like hlike
      · intro _ hst
        split at hst <;> cases hst
      · intro ho
        have ho : s.socket.isOpen = false := ho
        simp [State.start, ho, hs.idle ho]
    · exact (hpop.start_unselected (by simpa using hop) data).like hlike
  | found conn len n _ hlike =>
    by_cases hop : sel .proxyRead = true
    · have hback := hsel.back .proxyWrite .proxyRead (by simp [Op.next]) hop
      obtain ⟨_, hnil⟩ := hs.chain_last hr hback
      have hchain := State.chain_queue hnil hop n
      refine (chained_single hchain ?_ hs.idle).like hlike
      intro hk _
      have hmem : (⟨conn, .proxyWrite, .succeeded⟩ : Item) ∈ s.chain sel := by
        rw [State.chain_pop _ hr]
        simp [Handler.item?, hback]
      exact hs.live hk _ hmem rfl
    · have hchain : (State.queue { s with ready := rest } .proxyRead (.success n)).chain sel =
          State.chain { s with ready := rest } sel := by
        simp [State.chain_eq, State.queue, hop, Handler.item?]
      exact (hpop.of_eq hchain rfl rfl hs.idle).like hlike

theorem chained_step (hsel : Leading sel) (hs : Chained e sel s) (hg : Clean e sel s a)
    (h : step e s a = some t) : Chained e sel t := by
  rcases effect_cases (effect_of_step h) with ⟨hu, ho⟩ | ⟨hd, rest, rfl, hr, rfl⟩
  · exact chained_outside hu ho hs
  · by_cases hc : ∃ ticket, hd = .doConnect ticket
    · obtain ⟨ticket, rfl⟩ := hc
      apply chained_realConnect (hs.pop hr)
      intro hk x hx
      apply hg (by simp [connects, hr]) hk
      rw [State.chain_pop _ hr]
      exact List.mem_append_right _ hx
    · exact chained_turn hsel hs hr (turn_of_run hd fun ticket h => hc ⟨ticket, h⟩)

/-! ### The order of the posted tasks -/

/-- Tasks stand in the queue in the order of their posts, and each was posted after the
`do_connect` whose lambda opened the socket. -/
structure Posted (s : State) : Prop where
  sorted : s.posts.Pairwise (· < ·)
  after : ∀ ticket ∈ s.posts, s.born s.socket.conn < ticket ∧ ticket < s.tickets
  born : s.born s.socket.conn < s.tickets

theorem posts_start (op : Op) (data : Bytes) : (s.start op data).posts = s.posts := by
  by_cases ho : s.socket.isOpen = true <;> simp [State.posts, State.start, ho, Handler.ticket?]

theorem posts_release (c : Closing) : (s.release c).posts = s.posts := by
  by_cases ho : s.socket.isOpen = true
  · simp [State.posts, State.release, ho, posts_settle, List.filterMap_map, Function.comp_def,
      Handler.ticket?]
  · simp [State.posts, State.release, ho]

theorem posts_realConnect (ticket : Nat) : (s.realConnect e ticket).posts = s.posts :=
  posts_release (s := s) e.closing

theorem born_realConnect (ticket : Nat) :
    (s.realConnect e ticket).born (s.realConnect e ticket).socket.conn = ticket :=
  Function.update_self ..

theorem posts_turn {h : Handler} (ht : Turn e s h t) :
    t.posts = s.posts ∧ t.tickets = s.tickets ∧ t.born = s.born ∧
      t.socket.conn = s.socket.conn := by
  have hlike {u : State} (hl : Like t u) : t.posts = u.posts := by
    simp only [State.posts, hl.ready]
  cases ht with
  | stay _ _ hl => exact ⟨hlike hl, hl.tickets, hl.born, hl.conn⟩
  | close _ _ hl => exact ⟨(hlike hl).trans (posts_release _), hl.tickets, hl.born, hl.conn⟩
  | send _ _ data _ _ hl => exact ⟨(hlike hl).trans (posts_start ..), hl.tickets, hl.born, hl.conn⟩
  | next _ _ _ _ data _ _ hl =>
    exact ⟨(hlike hl).trans (posts_start ..), hl.tickets, hl.born, hl.conn⟩
  | found _ _ n _ hl =>
    refine ⟨(hlike hl).trans ?_, hl.tickets, hl.born, hl.conn⟩
    simp [State.posts, State.queue, Handler.ticket?]

theorem Posted.pop {h : Handler} {rest : List Handler} (hs : Posted s) (hr : s.ready = h :: rest) :
    Posted { s with ready := rest } ∧ ∀ ticket, h.ticket? = some ticket →
      s.born s.socket.conn < ticket ∧ ticket < s.tickets ∧
        ∀ later ∈ State.posts { s with ready := rest }, ticket < later := by
  have hp : s.posts = h.ticket?.toList ++ State.posts { s with ready := rest } := by
    rw [State.posts, hr, List.filterMap_cons]
    cases h.ticket? <;> rfl
  have hsort := hs.sorted
  have hafter := hs.after
  rw [hp] at hsort hafter
  refine ⟨⟨(List.pairwise_append.mp hsort).2.1,
    fun ticket ht => hafter ticket (List.mem_append_right _ ht), hs.born⟩, ?_⟩
  intro ticket ht
  simp only [ht, Option.toList_some, List.singleton_append] at hsort hafter
  have hfirst := hafter ticket List.mem_cons_self
  exact ⟨hfirst.1, hfirst.2, fun later hl => (List.pairwise_cons.mp hsort).1 later hl⟩

theorem posted_initial (request : Bytes) : Posted (initial request) := by
  constructor <;> simp [State.posts, initial]

theorem posted_step (hs : Posted s) (h : step e s a = some t) : Posted t := by
  rcases effect_cases (effect_of_step h) with ⟨hu, ho⟩ | ⟨hd, rest, rfl, hr, rfl⟩
  · have hsame (hp : t.posts = s.posts) (ht : t.tickets = s.tickets) : Posted t := by
      constructor
      · rw [hp]
        exact hs.sorted
      · rw [hp, hu.born, hu.conn, ht]
        exact hs.after
      · rw [hu.born, hu.conn, ht]
        exact hs.born
    cases ho with
    | same hready ht _ => exact hsame (by simp only [State.posts, hready]) ht
    | finish l r p res _ _ hready ht =>
      exact hsame (by simp [State.posts, hready, Handler.ticket?]) ht
    | post hd _ htk hready ht _ =>
      have hp : t.posts = s.posts ++ [s.tickets] := by simp [State.posts, hready, htk]
      constructor
      · rw [hp]
        refine List.pairwise_append.mpr ⟨hs.sorted, by simp, ?_⟩
        intro ticket hm later hl
        obtain rfl := List.mem_singleton.mp hl
        exact (hs.after ticket hm).2
      · rw [hp, hu.born, hu.conn, ht]
        intro ticket hm
        rcases List.mem_append.mp hm with hm | hm
        · exact ⟨(hs.after ticket hm).1, Nat.lt_succ_of_lt (hs.after ticket hm).2⟩
        · obtain rfl := List.mem_singleton.mp hm
          exact ⟨hs.born, Nat.lt_succ_self _⟩
      · rw [hu.born, hu.conn, ht]
        exact Nat.lt_succ_of_lt hs.born
  · obtain ⟨hpop, hfront⟩ := hs.pop hr
    by_cases hc : ∃ ticket, hd = .doConnect ticket
    · obtain ⟨ticket, rfl⟩ := hc
      obtain ⟨_, hlt, hlater⟩ := hfront ticket rfl
      simp only [State.runHandler]
      constructor
      · rw [posts_realConnect]
        exact hpop.sorted
      · rw [posts_realConnect, born_realConnect]
        exact fun later hl => ⟨hlater later hl, (hpop.after later hl).2⟩
      · rw [born_realConnect]
        exact hlt
    · obtain ⟨hp, ht, hb, hk⟩ := posts_turn (turn_of_run hd fun ticket h => hc ⟨ticket, h⟩)
      constructor
      · rw [hp]
        exact hpop.sorted
      · rw [hp, hb, hk, ht]
        exact hpop.after
      · rw [hb, hk, ht]
        exact hpop.born

end NetworkUtility.EtcpClient
