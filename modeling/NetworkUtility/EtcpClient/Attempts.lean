import Mathlib.Data.List.Chain
import NetworkUtility.EtcpClient.Chain

/-! Each `real_connect` leads to at most one `on_etcp_connect` and to one `on_etcp_close` behind it,
when closing a socket leaves no completion of it to run as a success. -/
namespace NetworkUtility.EtcpClient

open Etcp Machine

variable {e : Env} {s t : State} {a : Action} {request : Bytes} {as : List Action}
  {xs : List Item} {x y : Item} {closed : Bool} {owner cur k : Nat}

inductive Mark
  | connect
  | close
  deriving DecidableEq, Repr

def Callback.mark? : Callback → Option Mark
  | .connect => some .connect
  | .close => some .close
  | _ => none

/-- The connects and closes called back so far, with their connections. -/
def State.marks (s : State) : List (Nat × Mark) :=
  s.log.filterMap fun (conn, c) => c.mark?.map fun m => (conn, m)

/-- Those of one connection. -/
def marksOf (k : Nat) (marks : List (Nat × Mark)) : List Mark :=
  (marks.filter (·.1 = k)).map (·.2)

def readOp (op : Op) : Bool := op == .readHead || op == .readBody

/-- What a connection has called back while the handler of `x` is still to run. -/
def expected (closed : Bool) (x : Item) : List Mark :=
  (if readOp x.op then [.connect] else []) ++ if closed && x.op != .connect then [.close] else []

/-- The callbacks go with the chain: its first handler is of the connection that `m_closed` is
about, all others are still connecting. -/
structure Tracked (xs : List Item) (closed : Bool) (owner cur : Nat) (marks : List (Nat × Mark)) :
    Prop where
  later : ∀ x ∈ xs.tail, x.op = .connect
  running : closed = false → ∃ x ∈ xs.head?, x.op ≠ .connect ∧ x.conn = owner
  shut : closed = true → ∀ x ∈ xs.head?, x.op ≠ .connect → x.status = .failed
  due : ∀ x ∈ xs, marksOf x.conn marks = expected closed x
  ended : ∀ k, 0 < k → k ≤ cur → (∀ x ∈ xs, x.conn ≠ k) →
    marksOf k marks = [.close] ∨ marksOf k marks = [.connect, .close]
  fresh : ∀ k, cur < k → marksOf k marks = []
  turns : (marks.map (·.2)).IsChain fun m n => ¬ (m = .connect ∧ n = .connect)
  last : (marks.map (·.2)).getLast? = some .connect →
    closed = false ∧ ∃ x ∈ xs.head?, readOp x.op = true

variable {marks : List (Nat × Mark)}

@[simp] theorem marksOf_append (k : Nat) (ms ns : List (Nat × Mark)) :
    marksOf k (ms ++ ns) = marksOf k ms ++ marksOf k ns := by
  simp [marksOf]

@[simp] theorem marksOf_nil (k : Nat) : marksOf k [] = [] := rfl

@[simp] theorem marksOf_self (k : Nat) (m : Mark) : marksOf k [(k, m)] = [m] := by
  simp [marksOf]

theorem marksOf_ne {j : Nat} (h : j ≠ k) (m : Mark) : marksOf k [(j, m)] = [] := by
  simp [marksOf, h]

theorem turns_close (h : (marks.map (·.2)).IsChain fun m n => ¬ (m = Mark.connect ∧ n = Mark.connect))
    (k : Nat) :
    ((marks ++ [(k, Mark.close)]).map (·.2)).IsChain fun m n => ¬ (m = .connect ∧ n = .connect) := by
  rw [List.map_append]
  apply h.append (List.isChain_singleton _)
  intro m _ n hn hmn
  obtain rfl : Mark.close = n := by simpa using hn
  cases hmn.2

/-- Handlers may fail or be completed in their places. -/
theorem Tracked.map {f : Item → Item} (h : Tracked xs closed owner cur marks)
    (hconn : ∀ x, (f x).conn = x.conn) (hop : ∀ x, (f x).op = x.op)
    (hfail : ∀ x ∈ xs, x.status = .failed → (f x).status = .failed) :
    Tracked (xs.map f) closed owner cur marks := by
  have hhead : ∀ y ∈ (xs.map f).head?, ∃ x ∈ xs.head?, y = f x := by
    intro y hy
    rw [List.head?_map] at hy
    obtain ⟨x, hx, rfl⟩ := Option.map_eq_some_iff.mp hy
    exact ⟨x, hx, rfl⟩
  have hmem : ∀ x ∈ xs.head?, f x ∈ (xs.map f).head? := by
    intro x hx
    rw [List.head?_map]
    exact Option.mem_map_of_mem f hx
  constructor
  · intro y hy
    rw [← List.map_tail] at hy
    obtain ⟨x, hx, rfl⟩ := List.mem_map.mp hy
    rw [hop]
    exact h.later x hx
  · intro hc
    obtain ⟨x, hx, hne, ho⟩ := h.running hc
    exact ⟨f x, hmem x hx, by rwa [hop], by rwa [hconn]⟩
  · intro hc y hy
    obtain ⟨x, hx, rfl⟩ := hhead y hy
    rw [hop]
    intro hne
    exact hfail x (List.mem_of_head? hx) (h.shut hc x hx hne)
  · intro y hy
    obtain ⟨x, hx, rfl⟩ := List.mem_map.mp hy
    rw [hconn, h.due x hx, expected, expected, hop]
  · intro k h0 hk hnone
    exact h.ended k h0 hk fun x hx => hconn x ▸ hnone (f x) (List.mem_map_of_mem hx)
  · exact h.fresh
  · exact h.turns
  · intro hl
    obtain ⟨hc, x, hx, hr⟩ := h.last hl
    exact ⟨hc, f x, hmem x hx, by rwa [hop]⟩

/-- The next attempt starts. -/
theorem Tracked.snoc (h : Tracked xs closed owner cur marks) (hb : ∀ x ∈ xs, x.conn ≤ cur)
    (st : Status) : Tracked (xs ++ [⟨cur + 1, .connect, st⟩]) closed owner (cur + 1) marks := by
  have hhead : ∀ x ∈ xs.head?, x ∈ (xs ++ [(⟨cur + 1, .connect, st⟩ : Item)]).head? := by
    intro x hx
    simp_all [List.head?_append]
  constructor
  · intro x hx
    cases xs with
    | nil => simp at hx
    | cons y ys =>
      rcases List.mem_append.mp hx with hx | hx
      · exact h.later x hx
      · obtain rfl := List.mem_singleton.mp hx
        rfl
  · intro hc
    obtain ⟨x, hx, hne⟩ := h.running hc
    exact ⟨x, hhead x hx, hne⟩
  · intro hc x hx hne
    cases xs with
    | nil =>
      obtain rfl : _ = x := by simpa using hx
      exact absurd rfl hne
    | cons y ys => exact h.shut hc x (by simpa using hx) hne
  · intro x hx
    rcases List.mem_append.mp hx with hx | hx
    · exact h.due x hx
    · obtain rfl := List.mem_singleton.mp hx
      simpa [expected, readOp] using h.fresh _ (Nat.lt_succ_self cur)
  · intro k h0 hk hnone
    have hne : cur + 1 ≠ k := hnone _ (List.mem_append_right _ List.mem_cons_self)
    exact h.ended k h0 (by omega) fun x hx => hnone x (List.mem_append_left _ hx)
  · intro k hk
    exact h.fresh k (by omega)
  · exact h.turns
  · intro hl
    obtain ⟨hc, x, hx, hr⟩ := h.last hl
    exact ⟨hc, x, hhead x hx, hr⟩

/-- The posted close runs while no handler is left to succeed. -/
theorem Tracked.close (h : Tracked xs closed owner cur marks)
    (hall : ∀ x ∈ xs, x.status = .failed) (hb : ∀ x ∈ xs, x.conn ≤ cur)
    (ho : xs.Pairwise (·.conn < ·.conn)) :
    Tracked xs true owner cur (marks ++ if closed then [] else [(owner, .close)]) := by
  cases hcl : closed with
  | true => simpa [hcl] using h
  | false =>
    obtain ⟨x, hx, hne, rfl⟩ := h.running hcl
    obtain ⟨ys, rfl⟩ : ∃ ys, xs = x :: ys := List.head?_eq_some_iff.mp hx
    have hlt := (List.pairwise_cons.mp ho).1
    constructor
    · exact h.later
    · intro hf
      cases hf
    · intro _ y hy _
      exact hall y (List.mem_of_head? hy)
    · intro y hy
      have hd := h.due y hy
      rw [hcl] at hd
      rcases List.mem_cons.mp hy with rfl | hy
      · simp [hd, expected, hne]
      · have hop := h.later y hy
        have hlt := hlt y hy
        simp [hd, expected, hop, marksOf_ne (Nat.ne_of_lt hlt)]
    · intro k h0 hk hnone
      have hne : x.conn ≠ k := hnone x List.mem_cons_self
      simpa [marksOf_ne hne] using h.ended k h0 hk hnone
    · intro k hk
      have hle := hb x List.mem_cons_self
      simp [h.fresh k hk, marksOf_ne (show x.conn ≠ k by omega)]
    · exact turns_close h.turns _
    · intro hl
      simp at hl

/-- The first handler ends its attempt: a failed connect, after `m_closed` was cleared for it, or
any other handler. -/
theorem Tracked.finish (h : Tracked (x :: xs) closed owner cur marks) (hb : x.conn ≤ cur)
    (ho : (x :: xs).Pairwise (·.conn < ·.conn)) (hw : x.op ≠ .write) (owner' : Nat) :
    Tracked xs true owner' cur
      (marks ++ if closed && x.op != .connect then [] else [(x.conn, .close)]) := by
  have hlt := (List.pairwise_cons.mp ho).1
  have hother : ∀ k, k ≠ x.conn → marksOf k
      (marks ++ if closed && x.op != .connect then [] else [(x.conn, .close)]) = marksOf k marks := by
    intro k hk
    split <;> simp [marksOf_ne hk.symm]
  constructor
  · intro y hy
    exact h.later y (List.mem_of_mem_tail hy)
  · intro hf
    cases hf
  · intro _ y hy hne
    exact absurd (h.later y (List.mem_of_head? hy)) hne
  · intro y hy
    rw [hother _ (Nat.ne_of_gt (hlt y hy)), h.due y (List.mem_cons_of_mem _ hy)]
    simp [expected, h.later y hy]
  · intro k h0 hk hnone
    by_cases hkx : k = x.conn
    · subst hkx
      rw [marksOf_append, h.due x List.mem_cons_self]
      cases hcl : closed <;> cases hop : x.op <;> simp_all [expected, readOp]
    · rw [hother k hkx]
      apply h.ended k h0 hk
      intro y hy
      rcases List.mem_cons.mp hy with rfl | hy
      · exact Ne.symm hkx
      · exact hnone y hy
  · intro k hk
    rw [hother k (by omega)]
    exact h.fresh k hk
  · split
    · simpa using h.turns
    · exact turns_close h.turns _
  · intro hl
    split at hl
    · next hc =>
      have hfalse := (h.last (by simpa using hl)).1
      simp [hfalse] at hc
    · simp at hl

/-- The first handler succeeds and starts the next operation of its connection. -/
theorem Tracked.next (h : Tracked [x] closed owner cur marks) (hs : x.status = .succeeded)
    (hc : y.conn = x.conn) (hb : x.conn ≤ cur) (hy : y.op ≠ .connect)
    (hr : readOp x.op = true → readOp y.op = true) :
    Tracked [y] false x.conn cur
      (marks ++ if readOp y.op && ! readOp x.op then [(x.conn, .connect)] else []) := by
  -- a handler behind the connect succeeds only while `m_closed` is false
  have hclosed : closed = true → x.op = .connect := by
    intro hcl
    by_contra hne
    have hf := h.shut hcl x rfl hne
    simp [hs] at hf
  have hother : ∀ k, k ≠ x.conn → marksOf k
      (marks ++ if readOp y.op && ! readOp x.op then [(x.conn, Mark.connect)] else []) =
        marksOf k marks := by
    intro k hk
    split <;> simp [marksOf_ne hk.symm]
  constructor
  · intro z hz
    cases hz
  · intro _
    exact ⟨y, rfl, hy, hc⟩
  · intro hf
    cases hf
  · intro z hz
    obtain rfl := List.mem_singleton.mp hz
    rw [hc, marksOf_append, h.due x List.mem_cons_self]
    cases hcl : closed with
    | true =>
      have hx := hclosed hcl
      have hrc : readOp .connect = false := rfl
      cases hz : readOp z.op <;> simp [expected, hrc, hx, hz]
    | false => cases hz : readOp z.op <;> cases hx : readOp x.op <;> simp_all [expected]
  · intro k h0 hk hnone
    have hne : x.conn ≠ k := hc ▸ hnone y List.mem_cons_self
    rw [hother k hne.symm]
    apply h.ended k h0 hk
    intro z hz
    obtain rfl := List.mem_singleton.mp hz
    exact hne
  · intro k hk
    rw [hother k (by omega)]
    exact h.fresh k hk
  · split
    · next hnew =>
      rw [List.map_append]
      apply h.turns.append (List.isChain_singleton _)
      intro m hm n hn hmn
      obtain ⟨rfl, _⟩ := hmn
      obtain ⟨_, z, hz, hread⟩ := h.last hm
      obtain rfl : x = z := by simpa using hz
      simp [hread] at hnew
    · simpa using h.turns
  · intro hl
    refine ⟨rfl, y, rfl, ?_⟩
    split at hl
    · next hnew => simp_all
    · obtain ⟨_, z, hz, hread⟩ := h.last (by simpa using hl)
      obtain rfl : x = z := by simpa using hz
      exact hr hread

/-! ### The client keeps the callbacks with the chain -/

/-- The handlers left to run, the flag and the callbacks of a state go together. -/
structure Attempts (e : Env) (s : State) : Prop where
  chained : Chained e mainOp s
  tracked : Tracked (s.chain mainOp) s.closed s.owner s.socket.conn s.marks

theorem attempts_outside (hs : Attempts e s) (hu : Unmoved t s) (h : Outside s t) :
    Tracked (t.chain mainOp) t.closed t.owner t.socket.conn t.marks := by
  have hsame (hc : t.chain mainOp = s.chain mainOp) :
      Tracked (t.chain mainOp) t.closed t.owner t.socket.conn t.marks := by
    simp only [hc, hu.closed, hu.owner, hu.conn, State.marks, hu.log]
    exact hs.tracked
  cases h with
  | same hr _ hops => exact hsame (State.chain_congr hr hops hu.conn)
  | post h hi _ hr _ hpend =>
    apply hsame
    rw [State.chain_eq, State.chain_eq, hr, hpend, hu.conn]
    simp [hi]
  | finish l r p res hl hpend hr =>
    obtain ⟨st, _, hmap⟩ := chain_finish_map hs.chained.ordered hl hpend hr hu.conn
    rw [hmap]
    simp only [hu.closed, hu.owner, hu.conn, State.marks, hu.log]
    apply hs.tracked.map
    · intro x
      split <;> simp_all
    · intro x
      split <;> simp_all
    · intro x _ hf
      split <;> simp_all

/-- The callbacks of `onClose`. -/
theorem marks_onClose (s : State) :
    s.onClose.marks = s.marks ++ if s.closed then [] else [(s.owner, .close)] := by
  cases hc : s.closed <;> simp [State.marks, State.onClose, hc, Callback.mark?]

@[simp] theorem marks_onError (k : Nat) (action message : String) :
    (s.onError k action message).marks = s.marks := by
  simp [State.marks, State.onError, Callback.mark?]

/-- The callbacks of the branches that give an error, close the socket and call `on_close`. -/
theorem marks_fail (s : State) (k : Nat) (action message : String) :
    ((s.onError k action message).realClose e).onClose.marks =
      s.marks ++ if s.closed then [] else [(s.owner, .close)] := by
  have hm : ((s.onError k action message).realClose e).marks = s.marks := marks_onError k action message
  rw [marks_onClose, hm]
  rfl

theorem attempts_initial (request : Bytes) : Attempts e (initial request) := by
  refine ⟨chained_initial request, ?_⟩
  have hnil : (initial request).chain mainOp = [] := rfl
  rw [hnil]
  constructor
  · intro x hx
    cases hx
  · intro hc
    cases hc
  · intro _ x hx
    cases hx
  · intro x hx
    cases hx
  · intro k h0 hk
    exact absurd h0 (Nat.not_lt_of_le hk)
  · intro k _
    rfl
  · exact List.isChain_nil
  · intro hl
    cases hl

/-- `real_close` keeps the callbacks with the chain. -/
theorem Attempts.release (hs : Attempts e s) : Attempts e (s.release e.closing) := by
  refine ⟨hs.chained.release, ?_⟩
  rw [hs.chained.chain_release]
  split
  · apply hs.tracked.map
    · exact conn_settled _ _
    · exact op_settled _ _
    · intro x _ hf
      exact settled_of_failed hf
  · exact hs.tracked

/-- The lambda of `do_close`. -/
theorem attempts_runClose (hk : e.closing ≠ .keep) (hs : Attempts e s) :
    Attempts e (s.runClose e) := by
  unfold State.runClose
  split
  · have hr := hs.release
    have hfail := hs.chained.all_failed fun h => absurd h hk
    have htr := hr.tracked.close hfail hr.chained.bounded hr.chained.ordered
    refine ⟨hr.chained.of_eq rfl rfl rfl hr.chained.idle, ?_⟩
    rw [marks_onClose]
    exact htr
  · exact hs

theorem attempts_realConnect (hk : e.closing ≠ .keep) (hs : Attempts e s) (ticket : Nat) :
    Attempts e (s.realConnect e ticket) := by
  refine ⟨chained_realConnect hs.chained ticket fun h => absurd h hk, ?_⟩
  rw [chain_realConnect hs.chained]
  exact hs.release.tracked.snoc hs.release.chained.bounded _

/-- What the first handler leaves to the others. -/
abbrev Follows (t : State) : Prop :=
  Tracked (t.chain mainOp) t.closed t.owner t.socket.conn t.marks

section Front

variable {rest : List Handler} {conn len : Nat} {op : Op} {res : Result}

theorem Attempts.front (hs : Attempts e s) (hr : s.ready = .complete conn op res :: rest)
    (hm : mainOp op = true) :
    ∃ st, (Handler.complete conn op res).item? = some ⟨conn, op, st⟩ ∧
      s.chain mainOp = ⟨conn, op, st⟩ :: State.chain { s with ready := rest } mainOp ∧
      Tracked (⟨conn, op, st⟩ :: State.chain { s with ready := rest } mainOp) s.closed s.owner
        s.socket.conn s.marks := by
  obtain ⟨st, _, hitem⟩ := item_complete conn op res
  have hpop := State.chain_pop mainOp hr
  simp only [hitem, Option.toList_some, List.filter_cons, hm, if_true, List.filter_nil,
    List.singleton_append] at hpop
  have ht := hs.tracked
  rw [hpop] at ht
  exact ⟨st, hitem, hpop, ht⟩

/-- Its handler closes the connection, unless that was done. -/
theorem Attempts.leave (hs : Attempts e s) (hr : s.ready = .complete conn op res :: rest)
    (hm : mainOp op = true) (hop : op ≠ .connect)
    (hchain : t.chain mainOp = State.chain { s with ready := rest } mainOp ∨
      t.chain mainOp = (State.release e.closing { s with ready := rest }).chain mainOp)
    (hconn : t.socket.conn = s.socket.conn) (hclosed : t.closed = true)
    (hmarks : t.marks = s.marks ++ if s.closed then [] else [(s.owner, .close)]) : Follows t := by
  obtain ⟨st, _, hpop, htr⟩ := hs.front hr hm
  have hb := hs.chained.bounded
  have ho := hs.chained.ordered
  rw [hpop] at hb ho
  have hfin := htr.finish (hb _ List.mem_cons_self) ho (by simpa [mainOp] using hm) t.owner
  have hsame : (if s.closed && op != .connect then [] else [(conn, Mark.close)]) =
      if s.closed then [] else [(s.owner, Mark.close)] := by
    cases hc : s.closed with
    | true => simp [hop]
    | false =>
      obtain ⟨x, hx, _, hown⟩ := htr.running hc
      obtain rfl : _ = x := by simpa using hx
      simp [← hown]
  rw [hsame, ← hmarks] at hfin
  unfold Follows
  rw [hclosed, hconn]
  rcases hchain with hchain | hchain
  · rw [hchain]
    exact hfin
  · rw [hchain, (hs.chained.pop hr).chain_release]
    split
    · exact hfin.map (conn_settled _ _) (op_settled _ _) fun x _ hf => settled_of_failed hf
    · exact hfin

/-- Its handler starts the next operation. -/
theorem Attempts.proceed (op' : Op) (st : Status) (hs : Attempts e s)
    (hr : s.ready = .complete conn op (.success len) :: rest) (hop : op' ∈ op.next)
    (hm : mainOp op' = true)
    (hchain : t.chain mainOp = State.chain { s with ready := rest } mainOp ++
      [⟨s.socket.conn, op', st⟩])
    (hconn : t.socket.conn = s.socket.conn) (hclosed : t.closed = false) (howner : t.owner = conn)
    (hmarks : t.marks = s.marks ++
      if readOp op' && ! readOp op then [(conn, .connect)] else []) : Follows t := by
  have hback := leading_mainOp.back op op' hop hm
  obtain ⟨hcur, hnil⟩ := hs.chained.chain_last hr hback
  obtain ⟨st', hitem, hpop, htr⟩ := hs.front hr hback
  obtain rfl : Status.succeeded = st' := by simpa [Handler.item?] using hitem
  rw [hnil] at htr
  have hb := hs.chained.bounded
  rw [hpop] at hb
  unfold Follows
  rw [hchain, hnil, hconn, hclosed, howner, hmarks]
  have hnext := htr.next (y := ⟨s.socket.conn, op', st⟩) rfl hcur.symm (hb _ List.mem_cons_self)
  apply hnext
  · cases op <;> simp_all [Op.next] <;> rcases hop with rfl | rfl <;> simp
  · cases op <;> simp_all [Op.next, readOp]

/-- Behind the connect, a handler succeeds only for the connection that is not closed yet. -/
theorem Attempts.running (hs : Attempts e s)
    (hr : s.ready = .complete conn op (.success len) :: rest) (hm : mainOp op = true)
    (hop : op ≠ .connect) : s.closed = false ∧ s.owner = conn := by
  obtain ⟨st, hitem, _, htr⟩ := hs.front hr hm
  obtain rfl : Status.succeeded = st := by simpa [Handler.item?] using hitem
  have hclosed : s.closed = false := by
    by_contra hc
    have hf := htr.shut (by simpa using hc) _ rfl hop
    cases hf
  obtain ⟨x, hx, _, hown⟩ := htr.running hclosed
  obtain rfl : _ = x := by simpa using hx
  exact ⟨hclosed, hown.symm⟩

/-- A handler that starts `op'` on the socket of its connection. -/
theorem Attempts.proceed_start (op' : Op) (data : Bytes) {u : State} (hs : Attempts e s)
    (hr : s.ready = .complete conn op (.success len) :: rest) (hop : op' ∈ op.next)
    (hm : mainOp op' = true) (hready : u.ready = rest) (hpending : u.pending = s.pending)
    (hsocket : u.socket.conn = s.socket.conn ∧ u.socket.isOpen = s.socket.isOpen)
    (hchain : t.chain mainOp = (u.start op' data).chain mainOp)
    (hconn : t.socket.conn = s.socket.conn) (hclosed : t.closed = false) (howner : t.owner = conn)
    (hmarks : t.marks = s.marks ++
      if readOp op' && ! readOp op then [(conn, .connect)] else []) : Follows t := by
  have hu : u.chain mainOp = State.chain { s with ready := rest } mainOp :=
    State.chain_congr hready (by rw [hpending]) hsocket.1
  have hidle : u.socket.isOpen = false → u.pending = [] := by
    rw [hsocket.2, hpending]
    exact hs.chained.idle
  rw [State.chain_start hidle hm, hu, hsocket.1] at hchain
  exact hs.proceed op' _ hr hop hm hchain hconn hclosed howner hmarks

theorem follows_onConnected (hs : Attempts e s) (hr : s.ready = .complete conn .connect res :: rest) :
    Follows (State.onConnected e { s with ready := rest } conn res) := by
  cases res with
  | failure err =>
    obtain ⟨st, _, hpop, htr⟩ := hs.front hr rfl
    have hb := hs.chained.bounded
    have ho := hs.chained.ordered
    rw [hpop] at hb ho
    have hfin := htr.finish (hb _ List.mem_cons_self) ho (by simp) conn
    simp only [bne_self_eq_false, Bool.and_false, Bool.false_eq_true, if_false] at hfin
    have hmarks : (State.onConnected e { s with ready := rest } conn (.failure err)).marks =
        s.marks ++ [(conn, .close)] := by
      simp only [State.onConnected, marks_onClose, marks_onError]
      rfl
    unfold Follows
    rw [hmarks]
    exact hfin
  | success len =>
    by_cases hreq : s.request ≠ []
    · have heq : State.onConnected e { s with ready := rest } conn (.success len) =
          State.doProxy { s with ready := rest, closed := false, owner := conn } := by
        simp [State.onConnected, hreq]
      rw [heq]
      refine hs.proceed_start .proxyWrite s.request hr (by simp [Op.next]) rfl
        (u := { s with ready := rest }) rfl rfl ⟨rfl, rfl⟩ (State.chain_congr rfl rfl rfl) rfl rfl
        rfl ?_
      simp [State.marks, State.doProxy, State.startWrite, State.start, readOp]
    · have heq : State.onConnected e { s with ready := rest } conn (.success len) =
          (State.doRead { s with ready := rest, closed := false, owner := conn }).onConnect conn := by
        simp [State.onConnected, hreq]
      rw [heq]
      refine hs.proceed_start .readHead [] hr (by simp [Op.next]) rfl
        (u := { s with ready := rest }) rfl rfl ⟨rfl, rfl⟩ (State.chain_congr rfl rfl rfl) rfl rfl
        rfl ?_
      simp [State.marks, State.doRead, State.onConnect, State.start, readOp, Callback.mark?]

theorem follows_onProxyWritten (hs : Attempts e s)
    (hr : s.ready = .complete conn .proxyWrite res :: rest) :
    Follows (State.onProxyWritten e { s with ready := rest } conn res) := by
  cases res with
  | failure err =>
    exact hs.leave hr rfl (by decide) (Or.inr (State.chain_congr rfl rfl rfl)) rfl rfl
      (marks_fail _ conn _ _)
  | success len =>
    obtain ⟨hclosed, howner⟩ := hs.running hr rfl (by decide)
    simp only [State.onProxyWritten, State.readUntil]
    split
    · next n hfound =>
      refine hs.proceed .proxyRead .succeeded hr (by simp [Op.next]) rfl ?_ rfl
        hclosed howner ?_
      · obtain ⟨_, hnil⟩ := hs.chained.chain_last hr rfl
        have hsel : mainOp .proxyRead = true := rfl
        have hq := State.chain_queue hnil hsel n
        rw [hnil]
        exact hq
      · simp [State.marks, readOp]
    · refine hs.proceed_start .proxyRead [] hr (by simp [Op.next]) rfl
        (u := { s with ready := rest }) rfl rfl ⟨rfl, rfl⟩ rfl rfl hclosed howner ?_
      simp [State.marks, State.start, readOp]

theorem follows_onProxyRead (hs : Attempts e s)
    (hr : s.ready = .complete conn .proxyRead res :: rest) :
    Follows (State.onProxyRead e { s with ready := rest } conn res) := by
  cases res with
  | failure err =>
    exact hs.leave hr rfl (by decide) (Or.inr (State.chain_congr rfl rfl rfl)) rfl rfl
      (marks_fail _ conn _ _)
  | success len =>
    obtain ⟨hclosed, howner⟩ := hs.running hr rfl (by decide)
    simp only [State.onProxyRead]
    split
    · refine hs.proceed_start .readHead [] hr (by simp [Op.next]) rfl
        (u := { s with ready := rest }) rfl rfl ⟨rfl, rfl⟩ (State.chain_congr rfl rfl rfl) rfl
        hclosed howner ?_
      simp [State.marks, State.doRead, State.onConnect, State.start, readOp, Callback.mark?]
    · exact hs.leave hr rfl (by decide) (Or.inr (State.chain_congr rfl rfl rfl)) rfl rfl
        (marks_fail _ conn _ _)

theorem follows_onReadHead (hs : Attempts e s)
    (hr : s.ready = .complete conn .readHead res :: rest) :
    Follows (State.onReadHead e { s with ready := rest } conn res) := by
  cases res with
  | failure err => exact hs.leave hr rfl (by decide) (Or.inl rfl) rfl rfl (marks_onClose _)
  | success len =>
    obtain ⟨hclosed, howner⟩ := hs.running hr rfl (by decide)
    simp only [State.onReadHead]
    split
    · exact hs.leave hr rfl (by decide) (Or.inr (State.chain_congr rfl rfl rfl)) rfl rfl
        (marks_fail _ conn _ _)
    · refine hs.proceed_start .readHead [] hr (by simp [Op.next]) rfl
        (u := { s with ready := rest }) rfl rfl ⟨rfl, rfl⟩ (State.chain_congr rfl rfl rfl) rfl
        hclosed howner ?_
      simp [State.marks, State.doRead, State.start, readOp]
    · refine hs.proceed_start .readBody [] hr (by simp [Op.next]) rfl
        (u := { s with ready := rest }) rfl rfl ⟨rfl, rfl⟩ (State.chain_congr rfl rfl rfl) rfl
        hclosed howner ?_
      simp [State.marks, State.start, readOp]

theorem follows_onReadBody (hs : Attempts e s)
    (hr : s.ready = .complete conn .readBody res :: rest) :
    Follows (State.onReadBody { s with ready := rest } conn res) := by
  cases res with
  | failure err => exact hs.leave hr rfl (by decide) (Or.inl rfl) rfl rfl (marks_onClose _)
  | success len =>
    obtain ⟨hclosed, howner⟩ := hs.running hr rfl (by decide)
    refine hs.proceed_start .readHead [] hr (by simp [Op.next]) rfl
      (u := { s with ready := rest }) rfl rfl ⟨rfl, rfl⟩ (State.chain_congr rfl rfl rfl) rfl
      hclosed howner ?_
    simp [State.marks, State.onReadBody, State.doRead, State.start, readOp, Callback.mark?]

end Front

/-- A handler outside the chain leaves it as it is. -/
theorem Attempts.pop {h : Handler} {rest : List Handler} (hs : Attempts e s)
    (hr : s.ready = h :: rest) (hm : h.item?.toList.filter (mainOp ·.op) = []) :
    Attempts e { s with ready := rest } := by
  refine ⟨hs.chained.pop hr, ?_⟩
  have hpop := State.chain_pop mainOp hr
  rw [hm, List.nil_append] at hpop
  have htr := hs.tracked
  rw [hpop] at htr
  exact htr

theorem follows_doWrite (h : Follows s) : Follows s.doWrite := by
  unfold State.doWrite
  split
  · exact h
  · next data rest hl =>
    have hsel : mainOp .write = false := rfl
    have hc := State.chain_start_unselected (s := s) hsel data
    unfold Follows at h ⊢
    rw [← hc] at h
    exact h

theorem follows_runSend (h : Follows s) (pack : Bytes) : Follows (s.runSend e pack) := by
  simp only [State.runSend]
  split
  · split
    · exact follows_doWrite (s := { s with sendDataList := pushMessage e.order s.sendDataList pack }) h
    · exact h
  · exact h

theorem follows_onWritten (h : Follows s) (res : Result) : Follows (s.onWritten res) := by
  cases res with
  | failure err => exact h
  | success len =>
    simp only [State.onWritten]
    split
    · exact follows_doWrite (s := { s with sendDataList := s.sendDataList.tail }) h
    · exact h

theorem attempts_step (hk : e.closing ≠ .keep) (hs : Attempts e s) (h : step e s a = some t) :
    Attempts e t := by
  have hclean : Clean e mainOp s a := fun _ hkeep => absurd hkeep hk
  refine ⟨chained_step leading_mainOp hs.chained hclean h, ?_⟩
  rcases effect_cases (effect_of_step h) with ⟨hu, ho⟩ | ⟨hd, rest, rfl, hr, rfl⟩
  · exact attempts_outside hs hu ho
  · cases hd with
    | doConnect ticket => exact (attempts_realConnect hk (hs.pop hr rfl) ticket).tracked
    | doClose ticket => exact (attempts_runClose hk (hs.pop hr rfl)).tracked
    | sendMessage ticket pack => exact follows_runSend (hs.pop hr rfl).tracked pack
    | complete conn op res =>
      cases op with
      | connect => exact follows_onConnected hs hr
      | proxyWrite => exact follows_onProxyWritten hs hr
      | proxyRead => exact follows_onProxyRead hs hr
      | readHead => exact follows_onReadHead hs hr
      | readBody => exact follows_onReadBody hs hr
      | write =>
        have hm : (Handler.complete conn .write res).item?.toList.filter (mainOp ·.op) = [] := by
          cases res <;> rfl
        exact follows_onWritten (hs.pop hr hm).tracked res

theorem attempts_run (hk : e.closing ≠ .keep)
    (h : Run (step e) Free (initial request) as s) : Attempts e s :=
  h.invariant _ (fun _ _ _ hs _ hst => attempts_step hk hs hst) (attempts_initial request)

/-- Attempt `k` has called back in order, and completely once none of its handlers is left. -/
def ClosedOnce (s : State) (k : Nat) : Prop :=
  marksOf k s.marks ∈ [[], [.connect], [.close], [.connect, .close]] ∧
    ((∀ x ∈ s.items, x.conn ≠ k) →
      marksOf k s.marks = [.close] ∨ marksOf k s.marks = [.connect, .close])

theorem closedOnce_of_attempts (hs : Attempts e s) (h0 : 0 < k) (hk : k ≤ s.socket.conn) :
    ClosedOnce s k := by
  by_cases hx : ∃ x ∈ s.chain mainOp, x.conn = k
  · obtain ⟨x, hx, rfl⟩ := hx
    refine ⟨?_, fun hnone => absurd rfl (hnone x (List.mem_of_mem_filter hx))⟩
    rw [hs.tracked.due x hx]
    unfold expected
    split <;> split <;> simp
  · have hover := hs.tracked.ended k h0 hk fun x hm hc => hx ⟨x, hm, hc⟩
    refine ⟨?_, fun _ => hover⟩
    rcases hover with h | h <;> simp [h]

/-- When no success is carried across a close, each `real_connect` has at most one connect and at
most one close, in this order, and the close once its handlers have run; between two connects
there is always a close. -/
theorem exactly_one_close (hk : e.closing ≠ .keep)
    (h : Run (step e) Free (initial request) as s) :
    (∀ k, 0 < k → k ≤ s.socket.conn → ClosedOnce s k) ∧
      (s.marks.map (·.2)).IsChain fun m n => ¬ (m = .connect ∧ n = .connect) :=
  have hs := attempts_run hk h
  ⟨fun _ h0 hk => closedOnce_of_attempts hs h0 hk, hs.tracked.turns⟩

/-- Two attempts, the first replaced while it is being read. -/
theorem exactly_one_close_example :
    ∃ as s, Run (step ⟨.big, .requeue, fun _ => ""⟩) Free (initial []) as s ∧
      s.marks = [(1, .connect), (1, .close), (2, .connect)] ∧ ClosedOnce s 1 :=
  have h := run_exec (step ⟨.big, .requeue, fun _ => ""⟩) Free (initial [])
    [.callConnect, .post 0, .run, .connected 0, .run, .callConnect, .post 0, .post 0, .run, .run,
      .run, .connected 0, .run] (by decide)
  ⟨_, _, h, by decide, (exactly_one_close (by decide) h).1 1 (by decide) (by decide)⟩

end NetworkUtility.EtcpClient
