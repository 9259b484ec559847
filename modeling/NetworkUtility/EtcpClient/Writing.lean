import NetworkUtility.EtcpClient.Acceptance
import NetworkUtility.EtcpClient.WriteQueue

/-! What a connection writes: the request, then whole frames of the packets accepted for it. -/
namespace NetworkUtility.EtcpClient

open Etcp Machine

variable {e : Env} {o : ByteOrder} {s t : State} {a : Action} {request : Bytes} {as : List Action}
  {x : Item} {h : Handler} {rest : List Handler} {k : Nat} {qs : List (Nat × Bytes)}

def framesOf (o : ByteOrder) (qs : List (Nat × Bytes)) : Bytes :=
  (qs.map fun q => frame o q.2).flatten

theorem framesOf_snoc (o : ByteOrder) (qs : List (Nat × Bytes)) (ticket : Nat) (pack : Bytes) :
    framesOf o (qs ++ [(ticket, pack)]) = framesOf o qs ++ (messageHead o pack ++ pack) := by
  simp [framesOf, frame]

/-- The bytes on the wire of the current connection, by what `m_send_data_list` holds: nothing of
its own yet (with nothing, a last packet or a lost list of an earlier connection in it), its own
frames, or what is left of them after the connection has failed. -/
inductive Writing (o : ByteOrder) (s : State) (qs : List (Nat × Bytes)) : Prop
  | early : qs = [] → s.sent s.socket.conn <+: s.request → s.writes = [] → Writing o s qs
  | behind (k : Nat) : qs = [] → s.sent s.socket.conn <+: s.request → k < s.socket.conn →
      s.writes = [⟨k, .write, .succeeded⟩] → s.sendDataList.length = 1 → Writing o s qs
  | stale (k : Nat) : qs = [] → s.sent s.socket.conn <+: s.request → k < s.socket.conn →
      s.writes = [⟨k, .write, .failed⟩] → Writing o s qs
  | idle : s.request <+: s.sent s.socket.conn → s.writes = [] →
      s.sent s.socket.conn = s.request ++ framesOf o qs → Writing o s qs
  | waiting : s.request <+: s.sent s.socket.conn →
      s.writes = [⟨s.socket.conn, .write, .waiting⟩] →
      (∀ p ∈ s.pending, p.op = .write → s.sent s.socket.conn ++ p.data ++
        s.sendDataList.tail.flatten = s.request ++ framesOf o qs) → Writing o s qs
  | written (k : Nat) : s.request <+: s.sent s.socket.conn →
      s.writes = [⟨k, .write, .succeeded⟩] →
      s.sent s.socket.conn ++ s.sendDataList.tail.flatten = s.request ++ framesOf o qs →
      Writing o s qs
  | dead : (s.socket.isOpen = false ∨ s.socket.broken = true) →
      s.sent s.socket.conn <+: s.request ++ framesOf o qs →
      (∀ x ∈ s.writes, x.status = .failed) → Writing o s qs

theorem Writing.of_eq (h : Writing o s qs) (hw : t.writes = s.writes)
    (hc : t.socket.conn = s.socket.conn) (ho : t.socket.isOpen = s.socket.isOpen)
    (hb : s.socket.broken = true → t.socket.broken = true) (hr : t.request = s.request)
    (hs : t.sent s.socket.conn = s.sent s.socket.conn) (hl : t.sendDataList = s.sendDataList)
    (hp : ∀ p ∈ t.pending, p.op = .write → p ∈ s.pending) : Writing o t qs := by
  cases h with
  | early hq hpre hn => exact .early hq (by rwa [hc, hs, hr]) (hw.trans hn)
  | behind k hq hpre hk hx hlen =>
    exact .behind k hq (by rwa [hc, hs, hr]) (hc ▸ hk) (hw.trans hx) (hl ▸ hlen)
  | stale k hq hpre hk hx => exact .stale k hq (by rwa [hc, hs, hr]) (hc ▸ hk) (hw.trans hx)
  | idle hreq hn heq => exact .idle (by rwa [hc, hs, hr]) (hw.trans hn) (by rwa [hc, hs, hr])
  | waiting hreq hx heq =>
    refine .waiting (by rwa [hc, hs, hr]) (by rw [hw, hx, hc]) ?_
    rw [hc, hs, hr, hl]
    exact fun p hm hop => heq p (hp p hm hop) hop
  | written k hreq hx heq =>
    exact .written k (by rwa [hc, hs, hr]) (hw.trans hx) (by rwa [hc, hs, hr, hl])
  | dead hd hpre hf =>
    refine .dead ?_ (by rwa [hc, hs, hr]) (hw ▸ hf)
    rw [ho]
    exact hd.imp_right hb

theorem exists_pending (hx : s.writes = [⟨k, .write, .waiting⟩]) :
    ∃ p ∈ s.pending, p.op = .write := by
  have hmem : (⟨k, .write, .waiting⟩ : Item) ∈ s.writes := by simp [hx]
  have hmem := List.mem_of_mem_filter hmem
  rcases List.mem_append.mp hmem with hm | hm
  · obtain ⟨g, _, hg⟩ := List.mem_filterMap.mp hm
    exact absurd rfl (item_ne_waiting hg)
  · obtain ⟨p, hp, heq⟩ := List.mem_map.mp hm
    exact ⟨p, hp, by simpa using congrArg Item.op heq⟩

theorem Writing.sent_of_writing (h : Writing o s qs) :
    s.sent s.socket.conn <+: s.request ++ framesOf o qs := by
  cases h with
  | early _ hpre => exact hpre.trans (List.prefix_append ..)
  | behind _ _ hpre => exact hpre.trans (List.prefix_append ..)
  | stale _ _ hpre => exact hpre.trans (List.prefix_append ..)
  | idle _ _ heq => exact heq ▸ List.prefix_rfl
  | waiting _ hx heq =>
    obtain ⟨p, hp, hop⟩ := exists_pending hx
    rw [← heq p hp hop, List.append_assoc]
    exact List.prefix_append ..
  | written _ _ _ heq => exact heq ▸ List.prefix_append ..
  | dead _ hpre => exact hpre

theorem Writing.release (h : Writing o s qs) (hone : OneWrite s) :
    Writing o (s.release e.closing) qs := by
  have hw := hone.writes_release (e := e)
  by_cases ho : s.socket.isOpen = true
  · rw [if_pos ho] at hw
    cases h with
    | early hq hpre hn => exact .early hq hpre (by rw [hw, hn]; rfl)
    | behind k hq hpre hk hx hlen =>
      refine .behind k hq hpre hk ?_ hlen
      rw [hw, hx, List.map_singleton, settled_of_ne (Nat.ne_of_lt hk)]
    | stale k hq hpre hk hx =>
      refine .stale k hq hpre hk ?_
      rw [hw, hx, List.map_singleton, settled_of_ne (Nat.ne_of_lt hk)]
    | idle hreq hn heq => exact .idle hreq (by rw [hw, hn]; rfl) heq
    | waiting hreq hx heq =>
      refine .dead (Or.inl rfl) (Writing.waiting hreq hx heq).sent_of_writing ?_
      rw [hw, hx]
      intro x hm
      obtain rfl := List.mem_singleton.mp hm
      exact settled_status ⟨rfl, Or.inl rfl⟩
    | written k hreq hx heq =>
      by_cases hk : k = s.socket.conn ∧ e.closing ≠ .keep
      · refine .dead (Or.inl rfl) (Writing.written k hreq hx heq).sent_of_writing ?_
        rw [hw, hx]
        intro x hm
        obtain rfl := List.mem_singleton.mp hm
        exact settled_status ⟨hk.1, Or.inr hk.2⟩
      · refine .written k hreq ?_ heq
        rw [hw, hx, List.map_singleton, Item.settled, if_neg]
        rintro ⟨hc, hst | hkeep⟩
        · cases hst
        · exact hk ⟨hc, hkeep⟩
    | dead hd hpre hf =>
      refine .dead (Or.inl rfl) hpre ?_
      rw [hw]
      intro x hm
      obtain ⟨y, hy, rfl⟩ := List.mem_map.mp hm
      exact settled_of_failed (hf y hy)
  · rw [if_neg ho] at hw
    have hclosed : s.socket.isOpen = false := by simpa using ho
    refine h.of_eq hw rfl hclosed.symm id rfl rfl rfl ?_
    intro p hp _
    simpa [State.release, ho] using hp

/-- Nothing writes, so no write is pending. -/
theorem not_pending (hn : s.writes = []) : ∀ p ∈ s.pending, p.op ≠ .write := by
  intro p hp hop
  have hm : (⟨s.socket.conn, p.op, .waiting⟩ : Item) ∈ s.writes := by
    refine List.mem_filter.mpr ⟨List.mem_append_right _ (List.mem_map_of_mem hp), ?_⟩
    simp [isWrite, hop]
  simp [hn] at hm

theorem list_nil (hone : OneWrite s) (hn : s.writes = []) : s.sendDataList = [] := by
  rcases hone.one with ⟨_, hl⟩ | ⟨x, hx, _⟩
  · exact hl
  · simp [hn] at hx

theorem list_cons (hone : OneWrite s) (hx : s.writes = [x]) : s.sendDataList ≠ [] := by
  rcases hone.one with ⟨hn, _⟩ | ⟨_, _, hl⟩
  · simp [hx] at hn
  · exact hl

theorem tail_append_flatten {xs ys : List Bytes} (h : xs ≠ []) :
    (xs ++ ys).tail.flatten = xs.tail.flatten ++ ys.flatten := by
  cases xs with
  | nil => exact absurd rfl h
  | cons x xs => simp

/-- A packet is queued on an open socket whose request is written and that has no failed write
behind it. -/
theorem Writing.send (h : Writing e.order s qs) (hone : OneWrite s) (ho : s.socket.isOpen = true)
    (hb : s.sendDataList = [] → s.socket.broken = false)
    (hreq : s.request <+: s.sent s.socket.conn) (ticket : Nat) (pack : Bytes) :
    ∃ qs', (qs' = qs ∨ qs' = qs ++ [(ticket, pack)]) ∧ Writing e.order (s.runSend e pack) qs' := by
  have hfirst (hn : s.writes = []) (heq : s.sent s.socket.conn = s.request ++ framesOf e.order qs) :
      Writing e.order (s.runSend e pack) (qs ++ [(ticket, pack)]) := by
    have hl := list_nil hone hn
    rw [State.runSend_eq ho, if_pos hl]
    have hwrite := (OneWrite.write (s := { s with sendDataList := [messageHead e.order pack, pack] })
      hone.idle hn (List.cons_ne_nil _ _) (messageHead e.order pack)).2
    simp only [ho, if_true] at hwrite
    refine .waiting hreq hwrite ?_
    intro p hp hop
    have hp : p ∈ s.pending ++ [⟨.write, messageHead e.order pack, 0⟩] := by
      simpa [State.startWrite, State.start, ho] using hp
    rcases List.mem_append.mp hp with hp | hp
    · exact absurd hop (not_pending hn p hp)
    · obtain rfl := List.mem_singleton.mp hp
      rw [framesOf_snoc]
      simp [State.startWrite, State.start, heq]
  have hmore (hl : s.sendDataList ≠ []) : s.runSend e pack =
      { s with sendDataList := s.sendDataList ++ [messageHead e.order pack, pack] } := by
    rw [State.runSend_eq ho, if_neg hl]
  cases h with
  | early hq hpre hn =>
    have heq := hpre.eq_of_length (Nat.le_antisymm hpre.length_le hreq.length_le)
    exact ⟨_, Or.inr rfl, hfirst hn (by simp [hq, heq, framesOf])⟩
  | idle _ hn heq => exact ⟨_, Or.inr rfl, hfirst hn heq⟩
  | behind k hq hpre hk hx hlen =>
    have heq := hpre.eq_of_length (Nat.le_antisymm hpre.length_le hreq.length_le)
    refine ⟨_, Or.inr rfl, .written k ?_ ?_ ?_⟩ <;> rw [hmore (list_cons hone hx)]
    · exact hreq
    · exact hx
    · obtain ⟨y, hy⟩ := List.length_eq_one_iff.mp hlen
      rw [framesOf_snoc]
      simp [hy, heq, hq, framesOf]
  | stale k hq hpre hk hx =>
    refine ⟨_, Or.inl rfl, .stale k hq ?_ ?_ ?_⟩ <;> rw [hmore (list_cons hone hx)]
    · exact hpre
    · exact hk
    · exact hx
  | waiting _ hx heq =>
    refine ⟨_, Or.inr rfl, .waiting ?_ ?_ ?_⟩ <;> rw [hmore (list_cons hone hx)]
    · exact hreq
    · exact hx
    · intro p hp hop
      have hp := heq p hp hop
      rw [framesOf_snoc, ← List.append_assoc s.request, ← hp]
      simp [tail_append_flatten (list_cons hone hx)]
  | written k _ hx heq =>
    refine ⟨_, Or.inr rfl, .written k ?_ ?_ ?_⟩ <;> rw [hmore (list_cons hone hx)]
    · exact hreq
    · exact hx
    · rw [framesOf_snoc, ← List.append_assoc s.request, ← heq]
      simp [tail_append_flatten (list_cons hone hx)]
  | dead hd hpre hf =>
    -- the failed write's handler has not run: it will clear the list
    have hl : s.sendDataList ≠ [] := by
      intro hnil
      simp [ho, hb hnil] at hd
    refine ⟨_, Or.inl rfl, .dead ?_ ?_ ?_⟩ <;> rw [hmore hl]
    · exact hd
    · exact hpre
    · exact hf

/-- The handler of a write runs. -/
theorem Writing.written_run {conn : Nat} {res : Result} (h : Writing o s qs) (hone : OneWrite s)
    (hr : s.ready = .complete conn .write res :: rest) :
    Writing o (State.onWritten { s with ready := rest } res) qs := by
  obtain ⟨st, hst, hitem, hx, hnil, hl⟩ := hone.last hr
  cases res with
  | failure err =>
    obtain rfl : Status.failed = st := by simpa [Handler.item?] using hitem
    cases h with
    | early _ _ hn => simp [hx] at hn
    | behind _ _ _ _ hy => simp [hx] at hy
    | stale _ hq hpre => exact .early hq hpre hnil
    | idle _ hn => simp [hx] at hn
    | waiting _ hy => simp [hx] at hy
    | written _ _ hy => simp [hx] at hy
    | dead hd hpre =>
      refine .dead hd hpre ?_
      have hn : (State.onWritten { s with ready := rest } (.failure err)).writes = [] := hnil
      simp [hn]
  | success len =>
    obtain rfl : Status.succeeded = st := by simpa [Handler.item?] using hitem
    simp only [State.onWritten]
    cases h with
    | early _ _ hn => simp [hx] at hn
    | stale _ _ _ _ hy => simp [hx] at hy
    | idle _ hn => simp [hx] at hn
    | waiting _ hy => simp [hx] at hy
    | dead _ _ hf => simp [hx] at hf
    | behind k hq hpre hk _ hlen =>
      obtain ⟨y, hy⟩ := List.length_eq_one_iff.mp hlen
      simp only [hy, List.tail_cons, ne_eq, not_true_eq_false, if_false]
      exact .early hq hpre hnil
    | written k hreq _ heq =>
      cases htail : s.sendDataList.tail with
      | nil =>
        simp only [ne_eq, not_true_eq_false, if_false]
        rw [htail] at heq
        exact .idle hreq hnil (by simpa using heq)
      | cons data more =>
        simp only [ne_eq, reduceCtorEq, not_false_eq_true, if_true]
        rw [State.doWrite_cons rfl]
        have hwrite := (OneWrite.write (s := { s with ready := rest, sendDataList := data :: more })
          hone.idle hnil (List.cons_ne_nil _ _) data).2
        rw [htail] at heq
        by_cases ho : s.socket.isOpen = true
        · simp only [ho, if_true] at hwrite
          refine .waiting hreq hwrite ?_
          intro p hp hop
          have hp : p ∈ s.pending ++ [⟨.write, data, 0⟩] := by
            simpa [State.startWrite, State.start, ho] using hp
          rcases List.mem_append.mp hp with hp | hp
          · exact absurd hop (not_pending (s := { s with ready := rest }) hnil p hp)
          · obtain rfl := List.mem_singleton.mp hp
            simpa [State.startWrite, State.start] using heq
        · have hclosed : s.socket.isOpen = false := by simpa using ho
          simp only [hclosed, Bool.false_eq_true, if_false] at hwrite
          refine .dead (Or.inl hclosed) ?_ ?_
          · show s.sent s.socket.conn <+: s.request ++ framesOf o qs
            rw [← heq]
            exact List.prefix_append ..
          · rw [hwrite]
            simp

/-- The next connection starts with nothing of the list, or with its last packet being counted. -/
theorem writing_reconnect (hone : OneWrite s) (ticket : Nat)
    (hfresh : s.sent (s.socket.conn + 1) = [])
    (hg : (∃ x ∈ s.writes, x.status = .succeeded) → s.sendDataList.length ≤ 1) :
    Writing o (s.realConnect e ticket) [] := by
  have hrel := hone.release (e := e)
  have hw := writes_realConnect (e := e) hone ticket
  have hpre : (s.realConnect e ticket).sent (s.realConnect e ticket).socket.conn <+:
      (s.realConnect e ticket).request := by
    have hs : (s.realConnect e ticket).sent (s.realConnect e ticket).socket.conn = [] := hfresh
    rw [hs]
    exact List.nil_prefix
  rcases hrel.one with ⟨hn, _⟩ | ⟨x, hx, hl⟩
  · exact .early rfl hpre (hw.trans hn)
  · have hmem : x ∈ (s.release e.closing).writes := by simp [hx]
    have hk : x.conn < s.socket.conn + 1 := Nat.lt_succ_of_le (hrel.bounded x hmem)
    have hop := State.op_of_writes hmem
    cases hst : x.status with
    | waiting =>
      exact absurd (hrel.idle rfl) (State.pending_of_waiting hmem hst)
    | failed => exact .stale x.conn rfl hpre hk (by rw [hw, hx, ← hst, ← hop])
    | succeeded =>
      refine .behind x.conn rfl hpre hk (by rw [hw, hx, ← hst, ← hop]) ?_
      have hsucc : ∃ y ∈ s.writes, y.status = .succeeded := by
        rw [hone.writes_release] at hmem
        split at hmem
        · obtain ⟨y, hy, rfl⟩ := List.mem_map.mp hmem
          refine ⟨y, hy, ?_⟩
          unfold Item.settled at hst
          split at hst
          · cases hst
          · exact hst
        · exact ⟨x, hmem, hst⟩
      have hle := hg hsucc
      have hpos := List.length_pos_iff.mpr hl
      exact Nat.le_antisymm hle hpos

theorem writes_of_pending {p : Pending} (hone : OneWrite s) (hp : p ∈ s.pending)
    (hop : p.op = .write) : s.writes = [⟨s.socket.conn, .write, .waiting⟩] := by
  have hm : (⟨s.socket.conn, p.op, .waiting⟩ : Item) ∈ s.writes := by
    refine List.mem_filter.mpr ⟨List.mem_append_right _ (List.mem_map_of_mem hp), ?_⟩
    simp [isWrite, hop]
  rcases hone.one with ⟨hn, _⟩ | ⟨x, hx, _⟩
  · simp [hn] at hm
  · rw [hx] at hm ⊢
    obtain rfl := List.mem_singleton.mp hm
    rw [hop]

section Network

variable {l r : List Pending} {p : Pending} {bytes more : Bytes}

/-- While a write is pending, the list is on its way. -/
theorem Writing.of_pending (h : Writing o s qs) (hone : OneWrite s) (hp : p ∈ s.pending)
    (hop : p.op = .write) : s.request <+: s.sent s.socket.conn ∧
      s.sent s.socket.conn ++ p.data ++ s.sendDataList.tail.flatten = s.request ++ framesOf o qs := by
  have hw := writes_of_pending hone hp hop
  cases h with
  | early _ _ hn => simp [hw] at hn
  | behind _ _ _ _ hy => simp [hw] at hy
  | stale _ _ _ _ hy => simp [hw] at hy
  | idle _ hn => simp [hw] at hn
  | written _ _ hy => simp [hw] at hy
  | dead _ _ hf => simp [hw] at hf
  | waiting hreq _ heq => exact ⟨hreq, heq p hp hop⟩

/-- A write moves on, and is still pending or queued. -/
theorem Writing.transfer (h : Writing o s qs) (hone : OneWrite s) (hp : p ∈ s.pending)
    (hop : p.op = .write) (hd : p.data = bytes ++ more) (hc : t.socket.conn = s.socket.conn)
    (hr : t.request = s.request) (hl : t.sendDataList = s.sendDataList)
    (hs : t.sent s.socket.conn = s.sent s.socket.conn ++ bytes)
    (hw : t.writes = s.writes ∧ (∀ q ∈ t.pending, q.op = .write → q.data = more) ∨
      more = [] ∧ t.writes = [⟨s.socket.conn, .write, .succeeded⟩]) : Writing o t qs := by
  obtain ⟨hreq, heq⟩ := h.of_pending hone hp hop
  have hreq : s.request <+: s.sent s.socket.conn ++ bytes := hreq.trans (List.prefix_append ..)
  rw [hd] at heq
  rcases hw with ⟨hw, hq⟩ | ⟨hm, hw⟩
  · refine .waiting (by rwa [hc, hr, hs]) (by rw [hw, hc, writes_of_pending hone hp hop]) ?_
    intro q hq' hop'
    rw [hc, hr, hs, hl, hq q hq' hop', ← heq]
    simp
  · refine .written s.socket.conn (by rwa [hc, hr, hs]) hw ?_
    rw [hc, hr, hs, hl, ← heq, hm]
    simp

/-- The request moves on: nothing of the list was on its way. -/
theorem Writing.requesting (h : Writing o s qs) (hb : bytes ≠ [])
    (hreq : s.sent s.socket.conn ++ (bytes ++ more) = s.request)
    (hc : t.socket.conn = s.socket.conn) (ho : t.socket.isOpen = s.socket.isOpen)
    (hbr : t.socket.broken = s.socket.broken) (hr : t.request = s.request)
    (hl : t.sendDataList = s.sendDataList) (hw : t.writes = s.writes)
    (hs : t.sent s.socket.conn = s.sent s.socket.conn ++ bytes) : Writing o t qs := by
  have hpre : t.sent t.socket.conn <+: t.request := by
    rw [hc, hr, hs, ← hreq, ← List.append_assoc]
    exact List.prefix_append ..
  have hshort : ¬ s.request <+: s.sent s.socket.conn := by
    intro hle
    have hlen := hle.length_le
    have hpos := List.length_pos_iff.mpr hb
    rw [← hreq] at hlen
    simp only [List.length_append] at hlen
    omega
  cases h with
  | early hq _ hn => exact .early hq hpre (hw.trans hn)
  | behind k hq _ hk hx hlen => exact .behind k hq hpre (hc ▸ hk) (hw.trans hx) (hl ▸ hlen)
  | stale k hq _ hk hx => exact .stale k hq hpre (hc ▸ hk) (hw.trans hx)
  | idle hle => exact absurd hle hshort
  | waiting hle => exact absurd hle hshort
  | written _ hle => exact absurd hle hshort
  | dead hd _ hf =>
    refine .dead ?_ (hpre.trans (List.prefix_append ..)) (hw ▸ hf)
    rw [ho, hbr]
    exact hd

/-- A write fails by itself. -/
theorem Writing.fail (h : Writing o s qs) (hc : t.socket.conn = s.socket.conn)
    (hb : t.socket.broken = true) (hr : t.request = s.request)
    (hs : t.sent s.socket.conn = s.sent s.socket.conn)
    (hw : ∀ x ∈ t.writes, x.status = .failed) : Writing o t qs := by
  refine .dead (Or.inr hb) ?_ hw
  rw [hc, hr, hs]
  exact h.sent_of_writing

end Network

end NetworkUtility.EtcpClient
