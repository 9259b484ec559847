import NetworkUtility.EtcpClient.Chain

/-! The packets accepted by `send_message`, in the order of their tickets. -/
namespace NetworkUtility.EtcpClient

open Etcp Machine

variable {e : Env} {s t : State} {a : Action} {request : Bytes} {as : List Action} {h : Handler}
  {rest : List Handler} {k : Nat} {qs : List (Nat × Bytes)}

/-- What was accepted behind the `do_connect` that opened connection `k`. -/
def State.acceptedAfter (s : State) (k : Nat) : List (Nat × Bytes) :=
  s.accepted.filter (s.born k < ·.1)

/-- Every lambda of `send_message` in the queue carries an accepted packet. -/
structure Ticketed (s : State) : Prop where
  posted : Posted s
  sorted : s.accepted.Pairwise (·.1 < ·.1)
  bound : ∀ q ∈ s.accepted, q.1 < s.tickets
  known : ∀ ticket pack, .sendMessage ticket pack ∈ s.ready → (ticket, pack) ∈ s.accepted

theorem sublist_snoc {xs : List (Nat × Bytes)} {q : Nat × Bytes} (h : qs.Sublist xs)
    (hs : xs.Pairwise (·.1 < ·.1)) (hq : q ∈ xs) (hlt : ∀ p ∈ qs, p.1 < q.1) :
    (qs ++ [q]).Sublist xs := by
  obtain ⟨ys, zs, rfl⟩ := List.append_of_mem hq
  have hys : ∀ p ∈ ys, p.1 < q.1 := fun p hp =>
    (List.pairwise_append.mp hs).2.2 p hp q List.mem_cons_self
  have hzs : ∀ p ∈ zs, q.1 < p.1 := fun p hp =>
    (List.pairwise_cons.mp (List.pairwise_append.mp hs).2.1).1 p hp
  have hsub : qs.Sublist ys := by
    have hf := h.filter (·.1 < q.1)
    have hqs : qs.filter (·.1 < q.1) = qs := List.filter_eq_self.mpr (by simpa using hlt)
    have hys' : ys.filter (·.1 < q.1) = ys := List.filter_eq_self.mpr (by simpa using hys)
    have hzs' : zs.filter (·.1 < q.1) = [] := by
      apply List.filter_eq_nil_iff.mpr
      intro p hp
      have hlt := hzs p hp
      simp
      omega
    rw [List.filter_append, List.filter_cons, hqs, hys', hzs'] at hf
    simpa using hf
  exact hsub.append (by simp)

theorem mem_settle {c : Closing} {ready : List Handler} (hm : h ∈ c.settle k ready)
    (hi : h.item? = none) : h ∈ ready := by
  have hrev {g : Handler} (hg : h = g.revoked k) : h = g := by
    cases g with
    | complete conn op res =>
      obtain ⟨st, _, hitem⟩ :=
        item_complete conn op (if conn = k then .failure .aborted else res)
      rw [hg, Handler.revoked, hitem] at hi
      cases hi
    | _ => exact hg
  cases c with
  | keep => exact hm
  | revoke =>
    obtain ⟨g, hg, hgh⟩ := List.mem_map.mp hm
    exact hrev hgh.symm ▸ hg
  | requeue =>
    rcases List.mem_append.mp hm with hm | hm
    · exact List.mem_of_mem_filter hm
    · obtain ⟨g, hg, hgh⟩ := List.mem_map.mp hm
      exact hrev hgh.symm ▸ List.mem_of_mem_filter hg

theorem mem_release (hm : h ∈ (s.release e.closing).ready) (hi : h.item? = none) : h ∈ s.ready := by
  simp only [State.release] at hm
  split at hm
  · rcases List.mem_append.mp hm with hm | hm
    · exact mem_settle hm hi
    · obtain ⟨p, _, rfl⟩ := List.mem_map.mp hm
      cases hi
  · exact hm

theorem mem_start {op : Op} {data : Bytes} (hm : h ∈ (s.start op data).ready)
    (hi : h.item? = none) : h ∈ s.ready := by
  simp only [State.start] at hm
  split at hm
  · exact hm
  · rcases List.mem_append.mp hm with hm | hm
    · exact hm
    · obtain rfl := List.mem_singleton.mp hm
      cases hi

theorem mem_turn {g : Handler} (ht : Turn e s g t) (hm : h ∈ t.ready) (hi : h.item? = none) :
    h ∈ s.ready := by
  cases ht with
  | stay _ _ hl => exact hl.ready ▸ hm
  | close _ _ hl => exact mem_release (hl.ready ▸ hm) hi
  | send _ _ data _ _ hl => exact mem_start (hl.ready ▸ hm) hi
  | next _ _ _ _ data _ _ hl => exact mem_start (hl.ready ▸ hm) hi
  | found _ _ n _ hl =>
    rw [hl.ready] at hm
    rcases List.mem_append.mp hm with hm | hm
    · exact hm
    · obtain rfl := List.mem_singleton.mp hm
      cases hi

theorem accepted_turn {g : Handler} (ht : Turn e s g t) : t.accepted = s.accepted := by
  cases ht with
  | stay _ _ hl => exact hl.accepted
  | close _ _ hl => exact hl.accepted
  | send _ _ data _ _ hl => exact hl.accepted
  | next _ _ _ _ data _ _ hl => exact hl.accepted
  | found _ _ n _ hl => exact hl.accepted

theorem ticketed_initial (request : Bytes) : Ticketed (initial request) := by
  refine ⟨posted_initial request, List.Pairwise.nil, ?_, ?_⟩
  · intro q hq
    cases hq
  · intro ticket pack hm
    cases hm

theorem Ticketed.same (hs : Ticketed s) (hp : Posted t) (hacc : t.accepted = s.accepted)
    (htickets : s.tickets ≤ t.tickets)
    (hready : ∀ ticket pack, .sendMessage ticket pack ∈ t.ready →
      .sendMessage ticket pack ∈ s.ready) : Ticketed t := by
  refine ⟨hp, hacc ▸ hs.sorted, ?_, ?_⟩
  · rw [hacc]
    exact fun q hq => Nat.lt_of_lt_of_le (hs.bound q hq) htickets
  · rw [hacc]
    exact fun ticket pack hm => hs.known ticket pack (hready ticket pack hm)

theorem ticketed_step (hs : Ticketed s) (h : step e s a = some t) : Ticketed t := by
  have hp := posted_step hs.posted h
  cases effect_of_step h with
  | call _ calls => exact hs.same hp rfl le_rfl fun _ _ hm => hm
  | postClose i calls => exact hs.same hp rfl (Nat.le_succ _) (by simp)
  | postConnect i calls => exact hs.same hp rfl (Nat.le_succ _) (by simp)
  | postSend i calls pack =>
    refine ⟨hp, ?_, ?_, ?_⟩
    · refine List.pairwise_append.mpr ⟨hs.sorted, List.pairwise_singleton .., ?_⟩
      intro q hq q' hq'
      obtain rfl := List.mem_singleton.mp hq'
      exact hs.bound q hq
    · intro q hq
      rcases List.mem_append.mp hq with hq | hq
      · exact Nat.lt_succ_of_lt (hs.bound q hq)
      · obtain rfl := List.mem_singleton.mp hq
        exact Nat.lt_succ_self _
    · intro ticket pack' hm
      rcases List.mem_append.mp hm with hm | hm
      · exact List.mem_append_left _ (hs.known ticket pack' hm)
      · obtain ⟨rfl, rfl⟩ : ticket = s.tickets ∧ pack' = pack := by simpa using hm
        exact List.mem_append_right _ List.mem_cons_self
  | run hd rest hr =>
    have hpop : ∀ g ∈ rest, g ∈ s.ready := fun g hg => hr ▸ List.mem_cons_of_mem _ hg
    by_cases hc : ∃ ticket, hd = .doConnect ticket
    · obtain ⟨ticket, rfl⟩ := hc
      refine hs.same hp rfl le_rfl fun ticket pack hm => ?_
      have hm : .sendMessage ticket pack ∈ (State.release e.closing { s with ready := rest }).ready := hm
      exact hpop _ (mem_release hm rfl)
    · have ht := turn_of_run (e := e) (s := { s with ready := rest }) hd
        fun ticket h => hc ⟨ticket, h⟩
      have hacc := accepted_turn ht
      have htickets := (posts_turn ht).2.1
      refine hs.same hp hacc (Nat.le_of_eq htickets.symm) ?_
      intro ticket pack hm
      exact hpop _ (mem_turn ht hm rfl)
  | sentPart => exact hs.same hp rfl le_rfl fun _ _ hm => hm
  | headPart => exact hs.same hp rfl le_rfl fun _ _ hm => hm
  | bodyPart => exact hs.same hp rfl le_rfl fun _ _ hm => hm
  | proxyPart => exact hs.same hp rfl le_rfl fun _ _ hm => hm
  | connected => exact hs.same hp rfl le_rfl (by simp)
  | sentAll => exact hs.same hp rfl le_rfl (by simp)
  | headAll => exact hs.same hp rfl le_rfl (by simp)
  | bodyAll => exact hs.same hp rfl le_rfl (by simp)
  | proxyAll => exact hs.same hp rfl le_rfl (by simp)
  | fail => exact hs.same hp rfl le_rfl (by simp)

end NetworkUtility.EtcpClient
