import NetworkUtility.EtcpClient.ReadSide
import NetworkUtility.Lib.ScanLine

/-! What the gateway's answer to an attempt makes of it: `m_response` outlives the attempts, so the
verdict is the attempt's own as long as nothing is left in it. -/
namespace NetworkUtility.EtcpClient

open Etcp Machine Scan

variable {e : Env} {s t : State} {a : Action} {request : Bytes} {as : List Action} {x : Item}
  {h : Handler} {rest : List Handler} {k : Nat} {c : Callback}

/-- Where the format of `sscanf` asks for a number, the line has only white space left. -/
def breaksOff (line : Bytes) : Bool :=
  match scanLiteral [72, 84, 84, 80, 47] line with
  | none => false
  | some rest =>
    rest.all isSpace ||
      match scanFloat rest with
      | none => false
      | some rest => rest.all isSpace

/-- The callback for a response with this status. -/
def answer (status : Int) : Callback :=
  if succeeded status then .connect
  else .error "connect" ("http proxy recv response status: " ++ toString status)

/-- The verdict of a status line. -/
def verdict (bytes : Bytes) : Callback := answer (httpStatus (firstLine bytes))

/-- A callback that tells how an attempt through a gateway was answered. -/
def Callback.Verdict (c : Callback) : Prop :=
  c = .connect ∨
    ∃ status : Int, c = .error "connect" ("http proxy recv response status: " ++ toString status)

/-- `m_response` is empty where the read of a response starts, and holds a whole status line where
the response is looked at. -/
def ownAnswer (s : State) : Action → Bool
  | .run =>
    match s.ready with
    | .complete _ .proxyWrite (.success _) :: _ => s.response = []
    | .complete _ .proxyRead (.success _) :: _ => ! breaksOff (firstLine s.response)
    | _ => true
  | _ => true

/-- `real_connect` runs with no success of an old connection but a write's in the queue, and with no
operation that has moved a part; a response is read into an empty `m_response`. -/
def Alone (e : Env) (s : State) (a : Action) : Prop :=
  Clean e mainOp s a ∧ ownAnswer s a = true ∧ Intact s a

instance : Decidable (Alone e s a) := inferInstanceAs (Decidable (_ ∧ _ ∧ _))

theorem dropWhile_ne_nil {bs : Bytes} (h : bs.all isSpace = false) : bs.dropWhile isSpace ≠ [] := by
  intro hnil
  have hall : bs.all isSpace = true := by
    have hsplit := List.takeWhile_append_dropWhile (p := isSpace) (l := bs)
    rw [hnil, List.append_nil] at hsplit
    rw [← hsplit]
    exact List.all_takeWhile
  rw [h] at hall
  cases hall

/-- The status stands on the first line. -/
theorem httpStatus_line {line : Bytes} (h : breaksOff line = false) (more : Bytes) :
    httpStatus (line ++ 13 :: more) = httpStatus line := by
  have hlit := scanLiteral_line [72, 84, 84, 80, 47] line more (by decide)
  simp only [httpStatus, hlit]
  simp only [breaksOff] at h
  cases hrest : scanLiteral [72, 84, 84, 80, 47] line with
  | none => rfl
  | some rest =>
    simp only [hrest, Bool.or_eq_false_iff] at h
    simp only [Option.map_some, scanFloat_line (dropWhile_ne_nil h.1) more]
    cases hfloat : scanFloat rest with
    | none => rfl
    | some rest =>
      simp only [hfloat] at h
      simp only [Option.map_some, scanInt_line (dropWhile_ne_nil h.2) more]
      cases scanInt rest with
      | none => rfl
      | some r => rfl

theorem answer_httpStatus {bytes : Bytes} (h : (endOfHead bytes).isSome)
    (hb : breaksOff (firstLine bytes) = false) : answer (httpStatus bytes) = verdict bytes := by
  obtain ⟨more, hmore⟩ := firstLine_spec h
  unfold verdict
  conv_lhs => rw [hmore, httpStatus_line hb]

theorem verdict_more {bytes : Bytes} (h : (endOfHead bytes).isSome) (more : Bytes) :
    verdict (bytes ++ more) = verdict bytes := by
  rw [verdict, firstLine_more h, verdict]

/-! ### What a handler makes of the response and of the log -/

theorem response_of_handler (hh : ∀ conn len, h ≠ .complete conn .proxyRead (.success len)) :
    (s.runHandler e h).response = s.response := by
  cases h with
  | doConnect ticket => rfl
  | doClose ticket =>
    simp only [State.runHandler, State.runClose]
    split <;> rfl
  | sendMessage ticket pack =>
    simp only [State.runHandler, State.runSend, State.doWrite]
    split
    · split
      · split <;> rfl
      · rfl
    · rfl
  | complete conn op res =>
    cases res with
    | failure err => cases op <;> rfl
    | success len =>
      cases op with
      | connect =>
        simp only [State.runHandler, State.onComplete, State.onConnected]
        split <;> rfl
      | proxyWrite =>
        simp only [State.runHandler, State.onComplete, State.onProxyWritten, State.readUntil]
        split <;> rfl
      | proxyRead => exact absurd rfl (hh conn len)
      | write =>
        simp only [State.runHandler, State.onComplete, State.onWritten, State.doWrite]
        split
        · split <;> rfl
        · rfl
      | readHead =>
        simp only [State.runHandler, State.onComplete, State.onReadHead]
        split <;> rfl
      | readBody => rfl

theorem mem_onClose (hv : c.Verdict) (hc : (k, c) ∈ s.onClose.log) : (k, c) ∈ s.log := by
  simp only [State.onClose] at hc
  split at hc
  · exact hc
  · rcases List.mem_append.mp hc with hc | hc
    · exact hc
    · simp only [List.mem_singleton, Prod.mk.injEq] at hc
      rcases hv with hv | ⟨status, hv⟩ <;> simp [hv] at hc

theorem mem_onError {conn : Nat} {action message : String}
    (hc : (k, c) ∈ (s.onError conn action message).log) :
    (k, c) ∈ s.log ∨ k = conn ∧ c = .error action message := by
  rcases List.mem_append.mp hc with hc | hc
  · exact Or.inl hc
  · exact Or.inr (by simpa using hc)

/-- A handler that gives up the connection reports one error. -/
theorem mem_giveUp {conn : Nat} {action message : String} (hv : c.Verdict)
    (hc : (k, c) ∈ (((s.onError conn action message).realClose e).onClose).log) :
    (k, c) ∈ s.log ∨ k = conn ∧ c = .error action message := by
  have hc : (k, c) ∈ (s.onError conn action message).log :=
    mem_onClose (s := (s.onError conn action message).realClose e) hv hc
  exact mem_onError hc

theorem not_verdict {action message : String}
    (hne : ∀ status : Int, message ≠ "http proxy recv response status: " ++ toString status) :
    ¬ (Callback.error action message).Verdict := by
  rintro (hv | ⟨status, hv⟩)
  · cases hv
  · exact hne status (Callback.error.inj hv).2

/-- Two texts that begin differently. -/
theorem text_ne {p q : String} {n : Nat} (hp : n ≤ p.length) (hq : n ≤ q.length)
    (hne : p.toList.take n ≠ q.toList.take n) (text text' : String) : p ++ text ≠ q ++ text' := by
  intro heq
  have htake := congrArg (fun s => s.toList.take n) heq
  simp only [String.toList_append] at htake
  rw [List.take_append_of_le_length hp, List.take_append_of_le_length hq] at htake
  exact hne htake

theorem sent_text (text : String) (status : Int) :
    "http proxy send request error: " ++ text ≠
      "http proxy recv response status: " ++ toString status :=
  text_ne (n := 12) (by decide) (by decide) (by decide) text (toString status)

theorem received_text (text : String) (status : Int) :
    "http proxy recv request error: " ++ text ≠
      "http proxy recv response status: " ++ toString status :=
  text_ne (n := 20) (by decide) (by decide) (by decide) text (toString status)

/-- Only the handler of a response gives a verdict. -/
theorem verdict_of_handler (hq : s.request ≠ [])
    (hm : ∀ (err : Error) (status : Int),
      e.message err ≠ "http proxy recv response status: " ++ toString status)
    (hv : c.Verdict) (hc : (k, c) ∈ (s.runHandler e h).log) :
    (k, c) ∈ s.log ∨
      ∃ len, h = .complete k .proxyRead (.success len) ∧ c = answer (httpStatus s.response) := by
  cases h with
  | doConnect ticket => exact Or.inl hc
  | doClose ticket =>
    simp only [State.runHandler, State.runClose] at hc
    split at hc
    · exact Or.inl (mem_onClose hv hc)
    · exact Or.inl hc
  | sendMessage ticket pack =>
    simp only [State.runHandler, State.runSend, State.doWrite] at hc
    split at hc
    · split at hc
      · split at hc <;> exact Or.inl hc
      · exact Or.inl hc
    · exact Or.inl hc
  | complete conn op res =>
    cases op with
    | connect =>
      simp only [State.runHandler, State.onComplete, State.onConnected] at hc
      split at hc
      · next err =>
        rcases mem_onError (mem_onClose hv hc) with hc | ⟨_, rfl⟩
        · exact Or.inl hc
        · exact absurd hv (not_verdict (hm err))
      · rw [if_pos hq] at hc
        exact Or.inl hc
    | proxyWrite =>
      cases res with
      | failure err =>
        rcases mem_giveUp hv hc with hc | ⟨_, rfl⟩
        · exact Or.inl hc
        · exact absurd hv (not_verdict (sent_text _))
      | success len =>
        simp only [State.runHandler, State.onComplete, State.onProxyWritten, State.readUntil] at hc
        split at hc <;> exact Or.inl hc
    | proxyRead =>
      cases res with
      | failure err =>
        rcases mem_giveUp hv hc with hc | ⟨_, rfl⟩
        · exact Or.inl hc
        · exact absurd hv (not_verdict (received_text _))
      | success len =>
        simp only [State.runHandler, State.onComplete, State.onProxyRead] at hc
        split at hc
        · next hok =>
          rcases List.mem_append.mp hc with hc | hc
          · exact Or.inl hc
          · simp only [List.mem_singleton, Prod.mk.injEq] at hc
            obtain ⟨rfl, rfl⟩ := hc
            exact Or.inr ⟨len, rfl, (if_pos hok).symm⟩
        · next hok =>
          rcases mem_giveUp hv hc with hc | ⟨rfl, rfl⟩
          · exact Or.inl hc
          · exact Or.inr ⟨len, rfl, (if_neg hok).symm⟩
    | write =>
      cases res with
      | failure err => exact Or.inl hc
      | success len =>
        simp only [State.runHandler, State.onComplete, State.onWritten, State.doWrite] at hc
        split at hc
        · split at hc <;> exact Or.inl hc
        · exact Or.inl hc
    | readHead =>
      cases res with
      | failure err => exact Or.inl (mem_onClose hv hc)
      | success len =>
        simp only [State.runHandler, State.onComplete, State.onReadHead] at hc
        split at hc
        · rcases mem_giveUp hv hc with hc | ⟨_, rfl⟩
          · exact Or.inl hc
          · rcases hv with hv | ⟨status, hv⟩
            · cases hv
            · simp at hv
        · exact Or.inl hc
        · exact Or.inl hc
    | readBody =>
      cases res with
      | failure err => exact Or.inl (mem_onClose hv hc)
      | success len =>
        rcases List.mem_append.mp hc with hc | hc
        · exact Or.inl hc
        · simp only [List.mem_singleton, Prod.mk.injEq] at hc
          rcases hv with hv | ⟨status, hv⟩ <;> simp [hv] at hc

/-! ### Attempts that keep to their own bytes -/

/-- While an attempt is in its handshake, `m_response` holds the bytes it has received; its verdict
is theirs. -/
structure Judging (e : Env) (s : State) : Prop where
  chained : Chained e mainOp s
  gateway : s.request ≠ []
  fresh : ∀ k, s.socket.conn < k → s.received k = []
  early : ∀ x ∈ s.chain mainOp, x.conn = s.socket.conn → x.op = .connect ∨ x.op = .proxyWrite →
    s.received s.socket.conn = []
  reading : ∀ x ∈ s.chain mainOp, x.conn = s.socket.conn → x.op = .proxyRead →
    x.status ≠ .failed → s.received s.socket.conn = s.response
  found : ∀ x ∈ s.chain mainOp, x.conn = s.socket.conn → x.op = .proxyRead →
    x.status = .succeeded → (endOfHead s.response).isSome
  judged : ∀ k c, (k, c) ∈ s.log → c.Verdict →
    k ≤ s.socket.conn ∧ (endOfHead (s.received k)).isSome ∧ c = verdict (s.received k)

theorem judging_initial (hq : request ≠ []) : Judging e (initial request) := by
  refine ⟨chained_initial request, hq, fun _ _ => rfl, ?_, ?_, ?_, ?_⟩
  · intro x hx
    cases hx
  · intro x hx
    cases hx
  · intro x hx
    cases hx
  · intro k c hc
    cases hc

/-- Steps that bring no bytes and end no handshake. -/
theorem Judging.follow (hs : Judging e s) (hc : Chained e mainOp t)
    (hk : t.socket.conn = s.socket.conn) (hq : t.request = s.request)
    (hr : t.received = s.received) (hresp : t.response = s.response)
    (hlog : ∀ k c, (k, c) ∈ t.log → c.Verdict → (k, c) ∈ s.log)
    (hchain : ∀ y ∈ t.chain mainOp, ∃ x ∈ s.chain mainOp, y.conn = x.conn ∧ y.op = x.op ∧
      (y.status = x.status ∨ y.status = .failed ∨ x.op ≠ .proxyRead)) : Judging e t := by
  constructor
  · exact hc
  · rw [hq]
    exact hs.gateway
  · rw [hk, hr]
    exact hs.fresh
  · rw [hk, hr]
    intro y hy hconn hop
    obtain ⟨x, hx, hxc, hxo, _⟩ := hchain y hy
    exact hs.early x hx (hxc.symm.trans hconn) (hxo ▸ hop)
  · rw [hk, hr, hresp]
    intro y hy hconn hop hst
    obtain ⟨x, hx, hxc, hxo, hxs⟩ := hchain y hy
    refine hs.reading x hx (hxc.symm.trans hconn) (hxo.symm.trans hop) ?_
    rcases hxs with hsame | hfail | hne
    · exact hsame ▸ hst
    · exact absurd hfail hst
    · exact absurd (hxo.symm.trans hop) hne
  · rw [hk, hresp]
    intro y hy hconn hop hst
    obtain ⟨x, hx, hxc, hxo, hxs⟩ := hchain y hy
    refine hs.found x hx (hxc.symm.trans hconn) (hxo.symm.trans hop) ?_
    rcases hxs with hsame | hfail | hne
    · exact hsame.symm.trans hst
    · rw [hfail] at hst
      cases hst
    · exact absurd (hxo.symm.trans hop) hne
  · rw [hk, hr]
    exact fun k c hc hv => hs.judged k c (hlog k c hc hv) hv

/-- A handler has left at most operations that have not succeeded; it may have given the verdict. -/
theorem Judging.turn (hs : Judging e s) (hc : Chained e mainOp t)
    (hk : t.socket.conn = s.socket.conn) (hq : t.request = s.request)
    (hr : t.received = s.received)
    (hchain : ∀ x ∈ t.chain mainOp, x.status ≠ .succeeded ∧
      (x.op = .connect ∨ x.op = .proxyWrite → s.received s.socket.conn = []) ∧
      (x.op = .proxyRead → s.received s.socket.conn = t.response))
    (hlog : ∀ k c, (k, c) ∈ t.log → c.Verdict → (k, c) ∈ s.log ∨ k = s.socket.conn ∧
      (endOfHead (s.received k)).isSome ∧ c = verdict (s.received k)) : Judging e t := by
  constructor
  · exact hc
  · rw [hq]
    exact hs.gateway
  · rw [hk, hr]
    exact hs.fresh
  · rw [hk, hr]
    exact fun x hx _ hop => (hchain x hx).2.1 hop
  · rw [hk, hr]
    exact fun x hx _ hop _ => (hchain x hx).2.2 hop
  · exact fun x hx _ _ hst => absurd hst (hchain x hx).1
  · rw [hk, hr]
    intro k c hc hv
    rcases hlog k c hc hv with hc | ⟨rfl, hhead, hcv⟩
    · exact hs.judged k c hc hv
    · exact ⟨Nat.le_refl _, hhead, hcv⟩

/-! ### Steps from outside -/

section Outside

variable {l r : List Pending} {p : Pending} {bytes : Bytes} {res : Result}

theorem Judging.finish (hs : Judging e s) (hu : Unmoved t s) (hl : s.pending = l ++ p :: r)
    (hp : t.pending = l ++ r) (hr : t.ready = s.ready ++ [.complete s.socket.conn p.op res])
    (ht : t.tickets = s.tickets) (hreceived : t.received = s.received)
    (hresponse : t.response = s.response)
    (hwhy : (∃ err, res = .failure err) ∨ p.op ≠ .proxyRead) : Judging e t := by
  obtain ⟨st, hitem, hchain⟩ := chain_finish_map hs.chained.ordered hl hp hr hu.conn
  refine hs.follow (chained_outside hu (.finish l r p res hl hp hr ht) hs.chained) hu.conn hu.request
    hreceived hresponse (fun k c hc _ => hu.log ▸ hc) ?_
  intro y hy
  rw [hchain] at hy
  obtain ⟨x, hx, rfl⟩ := List.mem_map.mp hy
  refine ⟨x, hx, ?_⟩
  split
  · next hxe =>
    subst hxe
    refine ⟨rfl, rfl, Or.inr ?_⟩
    rcases hwhy with ⟨err, rfl⟩ | hne
    · have hst : Status.failed = st := by simpa [Handler.item?] using hitem
      exact Or.inl hst.symm
    · exact Or.inr hne
  · exact ⟨rfl, rfl, Or.inl rfl⟩

/-- Bytes have arrived for the read that waits. -/
theorem Judging.arrive (hs : Judging e s) (hu : Unmoved t s) (ho : Outside s t)
    (hl : s.pending = l ++ p :: r) (hmain : mainOp p.op = true)
    (hop : p.op ≠ .connect ∧ p.op ≠ .proxyWrite)
    (hreceived : t.received =
      Function.update s.received s.socket.conn (s.received s.socket.conn ++ bytes))
    (hresponse : p.op = .proxyRead → t.response = s.response ++ bytes ∧
      ((endOfHead t.response).isSome ∨ t.chain mainOp = s.chain mainOp)) : Judging e t := by
  have hwait := waiting_mem mainOp hl hmain
  have hcur : t.received s.socket.conn = s.received s.socket.conn ++ bytes := by
    rw [hreceived, Function.update_self]
  have hother : ∀ k, k ≠ s.socket.conn → t.received k = s.received k := by
    intro k hk
    rw [hreceived, Function.update_of_ne hk]
  have hop_eq : ∀ y ∈ t.chain mainOp, y.conn = s.socket.conn → y.op = p.op := by
    intro y hy hconn
    obtain ⟨x, hx, hxo, hxc⟩ := chain_origin hs.chained.ordered hu ho y hy
    have heq := eq_of_conn hs.chained.ordered hx hwait (hxc.trans hconn)
    rw [← hxo, heq]
  constructor
  · exact chained_outside hu ho hs.chained
  · rw [hu.request]
    exact hs.gateway
  · rw [hu.conn]
    intro k hk
    rw [hother k (Nat.ne_of_gt hk)]
    exact hs.fresh k hk
  · rw [hu.conn]
    intro y hy hconn hyo
    rw [hop_eq y hy hconn] at hyo
    exact absurd hyo (not_or.mpr hop)
  · rw [hu.conn]
    intro y hy hconn hyo _
    have hpo := (hop_eq y hy hconn).symm.trans hyo
    rw [hcur, (hresponse hpo).1, hs.reading _ hwait rfl hpo (by simp)]
  · rw [hu.conn]
    intro y hy hconn hyo hst
    have hpo := (hop_eq y hy hconn).symm.trans hyo
    rcases (hresponse hpo).2 with hsome | hsame
    · exact hsome
    · rw [hsame] at hy
      have heq := eq_of_conn hs.chained.ordered hy hwait hconn
      rw [heq] at hst
      cases hst
  · rw [hu.conn, hu.log]
    intro k c hc hv
    obtain ⟨hle, hhead, hcv⟩ := hs.judged k c hc hv
    refine ⟨hle, ?_⟩
    by_cases hkc : k = s.socket.conn
    · subst hkc
      rw [hcur, verdict_more hhead]
      exact ⟨endOfHead_more hhead bytes, hcv⟩
    · rw [hother k hkc]
      exact ⟨hhead, hcv⟩

theorem judging_outside (hs : Judging e s) (h : Effect e s a t) (ha : a ≠ .run) : Judging e t := by
  obtain ⟨hu, ho⟩ : Unmoved t s ∧ Outside s t := by
    rcases effect_cases h with h | ⟨_, _, hrun, _⟩
    · exact h
    · exact absurd hrun ha
  have hsame (hc : t.chain mainOp = s.chain mainOp) (hr : t.received = s.received)
      (hresp : t.response = s.response) : Judging e t := by
    refine hs.follow (chained_outside hu ho hs.chained) hu.conn hu.request hr hresp
      (fun k c hc _ => hu.log ▸ hc) ?_
    rw [hc]
    exact fun y hy => ⟨y, hy, rfl, rfl, Or.inl rfl⟩
  cases h with
  | run => exact absurd rfl ha
  | call => exact hsame rfl rfl rfl
  | postClose | postConnect | postSend =>
    refine hsame ?_ rfl rfl
    simp [State.chain_eq, Handler.item?]
  | connected i l r p hl hop => exact hs.finish hu hl rfl rfl rfl rfl rfl (Or.inr (by simp [hop]))
  | sentPart i n l r p bytes rest hl =>
    exact hsame (State.chain_congr rfl (by simp [hl]) rfl) rfl rfl
  | sentAll i n l r p hl hw =>
    refine hs.finish hu hl rfl rfl rfl rfl rfl (Or.inr fun hop => ?_)
    rw [hop] at hw
    cases hw
  | headPart i l r p bytes hl hop | headAll i l r p bytes hl hop =>
    exact hs.arrive hu ho hl (by simp [hop, mainOp]) (by simp [hop]) rfl (by simp [hop])
  | bodyPart i l r p bytes hl hop | bodyAll i l r p bytes hl hop =>
    exact hs.arrive hu ho hl (by simp [hop, mainOp]) (by simp [hop]) rfl (by simp [hop])
  | proxyPart i l r p bytes hl hop =>
    refine hs.arrive hu ho hl (by simp [hop, mainOp]) (by simp [hop]) rfl fun _ => ⟨rfl, Or.inr ?_⟩
    exact State.chain_congr rfl (by simp [hl]) rfl
  | proxyAll i l r p bytes len hl hop hb hsome =>
    refine hs.arrive hu ho hl (by simp [hop, mainOp]) (by simp [hop]) rfl fun _ => ⟨rfl, Or.inl ?_⟩
    exact Option.isSome_iff_exists.mpr ⟨len, hsome⟩
  | fail i err l r p hl => exact hs.finish hu hl rfl rfl rfl rfl rfl (Or.inl ⟨err, rfl⟩)

end Outside

/-! ### Handlers -/

section Runs

variable {conn len ticket : Nat} {op : Op}

theorem Judging.pop (hs : Judging e s) (hr : s.ready = h :: rest) :
    Judging e { s with ready := rest } := by
  refine hs.follow (hs.chained.pop hr) rfl rfl rfl rfl (fun _ _ hc _ => hc) ?_
  intro y hy
  refine ⟨y, ?_, rfl, rfl, Or.inl rfl⟩
  rw [State.chain_pop _ hr]
  exact List.mem_append_right _ hy

theorem status_settled {c : Closing} (x : Item) (k : Nat) :
    (x.settled c k).status = x.status ∨ (x.settled c k).status = .failed := by
  unfold Item.settled
  split
  · exact Or.inr rfl
  · exact Or.inl rfl

theorem judging_realConnect (hs : Judging e s) (ticket : Nat)
    (hclean : e.closing = .keep → ∀ x ∈ s.chain mainOp, x.status ≠ .succeeded) :
    Judging e (s.realConnect e ticket) := by
  have hempty : s.received (s.socket.conn + 1) = [] := hs.fresh _ (Nat.lt_succ_self _)
  have hnew : ∀ x ∈ (s.realConnect e ticket).chain mainOp, x.conn = s.socket.conn + 1 →
      x = ⟨s.socket.conn + 1, .connect, .waiting⟩ := by
    intro x hx hconn
    rw [chain_realConnect hs.chained] at hx
    rcases List.mem_append.mp hx with hx | hx
    · have hle : x.conn ≤ s.socket.conn := hs.chained.release.bounded x hx
      omega
    · simpa [mainOp] using hx
  constructor
  · exact chained_realConnect hs.chained ticket hclean
  · exact hs.gateway
  · exact fun k hlt => hs.fresh k (Nat.lt_of_succ_lt hlt)
  · exact fun _ _ _ _ => hempty
  · intro x hx hconn hop
    rw [hnew x hx hconn] at hop
    cases hop
  · intro x hx hconn hop
    rw [hnew x hx hconn] at hop
    cases hop
  · intro k c hc hv
    obtain ⟨hle, hrest⟩ := hs.judged k c hc hv
    exact ⟨Nat.le_succ_of_le hle, hrest⟩

/-- The chain when a handler of the current connection has started the next operation. -/
theorem chain_next {op' : Op} {data : Bytes} (hs : Chained e mainOp s) (hempty : s.chain mainOp = [])
    (hop : mainOp op' = true) (hlike : Like t (s.start op' data)) :
    ∀ x ∈ t.chain mainOp, x.op = op' ∧ x.status ≠ .succeeded := by
  intro x hx
  rw [State.chain_like hlike, State.chain_start hs.idle hop, hempty, List.nil_append] at hx
  obtain rfl := List.mem_singleton.mp hx
  refine ⟨rfl, ?_⟩
  split <;> simp

/-- The response read: what it says is the attempt's own. -/
theorem judging_onProxyRead (hm : ∀ (err : Error) (status : Int),
      e.message err ≠ "http proxy recv response status: " ++ toString status)
    (hs : Judging e s) (hr : s.ready = .complete conn .proxyRead (.success len) :: rest)
    (hc : Chained e mainOp (State.onProxyRead e { s with ready := rest } conn (.success len)))
    (hown : breaksOff (firstLine s.response) = false) :
    Judging e (State.onProxyRead e { s with ready := rest } conn (.success len)) := by
  obtain ⟨hconn, hnil⟩ := hs.chained.chain_last hr rfl
  have hmem : (⟨s.socket.conn, .proxyRead, .succeeded⟩ : Item) ∈ s.chain mainOp := by
    rw [State.chain_pop _ hr]
    simp [Handler.item?, mainOp, hconn]
  have hbytes := hs.reading _ hmem rfl rfl (by simp)
  have hhead := hs.found _ hmem rfl rfl rfl
  have hpop := hs.pop hr
  have hturn := turn_onProxyRead (e := e) (s := { s with ready := rest }) conn (.success len)
  have hlog : ∀ k c, (k, c) ∈ (State.onProxyRead e { s with ready := rest } conn (.success len)).log →
      c.Verdict → (k, c) ∈ s.log ∨ k = s.socket.conn ∧ (endOfHead (s.received k)).isSome ∧
        c = verdict (s.received k) := by
    intro k c hkc hv
    rcases verdict_of_handler (h := .complete conn .proxyRead (.success len)) hpop.gateway hm hv hkc
      with hkc | ⟨_, hh, rfl⟩
    · exact Or.inl hkc
    · obtain rfl : conn = k := (Handler.complete.inj hh).1
      subst hconn
      refine Or.inr ⟨rfl, ?_⟩
      rw [hbytes]
      exact ⟨hhead, answer_httpStatus hhead hown⟩
  cases hturn with
  | stay _ _ hlike =>
    refine hpop.turn hc hlike.conn hlike.request hlike.received ?_ hlog
    rw [State.chain_like hlike, hnil]
    simp
  | close _ _ hlike =>
    refine hpop.turn hc hlike.conn hlike.request hlike.received ?_ hlog
    rw [State.chain_like hlike, hpop.chained.chain_release, hnil]
    simp
  | next _ _ _ op' data _ hop' hlike =>
    obtain rfl : op' = .readHead := by simpa [Op.next] using hop'
    refine hpop.turn hc hlike.conn hlike.request hlike.received ?_ hlog
    intro x hx
    obtain ⟨hxo, hst⟩ := chain_next hpop.chained hnil rfl hlike x hx
    simp [hxo, hst]

/-- The request is sent, and the response is read into an empty buffer. -/
theorem judging_onProxyWritten (hs : Judging e s)
    (hr : s.ready = .complete conn .proxyWrite (.success len) :: rest)
    (hc : Chained e mainOp (State.onProxyWritten e { s with ready := rest } conn (.success len)))
    (hempty : s.response = []) :
    Judging e (State.onProxyWritten e { s with ready := rest } conn (.success len)) := by
  obtain ⟨hconn, hnil⟩ := hs.chained.chain_last hr rfl
  have hmem : (⟨s.socket.conn, .proxyWrite, .succeeded⟩ : Item) ∈ s.chain mainOp := by
    rw [State.chain_pop _ hr]
    simp [Handler.item?, mainOp, hconn]
  have hnone := hs.early _ hmem rfl (Or.inr rfl)
  have hpop := hs.pop hr
  have heq : State.onProxyWritten e { s with ready := rest } conn (.success len) =
      State.start { s with ready := rest } .proxyRead [] :=
    readUntil_of_empty (s := { s with ready := rest }) hempty
  rw [heq] at hc ⊢
  refine hpop.turn hc rfl rfl rfl ?_ fun _ _ hc _ => Or.inl hc
  intro x hx
  obtain ⟨hxo, hst⟩ := chain_next hpop.chained hnil rfl (by constructor <;> rfl) x hx
  refine ⟨hst, fun _ => hnone, fun _ => ?_⟩
  exact hnone.trans hempty.symm

theorem judging_turn (hm : ∀ (err : Error) (status : Int),
      e.message err ≠ "http proxy recv response status: " ++ toString status)
    (hs : Judging e s) (hr : s.ready = h :: rest) (hconnect : ∀ ticket, h ≠ .doConnect ticket)
    (hwrite : ∀ conn len, h ≠ .complete conn .proxyWrite (.success len))
    (hread : ∀ conn len, h ≠ .complete conn .proxyRead (.success len))
    (hc : Chained e mainOp (State.runHandler e { s with ready := rest } h)) :
    Judging e (State.runHandler e { s with ready := rest } h) := by
  have hpop := hs.pop hr
  have hlog : ∀ k c, (k, c) ∈ (State.runHandler e { s with ready := rest } h).log → c.Verdict →
      (k, c) ∈ s.log := by
    intro k c hkc hv
    rcases verdict_of_handler hpop.gateway hm hv hkc with hkc | ⟨len, rfl, _⟩
    · exact hkc
    · exact absurd rfl (hread k len)
  have hresp : (State.runHandler e { s with ready := rest } h).response = s.response :=
    response_of_handler hread
  have hturn := turn_of_run (e := e) (s := { s with ready := rest }) h hconnect
  generalize State.runHandler e { s with ready := rest } h = t at hc hlog hresp hturn
  cases hturn with
  | stay _ _ hlike =>
    refine hpop.follow hc hlike.conn hlike.request hlike.received hresp hlog ?_
    rw [State.chain_like hlike]
    exact fun y hy => ⟨y, hy, rfl, rfl, Or.inl rfl⟩
  | close _ _ hlike =>
    refine hpop.follow hc hlike.conn hlike.request hlike.received hresp hlog ?_
    rw [State.chain_like hlike, hpop.chained.chain_release]
    intro y hy
    split at hy
    · obtain ⟨x, hx, rfl⟩ := List.mem_map.mp hy
      exact ⟨x, hx, conn_settled .., op_settled .., (status_settled x _).imp_right Or.inl⟩
    · exact ⟨y, hy, rfl, rfl, Or.inl rfl⟩
  | send _ _ data _ _ hlike =>
    refine hpop.follow hc hlike.conn hlike.request hlike.received hresp hlog ?_
    rw [State.chain_like hlike, State.chain_start_unselected rfl]
    exact fun y hy => ⟨y, hy, rfl, rfl, Or.inl rfl⟩
  | next conn len op op' data _ hop' hlike =>
    by_cases hmain : mainOp op' = true
    · have hsel := leading_mainOp.back op op' hop' hmain
      obtain ⟨hconn, hnil⟩ := hs.chained.chain_last hr hsel
      refine hpop.turn hc hlike.conn hlike.request hlike.received ?_ fun k c hkc hv =>
        Or.inl (hlog k c hkc hv)
      intro x hx
      obtain ⟨hxo, hst⟩ := chain_next hpop.chained hnil hmain hlike x hx
      have hmem : (⟨s.socket.conn, op, .succeeded⟩ : Item) ∈ s.chain mainOp := by
        rw [State.chain_pop _ hr]
        simp [Handler.item?, hsel, hconn]
      refine ⟨hst, fun hop => ?_, fun hop => ?_⟩
      · -- only the handler of `connect` starts the request
        rw [hxo] at hop
        refine hs.early _ hmem rfl (Or.inl ?_)
        rcases hop with rfl | rfl <;> cases op <;> simp [Op.next] at hop' ⊢
      · rw [hxo] at hop
        subst hop
        have hpw : op = .proxyWrite := by cases op <;> simp [Op.next] at hop' ⊢
        exact absurd (hpw ▸ rfl) (hwrite conn len)
    · refine hpop.follow hc hlike.conn hlike.request hlike.received hresp hlog ?_
      rw [State.chain_like hlike, State.chain_start_unselected (by simpa using hmain)]
      exact fun y hy => ⟨y, hy, rfl, rfl, Or.inl rfl⟩
  | found conn len n => exact absurd rfl (hwrite conn len)

end Runs

theorem judging_step (hm : ∀ (err : Error) (status : Int),
      e.message err ≠ "http proxy recv response status: " ++ toString status)
    (hs : Judging e s) (hg : Alone e s a) (h : step e s a = some t) : Judging e t := by
  have hc := chained_step leading_mainOp hs.chained hg.1 h
  by_cases ha : a = .run
  · subst ha
    obtain ⟨hd, rest, hr, rfl⟩ := handler_of_run h
    have hown := hg.2.1
    simp only [ownAnswer, hr] at hown
    by_cases hconnect : ∃ ticket, hd = .doConnect ticket
    · obtain ⟨ticket, rfl⟩ := hconnect
      refine judging_realConnect (hs.pop hr) ticket fun hk x hx => ?_
      apply hg.1 (by simp [connects, hr]) hk
      rw [State.chain_pop _ hr]
      exact List.mem_append_right _ hx
    · by_cases hwrite : ∃ conn len, hd = .complete conn .proxyWrite (.success len)
      · obtain ⟨conn, len, rfl⟩ := hwrite
        exact judging_onProxyWritten hs hr hc (by simpa using hown)
      · by_cases hread : ∃ conn len, hd = .complete conn .proxyRead (.success len)
        · obtain ⟨conn, len, rfl⟩ := hread
          exact judging_onProxyRead hm hs hr hc (by simpa using hown)
        · exact judging_turn hm hs hr (fun ticket h => hconnect ⟨ticket, h⟩)
            (fun conn len h => hwrite ⟨conn, len, h⟩) (fun conn len h => hread ⟨conn, len, h⟩) hc
  · exact judging_outside hs (effect_of_step h) ha

theorem judging_run (hm : ∀ (err : Error) (status : Int),
      e.message err ≠ "http proxy recv response status: " ++ toString status)
    (hq : request ≠ []) (h : Run (step e) (Alone e) (initial request) as s) : Judging e s :=
  h.invariant _ (fun _ _ _ hs hg hst => judging_step hm hs hg hst) (judging_initial hq)

/-- While every response is read into an empty buffer and no old handler is overtaken, what came
before an attempt makes no difference: the verdict is that of the status line it received. -/
theorem verdicts_agree {request₁ request₂ : Bytes} {as₁ as₂ : List Action} {s₁ s₂ : State}
    {k₁ k₂ : Nat} {c₁ c₂ : Callback}
    (hm : ∀ (err : Error) (status : Int),
      e.message err ≠ "http proxy recv response status: " ++ toString status)
    (hq₁ : request₁ ≠ []) (h₁ : Run (step e) (Alone e) (initial request₁) as₁ s₁)
    (hq₂ : request₂ ≠ []) (h₂ : Run (step e) (Alone e) (initial request₂) as₂ s₂)
    (hc₁ : (k₁, c₁) ∈ s₁.log) (hv₁ : c₁.Verdict) (hc₂ : (k₂, c₂) ∈ s₂.log) (hv₂ : c₂.Verdict)
    (hsame : s₁.received k₁ = s₂.received k₂) :
    c₁ = c₂ ∧ c₁ = verdict (s₁.received k₁) := by
  obtain ⟨_, _, hfirst⟩ := (judging_run hm hq₁ h₁).judged k₁ c₁ hc₁ hv₁
  obtain ⟨_, _, hsecond⟩ := (judging_run hm hq₂ h₂).judged k₂ c₂ hc₂ hv₂
  refine ⟨?_, hfirst⟩
  calc c₁ = verdict (s₁.received k₁) := hfirst
    _ = verdict (s₂.received k₂) := by rw [hsame]
    _ = c₂ := hsecond.symm

/-- A first attempt, and one behind a refusal that ended with its header block. -/
theorem verdicts_agree_example :
    ∃ as₁ as₂ s₁ s₂, Run (step ⟨.big, .keep, fun _ => ""⟩) (Alone ⟨.big, .keep, fun _ => ""⟩)
        (initial [67, 79, 78]) as₁ s₁ ∧
      Run (step ⟨.big, .keep, fun _ => ""⟩) (Alone ⟨.big, .keep, fun _ => ""⟩)
        (initial [67, 79, 78]) as₂ s₂ ∧
      s₁.received 1 = [72, 84, 84, 80, 47, 49, 32, 50, 48, 48, 13, 10, 13, 10] ∧
      (1, .connect) ∈ s₁.log ∧ (2, .connect) ∈ s₂.log ∧
      Callback.connect = verdict (s₁.received 1) :=
  have h₁ := run_exec (step ⟨.big, .keep, fun _ => ""⟩) (Alone ⟨.big, .keep, fun _ => ""⟩)
    (initial [67, 79, 78])
    [.callConnect, .post 0, .run, .connected 0, .run, .transfer 0 3, .run,
      .receive 0 [72, 84, 84, 80, 47, 49, 32, 50, 48, 48, 13, 10, 13, 10], .run] (by decide)
  have h₂ := run_exec (step ⟨.big, .keep, fun _ => ""⟩) (Alone ⟨.big, .keep, fun _ => ""⟩)
    (initial [67, 79, 78])
    [.callConnect, .post 0, .run, .connected 0, .run, .transfer 0 3, .run,
      .receive 0 [72, 84, 84, 80, 47, 49, 32, 52, 48, 55, 13, 10, 13, 10], .run,
      .callConnect, .post 0, .run, .connected 0, .run, .transfer 0 3, .run,
      .receive 0 [72, 84, 84, 80, 47, 49, 32, 50, 48, 48, 13, 10, 13, 10], .run] (by decide)
  have hm (_ : Error) (status : Int) :
      "" ≠ "http proxy recv response status: " ++ toString status := by
    intro heq
    have hchars := congrArg (fun s => s.toList.take 1) heq
    simp at hchars
  ⟨_, _, _, _, h₁, h₂, by decide, by decide, by decide,
    (verdicts_agree hm (by decide) h₁ (by decide) h₂ (show (1, Callback.connect) ∈ _ by decide)
      (Or.inl rfl) (show (2, Callback.connect) ∈ _ by decide) (Or.inl rfl) (by decide)).2⟩

/-- The first attempt is refused, and one byte follows the header block of the refusal; the second
receives what a first attempt is accepted with, and is refused for it. -/
theorem verdict_of_leftover :
    ¬ ∀ as₁ as₂ s₁ s₂ k₁ k₂ c₁ c₂,
      Run (step ⟨.big, .keep, fun _ => ""⟩) Free (initial [67, 79, 78]) as₁ s₁ →
      Run (step ⟨.big, .keep, fun _ => ""⟩) Free (initial [67, 79, 78]) as₂ s₂ →
      (k₁, c₁) ∈ s₁.log → c₁.Verdict → (k₂, c₂) ∈ s₂.log → c₂.Verdict →
      s₁.received k₁ = s₂.received k₂ → c₁ = c₂ := by
  intro h
  have h₁ := run_exec (step ⟨.big, .keep, fun _ => ""⟩) Free (initial [67, 79, 78])
    [.callConnect, .post 0, .run, .connected 0, .run, .transfer 0 3, .run,
      .receive 0 [72, 84, 84, 80, 47, 49, 32, 50, 48, 48, 13, 10, 13, 10], .run] (by decide)
  have h₂ := run_exec (step ⟨.big, .keep, fun _ => ""⟩) Free (initial [67, 79, 78])
    [.callConnect, .post 0, .run, .connected 0, .run, .transfer 0 3, .run,
      .receive 0 [72, 84, 84, 80, 47, 49, 32, 52, 48, 55, 13, 10, 13, 10, 88], .run,
      .callConnect, .post 0, .run, .connected 0, .run, .transfer 0 3, .run,
      .receive 0 [72, 84, 84, 80, 47, 49, 32, 50, 48, 48, 13, 10, 13, 10], .run] (by decide)
  have heq := h _ _ _ _ 1 2 .connect
    (.error "connect" ("http proxy recv response status: " ++ toString (0 : Int))) h₁ h₂ (by decide)
    (Or.inl rfl) (by decide) (Or.inr ⟨0, rfl⟩) (by decide)
  cases heq

end NetworkUtility.EtcpClient
