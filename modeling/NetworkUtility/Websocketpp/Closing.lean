import NetworkUtility.Websocketpp.Link

/-! The closing handshake: an end that a close frame finds open has handed over what its peer sent in front
of that frame, and nothing behind it. -/
namespace NetworkUtility.Websocketpp

open Machine Blocks

/-- No close frame is among them. -/
def Unclosed (l : List Message) : Prop := ∀ m ∈ l, m.opcode ≠ .close

/-- A code and a reason that a close frame can have. -/
structure Answerable (code : Nat) (reason : Bytes) : Prop where
  valid : code = 1005 ∨ closeInvalid code = false ∧ closeReserved code = false
  short : reason.length ≤ 123
  blank : code = 1005 → reason = []

theorem Answerable.prepared {code : Nat} {reason : Bytes} (h : Answerable code reason) (p : Processor)
    (rng : Nat) : ∃ m, p.prepareClose rng code reason = .ok m := by
  have hreserved : closeReserved code = false := by
    obtain rfl | hcode := h.valid
    · rfl
    · exact hcode.2
  have hinvalid : ¬ (closeInvalid code = true ∧ code ≠ 1005) := by
    rintro ⟨hinvalid, hne⟩
    obtain hcode | hcode := h.valid
    · exact hne hcode
    · rw [hcode.1] at hinvalid
      cases hinvalid
  have hlen := h.short
  unfold Processor.prepareClose
  rw [if_neg (by rw [hreserved]; exact Bool.false_ne_true), if_neg hinvalid,
    if_neg fun hc => hc.2 (h.blank hc.1), if_neg (by rw [payloadSizeBasic]; omega)]
  unfold Processor.prepareControl
  dsimp only
  rw [if_neg (by decide), if_neg]
  · exact ⟨_, rfl⟩
  · split_ifs
    · rw [List.length_append, length_store, payloadSizeBasic]
      omega
    · exact Nat.not_lt_zero _

/-- What a close frame says can be said in the answer. -/
theorem answerable_extracted {host : ByteOrder} {payload : Bytes} (hlen : payload.length ≤ 125)
    (hcode : (extractCode host payload).2 = false) :
    Answerable (extractCode host payload).1 (extractReason payload).1 := by
  match payload with
  | [] => exact ⟨.inl rfl, Nat.zero_le _, fun _ => rfl⟩
  | [b] => cases hcode
  | b :: d :: rest =>
    obtain ⟨hinvalid, hreserved⟩ := Bool.or_eq_false_iff.mp hcode
    refine ⟨.inr ⟨hinvalid, hreserved⟩, ?_, fun h => ?_⟩
    · change rest.length ≤ 123
      rw [List.length_cons, List.length_cons] at hlen
      omega
    · change networkOrder host 2 (host.load [b, d]) = 1005 at h
      rw [h] at hinvalid
      cases hinvalid

/-- The strand is about to deal with a close frame. -/
def Strand.closes : Strand → Bool
  | control m _ => m.opcode = .close
  | close _ | ack _ _ _ => true
  | _ => false

namespace Connection

variable {c c' : Connection} {a : Action} {rest : Bytes} {m : Message}

/-- Where the strand is with the first close frame while the connection is open. -/
inductive AtClose (c : Connection) (m : Message) : Prop
  | frame (rest : Bytes) (hstrand : c.strand = .control m rest) (hlen : m.payload.length ≤ 125)
  | codes (rest : Bytes) (hstrand : c.strand = .close rest)
    (hanswer : Answerable c.remoteClose.1 c.remoteClose.2)
  | refuse (reason rest : Bytes) (hstrand : c.strand = .ack 1002 reason rest)
    (hreason : reason.length ≤ 123)

theorem AtClose.closes (h : c.AtClose m) (hclose : m.opcode = .close) : c.strand.closes ≠ false := by
  cases h with
  | frame rest hstrand =>
    rw [hstrand, Strand.closes, hclose]
    decide
  | codes rest hstrand =>
    rw [hstrand]
    nofun
  | refuse reason rest hstrand =>
    rw [hstrand]
    nofun

theorem AtClose.of_control {k : Message} (h : c.AtClose m) (hstrand : c.strand = .control k rest) :
    m = k ∧ m.payload.length ≤ 125 := by
  cases h with
  | frame rest' hstrand' hlen =>
    rw [hstrand] at hstrand'
    exact ⟨(Strand.control.inj hstrand').1.symm, hlen⟩
  | codes rest' hstrand' =>
    rw [hstrand] at hstrand'
    cases hstrand'
  | refuse reason rest' hstrand' =>
    rw [hstrand] at hstrand'
    cases hstrand'

theorem AtClose.of_close (h : c.AtClose m) (hstrand : c.strand = .close rest) :
    Answerable c.remoteClose.1 c.remoteClose.2 := by
  cases h with
  | codes rest' hstrand' hanswer => exact hanswer
  | frame rest' hstrand' =>
    rw [hstrand] at hstrand'
    cases hstrand'
  | refuse reason rest' hstrand' =>
    rw [hstrand] at hstrand'
    cases hstrand'

theorem AtClose.of_ack {code : Nat} {reason : Bytes} (h : c.AtClose m)
    (hstrand : c.strand = .ack code reason rest) : code = 1002 ∧ reason.length ≤ 123 := by
  cases h with
  | refuse reason' rest' hstrand' hreason =>
    rw [hstrand] at hstrand'
    cases hstrand'
    exact ⟨rfl, hreason⟩
  | frame rest' hstrand' =>
    rw [hstrand] at hstrand'
    cases hstrand'
  | codes rest' hstrand' =>
    rw [hstrand] at hstrand'
    cases hstrand'

/-- What has been handed over when a close frame has found the connection open. -/
def Complete (c : Connection) : Prop :=
  ∃ before m after, c.processed = before ++ m :: after ∧ m.opcode = .close ∧ Unclosed before ∧
    c.handed = before.filter Message.isData

/-- Before the first close frame; with it; in front of the answer to it; or no longer open. -/
inductive Stage (c : Connection) : Prop
  | before (hopen : c.state = .opened) (hgraceful : c.graceful = false) (hstrand : c.strand.closes = false)
    (hnone : Unclosed c.processed)
  | came (hopen : c.state = .opened) (hgraceful : c.graceful = false) (front : List Message) (m : Message)
    (hprocessed : c.processed = front ++ [m]) (hclose : m.opcode = .close) (hnone : Unclosed front)
    (hat : c.AtClose m)
  | answering (rest : Bytes) (hstrand : c.strand = .ack 0 [] rest)
    (hanswer : Answerable c.remoteClose.1 c.remoteClose.2) (hcomplete : c.Complete)
  | left (hleft : c.state ≠ .opened) (hcomplete : c.graceful = true → c.Complete)

theorem Complete.same (h : c.Complete) (hp : c'.processed = c.processed) (hh : c'.handed = c.handed) :
    c'.Complete := by
  unfold Complete
  rw [hp, hh]
  exact h

theorem Complete.more (h : c.Complete) (hp : c'.processed = c.processed ++ [m])
    (hh : c'.handed = c.handed) : c'.Complete := by
  obtain ⟨front, k, behind, hprocessed, hclose, hnone, hhanded⟩ := h
  refine ⟨front, k, behind ++ [m], ?_, hclose, hnone, hh.trans hhanded⟩
  rw [hp, hprocessed, List.append_assoc]
  rfl

theorem Stage.complete (h : c.Stage) (hg : c.graceful = true) : c.Complete := by
  cases h with
  | before _ hgraceful =>
    rw [hg] at hgraceful
    cases hgraceful
  | came _ hgraceful =>
    rw [hg] at hgraceful
    cases hgraceful
  | answering _ _ _ hcomplete => exact hcomplete
  | left _ hcomplete => exact hcomplete hg

/-- Nothing is handed over or found open from here on. -/
theorem Stage.leave (h : c.Stage) (hleft : c'.state ≠ .opened) (hp : c'.processed = c.processed)
    (hh : c'.handed = c.handed) (hg : c'.graceful = c.graceful) : c'.Stage :=
  .left hleft fun hgraceful => (h.complete (hg ▸ hgraceful)).same hp hh

theorem Stage.quiet (h : c.Stage) (ha : c.Quiet c') : c'.Stage := by
  obtain hstate | hleft := ha.state
  · cases h with
    | before hopen hgraceful hstrand hnone =>
      exact .before (hstate.trans hopen) (ha.graceful.trans hgraceful) (ha.strand ▸ hstrand)
        (ha.processed ▸ hnone)
    | came hopen hgraceful front m hprocessed hclose hnone hat =>
      refine .came (hstate.trans hopen) (ha.graceful.trans hgraceful) front m
        (ha.processed.trans hprocessed) hclose hnone ?_
      cases hat with
      | frame rest hstrand hlen => exact .frame rest (ha.strand.trans hstrand) hlen
      | codes rest hstrand hanswer =>
        exact .codes rest (ha.strand.trans hstrand) (ha.remoteClose ▸ hanswer)
      | refuse reason rest hstrand hreason => exact .refuse reason rest (ha.strand.trans hstrand) hreason
    | answering rest hstrand hanswer hcomplete =>
      exact .answering rest (ha.strand.trans hstrand) (ha.remoteClose ▸ hanswer)
        (hcomplete.same ha.processed ha.handed)
    | left hleft hcomplete =>
      exact .left (hstate ▸ hleft) fun hg => (hcomplete (ha.graceful ▸ hg)).same ha.processed ha.handed
  · exact h.leave hleft ha.processed ha.handed ha.graceful

/-- A step of the strand that is not about a close frame. -/
theorem Stage.strand {s : Strand} {d : Connection} (h : c.Stage) (ha : c.Quiet d)
    (hfrom : c.strand.closes = false) (hto : s.closes = false) :
    Stage { d with strand := s } := by
  obtain hstate | hleft := ha.state
  · cases h with
    | before hopen hgraceful hstrand hnone =>
      exact .before (hstate.trans hopen) (ha.graceful.trans hgraceful) hto (ha.processed ▸ hnone)
    | came _ _ front m _ hclose _ hat => exact absurd hfrom (hat.closes hclose)
    | answering rest hstrand =>
      rw [hstrand] at hfrom
      cases hfrom
    | left hleft hcomplete =>
      exact .left (hstate ▸ hleft) fun hg => (hcomplete (ha.graceful ▸ hg)).same ha.processed ha.handed
  · exact h.leave hleft ha.processed ha.handed ha.graceful

theorem Stage.round (h : c.Stage) (hstrand : c.strand = .frames rest) (hr : c.ReadRound rest c')
    (hsize : ∀ m ∈ c'.processed, m.opcode.isControl = true → m.payload.length ≤ 125) : c'.Stage := by
  have hfrom : c.strand.closes = false := by rw [hstrand]; rfl
  cases hr with
  | done => exact h.strand (d := { c with reading := true }) ⟨.inl rfl, rfl, rfl, rfl, rfl, rfl⟩ hfrom rfl
  | failed => exact h.strand (Aside.refl c).toQuiet hfrom rfl
  | @part q left _ _ _ =>
    exact h.strand (d := { c with processor := q.getMessage.2 })
      ⟨.inl rfl, rfl, rfl, rfl, rfl, rfl⟩ hfrom rfl
  | @control q left m hrest hconsume hmessage hcontrol =>
    cases h with
    | before hopen hgraceful _ hnone =>
      by_cases hclose : m.opcode = .close
      · refine .came hopen hgraceful c.processed m rfl hclose hnone (.frame left rfl ?_)
        exact hsize m (List.mem_append_right _ (List.mem_singleton_self m)) hcontrol
      · refine .before hopen hgraceful (decide_eq_false hclose) fun k hk => ?_
        obtain hk | hk := List.mem_append.mp hk
        · exact hnone k hk
        · obtain rfl := List.mem_singleton.mp hk
          exact hclose
    | came _ _ front k _ hclose _ hat => exact absurd hfrom (hat.closes hclose)
    | answering _ hanswering =>
      rw [hstrand] at hanswering
      cases hanswering
    | left hleft hcomplete => exact .left hleft fun hg => (hcomplete hg).more rfl rfl
  | @data q left m hrest hconsume hmessage hcontrol =>
    cases h with
    | before hopen hgraceful _ hnone =>
      refine .before hopen hgraceful rfl fun k hk => ?_
      obtain hk | hk := List.mem_append.mp hk
      · exact hnone k hk
      · obtain rfl := List.mem_singleton.mp hk
        intro hclose
        rw [hclose] at hcontrol
        cases hcontrol
    | came _ _ front k _ hclose _ hat => exact absurd hfrom (hat.closes hclose)
    | answering _ hanswering =>
      rw [hstrand] at hanswering
      cases hanswering
    | left hleft hcomplete => exact .left hleft fun hg => (hcomplete hg).more rfl (if_neg hleft)

/-- A control frame that is not a close frame. -/
theorem processControlFrame_other (c : Connection) (rest : Bytes) (hop : m.opcode ≠ .close) :
    ∃ s, Strand.closes s = false ∧ c.processControlFrame m rest = { c with strand := s } := by
  unfold processControlFrame
  dsimp only
  split
  · exact ⟨.frames rest, rfl, rfl⟩
  · split
    · exact ⟨.pong m.payload rest, rfl, rfl⟩
    · next hclose => exact absurd hclose hop
    · exact ⟨.frames rest, rfl, rfl⟩

theorem graceful_processControlFrame (c : Connection) (m : Message) (rest : Bytes) :
    (c.processControlFrame m rest).graceful = c.graceful := by
  unfold processControlFrame
  dsimp only
  split
  · rfl
  · split
    · rfl
    · split <;> rfl
    · rfl

/-- The first close frame: its codes are refused or kept for the answer. -/
theorem AtClose.next (h : c.AtClose m) (hopen : c.state = .opened) (hclose : m.opcode = .close)
    (hstrand : c.strand = .control m rest) : (c.processControlFrame m rest).AtClose m ∧
      (c.processControlFrame m rest).state = .opened ∧
      (c.processControlFrame m rest).processed = c.processed := by
  have hlen : m.payload.length ≤ 125 := (h.of_control hstrand).2
  have hskip : ¬ (c.state = .closed ∨ m.opcode ≠ .close ∧ c.state ≠ .opened) := by
    rintro (hclosed | hother)
    · rw [hopen] at hclosed
      cases hclosed
    · exact hother.1 hclose
  unfold processControlFrame
  rw [if_neg hskip, hclose]
  dsimp only
  split
  · exact ⟨.refuse _ rest rfl (by decide +kernel), hopen, rfl⟩
  · next hcode =>
    by_cases hreason : (extractReason m.payload).2 = true
    · refine ⟨.refuse (text "Invalid close reason") rest (if_pos hreason) (by decide +kernel), hopen, rfl⟩
    · refine ⟨.codes rest (if_neg hreason) ?_, hopen, rfl⟩
      exact answerable_extracted hlen (Bool.eq_false_of_not_eq_true hcode)

theorem Stage.control (h : c.Stage) (hstrand : c.strand = .control m rest) :
    (c.processControlFrame m rest).Stage := by
  have hkeeps := keeps_processControlFrame hstrand
  have hgraceful := c.graceful_processControlFrame m rest
  cases h with
  | before hopen hg hcloses hnone =>
    rw [hstrand] at hcloses
    obtain ⟨s, hs, heq⟩ := c.processControlFrame_other rest (of_decide_eq_false hcloses)
    rw [heq]
    exact .before hopen hg hs hnone
  | came hopen hg front k hprocessed hclose hnone hat =>
    obtain rfl := (hat.of_control hstrand).1
    obtain ⟨hnext, hstate, hproc⟩ := hat.next hopen hclose hstrand
    exact .came hstate (hgraceful.trans hg) front k (hproc.trans hprocessed) hclose hnone hnext
  | answering rest' hstrand' =>
    rw [hstrand] at hstrand'
    cases hstrand'
  | left hleft hcomplete =>
    exact .left (fun ho => hleft (hkeeps.state ho)) fun hg =>
      (hcomplete (hgraceful ▸ hg)).same hkeeps.processed hkeeps.handed

theorem graceful_terminate (err : Option Bytes) (c : Connection) :
    (c.terminate err).graceful = c.graceful := by
  unfold terminate
  dsimp only
  split_ifs <;> rfl

theorem Stage.closed (h : c.Stage) (hh : c.Handing) (hstrand : c.strand = .close rest) :
    (c.closeReceived rest).Stage := by
  have hkeeps := keeps_closeReceived hstrand
  cases h with
  | before _ _ hcloses =>
    rw [hstrand] at hcloses
    cases hcloses
  | answering rest' hstrand' =>
    rw [hstrand] at hstrand'
    cases hstrand'
  | came hopen hg front m hprocessed hclose hnone hat =>
    have hdata : m.isData = false := by rw [Message.isData, hclose]; rfl
    unfold closeReceived
    rw [if_pos hopen]
    refine .answering rest rfl (hat.of_close hstrand) ⟨front, m, [], hprocessed, hclose, hnone, ?_⟩
    rw [hh.opened hopen, hprocessed, List.filter_append, List.filter_singleton, hdata]
    exact List.append_nil _
  | left hleft hcomplete =>
    have hgraceful : (c.closeReceived rest).graceful = c.graceful := by
      unfold closeReceived
      rw [if_neg hleft]
      dsimp only
      split_ifs
      · exact graceful_terminate none _
      · rfl
      · rfl
    exact .left (fun ho => hleft (hkeeps.state ho)) fun hg =>
      (hcomplete (hgraceful ▸ hg)).same hkeeps.processed hkeeps.handed

/-- The answer to a close frame can be prepared. -/
theorem Stage.answer {code : Nat} {reason : Bytes} (h : c.Stage)
    (hstrand : c.strand = .ack code reason rest)
    (hopen : c.state = .opened) :
    Answerable (c.closeWith code reason true).1 (c.closeWith code reason true).2 := by
  cases h with
  | before _ _ hcloses =>
    rw [hstrand] at hcloses
    cases hcloses
  | came _ _ front m _ hclose _ hat =>
    obtain ⟨rfl, hreason⟩ := hat.of_ack hstrand
    exact ⟨.inr ⟨rfl, rfl⟩, hreason, fun h => by cases h⟩
  | answering rest' hstrand' hanswer =>
    rw [hstrand] at hstrand'
    cases hstrand'
    unfold closeWith
    rw [if_neg (fun h => h rfl), if_neg Bool.noConfusion]
    split_ifs
    · exact ⟨.inr ⟨rfl, rfl⟩, Nat.zero_le _, fun h => by cases h⟩
    · exact hanswer
  | left hleft => exact absurd hopen hleft

theorem Stage.strandStep {rng : Nat} (h : c.Stage) (hh : c.Handing)
    (hsize : ∀ m ∈ c'.processed, m.opcode.isControl = true → m.payload.length ≤ 125)
    (hst : c.strandStep rng = some c') : c'.Stage := by
  unfold Connection.strandStep at hst
  cases hstrand : c.strand with
  | idle =>
    rw [hstrand] at hst
    cases hst
  | frames rest =>
    rw [hstrand] at hst
    obtain rfl := Option.some.inj hst
    exact h.round hstrand (c.readRound_cases rest) hsize
  | control m rest =>
    rw [hstrand] at hst
    obtain rfl := Option.some.inj hst
    exact h.control hstrand
  | close rest =>
    rw [hstrand] at hst
    obtain rfl := Option.some.inj hst
    exact h.closed hh hstrand
  | pong payload rest =>
    have hfrom : c.strand.closes = false := by rw [hstrand]; rfl
    rw [hstrand] at hst
    dsimp only at hst
    split_ifs at hst
    · obtain rfl := Option.some.inj hst
      exact h.strand (Aside.refl c).toQuiet hfrom rfl
    · split at hst
      · obtain rfl := Option.some.inj hst
        exact h.strand (Aside.refl c).toQuiet hfrom rfl
      · obtain rfl := Option.some.inj hst
        exact h.strand (Aside.refl c).toQuiet hfrom rfl
  | ack code reason rest =>
    have hanswer := h.answer hstrand
    rw [hstrand] at hst
    dsimp only at hst
    obtain ⟨ec, hprepare, heq⟩ | ⟨m, -, heq⟩ :=
      c.sendCloseFrame_cases rng code reason true c.processor.server
    · rw [heq] at hst
      obtain rfl := Option.some.inj hst
      refine h.leave (fun hopen => ?_) rfl rfl rfl
      obtain ⟨m, hm⟩ := (hanswer hopen).prepared c.processor rng
      rw [hm] at hprepare
      cases hprepare
    · rw [heq] at hst
      obtain rfl := Option.some.inj hst
      exact h.leave nofun rfl rfl rfl
  | push q rest =>
    have hfrom : c.strand.closes = false := by rw [hstrand]; rfl
    rw [hstrand] at hst
    obtain rfl := Option.some.inj hst
    exact h.strand (d := c.push q) ⟨.inl rfl, rfl, rfl, rfl, rfl, rfl⟩ hfrom rfl
  | failed ec =>
    have hfrom : c.strand.closes = false := by rw [hstrand]; rfl
    rw [hstrand] at hst
    dsimp only at hst
    split_ifs at hst
    · obtain rfl := Option.some.inj hst
      exact h.strand ((Aside.refl c).terminate _).toQuiet hfrom rfl
    · obtain rfl := Option.some.inj hst
      exact h.strand (Aside.refl c).toQuiet hfrom rfl
  | failedSend code reason =>
    have hfrom : c.strand.closes = false := by rw [hstrand]; rfl
    have haside := c.aside_sendCloseFrame rng code (reason.take 123) false (closeTerminal code)
    rw [hstrand] at hst
    dsimp only at hst
    obtain ⟨ec, -, heq⟩ | ⟨m, -, heq⟩ :=
      c.sendCloseFrame_cases rng code (reason.take 123) false (closeTerminal code)
    · rw [heq] at hst haside
      obtain rfl := Option.some.inj hst
      exact h.strand (haside.terminate _).toQuiet hfrom rfl
    · rw [heq] at hst haside
      obtain rfl := Option.some.inj hst
      exact h.strand haside.toQuiet hfrom rfl
  | failedPush q =>
    have hfrom : c.strand.closes = false := by rw [hstrand]; rfl
    rw [hstrand] at hst
    obtain rfl := Option.some.inj hst
    exact h.strand (d := c.push q) ⟨.inl rfl, rfl, rfl, rfl, rfl, rfl⟩ hfrom rfl

theorem Stage.step (h : c.Stage) (hh : c.Handing)
    (hsize : ∀ m ∈ c'.processed, m.opcode.isControl = true → m.payload.length ≤ 125)
    (hst : c.step a = some c') : c'.Stage := by
  obtain ⟨rng, -, hst⟩ | ⟨data, -, hidle, -, rfl⟩ | haside := step_cases hst
  · exact h.strandStep hh hsize hst
  · have hfrom : c.strand.closes = false := by rw [hidle]; rfl
    exact h.strand (d := { c with reading := false, taken := c.taken ++ data })
      ⟨.inl rfl, rfl, rfl, rfl, rfl, rfl⟩ hfrom rfl
  · exact h.quiet haside.toQuiet

/-! ### Runs -/

/-- No control frame is larger than it may be. -/
theorem Reading.small {host : ByteOrder} {server : Bool} {n : Nat}
    (h : c.Reading (.start host server n)) :
    ∀ m ∈ c.processed, m.opcode.isControl = true → m.payload.length ≤ 125 := by
  intro m hm hcontrol
  obtain hc | hs := feed_sound host server n c.taken m (h.processed.subset hm)
  · exact hc.size
  · obtain hkind | hkind := hs.kind <;> (rw [hkind] at hcontrol; cases hcontrol)

structure Staged (host : ByteOrder) (server : Bool) (n : Nat) (c : Connection) : Prop where
  reading : c.Reading (.start host server n)
  handing : c.Handing
  stage : c.Stage

theorem staged_start (host : ByteOrder) (server : Bool) (n : Nat) :
    (start host server n).Staged host server n :=
  ⟨reading_start host server n, handing_start host server n,
    .before rfl rfl rfl fun _ hm => absurd hm List.not_mem_nil⟩

theorem Staged.step {host : ByteOrder} {server : Bool} {n : Nat} (h : c.Staged host server n)
    (hst : c.step a = some c') : c'.Staged host server n :=
  have hread := h.reading.step hst
  ⟨hread, h.handing.step hst, h.stage.step h.handing hread.small hst⟩

end Connection

/-! ### Both ends -/

/-- What is sent is a close frame when the call is one. -/
theorem close_frame {p : Processor} {q : Queued} (h : q.Genuine p) :
    (q.send.frame p).message.opcode = .close ↔ q.send.isClose = true := by
  unfold Queued.Genuine at h
  cases hs : q.send with
  | data rng m =>
    rw [hs] at h
    refine ⟨fun hop => ?_, fun hc => by cases hc⟩
    change m.opcode = .close at hop
    change p.prepareDataFrame rng m = _ at h
    unfold Processor.prepareDataFrame at h
    rw [hop, if_pos (by decide)] at h
    cases h
  | ping rng payload => exact ⟨fun hop => (by cases hop), fun hc => by cases hc⟩
  | pong rng payload => exact ⟨fun hop => (by cases hop), fun hc => by cases hc⟩
  | close rng code reason => exact ⟨fun _ => rfl, fun _ => rfl⟩

theorem sent_genuine {p : Processor} {l : List Queued} (hl : ∀ q ∈ l, q.Genuine p) :
    p.sent (l.map Queued.send) = l.map fun q => (q.send.frame p).message := by
  induction l with
  | nil => rfl
  | cons q l ih =>
    have hq : q.send.prepare p = .ok q.message := hl q List.mem_cons_self
    rw [List.map_cons, Processor.sent, hq]
    dsimp only
    rw [ih fun r hr => hl r (List.mem_cons_of_mem _ hr)]
    rfl

/-- A close frame that finds an end open: what that end has handed over are all the data messages that its
peer has queued in front of its first close frame, as they were sent and in their order; none of those
behind it is handed over. -/
theorem link_closes {host : Bool → ByteOrder} {limit : Bool → Nat} {es : List (Bool × Action)} {l : Link}
    (h : Run Link.step Free (Link.start host limit) es l) (server : Bool)
    (hlimit : limit (!server) < 2 ^ 64)
    (hwhole : ∀ s ∈ (l server).pushed.map Queued.send, s.Whole (limit (!server)))
    (hgraceful : (l (!server)).graceful = true) :
    ∃ front q behind, (l server).pushed = front ++ q :: behind ∧ q.send.isClose = true ∧
      (∀ r ∈ front, r.send.isClose = false) ∧
      (l (!server)).handed = ((Processor.start (host server) server (limit server)).sent
        (front.map Queued.send)).filter Message.isData := by
  have hinv := Link.inv_run h
  have hstaged := Link.run_end h (fun s => Connection.staged_start (host s) s (limit s))
    (fun _ _ _ _ hc hst => Connection.Staged.step hc hst) (!server)
  have hpushed := (hinv.queues server).pushed
  obtain ⟨before, m, after, hprocessed, hclose, hnone, hhanded⟩ := hstaged.stage.complete hgraceful
  obtain ⟨out, t, hfeed, hsent, -⟩ := hinv.comes server hlimit hwhole
  have hcame := (hinv.reading (!server)).processed
  rw [hfeed] at hcame
  obtain ⟨more, hmore⟩ := hcame.trans hsent
  rw [sent_genuine hpushed, hprocessed, List.append_assoc, List.cons_append] at hmore
  obtain ⟨front, rest, hsplit, hfront, hrest⟩ := List.map_eq_append_iff.mp hmore.symm
  obtain ⟨q, behind, rfl, hq, -⟩ := List.map_eq_cons_iff.mp hrest
  rw [hsplit] at hpushed
  have hgenuine : ∀ r ∈ front, r.Genuine (Processor.start (host server) server (limit server)) :=
    fun r hr => hpushed r (List.mem_append_left _ hr)
  refine ⟨front, q, behind, hsplit, ?_, fun r hr => ?_, ?_⟩
  · refine (close_frame (hpushed q (List.mem_append_right _ List.mem_cons_self))).mp ?_
    rw [hq]
    exact hclose
  · refine Bool.eq_false_of_not_eq_true fun hc => ?_
    refine hnone (r.send.frame (.start (host server) server (limit server))).message ?_
      ((close_frame (hgenuine r hr)).mpr hc)
    rw [← hfront]
    exact List.mem_map_of_mem hr
  · rw [hhanded, sent_genuine hgenuine, hfront]

/-- The client sends a text and closes. -/
def goodbye : List (Bool × Action) :=
  [(false, .call (.data 0x04030201 ⟨.text, [0x68, 0x69], true, []⟩)), (false, .push 0),
    (false, .writeFrame), (false, .callClose 1000 []), (false, .closeSend 7), (false, .closePush),
    (false, .transfer 0 8), (false, .written 0 none), (false, .writeFrame), (false, .transfer 0 8),
    (true, .read [0x81, 0x82, 1, 2, 3, 4, 0x69, 0x6B, 0x88, 0x82, 7, 0, 0, 0, 0x04, 0xE8]),
    (true, .strand 0), (true, .strand 0), (true, .strand 0), (true, .strand 0)]

theorem link_closes_goodbye : ∃ l : Link,
    Run Link.step Free (Link.start (fun _ => .little) fun _ => 100) goodbye l ∧
      ∃ front q behind, (l false).pushed = front ++ q :: behind ∧ q.send.isClose = true ∧
        (∀ r ∈ front, r.send.isClose = false) ∧
        (l true).handed = ((Processor.start .little false 100).sent
          (front.map Queued.send)).filter Message.isData := by
  have h := run_exec Link.step Free (Link.start (fun _ => .little) fun _ => 100) goodbye
    (by decide +kernel)
  refine ⟨_, h, link_closes h false (by decide) ?_ (by decide +kernel)⟩
  intro s hs
  obtain rfl | hs := List.mem_cons.mp hs
  · exact ⟨rfl, .inl rfl, by decide⟩
  · obtain rfl := List.mem_singleton.mp hs
    trivial

end NetworkUtility.Websocketpp
