import NetworkUtility.Websocketpp.Writing
import Mathlib.Logic.Function.Basic

/-! What a connection reads, whatever its threads do meanwhile; and the two ends of one connection: what
is handed over at one end is what the other has sent. -/
namespace NetworkUtility.Websocketpp

open Machine Blocks

/-- The strand is not in the loop of `handle_read_frame`. -/
def Strand.outside : Strand → Bool
  | idle | failed _ | failedSend _ _ | failedPush _ => true
  | _ => false

/-- A message for the message handler. -/
def Message.isData (m : Message) : Bool := !m.opcode.isControl

namespace Connection

variable {c c' d : Connection} {a : Action} {p : Processor} {rest data : Bytes}

/-- Nothing is read and no message is taken from the processor; nor is a connection opened again. -/
structure Keeps (c c' : Connection) : Prop where
  processor : c'.processor = c.processor
  taken : c'.taken = c.taken
  processed : c'.processed = c.processed
  handed : c'.handed = c.handed
  state : c'.state = .opened → c.state = .opened
  reading : c'.reading = true → c.reading = true
  rest : c'.strand.rest = c.strand.rest
  outside : c'.strand.outside = c.strand.outside
  idle : c.strand = .idle → c'.strand = .idle

theorem Keeps.terminate (h : c.Keeps d) (err : Option Bytes) : c.Keeps (d.terminate err) := by
  unfold Connection.terminate
  dsimp only
  split_ifs
  · exact ⟨h.processor, h.taken, h.processed, h.handed, h.state, h.reading, h.rest, h.outside, h.idle⟩
  · exact ⟨h.processor, h.taken, h.processed, h.handed, nofun, h.reading, h.rest, h.outside, h.idle⟩

theorem Keeps.refl (c : Connection) : c.Keeps c := ⟨rfl, rfl, rfl, rfl, id, id, rfl, rfl, id⟩

/-- The strand is in the same place with respect to the loop. -/
theorem Keeps.strand {s : Strand} (h : c.Keeps d) (hrest : s.rest = c.strand.rest)
    (hout : s.outside = c.strand.outside) (hidle : c.strand ≠ .idle) :
    c.Keeps { d with strand := s } :=
  ⟨h.processor, h.taken, h.processed, h.handed, h.state, h.reading, hrest, hout, fun h => absurd h hidle⟩

/-- The strand does nothing. -/
structure Quiet (c c' : Connection) : Prop where
  state : c'.state = c.state ∨ c'.state ≠ .opened
  strand : c'.strand = c.strand
  processed : c'.processed = c.processed
  handed : c'.handed = c.handed
  graceful : c'.graceful = c.graceful
  remoteClose : c'.remoteClose = c.remoteClose

/-- Another thread has made the step, or a handler that has nothing to do with what is read. -/
structure Aside (c c' : Connection) : Prop extends c.Quiet c' where
  processor : c'.processor = c.processor
  taken : c'.taken = c.taken
  reading : c'.reading = true → c.reading = true

theorem Aside.refl (c : Connection) : c.Aside c := ⟨⟨.inl rfl, rfl, rfl, rfl, rfl, rfl⟩, rfl, rfl, id⟩

theorem Aside.terminate (h : c.Aside d) (err : Option Bytes) : c.Aside (d.terminate err) := by
  obtain ⟨⟨_, hstrand, hprocessed, hhanded, hgraceful, hremote⟩, hprocessor, htaken, hreading⟩ := h
  unfold Connection.terminate
  dsimp only
  split_ifs with hclosed
  · exact ⟨⟨.inr (by rw [hclosed]; nofun), hstrand, hprocessed, hhanded, hgraceful, hremote⟩, hprocessor,
      htaken, hreading⟩
  · exact ⟨⟨.inr nofun, hstrand, hprocessed, hhanded, hgraceful, hremote⟩, hprocessor, htaken, hreading⟩

theorem Aside.keeps (h : c.Aside c') : c.Keeps c' where
  processor := h.processor
  taken := h.taken
  processed := h.processed
  handed := h.handed
  state ho := h.state.elim (fun hs => hs ▸ ho) fun hn => absurd ho hn
  reading := h.reading
  rest := congrArg Strand.rest h.strand
  outside := congrArg Strand.outside h.strand
  idle hi := h.strand.trans hi

/-- A close frame leaves the state `open`. -/
theorem aside_sendCloseFrame (c : Connection) (rng code : Nat) (reason : Bytes) (ack terminal : Bool) :
    c.Aside (c.sendCloseFrame rng code reason ack terminal).2 := by
  obtain ⟨ec, -, heq⟩ | ⟨m, -, heq⟩ := c.sendCloseFrame_cases rng code reason ack terminal
  · rw [heq]
    exact ⟨⟨.inl rfl, rfl, rfl, rfl, rfl, rfl⟩, rfl, rfl, id⟩
  · rw [heq]
    exact ⟨⟨.inr nofun, rfl, rfl, rfl, rfl, rfl⟩, rfl, rfl, id⟩

/-- What a step does to what is read. -/
inductive Receives (c : Connection) : Action → Connection → Prop
  | keeps {a : Action} {c' : Connection} (h : c.Keeps c') : Receives c a c'
  | read (data : Bytes) (hidle : c.strand = .idle) (hreading : c.reading = true) :
    Receives c (.read data) { c with strand := .frames data, reading := false, taken := c.taken ++ data }
  | round {a : Action} {c' : Connection} (rest : Bytes) (hstrand : c.strand = .frames rest)
    (hround : c.ReadRound rest c') : Receives c a c'

theorem idle_iff : c.idle = true ↔ c.strand = .idle := by
  unfold idle
  cases c.strand <;> simp

theorem keeps_processControlFrame {m : Message} (hstrand : c.strand = .control m rest) :
    c.Keeps (c.processControlFrame m rest) := by
  have keeps : ∀ d s, c.Keeps d → s.rest = rest → s.outside = false → c.Keeps { d with strand := s } := by
    intro d s hd hrest hout
    refine hd.strand ?_ ?_ ?_
    · rw [hstrand]
      exact hrest
    · rw [hstrand]
      exact hout
    · rw [hstrand]
      nofun
  have keeps_close : ∀ r s, s.rest = rest → s.outside = false →
      c.Keeps { c with remoteClose := r, strand := s } := fun r s =>
    keeps { c with remoteClose := r } s ⟨rfl, rfl, rfl, rfl, id, id, rfl, rfl, id⟩
  unfold processControlFrame
  dsimp only
  split
  · exact keeps c _ (.refl c) rfl rfl
  · split
    · exact keeps c _ (.refl c) rfl rfl
    · split
      · exact keeps_close _ _ rfl rfl
      · split
        · exact keeps_close _ _ rfl rfl
        · exact keeps_close _ _ rfl rfl
    · exact keeps c _ (.refl c) rfl rfl

theorem keeps_closeReceived (hstrand : c.strand = .close rest) : c.Keeps (c.closeReceived rest) := by
  have hrest : c.strand.rest = rest := by rw [hstrand]; rfl
  have hout : c.strand.outside = false := by rw [hstrand]; rfl
  have hidle : c.strand ≠ .idle := by rw [hstrand]; nofun
  unfold closeReceived
  dsimp only
  have hclean : c.Keeps { c with wasClean := true, strand := .frames rest } :=
    ⟨rfl, rfl, rfl, rfl, id, id, hrest.symm, hout.symm, fun h => absurd h hidle⟩
  split_ifs
  · exact ⟨rfl, rfl, rfl, rfl, id, id, hrest.symm, hout.symm, fun h => absurd h hidle⟩
  · exact hclean.terminate none
  · exact hclean
  · exact (Keeps.refl c).strand hrest.symm hout.symm hidle

theorem receives_strandStep {rng : Nat} (h : c.strandStep rng = some c') :
    c.Receives (.strand rng) c' := by
  unfold strandStep at h
  cases hstrand : c.strand with
  | idle =>
    rw [hstrand] at h
    cases h
  | frames rest =>
    rw [hstrand] at h
    obtain rfl := Option.some.inj h
    exact .round rest hstrand (c.readRound_cases rest)
  | control m rest =>
    rw [hstrand] at h
    obtain rfl := Option.some.inj h
    exact .keeps (keeps_processControlFrame hstrand)
  | close rest =>
    rw [hstrand] at h
    obtain rfl := Option.some.inj h
    exact .keeps (keeps_closeReceived hstrand)
  | pong payload rest =>
    have keeps : ∀ s : Strand, s.rest = rest → s.outside = false → c.Keeps { c with strand := s } :=
      fun s hrest hout => (Keeps.refl c).strand (by rw [hstrand]; exact hrest)
        (by rw [hstrand]; exact hout) (by rw [hstrand]; nofun)
    rw [hstrand] at h
    dsimp only at h
    split_ifs at h
    · obtain rfl := Option.some.inj h
      exact .keeps (keeps _ rfl rfl)
    · split at h
      · obtain rfl := Option.some.inj h
        exact .keeps (keeps _ rfl rfl)
      · obtain rfl := Option.some.inj h
        exact .keeps (keeps _ rfl rfl)
  | ack code reason rest =>
    have keeps : ∀ s : Strand, s.rest = rest → s.outside = false →
        c.Keeps { (c.sendCloseFrame rng code reason true c.processor.server).2 with strand := s } :=
      fun s hrest hout => (c.aside_sendCloseFrame ..).keeps.strand (by rw [hstrand]; exact hrest)
        (by rw [hstrand]; exact hout) (by rw [hstrand]; nofun)
    rw [hstrand] at h
    dsimp only at h
    obtain ⟨ec, -, heq⟩ | ⟨m, -, heq⟩ := c.sendCloseFrame_cases rng code reason true c.processor.server
    · rw [heq] at h keeps
      obtain rfl := Option.some.inj h
      exact .keeps (keeps _ rfl rfl)
    · rw [heq] at h keeps
      obtain rfl := Option.some.inj h
      exact .keeps (keeps _ rfl rfl)
  | push q rest =>
    rw [hstrand] at h
    obtain rfl := Option.some.inj h
    exact .keeps ⟨rfl, rfl, rfl, rfl, id, id, by rw [hstrand]; rfl, by rw [hstrand]; rfl,
      fun h => by rw [hstrand] at h; cases h⟩
  | failed ec =>
    have hout : c.strand.outside = true := by rw [hstrand]; rfl
    have hrest : c.strand.rest = [] := by rw [hstrand]; rfl
    have hidle : c.strand ≠ .idle := by rw [hstrand]; nofun
    rw [hstrand] at h
    dsimp only at h
    split_ifs at h
    · obtain rfl := Option.some.inj h
      exact .keeps (((Keeps.refl c).terminate _).strand hrest.symm hout.symm hidle)
    · obtain rfl := Option.some.inj h
      exact .keeps ((Keeps.refl c).strand hrest.symm hout.symm hidle)
  | failedSend code reason =>
    have hout : c.strand.outside = true := by rw [hstrand]; rfl
    have hrest : c.strand.rest = [] := by rw [hstrand]; rfl
    have hidle : c.strand ≠ .idle := by rw [hstrand]; nofun
    have hkeeps := (c.aside_sendCloseFrame rng code (reason.take 123) false (closeTerminal code)).keeps
    rw [hstrand] at h
    dsimp only at h
    obtain ⟨ec, -, heq⟩ | ⟨m, -, heq⟩ :=
      c.sendCloseFrame_cases rng code (reason.take 123) false (closeTerminal code)
    · rw [heq] at h hkeeps
      obtain rfl := Option.some.inj h
      exact .keeps ((hkeeps.terminate _).strand hrest.symm hout.symm hidle)
    · rw [heq] at h hkeeps
      obtain rfl := Option.some.inj h
      exact .keeps (hkeeps.strand hrest.symm hout.symm hidle)
  | failedPush q =>
    rw [hstrand] at h
    obtain rfl := Option.some.inj h
    exact .keeps ⟨rfl, rfl, rfl, rfl, id, id, by rw [hstrand]; rfl, by rw [hstrand]; rfl, fun _ => rfl⟩

/-- A step is one of the strand, or a read, or something else. -/
theorem step_cases (h : c.step a = some c') :
    (∃ rng, a = .strand rng ∧ c.strandStep rng = some c') ∨
    (∃ data, a = .read data ∧ c.strand = .idle ∧ c.reading = true ∧
      c' = { c with strand := .frames data, reading := false, taken := c.taken ++ data }) ∨
    c.Aside c' := by
  cases a with
  | strand rng => exact .inl ⟨rng, rfl, h⟩
  | read data =>
    dsimp only [step] at h
    split_ifs at h with hread
    exact .inr (.inl ⟨data, rfl, idle_iff.mp hread.1, hread.2.1, (Option.some.inj h).symm⟩)
  | call s =>
    dsimp only [step] at h
    split_ifs at h
    obtain rfl := Option.some.inj h
    exact .inr (.inr ⟨⟨.inl rfl, rfl, rfl, rfl, rfl, rfl⟩, rfl, rfl, id⟩)
  | push i =>
    obtain ⟨s, -, rfl⟩ := Option.map_eq_some_iff.mp h
    refine .inr (.inr ?_)
    dsimp only
    split
    · exact ⟨⟨.inl rfl, rfl, rfl, rfl, rfl, rfl⟩, rfl, rfl, id⟩
    · exact ⟨⟨.inl rfl, rfl, rfl, rfl, rfl, rfl⟩, rfl, rfl, id⟩
  | callClose code reason =>
    dsimp only [step] at h
    split_ifs at h
    obtain rfl := Option.some.inj h
    exact .inr (.inr ⟨⟨.inl rfl, rfl, rfl, rfl, rfl, rfl⟩, rfl, rfl, id⟩)
  | closeSend rng =>
    dsimp only [step] at h
    split at h
    · next code reason _ =>
      have haside := c.aside_sendCloseFrame rng code reason false (closeTerminal code)
      obtain ⟨ec, -, heq⟩ | ⟨m, -, heq⟩ :=
        c.sendCloseFrame_cases rng code reason false (closeTerminal code)
      · rw [heq] at h haside
        obtain rfl := Option.some.inj h
        exact .inr (.inr ⟨⟨haside.state, rfl, rfl, rfl, rfl, rfl⟩, rfl, rfl, id⟩)
      · rw [heq] at h haside
        obtain rfl := Option.some.inj h
        exact .inr (.inr ⟨⟨haside.state, rfl, rfl, rfl, rfl, rfl⟩, rfl, rfl, id⟩)
    · cases h
  | closePush =>
    dsimp only [step] at h
    split at h
    · obtain rfl := Option.some.inj h
      exact .inr (.inr ⟨⟨.inl rfl, rfl, rfl, rfl, rfl, rfl⟩, rfl, rfl, id⟩)
    · cases h
  | terminate err =>
    obtain rfl := Option.some.inj h
    exact .inr (.inr ((Aside.refl c).terminate err))
  | readError eof message =>
    dsimp only [step] at h
    split_ifs at h
    obtain rfl := Option.some.inj h
    have haside : c.Aside { c with reading := false } :=
      ⟨⟨.inl rfl, rfl, rfl, rfl, rfl, rfl⟩, rfl, rfl, nofun⟩
    refine .inr (.inr ?_)
    unfold readError
    dsimp only
    split_ifs
    · exact haside
    · exact haside.terminate _
    · exact haside.terminate _
  | writeFrame =>
    dsimp only [step] at h
    split_ifs at h
    obtain rfl := Option.some.inj h
    exact .inr (.inr ⟨⟨.inl rfl, rfl, rfl, rfl, rfl, rfl⟩, rfl, rfl, id⟩)
  | transfer i n =>
    obtain ⟨w, -, rfl⟩ := Option.map_eq_some_iff.mp h
    exact .inr (.inr ⟨⟨.inl rfl, rfl, rfl, rfl, rfl, rfl⟩, rfl, rfl, id⟩)
  | written i err =>
    dsimp only [step] at h
    split_ifs at h
    obtain ⟨⟨w, ends⟩, -, rfl⟩ := Option.map_eq_some_iff.mp h
    have haside : c.Aside { c with toWriter := w } := ⟨⟨.inl rfl, rfl, rfl, rfl, rfl, rfl⟩, rfl, rfl, id⟩
    refine .inr (.inr ?_)
    dsimp only
    split_ifs
    · exact haside.terminate _
    · exact haside
  | timeout old =>
    dsimp only [step] at h
    have haside : c.Aside { c with oldTimers := c.oldTimers - 1 } :=
      ⟨⟨.inl rfl, rfl, rfl, rfl, rfl, rfl⟩, rfl, rfl, id⟩
    split_ifs at h
    · obtain rfl := Option.some.inj h
      exact .inr (.inr (haside.terminate _))
    · obtain rfl := Option.some.inj h
      exact .inr (.inr ((Aside.refl c).terminate _))
  | shutdown =>
    dsimp only [step] at h
    split_ifs at h
    obtain rfl := Option.some.inj h
    exact .inr (.inr ⟨⟨.inl rfl, rfl, rfl, rfl, rfl, rfl⟩, rfl, rfl, id⟩)

theorem step_receives (h : c.step a = some c') : c.Receives a c' := by
  obtain ⟨rng, rfl, h⟩ | ⟨data, rfl, hidle, hreading, rfl⟩ | haside := step_cases h
  · exact receives_strandStep h
  · exact .read data hidle hreading
  · exact .keeps haside.keeps

/-! ### What has been processed -/

/-- Between the bytes that have been taken and the messages that have been processed there is the rest
of the buffer; after an error nothing more is taken. -/
inductive Reading (p : Processor) (c : Connection) : Prop
  | going (hwaits : c.processor.Waits) (hreading : c.reading = true → c.strand = .idle)
    (hinside : c.strand.outside = true → c.strand = .idle)
    (hfed : Processor.reader.feed 3 p c.taken = Outcome.andThen (c.processed, .ok c.processor) fun t =>
      Processor.reader.feed 3 t c.strand.rest)
  | failed (e : ErrorCode) (hreading : c.reading = false) (houtside : c.strand.outside = true)
    (hfed : Processor.reader.feed 3 p c.taken = (c.processed, .error e))

/-- What the message handler has been given. -/
structure Handing (c : Connection) : Prop where
  order : c.handed <+: c.processed.filter Message.isData
  opened : c.state = .opened → c.handed = c.processed.filter Message.isData

theorem Reading.keeps (h : c.Reading p) (hk : c.Keeps c') : c'.Reading p := by
  cases h with
  | going hwaits hreading hinside hfed =>
    refine .going (hk.processor ▸ hwaits) (fun hr => hk.idle (hreading (hk.reading hr)))
      (fun hout => hk.idle (hinside (hk.outside ▸ hout))) ?_
    rw [hk.taken, hk.processed, hk.processor, hk.rest]
    exact hfed
  | failed e hreading houtside hfed =>
    refine .failed e ?_ (hk.outside.trans houtside) ?_
    · by_contra hr
      rw [hk.reading (Bool.eq_true_of_not_eq_false hr)] at hreading
      cases hreading
    · rw [hk.taken, hk.processed]
      exact hfed

theorem Reading.read (h : c.Reading p) (data : Bytes) (hidle : c.strand = .idle)
    (hreading : c.reading = true) :
    Reading p { c with strand := .frames data, reading := false, taken := c.taken ++ data } := by
  cases h with
  | going hwaits _ _ hfed =>
    refine .going hwaits nofun nofun ?_
    change Processor.reader.feed 3 p (c.taken ++ data) = _
    rw [Reader.feed_append, hfed, hidle, ok_andThen]
    exact congrArg (Outcome.andThen · _) (Prod.ext (List.append_nil _) rfl)
  | failed e hnot =>
    rw [hreading] at hnot
    cases hnot

theorem Reading.round (h : c.Reading p) (hstrand : c.strand = .frames rest)
    (hr : c.ReadRound rest c') : c'.Reading p := by
  cases h with
  | failed e _ houtside =>
    rw [hstrand] at houtside
    cases houtside
  | going hwaits hreading _ hfed =>
    have hread : c.reading = true → False := by
      intro h
      rw [hreading h] at hstrand
      cases hstrand
    rw [hstrand] at hfed
    change _ = Outcome.andThen _ fun t => Processor.reader.feed 3 t rest at hfed
    cases hr with
    | done hrest => exact .going hwaits (fun _ => rfl) (fun _ => rfl) (by rw [hrest] at hfed; exact hfed)
    | @failed ec hrest hconsume =>
      refine .failed ec (Bool.eq_false_of_not_eq_true hread) rfl ?_
      rw [hfed, ok_andThen, Processor.consume_error hwaits hconsume]
      exact Prod.ext (List.append_nil _) rfl
    | part hrest hconsume hmessage =>
      obtain ⟨hstep, hnext, -⟩ := Processor.consume_ok hwaits hrest hconsume
      refine .going hnext (fun h => (hread h).elim) nofun ?_
      change Processor.reader.feed 3 p c.taken = _
      rw [hfed, ok_andThen, hstep, hmessage]
      rfl
    | control hrest hconsume hmessage =>
      obtain ⟨hstep, hnext, -⟩ := Processor.consume_ok hwaits hrest hconsume
      refine .going hnext (fun h => (hread h).elim) nofun ?_
      change Processor.reader.feed 3 p c.taken = _
      rw [hfed, ok_andThen, hstep, hmessage, ok_andThen, ok_andThen, List.append_assoc]
      rfl
    | data hrest hconsume hmessage =>
      obtain ⟨hstep, hnext, -⟩ := Processor.consume_ok hwaits hrest hconsume
      refine .going hnext (fun h => (hread h).elim) nofun ?_
      change Processor.reader.feed 3 p c.taken = _
      rw [hfed, ok_andThen, hstep, hmessage, ok_andThen, ok_andThen, List.append_assoc]
      rfl

theorem Reading.step (h : c.Reading p) (hst : c.step a = some c') : c'.Reading p := by
  cases step_receives hst with
  | keeps hk => exact h.keeps hk
  | read data hidle hreading => exact h.read data hidle hreading
  | round rest hstrand hround => exact h.round hstrand hround

theorem reading_start (host : ByteOrder) (server : Bool) (n : Nat) :
    (start host server n).Reading (.start host server n) :=
  .going (Processor.waits_start ..) (fun _ => rfl) (fun _ => rfl) rfl

theorem Handing.step (h : c.Handing) (hst : c.step a = some c') : c'.Handing := by
  cases step_receives hst with
  | keeps hk =>
    refine ⟨?_, fun ho => ?_⟩
    · rw [hk.handed, hk.processed]
      exact h.order
    · rw [hk.handed, hk.processed]
      exact h.opened (hk.state ho)
  | read data => exact ⟨h.order, h.opened⟩
  | round rest hstrand hround =>
    cases hround with
    | done => exact ⟨h.order, h.opened⟩
    | failed => exact ⟨h.order, h.opened⟩
    | part => exact ⟨h.order, h.opened⟩
    | @control _ _ m hrest hconsume hmessage hcontrol =>
      have hsame : (c.processed ++ [m]).filter Message.isData = c.processed.filter Message.isData := by
        simp [Message.isData, hcontrol]
      exact ⟨hsame ▸ h.order, fun ho => hsame ▸ h.opened ho⟩
    | @data _ _ m hrest hconsume hmessage hcontrol =>
      have hmore : (c.processed ++ [m]).filter Message.isData =
          c.processed.filter Message.isData ++ [m] := by
        simp [Message.isData, hcontrol]
      refine ⟨?_, fun ho => ?_⟩
      · change (if c.state = .opened then c.handed ++ [m] else c.handed) <+:
          (c.processed ++ [m]).filter Message.isData
        rw [hmore]
        split_ifs with ho
        · rw [h.opened ho]
        · exact h.order.trans (List.prefix_append _ _)
      · change (if c.state = .opened then c.handed ++ [m] else c.handed) =
          (c.processed ++ [m]).filter Message.isData
        rw [hmore, if_pos ho, h.opened ho]

theorem reading_run {as : List Action} (h : Run step Free c as c') (hc : c.Reading p) : c'.Reading p :=
  h.invariant (Reading p) (fun _ _ _ hc _ hst => hc.step hst) hc

theorem handing_run {as : List Action} (h : Run step Free c as c') (hc : c.Handing) : c'.Handing :=
  h.invariant Handing (fun _ _ _ hc _ hst => hc.step hst) hc

theorem handing_start (host : ByteOrder) (server : Bool) (n : Nat) : (start host server n).Handing :=
  ⟨List.prefix_rfl, fun _ => rfl⟩

/-- Outside the loop all that has come is processed. -/
theorem Reading.outside (h : c.Reading p) (hout : c.strand.outside = true) :
    c.processed = (Processor.reader.feed 3 p c.taken).1 := by
  cases h with
  | going _ _ hinside hfed =>
    rw [hfed, hinside hout, ok_andThen]
    exact (List.append_nil _).symm
  | failed e _ _ hfed => rw [hfed]

theorem Reading.processed (h : c.Reading p) : c.processed <+: (Processor.reader.feed 3 p c.taken).1 := by
  cases h with
  | going _ _ _ hfed =>
    rw [hfed]
    exact andThen_grows (r := (c.processed, .ok c.processor))
  | failed e _ _ hfed =>
    rw [hfed]

/-- The strand has met an error in what has come. -/
theorem Reading.error (h : c.Reading p) (hout : c.strand.outside = true) (hidle : c.strand ≠ .idle) :
    ∃ e, (Processor.reader.feed 3 p c.taken).2 = .error e := by
  cases h with
  | going _ _ hinside => exact absurd (hinside hout) hidle
  | failed e _ _ hfed => exact ⟨e, by rw [hfed]⟩

/-- Whatever the peer sends and whatever the threads, the timers and the socket do meanwhile: the messages
that are processed are those of the bytes that have been taken, each once and in order, and `close` is
called for an error only if there is one in these bytes. The message handler is given the data messages,
all of them as long as the connection is open. -/
theorem processed_taken {host : ByteOrder} {server : Bool} {n : Nat} {as : List Action}
    (h : Run step Free (start host server n) as c) :
    let r := (Processor.start host server n).handleReads [c.taken]
    c.processed <+: r.1 ∧
      (c.strand.outside = true → c.processed = r.1) ∧
      (c.strand.outside = true → c.strand ≠ .idle → ∃ e, r.2 = .error e) ∧
      c.handed <+: c.processed.filter Message.isData ∧
      (c.state = .opened → c.handed = c.processed.filter Message.isData) := by
  have hread := reading_run h (reading_start host server n)
  have hgiven := handing_run h (handing_start host server n)
  dsimp only
  rw [Processor.handleReads_eq (Processor.waits_start ..), List.flatten_singleton]
  exact ⟨hread.processed, hread.outside, hread.error, hgiven.order, hgiven.opened⟩

/-- A text and a frame that is not masked, while a thread sends. -/
def notMasked : List Action :=
  [.read [0x81, 0x82, 1, 2, 3, 4, 0x69, 0x6B, 0x81, 0x01], .strand 0, .call (.ping 7 []), .push 0,
    .strand 0]

theorem processed_taken_error : ∃ c : Connection,
    Run step Free (start .little true 100) notMasked c ∧
      c.processed = [⟨.text, [0x68, 0x69], true, []⟩] ∧ c.handed = c.processed ∧
      ∃ e, ((Processor.start .little true 100).handleReads [c.taken]).2 = .error e := by
  have h := run_exec step Free (start .little true 100) notMasked (by decide +kernel)
  have htaken := processed_taken h
  exact ⟨_, h, by decide +kernel, htaken.2.2.2.2 (by decide +kernel),
    htaken.2.2.1 (by decide +kernel) nofun⟩

end Connection

/-! ### Both ends -/

/-- The two ends of one connection; `true` is the server. -/
abbrev Link := Bool → Connection

namespace Link

variable {l l' : Link} {e : Bool × Action} {es : List (Bool × Action)} {host : Bool → ByteOrder}
  {limit : Bool → Nat}

def start (host : Bool → ByteOrder) (limit : Bool → Nat) : Link :=
  fun server => .start (host server) server (limit server)

/-- A read brings what comes next of the bytes that the other end has written. -/
def brings (c other : Connection) : Action → Bool
  | .read data => (c.taken ++ data).isPrefixOf other.written
  | _ => true

/-- A step of one end. -/
def step (l : Link) (e : Bool × Action) : Option Link :=
  if brings (l e.1) (l (!e.1)) e.2 then ((l e.1).step e.2).map (Function.update l e.1) else none

theorem step_end (hst : l.step e = some l') : brings (l e.1) (l (!e.1)) e.2 = true ∧
    ∃ c, (l e.1).step e.2 = some c ∧ l' = Function.update l e.1 c := by
  unfold Link.step at hst
  split_ifs at hst with hbrings
  obtain ⟨c, hc, rfl⟩ := Option.map_eq_some_iff.mp hst
  exact ⟨hbrings, c, hc, rfl⟩

/-- What the steps of an end preserve, the steps of the link preserve at each end. -/
theorem each_end {P : Bool → Connection → Prop} (hst : l.step e = some l') (hl : ∀ s, P s (l s))
    (hP : ∀ s c c' a, P s c → c.step a = some c' → P s c') : ∀ s, P s (l' s) := by
  obtain ⟨-, c, hc, rfl⟩ := step_end hst
  intro s
  by_cases hs : s = e.1
  · subst hs
    rw [Function.update_self]
    exact hP _ _ _ _ (hl _) hc
  · rw [Function.update_of_ne hs]
    exact hl s

theorem run_end {P : Bool → Connection → Prop} (h : Run step Free l es l') (hl : ∀ s, P s (l s))
    (hP : ∀ s c c' a, P s c → c.step a = some c' → P s c') : ∀ s, P s (l' s) :=
  h.invariant (fun l => ∀ s, P s (l s)) (fun _ _ _ hl _ hst => each_end hst hl hP) hl

/-- Each end by itself, and the bytes between them. -/
structure Inv (host : Bool → ByteOrder) (limit : Bool → Nat) (l : Link) : Prop where
  queues : ∀ server, (l server).Queues (.start (host server) server (limit server))
  reading : ∀ server, (l server).Reading (.start (host server) server (limit server))
  handing : ∀ server, (l server).Handing
  taken : ∀ server, (l server).taken <+: (l (!server)).written

theorem inv_start : (start host limit).Inv host limit where
  queues server := Connection.queues_start (host server) server (limit server)
  reading server := Connection.reading_start (host server) server (limit server)
  handing server := Connection.handing_start (host server) server (limit server)
  taken _ := List.prefix_rfl

theorem taken_step {c c' other : Connection} {a : Action} (hst : c.step a = some c')
    (hbrings : brings c other a = true) (hc : c.taken <+: other.written) : c'.taken <+: other.written := by
  cases Connection.step_receives hst with
  | keeps hk =>
    rw [hk.taken]
    exact hc
  | read data => exact List.isPrefixOf_iff_prefix.mp hbrings
  | round rest hstrand hround => cases hround <;> exact hc

theorem Inv.step (h : l.Inv host limit) (hst : l.step e = some l') : l'.Inv host limit := by
  refine ⟨each_end hst h.queues fun _ _ _ _ hc hst => hc.step hst,
    each_end hst h.reading fun _ _ _ _ hc hst => hc.step hst,
    each_end hst h.handing fun _ _ _ _ hc hst => hc.step hst, fun s => ?_⟩
  obtain ⟨hbrings, c, hc, rfl⟩ := step_end hst
  have hgrows : (l e.1).written <+: c.written := (Connection.step_writes hc).moves.written_grows
  by_cases hs : s = e.1
  · subst hs
    rw [Function.update_self, Function.update_of_ne (Bool.not_ne_self e.1)]
    exact taken_step hc hbrings (h.taken e.1)
  · have hother : (!s) = e.1 := by revert hs; cases s <;> cases e.1 <;> decide
    rw [Function.update_of_ne hs, hother, Function.update_self]
    have htaken := h.taken s
    rw [hother] at htaken
    exact htaken.trans hgrows

theorem inv_run (h : Run step Free (start host limit) es l) : l.Inv host limit :=
  h.invariant (Inv host limit) (fun _ _ _ hl _ hst => hl.step hst) inv_start

/-- What has come at the other end is read as far as it goes of what was sent. -/
theorem Inv.comes (h : l.Inv host limit) (server : Bool) (hlimit : limit (!server) < 2 ^ 64)
    (hwhole : ∀ s ∈ (l server).pushed.map Queued.send, s.Whole (limit (!server))) :
    let sent := (Processor.start (host server) server (limit server)).sent
      ((l server).pushed.map Queued.send)
    ∃ out t, Processor.reader.feed 3 (.start (host (!server)) (!server) (limit (!server)))
        (l (!server)).taken = (out, .ok t) ∧ out <+: sent ∧
      ((l (!server)).taken = queuedBytes (l server).pushed → out = sent) := by
  have hqueues := h.queues server
  have htaken := h.taken (!server)
  rw [Bool.not_not] at htaken
  obtain ⟨more, hmore⟩ : (l (!server)).taken <+: queuedBytes (l server).pushed := by
    refine htaken.trans (hqueues.queue.written.trans ⟨queuedBytes (Writer.popLoop (l server).pushed).2, ?_⟩)
    rw [← queuedBytes_append, Writer.popLoop_append]
  obtain ⟨fs, hfs, hwire, haccept⟩ := transmit_frames
    (Processor.start (host server) server (limit server)) _ hwhole hlimit
  obtain ⟨hout, herror⟩ := feed_frames (host (!server)) (!server) (limit (!server)) fs hfs
  rw [Connection.transmit_genuine hqueues.pushed] at hwire
  change _ = wire (!server) fs at hwire
  rw [haccept, ← hwire, ← hmore, Reader.feed_append] at hout herror
  dsimp only
  rcases hr : Processor.reader.feed 3 (.start (host (!server)) (!server) (limit (!server)))
    (l (!server)).taken with ⟨out, e | t⟩
  · rw [hr] at herror
    cases (herror e).mp rfl
  · rw [hr, ok_andThen] at hout
    refine ⟨out, t, rfl, ⟨_, hout⟩, fun hall => ?_⟩
    have hnone : more = [] := List.self_eq_append_right.mp (hall.trans hmore.symm)
    rw [hnone] at hout
    exact (List.append_nil _).symm.trans hout

end Link

/-- What one end sends in whole messages within the limit of the other arrives there as it was sent, in
its order, each message at most once and none that was not sent, whatever the threads, the timers and
the sockets of both ends do; and `consume` of the other end refuses none of it. When all that was queued
has been taken, every message has arrived. -/
theorem link_delivers {host : Bool → ByteOrder} {limit : Bool → Nat} {es : List (Bool × Action)} {l : Link}
    (h : Run Link.step Free (Link.start host limit) es l) (server : Bool)
    (hlimit : limit (!server) < 2 ^ 64)
    (hwhole : ∀ s ∈ (l server).pushed.map Queued.send, s.Whole (limit (!server))) :
    let sent := (Processor.start (host server) server (limit server)).sent
      ((l server).pushed.map Queued.send)
    let peer := l (!server)
    peer.processed <+: sent ∧ peer.handed <+: sent.filter Message.isData ∧
      (∀ ec, peer.strand ≠ .failed ec) ∧
      ((l server).writeFlag = false → (l server).sendQueue = [] → peer.taken = (l server).written →
        peer.strand = .idle → peer.processed = sent ∧
          (peer.state = .opened → peer.handed = sent.filter Message.isData)) := by
  have hinv := Link.inv_run h
  have hread := hinv.reading (!server)
  have hgiven := hinv.handing (!server)
  obtain ⟨out, t, hfeed, hsent, hall⟩ := hinv.comes server hlimit hwhole
  have hprocessed := hread.processed
  rw [hfeed] at hprocessed
  dsimp only
  refine ⟨hprocessed.trans hsent, hgiven.order.trans ((hprocessed.trans hsent).filter _),
    fun ec hec => ?_, fun hflag hqueue hcame hidle => ?_⟩
  · obtain ⟨e, he⟩ := hread.error (by rw [hec]; rfl) (by rw [hec]; nofun)
    rw [hfeed] at he
    cases he
  · have hdone := hread.outside (by rw [hidle]; rfl)
    rw [hfeed, hall (hcame.trans ((hinv.queues server).queue.drained hflag hqueue))] at hdone
    exact ⟨hdone, fun ho => (hgiven.opened ho).trans (congrArg _ hdone)⟩

/-- A text of the client comes in two reads. -/
def oneText : List (Bool × Action) :=
  [(false, .call (.data 0x04030201 ⟨.text, [0x68, 0x69], true, []⟩)), (false, .push 0),
    (false, .writeFrame), (false, .transfer 0 8), (true, .read [0x81, 0x82, 1]), (true, .strand 0),
    (false, .written 0 none), (true, .strand 0), (true, .read [2, 3, 4, 0x69, 0x6B]), (true, .strand 0),
    (true, .strand 0)]

theorem link_delivers_text : ∃ l : Link,
    Run Link.step Free (Link.start (fun _ => .little) fun _ => 100) oneText l ∧
      (l true).handed = [⟨.text, [0x68, 0x69], true, []⟩] := by
  have h := run_exec Link.step Free (Link.start (fun _ => .little) fun _ => 100) oneText
    (by decide +kernel)
  refine ⟨_, h, ?_⟩
  have hdelivers := link_delivers h false (by decide) (by
    intro s hs
    obtain rfl := List.mem_singleton.mp hs
    exact ⟨rfl, .inl rfl, by decide⟩)
  exact (hdelivers.2.2.2 (by decide +kernel) rfl (by decide +kernel) rfl).2 (by decide +kernel)

end NetworkUtility.Websocketpp
