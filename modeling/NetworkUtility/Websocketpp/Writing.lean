import NetworkUtility.Websocketpp.Connection

/-! The queue of a connection has one write at a time, and its bytes are those of the messages in their
order, up to a terminal one. -/
namespace NetworkUtility.Websocketpp

open Machine

/-- The bytes of messages one after another. -/
def queuedBytes (l : List Queued) : Bytes := l.flatMap Queued.bytes

@[simp] theorem queuedBytes_append (l m : List Queued) :
    queuedBytes (l ++ m) = queuedBytes l ++ queuedBytes m := List.flatMap_append

namespace Writer

variable {w w' : Writer} {q : Queued} {i n : Nat} {err : Bool}

@[simp] theorem bufferSize_append (l m : List Queued) :
    bufferSize (l ++ m) = bufferSize l + bufferSize m := by
  simp [bufferSize]

theorem popLoop_append (l : List Queued) : (popLoop l).1 ++ (popLoop l).2 = l := by
  induction l with
  | nil => rfl
  | cons q l ih =>
    rw [popLoop]
    split_ifs
    · rfl
    · exact congrArg (q :: ·) ih

theorem popLoop_nil (h : (popLoop l).1 = []) : l = [] := by
  cases l with
  | nil => rfl
  | cons q l =>
    rw [popLoop] at h
    split_ifs at h

theorem popLoop_terminal (l : List Queued) : ∀ q ∈ (popLoop l).1.dropLast, q.terminal = false := by
  induction l with
  | nil => exact fun q hq => absurd hq List.not_mem_nil
  | cons q l ih =>
    rw [popLoop]
    split_ifs with hq
    · exact fun q hq => absurd hq List.not_mem_nil
    · intro r hr
      cases hl : (popLoop l).1 with
      | nil =>
        rw [hl] at hr
        cases hr
      | cons s m =>
        rw [hl, List.dropLast_cons_cons] at hr
        obtain rfl | hr := List.mem_cons.mp hr
        · exact Bool.eq_false_of_not_eq_true hq
        · exact ih r (by rwa [hl])

/-- Messages from the front of a queue of which only the last can be terminal. -/
theorem popLoop_front (l m : List Queued) (hl : ∀ q ∈ l.dropLast, q.terminal = false) :
    l <+: (popLoop (l ++ m)).1 := by
  induction l with
  | nil => exact List.nil_prefix
  | cons q l ih =>
    rw [List.cons_append, popLoop]
    cases l with
    | nil =>
      split_ifs
      · exact ⟨[], rfl⟩
      · exact ⟨_, rfl⟩
    | cons r l =>
      rw [List.dropLast_cons_cons] at hl
      rw [if_neg (by rw [hl q List.mem_cons_self]; exact Bool.false_ne_true)]
      exact (List.prefix_cons_inj q).mpr (ih fun s hs => hl s (List.mem_cons_of_mem _ hs))

/-- Where the messages are that have left the queue: all are written; or the last of them are being
written; or the connection has ended. Only the last can be a terminal one. -/
inductive Phase (w : Writer) : Prop
  | free (hflag : w.writeFlag = false) (hwriting : w.writing = []) (hcurrent : w.currentMsgs = [])
    (hwritten : w.written = queuedBytes w.popped) (hterminal : ∀ q ∈ w.popped, q.terminal = false)
  | busy (rest : Bytes) (before : List Queued) (hflag : w.writeFlag = true) (hwriting : w.writing = [rest])
    (hcurrent : w.currentMsgs ≠ []) (hpopped : w.popped = before ++ w.currentMsgs)
    (hwritten : w.written ++ rest = queuedBytes w.popped)
    (hterminal : ∀ q ∈ w.popped.dropLast, q.terminal = false)
  | ended (hflag : w.writeFlag = true) (hwriting : w.writing = []) (hcurrent : w.currentMsgs = [])
    (hwritten : w.written <+: queuedBytes w.popped)
    (hterminal : ∀ q ∈ w.popped.dropLast, q.terminal = false)

/-- Nothing is lost between the queue and the socket, and a queue that is not empty is attended to. -/
structure Inv (w : Writer) : Prop where
  order : w.pushed = w.popped ++ w.sendQueue
  size : w.sendBufferSize = bufferSize w.sendQueue
  wakes : w.sendQueue ≠ [] → w.writeFlag = false → 0 < w.posted
  phase : w.Phase

/-- What is written are bytes of the messages up to the first terminal one. -/
theorem Inv.written (h : w.Inv) : w.written <+: queuedBytes (popLoop w.pushed).1 := by
  have front : (∀ q ∈ w.popped.dropLast, q.terminal = false) →
      queuedBytes w.popped <+: queuedBytes (popLoop w.pushed).1 := by
    intro hterminal
    obtain ⟨more, hmore⟩ := popLoop_front w.popped w.sendQueue hterminal
    rw [h.order, ← hmore, queuedBytes_append]
    exact List.prefix_append _ _
  cases h.phase with
  | free _ _ _ hwritten hterminal =>
    rw [hwritten]
    exact front fun q hq => hterminal q (List.dropLast_subset _ hq)
  | busy rest _ _ _ _ _ hwritten hterminal =>
    have hpart : w.written <+: queuedBytes w.popped := ⟨rest, hwritten⟩
    exact hpart.trans (front hterminal)
  | ended _ _ _ hwritten hterminal => exact hwritten.trans (front hterminal)

/-- Nothing is left to write. -/
theorem Inv.drained (h : w.Inv) (hflag : w.writeFlag = false) (hqueue : w.sendQueue = []) :
    w.written = queuedBytes w.pushed := by
  rw [h.order, hqueue, List.append_nil]
  cases h.phase with
  | free _ _ _ hwritten _ => exact hwritten
  | busy _ _ hbusy =>
    rw [hflag] at hbusy
    cases hbusy
  | ended hbusy =>
    rw [hflag] at hbusy
    cases hbusy

theorem Inv.one_at_a_time (h : w.Inv) : w.writing.length ≤ 1 := by
  cases h.phase with
  | free _ hwriting =>
    rw [hwriting]
    exact Nat.zero_le 1
  | busy _ _ _ hwriting =>
    rw [hwriting]
    exact Nat.le_refl 1
  | ended _ hwriting =>
    rw [hwriting]
    exact Nat.zero_le 1

theorem inv_start : start.Inv :=
  ⟨rfl, rfl, fun h => absurd rfl h, .free rfl rfl rfl rfl fun _ hq => absurd hq List.not_mem_nil⟩

theorem Inv.push (h : w.Inv) (q : Queued) : (w.push q).Inv := by
  refine ⟨?_, ?_, fun _ hflag => ?_, ?_⟩
  · change w.pushed ++ [q] = w.popped ++ (w.sendQueue ++ [q])
    rw [h.order, List.append_assoc]
  · change w.sendBufferSize + q.message.payload.length = bufferSize (w.sendQueue ++ [q])
    rw [h.size, bufferSize_append]
    rfl
  · change w.writeFlag = false at hflag
    change 0 < if w.writeFlag = true then w.posted else w.posted + 1
    rw [hflag]
    exact Nat.succ_pos _
  · cases h.phase with
    | free hflag hwriting hcurrent hwritten hterminal =>
      exact .free hflag hwriting hcurrent hwritten hterminal
    | busy rest before hflag hwriting hcurrent hpopped hwritten hterminal =>
      exact .busy rest before hflag hwriting hcurrent hpopped hwritten hterminal
    | ended hflag hwriting hcurrent hwritten hterminal =>
      exact .ended hflag hwriting hcurrent hwritten hterminal

/-- The last messages that have left the queue, of which only the last can be terminal. -/
theorem terminal_append {l m : List Queued} (hl : ∀ q ∈ l, q.terminal = false) (hne : m ≠ [])
    (hm : ∀ q ∈ m.dropLast, q.terminal = false) : ∀ q ∈ (l ++ m).dropLast, q.terminal = false := by
  rw [List.dropLast_append_of_ne_nil hne]
  intro q hq
  obtain hq | hq := List.mem_append.mp hq
  · exact hl q hq
  · exact hm q hq

theorem terminal_last {popped before current : List Queued} (hpopped : popped = before ++ current)
    (hcurrent : current ≠ []) (hterminal : ∀ q ∈ popped.dropLast, q.terminal = false)
    (hlast : (current.getLast?.map Queued.terminal).getD false = false) :
    ∀ q ∈ popped, q.terminal = false := by
  have hne : popped ≠ [] := by
    rw [hpopped]
    exact List.append_ne_nil_of_right_ne_nil _ hcurrent
  intro q hq
  rw [← List.dropLast_append_getLast hne] at hq
  obtain hq | hq := List.mem_append.mp hq
  · exact hterminal q hq
  · obtain rfl := List.mem_singleton.mp hq
    rw [List.getLast?_eq_some_getLast hcurrent] at hlast
    have hsame : popped.getLast hne = current.getLast hcurrent := by
      simp only [hpopped, List.getLast_append_of_ne_nil _ hcurrent]
    rw [hsame]
    exact hlast

theorem one_write {rest rest' : Bytes} (hwriting : w.writing = [rest']) (hi : w.writing[i]? = some rest) :
    i = 0 ∧ rest' = rest := by
  rw [hwriting] at hi
  cases i with
  | zero => exact ⟨rfl, Option.some.inj hi⟩
  | succ i => cases hi

/-- A `write_frame` that finds a write outstanding leaves the queue to its handler. -/
theorem Inv.writeFrame (h : w.Inv) : ({ w with posted := w.posted - 1 }.writeFrame).Inv := by
  unfold Writer.writeFrame
  cases hphase : h.phase with
  | busy rest before hflag hwriting hcurrent hpopped hwritten hterminal =>
    rw [if_pos hflag]
    refine ⟨h.order, h.size, fun _ hfree => ?_, ?_⟩
    · rw [show w.writeFlag = false from hfree] at hflag
      cases hflag
    · exact .busy rest before hflag hwriting hcurrent hpopped hwritten hterminal
  | ended hflag hwriting hcurrent hwritten hterminal =>
    rw [if_pos hflag]
    refine ⟨h.order, h.size, fun _ hfree => ?_, ?_⟩
    · rw [show w.writeFlag = false from hfree] at hflag
      cases hflag
    · exact .ended hflag hwriting hcurrent hwritten hterminal
  | free hflag hwriting hcurrent hwritten hterminal =>
    have hqueue := popLoop_append w.sendQueue
    have horder : w.pushed = (w.popped ++ (popLoop w.sendQueue).1) ++ (popLoop w.sendQueue).2 := by
      rw [h.order, List.append_assoc, hqueue]
    have hsize : w.sendBufferSize - bufferSize (popLoop w.sendQueue).1 =
        bufferSize (popLoop w.sendQueue).2 := by
      rw [h.size, ← hqueue, bufferSize_append, hqueue, Nat.add_sub_cancel_left]
    rw [if_neg (by rw [hflag]; exact Bool.false_ne_true)]
    dsimp only
    rw [hcurrent, List.nil_append]
    by_cases hnone : (popLoop w.sendQueue).1 = []
    · rw [if_pos hnone]
      have hempty : (popLoop w.sendQueue).2 = [] := by rw [popLoop_nil hnone]; rfl
      refine ⟨horder, hsize, fun hne => absurd hempty hne, .free hflag hwriting hnone ?_ ?_⟩
      · rw [hnone, List.append_nil]
        exact hwritten
      · rw [hnone, List.append_nil]
        exact hterminal
    · rw [if_neg hnone]
      refine ⟨horder, hsize, fun _ hfree => (by cases hfree), ?_⟩
      refine .busy (queuedBytes (popLoop w.sendQueue).1) w.popped rfl ?_ hnone rfl ?_ ?_
      · rw [hwriting]
        rfl
      · rw [queuedBytes_append, ← hwritten]
      · exact terminal_append hterminal hnone (popLoop_terminal _)

/-- A write is outstanding, and it is the only one. -/
theorem Phase.outstanding {rest : Bytes} (h : w.Phase) (hi : w.writing[i]? = some rest) :
    i = 0 ∧ ∃ before, w.writeFlag = true ∧ w.writing = [rest] ∧ w.currentMsgs ≠ [] ∧
      w.popped = before ++ w.currentMsgs ∧ w.written ++ rest = queuedBytes w.popped ∧
      ∀ q ∈ w.popped.dropLast, q.terminal = false := by
  cases h with
  | free hflag hwriting =>
    rw [hwriting] at hi
    cases hi
  | ended hflag hwriting =>
    rw [hwriting] at hi
    cases hi
  | busy rest' before hflag hwriting hcurrent hpopped hwritten hterminal =>
    obtain ⟨rfl, rfl⟩ := one_write hwriting hi
    exact ⟨rfl, before, hflag, hwriting, hcurrent, hpopped, hwritten, hterminal⟩

theorem Inv.transfer (h : w.Inv) (ht : w.transfer i n = some w') : w'.Inv := by
  obtain ⟨rest, hi, ht⟩ := Option.bind_eq_some_iff.mp ht
  obtain ⟨rfl, before, hflag, hwriting, hcurrent, hpopped, hwritten, hterminal⟩ := h.phase.outstanding hi
  split_ifs at ht
  obtain rfl := Option.some.inj ht
  refine ⟨h.order, h.size, h.wakes, .busy (rest.drop n) before hflag ?_ hcurrent hpopped ?_ hterminal⟩
  · rw [hwriting]
    rfl
  · rw [List.append_assoc, List.take_append_drop]
    exact hwritten

/-- The handler of the last write of a connection keeps the flag, so none follows. -/
theorem Inv.handleWriteFrame {ends : Bool} (h : w.Inv)
    (ht : w.handleWriteFrame i err = some (w', ends)) : w'.Inv := by
  obtain ⟨rest, hi, ht⟩ := Option.bind_eq_some_iff.mp ht
  obtain ⟨rfl, before, hflag, hwriting, hcurrent, hpopped, hwritten, hterminal⟩ := h.phase.outstanding hi
  have hdone : w.writing.eraseIdx 0 = [] := by rw [hwriting]; rfl
  dsimp only at ht
  by_cases hrest : err = false ∧ rest ≠ []
  · rw [if_pos hrest] at ht
    cases ht
  rw [if_neg hrest] at ht
  by_cases hends : err = true ∨ (w.currentMsgs.getLast?.map Queued.terminal).getD false = true
  · rw [if_pos hends] at ht
    obtain ⟨rfl, -⟩ := Prod.mk.inj (Option.some.inj ht)
    refine ⟨h.order, h.size, fun _ hfree => ?_, .ended hflag hdone rfl ⟨rest, hwritten⟩ hterminal⟩
    rw [show w.writeFlag = false from hfree] at hflag
    cases hflag
  · rw [if_neg hends] at ht
    obtain ⟨rfl, -⟩ := Prod.mk.inj (Option.some.inj ht)
    rw [not_or] at hends
    have hnil : rest = [] := by
      by_contra hne
      exact hrest ⟨Bool.eq_false_of_not_eq_true hends.1, hne⟩
    refine ⟨h.order, h.size, fun hne _ => ?_, .free rfl hdone rfl ?_ ?_⟩
    · change 0 < if w.sendQueue = [] then w.posted else w.posted + 1
      rw [if_neg hne]
      exact Nat.succ_pos _
    · rw [hnil, List.append_nil] at hwritten
      exact hwritten
    · exact terminal_last hpopped hcurrent hterminal (Bool.eq_false_of_not_eq_true hends.2)

end Writer

/-! ### What a step of a connection does to its queue -/

theorem Send.prepare_congr {p q : Processor} (hserver : p.server = q.server) (hhost : p.host = q.host)
    (s : Send) : s.prepare p = s.prepare q := by
  have hprepared : ∀ rng op fin payload,
      p.prepared rng op fin payload = q.prepared rng op fin payload := by
    intro rng op fin payload
    unfold Processor.prepared
    rw [hserver, hhost]
  have hcontrol : ∀ rng op payload, p.prepareControl rng op payload = q.prepareControl rng op payload := by
    intro rng op payload
    unfold Processor.prepareControl
    rw [hprepared]
  cases s with
  | data rng m =>
    change p.prepareDataFrame rng m = q.prepareDataFrame rng m
    unfold Processor.prepareDataFrame
    rw [hprepared]
  | ping rng payload => exact hcontrol rng .ping payload
  | pong rng payload => exact hcontrol rng .pong payload
  | close rng code reason =>
    change p.prepareClose rng code reason = q.prepareClose rng code reason
    unfold Processor.prepareClose
    rw [hhost, hcontrol]

/-- A message is what its call was prepared to. -/
def Queued.Genuine (p : Processor) (q : Queued) : Prop := q.send.prepare p = .ok q.message

/-- What a step does to the queue; `P` holds of what is pushed. -/
inductive Writer.Moves (P : Queued → Prop) (w : Writer) : Writer → Prop
  | stay : Moves P w w
  | push (q : Queued) (hq : P q) : Moves P w (w.push q)
  | writeFrame (hposted : 0 < w.posted) : Moves P w { w with posted := w.posted - 1 }.writeFrame
  | transfer {w' : Writer} (i n : Nat) (ht : w.transfer i n = some w') : Moves P w w'
  | handled {w' : Writer} (i : Nat) (err ends : Bool) (ht : w.handleWriteFrame i err = some (w', ends)) :
    Moves P w w'

theorem Writer.Inv.moves {P : Queued → Prop} {w w' : Writer} (h : w.Inv) (hm : w.Moves P w') : w'.Inv := by
  cases hm with
  | stay => exact h
  | push q hq => exact h.push q
  | writeFrame hposted => exact h.writeFrame
  | transfer i n ht => exact h.transfer ht
  | handled i err ends ht => exact h.handleWriteFrame ht

theorem Writer.pushed_writeFrame (w : Writer) : w.writeFrame.pushed = w.pushed := by
  unfold writeFrame
  dsimp only
  split_ifs <;> rfl

theorem Writer.pushed_transfer {w w' : Writer} {i n : Nat} (h : w.transfer i n = some w') :
    w'.pushed = w.pushed := by
  obtain ⟨rest, -, h⟩ := Option.bind_eq_some_iff.mp h
  split_ifs at h
  obtain rfl := Option.some.inj h
  rfl

theorem Writer.pushed_handleWriteFrame {w w' : Writer} {i : Nat} {err ends : Bool}
    (h : w.handleWriteFrame i err = some (w', ends)) : w'.pushed = w.pushed := by
  obtain ⟨rest, -, h⟩ := Option.bind_eq_some_iff.mp h
  dsimp only at h
  split_ifs at h <;> (obtain ⟨rfl, -⟩ := Prod.mk.inj (Option.some.inj h); rfl)

theorem Writer.written_writeFrame (w : Writer) : w.writeFrame.written = w.written := by
  unfold writeFrame
  dsimp only
  split_ifs <;> rfl

theorem Writer.written_handleWriteFrame {w w' : Writer} {i : Nat} {err ends : Bool}
    (h : w.handleWriteFrame i err = some (w', ends)) : w'.written = w.written := by
  obtain ⟨rest, -, h⟩ := Option.bind_eq_some_iff.mp h
  dsimp only at h
  split_ifs at h <;> (obtain ⟨rfl, -⟩ := Prod.mk.inj (Option.some.inj h); rfl)

theorem Writer.Moves.written_grows {P : Queued → Prop} {w w' : Writer} (hm : w.Moves P w') :
    w.written <+: w'.written := by
  cases hm with
  | stay => exact List.prefix_rfl
  | push q hq => exact List.prefix_rfl
  | writeFrame hposted =>
    have hsame := written_writeFrame { w with posted := w.posted - 1 }
    exact ⟨[], (List.append_nil _).trans hsame.symm⟩
  | transfer i n ht =>
    obtain ⟨rest, -, ht⟩ := Option.bind_eq_some_iff.mp ht
    split_ifs at ht
    obtain rfl := Option.some.inj ht
    exact List.prefix_append _ _
  | handled i err ends ht => exact ⟨[], (List.append_nil _).trans (written_handleWriteFrame ht).symm⟩

/-- Only a push adds to what is pushed. -/
theorem Writer.Moves.pushed {P : Queued → Prop} {w w' : Writer} (hm : w.Moves P w') :
    w'.pushed = w.pushed ∨ ∃ q, P q ∧ w'.pushed = w.pushed ++ [q] := by
  cases hm with
  | stay => exact .inl rfl
  | push q hq => exact .inr ⟨q, hq, rfl⟩
  | writeFrame hposted => exact .inl (pushed_writeFrame _)
  | transfer i n ht => exact .inl (pushed_transfer ht)
  | handled i err ends ht => exact .inl (pushed_handleWriteFrame ht)

/-! The settings of the processor. -/

namespace Processor

variable {p q : Processor} {buf rest : Bytes}

/-- A processor of the same end. -/
structure Settled (p q : Processor) : Prop where
  server : q.server = p.server
  host : q.host = p.host

theorem Settled.refl {p : Processor} : Settled p p := ⟨rfl, rfl⟩

theorem Settled.trans {r : Processor} (h : Settled p q) (h' : Settled q r) : Settled p r :=
  ⟨h'.server.trans h.server, h'.host.trans h.host⟩

theorem settled_setCurrentMsg (p : Processor) (m : Metadata) : Settled p (p.setCurrentMsg m) := by
  unfold setCurrentMsg
  split <;> exact ⟨rfl, rfl⟩

theorem settled_getMessage (p : Processor) : Settled p p.getMessage.2 := by
  unfold getMessage
  split_ifs
  · dsimp only
    have hset := settled_setCurrentMsg p { p.currentMsg with msgPtr := none }
    split_ifs <;> exact ⟨hset.server, hset.host⟩
  · exact .refl

theorem settled_processPayloadBytes (h : p.processPayloadBytes buf = .ok q) : Settled p q := by
  cases hm : p.currentMsg.msgPtr with
  | none =>
    unfold processPayloadBytes at h
    dsimp only at h
    rw [hm] at h
    cases h
    exact .refl
  | some msg =>
    rw [processPayloadBytes_eq hm] at h
    split at h
    · cases h
      have hset := settled_setCurrentMsg p
      exact ⟨(hset _).server, (hset _).host⟩
    · cases h

theorem settled_payloadRead (h : p.payloadRead = .ok q) : Settled p q := by
  obtain rfl | rfl := payloadRead_ok h
  · exact ⟨rfl, rfl⟩
  · exact ⟨rfl, rfl⟩

theorem settled_basicHeaderRead (h : p.basicHeaderRead = .ok q) : Settled p q := by
  unfold basicHeaderRead at h
  split at h
  · cases h
  · cases h
    exact ⟨rfl, rfl⟩

theorem settled_extendedHeaderRead (h : p.extendedHeaderRead = .ok q) : Settled p q := by
  unfold extendedHeaderRead at h
  split at h
  · cases h
  · dsimp only at h
    by_cases hc : p.basicHeader.getOpcode.isControl = true
    · rw [if_pos hc] at h
      cases h
      exact ⟨rfl, rfl⟩
    · rw [if_neg hc] at h
      cases hm : p.dataMsg.msgPtr with
      | none =>
        rw [hm] at h
        dsimp only at h
        split_ifs at h
        cases h
        exact ⟨rfl, rfl⟩
      | some out =>
        rw [hm] at h
        dsimp only at h
        split_ifs at h
        cases h
        exact ⟨rfl, rfl⟩

theorem settled_copyBasicHeaderBytes (p : Processor) (buf : Bytes) :
    Settled p (p.copyBasicHeaderBytes buf).1 := by
  unfold copyBasicHeaderBytes
  split_ifs <;> first
    | exact .refl
    | (split <;> exact ⟨rfl, rfl⟩)

theorem settled_round (h : p.round buf = .ok (q, rest)) : Settled p q := by
  unfold round at h
  split at h
  · dsimp only at h
    have hcopy := settled_copyBasicHeaderBytes p buf
    split_ifs at h
    · cases h
      exact hcopy
    · obtain ⟨r, hr, heq⟩ := map_ok h
      cases heq
      exact hcopy.trans (settled_basicHeaderRead hr)
  · dsimp only at h
    have hcopy : Settled p (p.copyExtendedHeaderBytes buf).1 := ⟨rfl, rfl⟩
    split_ifs at h
    · cases h
      exact hcopy
    · obtain ⟨r, hr, heq⟩ := map_ok h
      cases heq
      exact hcopy.trans (settled_extendedHeaderRead hr)
  · cases h
    exact ⟨rfl, rfl⟩
  · dsimp only at h
    obtain ⟨r, hr, h⟩ := bind_ok h
    have hpart : Settled p r := by
      split_ifs at hr
      · exact settled_processPayloadBytes hr
      · cases hr
        exact .refl
    split_ifs at h
    · cases h
      exact hpart
    · obtain ⟨t, ht, heq⟩ := map_ok h
      cases heq
      exact hpart.trans (settled_payloadRead ht)
  · cases h
  · cases h

theorem settled_consume (h : p.consume buf = .ok (q, rest)) : Settled p q := by
  unfold consume at h
  generalize 4 * buf.length + 3 = fuel at h
  induction fuel generalizing p buf with
  | zero =>
    cases h
    exact .refl
  | succ fuel ih =>
    rw [consumeLoop] at h
    split_ifs at h
    · obtain ⟨r, hr, h⟩ := bind_ok h
      exact (settled_round hr).trans (ih h)
    · cases h
      exact .refl

end Processor

namespace Connection

variable {c c' : Connection} {a : Action} {q : Queued}

/-- What the threads are about to push. -/
def inHand (c : Connection) : List Queued :=
  (match c.closer with
    | some (.push q) => [q]
    | _ => []) ++
  match c.strand with
  | .push q _ | .failedPush q => [q]
  | _ => []

/-- A message that a step may push or take in hand. -/
def Known (c : Connection) (q : Queued) : Prop := q ∈ c.inHand ∨ q.Genuine c.processor

/-- What a step does to the queue. -/
structure Writes (c c' : Connection) : Prop where
  settled : c.processor.Settled c'.processor
  inHand : ∀ q ∈ c'.inHand, c.Known q
  moves : c.toWriter.Moves c.Known c'.toWriter

theorem inHand_eq (hcloser : c'.closer = c.closer) (hstrand : c'.strand = c.strand) :
    c'.inHand = c.inHand := by
  rw [inHand, inHand, hcloser, hstrand]

/-- What `terminate` leaves as it is. -/
theorem terminate_frame (err : Option Bytes) (c : Connection) :
    (c.terminate err).toWriter = c.toWriter ∧ (c.terminate err).processor = c.processor ∧
      (c.terminate err).closer = c.closer ∧ (c.terminate err).strand = c.strand := by
  unfold terminate
  dsimp only
  split_ifs <;> exact ⟨rfl, rfl, rfl, rfl⟩

theorem writes_call (hp : c'.processor = c.processor) (hcloser : c'.closer = c.closer)
    (hstrand : c'.strand = c.strand) (hw : c.toWriter.Moves c.Known c'.toWriter) : c.Writes c' :=
  ⟨hp ▸ .refl, fun q hq => .inl (by rwa [inHand_eq hcloser hstrand] at hq), hw⟩

theorem writes_terminate {d : Connection} {err : Option Bytes} (hw : d.toWriter = c.toWriter)
    (hp : d.processor = c.processor) (hcloser : d.closer = c.closer) (hstrand : d.strand = c.strand) :
    c.Writes (d.terminate err) := by
  obtain ⟨hwriter, hprocessor, hcloser', hstrand'⟩ := terminate_frame err d
  refine writes_call (hprocessor.trans hp) (hcloser'.trans hcloser) (hstrand'.trans hstrand) ?_
  rw [hwriter, hw]
  exact .stay

/-- What `send_close_frame` does in front of its push. -/
theorem sendCloseFrame_cases (c : Connection) (rng code : Nat) (reason : Bytes) (ack terminal : Bool) :
    (∃ ec, c.processor.prepareClose rng (c.closeWith code reason ack).1 (c.closeWith code reason ack).2 =
        .error ec ∧
      c.sendCloseFrame rng code reason ack terminal =
        (.error ec, { c with localClose := c.closeWith code reason ack })) ∨
    ∃ m, c.processor.prepareClose rng (c.closeWith code reason ack).1 (c.closeWith code reason ack).2 =
        .ok m ∧
      c.sendCloseFrame rng code reason ack terminal =
        (.ok ⟨.close rng (c.closeWith code reason ack).1 (c.closeWith code reason ack).2, m, terminal⟩,
          { c with
            localClose := c.closeWith code reason ack
            state := .closing
            wasClean := c.wasClean || ack
            handshakeTimer := true
            oldTimers := if c.handshakeTimer then c.oldTimers + 1 else c.oldTimers }) := by
  unfold sendCloseFrame
  dsimp only
  split
  · next ec hec => exact .inl ⟨ec, hec, rfl⟩
  · next m hm => exact .inr ⟨m, hm, rfl⟩

/-- The strand is somewhere else, and has nothing in hand. -/
theorem inHand_strand (hcloser : c'.closer = c.closer)
    (hnone : ∀ q rest, c'.strand ≠ .push q rest ∧ c'.strand ≠ .failedPush q) :
    ∀ q ∈ c'.inHand, q ∈ c.inHand := by
  intro q hq
  rw [inHand, hcloser] at hq
  refine List.mem_append_left _ ?_
  obtain hq | hq := List.mem_append.mp hq
  · exact hq
  · cases hstrand : c'.strand with
    | push q rest => exact absurd hstrand (hnone q rest).1
    | failedPush q => exact absurd hstrand (hnone q []).2
    | _ =>
      rw [hstrand] at hq
      cases hq

theorem writes_strand (hw : c'.toWriter = c.toWriter) (hset : c.processor.Settled c'.processor)
    (hcloser : c'.closer = c.closer)
    (hnone : ∀ q rest, c'.strand ≠ .push q rest ∧ c'.strand ≠ .failedPush q) : c.Writes c' :=
  ⟨hset, fun q hq => .inl (inHand_strand hcloser hnone q hq), hw ▸ .stay⟩

theorem writes_push (hq : c.Known q) (hw : c'.toWriter = c.toWriter.push q)
    (hp : c'.processor = c.processor) (hh : ∀ q ∈ c'.inHand, c.Known q) : c.Writes c' :=
  ⟨hp ▸ .refl, hh, hw ▸ .push q hq⟩

/-- The message is in the strand's hand. -/
theorem writes_strand_push (rest : Bytes) (hstrand : c.strand = .push q rest ∨ c.strand = .failedPush q)
    (hw : c'.toWriter = c.toWriter.push q) (hp : c'.processor = c.processor)
    (hcloser : c'.closer = c.closer)
    (hnone : ∀ q rest, c'.strand ≠ .push q rest ∧ c'.strand ≠ .failedPush q) : c.Writes c' := by
  refine writes_push (.inl (List.mem_append_right _ ?_)) hw hp
    fun r hr => .inl (inHand_strand hcloser hnone r hr)
  obtain hstrand | hstrand := hstrand <;> (rw [hstrand]; exact List.mem_singleton_self q)

/-- The strand takes a message in hand. -/
theorem writes_strand_hold (rest : Bytes) (q : Queued) (hq : q.send.prepare c.processor = .ok q.message)
    (hstrand : c'.strand = .push q rest ∨ c'.strand = .failedPush q)
    (hw : c'.toWriter = c.toWriter) (hp : c'.processor = c.processor)
    (hcloser : c'.closer = c.closer) : c.Writes c' := by
  refine ⟨hp ▸ .refl, fun r hr => ?_, hw ▸ .stay⟩
  rw [inHand, hcloser] at hr
  obtain hr | hr := List.mem_append.mp hr
  · exact .inl (List.mem_append_left _ hr)
  · obtain hstrand | hstrand := hstrand <;>
      (rw [hstrand] at hr; obtain rfl := List.mem_singleton.mp hr; exact .inr hq)

/-- What a round of `handle_read_frame` does. -/
inductive ReadRound (c : Connection) (rest : Bytes) : Connection → Prop
  | done (hrest : rest = []) : ReadRound c rest { c with strand := .idle, reading := true }
  | failed {ec : ErrorCode} (hrest : rest ≠ []) (hconsume : c.processor.consume rest = .error ec) :
    ReadRound c rest { c with strand := .failed ec }
  | part {p : Processor} {left : Bytes} (hrest : rest ≠ [])
    (hconsume : c.processor.consume rest = .ok (p, left)) (hmessage : p.getMessage.1 = none) :
    ReadRound c rest { c with processor := p.getMessage.2, strand := .frames left }
  | control {p : Processor} {left : Bytes} {m : Message} (hrest : rest ≠ [])
    (hconsume : c.processor.consume rest = .ok (p, left)) (hmessage : p.getMessage.1 = some m)
    (hcontrol : m.opcode.isControl = true) :
    ReadRound c rest { c with
      processor := p.getMessage.2
      strand := .control m left
      processed := c.processed ++ [m] }
  | data {p : Processor} {left : Bytes} {m : Message} (hrest : rest ≠ [])
    (hconsume : c.processor.consume rest = .ok (p, left)) (hmessage : p.getMessage.1 = some m)
    (hcontrol : m.opcode.isControl = false) :
    ReadRound c rest { c with
      processor := p.getMessage.2
      strand := .frames left
      processed := c.processed ++ [m]
      handed := if c.state = .opened then c.handed ++ [m] else c.handed }

theorem readRound_cases (c : Connection) (rest : Bytes) : c.ReadRound rest (c.readRound rest) := by
  unfold readRound
  by_cases hrest : rest = []
  · rw [if_pos hrest]
    exact .done hrest
  · rw [if_neg hrest]
    cases hconsume : c.processor.consume rest with
    | error ec => exact .failed hrest hconsume
    | ok r =>
      obtain ⟨p, left⟩ := r
      dsimp only
      rcases hmessage : p.getMessage with ⟨_ | m, p'⟩
      · have hpart := ReadRound.part hrest hconsume (by rw [hmessage])
        rwa [hmessage] at hpart
      · dsimp only
        cases hcontrol : m.opcode.isControl with
        | true =>
          have hround := ReadRound.control (m := m) hrest hconsume (by rw [hmessage]) hcontrol
          rwa [hmessage] at hround
        | false =>
          have hround := ReadRound.data (m := m) hrest hconsume (by rw [hmessage]) hcontrol
          rwa [hmessage] at hround

theorem writes_readRound {rest : Bytes} (h : c.ReadRound rest c') : c.Writes c' := by
  cases h with
  | done => exact writes_strand rfl (.refl) rfl fun q rest => ⟨nofun, nofun⟩
  | failed => exact writes_strand rfl (.refl) rfl fun q rest => ⟨nofun, nofun⟩
  | part hrest hconsume =>
    have hset := (Processor.settled_consume hconsume).trans (Processor.settled_getMessage _)
    exact writes_strand rfl hset rfl fun q rest => ⟨nofun, nofun⟩
  | control hrest hconsume =>
    have hset := (Processor.settled_consume hconsume).trans (Processor.settled_getMessage _)
    exact writes_strand rfl hset rfl fun q rest => ⟨nofun, nofun⟩
  | data hrest hconsume =>
    have hset := (Processor.settled_consume hconsume).trans (Processor.settled_getMessage _)
    exact writes_strand rfl hset rfl fun q rest => ⟨nofun, nofun⟩

theorem writes_processControlFrame (c : Connection) (m : Message) (rest : Bytes) :
    c.Writes (c.processControlFrame m rest) := by
  unfold processControlFrame
  dsimp only
  split_ifs <;> (try split) <;> exact writes_strand rfl .refl rfl fun q rest => ⟨nofun, nofun⟩

theorem writes_closeReceived (c : Connection) (rest : Bytes) : c.Writes (c.closeReceived rest) := by
  unfold closeReceived
  dsimp only
  split_ifs
  · exact writes_strand rfl .refl rfl fun q rest => ⟨nofun, nofun⟩
  · obtain ⟨hwriter, hprocessor, hcloser, hstrand⟩ :=
      terminate_frame none { c with wasClean := true, strand := .frames rest }
    have hset : c.processor.Settled
        (terminate none { c with wasClean := true, strand := .frames rest }).processor := by
      rw [hprocessor]
      exact .refl
    refine writes_strand hwriter hset hcloser fun q rest => ?_
    rw [hstrand]
    exact ⟨nofun, nofun⟩
  · exact writes_strand rfl .refl rfl fun q rest => ⟨nofun, nofun⟩
  · exact writes_strand rfl .refl rfl fun q rest => ⟨nofun, nofun⟩

/-- The strand leaves `handle_read_frame` with the connection terminated. -/
theorem writes_terminated {d : Connection} (err : Option Bytes) (hw : d.toWriter = c.toWriter)
    (hp : d.processor = c.processor) (hcloser : d.closer = c.closer) :
    c.Writes { d.terminate err with strand := .idle } := by
  obtain ⟨hwriter, hprocessor, hsame, -⟩ := terminate_frame err d
  exact writes_strand (hwriter.trans hw) ((hprocessor.trans hp) ▸ .refl) (hsame.trans hcloser)
    fun q rest => ⟨nofun, nofun⟩

theorem writes_strandStep {rng : Nat} (h : c.strandStep rng = some c') : c.Writes c' := by
  unfold strandStep at h
  cases hstrand : c.strand with
  | idle =>
    rw [hstrand] at h
    cases h
  | frames rest =>
    rw [hstrand] at h
    obtain rfl := Option.some.inj h
    exact writes_readRound (c.readRound_cases rest)
  | control m rest =>
    rw [hstrand] at h
    obtain rfl := Option.some.inj h
    exact c.writes_processControlFrame m rest
  | close rest =>
    rw [hstrand] at h
    obtain rfl := Option.some.inj h
    exact c.writes_closeReceived rest
  | pong payload rest =>
    rw [hstrand] at h
    dsimp only at h
    split_ifs at h
    · obtain rfl := Option.some.inj h
      exact writes_strand rfl .refl rfl fun q rest => ⟨nofun, nofun⟩
    · split at h
      · obtain rfl := Option.some.inj h
        exact writes_strand rfl .refl rfl fun q rest => ⟨nofun, nofun⟩
      · next m hm =>
        obtain rfl := Option.some.inj h
        have hq : (Send.pong rng payload).prepare c.processor = .ok m := hm
        exact writes_strand_hold rest ⟨.pong rng payload, m, false⟩ hq (.inl rfl) rfl rfl rfl
  | ack code reason rest =>
    rw [hstrand] at h
    dsimp only at h
    obtain ⟨ec, -, heq⟩ | ⟨m, hm, heq⟩ := c.sendCloseFrame_cases rng code reason true c.processor.server
    · rw [heq] at h
      obtain rfl := Option.some.inj h
      exact writes_strand rfl .refl rfl fun q rest => ⟨nofun, nofun⟩
    · rw [heq] at h
      obtain rfl := Option.some.inj h
      have hq : (Send.close rng _ _).prepare c.processor = .ok m := hm
      exact writes_strand_hold rest ⟨_, m, _⟩ hq (.inl rfl) rfl rfl rfl
  | push q rest =>
    rw [hstrand] at h
    obtain rfl := Option.some.inj h
    exact writes_strand_push rest (.inl hstrand) rfl rfl rfl fun q rest => ⟨nofun, nofun⟩
  | failed ec =>
    rw [hstrand] at h
    dsimp only at h
    split_ifs at h
    · obtain rfl := Option.some.inj h
      exact writes_terminated _ rfl rfl rfl
    · obtain rfl := Option.some.inj h
      exact writes_strand rfl .refl rfl fun q rest => ⟨nofun, nofun⟩
  | failedSend code reason =>
    rw [hstrand] at h
    dsimp only at h
    obtain ⟨ec, -, heq⟩ | ⟨m, hm, heq⟩ :=
      c.sendCloseFrame_cases rng code (reason.take 123) false (closeTerminal code)
    · rw [heq] at h
      obtain rfl := Option.some.inj h
      exact writes_terminated _ rfl rfl rfl
    · rw [heq] at h
      obtain rfl := Option.some.inj h
      have hq : (Send.close rng _ _).prepare c.processor = .ok m := hm
      exact writes_strand_hold [] ⟨_, m, _⟩ hq (.inr rfl) rfl rfl rfl
  | failedPush q =>
    rw [hstrand] at h
    obtain rfl := Option.some.inj h
    exact writes_strand_push [] (.inr hstrand) rfl rfl rfl fun q rest => ⟨nofun, nofun⟩

/-- A call of `close` is somewhere else, and the strand is not. -/
theorem writes_closer (hp : c'.processor = c.processor) (hstrand : c'.strand = c.strand)
    (hq : ∀ q, c'.closer = some (.push q) → c.Known q) (hw : c.toWriter.Moves c.Known c'.toWriter) :
    c.Writes c' := by
  refine ⟨hp ▸ .refl, fun q h => ?_, hw⟩
  rw [inHand, hstrand] at h
  obtain h | h := List.mem_append.mp h
  · split at h
    · next r hcloser =>
      obtain rfl := List.mem_singleton.mp h
      exact hq q hcloser
    · cases h
  · exact .inl (List.mem_append_right _ h)

theorem step_writes (h : c.step a = some c') : c.Writes c' := by
  cases a with
  | call s =>
    dsimp only [step] at h
    split_ifs at h
    obtain rfl := Option.some.inj h
    exact writes_call rfl rfl rfl .stay
  | push i =>
    obtain ⟨s, -, rfl⟩ := Option.map_eq_some_iff.mp h
    dsimp only
    cases hm : s.prepare c.processor with
    | error ec => exact writes_call rfl rfl rfl .stay
    | ok m => exact writes_call rfl rfl rfl (.push ⟨s, m, false⟩ (.inr hm))
  | callClose code reason =>
    dsimp only [step] at h
    split_ifs at h
    obtain rfl := Option.some.inj h
    exact writes_closer rfl rfl (fun q hq => by cases hq) .stay
  | closeSend rng =>
    dsimp only [step] at h
    split at h
    · next code reason _ =>
      obtain ⟨ec, -, heq⟩ | ⟨m, hm, heq⟩ :=
        c.sendCloseFrame_cases rng code reason false (closeTerminal code)
      · rw [heq] at h
        obtain rfl := Option.some.inj h
        exact writes_closer rfl rfl (fun q hq => by cases hq) .stay
      · rw [heq] at h
        obtain rfl := Option.some.inj h
        refine writes_closer rfl rfl (fun q hq => ?_) .stay
        obtain rfl := Closer.push.inj (Option.some.inj hq)
        exact .inr hm
    · cases h
  | closePush =>
    dsimp only [step] at h
    split at h
    · next q hcloser =>
      obtain rfl := Option.some.inj h
      have hq : q ∈ c.inHand := by
        refine List.mem_append_left _ ?_
        rw [hcloser]
        exact List.mem_singleton_self q
      exact writes_closer rfl rfl (fun r hr => by cases hr) (.push q (.inl hq))
    · cases h
  | terminate err =>
    obtain rfl := Option.some.inj h
    exact writes_terminate rfl rfl rfl rfl
  | read data =>
    dsimp only [step] at h
    split_ifs at h
    obtain rfl := Option.some.inj h
    exact writes_strand rfl .refl rfl fun q rest => ⟨nofun, nofun⟩
  | readError eof message =>
    dsimp only [step] at h
    split_ifs at h
    obtain rfl := Option.some.inj h
    unfold readError
    dsimp only
    split_ifs
    · exact writes_call rfl rfl rfl .stay
    · exact writes_terminate rfl rfl rfl rfl
    · exact writes_terminate rfl rfl rfl rfl
  | strand rng => exact writes_strandStep h
  | writeFrame =>
    dsimp only [step] at h
    split_ifs at h with hposted
    obtain rfl := Option.some.inj h
    exact writes_call rfl rfl rfl (.writeFrame hposted.2)
  | transfer i n =>
    obtain ⟨w, ht, rfl⟩ := Option.map_eq_some_iff.mp h
    exact writes_call rfl rfl rfl (.transfer i n ht)
  | written i err =>
    dsimp only [step] at h
    split_ifs at h
    obtain ⟨⟨w, ends⟩, ht, rfl⟩ := Option.map_eq_some_iff.mp h
    dsimp only
    split_ifs
    · obtain ⟨hwriter, hprocessor, hcloser, hstrand⟩ := terminate_frame err { c with toWriter := w }
      refine writes_call hprocessor hcloser hstrand ?_
      rw [hwriter]
      exact .handled i err.isSome ends ht
    · exact writes_call rfl rfl rfl (.handled i err.isSome ends ht)
  | timeout old =>
    dsimp only [step] at h
    split_ifs at h
    · obtain rfl := Option.some.inj h
      exact writes_terminate rfl rfl rfl rfl
    · obtain rfl := Option.some.inj h
      exact writes_terminate rfl rfl rfl rfl
  | shutdown =>
    dsimp only [step] at h
    split_ifs at h
    obtain rfl := Option.some.inj h
    exact writes_call rfl rfl rfl .stay

/-! ### Runs -/

/-- A processor of the same end prepares the same messages. -/
theorem genuine_iff {p r : Processor} (h : p.Settled r) : q.Genuine r ↔ q.Genuine p := by
  unfold Queued.Genuine
  rw [Send.prepare_congr h.server h.host]

/-- All that is queued, or about to be, is what the processor prepares. -/
structure Queues (p : Processor) (c : Connection) : Prop where
  settled : p.Settled c.processor
  queue : c.toWriter.Inv
  pushed : ∀ q ∈ c.pushed, q.Genuine p
  inHand : ∀ q ∈ c.inHand, q.Genuine p

theorem queues_start (host : ByteOrder) (server : Bool) (n : Nat) :
    (start host server n).Queues (.start host server n) :=
  ⟨.refl, Writer.inv_start, fun _ hq => absurd hq List.not_mem_nil, fun _ hq => absurd hq List.not_mem_nil⟩

theorem Queues.known {p : Processor} (h : c.Queues p) (hq : c.Known q) : q.Genuine p := by
  obtain hq | hq := hq
  · exact h.inHand q hq
  · exact (genuine_iff h.settled).mp hq

theorem Queues.step {p : Processor} (h : c.Queues p) (hst : c.step a = some c') : c'.Queues p := by
  have hw := step_writes hst
  refine ⟨h.settled.trans hw.settled, h.queue.moves hw.moves, fun q hq => ?_, fun q hq => ?_⟩
  · obtain hsame | ⟨r, hr, hpush⟩ := hw.moves.pushed
    · rw [hsame] at hq
      exact h.pushed q hq
    · rw [hpush] at hq
      obtain hq | hq := List.mem_append.mp hq
      · exact h.pushed q hq
      · obtain rfl := List.mem_singleton.mp hq
        exact h.known hr
  · exact h.known (hw.inHand q hq)

theorem queues_run {p : Processor} {as : List Action} (h : Run step Free c as c') (hc : c.Queues p) :
    c'.Queues p :=
  h.invariant (Queues p) (fun _ _ _ hc _ hst => hc.step hst) hc

theorem transmit_genuine {p : Processor} {l : List Queued} (hl : ∀ q ∈ l, q.Genuine p) :
    p.transmit (l.map Queued.send) = queuedBytes l := by
  induction l with
  | nil => rfl
  | cons q l ih =>
    have hq : q.send.prepare p = .ok q.message := hl q List.mem_cons_self
    rw [List.map_cons, Processor.transmit, hq]
    dsimp only
    rw [ih fun r hr => hl r (List.mem_cons_of_mem _ hr)]
    rfl

/-- Whatever the threads, the peer and the socket do: there is one write at a time, and what is written
are the bytes of the queued messages in their order, none of them lost or written twice and none behind
a terminal one. While the write flag is free, a queue that is not empty has a `write_frame` on its
way; after a failed or terminal write the flag stays set, and what is queued stays there. -/
theorem write_queue {host : ByteOrder} {server : Bool} {n : Nat} {as : List Action}
    (h : Run step Free (start host server n) as c) :
    let bytes := fun l : List Queued => (Processor.start host server n).transmit (l.map Queued.send)
    c.writing.length ≤ 1 ∧
      c.written <+: bytes (Writer.popLoop c.pushed).1 ∧
      (c.writeFlag = false → c.sendQueue = [] → c.written = bytes c.pushed) ∧
      (c.writeFlag = false → c.sendQueue ≠ [] → 0 < c.posted) ∧
      c.sendBufferSize = Writer.bufferSize c.sendQueue := by
  have hc := queues_run h (queues_start host server n)
  have hfront : ∀ q ∈ (Writer.popLoop c.pushed).1, q.Genuine (.start host server n) := by
    intro q hq
    refine hc.pushed q ?_
    rw [← Writer.popLoop_append c.pushed]
    exact List.mem_append_left _ hq
  dsimp only
  rw [transmit_genuine hfront, transmit_genuine hc.pushed]
  exact ⟨hc.queue.one_at_a_time, hc.queue.written, hc.queue.drained,
    fun hflag hqueue => hc.queue.wakes hqueue hflag, hc.queue.size⟩

/-- Two threads send while the strand writes: the second message waits for the handler of the write. -/
def twoSends : List Action :=
  [.call (.data 0x04030201 ⟨.text, [0x68, 0x69], true, []⟩), .push 0, .writeFrame,
    .call (.ping 7 []), .push 0, .transfer 0 3, .transfer 0 5, .written 0 none, .writeFrame,
    .transfer 0 6, .written 0 none]

theorem write_queue_drained : ∃ c : Connection,
    Run step Free (start .little false 100) twoSends c ∧
      c.pushed.map Queued.send = [.data 0x04030201 ⟨.text, [0x68, 0x69], true, []⟩, .ping 7 []] ∧
      c.written = (Processor.start .little false 100).transmit (c.pushed.map Queued.send) := by
  have h := run_exec step Free (start .little false 100) twoSends (by decide +kernel)
  exact ⟨_, h, rfl, (write_queue h).2.2.1 (by decide +kernel) rfl⟩

end Connection

end NetworkUtility.Websocketpp
