import NetworkUtility.Websocketpp.Accepted

/-! What one end of a connection sends is what the other end dispatches, and what can be dispatched at
all. -/
namespace NetworkUtility.Websocketpp

open Blocks

/-- What is handed to a connection for its peer; `rng` is what the generator gives for the key. -/
inductive Send
  | data (rng : Nat) (m : Message)
  | ping (rng : Nat) (payload : Bytes)
  | pong (rng : Nat) (payload : Bytes)
  | close (rng code : Nat) (reason : Bytes)

namespace Send

def prepare (p : Processor) : Send → Except ErrorCode Message
  | data rng m => p.prepareDataFrame rng m
  | ping rng payload => p.preparePing rng payload
  | pong rng payload => p.preparePong rng payload
  | close rng code reason => p.prepareClose rng code reason

/-- The payload of a close frame. -/
def closePayload (host : ByteOrder) (code : Nat) (reason : Bytes) : Bytes :=
  if code ≠ 1005 then host.store 2 (networkOrder host 2 code) ++ reason else []

def frame (p : Processor) : Send → Frame
  | data rng m => ⟨m.opcode, m.fin, p.host.store 4 rng, m.payload⟩
  | ping rng payload => ⟨.ping, true, p.host.store 4 rng, payload⟩
  | pong rng payload => ⟨.pong, true, p.host.store 4 rng, payload⟩
  | close rng code reason => ⟨.close, true, p.host.store 4 rng, closePayload p.host code reason⟩

end Send

/-- The bytes that are written, in the order of the queue. What cannot be prepared is not queued. -/
def Processor.transmit (p : Processor) : List Send → Bytes
  | [] => []
  | s :: ss =>
    match s.prepare p with
    | .ok m => m.header ++ m.payload ++ p.transmit ss
    | .error _ => p.transmit ss

/-- The message that a single frame makes. -/
def Frame.message (f : Frame) : Message := { Message.empty f.opcode with payload := f.payload }

/-- The messages that can be prepared, as the other end is to see them. -/
def Processor.sent (p : Processor) : List Send → List Message
  | [] => []
  | s :: ss =>
    match s.prepare p with
    | .ok _ =>
      (s.frame p).message :: p.sent ss
    | .error _ => p.sent ss

variable {p q : Processor} {m : Option Message} {msg out : Message} {f : Frame} {s : Send} {n : Nat}

theorem prepared_bytes (p : Processor) (rng : Nat) (op : Opcode) (fin : Bool) (payload : Bytes) :
    (p.prepared rng op fin payload).header ++ (p.prepared rng op fin payload).payload =
      Frame.bytes ⟨op, fin, p.host.store 4 rng, payload⟩ (!p.server) := by
  unfold Processor.prepared Frame.bytes Frame.extended Frame.header Frame.body
  cases p.server with
  | true =>
    dsimp only
    rw [if_pos rfl, prepareHeader_plain _ _ _ _ (p.host.store 4 rng)]
    simp only [headerBytes, List.append_assoc]
    rfl
  | false =>
    dsimp only
    rw [if_neg (by decide), prepareHeader_key]
    simp only [headerBytes, List.append_assoc]
    rfl

/-- What is prepared is a frame that obeys the rules of its kind. -/
structure Prepared (p : Processor) (s : Send) (out : Message) : Prop where
  bytes : out.header ++ out.payload = (s.frame p).bytes !p.server
  control : (s.frame p).opcode.isControl = true →
    (s.frame p).fin = true ∧ (s.frame p).payload.length ≤ 125 ∧ (s.frame p).opcode.reserved = false
  text : (s.frame p).opcode = .text → ∃ text, (s.frame p).payload = encodeText text

theorem prepareControl_ok {rng : Nat} {op : Opcode} {payload : Bytes}
    (h : p.prepareControl rng op payload = .ok out) :
    op.isControl = true ∧ payload.length ≤ 125 ∧ out = p.prepared rng op true payload := by
  unfold Processor.prepareControl at h
  split_ifs at h with hc hlen
  cases h
  exact ⟨by simpa using hc, by simpa [payloadSizeBasic] using hlen, rfl⟩

theorem prepareClose_control {rng code : Nat} {reason : Bytes}
    (h : p.prepareClose rng code reason = .ok out) :
    p.prepareControl rng .close (Send.closePayload p.host code reason) = .ok out := by
  unfold Processor.prepareClose at h
  split at h
  · cases h
  · split at h
    · cases h
    · split at h
      · cases h
      · split at h
        · cases h
        · exact h

theorem Send.prepared (h : s.prepare p = .ok out) : Prepared p s out := by
  cases s with
  | data rng m =>
    change p.prepareDataFrame rng m = .ok out at h
    unfold Processor.prepareDataFrame at h
    split_ifs at h with hc ht
    cases h
    refine ⟨prepared_bytes p rng m.opcode m.fin m.payload, fun hc' => absurd hc' hc, fun htext => ?_⟩
    exact (accepted_iff _).mp ((validate_iff _).mp (by_contra fun hv => ht ⟨htext, hv⟩))
  | ping rng payload =>
    change p.prepareControl rng .ping payload = .ok out at h
    obtain ⟨-, hlen, rfl⟩ := prepareControl_ok h
    exact ⟨prepared_bytes .., fun _ => ⟨rfl, hlen, (by decide : Opcode.ping.reserved = false)⟩,
      fun ht => by cases ht⟩
  | pong rng payload =>
    change p.prepareControl rng .pong payload = .ok out at h
    obtain ⟨-, hlen, rfl⟩ := prepareControl_ok h
    exact ⟨prepared_bytes .., fun _ => ⟨rfl, hlen, (by decide : Opcode.pong.reserved = false)⟩,
      fun ht => by cases ht⟩
  | close rng code reason =>
    obtain ⟨-, hlen, rfl⟩ := prepareControl_ok (prepareClose_control h)
    exact ⟨prepared_bytes .., fun _ => ⟨rfl, hlen, (by decide : Opcode.close.reserved = false)⟩,
      fun ht => by cases ht⟩

/-! ### Both ends -/

/-- The data messages that the program sends: whole ones, of the two kinds, not above the limit. -/
def Send.Whole (n : Nat) : Send → Prop
  | .data _ m => m.fin = true ∧ (m.opcode = .text ∨ m.opcode = .binary) ∧ m.payload.length ≤ n
  | _ => True

theorem Prepared.wf (h : Prepared p s out) (hs : s.Whole n) (hn : n < 2 ^ 64) : (s.frame p).Wf := by
  have hcontrol : (s.frame p).opcode.isControl = true → (s.frame p).payload.length < 2 ^ 64 := by
    intro hc
    have := (h.control hc).2.1
    omega
  cases s with
  | data rng m => exact ⟨length_store .., by have := hs.2.2; exact Nat.lt_of_le_of_lt this hn⟩
  | ping rng payload => exact ⟨length_store .., hcontrol rfl⟩
  | pong rng payload => exact ⟨length_store .., hcontrol rfl⟩
  | close rng code reason => exact ⟨length_store .., hcontrol rfl⟩

theorem accept_whole (hfin : f.fin = true)
    (hcontrol : f.opcode.isControl = true → f.payload.length ≤ 125 ∧ f.opcode.reserved = false)
    (hdata : f.opcode.isControl = false →
      (f.opcode = .text ∨ f.opcode = .binary) ∧ f.payload.length ≤ n)
    (htext : f.opcode = .text → ∃ text, f.payload = encodeText text) :
    accept n none f = .ok (some f.message, none) := by
  have htarget : target none f = .empty f.opcode := by
    unfold target
    split <;> rfl
  have hreceived : received none f = f.message := by
    rw [received, htarget]
    rfl
  have hrefused : refused none f = none := by
    unfold refused payloadSizeBasic
    cases hc : f.opcode.isControl with
    | true =>
      obtain ⟨hlen, hreserved⟩ := hcontrol hc
      have hne : f.opcode ≠ .continuation := fun he => by rw [he] at hc; revert hc; decide
      simp [hreserved, hfin, hne, hlen]
    | false =>
      obtain ⟨hop | hop, -⟩ := hdata hc <;> rw [hop] <;> simp [Opcode.reserved] <;> decide
  have hstates : f.opcode = .text → runStates 0 f.payload = 0 := fun ht =>
    (accepted_iff _).mpr (htext ht)
  have hop : f.message.opcode = f.opcode := rfl
  have hpayload : f.message.payload = f.payload := rfl
  unfold accept
  rw [hrefused]
  dsimp only
  rw [hreceived, hop, hpayload, if_neg, if_neg, if_neg, if_neg]
  · split <;> rfl
  · exact fun h => h.2 (hstates h.1)
  · rw [hfin]
    decide
  · exact fun h => by rw [hstates h.1] at h; cases h.2
  · rintro ⟨hc, hbig⟩
    have := (hdata hc).2
    have := Nat.mod_le f.payload.length (2 ^ 64)
    omega

theorem Prepared.accepted (h : Prepared p s out) (hs : s.Whole n) :
    accept n none (s.frame p) = .ok (some (s.frame p).message, none) := by
  have hdata : (s.frame p).opcode.isControl = false →
      ((s.frame p).opcode = .text ∨ (s.frame p).opcode = .binary) ∧
        (s.frame p).payload.length ≤ n := by
    intro hc
    cases s with
    | data rng m => exact hs.2
    | ping rng payload => cases hc
    | pong rng payload => cases hc
    | close rng code reason => cases hc
  have hfin : (s.frame p).fin = true := by
    cases s with
    | data rng m => exact hs.1
    | ping rng payload => rfl
    | pong rng payload => rfl
    | close rng code reason => rfl
  exact accept_whole hfin (fun hc => (h.control hc).2) hdata h.text

theorem transmit_frames (p : Processor) (ss : List Send) (hss : ∀ s ∈ ss, s.Whole n) (hn : n < 2 ^ 64) :
    ∃ fs, (∀ f ∈ fs, Frame.Wf f) ∧ p.transmit ss = wire (!p.server) fs ∧
      acceptAll n none fs = (p.sent ss, .ok none) := by
  induction ss with
  | nil => exact ⟨[], fun f hf => absurd hf List.not_mem_nil, rfl, rfl⟩
  | cons s ss ih =>
    obtain ⟨fs, hfs, hwire, haccept⟩ := ih fun s hs => hss s (List.mem_cons_of_mem _ hs)
    have hs := hss s (List.mem_cons_self ..)
    rw [Processor.transmit, Processor.sent]
    cases hp : s.prepare p with
    | error e => exact ⟨fs, hfs, hwire, haccept⟩
    | ok out =>
      have hprepared := Send.prepared hp
      refine ⟨s.frame p :: fs, ?_, ?_, ?_⟩
      · intro g hg
        obtain rfl | hg := List.mem_cons.mp hg
        · exact hprepared.wf hs hn
        · exact hfs g hg
      · dsimp only
        rw [hprepared.bytes, hwire, wire, wire, List.flatMap_cons]
      · rw [acceptAll, hprepared.accepted hs]
        dsimp only
        rw [ok_andThen, haccept]
        rfl

/-- One end sends, the other is started with the other role: whatever is sent in whole messages within
the limit arrives as it was sent, each once and in order, whatever the masking keys are, whichever
byte orders the two hosts have and however the bytes are cut into reads. -/
theorem sent_arrives (p : Processor) (o : ByteOrder) (n : Nat) (hn : n < 2 ^ 64) (ss : List Send)
    (hss : ∀ s ∈ ss, s.Whole n) (bufs : List Bytes) (hcut : bufs.flatten = p.transmit ss) :
    let r := (Processor.start o (!p.server) n).handleReads bufs
    r.1 = p.sent ss ∧ ∃ q, r.2 = .ok q := by
  obtain ⟨fs, hfs, hwire, haccept⟩ := transmit_frames p ss hss hn
  obtain ⟨hout, herror⟩ := feed_frames o (!p.server) n fs hfs
  rw [haccept] at hout herror
  dsimp only
  rw [Processor.handleReads_eq (Processor.waits_start ..), hcut, hwire]
  refine ⟨hout, ?_⟩
  cases hr : (Processor.reader.feed 3 (Processor.start o (!p.server) n) (wire (!p.server) fs)).2 with
  | error e => exact absurd ((herror e).mp hr) (fun h => by cases h)
  | ok q => exact ⟨q, rfl⟩

/-- A text and a ping of a client, in three reads. -/
theorem sent_arrives_text :
    let p := Processor.start .little false 100
    let ss := [Send.data 0x04030201 ⟨.text, [0x68, 0x69], true, []⟩, .ping 7 []]
    let bufs := [(p.transmit ss).take 1, ((p.transmit ss).drop 1).take 8, (p.transmit ss).drop 9]
    p.sent ss = [⟨.text, [0x68, 0x69], true, []⟩, ⟨.ping, [], true, []⟩] ∧
      ((Processor.start .big true 100).handleReads bufs).1 = p.sent ss := by
  refine ⟨by decide +kernel, ?_⟩
  have hss : ∀ s ∈ [Send.data 0x04030201 ⟨.text, [0x68, 0x69], true, []⟩, .ping 7 []],
      s.Whole 100 := by
    intro s hs
    simp only [List.mem_cons, List.not_mem_nil, or_false] at hs
    obtain rfl | rfl := hs
    · exact ⟨rfl, .inl rfl, by decide⟩
    · trivial
  exact (sent_arrives (Processor.start .little false 100) .big 100 (by decide) _ hss _
    (by decide +kernel)).1

/-! ### What can be dispatched -/

/-- A message, whole or with frames still to come, after frames of `total` bytes. -/
structure Message.Sound (n total : Nat) (msg : Message) : Prop where
  kind : msg.opcode = .text ∨ msg.opcode = .binary
  text : msg.opcode = .text → BeginsText msg.payload
  size : msg.payload.length % 2 ^ 64 ≤ n
  length : msg.payload.length ≤ total

/-- A control frame that was dispatched. -/
structure Message.Control (msg : Message) : Prop where
  kind : msg.opcode = .close ∨ msg.opcode = .ping ∨ msg.opcode = .pong
  size : msg.payload.length ≤ 125

theorem Message.Sound.mono {total total' : Nat} (h : msg.Sound n total) (hle : total ≤ total') :
    msg.Sound n total' := ⟨h.kind, h.text, h.size, h.length.trans hle⟩

theorem refused_kind (hr : refused m f = none) :
    (f.opcode.isControl = true → (f.opcode = .close ∨ f.opcode = .ping ∨ f.opcode = .pong) ∧
        f.payload.length ≤ 125) ∧
      (f.opcode.isControl = false → m = none → f.opcode = .text ∨ f.opcode = .binary) := by
  unfold refused at hr
  split_ifs at hr with hsize hreserved hfin hnew hopen
  refine ⟨fun hc => ⟨?_, ?_⟩, fun hc hm => ?_⟩
  · revert hc hreserved
    cases f.opcode <;> simp [Opcode.reserved] <;> decide
  · exact not_lt.mp fun hlt => hsize ⟨hc, hlt⟩
  · revert hc hreserved hnew
    cases f.opcode <;> simp [Opcode.reserved, hm] <;> decide

theorem received_control (hr : refused m f = none) (hc : f.opcode.isControl = true) :
    (received m f).Control := by
  obtain ⟨hkind, hlen⟩ := (refused_kind hr).1 hc
  have htarget : target m f = .empty f.opcode := if_pos hc
  unfold received
  rw [htarget]
  exact ⟨hkind, by simpa [Message.empty] using hlen⟩

theorem received_sound {total : Nat} (hr : refused m f = none) (hc : f.opcode.isControl = false)
    (hbig : ¬ n < (received m f).payload.length % 2 ^ 64)
    (htext : ¬ ((received m f).opcode = .text ∧ runStates 0 (received m f).payload = 1))
    (hm : ∀ msg, m = some msg → msg.Sound n total) :
    (received m f).Sound n (total + f.payload.length) := by
  have htarget : target m f = m.getD (.empty f.opcode) := if_neg (by rw [hc]; decide)
  refine ⟨?_, fun ht => (beginsText_iff _).mpr fun hs => htext ⟨ht, hs⟩, not_lt.mp hbig, ?_⟩
  · unfold received
    rw [htarget]
    cases m with
    | none => exact (refused_kind hr).2 hc rfl
    | some msg => exact (hm msg rfl).kind
  · unfold received
    rw [htarget, List.length_append]
    cases m with
    | none => simp [Message.empty]
    | some msg =>
      have := (hm msg rfl).length
      dsimp only [Option.getD_some]
      omega

theorem accept_sound {total : Nat} {o m' : Option Message} (ha : accept n m f = .ok (o, m'))
    (hm : ∀ msg, m = some msg → msg.Sound n total) :
    (∀ msg, o = some msg → msg.Control ∨ msg.Sound n (total + f.payload.length)) ∧
      ∀ msg, m' = some msg → msg.Sound n (total + f.payload.length) := by
  unfold accept at ha
  cases hr : refused m f with
  | some e =>
    rw [hr] at ha
    cases ha
  | none =>
    rw [hr] at ha
    dsimp only at ha
    split_ifs at ha with hbig htext hfin hend hc
    · cases ha
      have hdata : f.opcode.isControl = false := by
        by_contra hc
        rw [refused_control hr (Bool.eq_true_of_not_eq_false hc)] at hfin
        cases hfin
      refine ⟨fun msg h => (by cases h), ?_⟩
      rintro _ ⟨⟩
      exact received_sound hr hdata (fun h => hbig ⟨hdata, h⟩) htext hm
    · cases ha
      refine ⟨?_, fun msg h => (hm msg h).mono (Nat.le_add_right _ _)⟩
      rintro _ ⟨⟩
      exact .inl (received_control hr hc)
    · cases ha
      have hdata := Bool.eq_false_of_not_eq_true hc
      refine ⟨?_, fun msg h => by cases h⟩
      rintro _ ⟨⟩
      exact .inr (received_sound hr hdata (fun h => hbig ⟨hdata, h⟩) htext hm)

theorem length_payload_le (f : Frame) (mask : Bool) : f.payload.length ≤ (f.bytes mask).length := by
  rw [Frame.bytes, List.length_append, List.length_append, AtPayload.length_body]
  omega

theorem acceptAll_sound {fs : List Frame} (mask : Bool) (total : Nat)
    (hm : ∀ msg, m = some msg → msg.Sound n total) :
    ∀ msg ∈ (acceptAll n m fs).1,
      msg.Control ∨ msg.Sound n (total + (wire mask fs).length) := by
  induction fs generalizing m total with
  | nil => exact fun msg h => absurd h List.not_mem_nil
  | cons f fs ih =>
    intro msg h
    rw [acceptAll] at h
    rw [wire, List.flatMap_cons, List.length_append, ← wire]
    have hle := length_payload_le f mask
    cases ha : accept n m f with
    | error e =>
      rw [ha] at h
      exact absurd h List.not_mem_nil
    | ok r =>
      obtain ⟨o, m'⟩ := r
      obtain ⟨hout, hm'⟩ := accept_sound ha hm
      rw [ha] at h
      obtain h | h := List.mem_append.mp h
      · obtain hc | hs := hout msg (Option.mem_toList.mp h)
        · exact .inl hc
        · exact .inr (hs.mono (by omega))
      · obtain hc | hs := ih _ hm' msg h
        · exact .inl hc
        · exact .inr (hs.mono (by omega))

theorem feed_sound (o : ByteOrder) (server : Bool) (n : Nat) (bs : Bytes) :
    ∀ msg ∈ (Processor.reader.feed 3 (Processor.start o server n) bs).1,
      msg.Control ∨ msg.Sound n bs.length := by
  intro msg hmsg
  obtain ⟨fs, tail, m, hfs, hbytes, haccept, -⟩ := feed_accepted o server n bs
  rw [← show (acceptAll n none fs).1 = _ from congrArg Prod.fst haccept] at hmsg
  obtain hc | hs := acceptAll_sound server 0 (fun msg h => by cases h) msg hmsg
  · exact .inl hc
  · refine .inr (hs.mono ?_)
    rw [hbytes, List.length_append]
    omega

/-- Whatever the peer sends: a message that is dispatched is a control frame of at most 125 bytes of
one of the three kinds, or a text or a binary; a text is at least the beginning of one. The limit on
the size holds as long as fewer than 2^64 bytes have come, as it is tested on a sum of two `size_t`. -/
theorem dispatched_sound (o : ByteOrder) (server : Bool) (n : Nat) (bufs : List Bytes) :
    ∀ msg ∈ ((Processor.start o server n).handleReads bufs).1,
      msg.Control ∨ ((msg.opcode = .text ∨ msg.opcode = .binary) ∧
        (msg.opcode = .text → BeginsText msg.payload) ∧
        (bufs.flatten.length < 2 ^ 64 → msg.payload.length ≤ n)) := by
  intro msg hmsg
  rw [Processor.handleReads_eq (Processor.waits_start ..)] at hmsg
  obtain hc | hs := feed_sound o server n bufs.flatten msg hmsg
  · exact .inl hc
  · refine .inr ⟨hs.kind, hs.text, fun hlt => ?_⟩
    have hsize := hs.size
    rwa [Nat.mod_eq_of_lt (Nat.lt_of_le_of_lt hs.length hlt)] at hsize

/-- A text that is dispatched to a server which takes two bytes at most. -/
theorem dispatched_sound_text :
    let msg := Message.mk .text [0x68, 0x69] true []
    msg.Control ∨ ((msg.opcode = .text ∨ msg.opcode = .binary) ∧
      (msg.opcode = .text → BeginsText msg.payload) ∧
      ([[0x81, 0x82, 1], [2, 3, 4, 0x69, 0x6B]].flatten.length < 2 ^ 64 → msg.payload.length ≤ 2)) :=
  dispatched_sound .little true 2 [[0x81, 0x82, 1], [2, 3, 4, 0x69, 0x6B]] _ (by decide +kernel)

/-- A text in two frames is dispatched although its last character is not complete. -/
example : (acceptAll 100 none [⟨.text, false, [0, 0, 0, 0], [0xE2, 0x82]⟩,
    ⟨.continuation, true, [0, 0, 0, 0], []⟩]).1 = [⟨.text, [0xE2, 0x82], true, []⟩] ∧
    ¬ validate [0xE2, 0x82] := by decide +kernel

end NetworkUtility.Websocketpp
