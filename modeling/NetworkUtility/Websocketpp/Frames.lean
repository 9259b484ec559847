import NetworkUtility.Websocketpp.Reading

/-! What a processor makes of whole frames: the messages, whatever the keys, and the errors. -/
namespace NetworkUtility.Websocketpp

open Blocks

/-- A frame without reserved bits; the key is used on the way to a server. -/
structure Frame where
  opcode : Opcode
  fin : Bool
  key : Bytes
  payload : Bytes
  deriving DecidableEq, Repr

namespace Frame

/-- What the fields of a header can say. -/
structure Wf (f : Frame) : Prop where
  key : f.key.length = 4
  size : f.payload.length < 2 ^ 64

def header (f : Frame) (mask : Bool) : BasicHeader :=
  .make f.opcode f.payload.length f.fin mask

def extended (f : Frame) (mask : Bool) : Bytes :=
  sizeBytes f.payload.length ++ keyBytes mask f.key

def body (f : Frame) (mask : Bool) : Bytes :=
  if mask then byteMask f.key 0 f.payload else f.payload

/-- The frame on the wire. -/
def bytes (f : Frame) (mask : Bool) : Bytes :=
  [(f.header mask).b0, (f.header mask).b1] ++ (f.extended mask ++ f.body mask)

end Frame

/-- The error that the header of a frame is refused for. `m` is the message whose frames are still
coming. -/
def refused (m : Option Message) (f : Frame) : Option ErrorCode :=
  if f.opcode.isControl ∧ payloadSizeBasic < f.payload.length then some .controlTooBig
  else if f.opcode.reserved then some .invalidOpcode
  else if f.opcode.isControl ∧ ¬ f.fin then some .fragmentedControl
  else if m = none ∧ f.opcode = .continuation then some .invalidContinuation
  else if m ≠ none ∧ ¬ f.opcode.isControl ∧ f.opcode ≠ .continuation then some .invalidContinuation
  else none

/-- The message that the payload of a frame is a part of. -/
def target (m : Option Message) (f : Frame) : Message :=
  if f.opcode.isControl then .empty f.opcode else m.getD (.empty f.opcode)

/-- That message with the payload. -/
def received (m : Option Message) (f : Frame) : Message :=
  { target m f with payload := (target m f).payload ++ f.payload }

/-- A frame is received: the message that is complete with it, and the one whose frames are still
coming. A text must be the beginning of some text after every frame; whether it is a whole one is asked
in the end, but only if its last frame is its first. -/
def accept (maxMessageSize : Nat) (m : Option Message) (f : Frame) :
    Except ErrorCode (Option Message × Option Message) :=
  match refused m f with
  | some e => .error e
  | none =>
    let msg := received m f
    if f.opcode.isControl = false ∧ maxMessageSize < msg.payload.length % 2 ^ 64 then
      .error .messageTooBig
    else if msg.opcode = .text ∧ runStates 0 msg.payload = 1 then .error .invalidUtf8
    else if f.fin = false then .ok (none, some msg)
    else if f.opcode = .text ∧ runStates 0 msg.payload ≠ 0 then .error .invalidUtf8
    else .ok (some msg, if f.opcode.isControl then m else none)

/-- Frame after frame. -/
def acceptAll (maxMessageSize : Nat) :
    Option Message → List Frame → Outcome (Option Message) Message ErrorCode
  | m, [] => ([], .ok m)
  | m, f :: fs =>
    match accept maxMessageSize m f with
    | .error e => ([], .error e)
    | .ok (out, m) => Outcome.andThen (out.toList, .ok m) fun m => acceptAll maxMessageSize m fs

variable {p q : Processor} {m : Option Message} {msg : Message} {f : Frame} {a rest : Bytes}
  {e : ErrorCode}

/-- The processor is between two frames, with `m` as the message whose frames are still coming. -/
structure Between (p : Processor) (m : Option Message) : Prop where
  state : p.state = .headerBasic
  needed : p.bytesNeeded = basicHeaderLength
  extended : p.extendedHeader = .empty
  data : p.dataMsg.msgPtr = m
  valid : ∀ msg, m = some msg → msg.opcode = .text → p.dataMsg.validator.Read msg.payload
  kind : ∀ msg, m = some msg → msg.opcode.isControl = false

theorem Between.reads (h : Between p m) : p.Reads :=
  .of_basic h.state (by rw [h.extended]; rfl) h.needed.le

namespace Processor

/-- A part of a frame comes to its end: with an error, or with the next part. -/
theorem go_part_error (h : p.Reads) (ha : a.length = p.bytesNeeded) (hq : p.store a = .ok q)
    (hadvance : q.advance = .error e) : reader.go 3 p (a ++ rest) = ([], .error e) := by
  obtain ⟨hreads, hneed⟩ := store_reads h ha.le hq
  rw [reader_lawful.go_block h ha.le, Reader.stored, show reader.store p a = _ from hq, ok_andThen,
    reader_lawful.go_turn hreads (show q.bytesNeeded = 0 by omega), turned_error hadvance]
  rfl

theorem go_part {q' : Processor} (h : p.Reads) (ha : a.length = p.bytesNeeded) (hq : p.store a = .ok q)
    (hadvance : q.advance = .ok q') :
    reader.go 3 p (a ++ rest) = Outcome.andThen (q'.getMessage.1.toList, .ok q'.getMessage.2) fun t =>
      reader.go 3 t rest := by
  obtain ⟨hreads, hneed⟩ := store_reads h ha.le hq
  rw [reader_lawful.go_block h ha.le, Reader.stored, show reader.store p a = _ from hq, ok_andThen,
    reader_lawful.go_turn hreads (show q.bytesNeeded = 0 by omega), turned_ok hadvance]
  rfl

theorem go_store_error (h : p.Reads) (ha : a.length ≤ p.bytesNeeded) (hq : p.store a = .error e) :
    reader.go 3 p (a ++ rest) = ([], .error e) := by
  rw [reader_lawful.go_block h ha, Reader.stored, show reader.store p a = _ from hq]
  rfl

end Processor

/-! ### The basic header -/

theorem sizeCode_le (n : Nat) : BasicHeader.sizeCode n ≤ 125 ↔ n ≤ 125 := by
  unfold BasicHeader.sizeCode
  split_ifs <;> omega

theorem validate_header (m : Option Message) (f : Frame) (server : Bool) :
    Processor.validateIncomingBasicHeader (f.header server) server (m = none) = refused m f := by
  have hsize : payloadSizeBasic < BasicHeader.sizeCode f.payload.length ↔
      payloadSizeBasic < f.payload.length := by
    have := sizeCode_le f.payload.length
    unfold payloadSizeBasic
    omega
  have hvalid : f.opcode.invalid = false := by cases f.opcode <;> decide
  unfold Processor.validateIncomingBasicHeader refused Frame.header
  simp only [BasicHeader.getOpcode_make, BasicHeader.getBasicSize_make, BasicHeader.getRsv1_make,
    BasicHeader.getRsv2_make, BasicHeader.getRsv3_make, BasicHeader.getFin_make,
    BasicHeader.getMasked_make, hsize, hvalid, decide_eq_true_eq]
  cases server <;> simp

/-- After the two bytes of the basic header. -/
def Processor.headerRead (p : Processor) (h : BasicHeader) : Processor :=
  { p with basicHeader := h, bytesNeeded := 0 }

theorem Between.store_header (h : Between p m) (b0 b1 : UInt8) :
    p.store [b0, b1] = .ok (p.headerRead ⟨b0, b1⟩) := by
  simp [Processor.store, h.state, Processor.copyBasicHeaderBytes, h.needed, Processor.headerRead]

theorem Between.header_refused (h : Between p m) (hr : refused m f = some e) :
    (p.headerRead (f.header p.server)).advance = .error e := by
  have hvalidate := validate_header m f p.server
  rw [hr] at hvalidate
  simp only [Processor.advance, Processor.headerRead, h.state, Processor.basicHeaderRead, h.data,
    hvalidate]

theorem Frame.Wf.length_extended (h : f.Wf) (mask : Bool) :
    (f.header mask).getHeaderLen - basicHeaderLength = (f.extended mask).length := by
  unfold Frame.header Frame.extended keyBytes
  rw [getHeaderLen_eq BasicHeader.getBasicSize_make.symm, BasicHeader.getMasked_make,
    List.length_append]
  cases mask with
  | false => rfl
  | true => rw [if_pos rfl, if_pos rfl, h.key]

/-- The processor in front of the bytes of the size and of the key. -/
def Processor.beforeExtended (p : Processor) (f : Frame) : Processor :=
  { p with
    basicHeader := f.header p.server
    state := .headerExtended
    cursor := 0
    bytesNeeded := (f.extended p.server).length }

theorem Between.header_accepted (h : Between p m) (hf : f.Wf) (hr : refused m f = none) :
    (p.headerRead (f.header p.server)).advance = .ok (p.beforeExtended f) := by
  have hvalidate := validate_header m f p.server
  rw [hr] at hvalidate
  simp only [Processor.advance, Processor.headerRead, h.state, Processor.basicHeaderRead, h.data,
    hvalidate, hf.length_extended]
  rfl

/-! ### The extended header -/

theorem Frame.Wf.extended_le (h : f.Wf) (mask : Bool) : (f.extended mask).length ≤ 12 := by
  have hsize := length_sizeBytes f.payload.length
  unfold Frame.extended keyBytes
  rw [List.length_append]
  cases mask with
  | false =>
    simp only [Bool.false_eq_true, if_false, List.length_nil]
    omega
  | true =>
    rw [if_pos rfl, h.key]
    omega

theorem Between.beforeExtended (h : Between p m) (hf : f.Wf) : (p.beforeExtended f).Reads :=
  .of_extended rfl (by rw [show (p.beforeExtended f).extendedHeader = _ from h.extended]; rfl)
    (by simpa [Processor.beforeExtended, maxExtendedHeaderLength] using hf.extended_le p.server)

/-- The array of the extended header in the end. -/
def Frame.extendedHeader (f : Frame) (mask : Bool) : ExtendedHeader :=
  copyInto ExtendedHeader.empty 0 (f.extended mask)

theorem Between.store_extended (h : Between p m) :
    (p.beforeExtended f).store (f.extended p.server) = .ok { p.beforeExtended f with
      extendedHeader := f.extendedHeader p.server
      cursor := (f.extended p.server).length
      bytesNeeded := 0 } := by
  have hcopy := (p.beforeExtended f).copyExtendedHeaderBytes_eq (a := f.extended p.server) le_rfl
  have hstate : (p.beforeExtended f).state = .headerExtended := rfl
  simp only [Processor.store, hstate, hcopy]
  simp only [Processor.beforeExtended, h.extended, Nat.zero_add, Nat.sub_self,
    Frame.extendedHeader]

theorem Frame.Wf.fields (h : f.Wf) (o : ByteOrder) (mask : Bool) :
    getPayloadSize o (f.header mask) (f.extendedHeader mask) = f.payload.length ∧
      (mask = true → getMaskingKey o (f.header mask) (f.extendedHeader mask) = o.load f.key) ∧
      Processor.validateIncomingExtendedHeader o (f.header mask) (f.extendedHeader mask) = none := by
  have hcode : BasicHeader.sizeCode f.payload.length = (f.header mask).getBasicSize :=
    BasicHeader.getBasicSize_make.symm
  have hlayout : f.extendedHeader mask =
      sizeBytes f.payload.length ++ (keyBytes mask f.key ++
        ExtendedHeader.empty.drop (f.extended mask).length) := by
    unfold extendedHeader copyInto
    rw [List.take_zero, List.nil_append, Nat.zero_add]
    unfold extended
    rw [List.append_assoc]
  have htake : (f.extendedHeader mask).take (sizeBytes f.payload.length).length =
      sizeBytes f.payload.length := by rw [hlayout, List.take_left' rfl]
  have hsize := getPayloadSize_eq (o := o) hcode h.size htake
  refine ⟨hsize, ?_, ?_⟩
  · rintro rfl
    rw [getMaskingKey, header, BasicHeader.getMasked_make, if_pos rfl, ← header,
      getMaskingKeyOffset_eq hcode, hlayout, List.drop_left' rfl, keyBytes, if_pos rfl,
      List.take_left' h.key]
  · unfold Processor.validateIncomingExtendedHeader
    rw [hsize, ← hcode]
    unfold BasicHeader.sizeCode
    simp only [payloadSizeCode16bit, payloadSizeCode64bit, payloadSizeBasic, payloadSizeExtended]
    split_ifs <;> first | rfl | omega

/-- The processor in front of the payload. -/
structure AtPayload (p q : Processor) (m : Option Message) (f : Frame) : Prop where
  reads : q.Reads
  state : q.state = .application
  needed : q.bytesNeeded = f.payload.length
  header : q.basicHeader = f.header p.server
  control : q.currentControl = f.opcode.isControl
  message : q.currentMsg.msgPtr = some (target m f)
  key : p.server = true → q.currentMsg.preparedKey = prepared q.host f.key
  valid : (target m f).opcode = .text → q.currentMsg.validator.Read (target m f).payload
  kept : f.opcode.isControl = true → q.dataMsg = p.dataMsg
  host : q.host = p.host
  server : q.server = p.server
  size : q.maxMessageSize = p.maxMessageSize

/-- The processor behind the header. -/
def Processor.behindHeader (p : Processor) (f : Frame) : Processor :=
  { p.beforeExtended f with
    extendedHeader := f.extendedHeader p.server
    cursor := (f.extended p.server).length
    bytesNeeded := 0 }

theorem Between.message_refused (h : Between p m) (hf : f.Wf) (hdata : f.opcode.isControl = false)
    (hsize : p.maxMessageSize < ((target m f).payload ++ f.payload).length % 2 ^ 64) :
    (p.behindHeader f).advance = .error .messageTooBig := by
  obtain ⟨hpayload, -, hvalidate⟩ := hf.fields p.host p.server
  have hop : (f.header p.server).getOpcode = f.opcode := BasicHeader.getOpcode_make
  rw [target, if_neg (by rw [hdata]; decide), List.length_append] at hsize
  simp only [Processor.advance, Processor.behindHeader, Processor.beforeExtended,
    Processor.extendedHeaderRead, hvalidate, hpayload, hop, hdata, h.data, Bool.false_eq_true, if_false]
  cases m with
  | none =>
    rw [Option.getD_none, Message.empty, List.length_nil, Nat.zero_add,
      Nat.mod_eq_of_lt hf.size] at hsize
    exact if_pos hsize
  | some msg => exact if_pos hsize

theorem Between.header_read (h : Between p m) (hf : f.Wf)
    (hsize : f.opcode.isControl = false →
      ¬ p.maxMessageSize < ((target m f).payload ++ f.payload).length % 2 ^ 64) :
    ∃ q, (p.behindHeader f).advance = .ok q ∧ AtPayload p q m f := by
  obtain ⟨hpayload, hkey, hvalidate⟩ := hf.fields p.host p.server
  have hop : (f.header p.server).getOpcode = f.opcode := BasicHeader.getOpcode_make
  have hprepared : p.server = true →
      prepareMaskingKey (getMaskingKey p.host (f.header p.server) (f.extendedHeader p.server)) =
        prepared p.host f.key := fun hs => by
    rw [hkey hs, prepareMaskingKey_eq p.host hf.key]
  have hreads : ∀ q, (p.behindHeader f).advance = .ok q → q.Reads ∧ q.state = .application := by
    intro q hq
    obtain ⟨hr, -⟩ := Processor.store_reads (h.beforeExtended hf) le_rfl h.store_extended
    exact Processor.extendedHeaderRead_ok hr hq
  have hadvance : (p.behindHeader f).advance = (p.behindHeader f).extendedHeaderRead := rfl
  rw [hadvance] at hreads ⊢
  simp only [Processor.behindHeader, Processor.beforeExtended,
    Processor.extendedHeaderRead, hvalidate, hpayload, hop, h.data] at hreads ⊢
  cases hcontrol : f.opcode.isControl with
  | true =>
    simp only [hcontrol, if_true] at hreads ⊢
    obtain ⟨hr, hs⟩ := hreads _ rfl
    exact ⟨_, rfl, hr, hs, rfl, rfl, hcontrol.symm, by rw [target, if_pos hcontrol]; rfl, hprepared,
      fun _ => by rw [target, if_pos hcontrol]; exact Validator.read_init, fun _ => rfl, rfl, rfl, rfl⟩
  | false =>
    have htarget : target m f = m.getD (.empty f.opcode) := if_neg (by rw [hcontrol]; decide)
    have hsize := hsize hcontrol
    rw [htarget, List.length_append] at hsize
    simp only [hcontrol, Bool.false_eq_true, if_false] at hreads ⊢
    cases m with
    | none =>
      rw [Option.getD_none, Message.empty, List.length_nil, Nat.zero_add,
        Nat.mod_eq_of_lt hf.size] at hsize
      simp only [if_neg hsize] at hreads ⊢
      obtain ⟨hr, hs⟩ := hreads _ rfl
      exact ⟨_, rfl, hr, hs, rfl, rfl, hcontrol.symm, by rw [htarget]; rfl, hprepared,
        fun _ => by rw [htarget]; exact Validator.read_init, fun hc => (by rw [hcontrol] at hc; cases hc),
        rfl, rfl, rfl⟩
    | some msg =>
      simp only [Option.getD_some] at hsize
      simp only [if_neg hsize] at hreads ⊢
      obtain ⟨hr, hs⟩ := hreads _ rfl
      exact ⟨_, rfl, hr, hs, rfl, rfl, hcontrol.symm, by rw [htarget]; rfl, hprepared,
        fun ht => (by rw [htarget] at ht ⊢; exact h.valid msg rfl ht),
        fun hc => (by rw [hcontrol] at hc; cases hc), rfl, rfl, rfl⟩

/-! ### The payload -/

theorem Processor.setCurrentMsg_currentMsg (p : Processor) : p.setCurrentMsg p.currentMsg = p := by
  unfold setCurrentMsg currentMsg
  split <;> rfl

theorem Processor.processPayloadBytes_nil (h : p.currentMsg.msgPtr = some msg) :
    p.processPayloadBytes [] = .ok p := by
  have hunmask : p.unmasked [] = ([], p.currentMsg.preparedKey) := by
    unfold unmasked
    split <;> rfl
  have hvalid : p.validated msg [] = (p.currentMsg.validator, true) := by
    unfold validated
    split <;> rfl
  have hmsg : ∀ c : Metadata, c.msgPtr = some msg →
      (⟨some { msg with payload := msg.payload ++ [] }, c.preparedKey, c.validator⟩ : Metadata) = c := by
    rintro ⟨_, k, v⟩ rfl
    rw [List.append_nil]
  rw [processPayloadBytes_eq h, payloadPart, hunmask]
  dsimp only
  rw [hvalid, hmsg _ h, setCurrentMsg_currentMsg]
  rfl

namespace AtPayload

theorem length_body (f : Frame) (mask : Bool) : (f.body mask).length = f.payload.length := by
  cases mask with
  | false => rfl
  | true => exact length_byteMask _ _ _

theorem unmasked_body (h : AtPayload p q m f) (hf : f.Wf) :
    (q.unmasked (f.body p.server)).1 = f.payload := by
  have hmasked : q.basicHeader.getMasked = p.server := by
    rw [h.header, Frame.header, BasicHeader.getMasked_make]
  unfold Processor.unmasked Frame.body
  rw [hmasked]
  cases hs : p.server with
  | false => rfl
  | true =>
    rw [if_pos rfl, if_pos rfl, h.key hs, byteMaskCirc_eq q.host hf.key, byteMask_byteMask]

theorem store_body (h : AtPayload p q m f) (hf : f.Wf) :
    q.store (f.body p.server) =
      if (q.validated (target m f) f.payload).2 then .ok (q.payloadPart (target m f) (f.body p.server))
      else .error .invalidUtf8 := by
  have hstore : q.store (f.body p.server) = q.processPayloadBytes (f.body p.server) := by
    by_cases hb : f.body p.server = []
    · rw [hb, Processor.processPayloadBytes_nil h.message]
      simp [Processor.store, h.state]
    · exact Processor.store_payload h.state hb
  rw [hstore, Processor.processPayloadBytes_eq h.message, h.unmasked_body hf]

/-- The text so far. -/
theorem validated (h : AtPayload p q m f) :
    ((q.validated (target m f) f.payload).2 = true ↔
        ¬ ((target m f).opcode = .text ∧ runStates 0 ((target m f).payload ++ f.payload) = 1)) ∧
      ((q.validated (target m f) f.payload).2 = true → (target m f).opcode = .text →
        (q.validated (target m f) f.payload).1.Read ((target m f).payload ++ f.payload)) := by
  unfold Processor.validated
  by_cases ht : (target m f).opcode = .text
  · obtain ⟨hok, hread⟩ := (h.valid ht).decode f.payload
    rw [beginsText_iff] at hok
    rw [if_pos ht]
    exact ⟨hok.trans ⟨fun hne hc => hne hc.2, fun hne hc => hne ⟨ht, hc⟩⟩, fun hd _ => hread hd⟩
  · rw [if_neg ht]
    exact ⟨⟨fun _ hc => ht hc.1, fun _ => rfl⟩, fun _ hc => absurd hc ht⟩

/-- The processor behind the payload. -/
theorem after (h : AtPayload p q m f) (hf : f.Wf) :
    let r := q.payloadPart (target m f) (f.body p.server)
    r.state = .application ∧ r.basicHeader = f.header p.server ∧
      r.currentControl = f.opcode.isControl ∧
      r.currentMsg.msgPtr =
        some { target m f with payload := (target m f).payload ++ f.payload } ∧
      r.currentMsg.validator = (q.validated (target m f) f.payload).1 ∧
      (f.opcode.isControl = true → r.dataMsg = p.dataMsg) ∧ r.host = p.host ∧ r.server = p.server ∧
      r.maxMessageSize = p.maxMessageSize := by
  obtain ⟨hstate, hhost, hheader, -, hcurrent⟩ := q.payloadPart_frame (target m f) (f.body p.server)
  rw [h.unmasked_body hf] at hcurrent
  dsimp only
  rw [hstate, hheader, hcurrent, hhost]
  refine ⟨h.state, h.header, ?_, rfl, rfl, ?_, h.host, ?_, ?_⟩
  · rw [← h.control]
    unfold Processor.payloadPart Processor.setCurrentMsg
    split <;> rfl
  · intro hc
    rw [← h.kept hc]
    unfold Processor.payloadPart Processor.setCurrentMsg
    dsimp only
    rw [if_pos (by rw [h.control, hc])]
  · rw [← h.server]
    unfold Processor.payloadPart Processor.setCurrentMsg
    split <;> rfl
  · rw [← h.size]
    unfold Processor.payloadPart Processor.setCurrentMsg
    split <;> rfl

end AtPayload

/-! ### Whole frames -/

theorem getMessage_between (hs : p.state = .ready) (hmsg : p.currentMsg.msgPtr = some msg)
    (hcontrol : p.currentControl = msg.opcode.isControl)
    (hdata : ∀ n, p.dataMsg.msgPtr = some n → n.opcode = .text → p.dataMsg.validator.Read n.payload)
    (hkind : msg.opcode.isControl = true →
      ∀ n, p.dataMsg.msgPtr = some n → n.opcode.isControl = false) :
    p.getMessage.1 = some msg ∧
      Between p.getMessage.2 (if msg.opcode.isControl then p.dataMsg.msgPtr else none) := by
  have hready : p.ready = true := decide_eq_true hs
  unfold Processor.getMessage
  rw [if_pos hready, hmsg]
  refine ⟨rfl, ?_⟩
  cases hc : msg.opcode.isControl with
  | true =>
    rw [hc] at hcontrol
    simp only [Option.map_some, Option.getD_some, hc, if_true, Processor.setCurrentMsg, hcontrol]
    exact ⟨rfl, rfl, rfl, rfl, hdata, hkind hc⟩
  | false =>
    rw [hc] at hcontrol
    simp only [Option.map_some, Option.getD_some, hc, if_false, Processor.setCurrentMsg, hcontrol,
      Bool.false_eq_true]
    exact ⟨rfl, rfl, rfl, rfl, fun n hn => (by cases hn), fun n hn => (by cases hn)⟩

theorem target_control (h : Between p m) (f : Frame) :
    (target m f).opcode.isControl = f.opcode.isControl := by
  unfold target
  cases hc : f.opcode.isControl with
  | true => rw [if_pos rfl]; exact hc
  | false =>
    cases m with
    | none => exact hc
    | some msg => exact h.kind msg rfl

theorem getMessage_settings (p : Processor) :
    p.getMessage.2.server = p.server ∧ p.getMessage.2.maxMessageSize = p.maxMessageSize := by
  obtain ⟨-, -, -, -, -, hserver, hsize⟩ :=
    p.setCurrentMsg_frame { p.currentMsg with msgPtr := none }
  unfold Processor.getMessage
  split
  · dsimp only
    split <;> exact ⟨hserver, hsize⟩
  · exact ⟨rfl, rfl⟩

/-- The settings of a processor do not change. -/
structure SameSettings (p q : Processor) : Prop where
  server : q.server = p.server
  size : q.maxMessageSize = p.maxMessageSize

theorem refused_control (hr : refused m f = none) (hc : f.opcode.isControl = true) : f.fin = true := by
  unfold refused at hr
  by_contra hfin
  split_ifs at hr
  simp_all

theorem refused_text (hr : refused m f = none) (ht : f.opcode = .text) : m = none := by
  unfold refused at hr
  have hc : f.opcode.isControl = false := by rw [ht]; decide
  by_contra hm
  split_ifs at hr
  simp_all

/-- The last step of a frame. -/
theorem AtPayload.finish (h : AtPayload p q m f) (hf : f.Wf) (hr : refused m f = none)
    (hp : Between p m) (hvalid : (q.validated (target m f) f.payload).2 = true) :
    let r := q.payloadPart (target m f) (f.body p.server)
    (f.fin = false → ∃ t, r.advance = .ok t ∧ Between t (some (received m f)) ∧ t.state ≠ .ready ∧
        SameSettings p t) ∧
      (f.fin = true → f.opcode = .text ∧ runStates 0 (received m f).payload ≠ 0 →
        r.advance = .error .invalidUtf8) ∧
      (f.fin = true → ¬ (f.opcode = .text ∧ runStates 0 (received m f).payload ≠ 0) →
        ∃ t, r.advance = .ok t ∧ t.getMessage.1 = some (received m f) ∧
          Between t.getMessage.2 (if f.opcode.isControl then m else none) ∧
          SameSettings p t.getMessage.2) := by
  obtain ⟨hstate, hheader, hcontrol, hmsg, hvalidator, hkept, hhost, hserver, hsize⟩ := h.after hf
  have hread := h.validated.2 hvalid
  generalize q.payloadPart (target m f) (f.body p.server) = r at *
  have hfin : r.basicHeader.getFin = f.fin := by rw [hheader]; exact BasicHeader.getFin_make
  have hop : r.basicHeader.getOpcode = f.opcode := by rw [hheader]; exact BasicHeader.getOpcode_make
  have hkind := target_control hp f
  have hadvance : r.advance = r.payloadRead := by simp only [Processor.advance, hstate]
  have hcurrent : f.opcode.isControl = false → r.dataMsg = r.currentMsg := fun hc => by
    rw [Processor.currentMsg, hcontrol, hc]
    rfl
  have hdata : ∀ n, r.dataMsg.msgPtr = some n → n.opcode = .text →
      r.dataMsg.validator.Read n.payload := by
    intro n hn ht
    cases hc : f.opcode.isControl with
    | true =>
      rw [hkept hc] at hn ⊢
      exact hp.valid n (hp.data.symm.trans hn) ht
    | false =>
      rw [hcurrent hc] at hn ⊢
      rw [hmsg] at hn
      cases hn
      rw [hvalidator]
      exact hread ht
  dsimp only
  rw [hadvance, Processor.payloadRead, hfin]
  refine ⟨?_, ?_, ?_⟩
  · intro hf0
    have hc : f.opcode.isControl = false := by
      by_contra hc
      rw [refused_control hr (Bool.eq_true_of_not_eq_false hc)] at hf0
      cases hf0
    rw [hf0]
    refine ⟨_, rfl, ⟨rfl, rfl, rfl, ?_, ?_, ?_⟩, (fun h0 => by cases h0), hserver, hsize⟩
    · exact (congrArg Metadata.msgPtr (hcurrent hc)).trans hmsg
    · rintro _ ⟨⟩ ht
      exact hdata _ ((congrArg Metadata.msgPtr (hcurrent hc)).trans hmsg) ht
    · rintro _ ⟨⟩
      exact hkind.trans hc
  · intro hf1 ht
    have htarget : (target m f).opcode = .text := by
      rw [target, if_neg (by rw [ht.1]; decide), refused_text hr ht.1]
      exact ht.1
    have hcomplete : ¬ r.currentMsg.validator.complete = true := fun hcomplete => by
      rw [hvalidator] at hcomplete
      exact ht.2 ((hread htarget).1.symm.trans (of_decide_eq_true hcomplete))
    rw [hf1, if_pos rfl, Processor.finalizeMessage, if_pos ⟨hop.trans ht.1, hcomplete⟩]
  · intro hf1 ht
    have hok : ¬ (r.basicHeader.getOpcode = .text ∧ ¬ r.currentMsg.validator.complete = true) := by
      rintro ⟨htext, hcomplete⟩
      rw [hop] at htext
      have htarget : (target m f).opcode = .text := by
        rw [target, if_neg (by rw [htext]; decide), refused_text hr htext]
        exact htext
      apply ht
      refine ⟨htext, fun h0 => hcomplete ?_⟩
      rw [hvalidator]
      exact decide_eq_true ((hread htarget).1.trans h0)
    rw [hf1, if_pos rfl, Processor.finalizeMessage, if_neg hok]
    have hmsg' : r.currentMsg.msgPtr = some (received m f) := hmsg
    obtain ⟨hserver', hsize'⟩ := getMessage_settings { r with state := .ready }
    obtain ⟨hout, hbetween⟩ := getMessage_between (p := { r with state := .ready })
      rfl hmsg' (hcontrol.trans hkind.symm) hdata (by
        intro hc n hn
        rw [show (received m f).opcode.isControl = _ from hkind] at hc
        exact hp.kind n (hp.data.symm.trans (by rw [← hkept hc]; exact hn)))
    refine ⟨_, rfl, hout, ?_, hserver'.trans hserver, hsize'.trans hsize⟩
    rw [show (received m f).opcode.isControl = _ from hkind] at hbetween
    cases hc : f.opcode.isControl with
    | true =>
      have hm : ({ r with state := .ready } : Processor).dataMsg.msgPtr = m :=
        (congrArg Metadata.msgPtr (hkept hc)).trans hp.data
      rw [hc, if_pos rfl, hm] at hbetween
      exact hbetween
    | false =>
      rw [hc] at hbetween
      exact hbetween

open Processor in
/-- A whole frame: the processor does with its bytes what `accept` does with the frame. -/
theorem go_frame (h : Between p m) (hf : f.Wf) (rest : Bytes) :
    (∀ e, accept p.maxMessageSize m f = .error e →
        reader.go 3 p (f.bytes p.server ++ rest) = ([], .error e)) ∧
      ∀ out m', accept p.maxMessageSize m f = .ok (out, m') →
        ∃ q, Between q m' ∧ SameSettings p q ∧
          reader.go 3 p (f.bytes p.server ++ rest) =
            Outcome.andThen (out.toList, .ok q) fun t => reader.go 3 t rest := by
  have hbytes : f.bytes p.server ++ rest = [(f.header p.server).b0, (f.header p.server).b1] ++
      (f.extended p.server ++ (f.body p.server ++ rest)) := by
    simp only [Frame.bytes, List.append_assoc]
  have hlen : [(f.header p.server).b0, (f.header p.server).b1].length = p.bytesNeeded := h.needed.symm
  have hstore := h.store_header (f.header p.server).b0 (f.header p.server).b1
  rw [hbytes]
  unfold accept
  cases hr : refused m f with
  | some e =>
    refine ⟨?_, fun out m' heq => by cases heq⟩
    rintro _ ⟨⟩
    exact go_part_error h.reads hlen hstore (h.header_refused hr)
  | none =>
    rw [go_part h.reads hlen hstore (h.header_accepted hf hr),
      getMessage_none (h.beforeExtended hf).not_ready]
    change (∀ e, _ → reader.go 3 (p.beforeExtended f) _ = _) ∧
      ∀ out m', _ → ∃ q, _ ∧ _ ∧ reader.go 3 (p.beforeExtended f) _ = _
    have hextended : (f.extended p.server).length = (p.beforeExtended f).bytesNeeded := rfl
    dsimp only
    by_cases hbig : f.opcode.isControl = false ∧
        p.maxMessageSize < (received m f).payload.length % 2 ^ 64
    · rw [if_pos hbig]
      refine ⟨?_, fun out m' heq => by cases heq⟩
      rintro _ ⟨⟩
      exact go_part_error (h.beforeExtended hf) hextended h.store_extended
        (h.message_refused hf hbig.1 hbig.2)
    · rw [if_neg hbig]
      obtain ⟨q, hq, hpayload⟩ := h.header_read hf fun hc hsize => hbig ⟨hc, hsize⟩
      rw [go_part (h.beforeExtended hf) hextended h.store_extended hq,
        getMessage_none hpayload.reads.not_ready]
      change (∀ e, _ → reader.go 3 q _ = _) ∧ ∀ out m', _ → ∃ q', _ ∧ _ ∧ reader.go 3 q _ = _
      have hbody : (f.body p.server).length = q.bytesNeeded :=
        (AtPayload.length_body f p.server).trans hpayload.needed.symm
      have hstore := hpayload.store_body hf
      by_cases htext : (received m f).opcode = .text ∧ runStates 0 (received m f).payload = 1
      · rw [if_pos htext]
        refine ⟨?_, fun out m' heq => by cases heq⟩
        rintro _ ⟨⟩
        rw [if_neg fun hv => hpayload.validated.1.mp hv htext] at hstore
        exact go_store_error hpayload.reads hbody.le hstore
      · have hvalid := hpayload.validated.1.mpr htext
        obtain ⟨hopen, hincomplete, hwhole⟩ := hpayload.finish hf hr h hvalid
        rw [if_pos hvalid] at hstore
        rw [if_neg htext]
        by_cases hfin : f.fin = false
        · rw [if_pos hfin]
          refine ⟨fun e heq => (by cases heq), ?_⟩
          rintro _ _ ⟨⟩
          obtain ⟨t, ht, hbetween, hready, hsame⟩ := hopen hfin
          refine ⟨t, hbetween, hsame, ?_⟩
          rw [go_part hpayload.reads hbody hstore ht, getMessage_none hready]
        · rw [if_neg hfin]
          have hfin := Bool.eq_true_of_not_eq_false hfin
          by_cases hend : f.opcode = .text ∧ runStates 0 (received m f).payload ≠ 0
          · rw [if_pos hend]
            refine ⟨?_, fun out m' heq => by cases heq⟩
            rintro _ ⟨⟩
            exact go_part_error hpayload.reads hbody hstore (hincomplete hfin hend)
          · rw [if_neg hend]
            refine ⟨fun e heq => (by cases heq), ?_⟩
            rintro _ _ ⟨⟩
            obtain ⟨t, ht, hout, hbetween, hsame⟩ := hwhole hfin hend
            refine ⟨t.getMessage.2, hbetween, hsame, ?_⟩
            rw [go_part hpayload.reads hbody hstore ht, hout]

/-- Frames one after the other on the wire. -/
def wire (mask : Bool) (fs : List Frame) : Bytes := fs.flatMap fun f => f.bytes mask

theorem SameSettings.trans {r : Processor} (h : SameSettings p q) (h' : SameSettings q r) :
    SameSettings p r := ⟨h'.server.trans h.server, h'.size.trans h.size⟩

open Processor in
theorem go_frames (h : Between p m) (fs : List Frame) (hfs : ∀ f ∈ fs, f.Wf) (rest : Bytes) :
    (∀ e, (acceptAll p.maxMessageSize m fs).2 = .error e →
        reader.go 3 p (wire p.server fs ++ rest) = ((acceptAll p.maxMessageSize m fs).1, .error e)) ∧
      ∀ m', (acceptAll p.maxMessageSize m fs).2 = .ok m' →
        ∃ q, Between q m' ∧ SameSettings p q ∧
          reader.go 3 p (wire p.server fs ++ rest) =
            Outcome.andThen ((acceptAll p.maxMessageSize m fs).1, .ok q) fun t =>
              reader.go 3 t rest := by
  induction fs generalizing p m with
  | nil =>
    refine ⟨fun e heq => (by cases heq), ?_⟩
    rintro _ ⟨⟩
    exact ⟨p, h, ⟨rfl, rfl⟩, rfl⟩
  | cons f fs ih =>
    obtain ⟨herror, hok⟩ := go_frame h (hfs f (List.mem_cons_self ..)) (wire p.server fs ++ rest)
    rw [wire, List.flatMap_cons, List.append_assoc, ← wire]
    simp only [acceptAll]
    cases ha : accept p.maxMessageSize m f with
    | error e =>
      refine ⟨?_, fun m' heq => by cases heq⟩
      rintro _ ⟨⟩
      exact herror e ha
    | ok r =>
      obtain ⟨out, m₁⟩ := r
      obtain ⟨q, hq, hsame, hgo⟩ := hok out m₁ ha
      obtain ⟨herror', hok'⟩ := ih hq fun g hg => hfs g (List.mem_cons_of_mem _ hg)
      rw [hsame.server, hsame.size] at herror' hok'
      dsimp only [ok_andThen]
      rw [hgo]
      refine ⟨fun e he => ?_, fun m' hm' => ?_⟩
      · rw [ok_andThen, herror' e he]
      · obtain ⟨t, ht, hsame', hgo'⟩ := hok' m' hm'
        refine ⟨t, ht, hsame.trans hsame', ?_⟩
        rw [ok_andThen, hgo']
        simp

theorem between_start (o : ByteOrder) (server : Bool) (n : Nat) :
    Between (Processor.start o server n) none :=
  ⟨rfl, rfl, rfl, rfl, fun _ hm => (by cases hm), fun _ hm => by cases hm⟩

theorem feed_frames (o : ByteOrder) (server : Bool) (n : Nat) (fs : List Frame) (hfs : ∀ f ∈ fs, f.Wf) :
    let r := Processor.reader.feed 3 (Processor.start o server n) (wire server fs)
    r.1 = (acceptAll n none fs).1 ∧ ∀ e, r.2 = .error e ↔ (acceptAll n none fs).2 = .error e := by
  have hwaits := Processor.waits_start o server n
  obtain ⟨herror, hok⟩ := go_frames (between_start o server n) fs hfs []
  rw [List.append_nil, Processor.go_waits hwaits.missing] at herror hok
  rw [show (Processor.start o server n).maxMessageSize = n from rfl,
    show (Processor.start o server n).server = server from rfl] at herror hok
  dsimp only
  cases ha : (acceptAll n none fs).2 with
  | error e =>
    rw [herror e ha]
    exact ⟨rfl, fun e' => ⟨fun h => (by cases h; rfl), fun h => by cases h; rfl⟩⟩
  | ok m' =>
    obtain ⟨q, hq, -, hfeed⟩ := hok m' ha
    have hneed : q.bytesNeeded ≠ 0 := by rw [hq.needed]; decide
    rw [hfeed, ok_andThen, Processor.go_waits hneed]
    exact ⟨List.append_nil _, fun e' => ⟨fun h => (by cases h), fun h => by cases h⟩⟩

/-- A connection whose peer sends frames: the messages that are dispatched and the error that closes
it are those of the frames, whatever the masking keys are and however the bytes are cut. -/
theorem handleReads_frames (o : ByteOrder) (server : Bool) (n : Nat) (fs : List Frame)
    (hfs : ∀ f ∈ fs, f.Wf) (bufs : List Bytes) (hcut : bufs.flatten = wire server fs) :
    let r := (Processor.start o server n).handleReads bufs
    r.1 = (acceptAll n none fs).1 ∧ ∀ e, r.2 = .error e ↔ (acceptAll n none fs).2 = .error e := by
  rw [Processor.handleReads_eq (Processor.waits_start ..), hcut]
  exact feed_frames o server n fs hfs

/-- A text in two frames around a ping. -/
theorem handleReads_frames_ping :
    let fs := [Frame.mk .text false [1, 2, 3, 4] [0x68], ⟨.ping, true, [5, 6, 7, 8], []⟩,
      ⟨.continuation, true, [0, 0, 0, 0], [0x69]⟩]
    let bufs := [(wire true fs).take 3, (wire true fs).drop 3]
    (acceptAll 100 none fs).1 = [⟨.ping, [], true, []⟩, ⟨.text, [0x68, 0x69], true, []⟩] ∧
      ((Processor.start .little true 100).handleReads bufs).1 = (acceptAll 100 none fs).1 := by
  refine ⟨by decide +kernel, (handleReads_frames .little true 100 _ ?_ _ ?_).1⟩
  · intro f hf
    simp only [List.mem_cons, List.not_mem_nil, or_false] at hf
    obtain rfl | rfl | rfl := hf <;> exact ⟨rfl, by decide⟩
  · decide +kernel

end NetworkUtility.Websocketpp
