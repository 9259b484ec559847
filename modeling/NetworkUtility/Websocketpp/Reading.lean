import NetworkUtility.Websocketpp.Hybi13

/-! The loops of `consume` and `handle_read_frame` are a reader of counted blocks, so that nothing
depends on how the bytes of a connection are cut into reads. -/
namespace NetworkUtility.Websocketpp

open Blocks

variable {p q : Processor} {m : Metadata} {msg : Message} {a b buf rest : Bytes} {o : ByteOrder}
  {key : Bytes}

theorem Validator.decode_append (v : Validator) (a b : Bytes) :
    v.decode (a ++ b) = if (v.decode a).2 then (v.decode a).1.decode b else v.decode a := by
  induction a generalizing v with
  | nil => rfl
  | cons x a ih =>
    rw [List.cons_append, decode, decode]
    split
    · rfl
    · exact ih _

theorem byteMaskCirc_append (hkey : key.length = 4) (a b : Bytes) :
    byteMaskCirc o (a ++ b) (prepared o key) =
      let r := byteMaskCirc o a (prepared o key)
      let s := byteMaskCirc o b r.2
      (r.1 ++ s.1, s.2) := by
  dsimp only
  have hrot : (key.rotate (a.length % 4)).length = 4 := by rw [List.length_rotate, hkey]
  have hsum : key.rotate (a.length % 4 + b.length % 4) = key.rotate ((a.length + b.length) % 4) := by
    have hmod : ∀ n, key.rotate (n % 4) = key.rotate n := fun n => by rw [← hkey, List.rotate_mod]
    rw [← hmod (_ + _), ← Nat.add_mod]
  rw [byteMaskCirc_eq o hkey, byteMaskCirc_eq o hkey, byteMaskCirc_eq o hrot,
    byteMask_append (by decide), byteMask_rotate hkey (by decide), List.rotate_rotate, hsum,
    List.length_append, Nat.zero_add, Nat.zero_add, Nat.mod_mod]

namespace Processor

@[simp] theorem currentMsg_setCurrentMsg (p : Processor) (m : Metadata) :
    (p.setCurrentMsg m).currentMsg = m := by
  unfold setCurrentMsg currentMsg
  split <;> simp_all

theorem setCurrentMsg_setCurrentMsg (p : Processor) (m n : Metadata) (j k : Nat) :
    { setCurrentMsg { p.setCurrentMsg m with bytesNeeded := j } n with bytesNeeded := k } =
      { p.setCurrentMsg n with bytesNeeded := k } := by
  unfold setCurrentMsg
  split <;> rfl

/-- The fields that say where in the stream a processor is. -/
theorem setCurrentMsg_frame (p : Processor) (m : Metadata) :
    (p.setCurrentMsg m).state = p.state ∧ (p.setCurrentMsg m).host = p.host ∧
      (p.setCurrentMsg m).basicHeader = p.basicHeader ∧
      (p.setCurrentMsg m).bytesNeeded = p.bytesNeeded ∧
      (p.setCurrentMsg m).extendedHeader = p.extendedHeader ∧
      (p.setCurrentMsg m).server = p.server ∧
      (p.setCurrentMsg m).maxMessageSize = p.maxMessageSize := by
  unfold setCurrentMsg
  split <;> exact ⟨rfl, rfl, rfl, rfl, rfl, rfl, rfl⟩

/-- A part of a payload without the mask, and the key for the next part. -/
def unmasked (p : Processor) (buf : Bytes) : Bytes × Nat :=
  if p.basicHeader.getMasked then byteMaskCirc p.host buf p.currentMsg.preparedKey
  else (buf, p.currentMsg.preparedKey)

/-- The validator after a part of a payload. -/
def validated (p : Processor) (msg : Message) (part : Bytes) : Validator × Bool :=
  if msg.opcode = .text then p.currentMsg.validator.decode part else (p.currentMsg.validator, true)

def store (p : Processor) (a : Bytes) : Except ErrorCode Processor :=
  match p.state with
  | .headerBasic => .ok (p.copyBasicHeaderBytes a).1
  | .headerExtended => .ok (p.copyExtendedHeaderBytes a).1
  | .application => if a = [] then .ok p else p.processPayloadBytes a
  | _ => .ok p

/-- What the loop goes on to when nothing is missing. -/
def advance (p : Processor) : Except ErrorCode Processor :=
  match p.state with
  | .headerBasic => p.basicHeaderRead
  | .headerExtended => p.extendedHeaderRead
  | .application => p.payloadRead
  | _ => .error .general

def turn (p : Processor) : Except ErrorCode (Option Message × Processor) := p.advance.map getMessage

def reader : Reader UInt8 Processor Message ErrorCode := ⟨bytesNeeded, store, turn⟩

def rank (p : Processor) : Nat :=
  match p.state with
  | .headerBasic => 2
  | .headerExtended => 1
  | _ => 0

/-- What holds between two bytes, and between two parts of a frame. -/
structure Reads (p : Processor) : Prop where
  extended : p.extendedHeader.length = maxExtendedHeaderLength
  states : p.state = .headerBasic ∨ p.state = .headerExtended ∨ p.state = .application
  basic : p.state = .headerBasic → p.bytesNeeded ≤ basicHeaderLength
  cursor : p.state = .headerExtended → p.cursor + p.bytesNeeded ≤ maxExtendedHeaderLength
  message : p.state = .application → ∃ msg, p.currentMsg.msgPtr = some msg
  key : p.state = .application → p.basicHeader.getMasked = true →
    ∃ key : Bytes, key.length = 4 ∧ p.currentMsg.preparedKey = Websocketpp.prepared p.host key

theorem store_payload (hs : p.state = .application) (ha : a ≠ []) :
    p.store a = p.processPayloadBytes a := by
  simp only [store, hs, if_neg ha]

theorem Reads.of_basic (hs : p.state = .headerBasic)
    (hext : p.extendedHeader.length = maxExtendedHeaderLength)
    (hneed : p.bytesNeeded ≤ basicHeaderLength) : p.Reads where
  extended := hext
  states := .inl hs
  basic _ := hneed
  cursor h := by rw [hs] at h; cases h
  message h := by rw [hs] at h; cases h
  key h := by rw [hs] at h; cases h

theorem Reads.of_extended (hs : p.state = .headerExtended)
    (hext : p.extendedHeader.length = maxExtendedHeaderLength)
    (hcursor : p.cursor + p.bytesNeeded ≤ maxExtendedHeaderLength) : p.Reads where
  extended := hext
  states := .inr (.inl hs)
  basic h := by rw [hs] at h; cases h
  cursor _ := hcursor
  message h := by rw [hs] at h; cases h
  key h := by rw [hs] at h; cases h

theorem Reads.of_application (hs : p.state = .application)
    (hext : p.extendedHeader.length = maxExtendedHeaderLength)
    (hmsg : ∃ msg, p.currentMsg.msgPtr = some msg)
    (hkey : p.basicHeader.getMasked = true → ∃ key : Bytes, key.length = 4 ∧
      p.currentMsg.preparedKey = Websocketpp.prepared p.host key) : p.Reads where
  extended := hext
  states := .inr (.inr hs)
  basic h := by rw [hs] at h; cases h
  cursor h := by rw [hs] at h; cases h
  message _ := hmsg
  key _ := hkey

theorem reads_resetHeaders (p : Processor) : p.resetHeaders.Reads :=
  .of_basic rfl rfl le_rfl

/-! ### The basic header -/

theorem copyBasicHeaderBytes_ok (hneed : p.bytesNeeded ≤ 2) (hlen : a.length ≤ p.bytesNeeded) :
    (p.copyBasicHeaderBytes a).1.state = p.state ∧
      (p.copyBasicHeaderBytes a).1.extendedHeader = p.extendedHeader ∧
      (p.copyBasicHeaderBytes a).1.bytesNeeded = p.bytesNeeded - a.length := by
  unfold copyBasicHeaderBytes
  split
  · next h0 => exact ⟨rfl, rfl, by dsimp only; omega⟩
  · split
    · exact ⟨rfl, rfl, rfl⟩
    · split <;> exact ⟨rfl, rfl, rfl⟩
    · rw [List.length_cons, List.length_cons] at hlen
      rw [if_pos (by omega), List.length_cons, List.length_cons]
      exact ⟨rfl, rfl, by dsimp only; omega⟩

theorem copyBasicHeaderBytes_append (hneed : p.bytesNeeded ≤ 2)
    (hlen : a.length + b.length ≤ p.bytesNeeded) :
    (p.copyBasicHeaderBytes (a ++ b)).1 =
      ((p.copyBasicHeaderBytes a).1.copyBasicHeaderBytes b).1 := by
  have copy_nil : ∀ q : Processor, (q.copyBasicHeaderBytes []).1 = q := fun q => by
    unfold copyBasicHeaderBytes
    split <;> rfl
  obtain _ | ⟨c, _ | ⟨c', a⟩⟩ := a
  · rw [copy_nil, List.nil_append]
  · obtain _ | ⟨d, _ | ⟨d', b⟩⟩ := b
    · rw [copy_nil, List.append_nil]
    · have h2 : p.bytesNeeded = 2 := by
        simp only [List.length_cons, List.length_nil] at hlen
        omega
      simp [copyBasicHeaderBytes, h2]
    · simp only [List.length_cons] at hlen
      omega
  · obtain _ | ⟨d, b⟩ := b
    · rw [copy_nil, List.append_nil]
    · simp only [List.length_cons] at hlen
      omega

/-! ### The extended header -/

theorem copyInto_append (e : Bytes) (k : Nat) (hk : k ≤ e.length) (a b : Bytes) :
    copyInto e k (a ++ b) = copyInto (copyInto e k a) (k + a.length) b := by
  have htake : (e.take k).length = k := by rw [List.length_take]; omega
  have hfront : (e.take k ++ a).length = k + a.length := by rw [List.length_append, htake]
  have hdrop : ∀ n, (e.take k ++ a ++ e.drop (k + a.length)).drop (k + a.length + n) =
      e.drop (k + a.length + n) := fun n => by
    rw [List.drop_append, hfront, List.drop_of_length_le (by omega), List.nil_append, List.drop_drop]
    congr 1
    omega
  unfold copyInto
  rw [List.take_left' hfront, hdrop, List.length_append, ← Nat.add_assoc]
  simp only [List.append_assoc]

theorem length_copyInto (e : Bytes) (k : Nat) (a : Bytes) (hk : k + a.length ≤ e.length) :
    (copyInto e k a).length = e.length := by
  unfold copyInto
  simp only [List.length_append, List.length_take, List.length_drop]
  omega

theorem copyExtendedHeaderBytes_eq (hlen : a.length ≤ p.bytesNeeded) :
    (p.copyExtendedHeaderBytes a).1 =
      { p with
        extendedHeader := copyInto p.extendedHeader p.cursor a
        cursor := p.cursor + a.length
        bytesNeeded := p.bytesNeeded - a.length } := by
  unfold copyExtendedHeaderBytes
  dsimp only
  rw [Nat.min_eq_right hlen, List.take_length]

/-! ### The payload -/

/-- The processor after a part of a payload. -/
def payloadPart (p : Processor) (msg : Message) (a : Bytes) : Processor :=
  let r := p.unmasked a
  { p.setCurrentMsg ⟨some { msg with payload := msg.payload ++ r.1 }, r.2, (p.validated msg r.1).1⟩ with
    bytesNeeded := p.bytesNeeded - a.length }

theorem processPayloadBytes_eq (h : p.currentMsg.msgPtr = some msg) (a : Bytes) :
    p.processPayloadBytes a =
      if (p.validated msg (p.unmasked a).1).2 then .ok (p.payloadPart msg a)
      else .error .invalidUtf8 := by
  unfold processPayloadBytes
  dsimp only
  rw [h]
  rfl

theorem payloadPart_frame (p : Processor) (msg : Message) (a : Bytes) :
    (p.payloadPart msg a).state = p.state ∧ (p.payloadPart msg a).host = p.host ∧
      (p.payloadPart msg a).basicHeader = p.basicHeader ∧
      (p.payloadPart msg a).extendedHeader = p.extendedHeader ∧
      (p.payloadPart msg a).currentMsg =
        ⟨some { msg with payload := msg.payload ++ (p.unmasked a).1 }, (p.unmasked a).2,
          (p.validated msg (p.unmasked a).1).1⟩ := by
  obtain ⟨hstate, hhost, hheader, -, hextended, -⟩ := p.setCurrentMsg_frame
    ⟨some { msg with payload := msg.payload ++ (p.unmasked a).1 }, (p.unmasked a).2,
      (p.validated msg (p.unmasked a).1).1⟩
  exact ⟨hstate, hhost, hheader, hextended, p.currentMsg_setCurrentMsg _⟩

theorem payloadPart_payloadPart (p : Processor) (msg : Message) (a b : Bytes) :
    (p.payloadPart msg a).payloadPart { msg with payload := msg.payload ++ (p.unmasked a).1 } b =
      let r := (p.payloadPart msg a).unmasked b
      let v := (p.payloadPart msg a).validated
        { msg with payload := msg.payload ++ (p.unmasked a).1 } r.1
      { p.setCurrentMsg ⟨some { msg with payload := msg.payload ++ ((p.unmasked a).1 ++ r.1) }, r.2, v.1⟩ with
        bytesNeeded := p.bytesNeeded - (a.length + b.length) } := by
  conv_lhs => unfold payloadPart
  dsimp only
  rw [setCurrentMsg_setCurrentMsg, Nat.sub_sub, List.append_assoc]
  rfl

theorem Reads.unmasked_append (h : p.Reads) (hs : p.state = .application) (msg : Message) (a b : Bytes) :
    p.unmasked (a ++ b) =
      ((p.unmasked a).1 ++ ((p.payloadPart msg a).unmasked b).1,
        ((p.payloadPart msg a).unmasked b).2) := by
  obtain ⟨-, hhost, hheader, -, hcurrent⟩ := p.payloadPart_frame msg a
  unfold unmasked at hcurrent ⊢
  rw [hcurrent, hhost, hheader]
  by_cases hm : p.basicHeader.getMasked
  · obtain ⟨key, hkey, heq⟩ := h.key hs hm
    simp only [if_pos hm, heq]
    exact byteMaskCirc_append hkey a b
  · simp only [if_neg hm]

theorem Reads.payloadPart (h : p.Reads) (hs : p.state = .application) (msg : Message) (a : Bytes) :
    (p.payloadPart msg a).Reads := by
  obtain ⟨hstate, hhost, hheader, hextended, hcurrent⟩ := p.payloadPart_frame msg a
  refine .of_application (hstate.trans hs) (hextended ▸ h.extended) ⟨_, by rw [hcurrent]⟩ ?_
  rw [hheader, hcurrent, hhost]
  intro hm
  obtain ⟨key, hkey, heq⟩ := h.key hs hm
  refine ⟨key.rotate (a.length % 4), by rw [List.length_rotate, hkey], ?_⟩
  unfold unmasked
  rw [if_pos hm, heq, byteMaskCirc_eq p.host hkey]

theorem validated_append (p : Processor) (msg : Message) (a part : Bytes) :
    p.validated msg ((p.unmasked a).1 ++ part) =
      if (p.validated msg (p.unmasked a).1).2 then
        (p.payloadPart msg a).validated
          { msg with payload := msg.payload ++ (p.unmasked a).1 } part
      else p.validated msg (p.unmasked a).1 := by
  obtain ⟨-, -, -, -, hcurrent⟩ := p.payloadPart_frame msg a
  unfold validated at hcurrent ⊢
  rw [hcurrent]
  by_cases ht : msg.opcode = .text
  · simp only [if_pos ht]
    exact p.currentMsg.validator.decode_append _ _
  · simp only [if_neg ht, if_true]

theorem Reads.payloadPart_append (h : p.Reads) (hs : p.state = .application) (msg : Message)
    (a b : Bytes) (hok : (p.validated msg (p.unmasked a).1).2 = true) :
    p.payloadPart msg (a ++ b) =
      (p.payloadPart msg a).payloadPart { msg with payload := msg.payload ++ (p.unmasked a).1 } b := by
  rw [payloadPart_payloadPart]
  conv_lhs => rw [Processor.payloadPart, h.unmasked_append hs msg, validated_append, if_pos hok,
    List.length_append]

theorem Reads.processPayloadBytes_append (h : p.Reads) (hs : p.state = .application) (a b : Bytes) :
    p.processPayloadBytes (a ++ b) =
      (p.processPayloadBytes a).bind fun q => q.processPayloadBytes b := by
  obtain ⟨msg, hmsg⟩ := h.message hs
  obtain ⟨-, -, -, -, hcurrent⟩ := p.payloadPart_frame msg a
  have hunmask := h.unmasked_append hs msg a b
  rw [processPayloadBytes_eq hmsg, processPayloadBytes_eq hmsg, hunmask, validated_append]
  by_cases hok : (p.validated msg (p.unmasked a).1).2
  · rw [if_pos hok, if_pos hok]
    change _ = (p.payloadPart msg a).processPayloadBytes b
    rw [processPayloadBytes_eq (by rw [hcurrent]), h.payloadPart_append hs msg a b hok]
  · rw [if_neg hok, if_neg hok, if_neg hok]
    rfl

theorem processPayloadBytes_ok (h : p.Reads) (hs : p.state = .application)
    (hq : p.processPayloadBytes a = .ok q) :
    q.Reads ∧ q.state = .application ∧ q.bytesNeeded = p.bytesNeeded - a.length := by
  obtain ⟨msg, hmsg⟩ := h.message hs
  rw [processPayloadBytes_eq hmsg] at hq
  split at hq
  · cases hq
    exact ⟨h.payloadPart hs msg a, (p.payloadPart_frame msg a).1.trans hs, rfl⟩
  · cases hq

/-! ### The turns -/

theorem bind_ok {ε σ τ : Type} {x : Except ε σ} {f : σ → Except ε τ} {y : τ}
    (h : x.bind f = .ok y) : ∃ s, x = .ok s ∧ f s = .ok y := by
  cases x with
  | error e => cases h
  | ok s => exact ⟨s, rfl, h⟩

theorem map_ok {ε σ τ : Type} {x : Except ε σ} {f : σ → τ} {y : τ} (h : x.map f = .ok y) :
    ∃ s, x = .ok s ∧ f s = y := by
  cases x with
  | error e => cases h
  | ok s =>
    cases h
    exact ⟨s, rfl, rfl⟩

theorem basicHeaderRead_ok (h : p.Reads) (hq : p.basicHeaderRead = .ok q) :
    q.Reads ∧ q.state = .headerExtended := by
  unfold basicHeaderRead at hq
  split at hq
  · cases hq
  · cases hq
    refine ⟨.of_extended rfl h.extended ?_, rfl⟩
    dsimp only
    unfold BasicHeader.getHeaderLen BasicHeader.getMaskingKeyOffset
    simp only [basicHeaderLength, maxExtendedHeaderLength]
    split_ifs <;> omega

/-- The key of a frame is ready for its first byte. -/
theorem prepareMaskingKey_getMaskingKey (h : p.Reads) (hm : p.basicHeader.getMasked = true) :
    ∃ key : Bytes, key.length = 4 ∧
      prepareMaskingKey (getMaskingKey p.host p.basicHeader p.extendedHeader) =
        Websocketpp.prepared p.host key := by
  have hlen : ((p.extendedHeader.drop p.basicHeader.getMaskingKeyOffset).take 4).length = 4 := by
    have hoffset : p.basicHeader.getMaskingKeyOffset ≤ 8 := by
      unfold BasicHeader.getMaskingKeyOffset
      split_ifs <;> omega
    rw [List.length_take, List.length_drop, h.extended]
    simp only [maxExtendedHeaderLength]
    omega
  refine ⟨_, hlen, ?_⟩
  rw [getMaskingKey, if_pos hm, prepareMaskingKey_eq p.host hlen]

theorem extendedHeaderRead_ok (h : p.Reads) (hq : p.extendedHeaderRead = .ok q) :
    q.Reads ∧ q.state = .application := by
  unfold extendedHeaderRead at hq
  have hkey := p.prepareMaskingKey_getMaskingKey h
  split at hq
  · cases hq
  · dsimp only at hq
    by_cases hcontrol : p.basicHeader.getOpcode.isControl = true
    · rw [if_pos hcontrol] at hq
      cases hq
      exact ⟨.of_application rfl h.extended ⟨_, rfl⟩ hkey, rfl⟩
    · rw [if_neg hcontrol] at hq
      split at hq
      · split_ifs at hq
        cases hq
        exact ⟨.of_application rfl h.extended ⟨_, rfl⟩ hkey, rfl⟩
      · next out hout =>
        split_ifs at hq
        cases hq
        exact ⟨.of_application rfl h.extended ⟨out, hout⟩ hkey, rfl⟩

theorem getMessage_ready (h : p.state = .ready) :
    p.getMessage.2.Reads ∧ p.getMessage.2.bytesNeeded = basicHeaderLength := by
  have hready : p.ready = true := decide_eq_true h
  unfold getMessage
  rw [if_pos hready]
  exact ⟨reads_resetHeaders _, rfl⟩

theorem getMessage_none (h : p.state ≠ .ready) : p.getMessage = (none, p) :=
  if_neg fun hready => h (of_decide_eq_true hready)

theorem Reads.not_ready (h : p.Reads) : p.state ≠ .ready := by
  obtain hs | hs | hs := h.states <;> rw [hs] <;> decide

theorem Reads.not_fatal (h : p.Reads) : p.state ≠ .fatalError := by
  obtain hs | hs | hs := h.states <;> rw [hs] <;> decide

theorem payloadRead_ok (hq : p.payloadRead = .ok q) : q = { p with state := .ready } ∨ q = p.resetHeaders := by
  unfold payloadRead finalizeMessage at hq
  split_ifs at hq <;> cases hq
  · exact .inl rfl
  · exact .inr rfl

/-- The next part of a frame, the next frame, or a message. -/
theorem advance_ok (h : p.Reads) (hq : p.advance = .ok q) :
    q.state = .ready ∨
      q.Reads ∧ (p.state = .headerBasic ∧ q.state = .headerExtended ∨
        p.state = .headerExtended ∧ q.state = .application ∨
        p.state = .application ∧ q.state = .headerBasic ∧ q.bytesNeeded = basicHeaderLength) := by
  obtain hs | hs | hs := h.states
  · simp only [advance, hs] at hq
    obtain ⟨hr, hstate⟩ := basicHeaderRead_ok h hq
    exact .inr ⟨hr, .inl ⟨hs, hstate⟩⟩
  · simp only [advance, hs] at hq
    obtain ⟨hr, hstate⟩ := extendedHeaderRead_ok h hq
    exact .inr ⟨hr, .inr (.inl ⟨hs, hstate⟩)⟩
  · simp only [advance, hs] at hq
    obtain rfl | rfl := payloadRead_ok hq
    · exact .inl rfl
    · exact .inr ⟨p.reads_resetHeaders, .inr (.inr ⟨hs, rfl, rfl⟩)⟩

theorem store_state (h : p.Reads) (hlen : a.length ≤ p.bytesNeeded) (hq : p.store a = .ok q) :
    q.state = p.state := by
  obtain hs | hs | hs := h.states
  · simp only [store, hs] at hq
    cases hq
    exact (copyBasicHeaderBytes_ok (h.basic hs) hlen).1
  · simp only [store, hs] at hq
    cases hq
    rfl
  · by_cases ha : a = []
    · simp only [store, hs, if_pos ha] at hq
      cases hq
      rfl
    · rw [store_payload hs ha] at hq
      rw [hs]
      exact (processPayloadBytes_ok h hs hq).2.1

theorem reader_lawful : reader.Lawful Reads rank 3 where
  rank_lt p := by
    unfold rank
    split <;> omega
  store_nil p := by
    change p.store [] = .ok p
    unfold store
    split
    · unfold copyBasicHeaderBytes
      split <;> rfl
    · unfold copyExtendedHeaderBytes
      simp [copyInto]
    · rfl
    · rfl
  store_append p a b h hlen := by
    change p.store (a ++ b) = (p.store a).bind fun q => q.store b
    change _ ≤ p.bytesNeeded at hlen
    obtain hs | hs | hs := h.states
    · have hneed := h.basic hs
      have hsa := (p.copyBasicHeaderBytes_ok (a := a) hneed (by omega)).1
      simp only [store, hs, Except.bind, hsa]
      rw [p.copyBasicHeaderBytes_append hneed hlen]
    · have hcursor := h.cursor hs
      have hea := p.copyExtendedHeaderBytes_eq (a := a) (by omega)
      simp only [store, hs, Except.bind, hea]
      rw [copyExtendedHeaderBytes_eq (by rw [List.length_append]; omega),
        copyExtendedHeaderBytes_eq (by dsimp only; omega)]
      dsimp only
      rw [copyInto_append _ _ (by rw [h.extended]; omega), List.length_append, Nat.sub_sub,
        Nat.add_assoc, hs]
    · by_cases ha : a = []
      · simp [store, hs, ha, Except.bind]
      · by_cases hb : b = []
        · simp only [hb, List.append_nil]
          cases hp : p.store a with
          | error e => rfl
          | ok q =>
            rw [store_payload hs ha] at hp
            simp [store, (processPayloadBytes_ok h hs hp).2.1, Except.bind]
        · rw [store_payload hs (by simp [ha]), store_payload hs ha,
            h.processPayloadBytes_append hs]
          cases hp : p.processPayloadBytes a with
          | error e => rfl
          | ok q => exact (store_payload (processPayloadBytes_ok h hs hp).2.1 hb).symm
  store_ok p a q h hlen hq := by
    change p.store a = .ok q at hq
    change _ ≤ p.bytesNeeded at hlen
    change q.Reads ∧ q.bytesNeeded = p.bytesNeeded - a.length
    obtain hs | hs | hs := h.states
    · simp only [store, hs] at hq
      cases hq
      obtain ⟨hstate, hext, hneed⟩ := p.copyBasicHeaderBytes_ok (h.basic hs) hlen
      have := h.basic hs
      exact ⟨.of_basic (hstate.trans hs) (hext ▸ h.extended) (by omega), hneed⟩
    · have hcursor := h.cursor hs
      simp only [store, hs, p.copyExtendedHeaderBytes_eq hlen] at hq
      cases hq
      refine ⟨.of_extended rfl ?_ ?_, rfl⟩
      · rw [← h.extended]
        exact length_copyInto _ _ _ (by rw [h.extended]; omega)
      · dsimp only
        omega
    · by_cases ha : a = []
      · simp only [store, hs, if_pos ha] at hq
        cases hq
        exact ⟨h, by simp [ha]⟩
      · rw [store_payload hs ha] at hq
        obtain ⟨hr, -, hneed⟩ := processPayloadBytes_ok h hs hq
        exact ⟨hr, hneed⟩
  turn_ok p out q h hneed hq := by
    obtain ⟨q', hq', heq⟩ := map_ok hq
    obtain hready | ⟨hr, hstep⟩ := advance_ok h hq'
    · obtain ⟨hr, hneeded⟩ := getMessage_ready hready
      rw [heq] at hr hneeded
      exact ⟨hr, fun h0 => by rw [show q.bytesNeeded = 0 from h0] at hneeded; cases hneeded⟩
    · rw [getMessage_none hr.not_ready] at heq
      cases heq
      refine ⟨hr, fun h0 => ?_⟩
      obtain ⟨hp, hq⟩ | ⟨hp, hq⟩ | ⟨-, -, h2⟩ := hstep
      · simp only [rank, hp, hq]
        decide
      · simp only [rank, hp, hq]
        decide
      · rw [show q.bytesNeeded = 0 from h0] at h2
        cases h2

/-! ### The loops -/

theorem copyBasicHeaderBytes_take (hneed : p.bytesNeeded ≤ 2) (buf : Bytes) :
    (p.copyBasicHeaderBytes buf).1 = (p.copyBasicHeaderBytes (buf.take p.bytesNeeded)).1 ∧
      buf.drop (p.copyBasicHeaderBytes buf).2 = buf.drop p.bytesNeeded := by
  have hcases : p.bytesNeeded = 0 ∨ p.bytesNeeded = 1 ∨ p.bytesNeeded = 2 := by omega
  obtain h | h | h := hcases
  · simp [copyBasicHeaderBytes, h]
  · obtain _ | ⟨c, _ | ⟨d, buf⟩⟩ := buf <;> simp [copyBasicHeaderBytes, h]
  · obtain _ | ⟨c, _ | ⟨d, buf⟩⟩ := buf <;> simp [copyBasicHeaderBytes, h]

theorem take_min_length (buf : Bytes) (n : Nat) :
    buf.take (min n buf.length) = buf.take n ∧ buf.drop (min n buf.length) = buf.drop n := by
  by_cases h : n ≤ buf.length
  · rw [Nat.min_eq_left h]
    exact ⟨rfl, rfl⟩
  · rw [Nat.min_eq_right (by omega), List.take_length, List.drop_length,
      List.take_of_length_le (by omega), List.drop_of_length_le (by omega)]
    exact ⟨rfl, rfl⟩

/-- A round stores what it can of what is missing, and goes on if nothing is. -/
theorem round_eq (h : p.Reads) (buf : Bytes) :
    p.round buf = (p.store (buf.take p.bytesNeeded)).bind fun q =>
      if 0 < q.bytesNeeded then .ok (q, buf.drop p.bytesNeeded)
      else q.advance.map fun q => (q, buf.drop p.bytesNeeded) := by
  have hlen : (buf.take p.bytesNeeded).length ≤ p.bytesNeeded := List.length_take_le _ _
  obtain hs | hs | hs := h.states
  · obtain ⟨htake, hdrop⟩ := copyBasicHeaderBytes_take (h.basic hs) buf
    have hstate := (copyBasicHeaderBytes_ok (h.basic hs) hlen).1.trans hs
    simp only [round, store, hs, htake, hdrop, Except.bind, advance, hstate]
  · have htake : (p.copyExtendedHeaderBytes buf).1 =
        (p.copyExtendedHeaderBytes (buf.take p.bytesNeeded)).1 := by
      rw [p.copyExtendedHeaderBytes_eq hlen]
      unfold copyExtendedHeaderBytes
      dsimp only
      rw [(take_min_length buf p.bytesNeeded).1, List.length_take]
    have hdrop : buf.drop (p.copyExtendedHeaderBytes buf).2 = buf.drop p.bytesNeeded :=
      (take_min_length buf p.bytesNeeded).2
    have hstate : (p.copyExtendedHeaderBytes (buf.take p.bytesNeeded)).1.state = .headerExtended := hs
    simp only [round, store, hs, htake, hdrop, Except.bind, advance, hstate]
  · obtain ⟨htake, hdrop⟩ := take_min_length buf p.bytesNeeded
    have hstore : (if 0 < min p.bytesNeeded buf.length then
        p.processPayloadBytes (buf.take p.bytesNeeded) else .ok p) =
        p.store (buf.take p.bytesNeeded) := by
      simp only [store, hs]
      by_cases h0 : 0 < min p.bytesNeeded buf.length
      · have hne : buf.take p.bytesNeeded ≠ [] := by
          apply List.ne_nil_of_length_pos
          rw [List.length_take]
          exact h0
        rw [if_pos h0, if_neg hne]
      · have hnil : buf.take p.bytesNeeded = [] := by
          apply List.eq_nil_of_length_eq_zero
          rw [List.length_take]
          omega
        rw [if_neg h0, if_pos hnil]
    simp only [round, hs, htake, hdrop, hstore]
    cases hq : p.store (buf.take p.bytesNeeded) with
    | error e => rfl
    | ok q =>
      have hstate := (store_state h hlen hq).trans hs
      simp only [Except.bind, advance, hstate]

variable {e : ErrorCode} {fuel : Nat}

theorem turned_error (h : p.advance = .error e) : reader.turned p = ([], .error e) := by
  have hturn : reader.turn p = .error e := by
    change p.turn = _
    rw [turn, h]
    rfl
  unfold Reader.turned
  rw [hturn]

theorem turned_ok (h : p.advance = .ok q) :
    reader.turned p = (q.getMessage.1.toList, .ok q.getMessage.2) := by
  have hturn : reader.turn p = .ok q.getMessage := by
    change p.turn = _
    rw [turn, h]
    rfl
  unfold Reader.turned
  rw [hturn]

theorem go_store (h : p.Reads) (buf : Bytes) :
    reader.go 3 p buf = (reader.stored p (buf.take p.bytesNeeded)).andThen fun q =>
      reader.go 3 q (buf.drop p.bytesNeeded) := by
  have hblock := reader_lawful.go_block (a := buf.take p.bytesNeeded) (b := buf.drop p.bytesNeeded)
    h (List.length_take_le _ _)
  rwa [List.take_append_drop] at hblock

theorem store_reads (h : p.Reads) (hlen : a.length ≤ p.bytesNeeded) (hq : p.store a = .ok q) :
    q.Reads ∧ q.bytesNeeded = p.bytesNeeded - a.length :=
  reader_lawful.store_ok p a q h hlen hq

theorem go_of_round_error (h : p.Reads) (hr : p.round buf = .error e) :
    reader.go 3 p buf = ([], .error e) := by
  rw [round_eq h] at hr
  rw [go_store h, Reader.stored, show reader.store p = p.store from rfl]
  cases hq : p.store (buf.take p.bytesNeeded) with
  | error e' =>
    rw [hq] at hr
    cases hr
    rfl
  | ok q =>
    rw [hq] at hr
    dsimp only [Except.bind] at hr
    split_ifs at hr with h0
    obtain ⟨hreads, -⟩ := store_reads h (List.length_take_le _ _) hq
    cases ha : q.advance with
    | ok q' =>
      rw [ha] at hr
      cases hr
    | error e' =>
      rw [ha] at hr
      cases hr
      have hturn := reader_lawful.go_turn (b := buf.drop p.bytesNeeded) hreads
        (Nat.eq_zero_of_not_pos h0)
      rw [turned_error ha] at hturn
      simp [hturn]

/-- One round is a step of the reader: what it puts out, and where it leaves. -/
theorem go_of_round (h : p.Reads) (hr : p.round buf = .ok (q, rest)) :
    rest = buf.drop p.bytesNeeded ∧
      reader.go 3 p buf = Outcome.andThen (q.getMessage.1.toList, .ok q.getMessage.2) fun t =>
        reader.go 3 t rest := by
  rw [round_eq h] at hr
  rw [go_store h, Reader.stored, show reader.store p = p.store from rfl]
  cases hq : p.store (buf.take p.bytesNeeded) with
  | error e =>
    rw [hq] at hr
    cases hr
  | ok q₁ =>
    rw [hq] at hr
    dsimp only [Except.bind] at hr
    obtain ⟨hreads, -⟩ := store_reads h (List.length_take_le _ _) hq
    split_ifs at hr with h0
    · cases hr
      rw [getMessage_none hreads.not_ready]
      exact ⟨rfl, rfl⟩
    · obtain ⟨q₂, ha, heq⟩ := map_ok hr
      cases heq
      have hturn := reader_lawful.go_turn (b := buf.drop p.bytesNeeded) hreads
        (Nat.eq_zero_of_not_pos h0)
      rw [turned_ok ha] at hturn
      simp [hturn]

/-- The bytes that are left, and how far the frame is. -/
def measure (p : Processor) (buf : Bytes) : Nat :=
  4 * buf.length + if p.state = .headerExtended then 2 else if p.state = .application then 1 else 0

theorem round_next (h : p.Reads) (hentry : p.state = .headerBasic → p.bytesNeeded ≠ 0)
    (hloop : buf ≠ [] ∨ p.bytesNeeded = 0) (hr : p.round buf = .ok (q, rest)) :
    q.state = .ready ∨ q.Reads ∧ (q.state = .headerBasic → q.bytesNeeded ≠ 0) ∧
      q.measure rest < p.measure buf := by
  have hlen : (buf.take p.bytesNeeded).length ≤ p.bytesNeeded := List.length_take_le _ _
  have hmin : (buf.take p.bytesNeeded).length = min p.bytesNeeded buf.length := List.length_take
  rw [round_eq h] at hr
  obtain ⟨q₁, hq₁, hr⟩ := bind_ok hr
  obtain ⟨hreads, hneed⟩ := store_reads h hlen hq₁
  have hstate := store_state h hlen hq₁
  have hpos : buf ≠ [] → 0 < buf.length := List.length_pos_of_ne_nil
  split_ifs at hr with h0
  · cases hr
    refine .inr ⟨hreads, fun _ => by omega, ?_⟩
    unfold measure
    rw [hstate, List.length_drop]
    obtain hne | hzero := hloop
    · have := hpos hne
      omega
    · omega
  · obtain ⟨q₂, ha, heq⟩ := map_ok hr
    cases heq
    have hread : p.bytesNeeded ≤ buf.length := by omega
    obtain hready | ⟨hr₂, hstep⟩ := advance_ok hreads ha
    · exact .inl hready
    · rw [hstate] at hstep
      refine .inr ⟨hr₂, ?_, ?_⟩
      · intro hbasic
        obtain ⟨-, hq⟩ | ⟨-, hq⟩ | ⟨-, -, h2⟩ := hstep
        · rw [hbasic] at hq
          cases hq
        · rw [hbasic] at hq
          cases hq
        · rw [h2]
          decide
      · unfold measure
        rw [List.length_drop]
        obtain ⟨hp, hq⟩ | ⟨hp, hq⟩ | ⟨hp, hq, -⟩ := hstep
        · have := hentry hp
          rw [hp, hq, if_pos rfl, if_neg (by decide), if_neg (by decide)]
          omega
        · rw [hp, hq, if_pos rfl, if_neg (by decide), if_pos rfl]
          omega
        · rw [hp, hq, if_neg (by decide), if_neg (by decide), if_neg (by decide), if_pos rfl]
          omega

theorem consumeLoop_ready (h : q.state = .ready) (fuel : Nat) (rest : Bytes) :
    consumeLoop fuel q rest = .ok (q, rest) := by
  cases fuel with
  | zero => rfl
  | succ fuel => exact if_neg fun hc => hc.1 h

theorem consumeLoop_error (h : p.Reads) (hentry : p.state = .headerBasic → p.bytesNeeded ≠ 0)
    (hfuel : p.measure buf < fuel) (hr : consumeLoop fuel p buf = .error e) :
    reader.go 3 p buf = ([], .error e) := by
  induction fuel generalizing p buf with
  | zero => exact absurd hfuel (Nat.not_lt_zero _)
  | succ fuel ih =>
    rw [consumeLoop] at hr
    split_ifs at hr with hcond
    rcases hround : p.round buf with e' | ⟨q, rest⟩
    · rw [hround] at hr
      cases hr
      exact go_of_round_error h hround
    · rw [hround] at hr
      change consumeLoop fuel q rest = .error e at hr
      obtain ⟨-, hgo⟩ := go_of_round h hround
      obtain hready | ⟨hq, hentry, hmeasure⟩ := round_next h hentry hcond.2.2 hround
      · rw [consumeLoop_ready hready] at hr
        cases hr
      · rw [hgo, getMessage_none hq.not_ready, ok_andThen, ih hq hentry (by omega) hr]
        rfl

/-- `consume` goes on to the next message or to the end of the buffer. -/
theorem consumeLoop_ok (h : p.Reads) (hentry : p.state = .headerBasic → p.bytesNeeded ≠ 0)
    (hfuel : p.measure buf < fuel) (hr : consumeLoop fuel p buf = .ok (q, rest)) :
    (reader.go 3 p buf = Outcome.andThen (q.getMessage.1.toList, .ok q.getMessage.2) fun t =>
        reader.go 3 t rest) ∧
      (q.state = .ready ∨ q.Reads ∧ q.bytesNeeded ≠ 0 ∧ rest = []) ∧
      rest.length ≤ buf.length - p.bytesNeeded := by
  induction fuel generalizing p buf with
  | zero => exact absurd hfuel (Nat.not_lt_zero _)
  | succ fuel ih =>
    rw [consumeLoop] at hr
    split_ifs at hr with hcond
    · rcases hround : p.round buf with e' | ⟨q₁, rest₁⟩
      · rw [hround] at hr
        cases hr
      · rw [hround] at hr
        change consumeLoop fuel q₁ rest₁ = .ok (q, rest) at hr
        obtain ⟨hdrop, hgo⟩ := go_of_round h hround
        have hlen : rest₁.length = buf.length - p.bytesNeeded := by rw [hdrop, List.length_drop]
        obtain hready | ⟨hq, hentry, hmeasure⟩ := round_next h hentry hcond.2.2 hround
        · rw [consumeLoop_ready hready] at hr
          cases hr
          exact ⟨hgo, .inl hready, hlen.le⟩
        · obtain ⟨hgo', hend, hle⟩ := ih hq hentry (by omega) hr
          rw [getMessage_none hq.not_ready] at hgo
          refine ⟨?_, hend, by omega⟩
          rw [hgo, ok_andThen, hgo']
          rfl
    · have hstop : buf = [] ∧ p.bytesNeeded ≠ 0 := by
        by_contra hne
        apply hcond
        refine ⟨h.not_ready, h.not_fatal, ?_⟩
        by_cases hb : buf = []
        · exact .inr (by_contra fun h0 => hne ⟨hb, h0⟩)
        · exact .inl hb
      cases hr
      rw [getMessage_none h.not_ready, hstop.1]
      exact ⟨rfl, .inr ⟨h, hstop.2, rfl⟩, Nat.zero_le _⟩

theorem measure_lt (p : Processor) (buf : Bytes) : p.measure buf < 4 * buf.length + 3 := by
  unfold measure
  split_ifs <;> omega

/-- Between two reads. -/
structure Waits (p : Processor) : Prop extends p.Reads where
  missing : p.bytesNeeded ≠ 0

theorem go_waits (h : p.bytesNeeded ≠ 0) (buf : Bytes) : reader.go 3 p buf = reader.feed 3 p buf :=
  Reader.Lawful.go_pos h

theorem consume_error (h : p.Waits) (hc : p.consume buf = .error e) :
    reader.feed 3 p buf = ([], .error e) := by
  rw [← go_waits h.missing buf]
  exact consumeLoop_error h.toReads (fun _ => h.missing) (measure_lt p buf) hc

/-- A round of the loop over the buffer of a read. -/
theorem consume_ok (h : p.Waits) (hb : buf ≠ []) (hc : p.consume buf = .ok (q, rest)) :
    (reader.feed 3 p buf = Outcome.andThen (q.getMessage.1.toList, .ok q.getMessage.2) fun t =>
        reader.feed 3 t rest) ∧
      q.getMessage.2.Waits ∧ rest.length < buf.length ∧
      (q.ready = true ∨ q.ready ≠ true ∧ q.getMessage = (none, q)) := by
  have hpos := List.length_pos_of_ne_nil hb
  have hmiss := h.missing
  obtain ⟨hstep, hend, hlen⟩ := consumeLoop_ok h.toReads (fun _ => hmiss) (measure_lt p buf) hc
  rw [← go_waits h.missing buf, hstep, ok_andThen, ok_andThen]
  obtain hready | ⟨hq, hneed, hnil⟩ := hend
  · obtain ⟨hreads, h2⟩ := getMessage_ready hready
    have hwaits : q.getMessage.2.Waits := ⟨hreads, by rw [h2]; decide⟩
    rw [go_waits hwaits.missing]
    exact ⟨rfl, hwaits, by omega, .inl (decide_eq_true hready)⟩
  · have hr : q.ready ≠ true := fun hr => hq.not_ready (of_decide_eq_true hr)
    have hmessage := getMessage_none hq.not_ready
    rw [hmessage, go_waits hneed]
    exact ⟨rfl, ⟨hq, hneed⟩, by omega, .inr ⟨hr, rfl⟩⟩

theorem readLoop_eq (h : p.Waits) (hfuel : buf.length ≤ fuel) :
    readLoop fuel p buf = reader.feed 3 p buf := by
  induction fuel generalizing p buf with
  | zero =>
    rw [List.eq_nil_of_length_eq_zero (Nat.le_zero.mp hfuel)]
    rfl
  | succ fuel ih =>
    rw [readLoop]
    split_ifs with hb
    · rw [hb]
      rfl
    · rcases hc : p.consume buf with e | ⟨q, rest⟩
      · exact (consume_error h hc).symm
      · obtain ⟨hstep, hwaits, hlen, hend⟩ := consume_ok h hb hc
        dsimp only
        rw [hstep]
        obtain hr | ⟨hr, hmessage⟩ := hend
        · rw [if_pos hr, ok_andThen, ok_andThen, ih hwaits (by omega)]
        · rw [hmessage] at hwaits ⊢
          rw [if_neg hr, ih hwaits (by omega)]
          rfl

theorem handleReadFrame_eq (h : p.Waits) (buf : Bytes) :
    p.handleReadFrame buf = reader.feed 3 p buf := readLoop_eq h le_rfl

theorem waits_start (o : ByteOrder) (server : Bool) (n : Nat) : (start o server n).Waits :=
  ⟨reads_resetHeaders _, fun h0 => by cases h0⟩

theorem waits_feed (h : p.Waits) (hq : (reader.feed 3 p buf).2 = .ok q) : q.Waits := by
  obtain ⟨hr, hneed⟩ := reader_lawful.feed_need h.toReads h.missing hq
  exact ⟨hr, hneed⟩

theorem handleReads_chunks (h : p.Waits) (bufs : List Bytes) :
    p.handleReads bufs = reader.feedChunks 3 p bufs := by
  induction bufs generalizing p with
  | nil => rfl
  | cons buf bufs ih =>
    rw [handleReads, Reader.feedChunks, handleReadFrame_eq h]
    exact andThen_congr fun q hq => ih (waits_feed h hq)

/-- The reads of a connection one after the other are one read of all its bytes. -/
theorem handleReads_eq (h : p.Waits) (bufs : List Bytes) :
    p.handleReads bufs = reader.feed 3 p bufs.flatten :=
  (handleReads_chunks h bufs).trans (Reader.feedChunks_eq p bufs)

/-- What is dispatched, and whether and with which error the connection is closed, does not depend on
how the bytes of the peer are cut into reads. -/
theorem handleReads_flatten (o : ByteOrder) (server : Bool) (n : Nat) (bufs bufs' : List Bytes)
    (h : bufs.flatten = bufs'.flatten) :
    (start o server n).handleReads bufs = (start o server n).handleReads bufs' := by
  rw [handleReads_eq (waits_start o server n), handleReads_eq (waits_start o server n), h]

theorem handleReads_flatten_cut :
    (start .little true 100).handleReads [[0x81, 0x82], [1, 2, 3, 4, 0x69, 0x6B]] =
      (start .little true 100).handleReads [[0x81], [0x82, 1], [2, 3, 4, 0x69], [], [0x6B]] :=
  handleReads_flatten .little true 100 _ _ rfl

end Processor

end NetworkUtility.Websocketpp
