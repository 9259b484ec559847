import NetworkUtility.Websocketpp.Frames

/-! What a peer can have sent when a connection is still open: frames that are accepted, and the
beginning of another. -/
namespace NetworkUtility.Websocketpp

open Blocks

variable {p q : Processor} {m : Option Message} {f : Frame} {a bs rest : Bytes} {out : List Message}

namespace Processor

/-- The bytes end inside of a part of a frame. -/
theorem go_short (h : p.Reads) (ha : a.length < p.bytesNeeded) : (reader.go 3 p a).1 = [] := by
  have hblock := reader_lawful.go_block (b := []) h ha.le
  rw [List.append_nil] at hblock
  rw [hblock, Reader.stored]
  cases hq : reader.store p a with
  | error e => rfl
  | ok q =>
    obtain ⟨-, hneed⟩ := store_reads h ha.le hq
    rw [ok_andThen, go_waits (by omega)]
    rfl

/-- A part of a frame that is accepted. -/
theorem go_part_ok (h : p.Reads) (ha : a.length = p.bytesNeeded) (hq : p.store a = .ok q)
    {t : Processor} (hok : (reader.go 3 p (a ++ rest)).2 = .ok t) : ∃ q', q.advance = .ok q' := by
  cases hadvance : q.advance with
  | error e =>
    rw [go_part_error h ha hq hadvance] at hok
    cases hok
  | ok q' => exact ⟨q', rfl⟩

end Processor

/-- The frame that a header and a body belong to. -/
def Frame.ofParts (h : BasicHeader) (server : Bool) (key body : Bytes) : Frame where
  opcode := h.getOpcode
  fin := h.getFin
  key := if server then key else [0, 0, 0, 0]
  payload := if server then byteMask key 0 body else body

theorem Frame.bytes_ofParts {h : BasicHeader} {server : Bool} {ext body key : Bytes}
    (h1 : h.getRsv1 = false) (h2 : h.getRsv2 = false) (h3 : h.getRsv3 = false)
    (hmask : h.getMasked = server)
    (hsize : BasicHeader.sizeCode body.length = h.getBasicSize)
    (hext : ext = sizeBytes body.length ++ keyBytes server key) :
    (Frame.ofParts h server key body).bytes server = [h.b0, h.b1] ++ (ext ++ body) := by
  have hlen : (Frame.ofParts h server key body).payload.length = body.length := by
    unfold ofParts
    cases server with
    | false => rfl
    | true => exact length_byteMask _ _ _
  have hheader : (Frame.ofParts h server key body).header server = h := by
    rw [header, hlen, BasicHeader.eq_make h h1 h2 h3 hsize, hmask]
    simp [ofParts]
  have hextended : (Frame.ofParts h server key body).extended server = ext := by
    rw [extended, hlen, hext]
    cases server <;> rfl
  have hbody : (Frame.ofParts h server key body).body server = body := by
    cases server with
    | false => rfl
    | true => exact byteMask_byteMask _ _ _
  rw [bytes, hheader, hextended, hbody]

theorem header_validated {h : BasicHeader} {server new : Bool}
    (hv : Processor.validateIncomingBasicHeader h server new = none) :
    h.getRsv1 = false ∧ h.getRsv2 = false ∧ h.getRsv3 = false ∧ h.getMasked = server := by
  unfold Processor.validateIncomingBasicHeader at hv
  dsimp only at hv
  split_ifs at hv
  cases server <;> simp_all

theorem size_validated {o : ByteOrder} {h : BasicHeader} {e : ExtendedHeader}
    (hlen : e.length = maxExtendedHeaderLength)
    (hv : Processor.validateIncomingExtendedHeader o h e = none) :
    BasicHeader.sizeCode (getPayloadSize o h e) = h.getBasicSize ∧
      e.take (sizeBytes (getPayloadSize o h e)).length = sizeBytes (getPayloadSize o h e) ∧
      getPayloadSize o h e < 2 ^ 64 := by
  unfold Processor.validateIncomingExtendedHeader at hv
  dsimp only at hv
  split_ifs at hv with h16 h64
  exact size_of_header hlen (fun h => by_contra fun hc => h16 ⟨h, by omega⟩)
    fun h => by_contra fun hc => h64 ⟨h, by omega⟩

namespace Processor

theorem basicHeaderRead_eq (hq : p.basicHeaderRead = .ok q) :
    validateIncomingBasicHeader p.basicHeader p.server (p.dataMsg.msgPtr = none) = none ∧
      q = { p with
        state := .headerExtended
        cursor := 0
        bytesNeeded := p.basicHeader.getHeaderLen - basicHeaderLength } := by
  unfold basicHeaderRead at hq
  split at hq
  · cases hq
  · next hv =>
    cases hq
    exact ⟨hv, rfl⟩

theorem extendedHeaderRead_needed (hq : p.extendedHeaderRead = .ok q) :
    validateIncomingExtendedHeader p.host p.basicHeader p.extendedHeader = none ∧
      q.bytesNeeded = getPayloadSize p.host p.basicHeader p.extendedHeader := by
  unfold extendedHeaderRead at hq
  split at hq
  · cases hq
  · next hv =>
    refine ⟨hv, ?_⟩
    dsimp only at hq
    by_cases hcontrol : p.basicHeader.getOpcode.isControl = true
    · rw [if_pos hcontrol] at hq
      cases hq
      rfl
    · rw [if_neg hcontrol] at hq
      split at hq <;> split_ifs at hq <;> cases hq <;> rfl

/-- A part that is there, in front of what comes next. -/
theorem go_next (h : p.Reads) (ha : a.length = p.bytesNeeded) (hq : p.store a = .ok q)
    {t : Processor} (hok : (reader.go 3 p (a ++ rest)).2 = .ok t) :
    ∃ q', q.advance = .ok q' ∧
      (q'.state ≠ .ready → reader.go 3 p (a ++ rest) = reader.go 3 q' rest) := by
  obtain ⟨q', hq'⟩ := go_part_ok h ha hq hok
  refine ⟨q', hq', fun hready => ?_⟩
  rw [go_part h ha hq hq', getMessage_none hready]
  simp

end Processor

/-- The bytes behind the basic header, when they are all there. -/
theorem extended_layout {h : BasicHeader} {o : ByteOrder} {ext : Bytes}
    (hlen : ext.length = h.getHeaderLen - basicHeaderLength)
    (hv : Processor.validateIncomingExtendedHeader o h (copyInto ExtendedHeader.empty 0 ext) = none) :
    let size := getPayloadSize o h (copyInto ExtendedHeader.empty 0 ext)
    BasicHeader.sizeCode size = h.getBasicSize ∧ size < 2 ^ 64 ∧
      ∃ key, ext = sizeBytes size ++ keyBytes h.getMasked key ∧
        (h.getMasked = true → key.length = 4) := by
  have hext : ext.length ≤ 12 := by
    rw [hlen]
    unfold BasicHeader.getHeaderLen BasicHeader.getMaskingKeyOffset
    simp only [basicHeaderLength]
    split_ifs <;> omega
  have hempty : ExtendedHeader.empty.length = 12 := rfl
  have hcopy : copyInto ExtendedHeader.empty 0 ext = ext ++ ExtendedHeader.empty.drop ext.length := by
    rw [copyInto, List.take_zero, List.nil_append, Nat.zero_add]
  have hlength : (copyInto ExtendedHeader.empty 0 ext).length = maxExtendedHeaderLength :=
    Processor.length_copyInto _ _ _ (by omega)
  obtain ⟨hcode, htake, hlt⟩ := size_validated hlength hv
  dsimp only
  generalize getPayloadSize o h (copyInto ExtendedHeader.empty 0 ext) = size at hcode htake hlt ⊢
  have hparts : ext.length = (sizeBytes size).length + if h.getMasked then 4 else 0 :=
    hlen.trans (getHeaderLen_eq hcode)
  have hfront : ext.take (sizeBytes size).length = sizeBytes size := by
    rw [hcopy, List.take_append_of_le_length (by omega)] at htake
    exact htake
  refine ⟨hcode, hlt, ext.drop (sizeBytes size).length, ?_, ?_⟩
  · have hdrop : keyBytes h.getMasked (ext.drop (sizeBytes size).length) =
        ext.drop (sizeBytes size).length := by
      cases hm : h.getMasked with
      | true => rfl
      | false =>
        rw [hm] at hparts
        exact (List.drop_of_length_le (by simpa using hparts.le)).symm
    rw [hdrop]
    conv_lhs => rw [← List.take_append_drop (sizeBytes size).length ext, hfront]
  · intro hm
    rw [List.length_drop, hparts, hm, if_pos rfl]
    omega

/-- The processor behind a basic header. -/
def Processor.behindBasic (p : Processor) (hd : BasicHeader) : Processor :=
  { p with
    basicHeader := hd
    state := .headerExtended
    cursor := 0
    bytesNeeded := hd.getHeaderLen - basicHeaderLength }

open Processor in
/-- If a message comes out, the rest of the header and the payload are in front. -/
theorem payload_in_front {hd : BasicHeader} (h : Between p m) (hreads : (p.behindBasic hd).Reads)
    (hok : (reader.go 3 (p.behindBasic hd) bs).2 = .ok q)
    (hout : (reader.go 3 (p.behindBasic hd) bs).1 ≠ []) :
    ∃ ext body key rest, bs = ext ++ (body ++ rest) ∧
      BasicHeader.sizeCode body.length = hd.getBasicSize ∧ body.length < 2 ^ 64 ∧
      ext = sizeBytes body.length ++ keyBytes hd.getMasked key ∧
      (hd.getMasked = true → key.length = 4) := by
  have hneeded : (p.behindBasic hd).bytesNeeded = hd.getHeaderLen - basicHeaderLength := rfl
  have hext : hd.getHeaderLen - basicHeaderLength ≤ bs.length := by
    by_contra hlt
    exact hout (go_short hreads (by omega))
  obtain ⟨ext, bs, hlen, rfl⟩ : ∃ ext rest, ext.length = hd.getHeaderLen - basicHeaderLength ∧
      bs = ext ++ rest :=
    ⟨bs.take _, bs.drop _, List.length_take_of_le hext, (List.take_append_drop _ _).symm⟩
  have hcopy := copyExtendedHeaderBytes_eq (p := p.behindBasic hd) (a := ext) (by omega)
  have hstore : (p.behindBasic hd).store ext = .ok ((p.behindBasic hd).copyExtendedHeaderBytes ext).1 :=
    rfl
  rw [hcopy] at hstore
  obtain ⟨p₂, hp₂, hgo⟩ := go_next hreads (hlen.trans hneeded.symm) hstore hok
  obtain ⟨hreads', -⟩ := store_reads hreads (by omega) hstore
  obtain ⟨hv, hneeded₂⟩ := extendedHeaderRead_needed hp₂
  obtain ⟨hr₂, -⟩ := extendedHeaderRead_ok hreads' hp₂
  have harray : (p.behindBasic hd).extendedHeader = ExtendedHeader.empty := h.extended
  simp only [harray] at hv hneeded₂
  obtain ⟨hcode, hlt, key, hlayout, hkey⟩ := extended_layout hlen hv
  have hbody : p₂.bytesNeeded ≤ bs.length := by
    by_contra hlt
    rw [hgo hr₂.not_ready] at hout
    exact hout (go_short hr₂ (by omega))
  have hsize : (bs.take p₂.bytesNeeded).length = p₂.bytesNeeded := List.length_take_of_le hbody
  refine ⟨ext, bs.take p₂.bytesNeeded, key, bs.drop p₂.bytesNeeded, ?_, ?_, ?_, ?_, hkey⟩
  · rw [List.take_append_drop]
  · rw [hsize, hneeded₂]
    exact hcode
  · rw [hsize, hneeded₂]
    exact hlt
  · rw [hsize, hneeded₂]
    exact hlayout

open Processor in
/-- If a message comes out, there is a whole frame in front. -/
theorem frame_in_front (h : Between p m) (hok : (reader.go 3 p bs).2 = .ok q)
    (hout : (reader.go 3 p bs).1 ≠ []) :
    ∃ f : Frame, f.Wf ∧ ∃ rest, bs = f.bytes p.server ++ rest := by
  obtain _ | ⟨b0, _ | ⟨b1, bs⟩⟩ := bs
  · exact absurd (go_short h.reads (by rw [h.needed]; decide)) hout
  · exact absurd (go_short h.reads (by rw [h.needed]; exact Nat.lt_succ_self 1)) hout
  · have hlen : [b0, b1].length = p.bytesNeeded := h.needed.symm
    obtain ⟨p₁, hp₁, hgo⟩ := go_next h.reads hlen (h.store_header b0 b1)
      (show (reader.go 3 p ([b0, b1] ++ bs)).2 = .ok q from hok)
    obtain ⟨hreads, -⟩ := store_reads h.reads hlen.le (h.store_header b0 b1)
    have hstate : (p.headerRead ⟨b0, b1⟩).state = .headerBasic := h.state
    simp only [advance, hstate] at hp₁
    obtain ⟨hv, heq⟩ := basicHeaderRead_eq hp₁
    obtain ⟨hr₁, -⟩ := basicHeaderRead_ok hreads hp₁
    obtain ⟨h1, h2, h3, hmask⟩ := header_validated hv
    change p₁ = p.behindBasic ⟨b0, b1⟩ at heq
    rw [show b0 :: b1 :: bs = [b0, b1] ++ bs from rfl, hgo hr₁.not_ready, heq] at hok hout
    rw [heq] at hr₁
    obtain ⟨ext, body, key, rest, rfl, hsize, hlt, hext, hkey⟩ := payload_in_front h hr₁ hok hout
    change BasicHeader.getMasked ⟨b0, b1⟩ = p.server at hmask
    rw [hmask] at hext hkey
    have hbytes := Frame.bytes_ofParts (h := ⟨b0, b1⟩) h1 h2 h3 hmask hsize hext
    refine ⟨.ofParts ⟨b0, b1⟩ p.server key body, ⟨?_, ?_⟩, rest, ?_⟩
    · unfold Frame.ofParts
      cases hs : p.server with
      | true => exact hkey hs
      | false => rfl
    · unfold Frame.ofParts
      cases p.server with
      | true => exact (length_byteMask _ _ _).symm ▸ hlt
      | false => exact hlt
    · rw [hbytes]
      simp only [List.append_assoc]
      rfl

/-- No whole frame is in front. -/
def Partial (mask : Bool) (tail : Bytes) : Prop :=
  ∀ f : Frame, f.Wf → ∀ rest, tail ≠ f.bytes mask ++ rest

open Processor in
theorem go_accepted (h : Between p m) (hgo : reader.go 3 p bs = (out, .ok q)) :
    ∃ fs tail, (∀ f ∈ fs, Frame.Wf f) ∧ bs = wire p.server fs ++ tail ∧ Partial p.server tail ∧
      ∃ m', acceptAll p.maxMessageSize m fs = (out, .ok m') := by
  induction hn : bs.length using Nat.strong_induction_on generalizing bs p m out with
  | h n ih =>
    by_cases hfront : ∃ f : Frame, f.Wf ∧ ∃ rest, bs = f.bytes p.server ++ rest
    · obtain ⟨f, hf, rest, rfl⟩ := hfront
      obtain ⟨herror, hok⟩ := go_frame h hf rest
      cases ha : accept p.maxMessageSize m f with
      | error e =>
        rw [herror e ha] at hgo
        cases hgo
      | ok r =>
        obtain ⟨out₁, m₁⟩ := r
        obtain ⟨p₁, hp₁, hsame, hstep⟩ := hok out₁ m₁ ha
        rw [hstep, ok_andThen] at hgo
        have hlen : rest.length < n := by
          rw [← hn, List.length_append, Frame.bytes, List.length_append]
          simp only [List.length_cons]
          omega
        obtain ⟨hout, hlast⟩ := Prod.mk.inj hgo
        obtain ⟨fs, tail, hfs, hrest, htail, m', hm'⟩ :=
          ih rest.length hlen hp₁ (Prod.ext rfl hlast) rfl
        rw [hsame.server] at hrest htail
        rw [hsame.size] at hm'
        refine ⟨f :: fs, tail, ?_, ?_, htail, m', ?_⟩
        · intro g hg
          obtain rfl | hg := List.mem_cons.mp hg
          · exact hf
          · exact hfs g hg
        · rw [wire, List.flatMap_cons, List.append_assoc, ← wire, ← hrest]
        · simp only [acceptAll, ha, ok_andThen, hm', ← hout]
    · refine ⟨[], bs, fun f hf => absurd hf List.not_mem_nil, rfl, ?_, m, ?_⟩
      · exact fun f hf rest heq => hfront ⟨f, hf, rest, heq⟩
      · have hnil : out = [] := by
          by_contra hne
          exact hfront (frame_in_front h (congrArg Prod.snd hgo) (by rw [hgo]; exact hne))
        rw [hnil]
        rfl

namespace Processor

theorem settle_error {k : Nat} {e : ErrorCode} (h : p.Reads)
    (hs : reader.settle k p = (out, .error e)) : out = [] := by
  induction k generalizing p out with
  | zero => cases hs
  | succ k ih =>
    rw [Reader.settle] at hs
    split_ifs at hs
    swap
    · cases hs
    cases ha : p.advance with
    | error e' =>
      rw [turned_error ha] at hs
      exact (congrArg Prod.fst hs).symm
    | ok q =>
      rw [turned_ok ha, ok_andThen] at hs
      obtain hready | ⟨hq, -⟩ := advance_ok h ha
      · have hneed : q.getMessage.2.bytesNeeded ≠ 0 := by
          rw [(getMessage_ready hready).2]
          decide
        rw [Reader.Lawful.settle_pos (r := reader) hneed] at hs
        cases hs
      · rw [getMessage_none hq.not_ready] at hs
        obtain ⟨hout, hlast⟩ := Prod.mk.inj hs
        rw [← hout]
        exact ih hq (Prod.ext rfl hlast)

/-- Nothing is dispatched with the byte that is refused. -/
theorem feed_error {e : ErrorCode} (h : p.Waits) (hs : reader.feed 3 p bs = (out, .error e)) :
    ∃ a b t, bs = a ++ b ∧ reader.feed 3 p a = (out, .ok t) := by
  induction bs generalizing p out with
  | nil => cases hs
  | cons b bs ih =>
    rw [Reader.feed] at hs
    rcases hb : (reader.stored p [b]).andThen (reader.settle 3) with ⟨out₁, e₁ | t⟩
    · rw [hb] at hs
      cases hs
      suffices hnil : out₁ = [] by exact ⟨[], b :: bs, p, rfl, by rw [hnil]; rfl⟩
      rw [Reader.stored, show reader.store p = p.store from rfl] at hb
      cases hq : p.store [b] with
      | error e' =>
        rw [hq] at hb
        exact (congrArg Prod.fst hb).symm
      | ok q =>
        have hlen : [b].length ≤ p.bytesNeeded := Nat.pos_of_ne_zero h.missing
        obtain ⟨hreads, -⟩ := store_reads h.toReads hlen hq
        rw [hq, ok_andThen] at hb
        exact settle_error hreads hb
    · rw [hb, ok_andThen] at hs
      obtain ⟨hout, hlast⟩ := Prod.mk.inj hs
      have hfeed : reader.feed 3 p [b] = (out₁, .ok t) := by
        rw [Reader.feed, hb]
        simp [Reader.feed]
      obtain ⟨a, c, u, rfl, hu⟩ := ih (waits_feed h (congrArg Prod.snd hfeed)) (Prod.ext rfl hlast)
      refine ⟨b :: a, c, u, rfl, ?_⟩
      rw [Reader.feed, hb, ok_andThen, hu, ← hout]

end Processor

theorem feed_accepted (o : ByteOrder) (server : Bool) (n : Nat) (bs : Bytes) :
    let r := Processor.reader.feed 3 (Processor.start o server n) bs
    ∃ fs tail m, (∀ f ∈ fs, Frame.Wf f) ∧ bs = wire server fs ++ tail ∧
      acceptAll n none fs = (r.1, .ok m) ∧ ∀ q, r.2 = .ok q → Partial server tail := by
  have hwaits := Processor.waits_start o server n
  dsimp only
  rcases hr : Processor.reader.feed 3 (Processor.start o server n) bs with ⟨out, e | q⟩
  · obtain ⟨a, b, t, hsplit, ha⟩ := Processor.feed_error hwaits hr
    rw [← Processor.go_waits hwaits.missing] at ha
    obtain ⟨fs, tail, hfs, rfl, -, m, hm⟩ := go_accepted (between_start o server n) ha
    exact ⟨fs, tail ++ b, m, hfs, by rw [hsplit, List.append_assoc]; rfl, hm, fun q hq => by cases hq⟩
  · rw [← Processor.go_waits hwaits.missing] at hr
    obtain ⟨fs, tail, hfs, hbs, htail, m, hm⟩ := go_accepted (between_start o server n) hr
    exact ⟨fs, tail, m, hfs, hbs, hm, fun _ _ => htail⟩

/-- What has been dispatched on a connection are the messages of frames that were accepted and that
the bytes of the peer begin with. If the connection is not closed for an error, no whole frame
follows. -/
theorem handleReads_accepted (o : ByteOrder) (server : Bool) (n : Nat) (bufs : List Bytes) :
    let r := (Processor.start o server n).handleReads bufs
    ∃ fs tail m, (∀ f ∈ fs, Frame.Wf f) ∧ bufs.flatten = wire server fs ++ tail ∧
      acceptAll n none fs = (r.1, .ok m) ∧ ∀ q, r.2 = .ok q → Partial server tail := by
  dsimp only
  rw [Processor.handleReads_eq (Processor.waits_start ..)]
  exact feed_accepted o server n bufs.flatten

end NetworkUtility.Websocketpp
