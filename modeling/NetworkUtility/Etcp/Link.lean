import Mathlib.Logic.Function.Basic
import NetworkUtility.Lib.Machine
import NetworkUtility.Etcp.Sender
import NetworkUtility.Etcp.Receiver

/-! One established connection between an `EtcpClientImpl` and an `EtcpSession`, while no operation
on it fails. Both ends send and receive; TCP keeps the bytes of each direction in order. -/
namespace NetworkUtility.Etcp

open Machine

inductive Side
  | client
  | session
  deriving DecidableEq, Repr

def Side.peer : Side → Side
  | .client => .session
  | .session => .client

/-- `wire d` holds the bytes that side `d` has written and its peer has not read. -/
structure Link where
  order : Side → ByteOrder
  sender : Side → Sender
  receiver : Side → Receiver
  wire : Side → Bytes

namespace Link

inductive Action
  | send (d : Side) (pack : Bytes)
  | runPosted (d : Side) (i : Nat)
  | transmit (d : Side) (i n : Nat)
  | runWritten (d : Side) (i : Nat)
  | arrive (d : Side) (i n : Nat)
  | runRead (d : Side) (i : Nat)
  deriving Repr

def established (order : Side → ByteOrder) : Link :=
  ⟨order, fun _ => .initial, fun _ => .initial, fun _ => []⟩

def setSender (s : Link) (d : Side) (x : Sender) : Link :=
  { s with sender := Function.update s.sender d x }

def setReceiver (s : Link) (d : Side) (x : Receiver) : Link :=
  { s with receiver := Function.update s.receiver d x }

def step (s : Link) : Action → Option Link
  | .send d pack => ((s.sender d).post pack).map (s.setSender d)
  | .runPosted d i => ((s.sender d).runPosted (s.order d) i).map (s.setSender d)
  | .transmit d i n =>
    ((s.sender d).transmit i n).map fun x =>
      { s.setSender d x.1 with wire := Function.update s.wire d (s.wire d ++ x.2) }
  | .runWritten d i => ((s.sender d).runWritten i).map (s.setSender d)
  | .arrive d i n =>
    ((s.receiver d).arrive i ((s.wire d.peer).take n)).map fun x =>
      { s.setReceiver d x with
        wire := Function.update s.wire d.peer ((s.wire d.peer).drop n) }
  | .runRead d i => ((s.receiver d).runRead (s.order d) i).map (s.setReceiver d)

/-- One direction, sent by `d`: both paths are in order and the wire holds the difference. -/
structure Flows (s : Link) (d : Side) : Prop where
  sending : (s.sender d).Sending (s.order d)
  sized : (s.sender d).Sized
  reading : (s.receiver d.peer).Reading
  wire : (s.sender d).output = (s.receiver d.peer).input ++ s.wire d

variable {s t : Link} {d e : Side} {a : Action} {as : List Action} {order : Side → ByteOrder}

@[simp] theorem peer_peer (d : Side) : d.peer.peer = d := by cases d <;> rfl

theorem flows_established (d : Side) : Flows (established order) d :=
  ⟨Sender.sending_initial, Sender.sized_initial, Receiver.reading_initial, rfl⟩

/-- A new sender state that leaves the output alone keeps every direction in order. -/
theorem flows_setSender {x : Sender} (hf : ∀ d, Flows s d) (hx : x.Sending (s.order e))
    (hz : x.Sized) (ho : x.output = (s.sender e).output) (d : Side) : Flows (s.setSender e x) d := by
  obtain ⟨hs, hq, hr, hw⟩ := hf d
  by_cases he : d = e
  · subst he
    exact ⟨by simpa [setSender] using hx, by simpa [setSender] using hz, hr,
      by simpa [setSender, ho] using hw⟩
  · exact ⟨by simpa [setSender, Function.update_of_ne he] using hs,
      by simpa [setSender, Function.update_of_ne he] using hq, hr,
      by simpa [setSender, Function.update_of_ne he] using hw⟩

theorem order_step (h : step s a = some t) : t.order = s.order := by
  cases a <;> simp only [step, Option.map_eq_some_iff] at h <;> obtain ⟨x, _, rfl⟩ := h <;> rfl

theorem flows_step (h : step s a = some t) (hf : ∀ d, Flows s d) (d : Side) : Flows t d := by
  cases a with
  | send e pack =>
    simp only [step, Option.map_eq_some_iff] at h
    obtain ⟨x, hx, rfl⟩ := h
    refine flows_setSender hf (Sender.sending_post hx (hf e).sending)
      (Sender.sized_post hx (hf e).sized) ?_ d
    exact Sender.output_post hx
  | runPosted e i =>
    simp only [step, Option.map_eq_some_iff] at h
    obtain ⟨x, hx, rfl⟩ := h
    refine flows_setSender hf (Sender.sending_runPosted hx (hf e).sending)
      (Sender.sized_runPosted hx (hf e).sized) ?_ d
    exact Sender.output_runPosted hx
  | transmit e i n =>
    simp only [step, Option.map_eq_some_iff] at h
    obtain ⟨⟨x, data⟩, hx, rfl⟩ := h
    obtain ⟨hsend, hout, hqueued, hposted⟩ := Sender.sending_transmit hx (hf e).sending
    obtain ⟨hs, hq, hr, hw⟩ := hf d
    by_cases he : d = e
    · subst he
      refine ⟨by simpa [setSender] using hsend, ?_, hr, ?_⟩
      · simpa [setSender, Sender.Sized, hqueued, hposted] using hq
      · simp [setSender, hout, hw]
    · exact ⟨by simpa [setSender, Function.update_of_ne he] using hs,
        by simpa [setSender, Function.update_of_ne he] using hq, hr,
        by simpa [setSender, Function.update_of_ne he] using hw⟩
  | runWritten e i =>
    simp only [step, Option.map_eq_some_iff] at h
    obtain ⟨x, hx, rfl⟩ := h
    obtain ⟨hsend, hout, hqueued, hposted⟩ := Sender.sending_runWritten hx (hf e).sending
    refine flows_setSender hf hsend ?_ hout d
    simpa [Sender.Sized, hqueued, hposted] using (hf e).sized
  | arrive e i n =>
    simp only [step, Option.map_eq_some_iff] at h
    obtain ⟨x, hx, rfl⟩ := h
    obtain ⟨hs, hq, hr, hw⟩ := hf d
    by_cases he : d = e.peer
    · subst he
      rw [peer_peer] at hr hw
      obtain ⟨hread, hin⟩ := Receiver.reading_arrive hx hr
      refine ⟨hs, hq, by simpa [setReceiver] using hread, ?_⟩
      simp [setReceiver, hin, hw]
    · have hp : d.peer ≠ e := fun h => he (by rw [← h, peer_peer])
      exact ⟨hs, hq, by simpa [setReceiver, Function.update_of_ne hp] using hr,
        by simpa [setReceiver, Function.update_of_ne hp, Function.update_of_ne he] using hw⟩
  | runRead e i =>
    simp only [step, Option.map_eq_some_iff] at h
    obtain ⟨x, hx, rfl⟩ := h
    obtain ⟨hs, hq, hr, hw⟩ := hf d
    by_cases he : d.peer = e
    · subst he
      obtain ⟨hread, hin⟩ := Receiver.reading_runRead hx hr
      exact ⟨hs, hq, by simpa [setReceiver] using hread, by simpa [setReceiver, hin] using hw⟩
    · exact ⟨hs, hq, by simpa [setReceiver, Function.update_of_ne he] using hr,
        by simpa [setReceiver, Function.update_of_ne he] using hw⟩

theorem flows_run (h : Run step Free (established order) as s) (d : Side) : Flows s d :=
  h.invariant (fun s => ∀ d, Flows s d) (fun _ _ _ hf _ hst => flows_step hst hf)
    flows_established d

theorem Flows.output_prefix (hf : Flows s d) :
    (s.sender d).output <+: ((s.sender d).queued.map (frame (s.order d))).flatten := by
  obtain ⟨_, _, ho⟩ | ⟨w, rest, _, _, _, ho⟩ := hf.sending
  · exact ho ▸ List.prefix_rfl
  · exact ho ▸ List.prefix_append _ _

/-- What the reader has taken apart is the beginning of what was queued: the frames are unambiguous,
and every header read so far is one that was written. -/
theorem Flows.delivered_prefix (hf : Flows s d) :
    (s.receiver d.peer).delivered <+: (s.sender d).queued ∧ (s.receiver d.peer).errors = [] := by
  have hall : ∀ p ∈ (s.sender d).queued, p ≠ [] ∧ p.length < 2 ^ 32 :=
    fun p hp => hf.sized p (List.mem_append_right _ hp)
  have hwhole := whole_frames (o := s.order d) fun p hp => (hall p hp).2
  obtain ⟨more, hmore⟩ := hf.output_prefix
  rw [hf.wire, List.append_assoc] at hmore
  rw [← hmore] at hwhole
  have hfirst {bs rest : Bytes} {ps : List Bytes} (hw : format.Whole bs ps)
      (hin : (s.receiver d.peer).input = bs ++ rest) :
      ∃ rs, (s.sender d).queued = ps ++ rs ∧
        format.Whole (rest ++ (s.wire d ++ more)) rs ∧ ps.filter (· ≠ []) = ps := by
    rw [hin, List.append_assoc] at hwhole
    obtain ⟨rs, hq, hr⟩ := hw.cut hwhole
    refine ⟨rs, hq, hr, List.filter_eq_self.mpr fun p hp => ?_⟩
    simpa using (hall p (by simp [hq, hp])).1
  cases hf.reading with
  | inHead bs ps n hw hdel herr _ _ _ hin =>
    obtain ⟨rs, hq, _, hps⟩ := hfirst hw hin
    exact ⟨⟨rs, by rw [hdel, hps, hq]⟩, herr⟩
  | inBody bs head ps n hw hdel herr _ _ _ _ _ _ hin =>
    obtain ⟨rs, hq, _, hps⟩ := hfirst hw hin
    exact ⟨⟨rs, by rw [hdel, hps, hq]⟩, herr⟩
  | refused bs head ps hw _ _ _ hl hs hin =>
    obtain ⟨rs, _, hr, _⟩ := hfirst hw hin
    obtain ⟨body, _, _, _, _, hb, _⟩ := hr.next hl
    simp [hs] at hb

/-- Once the reader has taken every byte that was queued, it has delivered every packet. -/
theorem Flows.delivered_all (hf : Flows s d) (hs : (s.receiver d.peer).Settled)
    (hin : (s.receiver d.peer).input = ((s.sender d).queued.map (frame (s.order d))).flatten) :
    (s.receiver d.peer).delivered = (s.sender d).queued := by
  have hall : ∀ p ∈ (s.sender d).queued, p ≠ [] ∧ p.length < 2 ^ 32 :=
    fun p hp => hf.sized p (List.mem_append_right _ hp)
  have hwhole := whole_frames (o := s.order d) fun p hp => (hall p hp).2
  have hfr := hwhole.frames_of_no_split Framing.Format.split_nil
  rw [List.append_nil] at hfr
  rw [hf.reading.delivered_eq hs, hin, hfr]
  exact List.filter_eq_self.mpr fun p hp => by simpa using (hall p hp).1

/-- In each direction, in every run and for any two byte orders: one write at a time, for the front
of the list; the bytes written are a beginning of the queued frames; the packets delivered are a
beginning of the queued packets, and all of them once their bytes are read. -/
theorem stream_delivery (h : Run step Free (established order) as s) (d : Side) :
    ((s.sender d).writes.length ≤ 1 ∧
      ∀ w ∈ (s.sender d).writes, (s.sender d).sendDataList.head? = some w.buffer) ∧
    (s.sender d).output <+: ((s.sender d).queued.map (frame (order d))).flatten ∧
    (s.receiver d.peer).delivered <+: (s.sender d).queued ∧
    ((s.receiver d.peer).input = ((s.sender d).queued.map (frame (order d))).flatten →
      (s.receiver d.peer).Settled → (s.receiver d.peer).delivered = (s.sender d).queued) := by
  have hf := flows_run h d
  have horder : s.order = order :=
    h.invariant (fun s => s.order = order)
      (fun _ _ _ ho _ hst => (order_step hst).trans ho) rfl
  refine ⟨?_, ?_, hf.delivered_prefix.1, ?_⟩
  · obtain ⟨_, hw, _⟩ | ⟨w, rest, hl, hw, _⟩ := hf.sending
    · simp [hw]
    · simp [hw, hl]
  · simpa only [horder] using hf.output_prefix
  · intro hin hset
    exact hf.delivered_all hset (by rw [hin, horder])

/-- Two packets from a little-endian client to a big-endian session, the second queued between the
writes of the first one's header and body. -/
theorem stream_delivery_example :
    ∃ as s, Run step Free (established fun | .client => .little | .session => .big) as s ∧
      (s.receiver .session).delivered = [[7], [8, 9]] ∧
      (s.receiver .session).delivered <+: (s.sender .client).queued :=
  have h := run_exec step Free (established fun | .client => .little | .session => .big)
    [.send .client [7], .runPosted .client 0, .transmit .client 0 6, .send .client [8, 9],
      .runPosted .client 0, .runWritten .client 0, .transmit .client 0 1, .runWritten .client 0,
      .transmit .client 0 6, .runWritten .client 0, .transmit .client 0 2, .arrive .session 0 6,
      .runRead .session 0, .arrive .session 0 1, .runRead .session 0, .arrive .session 0 6,
      .runRead .session 0, .arrive .session 0 2, .runRead .session 0] (by decide)
  ⟨_, _, h, by decide, (stream_delivery h .client).2.2.1⟩

end Link

end NetworkUtility.Etcp
