import NetworkUtility.EtcpClient.Chain

/-! The byte stream of a connection, and how far its un-run read has come in it. -/
namespace NetworkUtility.EtcpClient

open Etcp Framing Scan

variable {s t : State} {x : Item} {k : Nat} {input : Bytes} {ps : List Bytes}

/-- The connection that has been called back and not closed, with its packets so far. -/
def session : List (Nat × Callback) → Option (Nat × List Bytes) :=
  List.foldl (fun acc (conn, c) =>
    match c with
    | .connect => some (conn, [])
    | .close => none
    | .recv packet => acc.map fun (k, ps) => (k, ps ++ [packet])
    | .error _ _ => acc) none

/-- The etcp stream of a connection: all it received, or what follows the gateway's response. -/
def State.stream (s : State) (k : Nat) : Bytes :=
  if s.request = [] then s.received k
  else
    match endOfHead (s.received k) with
    | some len => (s.received k).drop len
    | none => []

/-- How the un-run handler of a read accounts for the bytes that it reads. -/
inductive Reads (s : State) (input : Bytes) (ps : List Bytes) : Item → Prop
  | head (bs : Bytes) (qs : List Bytes) (done : Nat) : format.Whole bs qs →
      qs.filter (· ≠ []) = ps → done < 6 → input = bs ++ s.recvHead.take done →
      (∀ p ∈ s.pending, p.op = .readHead → p.done = done) →
      Reads s input ps ⟨s.socket.conn, .readHead, .waiting⟩
  | headAll (bs : Bytes) (qs : List Bytes) : format.Whole bs qs → qs.filter (· ≠ []) = ps →
      s.recvHead.length = 6 → input = bs ++ s.recvHead →
      Reads s input ps ⟨s.socket.conn, .readHead, .succeeded⟩
  | body (bs head : Bytes) (qs : List Bytes) (done : Nat) : format.Whole bs qs →
      qs.filter (· ≠ []) = ps → head.length = 6 →
      format.bodySize head = some s.recvData.length → done < s.recvData.length →
      input = bs ++ (head ++ s.recvData.take done) →
      (∀ p ∈ s.pending, p.op = .readBody → p.done = done) →
      Reads s input ps ⟨s.socket.conn, .readBody, .waiting⟩
  | bodyAll (bs head : Bytes) (qs : List Bytes) : format.Whole bs qs →
      qs.filter (· ≠ []) = ps → head.length = 6 →
      format.bodySize head = some s.recvData.length → s.recvData ≠ [] →
      input = bs ++ (head ++ s.recvData) →
      Reads s input ps ⟨s.socket.conn, .readBody, .succeeded⟩
  | ended (k : Nat) (op : Op) : ps = packets input → Reads s input ps ⟨k, op, .failed⟩

/-! ### Streams and sessions -/

theorem session_snoc (log : List (Nat × Callback)) (conn : Nat) (c : Callback) :
    session (log ++ [(conn, c)]) =
      match c with
      | .connect => some (conn, [])
      | .close => none
      | .recv packet => (session log).map fun (k, ps) => (k, ps ++ [packet])
      | .error _ _ => session log := by
  simp only [session, List.foldl_append, List.foldl_cons, List.foldl_nil]

/-- A packet that is called back is the last one of the session. -/
theorem session_recv {log : List (Nat × Callback)} {conn k : Nat} {packet : Bytes}
    {ps : List Bytes} (h : session (log ++ [(conn, .recv packet)]) = some (k, ps)) :
    ∃ qs, session log = some (k, qs) ∧ ps = qs ++ [packet] := by
  simp only [session_snoc, Option.map_eq_some_iff, Prod.mk.injEq] at h
  obtain ⟨⟨j, qs⟩, hj, rfl, rfl⟩ := h
  exact ⟨qs, hj, rfl⟩

theorem drop_of_endOfHead {bs : Bytes} {len : Nat} (h : endOfHead bs = some len) (more : Bytes) :
    (bs ++ more).drop len = bs.drop len ++ more :=
  List.drop_append_of_le_length (endOfHead_le h)

theorem stream_congr (hr : t.request = s.request) (hk : t.received k = s.received k) :
    t.stream k = s.stream k := by
  simp only [State.stream, hr, hk]

/-- What arrives on a connection that has been called back is a part of its stream. -/
theorem stream_append {bytes : Bytes} (hr : t.request = s.request)
    (hk : t.received k = s.received k ++ bytes)
    (ht : s.request = [] ∨ (endOfHead (s.received k)).isSome) :
    t.stream k = s.stream k ++ bytes := by
  simp only [State.stream, hr, hk]
  split
  · rfl
  · next hne =>
    obtain ⟨len, hlen⟩ := Option.isSome_iff_exists.mp (ht.resolve_left hne)
    rw [hlen, endOfHead_append hlen]
    exact drop_of_endOfHead hlen bytes

theorem Reads.packets_eq (h : Reads s input ps x) (hx : x.op = .readBody → x.status ≠ .succeeded) :
    ps = packets input := by
  cases h with
  | head bs qs done hw hq hd hs =>
    rw [hs, packets_short hw (by simp; omega), hq]
  | headAll bs qs hw hq hl hs => rw [hs, packets_head hw hl, hq]
  | body bs head qs done hw hq hl hb hd hs =>
    rw [hs, packets_cut hw hl hb (by simp; omega), hq]
  | bodyAll => exact absurd rfl (hx rfl)
  | ended _ _ hp => exact hp

/-- The same read in the same place. -/
theorem Reads.congr (h : Reads s input ps x) (hc : t.socket.conn = s.socket.conn)
    (hh : t.recvHead = s.recvHead) (hd : t.recvData = s.recvData)
    (hp : ∀ p ∈ t.pending, p.op = .readHead ∨ p.op = .readBody → p ∈ s.pending) :
    Reads t input ps x := by
  cases h with
  | head bs qs done hw hq hlt hstream hdone =>
    rw [← hc]
    refine .head bs qs done hw hq hlt (hh ▸ hstream) ?_
    exact fun p hm hop => hdone p (hp p hm (Or.inl hop)) hop
  | headAll bs qs hw hq hl hstream =>
    rw [← hc]
    exact .headAll bs qs hw hq (hh ▸ hl) (hh ▸ hstream)
  | body bs head qs done hw hq hl hb hlt hstream hdone =>
    rw [← hc]
    refine .body bs head qs done hw hq hl (hd ▸ hb) (hd ▸ hlt) (hd ▸ hstream) ?_
    exact fun p hm hop => hdone p (hp p hm (Or.inr hop)) hop
  | bodyAll bs head qs hw hq hl hb hne hstream =>
    rw [← hc]
    exact .bodyAll bs head qs hw hq hl (hd ▸ hb) (hd ▸ hne) (hd ▸ hstream)
  | ended _ _ hpk => exact .ended _ _ hpk

/-! ### Bytes that arrive -/

section Arrive

variable {p : Pending} {bytes : Bytes}

theorem Reads.head_part (h : Reads s input ps ⟨s.socket.conn, .readHead, .waiting⟩)
    (hp : p ∈ s.pending) (hop : p.op = .readHead) (hl : s.recvHead.length = 6)
    (hh : t.recvHead = fill s.recvHead p.done bytes) (hlt : p.done + bytes.length < 6)
    (hdone : ∀ q ∈ t.pending, q.op = .readHead → q.done = p.done + bytes.length) :
    Reads t (input ++ bytes) ps ⟨t.socket.conn, .readHead, .waiting⟩ := by
  cases h with
  | head bs qs done hw hq _ hstream hd =>
    refine .head bs qs (p.done + bytes.length) hw hq hlt ?_ hdone
    rw [hstream, hh, take_fill (by omega), ← hd p hp hop, List.append_assoc]

theorem Reads.head_all (h : Reads s input ps ⟨s.socket.conn, .readHead, .waiting⟩)
    (hp : p ∈ s.pending) (hop : p.op = .readHead) (hl : s.recvHead.length = 6)
    (hh : t.recvHead = fill s.recvHead p.done bytes) (hfull : p.done + bytes.length = 6) :
    Reads t (input ++ bytes) ps ⟨t.socket.conn, .readHead, .succeeded⟩ := by
  cases h with
  | head bs qs done hw hq _ hstream hd =>
    have hlen : t.recvHead.length = 6 := by rw [hh, length_fill (by omega), hl]
    have htake : t.recvHead = s.recvHead.take p.done ++ bytes := by
      rw [← take_fill (by omega : p.done + bytes.length ≤ s.recvHead.length), ← hh, hfull, ← hlen,
        List.take_length]
    refine .headAll bs qs hw hq hlen ?_
    rw [hstream, htake, hd p hp hop, List.append_assoc]

theorem Reads.body_part (h : Reads s input ps ⟨s.socket.conn, .readBody, .waiting⟩)
    (hp : p ∈ s.pending) (hop : p.op = .readBody)
    (hh : t.recvData = fill s.recvData p.done bytes)
    (hlt : p.done + bytes.length < s.recvData.length)
    (hdone : ∀ q ∈ t.pending, q.op = .readBody → q.done = p.done + bytes.length) :
    Reads t (input ++ bytes) ps ⟨t.socket.conn, .readBody, .waiting⟩ := by
  cases h with
  | body bs head qs done hw hq hl hb _ hstream hd =>
    have hlen : t.recvData.length = s.recvData.length := by rw [hh, length_fill (by omega)]
    refine .body bs head qs (p.done + bytes.length) hw hq hl (hlen ▸ hb) (hlen ▸ hlt) ?_ hdone
    rw [hstream, hh, take_fill (by omega), ← hd p hp hop]
    simp only [List.append_assoc]

theorem Reads.body_all (h : Reads s input ps ⟨s.socket.conn, .readBody, .waiting⟩)
    (hp : p ∈ s.pending) (hop : p.op = .readBody)
    (hh : t.recvData = fill s.recvData p.done bytes)
    (hfull : p.done + bytes.length = s.recvData.length) :
    Reads t (input ++ bytes) ps ⟨t.socket.conn, .readBody, .succeeded⟩ := by
  cases h with
  | body bs head qs done hw hq hl hb hlt hstream hd =>
    have hlen : t.recvData.length = s.recvData.length := by rw [hh, length_fill (by omega)]
    have htake : t.recvData = s.recvData.take p.done ++ bytes := by
      rw [← take_fill (by omega : p.done + bytes.length ≤ s.recvData.length), ← hh, hfull, ← hlen,
        List.take_length]
    have hne : t.recvData ≠ [] := by
      intro hnil
      rw [hnil] at hlen
      simp only [List.length_nil] at hlen
      omega
    refine .bodyAll bs head qs hw hq hl (hlen ▸ hb) hne ?_
    rw [hstream, htake, hd p hp hop]
    simp only [List.append_assoc]

end Arrive

/-! ### The handlers of the two reads -/

section Handle

variable {o : ByteOrder} {n : Nat}

/-- `do_read` at the end of what has been delivered. -/
theorem reads_start {qs : List Bytes} (hw : format.Whole input qs) (hq : qs.filter (· ≠ []) = ps)
    (hd : ∀ p ∈ t.pending, p.op = .readHead → p.done = 0) :
    Reads t input ps ⟨t.socket.conn, .readHead, .waiting⟩ :=
  .head input qs 0 hw hq (by decide) (by simp) hd

theorem packets_of_whole {qs : List Bytes} (hw : format.Whole input qs) :
    packets input = qs.filter (· ≠ []) := by
  have hp : packets (input ++ []) = _ := packets_short hw (by decide)
  rwa [List.append_nil] at hp

/-- The empty frame is skipped. -/
theorem Reads.skip (h : Reads s input ps ⟨s.socket.conn, .readHead, .succeeded⟩)
    (hc : checkHead o s.recvHead = .empty) :
    ∃ qs, format.Whole input qs ∧ qs.filter (· ≠ []) = ps := by
  cases h with
  | headAll bs qs hw hq hl hstream =>
    have hb : format.bodySize s.recvHead = some 0 := by
      rw [checkHead_eq o hl] at hc
      split at hc <;> simp_all
    refine ⟨qs ++ [[]], ?_, by simpa using hq⟩
    have hsnoc : format.Whole (bs ++ (s.recvHead ++ [])) (qs ++ [[]]) := hw.snoc hl hb
    rw [hstream]
    simpa using hsnoc

/-- The body read starts. -/
theorem Reads.open (h : Reads s input ps ⟨s.socket.conn, .readHead, .succeeded⟩)
    (hc : checkHead o s.recvHead = .body n) (hl : t.recvData.length = n)
    (hd : ∀ p ∈ t.pending, p.op = .readBody → p.done = 0) :
    Reads t input ps ⟨t.socket.conn, .readBody, .waiting⟩ := by
  cases h with
  | headAll bs qs hw hq hlen hstream =>
    have hb : format.bodySize s.recvHead = some n ∧ 0 < n := by
      rw [checkHead_eq o hlen] at hc
      split at hc <;> simp_all
      omega
    refine .body bs s.recvHead qs 0 hw hq hlen (hl ▸ hb.1) (hl ▸ hb.2) ?_ hd
    rw [hstream]
    simp

/-- The packet is delivered. -/
theorem Reads.deliver (h : Reads s input ps ⟨s.socket.conn, .readBody, .succeeded⟩) :
    ∃ qs, format.Whole input qs ∧ qs.filter (· ≠ []) = ps ++ [s.recvData] := by
  cases h with
  | bodyAll bs head qs hw hq hl hb hne hstream =>
    refine ⟨qs ++ [s.recvData], ?_, by rw [List.filter_append, hq]; simp [hne]⟩
    rw [hstream]
    exact hw.snoc hl hb

end Handle

end NetworkUtility.EtcpClient
