import NetworkUtility.Etcp.Parser
import NetworkUtility.EtcpClient.Closed
import NetworkUtility.EtcpServer.Session

/-! The length field of a message. `size_t` becomes `uint32_t` in the header, and no packet is refused
for its length. -/
namespace NetworkUtility.Etcp

open Framing Machine

/-- Header and body as they are queued. -/
def message (o : ByteOrder) (pack : Bytes) : Bytes := (pushMessage o [] pack).flatten

namespace Receiver

/-- The next byte that is read is the first of a header. -/
def AtFrame (r : Receiver) : Prop := r.reads = [⟨.head, 0⟩]

/-- From `r` to `u` the reader has read these bytes and delivered this packet, and nothing else. -/
structure Passed (bytes pack : Bytes) (r u : Receiver) : Prop where
  input : u.input = r.input ++ bytes
  delivered : u.delivered = r.delivered ++ [pack]
  errors : u.errors = r.errors
  atFrame : u.AtFrame

/-- A peer of order `o'` that is between two frames can read the message of a host of order `o`, and
however it reads the message and what follows it, it is at the end of the message once. -/
def Faithful (o o' : ByteOrder) (pack : Bytes) : Prop :=
  ∀ rs r, Run (step o') Free initial rs r → r.AtFrame →
    (∃ as u, Run (step o') Free r as u ∧ Passed (message o pack) pack r u) ∧
    ∀ rest as t, Run (step o') Free r as t → t.Settled →
      (as.map Action.bytes).flatten <+: message o pack ++ rest →
      (message o pack).length ≤ (as.map Action.bytes).flatten.length →
      ∃ front u back, as = front ++ back ∧ Run (step o') Free r front u ∧
        Passed (message o pack) pack r u ∧ Run (step o') Free u back t

/-- The reader is in the header or in the body of a message that began where `r` was. -/
inductive Fetching (head pack : Bytes) (r s : Receiver) : Prop
  | inHead (n : Nat) :
      s.reads = [⟨.head, n⟩] → s.recvHead.length = 6 → n ≤ 6 → s.recvHead.take n = head.take n →
      s.delivered = r.delivered → s.errors = r.errors → s.input = r.input ++ head.take n →
      Fetching head pack r s
  | inBody (n : Nat) :
      s.reads = [⟨.body, n⟩] → s.recvData.length = pack.length → n ≤ pack.length →
      s.recvData.take n = pack.take n → s.delivered = r.delivered → s.errors = r.errors →
      s.input = r.input ++ (head ++ pack.take n) → Fetching head pack r s

variable {o o' : ByteOrder} {r s t : Receiver} {a : Action} {as : List Action}
  {head pack rest data : Bytes} {i n : Nat}

theorem message_eq (o : ByteOrder) (pack : Bytes) : message o pack = messageHead o pack ++ pack := by
  simp [message, pushMessage]

theorem Reading.length_recvHead (hr : Reading r) (hat : r.AtFrame) : r.recvHead.length = 6 := by
  unfold AtFrame at hat
  cases hr with
  | inHead bs ps n hw hdel herr hreads hl hn hin => exact hl
  | inBody bs head ps n hw hdel herr hreads hl hhl hs hne hn hin => exact hl
  | refused bs head ps hw hdel herr hreads hl hs hin => simp [hreads] at hat

theorem fetching_initial (hr : Reading r) (hat : r.AtFrame) : Fetching head pack r r :=
  .inHead 0 hat (hr.length_recvHead hat) (Nat.zero_le _) rfl rfl rfl (by simp)

/-- What arrives next is what is next in the stream. -/
theorem take_next {xs : Bytes} (hn : n ≤ xs.length) (hfit : n + data.length ≤ xs.length)
    (h : xs.take n ++ data <+: xs ++ rest) : xs.take n ++ data = xs.take (n + data.length) := by
  have hlen : (xs.take n ++ data).length = n + data.length := by simp; omega
  have heq := List.prefix_iff_eq_take.mp h
  rwa [hlen, List.take_append_of_le_length hfit] at heq

/-- The one read that is outstanding takes what arrives. -/
theorem arrive_single {part : Part} (h : r.arrive i data = some t) (hreads : r.reads = [⟨part, n⟩]) :
    n + data.length ≤ r.need part ∧ t.reads = [⟨part, n + data.length⟩] ∧
      t.input = r.input ++ data ∧ t.delivered = r.delivered ∧ t.errors = r.errors ∧
      t.recvHead = (if part = .head then fill r.recvHead n data else r.recvHead) ∧
      t.recvData = (if part = .body then fill r.recvData n data else r.recvData) := by
  cases i with
  | succ i => simp [arrive, hreads] at h
  | zero =>
    simp only [arrive, hreads, List.getElem?_cons_zero] at h
    split at h
    · next hfit =>
      cases part with
      | head =>
        obtain rfl := Option.some.inj h
        exact ⟨hfit.2, rfl, rfl, rfl, rfl, rfl, rfl⟩
      | body =>
        obtain rfl := Option.some.inj h
        exact ⟨hfit.2, rfl, rfl, rfl, rfl, rfl, rfl⟩
    · cases h

/-- The handler of the one read that is outstanding runs when the read is full. -/
theorem runRead_single {part : Part} (h : r.runRead o i = some t) (hreads : r.reads = [⟨part, n⟩]) :
    n = r.need part ∧ t =
      match part with
      | .head => { r with reads := [] }.onHead o
      | .body => { r with reads := [] }.onBody := by
  cases i with
  | succ i => simp [runRead, hreads] at h
  | zero =>
    simp only [runRead, hreads, List.getElem?_cons_zero] at h
    split at h
    · next hfull =>
      cases part with
      | head => exact ⟨hfull, (Option.some.inj h).symm⟩
      | body => exact ⟨hfull, (Option.some.inj h).symm⟩
    · cases h

theorem onHead_of_size {size : Nat} (hl : r.recvHead.length = 6)
    (hsize : format.bodySize r.recvHead = some (size + 1)) :
    r.onHead o = { r with
      recvHead := EtcpHeader.decode o r.recvHead
      recvData := resize r.recvData (size + 1)
      reads := r.reads ++ [⟨.body, 0⟩] } := by
  have hcheck := checkHead_eq o hl
  rw [hsize] at hcheck
  simp only [onHead, hcheck]

theorem fetching_arrive (hf : Fetching head pack r s) (hl : head.length = 6)
    (h : s.arrive i data = some t) (hpre : t.input <+: r.input ++ (head ++ pack ++ rest)) :
    Fetching head pack r t := by
  cases hf with
  | inHead n hreads hlen hn htake hdel herr hin =>
    obtain ⟨hfit, hreads', hin', hdel', herr', hhead, -⟩ := arrive_single h hreads
    rw [if_pos rfl] at hhead
    have hfit : n + data.length ≤ s.recvHead.length := hfit
    have hnext : head.take n ++ data = head.take (n + data.length) := by
      rw [hin', hin, List.append_assoc, List.prefix_append_right_inj, List.append_assoc] at hpre
      exact take_next (by omega) (by omega) hpre
    refine .inHead (n + data.length) hreads' ?_ (by omega) ?_ (hdel'.trans hdel) (herr'.trans herr) ?_
    · rw [hhead, length_fill hfit, hlen]
    · rw [hhead, take_fill hfit, htake, hnext]
    · rw [hin', hin, List.append_assoc, hnext]
  | inBody n hreads hlen hn htake hdel herr hin =>
    obtain ⟨hfit, hreads', hin', hdel', herr', -, hdata⟩ := arrive_single h hreads
    rw [if_pos rfl] at hdata
    have hfit : n + data.length ≤ s.recvData.length := hfit
    have hnext : pack.take n ++ data = pack.take (n + data.length) := by
      rw [hin', hin, List.append_assoc, List.prefix_append_right_inj, List.append_assoc,
        List.append_assoc, List.prefix_append_right_inj] at hpre
      exact take_next hn (by omega) hpre
    refine .inBody (n + data.length) hreads' ?_ (by omega) ?_ (hdel'.trans hdel) (herr'.trans herr) ?_
    · rw [hdata, length_fill hfit, hlen]
    · rw [hdata, take_fill hfit, htake, hnext]
    · rw [hin', hin, List.append_assoc, List.append_assoc, hnext]

/-- The handler of the header asks for the packet, and the handler of the body hands it over. -/
theorem fetching_runRead (hf : Fetching head pack r s) (hl : head.length = 6)
    (hsize : format.bodySize head = some pack.length) (hne : pack ≠ [])
    (h : s.runRead o i = some t) :
    Fetching head pack r t ∨ Passed (head ++ pack) pack r t := by
  cases hf with
  | inHead n hreads hlen hn htake hdel herr hin =>
    obtain ⟨hfull, rfl⟩ := runRead_single h hreads
    have hsix : n = 6 := hfull.trans hlen
    have hhead : s.recvHead = head := by
      rw [hsix, ← hlen, List.take_length] at htake
      rw [htake, hlen, ← hl, List.take_length]
    obtain ⟨size, hpos⟩ : ∃ size, pack.length = size + 1 :=
      ⟨pack.length - 1, by have := List.length_pos_iff.mpr hne; omega⟩
    have hread : { s with reads := [] }.onHead o = _ :=
      onHead_of_size (r := { s with reads := [] }) hlen (by rw [hhead, hsize, hpos])
    refine .inl (.inBody 0 ?_ ?_ (Nat.zero_le _) rfl ?_ ?_ ?_)
    · rw [hread]
      rfl
    · rw [hread, hpos]
      exact length_resize ..
    · rw [hread]
      exact hdel
    · rw [hread]
      exact herr
    · rw [hread]
      simpa [hsix, ← hl] using hin
  | inBody n hreads hlen hn htake hdel herr hin =>
    obtain ⟨hfull, rfl⟩ := runRead_single h hreads
    have hall : n = pack.length := hfull.trans hlen
    have hdata : s.recvData = pack := by
      rw [hall, List.take_length, ← hlen, List.take_length] at htake
      exact htake
    refine .inr ⟨?_, ?_, ?_, ?_⟩
    · simpa [onBody, doRead, hall] using hin
    · simp [onBody, doRead, hdel, hdata]
    · simp [onBody, doRead, herr]
    · simp [onBody, doRead, AtFrame]

theorem fetching_step (hf : Fetching head pack r s) (hl : head.length = 6)
    (hsize : format.bodySize head = some pack.length) (hne : pack ≠ [])
    (h : step o s a = some t) (hpre : t.input <+: r.input ++ (head ++ pack ++ rest)) :
    Fetching head pack r t ∨ Passed (head ++ pack) pack r t := by
  cases a with
  | arrive i data => exact .inl (fetching_arrive hf hl h hpre)
  | run i => exact fetching_runRead hf hl hsize hne h

/-- A run that has not been at the end of the message is still fetching it. -/
theorem fetching_run (h : Run (step o) Free s as t) (hf : Fetching head pack r s) (hr : Reading s)
    (hl : head.length = 6) (hsize : format.bodySize head = some pack.length) (hne : pack ≠ [])
    (hpre : t.input <+: r.input ++ (head ++ pack ++ rest)) :
    Fetching head pack r t ∨ ∃ front u back, as = front ++ back ∧ Run (step o) Free s front u ∧
      Passed (head ++ pack) pack r u ∧ Run (step o) Free u back t := by
  induction h with
  | nil => exact .inl hf
  | @cons s m t a as hg hst hrun ih =>
    obtain ⟨hm, -⟩ := reading_step hr hst
    obtain ⟨-, hin⟩ := reading_run hrun hm
    have hmid : m.input <+: r.input ++ (head ++ pack ++ rest) :=
      (List.prefix_append _ _).trans (hin ▸ hpre)
    rcases fetching_step hf hl hsize hne hst hmid with hf' | hp
    · rcases ih hf' hm hpre with hft | ⟨front, u, back, rfl, hfront, hp, hback⟩
      · exact .inl hft
      · exact .inr ⟨a :: front, u, back, rfl, .cons hg hst hfront, hp, hback⟩
    · exact .inr ⟨[a], m, as, rfl, .cons hg hst (.nil m), hp, hrun⟩

/-- With the whole message read and no handler waiting, the message has been passed. -/
theorem Fetching.not_settled (hf : Fetching head pack r t) (hs : t.Settled) (hl : head.length = 6)
    (hne : pack ≠ []) (hlong : (r.input ++ (head ++ pack)).length ≤ t.input.length) : False := by
  have hpos := List.length_pos_iff.mpr hne
  simp only [List.length_append] at hlong
  cases hf with
  | inHead n hreads hlen hn htake hdel herr hin =>
    rw [hin, List.length_append, List.length_take] at hlong
    omega
  | inBody n hreads hlen hn htake hdel herr hin =>
    have hlt : n < t.recvData.length := hs ⟨.body, n⟩ (by simp [hreads])
    rw [hin, List.length_append, List.length_append, List.length_take] at hlong
    omega

/-- A frame is longer than its body. -/
theorem length_of_mem_frames {bs body : Bytes} (h : body ∈ format.frames bs) :
    body.length + 6 ≤ bs.length := by
  obtain ⟨front, rest, rfl, hw, -⟩ := Format.exists_rest (f := format) bs
  rw [List.length_append]
  generalize format.frames (front ++ rest) = ps at h hw
  induction hw with
  | nil => cases h
  | @cons head body' bs ps hl hb hw ih =>
    have hsix : head.length = 6 := hl
    simp only [List.length_append]
    rcases List.mem_cons.mp h with rfl | h
    · omega
    · have := ih h
      omega

theorem bodySize_mod (o : ByteOrder) (pack : Bytes) :
    format.bodySize (messageHead o pack) = some (pack.length % 2 ^ 32) := by
  have hlt : pack.length % 2 ^ 32 < 2 ^ 32 := Nat.mod_lt _ (by decide)
  have hle : pack.length % 2 ^ 32 ≤ pack.length := Nat.mod_le ..
  have hcut : (pack.take (pack.length % 2 ^ 32)).length = pack.length % 2 ^ 32 :=
    List.length_take_of_le hle
  have hsame : messageHead o pack = messageHead o (pack.take (pack.length % 2 ^ 32)) := by
    rw [messageHead_eq, messageHead_eq, hcut, Nat.mod_mod]
  have hsize : format.bodySize (messageHead o (pack.take (pack.length % 2 ^ 32))) = some _ :=
    bodySize_messageHead (by rw [hcut]; exact hlt)
  rw [hsame, hsize, hcut]

/-- The header of a longer packet announces a part of it. -/
theorem not_mem_frames (o : ByteOrder) (h : 2 ^ 32 ≤ pack.length) :
    pack ∉ format.frames (message o pack) := by
  intro hmem
  have hlt : pack.length % 2 ^ 32 < 2 ^ 32 := Nat.mod_lt _ (by decide)
  have hcut : (pack.take (pack.length % 2 ^ 32)).length = pack.length % 2 ^ 32 :=
    List.length_take_of_le (Nat.mod_le ..)
  have hsplit : format.split (messageHead o pack ++ (pack.take (pack.length % 2 ^ 32) ++
      pack.drop (pack.length % 2 ^ 32))) = some _ :=
    Format.split_frame (length_messageHead o pack)
      ((bodySize_mod o pack).trans (congrArg some hcut.symm))
  rw [List.take_append_drop, ← message_eq] at hsplit
  rw [Format.frames_of_split hsplit] at hmem
  rcases List.mem_cons.mp hmem with heq | hmem
  · have := congrArg List.length heq
    omega
  · have := length_of_mem_frames hmem
    rw [List.length_drop] at this
    omega

theorem faithful_of_lt (o o' : ByteOrder) (hne : pack ≠ []) (hlt : pack.length < 2 ^ 32) :
    Faithful o o' pack := by
  intro rs r hrs hat
  obtain ⟨hr, -⟩ := reading_run hrs reading_initial
  have hl := length_messageHead o pack
  have hsize := bodySize_messageHead (o := o) hlt
  have hf : Fetching (messageHead o pack) pack r r := fetching_initial hr hat
  simp only [message_eq]
  refine ⟨?_, fun rest as t has hs hpre hlong => ?_⟩
  · obtain ⟨as, t, has, hs, hpre, hend⟩ := exists_complete o' hr
      (List.prefix_append r.input (messageHead o pack ++ pack))
    have hpre' : t.input <+: r.input ++ (messageHead o pack ++ pack ++ []) := by
      rw [List.append_nil]
      exact hpre
    rcases fetching_run has hf hr hl hsize hne hpre' with hft | ⟨front, u, back, -, hu, hp, -⟩
    · have hreads : t.reads ≠ [] := by
        cases hft with
        | inHead n hreads => simp [hreads]
        | inBody n hreads => simp [hreads]
      have hinput := hend.resolve_right hreads
      exact (hft.not_settled hs hl hne (le_of_eq (congrArg List.length hinput).symm)).elim
    · exact ⟨front, u, hu, hp⟩
  · obtain ⟨-, hin⟩ := reading_run has hr
    have hpre' : t.input <+: r.input ++ (messageHead o pack ++ pack ++ rest) := by
      rw [hin, List.prefix_append_right_inj]
      exact hpre
    refine (fetching_run has hf hr hl hsize hne hpre').resolve_left fun hft => ?_
    refine hft.not_settled hs hl hne ?_
    simp only [List.length_append] at hlong
    rw [hin]
    simp only [List.length_append]
    omega

theorem not_faithful (o o' : ByteOrder) (h : 2 ^ 32 ≤ pack.length) : ¬ Faithful o o' pack := by
  intro hall
  obtain ⟨⟨as, u, hrun, hp⟩, -⟩ := hall [] initial (.nil initial) rfl
  obtain ⟨hu, -⟩ := reading_run hrun reading_initial
  have hat : u.reads = [⟨.head, 0⟩] := hp.atFrame
  have hs : u.Settled := by
    intro q hq
    rw [hat, List.mem_singleton] at hq
    subst hq
    have hlen := hu.length_recvHead hat
    simp [need, hlen]
  have hdel := hu.delivered_eq hs
  rw [hp.delivered, hp.input] at hdel
  have hmem : pack ∈ (format.frames (initial.input ++ message o pack)).filter (· ≠ []) := by
    rw [← hdel]
    exact List.mem_append_right _ (List.mem_singleton_self pack)
  exact not_mem_frames o h (List.mem_of_mem_filter hmem)

/-- Of the packets that either end accepts, those that the length field can hold arrive. -/
theorem faithful_iff_fits (o o' : ByteOrder) (client : EtcpClient.State)
    (session : EtcpServer.Session) (pack : Bytes)
    (h : client.sendMessage pack = true ∨ session.sendMessage pack = true) :
    Faithful o o' pack ↔ pack.length < 2 ^ 32 := by
  have hne : pack ≠ [] := by
    rintro rfl
    simp [EtcpClient.State.sendMessage, EtcpServer.Session.sendMessage] at h
  refine ⟨fun hf => ?_, faithful_of_lt o o' hne⟩
  by_contra hlt
  exact not_faithful o o' (Nat.le_of_not_lt hlt) hf

/-- A packet for a session that has been accepted. -/
theorem faithful_iff_fits_et : Faithful .little .big [0x45, 0x54] ↔ [0x45, 0x54].length < 2 ^ 32 :=
  faithful_iff_fits .little .big (EtcpClient.initial [])
    { EtcpServer.Session.initial with isOpen := true } _ (.inr (by decide))

theorem sends_zeros {client : EtcpClient.State} {n : Nat} (h : client.running = true)
    (hc : client.isConnected = true) (hn : n ≠ 0) :
    client.sendMessage (List.replicate n 0) = true := by
  simp [EtcpClient.State.sendMessage, h, hc, hn]

/-- A connected client accepts 4 GiB of zeros, and the header says that the message is empty. -/
theorem sends_four_gib : ¬ ∀ e request as s pack,
    Run (EtcpClient.step e) Free (EtcpClient.initial request) as s → s.sendMessage pack = true →
      Faithful e.order .little pack := by
  intro h
  have hrun := run_exec (EtcpClient.step ⟨.little, .keep, fun _ => ""⟩) Free (EtcpClient.initial [])
    [.callConnect, .post 0, .run, .connected 0, .run] (by decide)
  have hsend := h _ _ _ _ (List.replicate (2 ^ 32) 0) hrun
    (sends_zeros (by decide) (by decide) (by decide))
  exact not_faithful _ _ (Nat.le_of_eq List.length_replicate.symm) hsend

end Receiver

end NetworkUtility.Etcp
