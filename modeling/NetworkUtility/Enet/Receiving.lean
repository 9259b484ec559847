import NetworkUtility.Enet.Incoming

/-! What the receiver does with a command that arrives, whichever command it is and however often it
has come before. -/
namespace NetworkUtility.Enet

variable {mtu base n k i m : Nat} {p : List UInt8} {packets done : List (List UInt8)}
  {c d e : IncomingCommand} {r r' : Receiver} {before after : List IncomingCommand} {f : Fragment}
  {command : Command} {memory : Option (List UInt8)}

/-- The receiver has dispatched `done`, the beginning of `packets`. -/
structure Receiving (mtu : Nat) (packets done : List (List UInt8)) (r : Receiver) : Prop where
  storing : Storing mtu packets done r.incomingReliableCommands
  sequence : r.incomingReliableSequenceNumber = total mtu done % 65536
  settled : Settled (total mtu done) r.incomingReliableCommands

/-- The receiver takes the command with the number `n`, and dispatches what that completes. -/
def Takes (mtu : Nat) (packets done : List (List UInt8)) (r : Receiver) (n : Nat) (r' : Receiver) :
    Prop :=
  ∃ out, r'.dispatchedCommands = r.dispatchedCommands ++ out ∧
    Receiving mtu packets (done ++ out) r' ∧
    ∀ m, Covered (total mtu (done ++ out)) r'.incomingReliableCommands m ↔
      Covered (total mtu done) r.incomingReliableCommands m ∨ m = n

/-- What a packet has to meet: `enet_peer_send` checks the first, and the second keeps the first
fragment of a dispatched packet out of the free windows. -/
def Fits (mtu : Nat) (p : List UInt8) : Prop :=
  p.length ≤ maximumPacketSize ∧ commandCount mtu p ≤ 3 * reliableWindowSize

instance (mtu : Nat) (p : List UInt8) : Decidable (Fits mtu p) := inferInstanceAs (Decidable (_ ∧ _))

theorem receiving_init (mtu : Nat) : Receiving mtu [] [] Receiver.init where
  storing := ⟨List.prefix_rfl, fun _ he => absurd he List.not_mem_nil, .nil⟩
  sequence := rfl
  settled _ he := absurd he List.not_mem_nil

theorem Receiving.append (h : Receiving mtu packets done r) (more : List (List UInt8)) :
    Receiving mtu (packets ++ more) done r := ⟨h.storing.append more, h.sequence, h.settled⟩

theorem dispatch_spec (hmtu : headerSize + sendFragmentSize < mtu)
    (h : Storing mtu packets done r.incomingReliableCommands)
    (hseq : r.incomingReliableSequenceNumber = total mtu done % 65536) :
    ∃ out, r.dispatch.dispatchedCommands = r.dispatchedCommands ++ out ∧
      Receiving mtu packets (done ++ out) r.dispatch ∧
      ∀ m, Covered (total mtu (done ++ out)) r.dispatch.incomingReliableCommands m ↔
        Covered (total mtu done) r.incomingReliableCommands m := by
  obtain ⟨out, l', hloop, hst, hset, hcov⟩ := dispatchLoop_spec hmtu h
  have hd : r.dispatch = ⟨total mtu (done ++ out) % 65536, l', r.dispatchedCommands ++ out⟩ := by
    unfold Receiver.dispatch
    rw [hseq, hloop]
  exact ⟨out, by rw [hd], by rw [hd]; exact ⟨hst, rfl, hset⟩, by rw [hd]; exact hcov⟩

theorem dispatch_settled (h : Receiving mtu packets done r) : r.dispatch = r := by
  have hd := dispatchLoop_settled h.storing h.settled
  rw [← h.sequence] at hd
  unfold Receiver.dispatch
  simp only [hd, List.append_nil]

/-! ### Where a command belongs -/

theorem search_spec (h : Receiving mtu packets done r) (hle : total mtu done ≤ n)
    (hlt : n < total mtu done + 65536) :
    (∃ before c after, r.search (n % 65536) = .found before c after ∧
      r.incomingReliableCommands = before ++ c :: after ∧ numberOf (total mtu done) c = n) ∨
    (∃ before after, r.search (n % 65536) = .insert before after ∧
      r.incomingReliableCommands = before ++ after ∧
      (∀ e ∈ before, numberOf (total mtu done) e < n) ∧
      ∀ e ∈ after, n < numberOf (total mtu done) e) := by
  have hspec := searchBack_spec (l := r.incomingReliableCommands.reverse) [] hle hlt
    (fun e he => (h.storing.stored e (List.mem_reverse.mp he)).sequence_lt)
    (by rw [List.reverse_reverse]; exact h.storing.ordered) (by simp)
  rw [List.reverse_reverse, List.append_nil, ← h.sequence] at hspec
  exact hspec

theorem Storing.insert (h : Storing mtu packets done (before ++ after))
    (hbefore : ∀ e ∈ before, numberOf (total mtu done) e < n)
    (hafter : ∀ e ∈ after, n < numberOf (total mtu done) e)
    (he : Stored mtu packets (total mtu done) e) (hn : numberOf (total mtu done) e = n) :
    Storing mtu packets done (before ++ e :: after) ∧
      ∀ m, Covered (total mtu done) (before ++ e :: after) m ↔
        Covered (total mtu done) (before ++ after) m ∨ ∃ i, m = n + i ∧ Has e i := by
  refine ⟨⟨h.begins, fun d hd => ?_, ?_⟩, fun m => ?_⟩
  · rcases List.mem_append.mp hd with hd | hd
    · exact h.stored d (List.mem_append_left _ hd)
    · rcases List.mem_cons.mp hd with rfl | hd
      · exact he
      · exact h.stored d (List.mem_append_right _ hd)
  · obtain ⟨hb, ha, hba⟩ := List.pairwise_append.mp h.ordered
    refine List.pairwise_append.mpr ⟨hb, List.pairwise_cons.mpr ⟨fun d hd => ?_, ha⟩, ?_⟩
    · rw [hn]
      exact hafter d hd
    · intro d hd d' hd'
      rcases List.mem_cons.mp hd' with rfl | hd'
      · rw [hn]
        exact hbefore d hd
      · exact hba d hd d' hd'
  · unfold Covered
    simp only [List.mem_append, List.mem_cons]
    constructor
    · rintro (hle | ⟨d, hd | rfl | hd, i, hi⟩)
      · exact Or.inl (Or.inl hle)
      · exact Or.inl (Or.inr ⟨d, Or.inl hd, i, hi⟩)
      · exact Or.inr ⟨i, hn ▸ hi⟩
      · exact Or.inl (Or.inr ⟨d, Or.inr hd, i, hi⟩)
    · rintro ((hle | ⟨d, hd | hd, i, hi⟩) | ⟨i, hi⟩)
      · exact Or.inl hle
      · exact Or.inr ⟨d, Or.inl hd, i, hi⟩
      · exact Or.inr ⟨d, Or.inr (Or.inr hd), i, hi⟩
      · exact Or.inr ⟨e, Or.inr (Or.inl rfl), i, hn.symm ▸ hi⟩

theorem Storing.replace (h : Storing mtu packets done (before ++ c :: after))
    (hseq : d.reliableSequenceNumber = c.reliableSequenceNumber)
    (hp : Placed mtu packets (numberOf (total mtu done) c) p) (hh : Holds mtu p d)
    (hhas : ∀ j, Has d j ↔ Has c j ∨ j = i) :
    Storing mtu packets done (before ++ d :: after) ∧
      ∀ m, Covered (total mtu done) (before ++ d :: after) m ↔
        Covered (total mtu done) (before ++ c :: after) m ∨
          m = numberOf (total mtu done) c + i := by
  have hnum : numberOf (total mtu done) d = numberOf (total mtu done) c := by
    unfold numberOf
    rw [hseq]
  have hc := h.stored c (by simp)
  refine ⟨⟨h.begins, fun e he => ?_, ?_⟩, fun m => ?_⟩
  · rcases List.mem_append.mp he with he | he
    · exact h.stored e (List.mem_append_left _ he)
    · rcases List.mem_cons.mp he with rfl | he
      · exact ⟨⟨p, hnum ▸ hp, hh⟩, by rw [hseq, hnum]; exact hc.sequence, hnum ▸ hc.ahead,
          hnum ▸ hc.near⟩
      · exact h.stored e (List.mem_append_right _ (List.mem_cons_of_mem _ he))
  · obtain ⟨hb, ha, hba⟩ := List.pairwise_append.mp h.ordered
    obtain ⟨hfirst, ha⟩ := List.pairwise_cons.mp ha
    refine List.pairwise_append.mpr ⟨hb, List.pairwise_cons.mpr ⟨fun e he => ?_, ha⟩, ?_⟩
    · rw [hnum]
      exact hfirst e he
    · intro e he e' he'
      rcases List.mem_cons.mp he' with rfl | he'
      · rw [hnum]
        exact hba e he c List.mem_cons_self
      · exact hba e he e' (List.mem_cons_of_mem _ he')
  · unfold Covered
    simp only [List.mem_append, List.mem_cons]
    constructor
    · rintro (hle | ⟨e, he | rfl | he, j, hm, hj⟩)
      · exact Or.inl (Or.inl hle)
      · exact Or.inl (Or.inr ⟨e, Or.inl he, j, hm, hj⟩)
      · rw [hnum] at hm
        rcases (hhas j).mp hj with hj | rfl
        · exact Or.inl (Or.inr ⟨c, Or.inr (Or.inl rfl), j, hm, hj⟩)
        · exact Or.inr hm
      · exact Or.inl (Or.inr ⟨e, Or.inr (Or.inr he), j, hm, hj⟩)
    · rintro ((hle | ⟨e, he | rfl | he, j, hm, hj⟩) | hm)
      · exact Or.inl hle
      · exact Or.inr ⟨e, Or.inl he, j, hm, hj⟩
      · exact Or.inr ⟨d, Or.inr (Or.inl rfl), j, hnum.symm ▸ hm, (hhas j).mpr (Or.inl hj)⟩
      · exact Or.inr ⟨e, Or.inr (Or.inr he), j, hm, hj⟩
      · exact Or.inr ⟨d, Or.inr (Or.inl rfl), i, hnum.symm ▸ hm, (hhas i).mpr (Or.inr rfl)⟩

/-- A number of the free windows that is not stored gets a new command. -/
theorem queueIncomingCommand_insert {fragmented : Bool} {count : Nat}
    (h : Receiving mtu packets done r) (hk : total mtu done < k)
    (hnear : k / 4096 ≤ total mtu done / 4096 + 6)
    (hsearch : r.search (k % 65536) = .insert before after) (hcount : count ≤ maximumFragmentCount) :
    r.queueIncomingCommand (k % 65536) fragmented memory count =
      memory.map fun data => Receiver.dispatch
        { r with
          incomingReliableCommands :=
            before ++ .create (k % 65536) fragmented count data :: after } := by
  have hwin := (inWindow_ahead (Nat.le_of_lt hk) (by omega)).mpr hnear
  rw [← h.sequence] at hwin
  have hne : k % 65536 ≠ r.incomingReliableSequenceNumber := by
    rw [h.sequence]
    omega
  unfold Receiver.queueIncomingCommand
  simp only [if_neg (not_not.mpr hwin), if_neg hne, hsearch, if_neg (Nat.not_lt.mpr hcount)]
  cases memory <;> rfl

theorem new_stored (hp : Placed mtu packets k p) (hk : total mtu done < k)
    (hnear : k / 4096 ≤ total mtu done / 4096 + 6) (hseq : e.reliableSequenceNumber = k % 65536)
    (hh : Holds mtu p e) :
    Stored mtu packets (total mtu done) e ∧ numberOf (total mtu done) e = k := by
  have hnum : numberOf (total mtu done) e = k := by
    unfold numberOf
    rw [hseq]
    exact Serial.lift_mod (Nat.le_of_lt hk) (by omega)
  exact ⟨⟨⟨p, hnum.symm ▸ hp, hh⟩, by rw [hnum]; exact hseq, hnum.symm ▸ hk, hnum.symm ▸ hnear⟩, hnum⟩

/-- A stored command is that of the packet whose number it has. -/
theorem Receiving.holds (h : Receiving mtu packets done r) (hmtu : headerSize + sendFragmentSize < mtu)
    (hc : c ∈ r.incomingReliableCommands) (hp : Placed mtu packets k p)
    (hn : numberOf (total mtu done) c = k) : Holds mtu p c := by
  obtain ⟨p', hp', hh⟩ := (h.storing.stored c hc).packet
  rw [hn] at hp'
  obtain ⟨-, rfl, -⟩ :=
    hp.unique hp' (commandCount_pos hmtu p) (commandCount_pos hmtu p') rfl
  exact hh

section Handle

variable (hmtu : headerSize + sendFragmentSize < mtu)
include hmtu

/-! ### SEND_RELIABLE -/

theorem handleSendReliable_spec (h : Receiving mtu packets done r) (hp : Placed mtu packets n p)
    (hshort : ¬ fragmentLength mtu < p.length) (hfits : Fits mtu p)
    (hlow : total mtu done / 4096 ≤ n / 4096 + 6) (hhigh : n / 4096 ≤ total mtu done / 4096 + 7) :
    (memory = none ∧ r.handleSendReliable ⟨n % 65536, none, p⟩ memory.isSome = none) ∨
    ∃ r', r.handleSendReliable ⟨n % 65536, none, p⟩ memory.isSome = some r' ∧
      ((r' = r ∧ (r.Acknowledges (n % 65536) →
        Covered (total mtu done) r.incomingReliableCommands n)) ∨
        Takes mtu packets done r n r') := by
  unfold Receiver.handleSendReliable
  rw [if_neg (Nat.not_lt.mpr hfits.1)]
  by_cases hwin : InWindow r.incomingReliableSequenceNumber (n % 65536)
  · rw [h.sequence] at hwin
    have hle : total mtu done ≤ n := by
      by_contra hlt
      exact not_inWindow_behind (by omega) (by omega) hwin
    have hnear := (inWindow_ahead hle (by omega)).mp hwin
    by_cases hlast : n = total mtu done
    · -- the last command dispatched comes again
      refine Or.inr ⟨r, ?_, Or.inl ⟨rfl, fun _ => Or.inl (Nat.le_of_eq hlast)⟩⟩
      unfold Receiver.queueIncomingCommand
      rw [h.sequence, if_neg (not_not.mpr hwin), if_pos (by rw [hlast]), if_neg (Nat.lt_irrefl 0)]
    · have hlt : total mtu done < n := by omega
      rcases search_spec h hle (by omega) with
        ⟨before, c, after, hsearch, hlist, hnum⟩ | ⟨before, after, hsearch, hlist, hb, ha⟩
      · -- stored before
        have hmem : c ∈ r.incomingReliableCommands := by simp [hlist]
        have hh := h.holds hmtu hmem hp hnum
        unfold Holds at hh
        rw [if_neg hshort] at hh
        refine Or.inr ⟨r, ?_, Or.inl ⟨rfl, fun _ =>
          Or.inr ⟨c, hmem, 0, by omega, Or.inl ⟨hh.2.1, rfl⟩⟩⟩⟩
        unfold Receiver.queueIncomingCommand
        have hne : n % 65536 ≠ total mtu done % 65536 := by omega
        rw [hsearch, h.sequence, if_neg (not_not.mpr hwin), if_neg hne, if_neg (Nat.lt_irrefl 0)]
      · rw [queueIncomingCommand_insert h hlt hnear hsearch (Nat.zero_le _)]
        cases memory with
        | none => exact Or.inl ⟨rfl, rfl⟩
        | some data =>
          refine Or.inr ⟨_, rfl, Or.inr ?_⟩
          obtain ⟨hst, hnum⟩ := new_stored (e := .create (n % 65536) false 0 p) hp hlt hnear
            rfl (holds_short _ hshort)
          obtain ⟨hins, hcov⟩ := (hlist ▸ h.storing).insert hb ha hst hnum
          obtain ⟨out, hout, hrec, hcov'⟩ := dispatch_spec (r := { r with
            incomingReliableCommands := before ++ .create (n % 65536) false 0 p :: after })
            hmtu hins h.sequence
          refine ⟨out, hout, hrec, fun m => (hcov' m).trans ?_⟩
          rw [hlist]
          refine (hcov m).trans (or_congr_right ?_)
          constructor
          · rintro ⟨i, rfl, ⟨-, rfl⟩ | hi⟩
            · rfl
            · cases hi
          · rintro rfl
            exact ⟨0, rfl, Or.inl ⟨rfl, rfl⟩⟩
  · -- outside of the free windows: dispatched long ago, or too far ahead to be acknowledged
    refine Or.inr ⟨r, ?_, Or.inl ⟨rfl, fun hack => ?_⟩⟩
    · unfold Receiver.queueIncomingCommand
      rw [if_pos hwin, if_neg (Nat.lt_irrefl 0)]
    · by_cases hle : total mtu done ≤ n
      · rw [acknowledges_ahead h.sequence hle (by omega)] at hack
        rw [h.sequence, inWindow_ahead hle (by omega)] at hwin
        exact absurd hack hwin
      · exact Or.inl (by omega)

/-! ### SEND_FRAGMENT -/

/-- The command with the number `k` is stored, and the fragment is added to it. -/
theorem addFragment_spec (h : Receiving mtu packets done r) (hp : Placed mtu packets k p)
    (hlong : fragmentLength mtu < p.length) (hi : i < fragmentCount mtu p)
    (hlist : r.incomingReliableCommands = before ++ c :: after)
    (hnum : numberOf (total mtu done) c = k) (hf : f.fragmentNumber = i)
    (hoff : f.fragmentOffset = i * fragmentLength mtu) :
    (r.addFragment before c after f (slice mtu p i) = r ∧
        Covered (total mtu done) r.incomingReliableCommands (k + i)) ∨
      Takes mtu packets done r (k + i) (r.addFragment before c after f (slice mtu p i)) := by
  have hmem : c ∈ r.incomingReliableCommands := by simp [hlist]
  have hh := h.holds hmtu hmem hp hnum
  unfold Receiver.addFragment
  rw [hf]
  split
  · next hbit =>
    refine Or.inl ⟨rfl, Or.inr ⟨c, hmem, i, by rw [hnum], Or.inr ?_⟩⟩
    rw [List.getD_eq_getElem?_getD] at hbit
    cases hg : c.fragments[i]? with
    | none => simp [hg] at hbit
    | some b =>
      rw [hg, Option.getD_some] at hbit
      rw [hbit]
  · next hbit =>
    obtain ⟨hfill, hhas⟩ := hh.fill hmtu hlong hi (Bool.eq_false_iff.mpr hbit) hf hoff
    obtain ⟨hst, hcov⟩ := (hlist ▸ h.storing).replace (d := c.fill f (slice mtu p i)) rfl
      (hnum.symm ▸ hp) hfill hhas
    rw [hnum] at hcov
    refine Or.inr ?_
    dsimp only
    split
    · obtain ⟨out, hout, hrec, hcov'⟩ := dispatch_spec (r := { r with
        incomingReliableCommands := before ++ c.fill f (slice mtu p i) :: after })
        hmtu hst h.sequence
      refine ⟨out, hout, hrec, fun m => (hcov' m).trans ?_⟩
      rw [hlist]
      exact hcov m
    · next hleft =>
      refine ⟨[], (List.append_nil _).symm, ?_, fun m => ?_⟩
      · rw [List.append_nil]
        refine ⟨hst, h.sequence, fun e he hnext => ?_⟩
        rcases List.mem_append.mp he with he | he
        · exact h.settled e (hlist ▸ List.mem_append_left _ he) hnext
        · rcases List.mem_cons.mp he with rfl | he
          · omega
          · exact h.settled e (hlist ▸ List.mem_append_right _ (List.mem_cons_of_mem _ he)) hnext
      · rw [List.append_nil, hlist]
        exact hcov m

/-- What `enet_peer_send` puts into the header of a fragment. -/
def fragmentOf (mtu : Nat) (p : List UInt8) (k i : Nat) : Fragment :=
  ⟨k % 65536, fragmentCount mtu p, i, p.length, i * fragmentLength mtu⟩

omit hmtu in
theorem slice_length_le (mtu : Nat) (p : List UInt8) (i : Nat) : (slice mtu p i).length ≤ p.length := by
  simp only [slice, List.length_take, List.length_drop]
  omega

/-- A fragment of a packet that fits passes the checks of its header. -/
theorem fragmentOf_checked (hi : i < fragmentCount mtu p) (hsize : p.length ≤ maximumPacketSize)
    (hcount : fragmentCount mtu p ≤ 3 * 4096) :
    ¬ (maximumFragmentCount < (fragmentOf mtu p k i).fragmentCount ∨
      (fragmentOf mtu p k i).fragmentCount ≤ (fragmentOf mtu p k i).fragmentNumber ∨
      maximumPacketSize < (fragmentOf mtu p k i).totalLength ∨
      (fragmentOf mtu p k i).totalLength ≤ (fragmentOf mtu p k i).fragmentOffset ∨
      (fragmentOf mtu p k i).totalLength - (fragmentOf mtu p k i).fragmentOffset <
        (slice mtu p i).length) := by
  have hend := fragment_end hi hmtu
  have hoff := (lt_fragmentCount_iff hmtu).mp hi
  simp only [fragmentOf, maximumFragmentCount]
  omega

/-- The packet of a fragment that is not refused has not been dispatched: the second of its commands
would be behind the windows. -/
theorem start_ahead (h : Receiving mtu packets done r) (hp : Placed mtu packets k p)
    (hlong : fragmentLength mtu < p.length) (hi : i < fragmentCount mtu p)
    (hcount : fragmentCount mtu p ≤ 3 * 4096)
    (hlow : total mtu done / 4096 ≤ (k + i) / 4096 + 6)
    (hhigh : (k + i) / 4096 ≤ total mtu done / 4096 + 7)
    (hwin : InWindow (total mtu done % 65536) (k % 65536)) :
    total mtu done < k ∧ k / 4096 ≤ total mtu done / 4096 + 6 := by
  have hcc : commandCount mtu p = fragmentCount mtu p := by rw [commandCount, if_pos hlong]
  have hle : total mtu done ≤ k := by
    by_contra hlt
    exact not_inWindow_behind (by omega) (by omega) hwin
  refine ⟨?_, (inWindow_ahead hle (by omega)).mp hwin⟩
  by_contra hge
  have hsecond := hp.dispatched h.storing.begins (by omega) (i := 1)
    (by rw [hcc]; exact fragmentCount_pos hmtu hlong)
  omega

omit hmtu in
/-- Outside of the free windows: dispatched long ago, or too far ahead to be acknowledged. -/
theorem fragment_outside (h : Receiving mtu packets done r) (hp : Placed mtu packets k p)
    (hi : i < commandCount mtu p) (hcount : commandCount mtu p ≤ 3 * 4096)
    (hhigh : (k + i) / 4096 ≤ total mtu done / 4096 + 7)
    (hwin : ¬ InWindow r.incomingReliableSequenceNumber (k % 65536))
    (hack : r.Acknowledges ((k + i) % 65536)) :
    Covered (total mtu done) r.incomingReliableCommands (k + i) := by
  rw [h.sequence] at hwin
  by_cases hle : total mtu done < k
  · rw [inWindow_ahead (Nat.le_of_lt hle) (by omega)] at hwin
    rw [acknowledges_ahead h.sequence (by omega) (by omega)] at hack
    omega
  · exact Or.inl (hp.dispatched h.storing.begins (by omega) hi)

/-- The new `startCommand` of a packet has no fragment, so nothing is dispatched before it is filled. -/
theorem insert_start (h : Receiving mtu packets done r) (hp : Placed mtu packets k p)
    (hlong : fragmentLength mtu < p.length) (hlt : total mtu done < k)
    (hnear : k / 4096 ≤ total mtu done / 4096 + 6)
    (hlist : r.incomingReliableCommands = before ++ after)
    (hb : ∀ d ∈ before, numberOf (total mtu done) d < k)
    (ha : ∀ d ∈ after, k < numberOf (total mtu done) d) {block : List UInt8}
    (hblock : block.length = p.length)
    (he : e = .create (k % 65536) true (fragmentCount mtu p) block) :
    numberOf (total mtu done) e = k ∧
      Receiving mtu packets done { r with incomingReliableCommands := before ++ e :: after } ∧
      ∀ m, Covered (total mtu done) (before ++ e :: after) m ↔
        Covered (total mtu done) r.incomingReliableCommands m := by
  have hmany := fragmentCount_pos hmtu hlong
  have hholds : Holds mtu p e := he ▸ holds_new _ hlong hblock
  obtain ⟨hst, hnum⟩ := new_stored (e := e) hp hlt hnear (by rw [he]; rfl) hholds
  have hempty (j : Nat) : ¬ Has e j := by
    rw [he]
    rintro (⟨hz, -⟩ | hj)
    · simp only [IncomingCommand.create] at hz
      omega
    · simp only [IncomingCommand.create, List.getElem?_replicate] at hj
      split at hj <;> cases hj
  have hleft : 0 < e.fragmentsRemaining := by
    rw [he]
    exact Nat.lt_trans Nat.zero_lt_one hmany
  obtain ⟨hins, hcov⟩ := (hlist ▸ h.storing).insert hb ha hst hnum
  refine ⟨hnum, ⟨hins, h.sequence, fun d hd hnext => ?_⟩, fun m => ?_⟩
  · rcases List.mem_append.mp hd with hd | hd
    · exact h.settled d (hlist ▸ List.mem_append_left _ hd) hnext
    · rcases List.mem_cons.mp hd with rfl | hd
      · exact hleft
      · exact h.settled d (hlist ▸ List.mem_append_right _ hd) hnext
  · rw [hlist]
    refine (hcov m).trans (or_iff_left ?_)
    rintro ⟨j, -, hj⟩
    exact hempty j hj

/-- The first fragment of a packet that comes: its `startCommand` is queued, and found again. -/
theorem handleSendFragment_first (h : Receiving mtu packets done r) (hp : Placed mtu packets k p)
    (hlong : fragmentLength mtu < p.length) (hi : i < fragmentCount mtu p)
    (hcount : fragmentCount mtu p ≤ 3 * 4096) (hlt : total mtu done < k)
    (hnear : k / 4096 ≤ total mtu done / 4096 + 6)
    (hsearch : r.search (k % 65536) = .insert before after)
    (hlist : r.incomingReliableCommands = before ++ after)
    (hb : ∀ d ∈ before, numberOf (total mtu done) d < k)
    (ha : ∀ d ∈ after, k < numberOf (total mtu done) d) (data : List UInt8) :
    ∃ r', ((r.queueIncomingCommand (k % 65536) true
        (some ((data ++ List.replicate p.length 0).take p.length)) (fragmentCount mtu p)).bind fun r =>
        match r.search (k % 65536) with
        | .found before startCommand after =>
          some (r.addFragment before startCommand after (fragmentOf mtu p k i) (slice mtu p i))
        | .insert .. => none) = some r' ∧ Takes mtu packets done r (k + i) r' := by
  have hblock : ((data ++ List.replicate p.length 0).take p.length).length = p.length :=
    List.length_take_of_le (by rw [List.length_append, List.length_replicate]; omega)
  rw [queueIncomingCommand_insert h hlt hnear hsearch (by simp only [maximumFragmentCount]; omega)]
  simp only [Option.map_some, Option.bind_some]
  generalize he : IncomingCommand.create (k % 65536) true (fragmentCount mtu p)
    ((data ++ List.replicate p.length 0).take p.length) = e
  obtain ⟨hnum, hrec, hnone⟩ :=
    insert_start hmtu h hp hlong hlt hnear hlist hb ha hblock he.symm
  rw [dispatch_settled hrec]
  rcases search_spec hrec (Nat.le_of_lt hlt) (by omega) with
    ⟨before', c, after', hsearch', hlist', hnum'⟩ | ⟨before', after', -, hlist', hb', ha'⟩
  · refine ⟨_, by rw [hsearch'], ?_⟩
    rcases addFragment_spec (f := fragmentOf mtu p k i) hmtu hrec hp hlong hi hlist' hnum' rfl rfl with
      ⟨heq, hcov'⟩ | ⟨out, hout, hrec', hcov'⟩
    · rw [heq]
      refine ⟨[], (List.append_nil _).symm, by rwa [List.append_nil], fun m => ?_⟩
      rw [List.append_nil, hnone m]
      exact ⟨Or.inl, fun hm => hm.elim id fun he => he ▸ (hnone _).mp hcov'⟩
    · exact ⟨out, hout, hrec', fun m => (hcov' m).trans (or_congr_left (hnone m))⟩
  · -- the new command has its number
    have hmem : e ∈ before ++ e :: after := List.mem_append_right _ List.mem_cons_self
    have hlist' : before ++ e :: after = before' ++ after' := hlist'
    rw [hlist'] at hmem
    rcases List.mem_append.mp hmem with hm | hm
    · exact absurd (hb' _ hm) (by rw [hnum]; exact Nat.lt_irrefl k)
    · exact absurd (ha' _ hm) (by rw [hnum]; exact Nat.lt_irrefl k)

theorem handleSendFragment_spec (h : Receiving mtu packets done r) (hp : Placed mtu packets k p)
    (hlong : fragmentLength mtu < p.length) (hi : i < fragmentCount mtu p) (hfits : Fits mtu p)
    (hlow : total mtu done / 4096 ≤ (k + i) / 4096 + 6)
    (hhigh : (k + i) / 4096 ≤ total mtu done / 4096 + 7) :
    (memory = none ∧
      r.handleSendFragment (fragmentOf mtu p k i) (slice mtu p i) memory = none) ∨
    ∃ r', r.handleSendFragment (fragmentOf mtu p k i) (slice mtu p i) memory = some r' ∧
      ((r' = r ∧ (r.Acknowledges ((k + i) % 65536) →
        Covered (total mtu done) r.incomingReliableCommands (k + i))) ∨
        Takes mtu packets done r (k + i) r') := by
  obtain ⟨hsize, hcount⟩ := hfits
  have hcc : commandCount mtu p = fragmentCount mtu p := by rw [commandCount, if_pos hlong]
  have hcount' : fragmentCount mtu p ≤ 3 * 4096 := hcc ▸ hcount
  have hstart : (fragmentOf mtu p k i).startSequenceNumber = k % 65536 := rfl
  unfold Receiver.handleSendFragment
  rw [if_neg (Nat.not_lt.mpr ((slice_length_le mtu p i).trans hsize)), hstart]
  by_cases hwin : InWindow r.incomingReliableSequenceNumber (k % 65536)
  · rw [if_neg (not_not.mpr hwin), if_neg (fragmentOf_checked hmtu hi hsize hcount')]
    rw [h.sequence] at hwin
    obtain ⟨hlt, hnear⟩ := start_ahead hmtu h hp hlong hi hcount' hlow hhigh hwin
    rcases search_spec h (Nat.le_of_lt hlt) (by omega) with
      ⟨before, c, after, hsearch, hlist, hnum⟩ | ⟨before, after, hsearch, hlist, hb, ha⟩
    · -- another fragment of the packet has come before
      have hfr := (h.holds hmtu (by simp [hlist]) hp hnum).fragments hlong
      have hsame : ¬ (c.fragmented = false ∨ (fragmentOf mtu p k i).totalLength ≠ c.data.length ∨
          (fragmentOf mtu p k i).fragmentCount ≠ c.fragmentCount) := by
        simp [fragmentOf, hfr.fragmented, hfr.length, hfr.count]
      rw [hsearch]
      refine Or.inr ⟨_, if_neg hsame, ?_⟩
      rcases addFragment_spec (f := fragmentOf mtu p k i) hmtu h hp hlong hi hlist hnum rfl rfl with
        ⟨heq, hcov⟩ | htakes
      · exact Or.inl ⟨heq, fun _ => hcov⟩
      · exact Or.inr htakes
    · rw [hsearch]
      cases memory with
      | none =>
        refine Or.inl ⟨rfl, ?_⟩
        dsimp only
        rw [queueIncomingCommand_insert h hlt hnear hsearch
          (by simp only [fragmentOf, maximumFragmentCount]; omega)]
        rfl
      | some data =>
        obtain ⟨r', heq, htakes⟩ := handleSendFragment_first hmtu h hp hlong hi hcount' hlt hnear
          hsearch hlist hb ha data
        exact Or.inr ⟨r', heq, Or.inr htakes⟩
  · rw [if_pos hwin]
    exact Or.inr ⟨r, rfl, Or.inl ⟨rfl, fragment_outside h hp (hcc ▸ hi) hcount hhigh hwin⟩⟩

end Handle

end NetworkUtility.Enet
