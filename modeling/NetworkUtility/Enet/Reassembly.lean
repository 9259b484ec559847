import NetworkUtility.Enet.Layout

/-! A stored command and the packet it stands for: which fragments it has, and that it is the packet
once it has them all. -/
namespace NetworkUtility.Enet

variable {mtu n i j k : Nat} {p d : List UInt8} {e : IncomingCommand}

theorem slice_eq_iff :
    slice mtu d i = slice mtu p i ↔
      ∀ x < fragmentLength mtu,
        d[i * fragmentLength mtu + x]? = p[i * fragmentLength mtu + x]? := by
  unfold slice
  constructor
  · intro h x hx
    have hget := congrArg (fun l => l[x]?) h
    simpa only [List.getElem?_take, if_pos hx, List.getElem?_drop] using hget
  · intro h
    refine List.ext_getElem? fun x => ?_
    rw [List.getElem?_take, List.getElem?_take]
    split
    · next hx =>
      rw [List.getElem?_drop, List.getElem?_drop]
      exact h x hx
    · rfl

/-- The stored command `e` stands for the packet `p`. Where a bit is set its part of the data is that
of the packet. -/
structure Fragments (mtu : Nat) (p : List UInt8) (e : IncomingCommand) : Prop where
  fragmented : e.fragmented = true
  count : e.fragmentCount = fragmentCount mtu p
  bits : e.fragments.length = fragmentCount mtu p
  remaining : e.fragmentsRemaining = e.fragments.count false
  length : e.data.length = p.length
  data : ∀ i, e.fragments[i]? = some true → slice mtu e.data i = slice mtu p i

def Holds (mtu : Nat) (p : List UInt8) (e : IncomingCommand) : Prop :=
  if fragmentLength mtu < p.length then Fragments mtu p e
  else e.fragmented = false ∧ e.fragmentCount = 0 ∧ e.fragmentsRemaining = 0 ∧ e.data = p ∧
    e.fragments = []

/-- The `i`-th command of the packet has come. -/
def Has (e : IncomingCommand) (i : Nat) : Prop :=
  e.fragmentCount = 0 ∧ i = 0 ∨ e.fragments[i]? = some true

theorem Holds.fragments (h : Holds mtu p e) (hlong : fragmentLength mtu < p.length) :
    Fragments mtu p e := by
  unfold Holds at h
  rwa [if_pos hlong] at h

/-- Nothing is missing: the data is the packet, and each of its commands has come. -/
theorem Holds.complete (hmtu : headerSize + sendFragmentSize < mtu) (h : Holds mtu p e)
    (hall : e.fragmentsRemaining = 0) :
    e.data = p ∧ ∀ i < commandCount mtu p, Has e i := by
  unfold Holds at h
  split at h
  · next hlong =>
    have hset (i : Nat) (hi : i < fragmentCount mtu p) : e.fragments[i]? = some true := by
      have hlen : i < e.fragments.length := h.bits ▸ hi
      rw [List.getElem?_eq_getElem hlen]
      rw [h.remaining, List.count_eq_zero] at hall
      cases hb : e.fragments[i] with
      | false => exact absurd (hb ▸ List.getElem_mem hlen) hall
      | true => rfl
    refine ⟨List.ext_getElem? fun x => ?_, fun i hi => ?_⟩
    · by_cases hx : x < p.length
      · have hpos := fragmentLength_pos hmtu
        have hdiv := Nat.div_add_mod' x (fragmentLength mtu)
        have hi : x / fragmentLength mtu < fragmentCount mtu p := by
          rw [lt_fragmentCount_iff hmtu]
          omega
        have hslice := slice_eq_iff.mp (h.data _ (hset _ hi)) _ (Nat.mod_lt x hpos)
        rwa [hdiv] at hslice
      · rw [List.getElem?_eq_none (by rw [h.length]; omega), List.getElem?_eq_none (by omega)]
    · rw [commandCount, if_pos hlong] at hi
      exact Or.inr (hset i hi)
  · next hshort =>
    obtain ⟨-, hcount, -, hdata, -⟩ := h
    refine ⟨hdata, fun i hi => ?_⟩
    rw [commandCount, if_neg hshort] at hi
    exact Or.inl ⟨hcount, by omega⟩

/-- A packet all of whose commands have come misses none. -/
theorem Holds.remaining_zero (h : Holds mtu p e) (hall : ∀ i < commandCount mtu p, Has e i) :
    e.fragmentsRemaining = 0 := by
  unfold Holds at h
  split at h
  · next hlong =>
    rw [h.remaining, List.count_eq_zero]
    intro hmem
    obtain ⟨i, hi, hfalse⟩ := List.getElem_of_mem hmem
    have hcount : i < commandCount mtu p := by
      rw [commandCount, if_pos hlong, ← h.bits]
      exact hi
    rcases hall i hcount with ⟨hz, -⟩ | hbit
    · have hbits := h.bits
      rw [← h.count, hz] at hbits
      omega
    · rw [List.getElem?_eq_getElem hi, hfalse] at hbit
      cases hbit
  · exact h.2.2.1

/-- Only commands of the packet come. -/
theorem Holds.lt_count (h : Holds mtu p e) (hi : Has e i) (hcount : 0 < commandCount mtu p) :
    i < commandCount mtu p := by
  rcases hi with ⟨-, rfl⟩ | hi
  · exact hcount
  · unfold Holds at h
    split at h
    · next hlong =>
      rw [commandCount, if_pos hlong, ← h.bits]
      exact (List.getElem?_eq_some_iff.mp hi).1
    · rw [h.2.2.2.2] at hi
      cases hi

/-- What a new command stores: of a short packet everything, of a long one nothing yet. -/
theorem holds_short (q : Nat) (hshort : ¬ fragmentLength mtu < p.length) :
    Holds mtu p (.create q false 0 p) := by
  unfold Holds
  rw [if_neg hshort]
  exact ⟨rfl, rfl, rfl, rfl, rfl⟩

theorem holds_new (q : Nat) (hlong : fragmentLength mtu < p.length) (hd : d.length = p.length) :
    Holds mtu p (.create q true (fragmentCount mtu p) d) := by
  unfold Holds
  rw [if_pos hlong]
  refine ⟨rfl, rfl, List.length_replicate, List.count_replicate_self.symm, hd, fun i hi => ?_⟩
  simp only [IncomingCommand.create, List.getElem?_replicate] at hi
  split at hi <;> cases hi

theorem fragment_end (h : i < fragmentCount mtu p) (hmtu : headerSize + sendFragmentSize < mtu) :
    i * fragmentLength mtu + (slice mtu p i).length ≤ p.length := by
  have hoff := (lt_fragmentCount_iff hmtu).mp h
  simp only [slice, List.length_take, List.length_drop]
  omega

/-- Copying keeps what stands outside of the copied range. -/
theorem splice_getElem? (d new : List UInt8) (off x : Nat) (h : off + new.length ≤ d.length) :
    (d.take off ++ new ++ d.drop (off + new.length))[x]? =
      if off ≤ x ∧ x < off + new.length then new[x - off]? else d[x]? := by
  have htake : (d.take off).length = off := List.length_take_of_le (by omega)
  by_cases hlow : x < off
  · rw [List.append_assoc, List.getElem?_append_left (by omega), List.getElem?_take, if_pos hlow,
      if_neg (by omega)]
  · by_cases hhigh : x < off + new.length
    · rw [List.getElem?_append_left (by rw [List.length_append]; omega),
        List.getElem?_append_right (by omega), htake, if_pos ⟨by omega, hhigh⟩]
    · rw [List.getElem?_append_right (by rw [List.length_append]; omega), List.getElem?_drop,
        if_neg (by omega), List.length_append, htake]
      congr 1
      omega

/-- A fragment sets its bit and brings its part of the packet. -/
theorem Holds.fill (hmtu : headerSize + sendFragmentSize < mtu) (h : Holds mtu p e)
    (hlong : fragmentLength mtu < p.length) (hi : i < fragmentCount mtu p)
    (hnew : e.fragments.getD i false = false) {f : Fragment} (hnum : f.fragmentNumber = i)
    (hoff : f.fragmentOffset = i * fragmentLength mtu) :
    Holds mtu p (e.fill f (slice mtu p i)) ∧
      ∀ j, Has (e.fill f (slice mtu p i)) j ↔ Has e j ∨ j = i := by
  have hfr := h.fragments hlong
  have hpos := fragmentCount_pos hmtu hlong
  have hlen : i < e.fragments.length := hfr.bits ▸ hi
  have hend := fragment_end hi hmtu
  have hcut : (if e.data.length < f.fragmentOffset + (slice mtu p i).length then
      e.data.length - f.fragmentOffset else (slice mtu p i).length) = (slice mtu p i).length := by
    rw [if_neg (by rw [hfr.length, hoff]; omega)]
  have hdata : (e.fill f (slice mtu p i)).data = e.data.take (i * fragmentLength mtu) ++
      slice mtu p i ++ e.data.drop (i * fragmentLength mtu + (slice mtu p i).length) := by
    simp only [IncomingCommand.fill, hcut]
    rw [List.take_length, hoff]
  have hbit : e.fragments[i] = false := by
    rwa [List.getD_eq_getElem?_getD, List.getElem?_eq_getElem hlen] at hnew
  have hbits (j : Nat) : (e.fragments.set i true)[j]? = some true ↔
      e.fragments[j]? = some true ∨ j = i := by
    rw [List.getElem?_set]
    by_cases hj : i = j
    · subst hj
      simp [hlen]
    · rw [if_neg hj]
      constructor
      · exact Or.inl
      · rintro (hb | rfl)
        · exact hb
        · exact absurd rfl hj
  refine ⟨?_, fun j => ?_⟩
  · unfold Holds
    rw [if_pos hlong]
    refine ⟨hfr.fragmented, hfr.count, ?_, ?_, ?_, fun j hj => ?_⟩
    · simp only [IncomingCommand.fill, List.length_set]
      exact hfr.bits
    · simp only [IncomingCommand.fill, hnum, List.count_set hlen, hbit, hfr.remaining]
      simp
    · rw [hdata, ← hfr.length]
      simp only [List.length_append, List.length_take, List.length_drop, hfr.length]
      omega
    · simp only [IncomingCommand.fill, hnum] at hj
      rw [hdata, slice_eq_iff]
      intro x hx
      rw [splice_getElem? _ _ _ _ (by rw [hfr.length]; exact hend)]
      rcases (hbits j).mp hj with hj | rfl
      · -- another fragment: the copy has gone elsewhere, or brought the same
        split
        · next hin =>
          simp only [slice, List.getElem?_take, List.getElem?_drop] at hin ⊢
          rw [if_pos]
          · congr 1
            omega
          · have := (List.length_take_le (fragmentLength mtu)
              (p.drop (i * fragmentLength mtu)))
            omega
        · exact slice_eq_iff.mp (hfr.data j hj) x hx
      · split
        · next hin =>
          simp only [slice, List.getElem?_take, List.getElem?_drop]
          rw [if_pos (by omega)]
          congr 1
          omega
        · next hout =>
          have hshort : p.length ≤ j * fragmentLength mtu + x := by
            simp only [slice, List.length_take, List.length_drop] at hout
            omega
          rw [List.getElem?_eq_none (by rw [hfr.length]; exact hshort),
            List.getElem?_eq_none hshort]
  · unfold Has
    simp only [IncomingCommand.fill, hnum, hbits]
    tauto

end NetworkUtility.Enet
