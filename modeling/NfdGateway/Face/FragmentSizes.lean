import NfdGateway.Face.LpFragmenter

/-! The sizes of what the fragmenter returns, and when it gives up. -/
namespace NfdGateway.Face

open List Option

variable {H : Type} {headerSize : H → ℕ} {mtu nMax fragCount payloadSize : ℕ}
  {packet : LpPacket H} {netPkt : Bytes} {frags out : List (LpPacket H)}

lemma wireSize_with_sequence_le (hindex : packet.fragIndex = none)
    (hcount : packet.fragCount = none) (s : Sequence) :
    { packet with sequence := some s }.wireSize headerSize ≤
      maxSingleFragOverhead + packet.wireSize headerSize := by
  have hsize := LpPacket.wireSize_le headerSize { packet with sequence := some s }
  simp only [hindex, hcount, isSome_none, isSome_some, Bool.false_eq_true, if_false,
    if_true] at hsize ⊢
  have hwire : (packet.headers.map headerSize).sum + (packet.fragment.map List.length).getD 0 ≤
      packet.wireSize headerSize := by
    have hheaders := sum_headers_le headerSize packet
    unfold LpPacket.firstHeaderSize at hheaders
    unfold LpPacket.wireSize
    dsimp only
    split
    next hbare =>
      rw [if_pos hbare] at hheaders
      omega
    rename_i hbare
    rw [if_neg hbare] at hheaders
    unfold sizeOfElement
    omega
  unfold maxSingleFragOverhead
  omega

lemma populate_nonempty {first size : ℕ} (hp : 0 < payloadSize) (hsize : 0 < size)
    (h : populate headerSize mtu fragCount payloadSize first frags netPkt size = some out) :
    ∀ f ∈ out, ∃ payload, f.fragment = some payload ∧ payload ≠ [] := by
  induction frags generalizing first netPkt size out with
  | nil =>
    cases netPkt with
    | nil =>
      cases h
      exact nofun
    | cons b netPkt => cases h
  | cons frag frags ih =>
    cases netPkt with
    | nil => cases h
    | cons b netPkt =>
      rw [populate] at h
      split at h
      · obtain ⟨rest, hrest, rfl⟩ := map_eq_some_iff.mp h
        intro f hf
        rcases mem_cons.mp hf with rfl | hf
        · refine ⟨_, rfl, ?_⟩
          simp [Nat.ne_of_gt hsize]
        · exact ih hp hrest f hf
      · cases h

lemma pieces_le_iff (hp : 0 < payloadSize) {n k : ℕ} :
    pieces payloadSize n ≤ k ↔ n ≤ k * payloadSize := by
  have hdiv := Nat.div_add_mod n payloadSize
  have hlt := Nat.mod_lt n hp
  unfold pieces
  constructor
  · intro h
    have hmul := Nat.mul_le_mul_right payloadSize h
    split at hmul
    · rw [Nat.add_mul, Nat.mul_comm (n / payloadSize)] at hmul
      omega
    · rw [Nat.add_mul, Nat.mul_comm (n / payloadSize)] at hmul
      omega
  intro h
  split
  next hne =>
    by_contra hnot
    have hk : k ≤ n / payloadSize := by omega
    have hmul := Nat.mul_le_mul_left payloadSize hk
    rw [Nat.mul_comm payloadSize k] at hmul
    omega
  · have hk := Nat.div_le_of_le_mul (Nat.mul_comm k payloadSize ▸ h)
    omega

def fragmentRoom (headerSize : H → ℕ) (packet : LpPacket H) (mtu k : ℕ) : ℕ :=
  (mtu - packet.firstHeaderSize headerSize - maxFragOverhead) + (k - 1) * (mtu - maxFragOverhead)

/-- There is no room for one octet after the headers of the first fragment, or no number of
fragments that is allowed has room for the payload. -/
def CannotFragment (headerSize : H → ℕ) (nMax mtu : ℕ) (packet : LpPacket H) (n : ℕ) : Prop :=
  mtu < maxFragOverhead + packet.firstHeaderSize headerSize + 1 ∨
    ∀ k, 1 ≤ k → k ≤ nMax → fragmentRoom headerSize packet mtu k < n

lemma fragCount_le_iff {a b n k : ℕ} (hb : 0 < b) (hk : 1 ≤ k) :
    1 + pieces b (n - min n a) ≤ k ↔ n ≤ a + (k - 1) * b := by
  have hiff : pieces b (n - min n a) ≤ k - 1 ↔ n - min n a ≤ (k - 1) * b := pieces_le_iff hb
  constructor
  · intro h
    omega
  · intro h
    omega

lemma fragmentPacket_dropped_iff (hnet : packet.fragment = some netPkt)
    (hindex : packet.fragIndex = none) (hcount : packet.fragCount = none) :
    fragmentPacket headerSize nMax packet mtu = some none ↔
      mtu < maxSingleFragOverhead + packet.wireSize headerSize ∧
        CannotFragment headerSize nMax mtu packet netPkt.length := by
  rw [fragmentPacket_eq headerSize nMax mtu hnet hindex hcount, CannotFragment]
  dsimp only
  split
  next hfast =>
    exact iff_of_false (by simp) fun h => absurd h.1 (by omega)
  rename_i hslow
  rw [and_iff_right (Nat.lt_of_not_le hslow)]
  split
  next hmtu =>
    exact iff_of_true rfl (.inl hmtu)
  rename_i hmtu
  have hb : 0 < mtu - maxFragOverhead := by omega
  split
  next hmax =>
    refine iff_of_true rfl (.inr fun k hk hkmax => ?_)
    by_contra hroom
    have hle := (fragCount_le_iff hb hk).mpr (Nat.le_of_not_lt hroom)
    omega
  rename_i hmax
  refine iff_of_false (by simp [map_eq_some_iff]) ?_
  rintro (hsmall | hroom)
  · exact hmtu hsmall
  have hone : 1 ≤ nMax := by omega
  have hle := (fragCount_le_iff hb hone).mp (Nat.le_of_not_lt hmax)
  have hlt := hroom nMax hone (Nat.le_refl nMax)
  unfold fragmentRoom at hlt
  omega

lemma fragmentPacket_nonempty (hnet : packet.fragment = some netPkt) (hne : netPkt ≠ [])
    (hindex : packet.fragIndex = none) (hcount : packet.fragCount = none)
    (h : fragmentPacket headerSize nMax packet mtu = some (some frags)) :
    ∀ f ∈ frags, ∃ payload, f.fragment = some payload ∧ payload ≠ [] := by
  rw [fragmentPacket_eq headerSize nMax mtu hnet hindex hcount] at h
  dsimp only at h
  split at h
  · obtain rfl := some.inj (some.inj h)
    intro f hf
    rw [mem_singleton.mp hf]
    exact ⟨netPkt, hnet, hne⟩
  split at h
  · cases h
  rename_i hmtu
  split at h
  · cases h
  obtain ⟨out, hout, hsame⟩ := map_eq_some_iff.mp h
  cases hsame
  have hpos := length_pos_of_ne_nil hne
  exact populate_nonempty (by omega) (by omega) hout

/-- What the fragmenter returns fits into the MTU with a sequence number, and is the packet as it
is or numbered fragments that make it up. It gives up exactly if the packet does not fit as it is
and cannot be cut into as many fragments as are allowed. -/
theorem fragments_fit_mtu (headerSize : H → ℕ) (nMax mtu : ℕ)
    (hnet : packet.fragment = some netPkt) (hne : netPkt ≠ [])
    (hindex : packet.fragIndex = none) (hcount : packet.fragCount = none) :
    (∀ frags, fragmentPacket headerSize nMax packet mtu = some (some frags) →
      (∀ f ∈ frags, ∀ s : Sequence, { f with sequence := some s }.wireSize headerSize ≤ mtu) ∧
      (∀ f ∈ frags, ∃ payload, f.fragment = some payload ∧ payload ≠ []) ∧
      (frags = [packet] ∨ IsFragmented headerSize nMax mtu packet netPkt frags)) ∧
    (fragmentPacket headerSize nMax packet mtu = some none ↔
      mtu < maxSingleFragOverhead + packet.wireSize headerSize ∧
        CannotFragment headerSize nMax mtu packet netPkt.length) ∧
    fragmentPacket headerSize nMax packet mtu ≠ none := by
  have hcases := fragmentPacket_cases headerSize nMax mtu hnet hindex hcount
  refine ⟨fun frags h => ⟨?_, fragmentPacket_nonempty hnet hne hindex hcount h, ?_⟩,
    fragmentPacket_dropped_iff hnet hindex hcount, ?_⟩
  · rcases hcases with hdrop | ⟨hfast, hroom⟩ | ⟨frags', hslow, hfrags⟩
    · rw [hdrop] at h
      cases h
    · obtain rfl : [packet] = frags := some.inj (some.inj (hfast.symm.trans h))
      intro f hf s
      rw [mem_singleton.mp hf]
      exact Nat.le_trans (wireSize_with_sequence_le hindex hcount s) hroom
    · obtain rfl := some.inj (some.inj (hslow.symm.trans h))
      exact fun f hf s => hfrags.fits f hf (some s)
  · rcases hcases with hdrop | ⟨hfast, -⟩ | ⟨frags', hslow, hfrags⟩
    · rw [hdrop] at h
      cases h
    · exact .inl (some.inj (some.inj (h.symm.trans hfast)))
    · obtain rfl := some.inj (some.inj (hslow.symm.trans h))
      exact .inr hfrags
  · rcases hcases with hdrop | ⟨hfast, -⟩ | ⟨frags', hslow, -⟩
    · simp [hdrop]
    · simp [hfast]
    · simp [hslow]

/-- An MTU of 55 octets and a payload of 60: five octets go into each fragment. -/
theorem fragments_fit_mtu_twelve :
    let packet : LpPacket ℕ := { fragment := some (List.replicate 60 0) }
    ∃ frags, fragmentPacket id 400 packet 55 = some (some frags) ∧ frags.length = 12 ∧
      ∀ f ∈ frags, ∀ s : Sequence, { f with sequence := some s }.wireSize id ≤ 55 := by
  have hsome : ∃ frags, fragmentPacket (id : ℕ → ℕ) 400
      { fragment := some (List.replicate 60 0) } 55 = some (some frags) ∧ frags.length = 12 :=
    ⟨_, rfl, rfl⟩
  obtain ⟨frags, hfrags, hlen⟩ := hsome
  exact ⟨frags, hfrags, hlen,
    ((fragments_fit_mtu id 400 55 rfl (by decide) rfl rfl).1 frags hfrags).1⟩

end NfdGateway.Face
