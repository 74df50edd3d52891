import NfdGateway.Face.LpPacket

/-! The fragmenter, and the part of the link service that numbers and sends fragments. -/
namespace NfdGateway.Face

open List Option

variable {H : Type}

def maxSingleFragOverhead : ℕ := (1 + 9) + (1 + 1 + 8) + (1 + 9)

def maxFragOverhead : ℕ := (1 + 9) + (1 + 1 + 8) + (1 + 1 + 8) + (1 + 1 + 8) + (1 + 9)

/-- The loop that populates the fragments, from `fragIndex` on: `frags` are the packets that are
still to be populated, `netPkt` what is left from `fragBegin` on, and `size` the distance to
`fragEnd`. `none` where an index is out of bounds or an assertion fails. -/
def populate (headerSize : H → ℕ) (mtu fragCount payloadSize : ℕ) :
    ℕ → List (LpPacket H) → Bytes → ℕ → Option (List (LpPacket H))
  | _, [], [], _ => some []
  | _, [], _ :: _, _ => none
  | _, _ :: _, [], _ => none
  | fragIndex, frag :: frags, b :: netPkt, size =>
    let frag := { frag with
      fragIndex := some fragIndex
      fragCount := some fragCount
      fragment := some ((b :: netPkt).take size) }
    if frag.wireSize headerSize ≤ mtu then
      (populate headerSize mtu fragCount payloadSize (fragIndex + 1) frags
        ((b :: netPkt).drop size) payloadSize).map (frag :: ·)
    else none

def pieces (payloadSize n : ℕ) : ℕ := n / payloadSize + if n % payloadSize ≠ 0 then 1 else 0

/-- `none` where an assertion fails, `some none` for a packet that is dropped. -/
def fragmentPacket (headerSize : H → ℕ) (nMaxFragments : ℕ) (packet : LpPacket H) (mtu : ℕ) :
    Option (Option (List (LpPacket H))) :=
  match packet.fragment with
  | none => none
  | some netPkt =>
    if packet.fragIndex.isSome || packet.fragCount.isSome then none
    else if maxSingleFragOverhead + packet.wireSize headerSize ≤ mtu then some (some [packet])
    else
      let firstHeaderSize := if packet.isBare then 0 else packet.sizeOfHeaders headerSize
      if mtu < maxFragOverhead + firstHeaderSize + 1 then some none
      else
        let firstPayloadSize := min netPkt.length (mtu - firstHeaderSize - maxFragOverhead)
        let payloadSize := mtu - maxFragOverhead
        let fragCount := 1 + pieces payloadSize (netPkt.length - firstPayloadSize)
        if nMaxFragments < fragCount then some none
        else (populate headerSize mtu fragCount payloadSize 0
          (packet :: List.replicate (fragCount - 1) {}) netPkt firstPayloadSize).map some

def assignSequences : Sequence → List (LpPacket H) → Sequence × List (LpPacket H)
  | lastSeqNo, [] => (lastSeqNo, [])
  | lastSeqNo, pkt :: pkts =>
    let rest := assignSequences (lastSeqNo + 1) pkts
    (rest.1, { pkt with sequence := some (lastSeqNo + 1) } :: rest.2)

structure LinkOptions where
  allowFragmentation : Bool := false
  nMaxFragments : ℕ := 400

/-- `sendNetPacket`: the last sequence number and the packets handed to the transport, whose MTU
is `none` when it is unlimited. -/
def sendNetPacket (headerSize : H → ℕ) (o : LinkOptions) (mtu : Option ℕ) (lastSeqNo : Sequence)
    (pkt : LpPacket H) : Option (Sequence × List (LpPacket H)) :=
  let fragmented :=
    match o.allowFragmentation, mtu with
    | true, some mtu => fragmentPacket headerSize o.nMaxFragments pkt mtu
    | _, _ => some (some [pkt])
  match fragmented with
  | none => none
  | some none => some (lastSeqNo, [])
  | some (some frags) =>
    let isSent (frag : LpPacket H) : Bool := mtu.all fun mtu => frag.wireSize headerSize ≤ mtu
    if 1 < frags.length then
      let r := assignSequences lastSeqNo frags
      some (r.1, r.2.filter isSent)
    else
      match frags with
      | [] => none
      | frag :: _ =>
        if frag.fragIndex.isSome || frag.fragCount.isSome then none
        else some (lastSeqNo, frags.filter isSent)

variable {headerSize : H → ℕ} {mtu nMax fragCount payloadSize : ℕ} {packet : LpPacket H}
  {netPkt : Bytes} {frags : List (LpPacket H)}

lemma pieces_zero (payloadSize : ℕ) : pieces payloadSize 0 = 0 := by
  simp [pieces]

lemma pieces_pos {n : ℕ} (hp : 0 < payloadSize) (hn : 0 < n) :
    pieces payloadSize n = 1 + pieces payloadSize (n - payloadSize) := by
  unfold pieces
  rcases Nat.lt_or_ge n payloadSize with hlt | hge
  · rw [Nat.div_eq_of_lt hlt, Nat.mod_eq_of_lt hlt, Nat.sub_eq_zero_of_le (Nat.le_of_lt hlt)]
    simp [Nat.ne_of_gt hn]
  · rw [Nat.div_eq_sub_div hp hge, Nat.mod_eq_sub_mod hge]
    omega

lemma wireSize_fragment_le {frag : LpPacket H} {size : ℕ} {s : Option Sequence} {i k : Option ℕ}
    {payload : Bytes} (hroom : maxFragOverhead + (frag.headers.map headerSize).sum + size ≤ mtu)
    (hpayload : payload.length ≤ size) :
    LpPacket.wireSize headerSize ⟨s, i, k, frag.headers, some payload⟩ ≤ mtu := by
  have hsize := LpPacket.wireSize_le headerSize ⟨s, i, k, frag.headers, some payload⟩
  have hbound : ∀ o : Option ℕ, (if o.isSome then 10 else 0) ≤ 10 := by
    intro o
    split <;> omega
  have hs : (if s.isSome then 10 else 0) ≤ 10 := by split <;> omega
  have hi := hbound i
  have hk := hbound k
  simp only [map_some, getD_some] at hsize
  unfold maxFragOverhead at hroom
  omega

structure Populated (headerSize : H → ℕ) (mtu fragCount first : ℕ) (frags : List (LpPacket H))
    (netPkt : Bytes) (out : List (LpPacket H)) : Prop where
  length : out.length = frags.length
  fields : ∀ j f, out[j]? = some f → f.fragIndex = some (first + j) ∧ f.fragCount = some fragCount
  fits : ∀ f ∈ out, ∀ s, { f with sequence := s }.wireSize headerSize ≤ mtu
  headers : out.map (·.headers) = frags.map (·.headers)
  payload : ∃ parts, out.mapM LpPacket.fragment = some parts ∧ parts.flatten = netPkt

lemma populate_eq_some {first size : ℕ} (hp : 0 < payloadSize)
    (hroom : maxFragOverhead + payloadSize ≤ mtu) (hsize : 0 < size)
    (hhead : ∀ frag, frags.head? = some frag →
      maxFragOverhead + (frag.headers.map headerSize).sum + size ≤ mtu)
    (htail : ∀ frag ∈ frags.tail, frag.headers = [])
    (hlength : frags.length =
      if netPkt.length = 0 then 0 else 1 + pieces payloadSize (netPkt.length - size)) :
    ∃ out, populate headerSize mtu fragCount payloadSize first frags netPkt size = some out ∧
      Populated headerSize mtu fragCount first frags netPkt out := by
  induction frags generalizing first netPkt size with
  | nil =>
    cases netPkt with
    | nil => exact ⟨[], rfl, rfl, by simp, by simp, rfl, [], rfl, rfl⟩
    | cons b netPkt =>
      simp at hlength
      omega
  | cons frag frags ih =>
    cases netPkt with
    | nil => simp at hlength
    | cons b netPkt =>
      have hfrag := hhead frag rfl
      have hfits : ∀ s : Option Sequence, LpPacket.wireSize headerSize
          ⟨s, some first, some fragCount, frag.headers, some ((b :: netPkt).take size)⟩ ≤ mtu :=
        fun s => wireSize_fragment_le hfrag (length_take_le ..)
      have hrest : frags.length = if ((b :: netPkt).drop size).length = 0 then 0
          else 1 + pieces payloadSize (((b :: netPkt).drop size).length - payloadSize) := by
        have hpieces : frags.length = pieces payloadSize ((b :: netPkt).length - size) := by
          rw [if_neg (by simp), length_cons] at hlength
          omega
        rw [length_drop, hpieces]
        split
        next hzero =>
          rw [hzero, pieces_zero]
        next hpos =>
          exact pieces_pos hp (Nat.pos_of_ne_zero hpos)
      have hhead' : ∀ f, frags.head? = some f →
          maxFragOverhead + (f.headers.map headerSize).sum + payloadSize ≤ mtu := by
        intro f hf
        have hempty := htail f (mem_of_head? hf)
        simpa [hempty] using hroom
      obtain ⟨out, hout, hpop⟩ : ∃ out, populate headerSize mtu fragCount payloadSize (first + 1)
          frags ((b :: netPkt).drop size) payloadSize = some out ∧
          Populated headerSize mtu fragCount (first + 1) frags ((b :: netPkt).drop size) out :=
        ih hp hhead' (fun f hf => htail f (mem_of_mem_tail hf)) hrest
      rw [populate, if_pos (hfits frag.sequence), hout]
      refine ⟨_, rfl, ?_, ?_, ?_, ?_, ?_⟩
      · simp [hpop.length]
      · intro j f hf
        cases j with
        | zero =>
          cases hf
          exact ⟨rfl, rfl⟩
        | succ j =>
          obtain ⟨hindex, hcount⟩ := hpop.fields j f hf
          exact ⟨by rw [hindex]; congr 1; omega, hcount⟩
      · intro f hf
        rcases mem_cons.mp hf with rfl | hf
        · exact hfits
        · exact hpop.fits f hf
      · simp [hpop.headers]
      obtain ⟨parts, hparts, hflat⟩ := hpop.payload
      refine ⟨(b :: netPkt).take size :: parts, ?_, ?_⟩
      · simp [mapM_cons, hparts]
      · rw [flatten_cons, hflat, take_append_drop]

/-- The fragments of a packet: numbered from zero, the headers of the packet on the first, each
within the MTU once it has a sequence number, and together the payload. -/
structure IsFragmented (headerSize : H → ℕ) (nMax mtu : ℕ) (packet : LpPacket H) (netPkt : Bytes)
    (frags : List (LpPacket H)) : Prop where
  two_le : 2 ≤ frags.length
  le_max : frags.length ≤ nMax
  fields : ∀ (j : ℕ) (f : LpPacket H), frags[j]? = some f →
    f.fragIndex = some j ∧ f.fragCount = some frags.length
  fits : ∀ f ∈ frags, ∀ s, { f with sequence := s }.wireSize headerSize ≤ mtu
  first : ∀ f : LpPacket H, frags[0]? = some f → f.headers = packet.headers
  payload : ∃ parts, frags.mapM LpPacket.fragment = some parts ∧ parts.flatten = netPkt

def LpPacket.firstHeaderSize (headerSize : H → ℕ) (packet : LpPacket H) : ℕ :=
  if packet.isBare then 0 else packet.sizeOfHeaders headerSize

lemma sum_headers_le (headerSize : H → ℕ) (packet : LpPacket H) :
    (packet.headers.map headerSize).sum ≤ packet.firstHeaderSize headerSize := by
  unfold LpPacket.firstHeaderSize
  split
  next hbare =>
    have hempty : packet.headers = [] := by
      simp only [LpPacket.isBare, Bool.and_eq_true, List.isEmpty_iff] at hbare
      exact hbare.2
    simp [hempty]
  · unfold LpPacket.sizeOfHeaders
    omega

lemma wireSize_le_firstHeaderSize (headerSize : H → ℕ) (packet : LpPacket H) :
    packet.wireSize headerSize ≤ 20 + packet.firstHeaderSize headerSize +
      (packet.fragment.map List.length).getD 0 := by
  unfold LpPacket.wireSize LpPacket.firstHeaderSize
  dsimp only
  split
  · omega
  have houter := sizeOfElement_le (packet.sizeOfHeaders headerSize +
    sizeOfElement ((packet.fragment.map List.length).getD 0))
  have hinner := sizeOfElement_le ((packet.fragment.map List.length).getD 0)
  omega

lemma exists_isFragmented {first k : ℕ} (hp : 0 < payloadSize) (hfirst : 0 < first)
    (hlt : first < netPkt.length) (hroom : maxFragOverhead + payloadSize ≤ mtu)
    (hhead : maxFragOverhead + (packet.headers.map headerSize).sum + first ≤ mtu)
    (hk : 1 + pieces payloadSize (netPkt.length - first) = k) (hmax : k ≤ nMax) :
    ∃ out, populate headerSize mtu k payloadSize 0 (packet :: List.replicate (k - 1) {}) netPkt
        first = some out ∧ IsFragmented headerSize nMax mtu packet netPkt out := by
  have hmany := pieces_pos hp (Nat.sub_pos_of_lt hlt)
  have hlength : (packet :: List.replicate (k - 1) ({} : LpPacket H)).length = k := by
    rw [length_cons, length_replicate]
    omega
  obtain ⟨out, hout, hpop⟩ : ∃ out, populate headerSize mtu k payloadSize 0
      (packet :: List.replicate (k - 1) {}) netPkt first = some out ∧
      Populated headerSize mtu k 0 (packet :: List.replicate (k - 1) {}) netPkt out := by
    refine populate_eq_some hp hroom hfirst ?_ ?_ ?_
    · intro f hf
      obtain rfl : packet = f := by simpa using hf
      exact hhead
    · intro f hf
      rw [eq_of_mem_replicate hf]
    · rw [hlength, if_neg (by omega), hk]
  have hout_length : out.length = k := hpop.length.trans hlength
  refine ⟨out, hout, by omega, by omega, ?_, hpop.fits, ?_, hpop.payload⟩
  · intro j f hf
    obtain ⟨hj, hcount⟩ := hpop.fields j f hf
    exact ⟨by simpa using hj, hout_length ▸ hcount⟩
  · intro f hf
    have hheaders := congrArg (·[0]?) hpop.headers
    simpa [hf] using hheaders

lemma fragmentPacket_eq (headerSize : H → ℕ) (nMax mtu : ℕ) (hnet : packet.fragment = some netPkt)
    (hindex : packet.fragIndex = none) (hcount : packet.fragCount = none) :
    fragmentPacket headerSize nMax packet mtu =
      if maxSingleFragOverhead + packet.wireSize headerSize ≤ mtu then some (some [packet])
      else if mtu < maxFragOverhead + packet.firstHeaderSize headerSize + 1 then some none
      else
        let first := min netPkt.length (mtu - packet.firstHeaderSize headerSize - maxFragOverhead)
        let fragCount := 1 + pieces (mtu - maxFragOverhead) (netPkt.length - first)
        if nMax < fragCount then some none
        else (populate headerSize mtu fragCount (mtu - maxFragOverhead) 0
          (packet :: List.replicate (fragCount - 1) {}) netPkt first).map some := by
  unfold fragmentPacket
  simp only [hnet, hindex, hcount, isSome_none, Bool.or_self, Bool.false_eq_true, if_false]
  rfl

lemma fragmentPacket_cases (headerSize : H → ℕ) (nMax mtu : ℕ)
    (hnet : packet.fragment = some netPkt)
    (hindex : packet.fragIndex = none) (hcount : packet.fragCount = none) :
    fragmentPacket headerSize nMax packet mtu = some none ∨
    fragmentPacket headerSize nMax packet mtu = some (some [packet]) ∧
      maxSingleFragOverhead + packet.wireSize headerSize ≤ mtu ∨
    ∃ frags, fragmentPacket headerSize nMax packet mtu = some (some frags) ∧
      IsFragmented headerSize nMax mtu packet netPkt frags := by
  have hwire := wireSize_le_firstHeaderSize headerSize packet
  have hheaders := sum_headers_le headerSize packet
  simp only [hnet, map_some, getD_some] at hwire
  rw [fragmentPacket_eq headerSize nMax mtu hnet hindex hcount]
  dsimp only
  split
  next hfast =>
    exact .inr (.inl ⟨rfl, hfast⟩)
  rename_i hslow
  split
  · exact .inl rfl
  rename_i hmtu
  split
  · exact .inl rfl
  rename_i hmax
  refine .inr (.inr ?_)
  generalize hpayload : mtu - maxFragOverhead = payloadSize at hmax ⊢
  generalize hfirst : min netPkt.length (mtu - packet.firstHeaderSize headerSize -
    maxFragOverhead) = first at hmax ⊢
  -- the first fragment cannot take all, since the packet did not fit as it is
  have hsizes : 0 < payloadSize ∧ 0 < first ∧ first < netPkt.length ∧
      maxFragOverhead + payloadSize ≤ mtu ∧
      maxFragOverhead + (packet.headers.map headerSize).sum + first ≤ mtu := by
    unfold maxSingleFragOverhead at hslow
    unfold maxFragOverhead at *
    omega
  obtain ⟨hp, hpos, hlt, hroom, hhead⟩ := hsizes
  obtain ⟨out, hout, hfragmented⟩ := exists_isFragmented hp hpos hlt hroom hhead rfl
    (Nat.le_of_not_lt hmax)
  exact ⟨out, by rw [hout]; rfl, hfragmented⟩

lemma getElem?_assignSequences (lastSeqNo : Sequence) (frags : List (LpPacket H)) (j : ℕ) :
    (assignSequences lastSeqNo frags).2[j]? = frags[j]?.map fun f =>
      { f with sequence := some (lastSeqNo + 1 + BitVec.ofNat 64 j) } := by
  induction frags generalizing lastSeqNo j with
  | nil => rfl
  | cons frag frags ih =>
    cases j with
    | zero => simp [assignSequences]
    | succ j =>
      rw [assignSequences, getElem?_cons_succ, ih, getElem?_cons_succ]
      congr 1
      funext f
      rw [BitVec.ofNat_add, BitVec.add_comm (BitVec.ofNat 64 j), ← BitVec.add_assoc]
      rfl

lemma assignSequences_fst (lastSeqNo : Sequence) (frags : List (LpPacket H)) :
    (assignSequences lastSeqNo frags).1 = lastSeqNo + BitVec.ofNat 64 frags.length := by
  induction frags generalizing lastSeqNo with
  | nil => simp [assignSequences]
  | cons frag frags ih =>
    rw [assignSequences, ih, length_cons, BitVec.ofNat_add,
      BitVec.add_comm (BitVec.ofNat 64 frags.length), ← BitVec.add_assoc]
    rfl

lemma length_assignSequences (lastSeqNo : Sequence) (frags : List (LpPacket H)) :
    (assignSequences lastSeqNo frags).2.length = frags.length := by
  induction frags generalizing lastSeqNo with
  | nil => rfl
  | cons frag frags ih => simp [assignSequences, ih]

lemma payload_assignSequences (lastSeqNo : Sequence) (frags : List (LpPacket H)) :
    (assignSequences lastSeqNo frags).2.mapM LpPacket.fragment =
      frags.mapM LpPacket.fragment := by
  induction frags generalizing lastSeqNo with
  | nil => rfl
  | cons frag frags ih => simp [assignSequences, mapM_cons, ih]

structure IsMessage (nMax : ℕ) (base : Sequence) (headers : List H) (netPkt : Bytes)
    (frags : List (LpPacket H)) : Prop where
  two_le : 2 ≤ frags.length
  le_max : frags.length ≤ nMax
  fields : ∀ (j : ℕ) (f : LpPacket H), frags[j]? = some f → f.fragIndex = some j ∧
    f.fragCount = some frags.length ∧ f.sequence = some (base + BitVec.ofNat 64 j)
  first : ∀ f : LpPacket H, frags[0]? = some f → f.headers = headers
  payload : ∃ parts, frags.mapM LpPacket.fragment = some parts ∧ parts.flatten = netPkt

lemma IsFragmented.assignSequences
    (h : IsFragmented headerSize nMax mtu packet netPkt frags) (lastSeqNo : Sequence) :
    IsMessage nMax (lastSeqNo + 1) packet.headers netPkt (assignSequences lastSeqNo frags).2 := by
  refine ⟨?_, ?_, ?_, ?_, ?_⟩
  · rw [length_assignSequences]
    exact h.two_le
  · rw [length_assignSequences]
    exact h.le_max
  · intro j f hf
    rw [getElem?_assignSequences] at hf
    obtain ⟨f', hf', rfl⟩ := map_eq_some_iff.mp hf
    obtain ⟨hindex, hcount⟩ := h.fields j f' hf'
    rw [length_assignSequences]
    exact ⟨hindex, hcount, rfl⟩
  · intro f hf
    rw [getElem?_assignSequences] at hf
    obtain ⟨f', hf', rfl⟩ := map_eq_some_iff.mp hf
    exact h.first f' hf'
  · rw [payload_assignSequences]
    exact h.payload

/-- A network-layer packet as the link service builds it, with fields for the link layer or
without. -/
structure IsNetPacket (packet : LpPacket H) (netPkt : Bytes) : Prop where
  fragment : packet.fragment = some netPkt
  sequence : packet.sequence = none
  fragIndex : packet.fragIndex = none
  fragCount : packet.fragCount = none

lemma sendNetPacket_cases {o : LinkOptions} (hnet : IsNetPacket packet netPkt)
    (ho : o.allowFragmentation = true)
    (hacc : fragmentPacket headerSize o.nMaxFragments packet mtu = some (some frags))
    (lastSeqNo : Sequence) :
    sendNetPacket headerSize o (some mtu) lastSeqNo packet = some (lastSeqNo, [packet]) ∨
    ∃ msg, sendNetPacket headerSize o (some mtu) lastSeqNo packet =
        some (lastSeqNo + BitVec.ofNat 64 msg.length, msg) ∧
      IsMessage o.nMaxFragments (lastSeqNo + 1) packet.headers netPkt msg := by
  rcases fragmentPacket_cases headerSize o.nMaxFragments mtu
    hnet.fragment hnet.fragIndex hnet.fragCount with hdrop | ⟨hfast, hfits⟩ |
      ⟨frags', hslow, hfrags⟩
  · exact absurd (hdrop.symm.trans hacc) nofun
  · left
    have hwire : packet.wireSize headerSize ≤ mtu := by omega
    simp [sendNetPacket, ho, hfast, hnet.fragIndex, hnet.fragCount, hwire]
  right
  refine ⟨(assignSequences lastSeqNo frags').2, ?_, hfrags.assignSequences lastSeqNo⟩
  have hmany : 1 < frags'.length := hfrags.two_le
  have hall : ∀ f ∈ (assignSequences lastSeqNo frags').2, f.wireSize headerSize ≤ mtu := by
    intro f hf
    obtain ⟨j, hj⟩ := mem_iff_getElem?.mp hf
    rw [getElem?_assignSequences] at hj
    obtain ⟨f', hf', rfl⟩ := map_eq_some_iff.mp hj
    exact hfrags.fits f' (mem_of_getElem? hf') _
  simp only [sendNetPacket, ho, hslow, hmany, if_true, all_some]
  rw [filter_eq_self.mpr (by simpa using hall), length_assignSequences, assignSequences_fst]

end NfdGateway.Face
