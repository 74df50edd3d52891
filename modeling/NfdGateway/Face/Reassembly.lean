import NfdGateway.Face.LpFragmenter
import NfdGateway.Face.PartialPackets

/-! Messages on their way to the reassembler: the fragments that are still missing, and the slots
that hold the others. -/
namespace NfdGateway.Face

open List Option Function

variable {H : Type} {isBlock : Bytes → Bool} {nMax : ℕ}

structure Message (isBlock : Bytes → Bool) (nMax : ℕ) (H : Type) where
  endpoint : EndpointId
  first : ℕ
  base : Sequence
  headers : List H
  netPkt : Bytes
  frags : List (LpPacket H)
  isMessage : IsMessage nMax base headers netPkt frags
  isBlock : isBlock netPkt = true

namespace Message

def key (m : Message isBlock nMax H) : Key := (m.endpoint, m.base)

def frag (m : Message isBlock nMax H) (j : ℕ) : LpPacket H := m.frags[j]?.getD {}

variable {m : Message isBlock nMax H} {j : ℕ}

lemma frag_eq (hj : j < m.frags.length) : m.frag j = m.frags[j] := by
  rw [frag, getElem?_eq_getElem hj, getD_some]

lemma getElem?_frag (hj : j < m.frags.length) : m.frags[j]? = some (m.frag j) := by
  rw [frag_eq hj, getElem?_eq_getElem hj]

lemma map_frag (m : Message isBlock nMax H) : (List.range m.frags.length).map m.frag = m.frags := by
  apply ext_getElem?
  intro j
  rcases Nat.lt_or_ge j m.frags.length with hj | hj
  · simp [frag_eq hj, hj]
  · simp [hj]

lemma exists_payload (hj : j < m.frags.length) : ∃ bytes, (m.frag j).fragment = some bytes := by
  obtain ⟨parts, hparts, -⟩ := m.isMessage.payload
  have hmem := mem_of_getElem? (getElem?_frag hj)
  generalize m.frags = frags at hparts hmem
  induction frags generalizing parts with
  | nil => cases hmem
  | cons f frags ih =>
    simp only [mapM_cons, bind_eq_bind, bind_eq_some_iff] at hparts
    obtain ⟨b, hb, rest, hrest, -⟩ := hparts
    rcases mem_cons.mp hmem with hf | hf
    · exact ⟨b, hf ▸ hb⟩
    · exact ih rest hrest hf

end Message

structure Pending (isBlock : Bytes → Bool) (nMax : ℕ) (H : Type) extends
    Message isBlock nMax H where
  missing : List ℕ
  nodup : missing.Nodup
  lt : ∀ j ∈ missing, j < frags.length

namespace Pending

variable {p : Pending isBlock nMax H} {j : ℕ} {pp : PartialPacket H}

def sent (m : Message isBlock nMax H) : Pending isBlock nMax H where
  toMessage := m
  missing := List.range m.frags.length
  nodup := nodup_range
  lt := fun _ hj => mem_range.mp hj

def deliver (p : Pending isBlock nMax H) (j : ℕ) : Pending isBlock nMax H where
  toMessage := p.toMessage
  missing := p.missing.erase j
  nodup := p.nodup.erase j
  lt := fun i hi => p.lt i (mem_of_mem_erase hi)

def slots (p : Pending isBlock nMax H) : List (LpPacket H) :=
  p.frags.mapIdx fun j f => if j ∈ p.missing then {} else f

structure Matches (p : Pending isBlock nMax H) (pp : PartialPacket H) : Prop where
  fragments : pp.fragments = p.slots
  fragCount : pp.fragCount = p.frags.length
  received : pp.nReceivedFragments + p.missing.length = p.frags.length

def HeldBy (p : Pending isBlock nMax H) (r : LpReassembler H) : Prop :=
  match r.partialPackets p.key with
  | none => p.missing.length = p.frags.length
  | some pp => p.Matches pp

lemma mem_missing_of_length (hall : p.missing.length = p.frags.length)
    (hj : j < p.frags.length) : j ∈ p.missing := by
  have hsub : p.missing ⊆ List.range p.frags.length := fun i hi => mem_range.mpr (p.lt i hi)
  have hperm := (subperm_of_subset p.nodup hsub).perm_of_length_le (by simp [hall])
  exact hperm.mem_iff.mpr (mem_range.mpr hj)

lemma matches_fresh (hall : p.missing.length = p.frags.length) :
    p.Matches (PartialPacket.fresh p.frags.length) := by
  refine ⟨?_, rfl, by simp [PartialPacket.fresh, hall]⟩
  apply ext_getElem
  · simp [PartialPacket.fresh, slots]
  intro j hj _
  have hlt : j < p.frags.length := by simpa [PartialPacket.fresh] using hj
  simp [PartialPacket.fresh, slots, mem_missing_of_length hall hlt]

lemma length_deliver (hj : j ∈ p.missing) :
    (p.deliver j).missing.length + 1 = p.missing.length := by
  have hpos := length_pos_of_mem hj
  have hlength := length_erase_of_mem hj
  change (p.missing.erase j).length + 1 = _
  omega

lemma Matches.add (h : p.Matches pp) (hj : j ∈ p.missing) :
    pp.fragments[j]? = some {} ∧ (p.deliver j).Matches (pp.add j (p.frag j)) := by
  have hlt := p.lt j hj
  refine ⟨?_, ?_, h.fragCount, ?_⟩
  · rw [h.fragments, slots, getElem?_mapIdx, Message.getElem?_frag hlt]
    simp [hj]
  · rw [PartialPacket.add, h.fragments]
    apply ext_getElem?
    intro i
    rw [getElem?_set]
    by_cases hij : j = i
    · subst hij
      have hgone : j ∉ p.missing.erase j := p.nodup.not_mem_erase
      simp [slots, deliver, hgone, Message.frag_eq hlt, hlt]
    · rw [if_neg hij]
      simp [slots, deliver, mem_erase_of_ne (Ne.symm hij)]
  · have hreceived := h.received
    have hlength := length_deliver hj
    change pp.nReceivedFragments + 1 + (p.deliver j).missing.length = p.frags.length
    omega

lemma Matches.complete (h : p.Matches pp) (hnil : p.missing = []) :
    pp.nReceivedFragments = pp.fragCount ∧ pp.doReassembly = some p.netPkt ∧
    ∃ first, pp.fragments[0]? = some first ∧ first.headers = p.headers := by
  have hslots : pp.fragments = p.frags := by
    rw [h.fragments]
    apply ext_getElem?
    simp [slots, hnil]
  refine ⟨?_, ?_, p.frag 0, ?_, ?_⟩
  · have hreceived := h.received
    rw [hnil] at hreceived
    rw [h.fragCount]
    exact hreceived
  · obtain ⟨parts, hparts, hflat⟩ := p.isMessage.payload
    rw [PartialPacket.doReassembly, hslots, hparts, map_some, hflat]
  · rw [hslots]
    exact Message.getElem?_frag (Nat.lt_of_lt_of_le Nat.zero_lt_two p.isMessage.two_le)
  · exact p.isMessage.first _
      (Message.getElem?_frag (Nat.lt_of_lt_of_le Nat.zero_lt_two p.isMessage.two_le))

variable {r : LpReassembler H}

lemma HeldBy.receiveFragment (h : p.HeldBy r) (hmax : nMax ≤ r.nMaxFragments) (hj : j ∈ p.missing) :
    ∃ pp, p.Matches pp ∧ r.receiveFragment isBlock p.endpoint (p.frag j) =
      r.addFragment isBlock p.key pp j (p.frag j) := by
  have hlt := p.lt j hj
  obtain ⟨bytes, hbytes⟩ := Message.exists_payload hlt
  obtain ⟨hindex, hcount, hseq⟩ := p.isMessage.fields j _ (Message.getElem?_frag hlt)
  have h2 := p.isMessage.two_le
  have hk := Nat.le_trans p.isMessage.le_max hmax
  have hbase : p.base + BitVec.ofNat 64 j - BitVec.ofNat 64 j = p.base := BitVec.add_sub_cancel ..
  have hkey : (p.endpoint, p.base) = p.key := rfl
  unfold LpReassembler.receiveFragment
  simp only [hbytes, hindex, hcount, hseq, getD_some, hbase, hkey]
  rw [if_neg (by omega), if_neg (by omega), if_neg (by omega)]
  unfold HeldBy at h
  split at h
  next hnone =>
    rw [hnone]
    exact ⟨_, matches_fresh h, if_pos rfl⟩
  rename_i pp hsome
  rw [hsome, getD_some, if_neg (by rw [h.fragCount]; omega), if_neg (not_not.mpr h.fragCount.symm)]
  exact ⟨pp, h, rfl⟩

inductive Delivered (p : Pending isBlock nMax H) : LpReassembler H → Received H → Prop
  | complete {r' : LpReassembler H} {first : LpPacket H} (hnil : p.missing = [])
      (hfirst : first.headers = p.headers) (hgone : r'.partialPackets p.key = none) :
    Delivered p r' (.complete p.netPkt first)
  | waiting {r' : LpReassembler H} (hne : p.missing ≠ []) (hheld : p.HeldBy r') :
    Delivered p r' .incomplete

lemma HeldBy.delivered (h : p.HeldBy r) (hmax : nMax ≤ r.nMaxFragments) (hj : j ∈ p.missing) :
    ∃ r' res, r.receiveFragment isBlock p.endpoint (p.frag j) = some (r', res) ∧
      Delivered (p.deliver j) r' res ∧ r'.nMaxFragments = r.nMaxFragments ∧
      ∀ key, key ≠ p.key → r'.partialPackets key = r.partialPackets key := by
  obtain ⟨pp, hpp, heq⟩ := h.receiveFragment hmax hj
  obtain ⟨hslot, hadd⟩ := hpp.add hj
  have hkeep : ∀ (v : Option (PartialPacket H)) (key : Key), key ≠ p.key →
      update r.partialPackets p.key v key = r.partialPackets key :=
    fun v key hne => update_of_ne hne ..
  rw [heq]
  unfold LpReassembler.addFragment
  rw [hslot]
  change ∃ r' res, (if (pp.add j (p.frag j)).nReceivedFragments =
    (pp.add j (p.frag j)).fragCount then _ else _) = _ ∧ _
  by_cases hnil : (p.deliver j).missing = []
  · obtain ⟨hall, hbytes, first, hfirst, hheaders⟩ := hadd.complete hnil
    rw [if_pos hall]
    unfold PartialPacket.add at hbytes hfirst
    rw [hbytes, hfirst]
    dsimp only
    rw [if_pos (p.deliver j).isBlock]
    refine ⟨_, _, rfl, .complete hnil hheaders ?_, rfl, ?_⟩
    · exact update_self ..
    · intro key hne
      exact (update_of_ne hne ..).trans (hkeep _ key hne)
  have hlt : (pp.add j (p.frag j)).nReceivedFragments ≠
      (pp.add j (p.frag j)).fragCount := by
    have hreceived := hadd.received
    have hpos := length_pos_of_ne_nil hnil
    rw [hadd.fragCount]
    omega
  rw [if_neg hlt]
  refine ⟨_, _, rfl, .waiting hnil ?_, rfl, hkeep _⟩
  change match update r.partialPackets p.key _ p.key with | none => _ | some pp => _
  rw [update_self]
  exact ⟨hadd.fragments, hadd.fragCount, hadd.received⟩

lemma HeldBy.congr {r' : LpReassembler H} (h : p.HeldBy r)
    (hsame : r'.partialPackets p.key = r.partialPackets p.key) : p.HeldBy r' := by
  unfold HeldBy at *
  rwa [hsame]

end Pending

structure LpReassembler.Holds (r : LpReassembler H) (pend : List (Pending isBlock nMax H)) :
    Prop where
  keys : pend.Pairwise fun p q => p.key ≠ q.key
  held : ∀ p ∈ pend, p.HeldBy r
  other : ∀ key, (∀ p ∈ pend, p.key ≠ key) → r.partialPackets key = none

namespace LpReassembler

variable {r : LpReassembler H} {pend pend' : List (Pending isBlock nMax H)}
  {p : Pending isBlock nMax H} {j : ℕ}

lemma Holds.perm (h : r.Holds pend) (hperm : pend.Perm pend') : r.Holds pend' := by
  refine ⟨?_, ?_, ?_⟩
  · exact (hperm.pairwise_iff fun hne => Ne.symm hne).mp h.keys
  · intro p hp
    exact h.held p (hperm.mem_iff.mpr hp)
  · intro key hkey
    exact h.other key fun p hp => hkey p (hperm.mem_iff.mp hp)

lemma Holds.sent {m : Message isBlock nMax H} (h : r.Holds pend)
    (hnew : ∀ p ∈ pend, p.key ≠ m.key) : r.Holds (.sent m :: pend) := by
  refine ⟨pairwise_cons.mpr ⟨fun p hp => Ne.symm (hnew p hp), h.keys⟩, ?_, ?_⟩
  · intro p hp
    rcases mem_cons.mp hp with rfl | hp
    · have hnone : r.partialPackets (Pending.sent m).key = none := h.other m.key hnew
      unfold Pending.HeldBy
      rw [hnone]
      exact length_range
    · exact h.held p hp
  · intro key hkey
    exact h.other key fun p hp => hkey p (.tail _ hp)

lemma Holds.deliver (h : r.Holds (p :: pend)) (hmax : nMax ≤ r.nMaxFragments) (hj : j ∈ p.missing) :
    ∃ r' res, r.receiveFragment isBlock p.endpoint (p.frag j) = some (r', res) ∧
      r'.nMaxFragments = r.nMaxFragments ∧
      ((p.deliver j).missing = [] ∧ r'.Holds pend ∧
          (∃ first, res = .complete p.netPkt first ∧ first.headers = p.headers) ∨
        (p.deliver j).missing ≠ [] ∧ r'.Holds (p.deliver j :: pend) ∧ res = .incomplete) := by
  obtain ⟨r', res, hres, hdelivered, hr', hframe⟩ := (h.held p (.head _)).delivered hmax hj
  obtain ⟨hkeys, hpend⟩ := pairwise_cons.mp h.keys
  have hothers : ∀ q ∈ pend, q.HeldBy r' := fun q hq =>
    (h.held q (.tail _ hq)).congr (hframe q.key (Ne.symm (hkeys q hq)))
  have hnone : ∀ key, key ≠ p.key → (∀ q ∈ pend, q.key ≠ key) → r'.partialPackets key = none := by
    intro key hne hkey
    rw [hframe key hne]
    refine h.other key fun q hq => ?_
    rcases mem_cons.mp hq with rfl | hq
    · exact Ne.symm hne
    · exact hkey q hq
  refine ⟨r', res, hres, hr', ?_⟩
  cases hdelivered with
  | complete hnil hfirst hgone =>
    refine .inl ⟨hnil, ⟨hpend, hothers, ?_⟩, _, rfl, hfirst⟩
    intro key hkey
    by_cases hne : key = p.key
    · rw [hne]
      exact hgone
    · exact hnone key hne hkey
  | waiting hne hheld =>
    refine .inr ⟨hne, ⟨pairwise_cons.mpr ⟨hkeys, hpend⟩, ?_, ?_⟩, rfl⟩
    · intro q hq
      rcases mem_cons.mp hq with rfl | hq
      · exact hheld
      · exact hothers q hq
    · intro key hkey
      exact hnone key (Ne.symm (hkey (p.deliver j) (.head _))) fun q hq => hkey q (.tail _ hq)

lemma receiveFragment_whole {packet : LpPacket H} {netPkt : Bytes}
    (hnet : IsNetPacket packet netPkt) (hblock : isBlock netPkt = true)
    (hmax : 1 ≤ r.nMaxFragments) (ep : EndpointId) :
    r.receiveFragment isBlock ep packet = some (r, .complete netPkt packet) := by
  have hnot : ¬ r.nMaxFragments < 1 := by omega
  simp [receiveFragment, hnet.fragment, hnet.fragIndex, hnet.fragCount, hblock, hnot]

end LpReassembler

end NfdGateway.Face
