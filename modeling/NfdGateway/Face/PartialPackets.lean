import NfdGateway.Face.LpReassembler

/-! What the reassembler keeps true of its partial packets, whatever it receives. -/
namespace NfdGateway.Face

open Transition List Option Function

variable {H : Type} {isBlock : Bytes → Bool} {r r' : LpReassembler H} {key : Key}
  {pp : PartialPacket H} {packet : LpPacket H} {ep : EndpointId} {i nMax : ℕ} {res : Received H}

structure PartialPacket.Slots (nMax : ℕ) (pp : PartialPacket H) : Prop where
  size : pp.fragments.length = pp.fragCount
  two_le : 2 ≤ pp.fragCount
  le_max : pp.fragCount ≤ nMax
  received : pp.nReceivedFragments = pp.fragments.countP fun frag => frag.sequence.isSome
  payload : ∀ frag ∈ pp.fragments, frag.sequence.isSome = true → frag.fragment.isSome = true

namespace PartialPacket

def fresh (fragCount : ℕ) : PartialPacket H where
  fragments := List.replicate fragCount {}
  fragCount := fragCount

def add (pp : PartialPacket H) (i : ℕ) (packet : LpPacket H) : PartialPacket H :=
  { pp with
    fragments := pp.fragments.set i packet
    nReceivedFragments := pp.nReceivedFragments + 1 }

lemma slots_fresh {fragCount : ℕ} (h2 : 2 ≤ fragCount) (hmax : fragCount ≤ nMax) :
    Slots nMax (fresh fragCount : PartialPacket H) := by
  refine ⟨length_replicate, h2, hmax, ?_, ?_⟩
  · simp [fresh, countP_replicate]
  intro frag hfrag hseq
  rw [eq_of_mem_replicate hfrag] at hseq
  cases hseq

lemma Slots.add {slot : LpPacket H} (h : pp.Slots nMax) (hslot : pp.fragments[i]? = some slot)
    (hempty : slot.sequence.isSome = false) (hseq : packet.sequence.isSome = true)
    (hfrag : packet.fragment.isSome = true) : (pp.add i packet).Slots nMax := by
  obtain ⟨hlt, rfl⟩ := List.getElem?_eq_some_iff.mp hslot
  refine ⟨?_, h.two_le, h.le_max, ?_, ?_⟩
  · rw [PartialPacket.add, length_set]
    exact h.size
  · have hreceived := h.received
    simp only [PartialPacket.add, countP_set hlt, hempty, hseq, if_true, Bool.false_eq_true,
      if_false]
    omega
  · intro frag hmem
    rcases mem_or_eq_of_mem_set hmem with hold | rfl
    · exact h.payload frag hold
    · exact fun _ => hfrag

lemma Slots.all_filled (h : pp.Slots nMax) (hall : pp.nReceivedFragments = pp.fragCount) :
    ∀ frag ∈ pp.fragments, frag.sequence.isSome = true := by
  rw [h.received, ← h.size] at hall
  exact countP_eq_length.mp hall

lemma Slots.nReceived_le (h : pp.Slots nMax) : pp.nReceivedFragments ≤ pp.fragCount := by
  rw [h.received, ← h.size]
  exact countP_le_length

lemma Slots.doReassembly (h : pp.Slots nMax) (hall : pp.nReceivedFragments = pp.fragCount) :
    ∃ bytes first, pp.doReassembly = some bytes ∧ pp.fragments[0]? = some first := by
  have hpayload : ∀ frag ∈ pp.fragments, frag.fragment.isSome = true :=
    fun frag hfrag => h.payload frag hfrag (h.all_filled hall frag hfrag)
  have hmap : ∃ l, pp.fragments.mapM LpPacket.fragment = some l := by
    clear h hall
    generalize pp.fragments = frags at hpayload
    induction frags with
    | nil => exact ⟨[], rfl⟩
    | cons frag frags ih =>
      obtain ⟨b, hb⟩ := isSome_iff_exists.mp (hpayload frag (.head _))
      obtain ⟨l, hl⟩ := ih fun frag hfrag => hpayload frag (.tail _ hfrag)
      exact ⟨b :: l, by simp [mapM_cons, hb, hl]⟩
  obtain ⟨l, hl⟩ := hmap
  have hlt : 0 < pp.fragments.length := by
    have h2 := h.two_le
    rw [h.size]
    omega
  exact ⟨l.flatten, _, by rw [PartialPacket.doReassembly, hl]; rfl, getElem?_eq_getElem hlt⟩

end PartialPacket

/-! ### What receiving a packet does -/

structure LpReassembler.Fills (r : LpReassembler H) (ep : EndpointId) (packet : LpPacket H)
    (key : Key) (pp : PartialPacket H) : Prop where
  slots : pp.Slots r.nMaxFragments
  pos : 1 ≤ pp.nReceivedFragments
  first : r.partialPackets key = none → pp.nReceivedFragments = 1
  timer : pp.dropTimer = (r.partialPackets key).bind fun pp => pp.dropTimer
  endpoint : key.1 = ep
  many : packet.fragCount.getD 1 ≠ 1
  mem : packet ∈ pp.fragments

inductive LpReassembler.Outcome (isBlock : Bytes → Bool) (r : LpReassembler H) (ep : EndpointId)
    (packet : LpPacket H) : LpReassembler H → Received H → Prop
  | dropped : Outcome isBlock r ep packet r .incomplete
  | whole {payload : Bytes} (hcount : packet.fragCount.getD 1 = 1)
      (hpayload : packet.fragment = some payload) :
    Outcome isBlock r ep packet r (.complete payload packet)
  | notBlock (hcount : packet.fragCount.getD 1 = 1) : Outcome isBlock r ep packet r .malformed
  | added {key : Key} {pp : PartialPacket H} (hfills : r.Fills ep packet key pp)
      (hlt : pp.nReceivedFragments < pp.fragCount) :
    Outcome isBlock r ep packet (r.setDropTimer key pp) .incomplete
  | completed {key : Key} {pp : PartialPacket H} {bytes : Bytes} {first : LpPacket H}
      (hfills : r.Fills ep packet key pp) (hall : pp.nReceivedFragments = pp.fragCount)
      (hbytes : pp.doReassembly = some bytes) (hfirst : pp.fragments[0]? = some first)
      (hblock : isBlock bytes = true) :
    Outcome isBlock r ep packet ((r.store key pp).erase key) (.complete bytes first)
  | stuck {key : Key} {pp : PartialPacket H} {bytes : Bytes} (hfills : r.Fills ep packet key pp)
      (hall : pp.nReceivedFragments = pp.fragCount) (hbytes : pp.doReassembly = some bytes)
      (hblock : isBlock bytes = false) :
    Outcome isBlock r ep packet (r.store key pp) .malformed

namespace LpReassembler

lemma store_self (h : r.partialPackets key = some pp) : r.store key pp = r := by
  unfold store
  rw [← h, update_eq_self]

lemma addFragment_outcome (h : pp.Slots r.nMaxFragments)
    (htimer : pp.dropTimer = (r.partialPackets key).bind fun pp => pp.dropTimer)
    (hsame : r.partialPackets key = some pp ∨ pp.nReceivedFragments = 0) (hep : key.1 = ep)
    (hi : i < pp.fragCount) (hmany : packet.fragCount.getD 1 ≠ 1)
    (hseq : packet.sequence.isSome = true) (hfrag : packet.fragment.isSome = true) :
    ∃ r' res, r.addFragment isBlock key pp i packet = some (r', res) ∧
      Outcome isBlock r ep packet r' res := by
  have hlt : i < pp.fragments.length := h.size ▸ hi
  have hslot := getElem?_eq_getElem hlt
  unfold addFragment
  rw [hslot]
  dsimp only
  split
  next hfilled =>
    rcases hsame with hsame | hzero
    · exact ⟨_, _, rfl, (store_self hsame).symm ▸ .dropped⟩
    -- a fresh partial packet has no filled slot
    have hnone := h.received.symm.trans hzero
    exact absurd hfilled (countP_eq_zero.mp hnone _ (getElem_mem hlt))
  rename_i hempty
  have hadd := h.add hslot (eq_false_of_ne_true hempty) hseq hfrag
  have hfirst : r.partialPackets key = none → (pp.add i packet).nReceivedFragments = 1 := by
    intro hnone
    rcases hsame with hsame | hzero
    · exact absurd (hsame.symm.trans hnone) nofun
    · exact congrArg (· + 1) hzero
  have hfills : r.Fills ep packet key (pp.add i packet) :=
    ⟨hadd, Nat.le_add_left 1 _, hfirst, htimer, hep, hmany, mem_set hlt packet⟩
  split
  next hall =>
    obtain ⟨bytes, first, hbytes, hfirst⟩ := hadd.doReassembly hall
    unfold PartialPacket.add at hbytes hfirst
    rw [hbytes, hfirst]
    dsimp only
    split
    next hblock =>
      exact ⟨_, _, rfl, .completed hfills hall hbytes hfirst hblock⟩
    next hblock =>
      exact ⟨_, _, rfl, .stuck hfills hall hbytes (eq_false_of_ne_true hblock)⟩
  next hall =>
    exact ⟨_, _, rfl, .added hfills (Nat.lt_of_le_of_ne hadd.nReceived_le hall)⟩

lemma receiveFragment_outcome (isBlock : Bytes → Bool)
    (h : ∀ key pp, r.partialPackets key = some pp → pp.Slots r.nMaxFragments)
    (hfrag : packet.fragment.isSome = true) (ep : EndpointId) :
    ∃ r' res, r.receiveFragment isBlock ep packet = some (r', res) ∧
      Outcome isBlock r ep packet r' res := by
  obtain ⟨payload, hpayload⟩ := isSome_iff_exists.mp hfrag
  unfold receiveFragment
  rw [hpayload]
  dsimp only
  split
  · exact ⟨_, _, rfl, .dropped⟩
  rename_i hindex
  split
  · exact ⟨_, _, rfl, .dropped⟩
  rename_i hmax
  split
  next hone =>
    refine ⟨_, _, rfl, ?_⟩
    split
    · exact .whole hone.2 hpayload
    · exact .notBlock hone.2
  rename_i hone
  have hmany : packet.fragCount.getD 1 ≠ 1 := by
    intro hcount
    exact hone ⟨by omega, hcount⟩
  split
  · exact ⟨_, _, rfl, .dropped⟩
  rename_i sequence hseq
  have hseq' : packet.sequence.isSome = true := by rw [hseq]; rfl
  generalize hkey : (ep, sequence - BitVec.ofNat 64 (packet.fragIndex.getD 0)) = key
  have hep : key.1 = ep := hkey ▸ rfl
  cases hpp : r.partialPackets key with
  | none =>
    have hfresh : PartialPacket.Slots r.nMaxFragments
        (.fresh (packet.fragCount.getD 1) : PartialPacket H) :=
      PartialPacket.slots_fresh (by omega) (by omega)
    exact addFragment_outcome hfresh (by rw [hpp]; rfl) (.inr rfl) hep (by
      change _ < packet.fragCount.getD 1
      omega) hmany hseq' hfrag
  | some pp =>
    have hslots := h key pp hpp
    have h2 := hslots.two_le
    rw [getD_some, if_neg (by omega)]
    split
    · exact ⟨_, _, rfl, .dropped⟩
    rename_i hcount
    exact addFragment_outcome hslots (by rw [hpp]; rfl) (.inl hpp) hep (by omega) hmany hseq' hfrag

/-! ### The invariant -/

structure WellFormed (r : LpReassembler H) : Prop where
  slots : ∀ key pp, r.partialPackets key = some pp → pp.Slots r.nMaxFragments
  pos : ∀ key pp, r.partialPackets key = some pp → 1 ≤ pp.nReceivedFragments
  timer : ∀ key pp, r.partialPackets key = some pp → ∃ id, pp.dropTimer = some id
  scheduled : ∀ id key, r.scheduled id = some key ↔
    ∃ pp, r.partialPackets key = some pp ∧ pp.dropTimer = some id
  fresh : ∀ id ≥ r.nextEvent, r.scheduled id = none

lemma WellFormed.empty (nMax : ℕ) : ({ nMaxFragments := nMax } : LpReassembler H).WellFormed := by
  refine ⟨?_, ?_, ?_, ?_, ?_⟩
  · intro key pp h
    cases h
  · intro key pp h
    cases h
  · intro key pp h
    cases h
  · intro id key
    refine iff_of_false nofun ?_
    rintro ⟨pp, h, -⟩
    cases h
  · intro id _
    rfl

lemma WellFormed.replace {o : Option (PartialPacket H)} (h : r.WellFormed)
    (hmax : r'.nMaxFragments = r.nMaxFragments)
    (hkept : r'.partialPackets = update r.partialPackets key o)
    (ho : ∀ pp, o = some pp → pp.Slots r.nMaxFragments ∧ 1 ≤ pp.nReceivedFragments ∧
      ∃ id, pp.dropTimer = some id)
    (hscheduled : ∀ id key', r'.scheduled id = some key' ↔
      key' ≠ key ∧ r.scheduled id = some key' ∨
        key' = key ∧ ∃ pp, o = some pp ∧ pp.dropTimer = some id)
    (hfresh : ∀ id ≥ r'.nextEvent, r'.scheduled id = none) : r'.WellFormed := by
  have hcases : ∀ key' pp, r'.partialPackets key' = some pp →
      key' ≠ key ∧ r.partialPackets key' = some pp ∨ key' = key ∧ o = some pp := by
    intro key' pp hpp
    rw [hkept] at hpp
    by_cases hkey : key' = key
    · rw [hkey, update_self] at hpp
      exact .inr ⟨hkey, hpp⟩
    · rw [update_of_ne hkey] at hpp
      exact .inl ⟨hkey, hpp⟩
  refine ⟨?_, ?_, ?_, ?_, hfresh⟩
  · intro key' pp hpp
    rw [hmax]
    rcases hcases key' pp hpp with ⟨-, hold⟩ | ⟨-, hnew⟩
    · exact h.slots key' pp hold
    · exact (ho pp hnew).1
  · intro key' pp hpp
    rcases hcases key' pp hpp with ⟨-, hold⟩ | ⟨-, hnew⟩
    · exact h.pos key' pp hold
    · exact (ho pp hnew).2.1
  · intro key' pp hpp
    rcases hcases key' pp hpp with ⟨-, hold⟩ | ⟨-, hnew⟩
    · exact h.timer key' pp hold
    · exact (ho pp hnew).2.2
  intro id key'
  rw [hscheduled, hkept]
  by_cases hkey : key' = key
  · simp [hkey]
  · rw [update_of_ne hkey, h.scheduled]
    simp [hkey]

section

variable (h : r.WellFormed)
include h

lemma WellFormed.scheduled_cancel (key : Key) (id : EventId) (key' : Key) :
    (r.cancel ((r.partialPackets key).bind fun pp => pp.dropTimer)).scheduled id = some key' ↔
      key' ≠ key ∧ r.scheduled id = some key' := by
  have hevent : r.scheduled id = some key' →
      ((r.partialPackets key).bind (fun pp => pp.dropTimer) = some id ↔ key' = key) := by
    intro hid
    obtain ⟨pp, hpp, htimer⟩ := (h.scheduled id key').mp hid
    constructor
    · intro hbind
      obtain ⟨pp', hpp', htimer'⟩ := bind_eq_some_iff.mp hbind
      exact some.inj (hid.symm.trans ((h.scheduled id key).mpr ⟨pp', hpp', htimer'⟩))
    · rintro rfl
      exact bind_eq_some_iff.mpr ⟨pp, hpp, htimer⟩
  simp only [cancel]
  split
  next hbind =>
    exact iff_of_false nofun fun hid => hid.1 ((hevent hid.2).mp hbind)
  next hbind =>
    exact ⟨fun hid => ⟨fun hkey => hbind ((hevent hid).mpr hkey), hid⟩, fun hid => hid.2⟩

lemma WellFormed.fresh_cancel (event : Option EventId) :
    ∀ id ≥ r.nextEvent, (r.cancel event).scheduled id = none := by
  intro id hid
  simp only [cancel]
  split
  · rfl
  · exact h.fresh id hid

lemma WellFormed.erase (key : Key) : (r.erase key).WellFormed := by
  refine h.replace rfl rfl nofun ?_ (h.fresh_cancel _)
  intro id key'
  exact (h.scheduled_cancel key id key').trans (by simp)

lemma WellFormed.setDropTimer (hfills : r.Fills ep packet key pp) :
    (r.setDropTimer key pp).WellFormed := by
  have hnone := h.fresh r.nextEvent (Nat.le_refl _)
  -- the event that is cancelled is not the new one
  have hold : pp.dropTimer ≠ some r.nextEvent := by
    intro htimer
    obtain ⟨pp₀, hpp₀, hid⟩ := bind_eq_some_iff.mp (hfills.timer.symm.trans htimer)
    exact absurd (hnone.symm.trans ((h.scheduled _ key).mpr ⟨pp₀, hpp₀, hid⟩)) nofun
  have hscheduled : ∀ id, (r.setDropTimer key pp).scheduled id =
      if id = r.nextEvent then some key else (r.cancel pp.dropTimer).scheduled id := by
    intro id
    simp only [LpReassembler.setDropTimer, LpReassembler.store, cancel]
    by_cases hid : id = r.nextEvent
    · rw [hid, if_neg hold, update_self, if_pos rfl]
    · rw [update_of_ne hid, if_neg hid]
  refine h.replace rfl rfl ?_ ?_ ?_
  · rintro _ ⟨⟩
    exact ⟨⟨hfills.slots.1, hfills.slots.2, hfills.slots.3, hfills.slots.4, hfills.slots.5⟩,
      hfills.pos, _, rfl⟩
  · intro id key'
    rw [hscheduled, hfills.timer]
    split
    next hid =>
      simp [hid, hnone, eq_comm]
    rename_i hid
    rw [h.scheduled_cancel]
    simp [Ne.symm hid]
  · intro id hid
    have hid' : r.nextEvent + 1 ≤ id := hid
    rw [hscheduled, if_neg (Nat.ne_of_gt hid')]
    exact h.fresh_cancel _ id (Nat.le_of_succ_le hid')

lemma WellFormed.store (hfills : r.Fills ep packet key pp)
    (hall : pp.nReceivedFragments = pp.fragCount) : (r.store key pp).WellFormed := by
  obtain ⟨pp₀, hpp₀⟩ : ∃ pp₀, r.partialPackets key = some pp₀ := by
    cases hpp : r.partialPackets key with
    | some pp₀ => exact ⟨pp₀, rfl⟩
    | none =>
      have hone := hfills.first hpp
      have h2 := hfills.slots.two_le
      omega
  have htimer : pp.dropTimer = pp₀.dropTimer := by rw [hfills.timer, hpp₀]; rfl
  refine h.replace rfl rfl ?_ ?_ h.fresh
  · rintro _ ⟨⟩
    exact ⟨hfills.slots, hfills.pos, htimer ▸ h.timer key pp₀ hpp₀⟩
  intro id key'
  change r.scheduled id = some key' ↔ _
  by_cases hkey : key' = key
  · rw [hkey, h.scheduled, hpp₀]
    simp [htimer]
  · simp [hkey]

end

/-! ### Runs -/

structure Completes (r : LpReassembler H) (ep : EndpointId) (packet : LpPacket H)
    (pp : PartialPacket H) : Prop where
  stored : ∃ sequence, packet.sequence = some sequence ∧
    r.partialPackets (ep, sequence - BitVec.ofNat 64 (packet.fragIndex.getD 0)) = some pp
  count : packet.fragCount.getD 1 = pp.fragCount
  missing : ∃ slot, pp.fragments[packet.fragIndex.getD 0]? = some slot ∧ slot.sequence = none
  last : pp.nReceivedFragments + 1 = pp.fragCount

def CompletesBlock (isBlock : Bytes → Bool) (r : LpReassembler H) : Event H → Prop
  | .receive ep packet => ∀ pp bytes, r.Completes ep packet pp →
      (pp.add (packet.fragIndex.getD 0) packet).doReassembly = some bytes → isBlock bytes = true
  | .dropTimer _ => True

lemma Completes.malformed {bytes : Bytes} (h : r.Completes ep packet pp)
    (hslots : pp.Slots r.nMaxFragments) (hfrag : packet.fragment.isSome = true)
    (hbytes : (pp.add (packet.fragIndex.getD 0) packet).doReassembly = some bytes)
    (hblock : isBlock bytes = false) :
    ∃ r', r.receiveFragment isBlock ep packet = some (r', .malformed) := by
  obtain ⟨sequence, hseq, hpp⟩ := h.stored
  obtain ⟨slot, hslot, hempty⟩ := h.missing
  obtain ⟨payload, hpayload⟩ := isSome_iff_exists.mp hfrag
  obtain ⟨hlt, -⟩ := List.getElem?_eq_some_iff.mp hslot
  have hsize := hslots.size
  have h2 := hslots.two_le
  have hmax := hslots.le_max
  obtain ⟨first, hfirst⟩ : ∃ first,
      (pp.fragments.set (packet.fragIndex.getD 0) packet)[0]? = some first := by
    refine ⟨_, getElem?_eq_getElem ?_⟩
    rw [length_set]
    omega
  rw [PartialPacket.add, h.last] at hbytes
  unfold receiveFragment addFragment
  simp only [hpayload, h.count, hseq, hpp, getD_some, hslot, hempty, isSome_none,
    Bool.false_eq_true, if_false, ne_eq, not_true_eq_false, h.last, if_true, hbytes, hfirst, hblock]
  rw [if_neg (by omega), if_neg (by omega), if_neg (by omega), if_neg (by omega)]
  exact ⟨_, rfl⟩

lemma addFragment_malformed (h : r.addFragment isBlock key pp i packet = some (r', .malformed)) :
    (∃ slot, pp.fragments[i]? = some slot ∧ slot.sequence = none) ∧
      pp.nReceivedFragments + 1 = pp.fragCount ∧
      ∃ bytes, (pp.add i packet).doReassembly = some bytes ∧ isBlock bytes = false := by
  unfold addFragment at h
  split at h
  · cases h
  rename_i slot hslot
  split at h
  · cases h
  rename_i hempty
  dsimp only at h
  split at h
  next hall =>
    split at h
    next bytes first hbytes _ =>
      split at h
      · cases h
      rename_i hblock
      exact ⟨⟨slot, hslot, not_isSome_iff_eq_none.mp hempty⟩, hall, bytes, hbytes,
        eq_false_of_ne_true hblock⟩
    · cases h
  · cases h

lemma completes_of_malformed
    (hslots : ∀ key pp, r.partialPackets key = some pp → pp.Slots r.nMaxFragments)
    (h : r.receiveFragment isBlock ep packet = some (r', .malformed))
    (hmany : packet.fragCount.getD 1 ≠ 1) :
    ∃ pp bytes, r.Completes ep packet pp ∧
      (pp.add (packet.fragIndex.getD 0) packet).doReassembly = some bytes ∧
      isBlock bytes = false := by
  unfold receiveFragment at h
  split at h
  · cases h
  dsimp only at h
  split at h
  · cases h
  split at h
  · cases h
  split at h
  next hone =>
    exact absurd hone.2 hmany
  split at h
  · cases h
  rename_i sequence hseq
  cases hpp : r.partialPackets (ep, sequence - BitVec.ofNat 64 (packet.fragIndex.getD 0)) with
  | none =>
    rw [hpp, getD_none, if_pos rfl] at h
    -- a fresh partial packet lacks more than one fragment
    have hlast : 0 + 1 = packet.fragCount.getD 1 := (addFragment_malformed h).2.1
    omega
  | some pp =>
    have h2 := (hslots _ pp hpp).two_le
    rw [hpp, getD_some, if_neg (by omega)] at h
    split at h
    · cases h
    rename_i hcount
    obtain ⟨hmissing, hlast, bytes, hbytes, hblock⟩ := addFragment_malformed h
    exact ⟨pp, bytes, ⟨⟨sequence, hseq, hpp⟩, not_not.mp hcount, hmissing, hlast⟩, hbytes, hblock⟩

lemma completesBlock_iff
    (hslots : ∀ key pp, r.partialPackets key = some pp → pp.Slots r.nMaxFragments)
    (hfrag : packet.fragment.isSome = true)
    (h : r.receiveFragment isBlock ep packet = some (r', res)) :
    CompletesBlock isBlock r (.receive ep packet) ↔
      (res = .malformed → packet.fragCount.getD 1 = 1) := by
  constructor
  · rintro hok rfl
    by_contra hmany
    obtain ⟨pp, bytes, hcompletes, hbytes, hblock⟩ := completes_of_malformed hslots h hmany
    exact absurd (hblock.symm.trans (hok pp bytes hcompletes hbytes)) nofun
  intro hres pp bytes hcompletes hbytes
  refine eq_true_of_ne_false fun hblock => ?_
  obtain ⟨sequence, -, hpp⟩ := hcompletes.stored
  have hpp := hslots _ pp hpp
  obtain ⟨r₁, hmalformed⟩ := hcompletes.malformed hpp hfrag hbytes hblock
  have hone := hres (Prod.mk.inj (some.inj (h.symm.trans hmalformed))).2
  have h2 := hpp.two_le
  have hcount := hcompletes.count
  omega

def Unfinished (r : LpReassembler H) : Prop :=
  ∀ key pp, r.partialPackets key = some pp → pp.nReceivedFragments < pp.fragCount

lemma WellFormed.outcome (h : r.WellFormed)
    (ho : Outcome isBlock r ep packet r' res) : r'.WellFormed := by
  cases ho with
  | dropped | whole | notBlock => exact h
  | added hfills _ => exact h.setDropTimer hfills
  | completed hfills hall _ _ _ => exact (h.store hfills hall).erase _
  | stuck hfills hall _ _ => exact h.store hfills hall

lemma Unfinished.outcome (h : r.Unfinished) (ho : Outcome isBlock r ep packet r' res) :
    r'.Unfinished ↔ (res = .malformed → packet.fragCount.getD 1 = 1) := by
  -- one key gets another partial packet, or none
  have hupdate : ∀ {key : Key} {o : Option (PartialPacket H)},
      (∀ pp, o = some pp → pp.nReceivedFragments < pp.fragCount) →
      ∀ key' pp, update r.partialPackets key o key' = some pp →
        pp.nReceivedFragments < pp.fragCount := by
    intro key o hnew key' pp hpp
    by_cases hkey : key' = key
    · rw [hkey, update_self] at hpp
      exact hnew pp hpp
    · rw [update_of_ne hkey] at hpp
      exact h key' pp hpp
  cases ho with
  | dropped | whole => exact iff_of_true h nofun
  | notBlock hcount => exact iff_of_true h fun _ => hcount
  | @added key pp _ hlt =>
    refine iff_of_true (hupdate ?_) nofun
    rintro _ ⟨⟩
    exact hlt
  | @completed key pp =>
    refine iff_of_true ?_ nofun
    intro key' pp' hpp'
    change update (update r.partialPackets key (some pp)) key none key' = some pp' at hpp'
    rw [update_idem] at hpp'
    exact hupdate (o := none) nofun key' pp' hpp'
  | @stuck key pp _ hfills hall =>
    refine iff_of_false ?_ fun hcount => hfills.many (hcount rfl)
    intro hunfinished
    have hlt := hunfinished key pp (update_self ..)
    omega

lemma WellFormed.timeoutPartialPacket {id : EventId} (h : r.WellFormed)
    (hid : r.scheduled id = some key) :
    (r.cancel (some id)).timeoutPartialPacket key = r.erase key := by
  obtain ⟨pp, hpp, htimer⟩ := (h.scheduled id key).mp hid
  unfold LpReassembler.timeoutPartialPacket LpReassembler.erase
  simp only [hpp, bind_some, htimer, cancel]
  congr 1
  funext id'
  split <;> rfl

def Sound (r : LpReassembler H) : Prop :=
  ∀ key pp, r.partialPackets key = some pp → pp.Slots r.nMaxFragments ∧
    1 ≤ pp.nReceivedFragments ∧ pp.nReceivedFragments ≤ pp.fragCount - 1 ∧
    ∃! id, r.scheduled id = some key

lemma WellFormed.sound_iff (h : r.WellFormed) : r.Sound ↔ r.Unfinished := by
  constructor
  · intro hs key pp hpp
    obtain ⟨hslots, -, hle, -⟩ := hs key pp hpp
    have h2 := hslots.two_le
    omega
  intro hu key pp hpp
  have hlt := hu key pp hpp
  obtain ⟨id, hid⟩ := h.timer key pp hpp
  refine ⟨h.slots key pp hpp, h.pos key pp hpp, by omega, id,
    (h.scheduled id key).mpr ⟨pp, hpp, hid⟩, ?_⟩
  intro id' hid'
  obtain ⟨pp', hpp', hid'⟩ := (h.scheduled id' key).mp hid'
  obtain rfl : pp = pp' := some.inj (hpp.symm.trans hpp')
  exact some.inj (hid'.symm.trans hid)

lemma wellFormed_step {ev : Event H} (hw : r.WellFormed) (hu : r.Unfinished)
    (hok : CompletesBlock isBlock r ev) (hs : step isBlock r ev = some r') :
    r'.WellFormed ∧ r'.Unfinished := by
  cases ev with
  | receive ep packet =>
    obtain ⟨⟨r₁, res⟩, hreceive, rfl⟩ := map_eq_some_iff.mp hs
    have hfrag : packet.fragment.isSome = true := by
      cases hpayload : packet.fragment with
      | some payload => rfl
      | none => simp [receiveFragment, hpayload] at hreceive
    obtain ⟨r₂, res', heq, ho⟩ := receiveFragment_outcome isBlock hw.slots hfrag ep
    obtain ⟨rfl, rfl⟩ := Prod.mk.inj (some.inj (hreceive.symm.trans heq))
    exact ⟨hw.outcome ho, (hu.outcome ho).mpr ((completesBlock_iff hw.slots hfrag heq).mp hok)⟩
  | dropTimer id =>
    obtain ⟨key, hid, hs⟩ := bind_eq_some_iff.mp hs
    cases hs
    rw [hw.timeoutPartialPacket hid]
    refine ⟨hw.erase key, ?_⟩
    intro key' pp hpp
    change update r.partialPackets key none key' = some pp at hpp
    by_cases hkey : key' = key
    · rw [hkey, update_self] at hpp
      cases hpp
    · rw [update_of_ne hkey] at hpp
      exact hu key' pp hpp

/-- As long as every partial packet that is completed can be decoded, all partial packets are
sound, and it takes a completed one that cannot to change this. Whatever comes in, no index is out
of bounds, and a packet is returned only when all its fragments are there. -/
theorem partial_packets_sound (isBlock : Bytes → Bool) (nMax : ℕ)
    (h : Reach (step isBlock) (CompletesBlock isBlock) { nMaxFragments := nMax } r) :
    r.Sound ∧ ∀ ep packet, packet.fragment.isSome = true →
      ∃ r' res, r.receiveFragment isBlock ep packet = some (r', res) ∧
        (r'.Sound ↔ CompletesBlock isBlock r (.receive ep packet)) ∧
        ∀ bytes first, res = .complete bytes first →
          packet.fragCount.getD 1 = 1 ∧ packet.fragment = some bytes ∧ first = packet ∨
          ∃ key pp, r.Fills ep packet key pp ∧
            (∀ frag ∈ pp.fragments, frag.sequence.isSome = true) ∧
            pp.doReassembly = some bytes ∧ pp.fragments[0]? = some first := by
  obtain ⟨hw, hu⟩ : r.WellFormed ∧ r.Unfinished := by
    refine h.invariant (I := fun r => r.WellFormed ∧ r.Unfinished) ⟨.empty nMax, ?_⟩ ?_
    · intro key pp hpp
      cases hpp
    · intro r ev r' hI hok hs
      exact wellFormed_step hI.1 hI.2 hok hs
  refine ⟨hw.sound_iff.mpr hu, ?_⟩
  intro ep packet hfrag
  obtain ⟨r', res, heq, ho⟩ := receiveFragment_outcome isBlock hw.slots hfrag ep
  refine ⟨r', res, heq, ?_, ?_⟩
  · rw [(hw.outcome ho).sound_iff, hu.outcome ho, completesBlock_iff hw.slots hfrag heq]
  rintro bytes first rfl
  cases ho with
  | whole hcount hpayload => exact .inl ⟨hcount, hpayload, rfl⟩
  | @completed key pp _ _ hfills hall hbytes hfirst =>
    exact .inr ⟨key, pp, hfills, hfills.slots.all_filled hall, hbytes, hfirst⟩

/-- The first of two fragments waits for the second. -/
theorem partial_packets_sound_first :
    ∃ r : LpReassembler Unit, Reach (step isElement) (CompletesBlock isElement) {} r ∧
      (r.partialPackets (1, 10)).isSome = true ∧ r.Sound := by
  obtain ⟨r, hreach, hsome⟩ : ∃ r : LpReassembler Unit,
      Reach (step isElement) (CompletesBlock isElement) {} r ∧
        (r.partialPackets (1, 10)).isSome = true := by
    refine ⟨_, .step (a := .receive 1 ⟨some 10, some 0, some 2, [], some [6]⟩) .init ?_ rfl, rfl⟩
    rintro pp bytes ⟨⟨sequence, -, hpp⟩, -⟩
    cases hpp
  exact ⟨r, hreach, hsome, (partial_packets_sound isElement 400 hreach).1⟩

/-- Two fragments whose bytes together are no TLV element: all slots are filled, and the partial
packet is still there. -/
theorem complete_packet_kept :
    ∃ r : LpReassembler Unit, Reach (step isElement) Any {} r ∧
      ∃ pp, r.partialPackets (1, 10) = some pp ∧ pp.nReceivedFragments = pp.fragCount ∧
        ¬ r.Sound := by
  have hrun : ∃ r, run (step isElement) ({} : LpReassembler Unit)
      [.receive 1 ⟨some 10, some 0, some 2, [], some [6]⟩,
        .receive 1 ⟨some 11, some 1, some 2, [], some [9]⟩] = some r ∧
      ∃ pp, r.partialPackets (1, 10) = some pp ∧ pp.nReceivedFragments = pp.fragCount :=
    ⟨_, rfl, _, rfl, rfl⟩
  obtain ⟨r, hrun, pp, hpp, hall⟩ := hrun
  refine ⟨r, reach_of_run .init hrun, pp, hpp, hall, ?_⟩
  intro hsound
  obtain ⟨hslots, -, hle, -⟩ := hsound (1, 10) pp hpp
  have h2 := hslots.two_le
  omega

end LpReassembler

end NfdGateway.Face
