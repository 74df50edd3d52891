import NfdGateway.Face.Reassembly

/-! Link services at different endpoints that send to one reassembler.

Fragments are delivered once each, in any order, between any two packets that are sent. -/
namespace NfdGateway.Face

open Transition List Function

variable {H : Type} {headerSize : H → ℕ} {options : EndpointId → LinkOptions}
  {isBlock : Bytes → Bool} {nMax : ℕ}

/-- An LP packet handed to the transport, and how many fragments its sender had numbered before
its message. -/
structure InFlight (H : Type) where
  endpoint : EndpointId
  packet : LpPacket H
  first : ℕ

abbrev NetPacket (H : Type) := EndpointId × Bytes × List H

structure Link (H : Type) where
  lastSeqNo : EndpointId → Sequence
  /-- How many fragments the service has numbered. No step looks at it. -/
  numbered : EndpointId → ℕ := fun _ => 0
  inFlight : List (InFlight H) := []
  reassembler : LpReassembler H := {}
  returned : List (NetPacket H) := []

namespace Link

inductive Event (H : Type)
  | send (endpoint : EndpointId) (mtu : ℕ) (packet : LpPacket H)
  | deliver (i : ℕ)

def send (headerSize : H → ℕ) (o : LinkOptions) (s : Link H) (endpoint : EndpointId) (mtu : ℕ)
    (packet : LpPacket H) : Option (Link H) :=
  (sendNetPacket headerSize o (some mtu) (s.lastSeqNo endpoint) packet).map fun sent =>
    { s with
      lastSeqNo := update s.lastSeqNo endpoint sent.1
      numbered := update s.numbered endpoint
        (s.numbered endpoint + sent.2.countP fun frag => frag.sequence.isSome)
      inFlight := s.inFlight ++ sent.2.map (⟨endpoint, ·, s.numbered endpoint⟩) }

def deliver (isBlock : Bytes → Bool) (s : Link H) (i : ℕ) : Option (Link H) :=
  match s.inFlight[i]? with
  | none => none
  | some x =>
    (s.reassembler.receiveFragment isBlock x.endpoint x.packet).map fun received =>
      { s with
        inFlight := s.inFlight.eraseIdx i
        reassembler := received.1
        returned := s.returned ++
          match received.2 with
          | .complete netPkt firstFrag => [(x.endpoint, netPkt, firstFrag.headers)]
          | _ => [] }

def step (headerSize : H → ℕ) (options : EndpointId → LinkOptions) (isBlock : Bytes → Bool)
    (s : Link H) : Event H → Option (Link H)
  | .send endpoint mtu packet => s.send headerSize (options endpoint) endpoint mtu packet
  | .deliver i => s.deliver isBlock i

def submitted (events : List (Event H)) : List (NetPacket H) :=
  events.filterMap fun
    | .send endpoint _ packet => packet.fragment.map (endpoint, ·, packet.headers)
    | .deliver _ => none

/-- Fewer than 2^64 fragments of a sender are outstanding, from the first one of a message that
is not delivered as a whole. -/
def Window (s : Link H) : Prop :=
  ∀ x ∈ s.inFlight, x.packet.sequence.isSome → s.numbered x.endpoint < x.first + 2 ^ 64

def Accepted (headerSize : H → ℕ) (options : EndpointId → LinkOptions) (isBlock : Bytes → Bool)
    (s : Link H) : Event H → Prop
  | .send endpoint mtu packet => s.Window ∧ (options endpoint).allowFragmentation = true ∧
      (∃ netPkt, IsNetPacket packet netPkt ∧ isBlock netPkt = true) ∧
      ∃ frags, fragmentPacket headerSize (options endpoint).nMaxFragments packet mtu =
        some (some frags)
  | .deliver _ => True

end Link

def Pending.inFlight (p : Pending isBlock nMax H) : List (InFlight H) :=
  p.missing.map fun j => ⟨p.endpoint, p.frag j, p.first⟩

def Message.original (m : Message isBlock nMax H) : NetPacket H := (m.endpoint, m.netPkt, m.headers)

def InFlight.original (x : InFlight H) : Option (NetPacket H) :=
  x.packet.fragment.map (x.endpoint, ·, x.packet.headers)

namespace Link

variable {start : EndpointId → Sequence} {s : Link H} {sub : List (NetPacket H)}
  {whole whole' : List (InFlight H)} {pend pend' : List (Pending isBlock nMax H)}

structure Accounts (start : EndpointId → Sequence) (sub : List (NetPacket H)) (s : Link H)
    (whole : List (InFlight H)) (pend : List (Pending isBlock nMax H)) : Prop where
  inFlight : s.inFlight.Perm (whole ++ pend.flatMap Pending.inFlight)
  packets : sub.Perm (s.returned ++ whole.filterMap InFlight.original ++
    pend.map fun p => p.original)
  net : ∀ x ∈ whole, ∃ netPkt, IsNetPacket x.packet netPkt ∧ isBlock netPkt = true
  holds : s.reassembler.Holds pend
  missing : ∀ p ∈ pend, p.missing ≠ []
  numbers : ∀ ep, s.lastSeqNo ep = start ep + BitVec.ofNat 64 (s.numbered ep)
  bases : ∀ p ∈ pend, p.base = start p.endpoint + BitVec.ofNat 64 p.first + 1 ∧
    p.first < s.numbered p.endpoint
  max : nMax ≤ s.reassembler.nMaxFragments
  pos : 1 ≤ s.reassembler.nMaxFragments

lemma Accounts.perm (h : s.Accounts start sub whole pend) (hwhole : whole.Perm whole')
    (hpend : pend.Perm pend') : s.Accounts start sub whole' pend' where
  inFlight := h.inFlight.trans (hwhole.append (hpend.flatMap_right _))
  packets := h.packets.trans (((hwhole.filterMap _).append_left _).append (hpend.map _))
  net := fun x hx => h.net x (hwhole.mem_iff.mpr hx)
  holds := h.holds.perm hpend
  missing := fun p hp => h.missing p (hpend.mem_iff.mpr hp)
  numbers := h.numbers
  bases := fun p hp => h.bases p (hpend.mem_iff.mpr hp)
  max := h.max
  pos := h.pos

variable {ep : EndpointId} {mtu i : ℕ} {packet : LpPacket H} {netPkt : Bytes}
  {p : Pending isBlock nMax H}

lemma Accounts.fresh (h : s.Accounts start sub whole pend) (hwindow : s.Window) (hp : p ∈ pend) :
    p.key ≠ (ep, s.lastSeqNo ep + 1) := by
  intro hkey
  obtain ⟨rfl, hbase⟩ : p.endpoint = ep ∧ p.base = s.lastSeqNo ep + 1 := by
    simpa [Message.key] using hkey
  obtain ⟨hp_base, hlt⟩ := h.bases p hp
  have hbound : s.numbered p.endpoint < p.first + 2 ^ 64 := by
    obtain ⟨j, hj⟩ := exists_mem_of_ne_nil _ (h.missing p hp)
    have hmem : ⟨p.endpoint, p.frag j, p.first⟩ ∈ s.inFlight := by
      refine h.inFlight.mem_iff.mpr (mem_append_right _ ?_)
      exact mem_flatMap.mpr ⟨p, hp, List.mem_map.mpr ⟨j, hj, rfl⟩⟩
    refine hwindow _ hmem ?_
    obtain ⟨-, -, hseq⟩ := p.isMessage.fields j _ (Message.getElem?_frag (p.lt j hj))
    rw [hseq]
    rfl
  have hsame : BitVec.ofNat 64 p.first = BitVec.ofNat 64 (s.numbered p.endpoint) := by
    rw [h.numbers, hp_base, BitVec.add_left_inj, BitVec.add_right_inj] at hbase
    exact hbase
  have hmod := congrArg BitVec.toNat hsame
  rw [BitVec.toNat_ofNat, BitVec.toNat_ofNat] at hmod
  omega

lemma inFlight_sent (m : Message isBlock nMax H) :
    (Pending.sent m).inFlight = m.frags.map (⟨m.endpoint, ·, m.first⟩) := by
  conv_rhs => rw [← m.map_frag]
  rw [List.map_map]
  rfl

section

variable (h : s.Accounts start sub whole pend)
include h

lemma Accounts.send_whole (hnet : IsNetPacket packet netPkt)
    (hblock : isBlock netPkt = true) (ep : EndpointId) :
    Accounts start (sub ++ [(ep, netPkt, packet.headers)])
      { s with inFlight := s.inFlight ++ [⟨ep, packet, s.numbered ep⟩] }
      (⟨ep, packet, s.numbered ep⟩ :: whole) pend where
  inFlight := by
    refine perm_append_comm.trans ?_
    exact h.inFlight.cons _
  packets := by
    have horiginal : InFlight.original ⟨ep, packet, s.numbered ep⟩ =
        some (ep, netPkt, packet.headers) := by
      simp [InFlight.original, hnet.fragment]
    rw [filterMap_cons_some horiginal]
    refine perm_append_comm.trans ((h.packets.cons _).trans ?_)
    rw [append_assoc, append_assoc]
    exact perm_middle.symm
  net := by
    intro x hx
    rcases mem_cons.mp hx with rfl | hx
    · exact ⟨netPkt, hnet, hblock⟩
    · exact h.net x hx
  holds := h.holds
  missing := h.missing
  numbers := h.numbers
  bases := h.bases
  max := h.max
  pos := h.pos

lemma Accounts.send_message (hwindow : s.Window)
    (m : Message isBlock nMax H) (hfirst : m.first = s.numbered m.endpoint)
    (hbase : m.base = s.lastSeqNo m.endpoint + 1) :
    Accounts start (sub ++ [m.original])
      { s with
        lastSeqNo := update s.lastSeqNo m.endpoint
          (s.lastSeqNo m.endpoint + BitVec.ofNat 64 m.frags.length)
        numbered := update s.numbered m.endpoint
          (s.numbered m.endpoint + m.frags.length)
        inFlight := s.inFlight ++ m.frags.map (⟨m.endpoint, ·, s.numbered m.endpoint⟩) }
      whole (.sent m :: pend) where
  inFlight := by
    rw [flatMap_cons, inFlight_sent, hfirst]
    refine (h.inFlight.append_right _).trans ?_
    rw [append_assoc]
    exact perm_append_comm.append_left _
  packets := by
    refine perm_append_comm.trans ((h.packets.cons _).trans ?_)
    exact perm_middle.symm
  net := h.net
  holds := by
    refine h.holds.sent fun p hp => ?_
    have hkey : m.key = (m.endpoint, s.lastSeqNo m.endpoint + 1) := congrArg _ hbase
    rw [hkey]
    exact h.fresh hwindow hp
  missing := by
    intro p hp
    rcases mem_cons.mp hp with rfl | hp
    · have h2 := m.isMessage.two_le
      intro hnil
      have hlength := congrArg List.length hnil
      simp only [Pending.sent, length_range, length_nil] at hlength
      omega
    · exact h.missing p hp
  numbers := by
    intro ep
    dsimp only
    by_cases hep : ep = m.endpoint
    · subst hep
      rw [update_self, update_self, h.numbers, BitVec.ofNat_add, BitVec.add_assoc]
    · rw [update_of_ne hep, update_of_ne hep]
      exact h.numbers ep
  bases := by
    have h2 := m.isMessage.two_le
    have hgrow : ∀ ep, s.numbered ep ≤ update s.numbered m.endpoint
        (s.numbered m.endpoint + m.frags.length) ep := by
      intro ep
      by_cases hep : ep = m.endpoint
      · subst hep
        rw [update_self]
        exact Nat.le_add_right ..
      · exact Nat.le_of_eq (update_of_ne hep _ _).symm
    intro p hp
    rcases mem_cons.mp hp with rfl | hp
    · refine ⟨?_, ?_⟩
      · change m.base = start m.endpoint + BitVec.ofNat 64 m.first + 1
        rw [hbase, hfirst, h.numbers]
      change m.first < update s.numbered m.endpoint _ m.endpoint
      rw [update_self, hfirst]
      exact Nat.lt_add_of_pos_right (Nat.lt_of_lt_of_le Nat.zero_lt_two h2)
    · obtain ⟨hp_base, hlt⟩ := h.bases p hp
      exact ⟨hp_base, Nat.lt_of_lt_of_le hlt (hgrow _)⟩
  max := h.max
  pos := h.pos

lemma Accounts.send (hok : Accepted headerSize options isBlock s (.send ep mtu packet))
    (hmax : (options ep).nMaxFragments ≤ nMax) :
    ∃ t whole', ∃ pend' : List (Pending isBlock nMax H),
      s.send headerSize (options ep) ep mtu packet = some t ∧
        t.Accounts start (sub ++ submitted [.send ep mtu packet]) whole' pend' := by
  obtain ⟨hwindow, hallow, ⟨netPkt, hnet, hblock⟩, frags, hfrags⟩ := hok
  have hsub : submitted [.send ep mtu packet] = [(ep, netPkt, packet.headers)] := by
    simp [submitted, hnet.fragment]
  rw [hsub]
  rcases sendNetPacket_cases hnet hallow hfrags (s.lastSeqNo ep) with hsent | ⟨msg, hsent, hmsg⟩
  · rw [Link.send, hsent]
    refine ⟨_, ⟨ep, packet, s.numbered ep⟩ :: whole, pend, rfl, ?_⟩
    have hsent := h.send_whole hnet hblock ep
    simpa [hnet.sequence, update_eq_self] using hsent
  rw [Link.send, hsent]
  have hcount : msg.countP (fun frag => frag.sequence.isSome) = msg.length := by
    refine countP_eq_length.mpr fun frag hfrag => ?_
    obtain ⟨j, hj⟩ := mem_iff_getElem?.mp hfrag
    obtain ⟨-, -, hseq⟩ := hmsg.fields j frag hj
    rw [hseq]
    rfl
  have hmsg' : IsMessage nMax (s.lastSeqNo ep + 1) packet.headers netPkt msg :=
    ⟨hmsg.two_le, Nat.le_trans hmsg.le_max hmax, hmsg.fields, hmsg.first, hmsg.payload⟩
  let m : Message isBlock nMax H :=
    ⟨ep, s.numbered ep, s.lastSeqNo ep + 1, packet.headers, netPkt, msg, hmsg', hblock⟩
  refine ⟨_, whole, .sent m :: pend, rfl, ?_⟩
  dsimp only
  rw [hcount]
  exact h.send_message hwindow m rfl rfl

end

lemma perm_of_getElem? {l : List (InFlight H)} {x : InFlight H} (hx : l[i]? = some x) :
    l.Perm (x :: l.eraseIdx i) := by
  obtain ⟨hi, rfl⟩ := List.getElem?_eq_some_iff.mp hx
  exact (getElem_cons_eraseIdx_perm hi).symm

lemma Accounts.deliver_whole {x : InFlight H}
    (h : s.Accounts start sub (x :: whole) pend) (hx : s.inFlight[i]? = some x) :
    ∃ t, s.deliver isBlock i = some t ∧ t.Accounts start sub whole pend := by
  obtain ⟨netPkt, hnet, hblock⟩ := h.net x (.head _)
  have hreceive := LpReassembler.receiveFragment_whole hnet hblock h.pos x.endpoint
  have horiginal : x.original = some (x.endpoint, netPkt, x.packet.headers) := by
    simp [InFlight.original, hnet.fragment]
  rw [deliver, hx]
  dsimp only
  rw [hreceive]
  refine ⟨_, rfl, ?_, ?_, fun y hy => h.net y (.tail _ hy), h.holds, h.missing, h.numbers,
    h.bases, h.max, h.pos⟩
  · exact ((perm_of_getElem? hx).symm.trans h.inFlight).cons_inv
  have hpackets := h.packets
  rw [filterMap_cons_some horiginal] at hpackets
  simpa using hpackets

lemma Accounts.deliver_fragment {j : ℕ}
    (h : s.Accounts start sub whole (p :: pend)) (hj : j ∈ p.missing)
    (hx : s.inFlight[i]? = some ⟨p.endpoint, p.frag j, p.first⟩) :
    ∃ t, ∃ pend' : List (Pending isBlock nMax H), s.deliver isBlock i = some t ∧
      t.Accounts start sub whole pend' := by
  obtain ⟨r', res, hreceive, hr', hcases⟩ := h.holds.deliver h.max hj
  -- the fragment leaves the missing ones of its message
  have hrest : (s.inFlight.eraseIdx i).Perm
      (whole ++ ((p.deliver j).inFlight ++ pend.flatMap Pending.inFlight)) := by
    have hp : p.inFlight.Perm (⟨p.endpoint, p.frag j, p.first⟩ :: (p.deliver j).inFlight) :=
      (perm_cons_erase hj).map _
    refine List.Perm.cons_inv ((perm_of_getElem? hx).symm.trans (h.inFlight.trans ?_))
    refine ((hp.append_right _).append_left whole).trans ?_
    exact perm_middle
  rw [deliver, hx]
  dsimp only
  rw [hreceive]
  rcases hcases with ⟨hnil, hholds, first, rfl, hheaders⟩ | ⟨hne, hholds, rfl⟩
  · refine ⟨_, pend, rfl, ?_, ?_, h.net, hholds, fun q hq => h.missing q (.tail _ hq), h.numbers,
      fun q hq => h.bases q (.tail _ hq), hr' ▸ h.max, hr' ▸ h.pos⟩
    · simpa [Pending.inFlight, hnil] using hrest
    have hpackets := h.packets
    refine hpackets.trans ?_
    simp only [hheaders, append_assoc]
    refine List.Perm.append_left _ ?_
    exact perm_middle
  refine ⟨_, p.deliver j :: pend, rfl, hrest, ?_, h.net, hholds, ?_, h.numbers, ?_, hr' ▸ h.max,
    hr' ▸ h.pos⟩
  · have hreturned : s.returned ++ [] = s.returned := append_nil _
    dsimp only
    rw [hreturned]
    exact h.packets
  · intro q hq
    rcases mem_cons.mp hq with rfl | hq
    · exact hne
    · exact h.missing q (.tail _ hq)
  · intro q hq
    rcases mem_cons.mp hq with rfl | hq
    · exact h.bases p (.head _)
    · exact h.bases q (.tail _ hq)

lemma Accounts.deliver (h : s.Accounts start sub whole pend) (hi : i < s.inFlight.length) :
    ∃ t whole', ∃ pend' : List (Pending isBlock nMax H), s.deliver isBlock i = some t ∧
      t.Accounts start sub whole' pend' := by
  have hx := getElem?_eq_getElem hi
  have hmem := h.inFlight.mem_iff.mp (getElem_mem hi)
  rcases mem_append.mp hmem with hwhole | hpend
  · obtain ⟨before, after, rfl⟩ := append_of_mem hwhole
    obtain ⟨t, ht, haccounts⟩ := (h.perm perm_middle (.refl _)).deliver_whole hx
    exact ⟨t, _, _, ht, haccounts⟩
  obtain ⟨p, hp, hfrag⟩ := mem_flatMap.mp hpend
  obtain ⟨j, hj, hxj⟩ := List.mem_map.mp hfrag
  obtain ⟨before, after, rfl⟩ := append_of_mem hp
  obtain ⟨t, pend', ht, haccounts⟩ := (h.perm (.refl _) perm_middle).deliver_fragment hj (hxj ▸ hx)
  exact ⟨t, _, _, ht, haccounts⟩

def Enabled (s : Link H) : Event H → Prop
  | .send .. => True
  | .deliver i => i < s.inFlight.length

lemma Accounts.step {e : Event H} (h : s.Accounts start sub whole pend)
    (hmax : ∀ ep, (options ep).nMaxFragments ≤ nMax)
    (hok : Accepted headerSize options isBlock s e) (henabled : s.Enabled e) :
    ∃ t whole', ∃ pend' : List (Pending isBlock nMax H),
      step headerSize options isBlock s e = some t ∧
        t.Accounts start (sub ++ submitted [e]) whole' pend' := by
  cases e with
  | send ep mtu packet => exact h.send hok (hmax ep)
  | deliver i =>
    have hsub : sub ++ submitted [Event.deliver i] = sub := append_nil sub
    rw [hsub]
    exact h.deliver henabled

lemma enabled_of_step {e : Event H} {t : Link H}
    (h : step headerSize options isBlock s e = some t) : s.Enabled e := by
  cases e with
  | send ep mtu packet => trivial
  | deliver i =>
    refine Nat.lt_of_not_le fun hi => ?_
    rw [step, Link.deliver, getElem?_eq_none hi] at h
    cases h

lemma accounts_run {r : LpReassembler H} {events : List (Event H)}
    (hempty : ∀ key, r.partialPackets key = none)
    (hmax : ∀ ep, (options ep).nMaxFragments ≤ r.nMaxFragments) (hone : 1 ≤ r.nMaxFragments)
    (h : Path (step headerSize options isBlock) (Accepted headerSize options isBlock)
      { lastSeqNo := start, reassembler := r } events s) :
    ∃ whole, ∃ pend : List (Pending isBlock r.nMaxFragments H),
      s.Accounts start (submitted events) whole pend := by
  refine Path.invariant (I := fun l s => ∃ whole, ∃ pend : List (Pending isBlock r.nMaxFragments H),
    s.Accounts start (submitted l) whole pend) ?_ ?_ h
  · refine ⟨[], [], .nil, .nil, nofun, ⟨.nil, nofun, fun key _ => hempty key⟩, nofun, ?_, nofun,
      Nat.le_refl _, hone⟩
    intro ep
    exact (BitVec.add_zero _).symm
  rintro l u e t ⟨whole, pend, hu⟩ hok hstep
  obtain ⟨t', whole', pend', ht', haccounts⟩ := hu.step hmax hok (enabled_of_step hstep)
  obtain rfl := Option.some.inj (ht'.symm.trans hstep)
  refine ⟨whole', pend', ?_⟩
  rw [submitted, filterMap_append]
  exact haccounts

lemma Accounts.done (h : s.Accounts start sub whole pend) (hdone : s.inFlight = []) :
    whole = [] ∧ pend = [] := by
  have hperm := h.inFlight
  rw [hdone] at hperm
  obtain ⟨hwhole, hpend⟩ := append_eq_nil_iff.mp hperm.symm.eq_nil
  refine ⟨hwhole, ?_⟩
  cases pend with
  | nil => rfl
  | cons p pend =>
    have hp := (append_eq_nil_iff.mp hpend).1
    exact absurd (map_eq_nil_iff.mp hp) (h.missing p (.head _))

/-- Whatever is sent and in whatever order it is delivered, no assertion fails, and once nothing
is on the way each packet has been returned once, as it was and with its headers, and no partial
packet is left. -/
theorem packets_returned_once {r : LpReassembler H} {events : List (Event H)}
    (hempty : ∀ key, r.partialPackets key = none)
    (hmax : ∀ ep, (options ep).nMaxFragments ≤ r.nMaxFragments) (hone : 1 ≤ r.nMaxFragments)
    (h : Path (step headerSize options isBlock) (Accepted headerSize options isBlock)
      { lastSeqNo := start, reassembler := r } events s) :
    (∀ e, Accepted headerSize options isBlock s e → s.Enabled e →
      (step headerSize options isBlock s e).isSome) ∧
    (s.inFlight = [] → s.returned.Perm (submitted events) ∧
      ∀ key, s.reassembler.partialPackets key = none) := by
  obtain ⟨whole, pend, haccounts⟩ := accounts_run hempty hmax hone h
  refine ⟨?_, ?_⟩
  · intro e hok henabled
    obtain ⟨t, _, _, ht, -⟩ := haccounts.step hmax hok henabled
    rw [ht]
    rfl
  · intro hdone
    obtain ⟨rfl, rfl⟩ := haccounts.done hdone
    refine ⟨?_, fun key => haccounts.holds.other key nofun⟩
    simpa using haccounts.packets.symm

def large : LpPacket ℕ where
  headers := [3]
  fragment := some (6 :: 49 :: List.replicate 49 0)

/-- The sequence numbers wrap around between two fragments, which come in the other order. -/
theorem packets_returned_once_satisfied :
    ∃ s, Path (step id (fun _ => ⟨true, 2⟩) isElement) (Accepted id (fun _ => ⟨true, 2⟩) isElement)
        { lastSeqNo := fun _ => BitVec.ofNat 64 (2 ^ 64 - 2) }
        [.send 1 80 large, .deliver 1, .deliver 0] s ∧ s.inFlight = [] ∧
      s.returned.Perm [(1, 6 :: 49 :: List.replicate 49 0, [3])] := by
  obtain ⟨s, hpath, hdone⟩ : ∃ s, Path (step id (fun _ => ⟨true, 2⟩) isElement)
      (Accepted id (fun _ => ⟨true, 2⟩) isElement)
      { lastSeqNo := fun _ => BitVec.ofNat 64 (2 ^ 64 - 2) }
      [.send 1 80 large, .deliver 1, .deliver 0] s ∧ s.inFlight = [] := by
    refine ⟨_, .cons ?_ rfl (.cons trivial rfl (.cons trivial rfl .nil)), rfl⟩
    exact ⟨nofun, rfl, ⟨_, ⟨rfl, rfl, rfl, rfl⟩, rfl⟩, _, rfl⟩
  refine ⟨s, hpath, hdone, ?_⟩
  exact ((packets_returned_once (fun _ => rfl) (fun _ => by decide) (by decide) hpath).2 hdone).1

/-- With a limit of zero fragments the fragmenter accepts a packet that fits, and the reassembler
drops it. -/
theorem zero_limit_dropped :
    ∃ s, Path (step id (fun _ => ⟨true, 0⟩) isElement) (Accepted id (fun _ => ⟨true, 0⟩) isElement)
        { lastSeqNo := fun _ => 0, reassembler := { nMaxFragments := 0 } }
        [.send 1 80 { fragment := some [6, 0] }, .deliver 0] s ∧ s.inFlight = [] ∧
      s.returned = [] ∧ submitted [.send 1 80 ({ fragment := some [6, 0] } : LpPacket ℕ)] ≠ [] := by
  refine ⟨_, .cons ?_ rfl (.cons trivial rfl .nil), rfl, rfl, nofun⟩
  exact ⟨nofun, rfl, ⟨_, ⟨rfl, rfl, rfl, rfl⟩, rfl⟩, _, rfl⟩

end Link

end NfdGateway.Face
