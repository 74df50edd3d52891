import NfdGateway.Fw.PitEntry

/-! The forwarding pipelines, with the strategy as a parameter. The PIT is used as the map from
name and selectors that it stands for. Entries are heap objects known by their id; they outlive
their place in the PIT as long as a timer or a strategy holds them. What the other tables answer
(Content Store, Dead Nonce List, the PIT's search for Data) comes with the event. The FIB entry of
`onContentStoreMiss` is only handed to the strategy; strategies that read it keep the FIB in their
own state. -/
namespace NfdGateway.Fw

inductive Packet (C S : Type)
  | interest (i : InterestPacket C S)
  | data (d : Data C)
  | nack (i : InterestPacket C S) (reason : NackReason)
deriving DecidableEq

structure Forwarder (C S : Type) where
  now : ℕ := 0
  entries : List (Entry C S) := []
  /-- The entries that are in the PIT. -/
  pit : List PitEntryId := []
  /-- What has been added to the Dead Nonce List. -/
  deadNonces : List (Name C × Nonce) := []
  /-- The packets sent so far, latest last. -/
  sent : List (FaceId × Packet C S) := []
deriving DecidableEq

inductive Action
  | sendInterest (e : PitEntryId) (outFace : FaceId) (newNonce : Option Nonce)
  | sendNack (e : PitEntryId) (outFace : FaceId) (reason : NackReason)
  | rejectPendingInterest (e : PitEntryId)
deriving DecidableEq

/-- The triggers of a strategy with state `σ`, and its own events `ω` (timers and whatever else
it waits for). Each returns the new state and the calls it makes, in order; `none` is a run into
undefined behaviour or an event that is not enabled. -/
structure Strategy (C S σ ω : Type) where
  afterReceiveInterest : Forwarder C S → FaceId → InterestPacket C S → PitEntryId → σ →
    Option (σ × List Action)
  beforeSatisfyInterest : Forwarder C S → PitEntryId → FaceId → Data C → σ →
    Option (σ × List Action)
  beforeExpirePendingInterest : Forwarder C S → PitEntryId → σ → Option (σ × List Action)
  afterReceiveNack : Forwarder C S → FaceId → InterestPacket C S → NackReason → PitEntryId → σ →
    Option (σ × List Action)
  own : Forwarder C S → ω → σ → Option (σ × List Action)

structure Node (C S σ : Type) where
  fw : Forwarder C S
  strategy : σ
deriving DecidableEq

namespace Forwarder

variable {C S : Type}

def modifyEntry (fw : Forwarder C S) (e : PitEntryId) (f : Entry C S → Entry C S) : Forwarder C S :=
  { fw with entries := fw.entries.modify e f }

def send (fw : Forwarder C S) (face : FaceId) (p : Packet C S) : Forwarder C S :=
  { fw with sent := fw.sent ++ [(face, p)] }

def cancelUnsatisfyAndStragglerTimer (fw : Forwarder C S) (e : PitEntryId) : Forwarder C S :=
  fw.modifyEntry e fun x => { x with unsatisfyTimer := none, stragglerTimer := none }

def setUnsatisfyTimer (fw : Forwarder C S) (e : PitEntryId) : Forwarder C S :=
  fw.modifyEntry e fun x => { x with unsatisfyTimer := x.lastExpiring.map fun r => r.expiry }

def setStragglerTimer (fw : Forwarder C S) (e : PitEntryId) (isSatisfied : Bool)
    (dataFreshnessPeriod : Option ℕ) : Forwarder C S :=
  let timer : StragglerTimer := ⟨fw.now + milliseconds 2000, isSatisfied, dataFreshnessPeriod⟩
  fw.modifyEntry e fun x => { x with stragglerTimer := some timer }

def needDnl (E : Setting C S) (x : Entry C S) (isSatisfied : Bool)
    (dataFreshnessPeriod : Option ℕ) : Bool :=
  if isSatisfied then
    E.mustBeFresh x.interest.selectors &&
      dataFreshnessPeriod.any fun p => decide (p < E.deadNonceLifetime)
  else true

def outgoingNonces (x : Entry C S) (upstream : Option FaceId) : List Nonce :=
  match upstream with
  | none => x.outRecords.map fun r => r.lastNonce
  | some face => ((x.getOutRecord face).map fun r => r.lastNonce).toList

def insertDeadNonceList (E : Setting C S) (fw : Forwarder C S) (e : PitEntryId)
    (isSatisfied : Bool) (dataFreshnessPeriod : Option ℕ) (upstream : Option FaceId) :
    Forwarder C S :=
  match fw.entries[e]? with
  | none => fw
  | some x =>
    if needDnl E x isSatisfied dataFreshnessPeriod then
      { fw with
        deadNonces := fw.deadNonces ++
          (outgoingNonces x upstream).map fun n => (x.interest.name, n) }
    else fw

def onInterestFinalize (E : Setting C S) (fw : Forwarder C S) (e : PitEntryId)
    (isSatisfied : Bool) (dataFreshnessPeriod : Option ℕ) : Forwarder C S :=
  let fw := fw.insertDeadNonceList E e isSatisfied dataFreshnessPeriod none
  let fw := fw.cancelUnsatisfyAndStragglerTimer e
  { fw with pit := fw.pit.erase e }

def onInterestReject (fw : Forwarder C S) (e : PitEntryId) : Forwarder C S :=
  if fw.entries[e]?.any fun x => x.hasPendingOutRecords fw.now then fw
  else (fw.cancelUnsatisfyAndStragglerTimer e).setStragglerTimer e false none

def onInterestLoop (E : Setting C S) (fw : Forwarder C S) (inFace : FaceId)
    (interest : InterestPacket C S) : Forwarder C S :=
  if E.isMultiAccess inFace then fw else fw.send inFace (.nack interest .duplicate)

def onOutgoingNack (E : Setting C S) (fw : Forwarder C S) (e : PitEntryId) (outFace : FaceId)
    (reason : NackReason) : Forwarder C S :=
  if outFace = 0 then fw
  else
    match fw.entries[e]?.bind fun x => x.getInRecord outFace with
    | none => fw
    | some r =>
      if E.isMultiAccess outFace then fw
      else (fw.modifyEntry e fun x => x.deleteInRecord outFace).send outFace
        (.nack r.interest reason)

variable [DecidableEq C]

def onOutgoingData (E : Setting C S) (fw : Forwarder C S) (data : Data C) (outFace : FaceId) :
    Forwarder C S :=
  if outFace = 0 then fw
  else if E.violatesLocalhost outFace data.name then fw
  else fw.send outFace (.data data)

def outgoingInterest (r : InRecord C S) (newNonce : Option Nonce) : InterestPacket C S :=
  match newNonce with
  | none => r.interest
  | some n => { r.interest with nonce := n }

/-- `none` if there is no in-record to pick. -/
def onOutgoingInterest (E : Setting C S) (fw : Forwarder C S) (e : PitEntryId)
    (outFace : FaceId) (newNonce : Option Nonce) : Option (Forwarder C S) :=
  if outFace = 0 then some fw
  else
    match fw.entries[e]? with
    | none => none
    | some x =>
      if violatesScope E x outFace then some fw
      else
        match x.pickInterest outFace with
        | none => none
        | some r =>
          let interest := outgoingInterest r newNonce
          some ((fw.modifyEntry e fun x => x.insertOrUpdateOutRecord fw.now outFace interest).send
            outFace (.interest interest))

def perform (E : Setting C S) (fw : Forwarder C S) : Action → Option (Forwarder C S)
  | .sendInterest e outFace newNonce => fw.onOutgoingInterest E e outFace newNonce
  | .sendNack e outFace reason => some (fw.onOutgoingNack E e outFace reason)
  | .rejectPendingInterest e => some (fw.onInterestReject e)

variable [DecidableEq S]

def findPit (fw : Forwarder C S) (i : Interest C S) : Option PitEntryId :=
  fw.pit.find? fun e => fw.entries[e]?.any fun x => x.interest.toInterest = i

def insertPit (fw : Forwarder C S) (interest : InterestPacket C S) : Forwarder C S × PitEntryId :=
  match fw.findPit interest.toInterest with
  | some e => (fw, e)
  | none =>
    ({ fw with
        entries := fw.entries ++ [{ interest := interest }]
        pit := fw.pit ++ [fw.entries.length] }, fw.entries.length)

def MayMatch (E : Setting C S) (fw : Forwarder C S) (data : Data C)
    (pitMatches : List PitEntryId) : Prop :=
  pitMatches.Nodup ∧ ∀ e ∈ pitMatches, e ∈ fw.pit ∧
    (fw.entries[e]?.any fun x => E.matchesData x.interest.toInterest data) = true

instance (E : Setting C S) (fw : Forwarder C S) (data : Data C) (l : List PitEntryId) :
    Decidable (MayMatch E fw data l) := by
  unfold MayMatch; infer_instance

end Forwarder

namespace Node

variable {C S σ ω : Type} [DecidableEq C]

def dispatchToStrategy (E : Setting C S) (n : Node C S σ) (r : Option (σ × List Action)) :
    Option (Node C S σ) := do
  let (st, actions) ← r
  let fw ← actions.foldlM (Forwarder.perform E) n.fw
  return ⟨fw, st⟩

def withFw (n : Node C S σ) (fw : Forwarder C S) : Node C S σ := { n with fw := fw }

def onContentStoreMiss (E : Setting C S) (strategy : Strategy C S σ ω) (n : Node C S σ)
    (inFace : FaceId) (e : PitEntryId) (interest : InterestPacket C S) : Option (Node C S σ) :=
  let fw := n.fw.modifyEntry e fun x => x.insertOrUpdateInRecord n.fw.now inFace interest
  let fw := fw.setUnsatisfyTimer e
  (n.withFw fw).dispatchToStrategy E
    (strategy.afterReceiveInterest fw inFace interest e n.strategy)

def onContentStoreHit (E : Setting C S) (n : Node C S σ) (inFace : FaceId) (e : PitEntryId)
    (data : Data C) : Node C S σ :=
  n.withFw ((n.fw.setStragglerTimer e true data.freshnessPeriod).onOutgoingData E data inFace)

def onPitEntry (E : Setting C S) (strategy : Strategy C S σ ω) (n : Node C S σ)
    (inFace : FaceId) (e : PitEntryId) (interest : InterestPacket C S)
    (csMatch : Option (Data C)) : Option (Node C S σ) := do
  let x ← n.fw.entries[e]?
  if x.findDuplicateNonce interest.nonce inFace ≠ {} then
    return n.withFw (n.fw.onInterestLoop E inFace interest)
  else
    let n := n.withFw (n.fw.cancelUnsatisfyAndStragglerTimer e)
    if x.hasInRecords then n.onContentStoreMiss E strategy inFace e interest
    else
      match csMatch with
      | some data => return n.onContentStoreHit E inFace e data
      | none => n.onContentStoreMiss E strategy inFace e interest

def addDownstreams (now : ℕ) (x : Entry C S) (downstreams : List FaceId) : List FaceId :=
  x.inRecords.foldl
    (fun l r => if now < r.expiry ∧ r.face ∉ l then l ++ [r.face] else l) downstreams

def satisfy (E : Setting C S) (strategy : Strategy C S σ ω) (inFace : FaceId) (data : Data C)
    (r : Node C S σ × List FaceId) (e : PitEntryId) : Option (Node C S σ × List FaceId) := do
  let n := r.1.withFw (r.1.fw.cancelUnsatisfyAndStragglerTimer e)
  let x ← n.fw.entries[e]?
  let n ← n.dispatchToStrategy E
    (strategy.beforeSatisfyInterest n.fw e inFace data n.strategy)
  let fw := n.fw.insertDeadNonceList E e true data.freshnessPeriod (some inFace)
  let fw := fw.modifyEntry e fun x => x.clearInRecords.deleteOutRecord inFace
  return (n.withFw (fw.setStragglerTimer e true data.freshnessPeriod),
    addDownstreams n.fw.now x r.2)

def onIncomingData (E : Setting C S) (strategy : Strategy C S σ ω) (n : Node C S σ)
    (inFace : FaceId) (data : Data C) (pitMatches : List PitEntryId) : Option (Node C S σ) := do
  if E.violatesLocalhost inFace data.name then return n
  else
    let (n, downstreams) ← pitMatches.foldlM (satisfy E strategy inFace data) (n, [])
    return n.withFw ((downstreams.filter (· ≠ inFace)).foldl
      (fun fw f => fw.onOutgoingData E data f) n.fw)

def onInterestUnsatisfied (E : Setting C S) (strategy : Strategy C S σ ω) (n : Node C S σ)
    (e : PitEntryId) : Option (Node C S σ) := do
  let n ← n.dispatchToStrategy E
    (strategy.beforeExpirePendingInterest n.fw e n.strategy)
  return n.withFw (n.fw.onInterestFinalize E e false none)

variable [DecidableEq S]

def onIncomingInterest (E : Setting C S) (strategy : Strategy C S σ ω) (n : Node C S σ)
    (inFace : FaceId) (interest : InterestPacket C S) (isDeadNonce : Bool)
    (csMatch : Option (Data C)) : Option (Node C S σ) :=
  if E.violatesLocalhost inFace interest.name then some n
  else if isDeadNonce then some (n.withFw (n.fw.onInterestLoop E inFace interest))
  else
    let r := n.fw.insertPit interest
    (n.withFw r.1).onPitEntry E strategy inFace r.2 interest csMatch

def onIncomingNack (E : Setting C S) (strategy : Strategy C S σ ω) (n : Node C S σ)
    (inFace : FaceId) (interest : InterestPacket C S) (reason : NackReason) :
    Option (Node C S σ) :=
  if E.isMultiAccess inFace then some n
  else
    match n.fw.findPit interest.toInterest with
    | none => some n
    | some e =>
      match n.fw.entries[e]?.bind fun x => x.getOutRecord inFace with
      | none => some n
      | some r =>
        if interest.nonce ≠ r.lastNonce then some n
        else
          let n := n.withFw (n.fw.modifyEntry e fun x => x.setIncomingNack inFace reason)
          n.dispatchToStrategy E
            (strategy.afterReceiveNack n.fw inFace interest reason e n.strategy)

end Node

/-- Time passing, packets coming in with what the other tables answer, timers, and what only
the strategy knows about. -/
inductive Event (C S ω : Type)
  | advance (d : ℕ)
  | interest (inFace : FaceId) (i : InterestPacket C S) (isDeadNonce : Bool)
      (csMatch : Option (Data C))
  | data (inFace : FaceId) (d : Data C) (pitMatches : List PitEntryId)
  | nack (inFace : FaceId) (i : InterestPacket C S) (reason : NackReason)
  | unsatisfyTimer (e : PitEntryId)
  | stragglerTimer (e : PitEntryId)
  | strategy (ev : ω)

section Step

variable {C S σ ω : Type} [DecidableEq C] [DecidableEq S]

/-- One event; `none` when it is not enabled or runs into undefined behaviour. Timers fire at
any time from their expiry on, in any order. -/
def step (E : Setting C S) (strategy : Strategy C S σ ω) (n : Node C S σ) :
    Event C S ω → Option (Node C S σ)
  | .advance d => some (n.withFw { n.fw with now := n.fw.now + d })
  | .interest inFace i isDeadNonce csMatch =>
    if inFace ≠ 0 ∧ csMatch.all (E.matchesData i.toInterest) then
      n.onIncomingInterest E strategy inFace i isDeadNonce csMatch
    else none
  | .data inFace d pitMatches =>
    if inFace ≠ 0 ∧ n.fw.MayMatch E d pitMatches then
      n.onIncomingData E strategy inFace d pitMatches
    else none
  | .nack inFace i reason =>
    if inFace ≠ 0 then n.onIncomingNack E strategy inFace i reason else none
  | .unsatisfyTimer e => do
    let t ← (← n.fw.entries[e]?).unsatisfyTimer
    if t ≤ n.fw.now then
      (n.withFw
        (n.fw.modifyEntry e fun x => { x with unsatisfyTimer := none })).onInterestUnsatisfied
        E strategy e
    else none
  | .stragglerTimer e => do
    let t ← (← n.fw.entries[e]?).stragglerTimer
    if t.expiresAt ≤ n.fw.now then
      let fw := n.fw.modifyEntry e fun x => { x with stragglerTimer := none }
      return n.withFw (fw.onInterestFinalize E e t.isSatisfied t.dataFreshnessPeriod)
    else none
  | .strategy ev => n.dispatchToStrategy E (strategy.own n.fw ev n.strategy)

end Step

end NfdGateway.Fw
