import NfdGateway.Rib.Operations

/-! Automatic prefix propagation: the prefixes that are registered with a connected hub on behalf
of the RIB, the commands in flight and the timers. -/
namespace NfdGateway

open Function

def localRegistrationPrefix : Name String := ["localhost"]

def linkLocalNfdPrefix : Name String := ["localhop", "nfd"]

def ignoreComponent : String := "nrd"

inductive PropagationStatus
  | new
  | propagating
  | propagated
  | propagateFail
deriving DecidableEq

/-- `rePropagateEvent` is the timer that goes with the entry: it is cancelled when another one is
assigned, or when the entry is erased. -/
structure PropagatedEntry where
  signingIdentity : Name String
  rePropagateEvent : Option ℕ := none
  propagationStatus : PropagationStatus := .new

namespace PropagatedEntry

variable (e : PropagatedEntry)

def startPropagation : PropagatedEntry := { e with propagationStatus := .propagating }

def succeed (event : ℕ) : PropagatedEntry :=
  { e with propagationStatus := .propagated, rePropagateEvent := some event }

def fail (event : ℕ) : PropagatedEntry :=
  { e with propagationStatus := .propagateFail, rePropagateEvent := some event }

def initializeEntry : PropagatedEntry :=
  { e with propagationStatus := .new, rePropagateEvent := none }

def isNew : Bool := e.propagationStatus = .new

def isPropagating : Bool := e.propagationStatus = .propagating

def isPropagated : Bool := e.propagationStatus = .propagated

def isPropagateFail : Bool := e.propagationStatus = .propagateFail

end PropagatedEntry

structure ControlParameters where
  name : Name String := []
  cost : Option ℕ := some 15
  origin : ℕ := 65
  faceId : FaceId := 0

structure CommandOptions where
  commandPrefix : Name String := linkLocalNfdPrefix
  timeout : ℕ := 10000
  signerName : Name String := []

structure PrefixPropagationParameters where
  isValid : Bool := false
  parameters : ControlParameters := {}
  options : CommandOptions := {}

structure PropagatorConfig where
  controlParameters : ControlParameters := {}
  commandOptions : CommandOptions := {}
  refreshInterval : ℕ := 25
  baseRetryWait : ℕ := 50
  maxRetryWait : ℕ := 3600

structure KeyChain where
  identities : List (Name String) := []
  defaultIdentity : Name String

inductive PropagationCommand
  | register (parameters : ControlParameters) (options : CommandOptions) (retryWaitTime : ℕ)
  | revoke (parameters : ControlParameters) (options : CommandOptions) (retryWaitTime : ℕ)

inductive RePropagation
  | refresh (parameters : ControlParameters) (options : CommandOptions)
  | retry (parameters : ControlParameters) (options : CommandOptions) (retryWaitTime : ℕ)

structure PropagationTimer where
  id : ℕ
  delay : ℕ
  event : RePropagation

/-- The assertions of the handlers: what they say about the entry of their prefix, or about all
entries. -/
inductive Assertion
  /-- `afterRibInsert`: there is none. -/
  | insertReleased
  /-- `afterRibErase`: there is one. -/
  | eraseNotReleased
  /-- `afterHubConnect`: all are new. -/
  | connectNew
  /-- `afterHubDisconnect`: none is new. -/
  | disconnectNotNew
  /-- `afterPropagateSucceed`, `afterPropagateFail`: one that is there is propagating. -/
  | replyPropagating
  /-- `afterRevokeSucceed`: one that is there and has not failed is not new. -/
  | revokedNotNew
  /-- `onRefreshTimer`: it is there and propagated. -/
  | refreshPropagated
  /-- `onRetryTimer`: it is there and has failed. -/
  | retryPropagateFail
deriving DecidableEq

/-- The propagated entries are a map with the keys `keys`. An assertion that fails is noted, and
the handler goes on. -/
structure AutoPrefixPropagator where
  config : PropagatorConfig := {}
  keyChain : KeyChain
  rib : Rib String := {}
  hasConnectedHub : Bool := false
  keys : List (Name String) := []
  propagatedEntries : Name String → Option PropagatedEntry := fun _ => none
  commands : List PropagationCommand := []
  timers : List PropagationTimer := []
  nTimers : ℕ := 0
  violated : List Assertion := []

/-! The choice of the prefix and of the identity that signs for it. -/

def identityPrefix (i : Name String) : Name String :=
  if i ≠ [] ∧ i.getLast? = some ignoreComponent then i.dropLast else i

def selectIdentity (localRibPrefix : Name String) (found : Option (Name String × Name String))
    (i : Name String) : Option (Name String × Name String) :=
  if identityPrefix i <+: localRibPrefix ∧ found.all (fun f => decide (i.length < f.2.length)) then
    some (identityPrefix i, i)
  else found

def KeyChain.shortestMatch (k : KeyChain) (localRibPrefix : Name String) :
    Option (Name String × Name String) :=
  (k.identities ++ [k.defaultIdentity]).foldl (selectIdentity localRibPrefix) none

namespace AutoPrefixPropagator

variable (s : AutoPrefixPropagator)

def getPrefixPropagationParameters (localRibPrefix : Name String) : PrefixPropagationParameters :=
  match s.keyChain.shortestMatch localRibPrefix with
  | none => {}
  | some (propagatedPrefix, signingIdentity) =>
    { isValid := true
      parameters := { s.config.controlParameters with name := propagatedPrefix }
      options := { s.config.commandOptions with signerName := signingIdentity } }

def doesCurrentPropagatedPrefixWork (name : Name String) : Bool :=
  (s.getPrefixPropagationParameters name).isValid &&
    (s.getPrefixPropagationParameters name).parameters.name.length == name.length

/-! The parts of the handlers. -/

def check (a : Assertion) (holds : Bool) : AutoPrefixPropagator :=
  if holds then s else { s with violated := s.violated ++ [a] }

def cancel : Option ℕ → AutoPrefixPropagator
  | none => s
  | some id => { s with timers := s.timers.filter (·.id != id) }

def setEntry (name : Name String) (e : PropagatedEntry) : AutoPrefixPropagator :=
  { s with
    keys := if name ∈ s.keys then s.keys else s.keys ++ [name]
    propagatedEntries := update s.propagatedEntries name (some e) }

def eraseEntry (name : Name String) (e : PropagatedEntry) : AutoPrefixPropagator :=
  { s.cancel e.rePropagateEvent with
    keys := s.keys.filter (· ≠ name)
    propagatedEntries := update s.propagatedEntries name none }

def startPropagation (parameters : ControlParameters) (options : CommandOptions)
    (retryWaitTime : ℕ) : AutoPrefixPropagator :=
  { s with commands := s.commands ++ [.register parameters options retryWaitTime] }

def startRevocation (parameters : ControlParameters) (options : CommandOptions)
    (retryWaitTime : ℕ) : AutoPrefixPropagator :=
  { s with commands := s.commands ++ [.revoke parameters options retryWaitTime] }

def schedule (e : PropagatedEntry) (delay : ℕ) (event : RePropagation) : AutoPrefixPropagator :=
  { s.cancel e.rePropagateEvent with
    timers := (s.cancel e.rePropagateEvent).timers ++ [⟨s.nTimers, delay, event⟩]
    nTimers := s.nTimers + 1 }

/-! The handlers. -/

def afterRibInsert (parameters : ControlParameters) (options : CommandOptions) :
    AutoPrefixPropagator :=
  let s := s.check .insertReleased (s.propagatedEntries parameters.name).isNone
  let entry : PropagatedEntry := { signingIdentity := options.signerName }
  if s.hasConnectedHub then
    (s.setEntry parameters.name entry.startPropagation).startPropagation parameters options
      s.config.baseRetryWait
  else s.setEntry parameters.name entry

def afterRibErase (parameters : ControlParameters) (options : CommandOptions) :
    AutoPrefixPropagator :=
  match s.propagatedEntries parameters.name with
  | none => s.check .eraseNotReleased false
  | some entry =>
    let s := s.eraseEntry parameters.name entry
    if s.hasConnectedHub && entry.isPropagated then
      s.startRevocation parameters options s.config.baseRetryWait
    else s

def afterInsertRibEntry (hubConnect : AutoPrefixPropagator → AutoPrefixPropagator)
    (name : Name String) : AutoPrefixPropagator :=
  if localRegistrationPrefix <+: name then s
  else if name = linkLocalNfdPrefix then hubConnect { s with hasConnectedHub := true }
  else
    let p := s.getPrefixPropagationParameters name
    if p.isValid && (s.propagatedEntries p.parameters.name).isNone then
      s.afterRibInsert p.parameters p.options
    else s

def redoPropagation (hubConnect : AutoPrefixPropagator → AutoPrefixPropagator)
    (entry : PropagatedEntry) (parameters : ControlParameters) (options : CommandOptions)
    (retryWaitTime : ℕ) : AutoPrefixPropagator :=
  if s.doesCurrentPropagatedPrefixWork parameters.name then
    (s.setEntry parameters.name entry.startPropagation).startPropagation parameters options
      retryWaitTime
  else
    s.rib.names.foldl
      (fun s' x => if parameters.name <+: x then s'.afterInsertRibEntry hubConnect x else s')
      (s.eraseEntry parameters.name entry)

def redoEntry (hubConnect : AutoPrefixPropagator → AutoPrefixPropagator) (name : Name String) :
    AutoPrefixPropagator :=
  match s.propagatedEntries name with
  | none => s
  | some entry =>
    s.redoPropagation hubConnect entry { s.config.controlParameters with name }
      { s.config.commandOptions with signerName := entry.signingIdentity } s.config.baseRetryWait

/-- A propagation that is redone for another prefix can find the hub's name in the RIB and call
this again; `fuel` bounds how often. -/
def afterHubConnect : ℕ → AutoPrefixPropagator → AutoPrefixPropagator
  | 0, s => s
  | fuel + 1, s =>
    s.keys.foldl (fun s' name => s'.redoEntry (afterHubConnect fuel) name)
      (s.check .connectNew (s.keys.all fun name => (s.propagatedEntries name).all (·.isNew)))

def hubConnect : AutoPrefixPropagator → AutoPrefixPropagator :=
  fun s => afterHubConnect (s.keys.length + 1) s

def afterHubDisconnect : AutoPrefixPropagator :=
  { s.check .disconnectNotNew (s.keys.all fun name => (s.propagatedEntries name).all (!·.isNew))
    with
    propagatedEntries := fun name => (s.propagatedEntries name).map (·.initializeEntry)
    timers := s.timers.filter fun t => s.keys.all fun name =>
      (s.propagatedEntries name).all fun e => e.rePropagateEvent != some t.id }

def afterEraseRibEntry (name : Name String) : AutoPrefixPropagator :=
  if localRegistrationPrefix <+: name then s
  else if name = linkLocalNfdPrefix then { s with hasConnectedHub := false }.afterHubDisconnect
  else
    let p := s.getPrefixPropagationParameters name
    if p.isValid && (s.propagatedEntries p.parameters.name).isSome then
      -- the scan counts the names that are never propagated as well
      if s.rib.names.any fun x => p.parameters.name.isPrefixOf x &&
          p.options.signerName == (s.getPrefixPropagationParameters x).options.signerName then s
      else s.afterRibErase { p.parameters with cost := none } p.options
    else s

def afterPropagateSucceed (parameters : ControlParameters) (options : CommandOptions) :
    AutoPrefixPropagator :=
  match s.propagatedEntries parameters.name with
  | none =>
    s.startRevocation { parameters with cost := none } options s.config.baseRetryWait
  | some entry =>
    let s := s.check .replyPropagating entry.isPropagating
    (s.schedule entry s.config.refreshInterval (.refresh parameters options)).setEntry
      parameters.name (entry.succeed s.nTimers)

def afterPropagateFail (parameters : ControlParameters) (options : CommandOptions)
    (retryWaitTime : ℕ) : AutoPrefixPropagator :=
  match s.propagatedEntries parameters.name with
  | none => s
  | some entry =>
    let s := s.check .replyPropagating entry.isPropagating
    (s.schedule entry retryWaitTime (.retry parameters options
      (min s.config.maxRetryWait (retryWaitTime * 2)))).setEntry
      parameters.name (entry.fail s.nTimers)

def afterRevokeSucceed (parameters : ControlParameters) (options : CommandOptions)
    (retryWaitTime : ℕ) : AutoPrefixPropagator :=
  match s.propagatedEntries parameters.name with
  | none => s
  | some entry =>
    if entry.isPropagateFail then s
    else
      let s := s.check .revokedNotNew !entry.isNew
      (s.setEntry parameters.name entry.startPropagation).startPropagation
        { parameters with cost := s.config.controlParameters.cost } options retryWaitTime

def onRefreshTimer (parameters : ControlParameters) (options : CommandOptions) :
    AutoPrefixPropagator :=
  match s.propagatedEntries parameters.name with
  | none => s.check .refreshPropagated false
  | some entry =>
    (s.check .refreshPropagated entry.isPropagated).redoPropagation hubConnect entry parameters
      options s.config.baseRetryWait

def onRetryTimer (parameters : ControlParameters) (options : CommandOptions)
    (retryWaitTime : ℕ) : AutoPrefixPropagator :=
  match s.propagatedEntries parameters.name with
  | none => s.check .retryPropagateFail false
  | some entry =>
    (s.check .retryPropagateFail entry.isPropagateFail).redoPropagation hubConnect entry
      parameters options retryWaitTime

/-! The system. -/

inductive Event
  | insert (name : Name String) (route : Route)
  | erase (name : Name String) (route : Route)
  | reply (i : ℕ) (success : Bool)
  | timer (i : ℕ)
  | setKeyChain (keyChain : KeyChain)

def insert (name : Name String) (route : Route) : AutoPrefixPropagator :=
  let s' := { s with rib := s.rib.insert name route }
  if name ∈ s.rib.names then s' else s'.afterInsertRibEntry hubConnect name

def erase (name : Name String) (route : Route) : AutoPrefixPropagator :=
  let s' := { s with rib := s.rib.erase name route }
  if name ∈ s.rib.names ∧ name ∉ s'.rib.names then s'.afterEraseRibEntry name else s'

def onReply : PropagationCommand → Bool → AutoPrefixPropagator
  | .register parameters options _, true => s.afterPropagateSucceed parameters options
  | .register parameters options retryWaitTime, false =>
    s.afterPropagateFail parameters options retryWaitTime
  | .revoke parameters options retryWaitTime, true =>
    s.afterRevokeSucceed parameters options retryWaitTime
  | .revoke _ _ _, false => s

def onTimer : RePropagation → AutoPrefixPropagator
  | .refresh parameters options => s.onRefreshTimer parameters options
  | .retry parameters options retryWaitTime => s.onRetryTimer parameters options retryWaitTime

def step : Event → Option AutoPrefixPropagator
  | .insert name route => some (s.insert name route)
  | .erase name route => some (s.erase name route)
  | .reply i success => s.commands[i]?.map fun c =>
      { s with commands := s.commands.eraseIdx i }.onReply c success
  | .timer i => s.timers[i]?.map fun t => { s with timers := s.timers.eraseIdx i }.onTimer t.event
  | .setKeyChain keyChain => some { s with keyChain }

end AutoPrefixPropagator

end NfdGateway
