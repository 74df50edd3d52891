import NfdGateway.Rib.PropagatedPrefixes

/-! The states of propagated entries: when every handler finds its entry as its assertion
says. -/
namespace NfdGateway

open Rib RibState List Option Function Transition

variable {s s' : AutoPrefixPropagator} {p : Name String} {e : PropagatedEntry}
  {parameters : ControlParameters} {options : CommandOptions} {wait delay : ℕ}
  {t : PropagationTimer} {event : RePropagation} {o : Option ℕ}

def PropagationCommand.registers? : PropagationCommand → Option (Name String)
  | .register parameters _ _ => some parameters.name
  | .revoke _ _ _ => none

namespace RePropagation

def name : RePropagation → Name String
  | .refresh parameters _ => parameters.name
  | .retry parameters _ _ => parameters.name

def status : RePropagation → PropagationStatus
  | .refresh _ _ => .propagated
  | .retry _ _ _ => .propagateFail

lemma status_cases (r : RePropagation) : r.status ≠ .new ∧ r.status ≠ .propagating := by
  cases r <;> exact ⟨nofun, nofun⟩

end RePropagation

namespace AutoPrefixPropagator

def inFlight (s : AutoPrefixPropagator) : List (Name String) :=
  s.commands.filterMap PropagationCommand.registers?

/-- An entry has one register command in flight while it is propagating, and none otherwise. A
timer is that of an entry in the status it goes with. No assertion has failed. -/
structure Tracked (s : AutoPrefixPropagator) : Prop where
  keys : s.KeysMatch
  nodup : s.keys.Nodup
  work : s.AllWork
  flight : ∀ p e, s.propagatedEntries p = some e →
    s.inFlight.count p = if e.propagationStatus = .propagating then 1 else 0
  timer : ∀ t ∈ s.timers, ∃ e, s.propagatedEntries t.event.name = some e ∧
    e.rePropagateEvent = some t.id ∧ e.propagationStatus = t.event.status
  ids : ∀ t ∈ s.timers, t.id < s.nTimers
  once : (s.timers.map (·.id)).Nodup
  clean : s.violated = []

/-! What the parts of the handlers keep. -/

lemma check_of (a : Assertion) {b : Bool} (h : b = true) : s.check a b = s := if_pos h

lemma Tracked.no_timer (h : Tracked s) (he : s.propagatedEntries p = some e)
    (hst : e.propagationStatus = .new ∨ e.propagationStatus = .propagating) :
    ∀ t ∈ s.timers, t.event.name ≠ p := by
  rintro t ht rfl
  obtain ⟨e', he', -, hst'⟩ := h.timer t ht
  obtain rfl : e = e' := some.inj (he.symm.trans he')
  have hcases := t.event.status_cases
  rw [← hst'] at hcases
  exact hst.elim hcases.1 hcases.2

lemma Tracked.no_timer_of_none (h : Tracked s) (hp : s.propagatedEntries p = none) :
    ∀ t ∈ s.timers, t.event.name ≠ p := by
  rintro t ht rfl
  obtain ⟨e, he, -⟩ := h.timer t ht
  rw [hp] at he
  cases he

lemma setEntry_self : (s.setEntry p e).propagatedEntries p = some e := update_self ..

lemma setEntry_of_ne {q : Name String} (hq : q ≠ p) :
    (s.setEntry p e).propagatedEntries q = s.propagatedEntries q := update_of_ne hq ..

lemma nodup_setEntry (h : s.keys.Nodup) : (s.setEntry p e).keys.Nodup := by
  rw [setEntry]
  split_ifs with hp
  · exact h
  · rw [← concat_eq_append, nodup_concat]
    exact ⟨hp, h⟩

lemma Tracked.replace (h : Tracked s)
    (hentries : s'.propagatedEntries = (s.setEntry p e).propagatedEntries)
    (hkeys : s'.keys = (s.setEntry p e).keys) (hk : s'.keyChain = s.keyChain)
    (hw : s.doesCurrentPropagatedPrefixWork p = true)
    (hself : s'.inFlight.count p = if e.propagationStatus = .propagating then 1 else 0)
    (hother : ∀ q, q ≠ p → s'.inFlight.count q = s.inFlight.count q)
    (htimer : ∀ t ∈ s'.timers, t ∈ s.timers ∧ t.event.name ≠ p ∨ t.event.name = p ∧
      e.rePropagateEvent = some t.id ∧ e.propagationStatus = t.event.status)
    (hids : ∀ t ∈ s'.timers, t.id < s'.nTimers) (honce : (s'.timers.map (·.id)).Nodup)
    (hclean : s'.violated = []) : Tracked s' := by
  have hat : s'.propagatedEntries p = some e := by rw [hentries, setEntry_self]
  have hne : ∀ q, q ≠ p → s'.propagatedEntries q = s.propagatedEntries q := by
    intro q hq
    rw [hentries, setEntry_of_ne hq]
  constructor
  case keys =>
    intro q
    rw [hkeys, keysMatch_setEntry h.keys q, Has, Has, hentries]
  case nodup =>
    rw [hkeys]
    exact nodup_setEntry h.nodup
  case work =>
    intro q hq
    rw [works_iff, hk, ← works_iff]
    by_cases hqp : q = p
    · exact hqp ▸ hw
    · refine h.work q ?_
      rwa [Has, ← hne q hqp]
  case flight =>
    intro q e' hq
    by_cases hqp : q = p
    · subst hqp
      obtain rfl : e = e' := some.inj (hat.symm.trans hq)
      exact hself
    · rw [hother q hqp]
      exact h.flight q e' (hne q hqp ▸ hq)
  case timer =>
    intro t ht
    rcases htimer t ht with ⟨ht, htp⟩ | ⟨htp, hrest⟩
    · obtain ⟨e', he', hrest⟩ := h.timer t ht
      exact ⟨e', (hne _ htp).trans he', hrest⟩
    · exact ⟨e, htp ▸ hat, hrest⟩
  case ids => exact hids
  case once => exact honce
  case clean => exact hclean

lemma inFlight_startPropagation : (s.startPropagation parameters options wait).inFlight =
    s.inFlight ++ [parameters.name] := by
  simp [inFlight, startPropagation, PropagationCommand.registers?]

lemma inFlight_startRevocation : (s.startRevocation parameters options wait).inFlight =
    s.inFlight := by
  simp [inFlight, startRevocation, PropagationCommand.registers?, filterMap_cons]

lemma Tracked.start (h : Tracked s) (hw : s.doesCurrentPropagatedPrefixWork parameters.name = true)
    (hno : ∀ t ∈ s.timers, t.event.name ≠ parameters.name)
    (hflight : s.inFlight.count parameters.name = 0) :
    Tracked ((s.setEntry parameters.name e.startPropagation).startPropagation parameters options
      wait) := by
  have hcommands : ((s.setEntry parameters.name e.startPropagation).startPropagation parameters
      options wait).inFlight = s.inFlight ++ [parameters.name] := inFlight_startPropagation
  refine h.replace rfl rfl rfl hw ?_ (fun q hq => ?_) (fun t ht => .inl ⟨ht, hno t ht⟩) h.ids
    h.once h.clean
  · rw [hcommands, count_append, hflight]
    simp [PropagatedEntry.startPropagation]
  · rw [hcommands, count_append, count_singleton]
    simp [Ne.symm hq]

lemma Tracked.keep (h : Tracked s) (hw : s.doesCurrentPropagatedPrefixWork p = true)
    (hno : ∀ t ∈ s.timers, t.event.name ≠ p) (hflight : s.inFlight.count p = 0)
    (he : e.propagationStatus = .new) : Tracked (s.setEntry p e) := by
  refine h.replace rfl rfl rfl hw ?_ (fun q _ => rfl) (fun t ht => .inl ⟨ht, hno t ht⟩) h.ids
    h.once h.clean
  rw [he, if_neg (by decide)]
  exact hflight

lemma mem_cancel : t ∈ (s.cancel o).timers ↔ t ∈ s.timers ∧ o ≠ some t.id := by
  cases o with
  | none => simp [cancel]
  | some id => simp [cancel, eq_comm (a := id)]

lemma cancel_sublist : (s.cancel o).timers.Sublist s.timers := by
  cases o with
  | none => exact List.Sublist.refl _
  | some id => exact filter_sublist

lemma cancel_eq : s.cancel o = { s with timers := (s.cancel o).timers } := by
  cases o <;> rfl

lemma schedule_eq : s.schedule e delay event =
    { s with
      timers := (s.cancel e.rePropagateEvent).timers ++ [⟨s.nTimers, delay, event⟩]
      nTimers := s.nTimers + 1 } := by
  rw [schedule, cancel_eq]

lemma Tracked.event_eq (h : Tracked s) (he : s.propagatedEntries p = some e) (ht : t ∈ s.timers)
    (hp : t.event.name = p) :
    e.rePropagateEvent = some t.id := by
  obtain ⟨e', he', hid, -⟩ := h.timer t ht
  rw [hp, he] at he'
  rw [some.inj he']
  exact hid

lemma Tracked.eraseEntry (h : Tracked s) (he : s.propagatedEntries p = some e) :
    Tracked (s.eraseEntry p e) := by
  have hne : ∀ q, q ≠ p → (s.eraseEntry p e).propagatedEntries q = s.propagatedEntries q :=
    fun q hq => update_of_ne hq ..
  have hflight : (s.eraseEntry p e).inFlight = s.inFlight := by
    rw [inFlight, AutoPrefixPropagator.eraseEntry, cancel_eq]
    rfl
  constructor
  case keys => exact keysMatch_eraseEntry h.keys
  case nodup => exact h.nodup.filter _
  case work =>
    intro q hq
    rw [works_iff, keyChain_eraseEntry, ← works_iff]
    exact h.work q (has_eraseEntry.mp hq).2
  case flight =>
    intro q e' hq
    by_cases hqp : q = p
    · simp [AutoPrefixPropagator.eraseEntry, hqp] at hq
    · rw [hflight]
      exact h.flight q e' (hne q hqp ▸ hq)
  case timer =>
    intro t ht
    obtain ⟨ht, hid⟩ := mem_cancel.mp ht
    have htp : t.event.name ≠ p := fun htp => hid (h.event_eq he ht htp)
    obtain ⟨e', he', hrest⟩ := h.timer t ht
    exact ⟨e', (hne _ htp).trans he', hrest⟩
  case ids =>
    intro t ht
    rw [AutoPrefixPropagator.eraseEntry, cancel_eq]
    exact h.ids t (mem_cancel.mp ht).1
  case once => exact (cancel_sublist.map _).nodup h.once
  case clean =>
    rw [AutoPrefixPropagator.eraseEntry, cancel_eq]
    exact h.clean

lemma Tracked.startRevocation (h : Tracked s) :
    Tracked (s.startRevocation parameters options wait) where
  keys := h.keys
  nodup := h.nodup
  work := h.work
  flight := by
    rw [inFlight_startRevocation]
    exact h.flight
  timer := h.timer
  ids := h.ids
  once := h.once
  clean := h.clean

/-! Replies. -/

variable {i : ℕ} {c : PropagationCommand} {e' : PropagatedEntry}

lemma count_answered (hc : s.commands[i]? = some c) (q : Name String) :
    s.inFlight.count q = (inFlight { s with commands := s.commands.eraseIdx i }).count q +
      if c.registers? = some q then 1 else 0 := by
  obtain ⟨hi, hci⟩ := List.getElem?_eq_some_iff.mp hc
  have hperm := hci ▸ getElem_cons_eraseIdx_perm hi
  have hcount := (hperm.filterMap PropagationCommand.registers?).count_eq q
  rw [inFlight, inFlight, ← hcount, filterMap_cons]
  cases hr : c.registers? with
  | none => simp
  | some p =>
    rw [count_cons]
    simp

lemma Tracked.answered (h : Tracked s) (hc : s.commands[i]? = some c)
    (hnone : ∀ p, c.registers? = some p → s.propagatedEntries p = none) :
    Tracked { s with commands := s.commands.eraseIdx i } where
  keys := h.keys
  nodup := h.nodup
  work := h.work
  flight := by
    intro q e he
    have hcount := count_answered hc q
    rw [if_neg, Nat.add_zero] at hcount
    · rw [← hcount]
      exact h.flight q e he
    intro hq
    have hq' := hnone q hq
    rw [show s.propagatedEntries q = some e from he] at hq'
    cases hq'
  timer := h.timer
  ids := h.ids
  once := h.once
  clean := h.clean

lemma Tracked.assigned (h : Tracked s) (hc : s.commands[i]? = some c)
    (hp : c.registers? = some p) (he : s.propagatedEntries p = some e)
    (hst : e.propagationStatus = .propagating) (hname : event.name = p)
    (hid : e'.rePropagateEvent = some s.nTimers) (hst' : e'.propagationStatus = event.status) :
    Tracked
      ((schedule { s with commands := s.commands.eraseIdx i } e delay event).setEntry p e') := by
  rw [schedule_eq]
  have hflight := h.flight p e he
  rw [if_pos hst] at hflight
  refine h.replace rfl rfl rfl (h.work p (has_of_eq he)) ?_ (fun q hq => ?_)
    (fun t ht => ?_) (fun t ht => ?_) ?_ h.clean
  · have hcount := count_answered hc p
    rw [if_pos hp, hflight] at hcount
    rw [hst', if_neg event.status_cases.2]
    exact (Nat.succ.inj hcount).symm
  · have hcount := count_answered hc q
    rw [hp, if_neg fun he => hq (some.inj he).symm] at hcount
    exact hcount.symm
  · rcases mem_append.mp ht with ht | ht
    · obtain ⟨ht, -⟩ := mem_cancel.mp ht
      exact .inl ⟨ht, h.no_timer he (.inr hst) t ht⟩
    · obtain rfl := mem_singleton.mp ht
      exact .inr ⟨hname, hid, hst'⟩
  · rcases mem_append.mp ht with ht | ht
    · exact Nat.lt_succ_of_lt (h.ids t (mem_cancel.mp ht).1)
    · obtain rfl := mem_singleton.mp ht
      exact Nat.lt_succ_self _
  change (List.map PropagationTimer.id (_ ++ [_])).Nodup
  rw [map_append, map_singleton, ← concat_eq_append, nodup_concat]
  refine ⟨fun hmem => ?_, (cancel_sublist.map _).nodup h.once⟩
  obtain ⟨t, ht, hid⟩ := List.mem_map.mp hmem
  exact Nat.ne_of_lt (h.ids t (mem_cancel.mp ht).1) hid

/-! The hub. -/

variable {hubConnect : AutoPrefixPropagator → AutoPrefixPropagator} {l : List (Name String)}

lemma Tracked.redoPropagation (h : Tracked s) (he : s.propagatedEntries parameters.name = some e)
    (hst : e.propagationStatus ≠ .propagating)
    (hno : ∀ t ∈ s.timers, t.event.name ≠ parameters.name) :
    s.redoPropagation hubConnect e parameters options wait =
      (s.setEntry parameters.name e.startPropagation).startPropagation parameters options wait ∧
    Tracked ((s.setEntry parameters.name e.startPropagation).startPropagation parameters options
      wait) := by
  have hw := h.work _ (has_of_eq he)
  have hflight := h.flight _ e he
  rw [if_neg hst] at hflight
  exact ⟨if_pos hw, h.start hw hno hflight⟩

structure Redoing (s : AutoPrefixPropagator) (l : List (Name String)) : Prop where
  tracked : Tracked s
  connected : s.hasConnectedHub = true
  nodup : l.Nodup
  todo : ∀ p ∈ l, ∃ e, s.propagatedEntries p = some e ∧ e.propagationStatus = .new
  done : ∀ p e, s.propagatedEntries p = some e → p ∉ l → e.propagationStatus = .propagating

lemma Redoing.redoEntry (h : Redoing s (p :: l)) :
    Redoing (s.redoEntry hubConnect p) l ∧ (s.redoEntry hubConnect p).rib = s.rib := by
  obtain ⟨e, he, hnew⟩ := h.todo p (by simp)
  obtain ⟨hpl, hl⟩ := nodup_cons.mp h.nodup
  have hst : e.propagationStatus ≠ .propagating := by
    rw [hnew]
    decide
  rw [AutoPrefixPropagator.redoEntry, he]
  simp only
  obtain ⟨heq, htracked⟩ : s.redoPropagation hubConnect e
      { s.config.controlParameters with name := p }
      { s.config.commandOptions with signerName := e.signingIdentity } s.config.baseRetryWait = _ ∧
        _ :=
    h.tracked.redoPropagation he hst (h.tracked.no_timer he (.inl hnew))
  rw [heq]
  refine ⟨⟨htracked, h.connected, hl, fun q hq => ?_, fun q e' he' hq => ?_⟩, rfl⟩
  · have hqp : q ≠ p := fun hqp => hpl (hqp ▸ hq)
    obtain ⟨e', he', hnew'⟩ := h.todo q (mem_cons_of_mem _ hq)
    exact ⟨e', (setEntry_of_ne hqp).trans he', hnew'⟩
  by_cases hqp : q = p
  · subst hqp
    obtain rfl : e.startPropagation = e' := some.inj (setEntry_self.symm.trans he')
    rfl
  · refine h.done q e' ((setEntry_of_ne hqp).symm.trans he') ?_
    simp [hqp, hq]

lemma Redoing.foldl (h : Redoing s l) :
    Redoing (l.foldl (fun s' name => s'.redoEntry hubConnect name) s) [] ∧
      (l.foldl (fun s' name => s'.redoEntry hubConnect name) s).rib = s.rib := by
  induction l generalizing s with
  | nil => exact ⟨h, rfl⟩
  | cons p l ih =>
    obtain ⟨hone, hrib⟩ := h.redoEntry
    obtain ⟨hall, hrib'⟩ := ih hone
    exact ⟨hall, hrib'.trans hrib⟩

structure StatesMatch (s : AutoPrefixPropagator) : Prop where
  tree : s.rib.TreeInv
  tracked : Tracked s
  hub : s.hasConnectedHub = true ↔ linkLocalNfdPrefix ∈ s.rib.names
  status : ∀ p e, s.propagatedEntries p = some e →
    (e.propagationStatus = .new ↔ s.hasConnectedHub = false)

lemma Redoing.statesMatch (h : Redoing s []) (htree : s.rib.TreeInv)
    (hhub : linkLocalNfdPrefix ∈ s.rib.names) : StatesMatch s := by
  refine ⟨htree, h.tracked, by simp [h.connected, hhub], fun p e he => ?_⟩
  rw [h.done p e he not_mem_nil, h.connected]
  simp

lemma Tracked.connected (h : Tracked s) (htree : s.rib.TreeInv)
    (hhub : linkLocalNfdPrefix ∈ s.rib.names) (hcon : s.hasConnectedHub = true)
    (hnew : ∀ p e, s.propagatedEntries p = some e → e.propagationStatus = .new) :
    StatesMatch (AutoPrefixPropagator.hubConnect s) := by
  have hassert : (s.keys.all fun name => (s.propagatedEntries name).all (·.isNew)) = true := by
    rw [List.all_eq_true]
    intro name _
    rw [Option.all_eq_true]
    intro e he
    simp [PropagatedEntry.isNew, hnew name e he]
  have hredoing : Redoing s s.keys := by
    refine ⟨h, hcon, h.nodup, fun p hp => ?_, fun p e he hp => ?_⟩
    · obtain ⟨e, he⟩ := isSome_iff_exists.mp ((h.keys p).mp hp)
      exact ⟨e, he, hnew p e he⟩
    · exact absurd ((h.keys p).mpr (has_of_eq he)) hp
  rw [AutoPrefixPropagator.hubConnect, afterHubConnect, check_of _ hassert]
  obtain ⟨hall, hrib⟩ := hredoing.foldl
  exact hall.statesMatch (hrib ▸ htree) (hrib ▸ hhub)

lemma Tracked.disconnected (h : Tracked s) (htree : s.rib.TreeInv)
    (hhub : linkLocalNfdPrefix ∉ s.rib.names) (hcon : s.hasConnectedHub = false)
    (hst : ∀ p e, s.propagatedEntries p = some e → e.propagationStatus ≠ .new)
    (hflight : ∀ p ∈ s.inFlight, s.propagatedEntries p = none) :
    StatesMatch s.afterHubDisconnect := by
  have hassert : (s.keys.all fun name => (s.propagatedEntries name).all (!·.isNew)) = true := by
    rw [List.all_eq_true]
    intro name _
    rw [Option.all_eq_true]
    intro e he
    simp [PropagatedEntry.isNew, hst name e he]
  -- every timer was that of an entry
  have htimers : (s.timers.filter fun t => s.keys.all fun name =>
      (s.propagatedEntries name).all fun e => e.rePropagateEvent != some t.id) = [] := by
    rw [filter_eq_nil_iff]
    intro t ht hall
    obtain ⟨e, he, hid, -⟩ := h.timer t ht
    rw [List.all_eq_true] at hall
    have hname := hall t.event.name ((h.keys _).mpr (has_of_eq he))
    simp [he, hid] at hname
  rw [afterHubDisconnect, check_of _ hassert, htimers]
  have hentry : ∀ {p e}, (s.propagatedEntries p).map PropagatedEntry.initializeEntry = some e →
      ∃ e', s.propagatedEntries p = some e' ∧ e.propagationStatus = .new := by
    intro p e he
    obtain ⟨e', he', rfl⟩ := map_eq_some_iff.mp he
    exact ⟨e', he', rfl⟩
  refine ⟨htree, ⟨fun q => ?_, h.nodup, fun q hq => ?_, fun q e he => ?_, by simp,
    by simp, nodup_nil, h.clean⟩, ?_, fun q e he => ?_⟩
  · rw [h.keys q]
    simp [Has]
  · refine h.work q ?_
    simpa [Has] using hq
  · obtain ⟨e', he', hnew⟩ := hentry he
    rw [hnew, if_neg (by decide), count_eq_zero]
    intro hq
    rw [hflight q hq] at he'
    cases he'
  · simp [hcon, hhub]
  · obtain ⟨e', he', hnew⟩ := hentry he
    simp [hnew, hcon]

/-! The events. -/

lemma Tracked.propagating (h : Tracked s) (hc : s.commands[i]? = some c)
    (hp : c.registers? = some p) (he : s.propagatedEntries p = some e) :
    e.propagationStatus = .propagating := by
  have hcount := count_answered hc p
  rw [if_pos hp, h.flight p e he] at hcount
  by_contra hst
  rw [if_neg hst] at hcount
  omega

lemma StatesMatch.set (h : StatesMatch s) (ht : Tracked s') (hrib : s'.rib = s.rib)
    (hcon : s'.hasConnectedHub = s.hasConnectedHub)
    (hst : e.propagationStatus = .new ↔ s.hasConnectedHub = false)
    (hentries : s'.propagatedEntries = (s.setEntry p e).propagatedEntries) : StatesMatch s' := by
  refine ⟨hrib ▸ h.tree, ht, by rw [hcon, hrib, h.hub], fun q e' hq => ?_⟩
  rw [hcon]
  by_cases hqp : q = p
  · subst hqp
    rw [hentries, setEntry_self] at hq
    cases hq
    exact hst
  · rw [hentries, setEntry_of_ne hqp] at hq
    exact h.status q e' hq

lemma StatesMatch.assigned (h : StatesMatch s) (hc : s.commands[i]? = some c)
    (hp : c.registers? = some p) (he : s.propagatedEntries p = some e)
    (hst : e.propagationStatus = .propagating) (hname : event.name = p)
    (hid : e'.rePropagateEvent = some s.nTimers) (hst' : e'.propagationStatus = event.status) :
    StatesMatch
      ((schedule { s with commands := s.commands.eraseIdx i } e delay event).setEntry p e') := by
  have hnot : e'.propagationStatus ≠ .new := by
    rw [hst']
    exact event.status_cases.1
  have hcon : ¬ s.hasConnectedHub = false := by
    rw [← h.status p e he, hst]
    decide
  refine h.set (p := p) (h.tracked.assigned hc hp he hst hname hid hst') ?_ ?_
    (iff_of_false hnot hcon) ?_
  · rw [schedule_eq]
    rfl
  · rw [schedule_eq]
    rfl
  · rw [schedule_eq]
    rfl

lemma StatesMatch.reply {success : Bool} (h : StatesMatch s) (hc : s.commands[i]? = some c)
    (hrevoke : ∀ parameters options wait, c = .revoke parameters options wait → success = true →
      ∀ e, s.propagatedEntries parameters.name = some e → e.isPropagateFail = true) :
    StatesMatch (onReply { s with commands := s.commands.eraseIdx i } c success) := by
  have hsame : ∀ {s' : AutoPrefixPropagator}, Tracked s' → s'.rib = s.rib →
      s'.hasConnectedHub = s.hasConnectedHub → s'.propagatedEntries = s.propagatedEntries →
      StatesMatch s' := by
    intro s' ht hrib hcon hentries
    exact ⟨hrib ▸ h.tree, ht, by rw [hcon, hrib, h.hub], by rw [hcon, hentries]; exact h.status⟩
  cases c with
  | register parameters options wait =>
    cases he : s.propagatedEntries parameters.name with
    | none =>
      have hanswered := h.tracked.answered hc fun p hp => some.inj hp ▸ he
      cases success with
      | true =>
        change StatesMatch (afterPropagateSucceed { s with commands := s.commands.eraseIdx i }
          parameters options)
        rw [afterPropagateSucceed, he]
        exact hsame hanswered.startRevocation rfl rfl rfl
      | false =>
        change StatesMatch (afterPropagateFail { s with commands := s.commands.eraseIdx i }
          parameters options wait)
        rw [afterPropagateFail, he]
        exact hsame hanswered rfl rfl rfl
    | some e =>
      have hst := h.tracked.propagating hc rfl he
      have hassert : e.isPropagating = true := by simp [PropagatedEntry.isPropagating, hst]
      cases success with
      | true =>
        change StatesMatch (afterPropagateSucceed { s with commands := s.commands.eraseIdx i }
          parameters options)
        rw [afterPropagateSucceed, he]
        simp only [check_of _ hassert]
        exact h.assigned hc rfl he hst rfl rfl rfl
      | false =>
        change StatesMatch (afterPropagateFail { s with commands := s.commands.eraseIdx i }
          parameters options wait)
        rw [afterPropagateFail, he]
        simp only [check_of _ hassert]
        exact h.assigned hc rfl he hst rfl rfl rfl
  | revoke parameters options wait =>
    have hanswered := h.tracked.answered hc fun _ hp => by cases hp
    have hs' := hsame hanswered rfl rfl rfl
    cases success with
    | true =>
      change StatesMatch (afterRevokeSucceed { s with commands := s.commands.eraseIdx i }
        parameters options wait)
      rw [afterRevokeSucceed]
      split
      · exact hs'
      rename_i e he
      rw [if_pos (hrevoke _ _ _ rfl rfl e he)]
      exact hs'
    | false => exact hs'

lemma Tracked.fired (h : Tracked s) (ht : s.timers[i]? = some t) :
    Tracked { s with timers := s.timers.eraseIdx i } ∧
      ∀ t' ∈ s.timers.eraseIdx i, t'.event.name ≠ t.event.name := by
  have hsub : (s.timers.eraseIdx i).Sublist s.timers := eraseIdx_sublist _ _
  have hmem := mem_of_getElem? ht
  refine ⟨⟨h.keys, h.nodup, h.work, h.flight, fun t' ht' => h.timer t' (hsub.subset ht'),
    fun t' ht' => h.ids t' (hsub.subset ht'), (hsub.map _).nodup h.once, h.clean⟩, ?_⟩
  intro t' ht' hname
  obtain ⟨e, he, hid, -⟩ := h.timer t hmem
  have hid' := h.event_eq he (hsub.subset ht') hname
  have hperm : (t :: s.timers.eraseIdx i).Perm s.timers := by
    obtain ⟨hi, hti⟩ := List.getElem?_eq_some_iff.mp ht
    exact hti ▸ getElem_cons_eraseIdx_perm hi
  have hnodup := (hperm.map (·.id)).nodup_iff.mpr h.once
  rw [map_cons, nodup_cons] at hnodup
  refine hnodup.1 (List.mem_map.mpr ⟨t', ht', ?_⟩)
  rw [hid] at hid'
  exact (some.inj hid').symm

lemma StatesMatch.redone (h : StatesMatch s) (he : s.propagatedEntries parameters.name = some e)
    (hst : e.propagationStatus ≠ .new ∧ e.propagationStatus ≠ .propagating)
    (hno : ∀ t ∈ s.timers, t.event.name ≠ parameters.name) :
    StatesMatch (s.redoPropagation hubConnect e parameters options wait) := by
  obtain ⟨heq, htracked⟩ : s.redoPropagation hubConnect e parameters options wait = _ ∧ _ :=
    h.tracked.redoPropagation he hst.2 hno
  rw [heq]
  have hnot : e.startPropagation.propagationStatus ≠ .new := nofun
  refine h.set htracked rfl rfl (iff_of_false hnot fun hcon => ?_) rfl
  exact hst.1 ((h.status _ e he).mpr hcon)

lemma StatesMatch.timer (h : StatesMatch s) (ht : s.timers[i]? = some t) :
    StatesMatch (onTimer { s with timers := s.timers.eraseIdx i } t.event) := by
  obtain ⟨htracked, hno⟩ := h.tracked.fired ht
  have hs : StatesMatch { s with timers := s.timers.eraseIdx i } :=
    ⟨h.tree, htracked, h.hub, h.status⟩
  obtain ⟨e, he, -, hst⟩ := h.tracked.timer t (mem_of_getElem? ht)
  have hcases := t.event.status_cases
  rw [← hst] at hcases
  cases hev : t.event with
  | refresh parameters options =>
    rw [hev] at he hst hno
    have hassert : e.isPropagated = true := by
      simp [PropagatedEntry.isPropagated, hst, RePropagation.status]
    change StatesMatch (onRefreshTimer { s with timers := s.timers.eraseIdx i } parameters options)
    rw [onRefreshTimer, show s.propagatedEntries parameters.name = some e from he]
    simp only [check_of _ hassert]
    exact hs.redone he hcases hno
  | retry parameters options wait =>
    rw [hev] at he hst hno
    have hassert : e.isPropagateFail = true := by
      simp [PropagatedEntry.isPropagateFail, hst, RePropagation.status]
    change StatesMatch
      (onRetryTimer { s with timers := s.timers.eraseIdx i } parameters options wait)
    rw [onRetryTimer, show s.propagatedEntries parameters.name = some e from he]
    simp only [check_of _ hassert]
    exact hs.redone he hcases hno

/-! The RIB. -/

lemma StatesMatch.withRib {R : Rib String} (h : StatesMatch s) (htree : R.TreeInv)
    (hhub : linkLocalNfdPrefix ∈ R.names ↔ linkLocalNfdPrefix ∈ s.rib.names) :
    StatesMatch { s with rib := R } :=
  ⟨htree, ⟨h.tracked.keys, h.tracked.nodup, h.tracked.work, h.tracked.flight, h.tracked.timer,
    h.tracked.ids, h.tracked.once, h.tracked.clean⟩, h.hub.trans hhub.symm, h.status⟩

lemma not_local_linkLocal : ¬ localRegistrationPrefix <+: linkLocalNfdPrefix := by decide

lemma StatesMatch.created {f : Name String × Name String} {x : Name String}
    (h : StatesMatch s) (hm : s.keyChain.shortestMatch x = some f)
    (hf : s.propagatedEntries f.1 = none) (hflight : f.1 ∉ s.inFlight)
    (hp : parameters.name = f.1) : StatesMatch (s.afterRibInsert parameters options) := by
  have hw := works_of_match hm
  have hno := h.tracked.no_timer_of_none hf
  have hcount := count_eq_zero.mpr hflight
  rw [← hp] at hw hno hcount hf
  have hassert : (s.propagatedEntries parameters.name).isNone = true := by rw [hf]; rfl
  rw [afterRibInsert, check_of _ hassert]
  split_ifs with hcon
  · have hnot : (PropagatedEntry.startPropagation
      { signingIdentity := options.signerName }).propagationStatus ≠ .new := by
      simp [PropagatedEntry.startPropagation]
    exact h.set (h.tracked.start hw hno hcount) rfl rfl (iff_of_false hnot (by simp [hcon])) rfl
  · exact h.set (h.tracked.keep hw hno hcount rfl) rfl rfl (iff_of_true rfl (by simpa using hcon))
      rfl

lemma StatesMatch.released (h : StatesMatch s) (he : s.propagatedEntries parameters.name = some e) :
    StatesMatch (s.afterRibErase parameters options) := by
  have hs : StatesMatch (s.eraseEntry parameters.name e) := by
    have hcon : (s.eraseEntry parameters.name e).hasConnectedHub = s.hasConnectedHub := by
      rw [eraseEntry, cancel_eq]
    have hrib : (s.eraseEntry parameters.name e).rib = s.rib := rib_eraseEntry
    refine ⟨hrib ▸ h.tree, h.tracked.eraseEntry he, ?_, fun q e' hq => ?_⟩
    · rw [hcon, hrib, h.hub]
    rw [hcon]
    refine h.status q e' ?_
    by_cases hqp : q = parameters.name
    · simp [eraseEntry, hqp] at hq
    · exact (update_of_ne hqp ..).symm.trans hq
  rw [afterRibErase, he]
  simp only
  split
  · exact ⟨hs.tree, hs.tracked.startRevocation, hs.hub, hs.status⟩
  · exact hs

/-- The condition: a prefix gets its entry when no register command for it is in flight; the hub
goes when none is in flight for a prefix that has an entry; a revocation succeeds when the prefix
has no entry, or one whose propagation has failed; and the prefixes with entries work with the
identities. -/
def InTurn (s : AutoPrefixPropagator) : Event → Prop
  | .insert name _ => name ∉ s.rib.names → Propagable name → ∀ f,
      s.keyChain.shortestMatch name = some f → s.propagatedEntries f.1 = none → f.1 ∉ s.inFlight
  | .erase name route => name = linkLocalNfdPrefix → name ∉ (s.rib.erase name route).names →
      ∀ p ∈ s.inFlight, s.propagatedEntries p = none
  | .reply i true => ∀ parameters options retryWaitTime,
      s.commands[i]? = some (.revoke parameters options retryWaitTime) →
      ∀ e, s.propagatedEntries parameters.name = some e → e.isPropagateFail = true
  | .setKeyChain keyChain => ∀ p, (s.propagatedEntries p).isSome →
      doesCurrentPropagatedPrefixWork { s with keyChain } p = true
  | _ => True

lemma StatesMatch.insert {n : Name String} {route : Route} (h : StatesMatch s)
    (hc : s.InTurn (.insert n route)) : StatesMatch (s.insert n route) := by
  have htree : (s.rib.insert n route).TreeInv := by
    obtain ⟨c, -, happ⟩ := apply_spec h.tree (.insert n route)
    exact happ.changed.tree
  have hother : linkLocalNfdPrefix ≠ n ∨ n ∈ s.rib.names →
      StatesMatch { s with rib := s.rib.insert n route } := by
    intro hn
    refine h.withRib htree ?_
    rw [mem_names_insert h.tree]
    refine ⟨fun hin => ?_, .inr⟩
    rcases hin with rfl | hin
    · exact hn.resolve_left (absurd rfl)
    · exact hin
  rw [AutoPrefixPropagator.insert]
  split
  next hn =>
    exact hother (.inr hn)
  rename_i hn
  rw [afterInsertRibEntry]
  split
  next hlocal =>
    exact hother (.inl fun he => not_local_linkLocal (he ▸ hlocal))
  rename_i hlocal
  split
  next hhub =>
    subst hhub
    have hcon : s.hasConnectedHub = false := by
      by_contra hcon
      exact hn (h.hub.mp (Bool.eq_true_of_not_eq_false hcon))
    have hnew : ∀ p e, s.propagatedEntries p = some e → e.propagationStatus = .new :=
      fun p e he => (h.status p e he).mpr hcon
    have ht := h.tracked
    have htracked : Tracked { s with
        rib := s.rib.insert linkLocalNfdPrefix route, hasConnectedHub := true } :=
      ⟨ht.keys, ht.nodup, ht.work, ht.flight, ht.timer, ht.ids, ht.once, ht.clean⟩
    exact htracked.connected htree ((mem_names_insert h.tree).mpr (.inl rfl)) rfl hnew
  rename_i hhub
  have hs := hother (.inl (Ne.symm hhub))
  cases hm : s.keyChain.shortestMatch n with
  | none =>
    have hparam : getPrefixPropagationParameters { s with rib := s.rib.insert n route } n =
      {} := parameters_of_no_match hm
    rw [hparam]
    exact hs
  | some f =>
    have hparam : getPrefixPropagationParameters { s with rib := s.rib.insert n route } n =
      _ := parameters_of_match hm
    rw [hparam]
    simp only [Bool.true_and]
    split_ifs with hnone
    · have hf : s.propagatedEntries f.1 = none := by simpa using hnone
      exact hs.created hm hf (hc hn ⟨hlocal, hhub⟩ f hm hf) rfl
    · exact hs

lemma StatesMatch.erase {n : Name String} {route : Route} (h : StatesMatch s)
    (hc : s.InTurn (.erase n route)) : StatesMatch (s.erase n route) := by
  have htree : (s.rib.erase n route).TreeInv := by
    obtain ⟨c, -, happ⟩ := apply_spec h.tree (.erase n route)
    exact happ.changed.tree
  have hother : linkLocalNfdPrefix ≠ n → StatesMatch { s with rib := s.rib.erase n route } :=
    fun hn => h.withRib htree (mem_names_erase h.tree hn)
  rw [AutoPrefixPropagator.erase]
  split_ifs with hgone
  · rw [afterEraseRibEntry]
    split
    next hlocal =>
      exact hother fun he => not_local_linkLocal (he ▸ hlocal)
    split
    next hhub =>
      subst hhub
      have hst : ∀ p e, s.propagatedEntries p = some e → e.propagationStatus ≠ .new := by
        intro p e he hnew
        have hcon := h.hub.mpr hgone.1
        rw [(h.status p e he).mp hnew] at hcon
        cases hcon
      have ht := h.tracked
      have htracked : Tracked { s with
          rib := s.rib.erase linkLocalNfdPrefix route, hasConnectedHub := false } :=
        ⟨ht.keys, ht.nodup, ht.work, ht.flight, ht.timer, ht.ids, ht.once, ht.clean⟩
      exact htracked.disconnected htree hgone.2 rfl hst (hc rfl hgone.2)
    next hhub =>
      have hs := hother (Ne.symm hhub)
      simp only
      split
      next hhas =>
        split
        · exact hs
        · obtain ⟨e, he⟩ := isSome_iff_exists.mp (Bool.and_eq_true_iff.mp hhas).2
          exact hs.released he
      · exact hs
  · refine h.withRib htree ?_
    refine ⟨mem_names_of_erase h.tree, fun hx => ?_⟩
    by_cases hn : linkLocalNfdPrefix = n
    · subst hn
      by_contra hnot
      exact hgone ⟨hx, hnot⟩
    · exact (mem_names_erase h.tree hn).mpr hx

lemma StatesMatch.step {ev : Event} (h : StatesMatch s) (hc : s.InTurn ev)
    (hs : s.step ev = some s') : StatesMatch s' := by
  cases ev with
  | insert name route =>
    cases hs
    exact h.insert hc
  | erase name route =>
    cases hs
    exact h.erase hc
  | reply i success =>
    obtain ⟨c, hci, rfl⟩ := map_eq_some_iff.mp hs
    refine h.reply hci ?_
    rintro parameters options wait rfl rfl
    exact hc parameters options wait hci
  | timer i =>
    obtain ⟨t, ht, rfl⟩ := map_eq_some_iff.mp hs
    exact h.timer ht
  | setKeyChain keyChain =>
    cases hs
    have ht := h.tracked
    exact ⟨h.tree, ⟨ht.keys, ht.nodup, hc, ht.flight, ht.timer, ht.ids, ht.once, ht.clean⟩, h.hub,
      h.status⟩

lemma statesMatch_init {config : PropagatorConfig} {keyChain : KeyChain} :
    StatesMatch { config, keyChain } := by
  refine ⟨treeInv_empty, ⟨fun p => ?_, nodup_nil, fun p hp => ?_, nofun, nofun, nofun,
    nodup_nil, rfl⟩, ?_, nofun⟩
  · simp [Has]
  · simp [Has] at hp
  · simp

/-- In every run whose steps meet the condition, every assertion of the handlers holds. -/
theorem assertions_hold_of_run {config : PropagatorConfig} {keyChain : KeyChain}
    (h : Reach step InTurn { config, keyChain } s) : s.violated = [] :=
  (h.invariant statesMatch_init
    fun _ _ _ hs hc ht => hs.step hc ht).tracked.clean

/-- The hub is gone before the register command is answered: the reply finds a new entry. -/
theorem reply_after_disconnect : ∃ s : AutoPrefixPropagator,
    Reach step (fun _ ev => ∀ k, ev ≠ .setKeyChain k)
      { keyChain := { defaultIdentity := ["a"] } } s ∧ s.violated = [.replyPropagating] :=
  ⟨_, .step (a := .reply 0 false) (.step (a := .erase linkLocalNfdPrefix {})
    (.step (a := .insert ["a"] {}) (.step (a := .insert linkLocalNfdPrefix {}) .init nofun rfl)
      nofun rfl) nofun rfl) nofun rfl, by decide +kernel⟩

/-- A prefix is propagated, refreshed and, after a failure, tried again. -/
theorem assertions_hold_of_run_retry : ∃ s : AutoPrefixPropagator,
    s.inFlight = [["a"]] ∧ s.violated = [] := by
  have hview : ∃ s : AutoPrefixPropagator, Reach step InTurn
      { config := {}, keyChain := { defaultIdentity := ["a"] } } s ∧ s.inFlight = [["a"]] :=
    ⟨_, .step (a := .timer 0) (.step (a := .reply 0 false) (.step (a := .timer 0)
      (.step (a := .reply 0 true) (.step (a := .insert ["a", "b"] {})
        (.step (a := .insert linkLocalNfdPrefix {}) .init (fun _ _ _ _ _ => nofun) rfl)
        (fun _ _ _ _ _ => nofun) rfl) (fun _ _ _ h => nomatch h) rfl) trivial rfl) trivial rfl)
      trivial rfl, by decide +kernel⟩
  obtain ⟨s, hs, hflight⟩ := hview
  exact ⟨s, hflight, assertions_hold_of_run hs⟩

end AutoPrefixPropagator

end NfdGateway
