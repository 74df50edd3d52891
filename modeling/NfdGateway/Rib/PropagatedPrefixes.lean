import NfdGateway.Lib.MaxElement
import NfdGateway.Lib.Transition
import NfdGateway.Rib.AutoPrefixPropagator

/-! The prefixes that are propagated: when they are exactly those chosen for the names in the
RIB. -/
namespace NfdGateway

open Rib RibState List Option Transition

variable {x y p i : Name String} {f : Name String × Name String} {k : KeyChain}

/-! The choice of the identity. -/

namespace KeyChain

def matching (k : KeyChain) (x : Name String) : List (Name String) :=
  (k.identities ++ [k.defaultIdentity]).filter fun i => decide (identityPrefix i <+: x)

lemma shortestMatch_eq : k.shortestMatch x =
    ((k.matching x).argmin List.length).map fun i => (identityPrefix i, i) := by
  rw [shortestMatch, matching]
  generalize k.identities ++ [k.defaultIdentity] = l
  induction l using List.reverseRecOn with
  | nil => rfl
  | append_singleton l i ih =>
    rw [foldl_append, foldl_cons, foldl_nil, ih, filter_append, filter_singleton, selectIdentity]
    by_cases hi : identityPrefix i <+: x
    · rw [decide_eq_true hi, Bool.cond_true, argmin_concat]
      cases (l.filter fun i => decide (identityPrefix i <+: x)).argmin List.length with
      | none => simp [hi]
      | some c => by_cases hlt : i.length < c.length <;> simp [hi, hlt]
    · rw [decide_eq_false hi, Bool.cond_false, append_nil, if_neg fun h => hi h.1]

lemma shortestMatch_spec (h : k.shortestMatch x = some f) :
    f.1 = identityPrefix f.2 ∧ f.1 <+: x ∧ (k.matching x).argmin List.length = some f.2 := by
  rw [shortestMatch_eq] at h
  obtain ⟨i, hi, rfl⟩ := map_eq_some_iff.mp h
  have hmem := (mem_filter.mp (argmin_mem hi)).2
  exact ⟨rfl, by simpa using hmem, hi⟩

lemma shortestMatch_self (h : k.shortestMatch x = some f) : k.shortestMatch f.1 = some f := by
  obtain ⟨hf, hx, hmin⟩ := shortestMatch_spec h
  have hself : (k.matching f.1).argmin List.length = some f.2 := by
    refine MaxElement.argmin_filter ?_ ?_ hmin
    · intro j hj
      exact decide_eq_true ((of_decide_eq_true hj).trans hx)
    · exact decide_eq_true (hf ▸ prefix_refl _)
  rw [shortestMatch_eq, hself, map_some, ← hf]

lemma shortestMatch_inj {g : Name String × Name String} (hf : k.shortestMatch x = some f)
    (hg : k.shortestMatch y = some g) (h : f.1 = g.1) : f = g := by
  have hself := shortestMatch_self hf
  rw [h, shortestMatch_self hg] at hself
  exact (some.inj hself).symm

end KeyChain

namespace AutoPrefixPropagator

variable {s : AutoPrefixPropagator} {R : Rib String}

lemma parameters_of_match (h : s.keyChain.shortestMatch x = some f) :
    s.getPrefixPropagationParameters x =
      { isValid := true
        parameters := { s.config.controlParameters with name := f.1 }
        options := { s.config.commandOptions with signerName := f.2 } } := by
  rw [getPrefixPropagationParameters, h]

lemma parameters_of_no_match (h : s.keyChain.shortestMatch x = none) :
    s.getPrefixPropagationParameters x = {} := by
  rw [getPrefixPropagationParameters, h]

lemma works_iff : s.doesCurrentPropagatedPrefixWork x = true ↔
    ∃ f, s.keyChain.shortestMatch x = some f ∧ f.1.length = x.length := by
  rw [doesCurrentPropagatedPrefixWork]
  cases h : s.keyChain.shortestMatch x with
  | none => simp [parameters_of_no_match h]
  | some f => simp [parameters_of_match h]

lemma works_of_match (h : s.keyChain.shortestMatch x = some f) :
    s.doesCurrentPropagatedPrefixWork f.1 = true :=
  works_iff.mpr ⟨f, KeyChain.shortestMatch_self h, rfl⟩

lemma scan_iff (h : s.keyChain.shortestMatch x = some f) :
    (f.1 <+: y ∧ f.2 = (s.getPrefixPropagationParameters y).options.signerName) ↔
      s.keyChain.shortestMatch y = some f := by
  obtain ⟨hf, -, -⟩ := KeyChain.shortestMatch_spec h
  cases hy : s.keyChain.shortestMatch y with
  | none =>
    rw [parameters_of_no_match hy]
    refine ⟨fun ⟨hp, hsign⟩ => ?_, nofun⟩
    -- the empty identity would match
    rw [KeyChain.shortestMatch_eq, map_eq_none_iff, argmin_eq_none,
      KeyChain.matching, filter_eq_nil_iff] at hy
    have hmem : f.2 ∈ s.keyChain.identities ++ [s.keyChain.defaultIdentity] := by
      obtain ⟨-, -, hmin⟩ := KeyChain.shortestMatch_spec h
      exact (mem_filter.mp (argmin_mem hmin)).1
    exact absurd (decide_eq_true (hf ▸ hp)) (hy f.2 hmem)
  | some g =>
    obtain ⟨hg, hgy, -⟩ := KeyChain.shortestMatch_spec hy
    rw [parameters_of_match hy, some_inj]
    constructor
    · rintro ⟨-, hsign⟩
      have hsign : f.2 = g.2 := hsign
      exact Prod.ext (by rw [hf, hg, hsign]) hsign.symm
    · rintro rfl
      exact ⟨hgy, rfl⟩

/-! The names of the RIB. -/

lemma mem_names_insert (hR : R.TreeInv) {n : Name String} {route : Route} :
    x ∈ (R.insert n route).names ↔ x = n ∨ x ∈ R.names := by
  obtain ⟨c, ho, happ⟩ := apply_spec hR (.insert n route)
  have happ : ChangedAt R (R.insert n route) n c := happ.changed
  by_cases hx : x = n
  · subst hx
    have hsome : c.isSome := by cases ho <;> rfl
    rw [← happ.self, content_isSome] at hsome
    simp [hsome]
  · rw [← content_isSome, happ.other x hx, content_isSome]
    simp [hx]

lemma mem_names_erase (hR : R.TreeInv) {n : Name String} {route : Route}
    (hx : x ≠ n) : x ∈ (R.erase n route).names ↔ x ∈ R.names := by
  obtain ⟨c, -, happ⟩ := apply_spec hR (.erase n route)
  have happ : ChangedAt R (R.erase n route) n c := happ.changed
  rw [← content_isSome, happ.other x hx, content_isSome]

lemma mem_names_of_erase (hR : R.TreeInv) {n : Name String} {route : Route}
    (hx : x ∈ (R.erase n route).names) : x ∈ R.names := by
  obtain ⟨c, ho, happ⟩ := apply_spec hR (.erase n route)
  have happ : ChangedAt R (R.erase n route) n c := happ.changed
  by_cases hxn : x = n
  · subst hxn
    by_contra hnot
    rw [← content_isSome, happ.self] at hx
    cases ho with
    | erased hn _ => exact hnot hn
    | nothing _ =>
      rw [content_of_not_mem hnot] at hx
      cases hx
  · exact (mem_names_erase hR hxn).mp hx

/-! What the handlers leave of the map of propagated entries. -/

def Has (s : AutoPrefixPropagator) (p : Name String) : Prop := (s.propagatedEntries p).isSome

def KeysMatch (s : AutoPrefixPropagator) : Prop := ∀ p, p ∈ s.keys ↔ s.Has p

structure SamePrefixes (s s' : AutoPrefixPropagator) : Prop where
  rib : s'.rib = s.rib
  keyChain : s'.keyChain = s.keyChain
  has : ∀ p, s'.Has p ↔ s.Has p
  keys : ∀ p, p ∈ s'.keys ↔ p ∈ s.keys

variable {s' s'' : AutoPrefixPropagator} {e : PropagatedEntry} {parameters : ControlParameters}
  {options : CommandOptions} {wait : ℕ} {event : RePropagation}

lemma SamePrefixes.refl : SamePrefixes s s := ⟨rfl, rfl, fun _ => Iff.rfl, fun _ => Iff.rfl⟩

lemma SamePrefixes.trans (h : SamePrefixes s s') (h' : SamePrefixes s' s'') : SamePrefixes s s'' :=
  ⟨h'.rib.trans h.rib, h'.keyChain.trans h.keyChain, fun p => (h'.has p).trans (h.has p),
    fun p => (h'.keys p).trans (h.keys p)⟩

lemma SamePrefixes.keysMatch (h : SamePrefixes s s') (hk : s.KeysMatch) : s'.KeysMatch :=
  fun p => (h.keys p).trans ((hk p).trans (h.has p).symm)

lemma samePrefixes_check {a : Assertion} {b : Bool} : SamePrefixes s (s.check a b) := by
  rw [check]
  split <;> exact ⟨rfl, rfl, fun _ => Iff.rfl, fun _ => Iff.rfl⟩

lemma samePrefixes_cancel {o : Option ℕ} : SamePrefixes s (s.cancel o) := by
  cases o <;> exact ⟨rfl, rfl, fun _ => Iff.rfl, fun _ => Iff.rfl⟩

lemma samePrefixes_setEntry (hk : s.KeysMatch) (hp : s.Has p) :
    SamePrefixes s (s.setEntry p e) := by
  refine ⟨rfl, rfl, fun q => ?_, fun q => ?_⟩
  · by_cases hq : q = p
    · subst hq
      simpa [Has, setEntry] using hp
    · simp [Has, setEntry, hq]
  · simp [setEntry, (hk p).mpr hp]

lemma has_setEntry {q : Name String} : (s.setEntry p e).Has q ↔ q = p ∨ s.Has q := by
  by_cases hq : q = p <;> simp [Has, setEntry, hq]

lemma keysMatch_setEntry (hk : s.KeysMatch) : (s.setEntry p e).KeysMatch := by
  intro q
  rw [has_setEntry, ← hk q, setEntry]
  split_ifs with hp
  · constructor
    · exact .inr
    rintro (rfl | hq)
    · exact hp
    · exact hq
  · simp [or_comm]

lemma has_eraseEntry {q : Name String} : (s.eraseEntry p e).Has q ↔ q ≠ p ∧ s.Has q := by
  by_cases hq : q = p <;> simp [Has, eraseEntry, hq]

lemma keysMatch_eraseEntry (hk : s.KeysMatch) : (s.eraseEntry p e).KeysMatch := by
  intro q
  rw [has_eraseEntry, ← hk q]
  simp [eraseEntry, and_comm]

lemma rib_eraseEntry : (s.eraseEntry p e).rib = s.rib := samePrefixes_cancel.rib

lemma keyChain_eraseEntry : (s.eraseEntry p e).keyChain = s.keyChain :=
  samePrefixes_cancel.keyChain

lemma samePrefixes_schedule {delay : ℕ} : SamePrefixes s (s.schedule e delay event) := by
  have hcancel : SamePrefixes s (s.cancel e.rePropagateEvent) := samePrefixes_cancel
  exact ⟨hcancel.rib, hcancel.keyChain, hcancel.has, hcancel.keys⟩

lemma samePrefixes_redoPropagation {hubConnect : AutoPrefixPropagator → AutoPrefixPropagator}
    (hk : s.KeysMatch) (hp : s.Has parameters.name)
    (hw : s.doesCurrentPropagatedPrefixWork parameters.name = true) :
    SamePrefixes s (s.redoPropagation hubConnect e parameters options wait) := by
  rw [redoPropagation, if_pos hw]
  have hset : SamePrefixes s (s.setEntry parameters.name e.startPropagation) :=
    samePrefixes_setEntry hk hp
  exact ⟨hset.rib, hset.keyChain, hset.has, hset.keys⟩

def AllWork (s : AutoPrefixPropagator) : Prop :=
  ∀ p, s.Has p → s.doesCurrentPropagatedPrefixWork p = true

lemma SamePrefixes.allWork (h : SamePrefixes s s') (hw : s.AllWork) : s'.AllWork := by
  intro p hp
  rw [works_iff, h.keyChain, ← works_iff]
  exact hw p ((h.has p).mp hp)

lemma samePrefixes_redoEntry {hubConnect : AutoPrefixPropagator → AutoPrefixPropagator}
    (hk : s.KeysMatch) (hw : s.AllWork) : SamePrefixes s (s.redoEntry hubConnect p) := by
  rw [redoEntry]
  split
  · exact .refl
  rename_i entry hentry
  have hp : s.Has p := by simp [Has, hentry]
  exact samePrefixes_redoPropagation hk hp (hw p hp)

lemma samePrefixes_afterHubConnect {fuel : ℕ} (hk : s.KeysMatch) (hw : s.AllWork) :
    SamePrefixes s (afterHubConnect fuel s) := by
  cases fuel with
  | zero => exact .refl
  | succ fuel =>
    -- along the loop over the entries
    have hloop : ∀ (l : List (Name String)) (s : AutoPrefixPropagator), s.KeysMatch → s.AllWork →
        SamePrefixes s (l.foldl (fun s' name => s'.redoEntry (afterHubConnect fuel) name) s) := by
      intro l
      induction l with
      | nil => exact fun _ _ _ => .refl
      | cons name l ih =>
        intro s hk hw
        have hone : SamePrefixes s (s.redoEntry (afterHubConnect fuel) name) :=
          samePrefixes_redoEntry hk hw
        exact hone.trans (ih _ (hone.keysMatch hk) (hone.allWork hw))
    have hcheck : SamePrefixes s (s.check .connectNew
        (s.keys.all fun name => (s.propagatedEntries name).all (·.isNew))) := samePrefixes_check
    exact hcheck.trans (hloop _ _ (hcheck.keysMatch hk) (hcheck.allWork hw))

lemma samePrefixes_afterHubDisconnect : SamePrefixes s s.afterHubDisconnect := by
  have hcheck : SamePrefixes s (s.check .disconnectNotNew
      (s.keys.all fun name => (s.propagatedEntries name).all (!·.isNew))) := samePrefixes_check
  exact ⟨hcheck.rib, hcheck.keyChain, fun p => by simp [Has, afterHubDisconnect], hcheck.keys⟩

/-! The handlers of replies and timers. -/

lemma has_of_eq (h : s.propagatedEntries p = some e) : s.Has p := by simp [Has, h]

lemma samePrefixes_assign {a : Assertion} {b : Bool} {delay : ℕ}
    {e' : PropagatedEntry} (hk : s.KeysMatch) (hp : s.Has p) :
    SamePrefixes s (((s.check a b).schedule e delay event).setEntry p e') := by
  have hscheduled : SamePrefixes s ((s.check a b).schedule e delay event) :=
    samePrefixes_check.trans samePrefixes_schedule
  exact hscheduled.trans (samePrefixes_setEntry (hscheduled.keysMatch hk)
    ((hscheduled.has p).mpr hp))

lemma samePrefixes_onReply {c : PropagationCommand} {success : Bool} (hk : s.KeysMatch) :
    SamePrefixes s (s.onReply c success) := by
  cases c with
  | register parameters options wait =>
    cases success with
    | true =>
      change SamePrefixes s (s.afterPropagateSucceed parameters options)
      rw [afterPropagateSucceed]
      split
      · exact ⟨rfl, rfl, fun _ => Iff.rfl, fun _ => Iff.rfl⟩
      next entry hentry =>
        exact samePrefixes_assign hk (has_of_eq hentry)
    | false =>
      change SamePrefixes s (s.afterPropagateFail parameters options wait)
      rw [afterPropagateFail]
      split
      · exact .refl
      next entry hentry =>
        exact samePrefixes_assign hk (has_of_eq hentry)
  | revoke parameters options wait =>
    cases success with
    | true =>
      change SamePrefixes s (s.afterRevokeSucceed parameters options wait)
      rw [afterRevokeSucceed]
      split
      · exact .refl
      rename_i entry hentry
      split
      · exact .refl
      have hcheck : SamePrefixes s (s.check .revokedNotNew !entry.isNew) := samePrefixes_check
      have hset := hcheck.trans (samePrefixes_setEntry (e := entry.startPropagation)
        (hcheck.keysMatch hk) ((hcheck.has _).mpr (has_of_eq hentry)))
      exact ⟨hset.rib, hset.keyChain, hset.has, hset.keys⟩
    | false => exact .refl

lemma samePrefixes_onTimer (hk : s.KeysMatch) (hw : s.AllWork) :
    SamePrefixes s (s.onTimer event) := by
  have hredo : ∀ {a : Assertion} {b : Bool} {parameters options wait entry},
      s.propagatedEntries parameters.name = some entry →
      SamePrefixes s ((s.check a b).redoPropagation hubConnect entry parameters options wait) := by
    intro a b parameters options wait entry hentry
    have hcheck : SamePrefixes s (s.check a b) := samePrefixes_check
    have hp := (hcheck.has _).mpr (has_of_eq hentry)
    exact hcheck.trans (samePrefixes_redoPropagation (hcheck.keysMatch hk) hp
      (hcheck.allWork hw _ hp))
  cases event with
  | refresh parameters options =>
    change SamePrefixes s (s.onRefreshTimer parameters options)
    rw [onRefreshTimer]
    split
    · exact samePrefixes_check
    next entry hentry =>
      exact hredo hentry
  | retry parameters options wait =>
    change SamePrefixes s (s.onRetryTimer parameters options wait)
    rw [onRetryTimer]
    split
    · exact samePrefixes_check
    next entry hentry =>
      exact hredo hentry

structure Leaves (s s' : AutoPrefixPropagator) (Present : Name String → Prop) : Prop where
  rib : s'.rib = s.rib
  keyChain : s'.keyChain = s.keyChain
  keys : s'.KeysMatch
  has : ∀ p, s'.Has p ↔ Present p

lemma leaves_afterRibInsert (hk : s.KeysMatch) :
    Leaves s (s.afterRibInsert parameters options) fun q => q = parameters.name ∨ s.Has q := by
  have hset : ∀ e : PropagatedEntry, Leaves s ((s.check .insertReleased
      (s.propagatedEntries parameters.name).isNone).setEntry parameters.name e)
      fun q => q = parameters.name ∨ s.Has q := by
    intro e
    have hcheck : SamePrefixes s (s.check .insertReleased
      (s.propagatedEntries parameters.name).isNone) := samePrefixes_check
    refine ⟨hcheck.rib, hcheck.keyChain, keysMatch_setEntry (hcheck.keysMatch hk), fun q => ?_⟩
    rw [has_setEntry, hcheck.has]
  rw [afterRibInsert]
  split
  · obtain ⟨hrib, hkey, hkeys, hhas⟩ := hset
      (PropagatedEntry.startPropagation { signingIdentity := options.signerName })
    exact ⟨hrib, hkey, hkeys, hhas⟩
  · exact hset _

lemma leaves_afterRibErase (hk : s.KeysMatch) (hp : s.Has parameters.name) :
    Leaves s (s.afterRibErase parameters options) fun q => q ≠ parameters.name ∧ s.Has q := by
  obtain ⟨entry, hentry⟩ := isSome_iff_exists.mp hp
  have herase : Leaves s (s.eraseEntry parameters.name entry)
      fun q => q ≠ parameters.name ∧ s.Has q :=
    ⟨rib_eraseEntry, keyChain_eraseEntry, keysMatch_eraseEntry hk, fun _ => has_eraseEntry⟩
  rw [afterRibErase, hentry]
  simp only
  split
  · exact ⟨herase.rib, herase.keyChain, herase.keys, herase.has⟩
  · exact herase

/-! The names for which a prefix is propagated. -/

def Propagable (x : Name String) : Prop :=
  ¬ localRegistrationPrefix <+: x ∧ x ≠ linkLocalNfdPrefix

instance (x : Name String) : Decidable (Propagable x) := inferInstanceAs (Decidable (_ ∧ _))

structure PrefixesMatch (s : AutoPrefixPropagator) : Prop where
  tree : s.rib.TreeInv
  keys : s.KeysMatch
  chosen : ∀ p, s.Has p ↔ ∃ x ∈ s.rib.names, Propagable x ∧
    ∃ i, s.keyChain.shortestMatch x = some (p, i)

lemma PrefixesMatch.allWork (h : PrefixesMatch s) : s.AllWork := by
  intro p hp
  obtain ⟨x, -, -, i, hi⟩ := (h.chosen p).mp hp
  exact works_of_match hi

lemma PrefixesMatch.same (h : PrefixesMatch s) (hs : SamePrefixes s s') : PrefixesMatch s' := by
  refine ⟨hs.rib ▸ h.tree, hs.keysMatch h.keys, fun p => ?_⟩
  rw [hs.has, h.chosen, hs.rib, hs.keyChain]

variable {n : Name String} {route : Route}

lemma chosen_iff (hn : Propagable n) (hm : k.shortestMatch n = some f) :
    (Propagable n ∧ ∃ i, k.shortestMatch n = some (p, i)) ↔ p = f.1 := by
  constructor
  · rintro ⟨-, i, hi⟩
    rw [hm] at hi
    exact (congrArg Prod.fst (some.inj hi)).symm
  · rintro rfl
    exact ⟨hn, f.2, hm⟩

lemma PrefixesMatch.inserted (h : PrefixesMatch s)
    (hrib : s'.rib = s.rib.insert n route) (hk : s'.keyChain = s.keyChain) (hkeys : s'.KeysMatch)
    (hhas : ∀ p, s'.Has p ↔
      (Propagable n ∧ ∃ i, s.keyChain.shortestMatch n = some (p, i)) ∨ s.Has p) :
    PrefixesMatch s' := by
  have htree : (s.rib.insert n route).TreeInv := by
    obtain ⟨c, -, happ⟩ := apply_spec h.tree (.insert n route)
    exact happ.changed.tree
  refine ⟨hrib ▸ htree, hkeys, fun p => ?_⟩
  rw [hhas, h.chosen, hrib, hk]
  constructor
  · rintro (⟨hn, hi⟩ | ⟨x, hx, hxi⟩)
    · exact ⟨n, (mem_names_insert h.tree).mpr (.inl rfl), hn, hi⟩
    · exact ⟨x, (mem_names_insert h.tree).mpr (.inr hx), hxi⟩
  rintro ⟨x, hx, hxi⟩
  rcases (mem_names_insert h.tree).mp hx with rfl | hx
  · exact .inl hxi
  · exact .inr ⟨x, hx, hxi⟩

lemma PrefixesMatch.afterInsertRibEntry (h : PrefixesMatch s) :
    PrefixesMatch ({ s with rib := s.rib.insert n route }.afterInsertRibEntry hubConnect n) := by
  have hno : ∀ {s' : AutoPrefixPropagator}, s'.rib = s.rib.insert n route →
      s'.keyChain = s.keyChain → s'.KeysMatch → (∀ p, s'.Has p ↔ s.Has p) →
      (Propagable n → s.keyChain.shortestMatch n = none) → PrefixesMatch s' := by
    intro s' hrib hk hkeys hhas hnone
    refine h.inserted hrib hk hkeys fun p => (hhas p).trans ⟨.inr, ?_⟩
    rintro (⟨hn, i, hi⟩ | hp)
    · rw [hnone hn] at hi
      cases hi
    · exact hp
  rw [AutoPrefixPropagator.afterInsertRibEntry]
  split
  next hlocal =>
    exact hno rfl rfl h.keys (fun _ => Iff.rfl) fun hn => absurd hlocal hn.1
  rename_i hlocal
  split
  next hhub =>
    have hsame : SamePrefixes { s with rib := s.rib.insert n route, hasConnectedHub := true }
        (hubConnect { s with rib := s.rib.insert n route, hasConnectedHub := true }) :=
      samePrefixes_afterHubConnect h.keys h.allWork
    exact hno hsame.rib hsame.keyChain (hsame.keysMatch h.keys) hsame.has fun hn => absurd hhub hn.2
  rename_i hhub
  cases hm : s.keyChain.shortestMatch n with
  | none =>
    have hparam : getPrefixPropagationParameters { s with rib := s.rib.insert n route } n = {} :=
      parameters_of_no_match hm
    rw [hparam]
    exact hno rfl rfl h.keys (fun _ => Iff.rfl) fun _ => hm
  | some f =>
    have hparam : getPrefixPropagationParameters { s with rib := s.rib.insert n route } n = _ :=
      parameters_of_match hm
    have hchosen : ∀ p, _ ↔ p = f.1 := fun p => chosen_iff ⟨hlocal, hhub⟩ hm
    rw [hparam]
    simp only
    split_ifs with hpresent
    · have hspec : Leaves { s with rib := s.rib.insert n route }
          (afterRibInsert { s with rib := s.rib.insert n route }
            { s.config.controlParameters with name := f.1 }
            { s.config.commandOptions with signerName := f.2 }) _ :=
        leaves_afterRibInsert h.keys
      refine h.inserted hspec.rib hspec.keyChain hspec.keys fun p => ?_
      rw [hspec.has, hchosen]
      rfl
    have hf : s.Has f.1 := by
      cases hentry : s.propagatedEntries f.1 with
      | none => simp [hentry] at hpresent
      | some entry => exact has_of_eq hentry
    refine h.inserted rfl rfl h.keys fun p => ?_
    rw [hchosen]
    refine ⟨.inr, ?_⟩
    rintro (rfl | hp)
    · exact hf
    · exact hp

lemma PrefixesMatch.erased (h : PrefixesMatch s) (htree : s'.rib.TreeInv)
    (hnames : ∀ x, x ∈ s'.rib.names ↔ x ≠ n ∧ x ∈ s.rib.names)
    (hk : s'.keyChain = s.keyChain) (hkeys : s'.KeysMatch)
    (hhas : ∀ p, s'.Has p ↔ s.Has p ∧
      ((Propagable n ∧ ∃ i, s.keyChain.shortestMatch n = some (p, i)) →
        ∃ z ∈ s'.rib.names, Propagable z ∧ ∃ i, s.keyChain.shortestMatch z = some (p, i))) :
    PrefixesMatch s' := by
  refine ⟨htree, hkeys, fun p => ?_⟩
  rw [hhas, h.chosen, hk]
  constructor
  · rintro ⟨⟨x, hx, hxi⟩, hother⟩
    by_cases hxn : x = n
    · exact hother (hxn ▸ hxi)
    · exact ⟨x, (hnames x).mpr ⟨hxn, hx⟩, hxi⟩
  · rintro ⟨x, hx, hxi⟩
    exact ⟨⟨x, ((hnames x).mp hx).2, hxi⟩, fun _ => ⟨x, hx, hxi⟩⟩

/-- The condition: the identities stay the same, and when the last name for a prefix is erased,
that prefix is not chosen for a name in the RIB that is never propagated. -/
def ReleaseUnhindered (s : AutoPrefixPropagator) : Event → Prop
  | .setKeyChain _ => False
  | .erase name route => ∀ f, name ∈ s.rib.names → name ∉ (s.rib.erase name route).names →
      Propagable name →
      s.keyChain.shortestMatch name = some f →
      (∃ y ∈ s.rib.names, ¬ Propagable y ∧ s.keyChain.shortestMatch y = some f) →
      ∃ z ∈ s.rib.names, z ≠ name ∧ Propagable z ∧ s.keyChain.shortestMatch z = some f
  | _ => True

lemma PrefixesMatch.afterEraseRibEntry {t : AutoPrefixPropagator} (h : PrefixesMatch s)
    (hn : n ∈ s.rib.names) (htree : t.rib.TreeInv)
    (hnames : ∀ x, x ∈ t.rib.names ↔ x ≠ n ∧ x ∈ s.rib.names)
    (hk : t.keyChain = s.keyChain) (hkeys : t.KeysMatch) (hhas : ∀ p, t.Has p ↔ s.Has p)
    (hc : ∀ f, Propagable n → s.keyChain.shortestMatch n = some f →
      (∃ y ∈ s.rib.names, ¬ Propagable y ∧ s.keyChain.shortestMatch y = some f) →
      ∃ z ∈ s.rib.names, z ≠ n ∧ Propagable z ∧ s.keyChain.shortestMatch z = some f) :
    PrefixesMatch (t.afterEraseRibEntry n) := by
  have hno : ∀ {s' : AutoPrefixPropagator}, SamePrefixes t s' →
      (Propagable n → s.keyChain.shortestMatch n = none) → PrefixesMatch s' := by
    intro s' hsame hnone
    refine h.erased (hsame.rib ▸ htree) (hsame.rib ▸ hnames) (hsame.keyChain.trans hk)
      (hsame.keysMatch hkeys) fun p => ?_
    rw [hsame.has, hhas, iff_self_and]
    rintro - ⟨hprop, i, hi⟩
    rw [hnone hprop] at hi
    cases hi
  rw [AutoPrefixPropagator.afterEraseRibEntry]
  split
  next hlocal =>
    exact hno .refl fun hprop => absurd hlocal hprop.1
  rename_i hlocal
  split
  next hhub =>
    have hsame : SamePrefixes { t with hasConnectedHub := false }
        (afterHubDisconnect { t with hasConnectedHub := false }) :=
      samePrefixes_afterHubDisconnect
    exact hno ⟨hsame.rib, hsame.keyChain, hsame.has, hsame.keys⟩ fun hprop => absurd hhub hprop.2
  rename_i hhub
  have hprop : Propagable n := ⟨hlocal, hhub⟩
  cases hm : s.keyChain.shortestMatch n with
  | none =>
    rw [parameters_of_no_match (hk ▸ hm)]
    exact hno .refl fun _ => hm
  | some f =>
    have hmt := hk ▸ hm
    have hf : t.Has f.1 := (hhas f.1).mpr ((h.chosen f.1).mpr ⟨n, hn, hprop, f.2, hm⟩)
    have hchosen : ∀ p, _ ↔ p = f.1 := fun p => chosen_iff hprop hm
    have hscan : (t.rib.names.any fun x => f.1.isPrefixOf x &&
        f.2 == (t.getPrefixPropagationParameters x).options.signerName) = true ↔
        ∃ y ∈ t.rib.names, s.keyChain.shortestMatch y = some f := by
      simp only [List.any_eq_true, Bool.and_eq_true, isPrefixOf_iff_prefix, beq_iff_eq,
        scan_iff hmt, hk]
    rw [parameters_of_match hmt]
    simp only [Bool.true_and]
    rw [if_pos (show (t.propagatedEntries f.1).isSome = true from hf)]
    split
    · -- the scan finds a name: one that is propagated, or there is another such one
      rename_i hfound
      obtain ⟨y, hy, hyf⟩ := hscan.mp hfound
      have hz : ∃ z ∈ t.rib.names, Propagable z ∧ s.keyChain.shortestMatch z = some f := by
        by_cases hyp : Propagable y
        · exact ⟨y, hy, hyp, hyf⟩
        obtain ⟨z, hz, hzn, hzp, hzf⟩ := hc f hprop hm ⟨y, ((hnames y).mp hy).2, hyp, hyf⟩
        exact ⟨z, (hnames z).mpr ⟨hzn, hz⟩, hzp, hzf⟩
      refine h.erased htree hnames hk hkeys fun p => ?_
      rw [hhas, hchosen, iff_self_and]
      rintro - rfl
      obtain ⟨z, hz, hzp, hzf⟩ := hz
      exact ⟨z, hz, hzp, f.2, hzf⟩
    next hnot =>
      have hspec : Leaves t (t.afterRibErase
          { t.config.controlParameters with name := f.1, cost := none }
          { t.config.commandOptions with signerName := f.2 }) (fun q => q ≠ f.1 ∧ t.Has q) :=
        leaves_afterRibErase hkeys hf
      refine h.erased (hspec.rib.symm ▸ htree) (hspec.rib.symm ▸ hnames)
        (hspec.keyChain.trans hk) hspec.keys fun p => ?_
      rw [hspec.has, hchosen, hhas]
      refine ⟨fun hp => ⟨hp.2, fun he => absurd he hp.1⟩, fun hp => ⟨?_, hp.1⟩⟩
      -- another name that needs the prefix would have been found
      rintro rfl
      obtain ⟨z, hz, hzp, i, hzi⟩ := hp.2 rfl
      have hfi : f = (f.1, i) := KeyChain.shortestMatch_inj hm hzi rfl
      exact hnot (hscan.mpr ⟨z, hspec.rib ▸ hz, hfi ▸ hzi⟩)

lemma PrefixesMatch.insert (h : PrefixesMatch s) : PrefixesMatch (s.insert n route) := by
  rw [AutoPrefixPropagator.insert]
  split_ifs with hn
  · refine h.inserted rfl rfl h.keys fun p => ⟨.inr, ?_⟩
    rintro (hnew | hp)
    · exact (h.chosen p).mpr ⟨n, hn, hnew⟩
    · exact hp
  · exact h.afterInsertRibEntry

lemma PrefixesMatch.erase (h : PrefixesMatch s) (hc : s.ReleaseUnhindered (.erase n route)) :
    PrefixesMatch (s.erase n route) := by
  have htree : (s.rib.erase n route).TreeInv := by
    obtain ⟨c, -, happ⟩ := apply_spec h.tree (.erase n route)
    exact happ.changed.tree
  rw [AutoPrefixPropagator.erase]
  split_ifs with hgone
  · refine h.afterEraseRibEntry hgone.1 htree (fun x => ?_) rfl h.keys (fun _ => Iff.rfl)
      fun f => hc f hgone.1 hgone.2
    by_cases hx : x = n
    · subst hx
      exact ⟨fun hin => absurd hin hgone.2, fun hin => absurd rfl hin.1⟩
    · simp [hx, mem_names_erase h.tree hx]
  refine ⟨htree, h.keys, fun p => (h.chosen p).trans ?_⟩
  have hsame : ∀ x, x ∈ (s.rib.erase n route).names ↔ x ∈ s.rib.names := by
    intro x
    refine ⟨mem_names_of_erase h.tree, fun hx => ?_⟩
    by_cases hxn : x = n
    · subst hxn
      by_contra hnot
      exact hgone ⟨hx, hnot⟩
    · exact (mem_names_erase h.tree hxn).mpr hx
  simp only [hsame]

lemma PrefixesMatch.step {ev : Event} (h : PrefixesMatch s) (hc : s.ReleaseUnhindered ev)
    (hs : s.step ev = some s') : PrefixesMatch s' := by
  cases ev with
  | insert name route =>
    cases hs
    exact h.insert
  | erase name route =>
    cases hs
    exact h.erase hc
  | reply i success =>
    obtain ⟨c, -, rfl⟩ := map_eq_some_iff.mp hs
    have hs : PrefixesMatch { s with commands := s.commands.eraseIdx i } :=
      ⟨h.tree, h.keys, h.chosen⟩
    exact hs.same (samePrefixes_onReply hs.keys)
  | timer i =>
    obtain ⟨t, -, rfl⟩ := map_eq_some_iff.mp hs
    have hs : PrefixesMatch { s with timers := s.timers.eraseIdx i } := ⟨h.tree, h.keys, h.chosen⟩
    exact hs.same (samePrefixes_onTimer hs.keys hs.allWork)
  | setKeyChain keyChain => exact hc.elim

lemma prefixesMatch_init {config : PropagatorConfig} : PrefixesMatch { config, keyChain := k } := by
  refine ⟨treeInv_empty, fun p => ?_, fun p => ?_⟩
  · simp [Has]
  · simp [Has]

def PropagatesChosen (s : AutoPrefixPropagator) : Prop :=
  ∀ p, p ∈ s.keys ↔ ∃ x ∈ s.rib.names, Propagable x ∧
    (s.getPrefixPropagationParameters x).isValid = true ∧
    (s.getPrefixPropagationParameters x).parameters.name = p

lemma PrefixesMatch.propagatesChosen (h : PrefixesMatch s) : s.PropagatesChosen := by
  intro p
  rw [h.keys, h.chosen]
  refine exists_congr fun x => and_congr_right fun _ => and_congr_right fun _ => ?_
  cases hm : s.keyChain.shortestMatch x with
  | none => simp [parameters_of_no_match hm]
  | some f =>
    rw [parameters_of_match hm]
    constructor
    · rintro ⟨i, hi⟩
      exact ⟨rfl, congrArg Prod.fst (some.inj hi)⟩
    · rintro ⟨-, rfl⟩
      exact ⟨f.2, rfl⟩

/-- In every run with the same identities whose erasures meet the condition, the keys of the
propagated entries are the prefixes chosen for the names in the RIB. -/
theorem propagates_chosen_of_run {config : PropagatorConfig}
    (h : Reach step ReleaseUnhindered { config, keyChain := k } s) :
    s.PropagatesChosen :=
  (h.invariant prefixesMatch_init
    fun _ _ _ hs hc ht => hs.step hc ht).propagatesChosen

/-- The identity is for all names. A name for local use is in the RIB when the only other name is
erased, and the prefix stays. -/
theorem prefix_not_released : ∃ s : AutoPrefixPropagator,
    Reach step (fun _ ev => ∀ k, ev ≠ .setKeyChain k)
      { keyChain := { defaultIdentity := ["nrd"] } } s ∧
      s.rib.names = [["localhost", "nfd"]] ∧ [] ∈ s.keys ∧ ¬ s.PropagatesChosen := by
  have hview : ∃ s : AutoPrefixPropagator,
      Reach step (fun _ ev => ∀ k, ev ≠ .setKeyChain k)
        { keyChain := { defaultIdentity := ["nrd"] } } s ∧
        s.rib.names = [["localhost", "nfd"]] ∧ [] ∈ s.keys :=
    ⟨_, .step (a := .erase ["a"] {}) (.step (a := .insert ["a"] {})
      (.step (a := .insert ["localhost", "nfd"] {}) .init nofun rfl) nofun rfl) nofun rfl,
      by decide +kernel, by decide +kernel⟩
  obtain ⟨s, hs, hnames, hkey⟩ := hview
  refine ⟨s, hs, hnames, hkey, fun h => ?_⟩
  obtain ⟨x, hx, hprop, -⟩ := (h []).mp hkey
  rw [hnames, mem_singleton] at hx
  exact hprop.1 (hx ▸ by decide)

/-- Two names under one identity: the prefix stays when one of them is erased. -/
theorem propagates_chosen_of_run_two : ∃ s : AutoPrefixPropagator,
    s.rib.names = [["a", "b"]] ∧ s.keys = [["a"]] ∧ s.PropagatesChosen := by
  have hall : ∀ y ∈ ([["a"], ["a", "b"]] : List (Name String)), Propagable y := by decide
  have hview : ∃ s : AutoPrefixPropagator, Reach step ReleaseUnhindered
      { config := {}, keyChain := { defaultIdentity := ["a", "nrd"] } } s ∧
        s.rib.names = [["a", "b"]] ∧ s.keys = [["a"]] :=
    ⟨_, .step (a := .erase ["a"] {}) (.step (a := .insert ["a", "b"] {})
      (.step (a := .insert ["a"] {}) .init trivial rfl) trivial rfl)
      (fun _ _ _ _ _ ⟨y, hy, hyp, _⟩ => absurd (hall y hy) hyp) rfl,
      by decide +kernel, by decide +kernel⟩
  obtain ⟨s, hs, hview⟩ := hview
  exact ⟨s, hview.1, hview.2, propagates_chosen_of_run hs⟩

end AutoPrefixPropagator

end NfdGateway
