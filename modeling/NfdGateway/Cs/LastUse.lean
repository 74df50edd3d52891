import NfdGateway.Cs.Entries
import NfdGateway.Cs.Lru
import NfdGateway.Lib.Recency
import NfdGateway.Lib.Transition

/-! The LRU policy keeps the entries that were used last. -/
namespace NfdGateway.Cs

open Store Transition Recency List Option

variable {C X S P : Type}

namespace Lru

variable {s : Store C X Lru} {i : EntryId}

structure Holds (s : Store C X Lru) : Prop where
  nodup : s.entryIds.Nodup
  fresh : ∀ i ∈ s.entryIds, i < s.nextId
  queue : s.policy.queue.Perm s.entryIds

lemma touch_eq_some {isNewEntry : Bool} (hnew : isNewEntry = true ↔ i ∉ s.policy.queue) :
    touch s i isNewEntry = some { s with policy := ⟨s.policy.queue.erase i ++ [i]⟩ } := by
  unfold touch insertToQueue
  by_cases hi : i ∈ s.policy.queue
  · obtain rfl : isNewEntry = false := eq_false_of_ne_true fun h => hnew.mp h hi
    simp [hi]
  · obtain rfl : isNewEntry = true := hnew.mpr hi
    simp [hi, erase_of_not_mem hi]

lemma Holds.length_queue (h : Holds s) : s.policy.queue.length = s.size := by
  rw [h.queue.length_eq, length_entryIds]

lemma Holds.evictOne (h : Holds s) (hlt : s.limit < s.size) :
    ∃ t i, evictOne s = some t ∧ Holds t ∧ s.policy.queue = i :: t.policy.queue ∧
      t.size + 1 = s.size ∧ t.limit = s.limit := by
  have hlength := h.length_queue
  unfold Lru.evictOne
  cases hqueue : s.policy.queue with
  | nil =>
    rw [hqueue, length_nil] at hlength
    omega
  | cons i queue =>
    have hperm : (i :: queue).Perm s.entryIds := hqueue ▸ h.queue
    have hi : i ∈ s.entryIds := hperm.mem_iff.mp (.head _)
    have hids : (eraseEntry { s with policy := Lru.mk queue } i).entryIds = s.entryIds.erase i :=
      entryIds_eraseEntry _ i
    refine ⟨_, i, rfl, ⟨?_, ?_, ?_⟩, rfl, size_eraseEntry hi, rfl⟩
    · rw [hids]
      exact h.nodup.erase i
    · rw [hids]
      exact fun j hj => h.fresh j (mem_of_mem_erase hj)
    rw [hids]
    have hrest := hperm.erase i
    rwa [erase_cons_head] at hrest

lemma Holds.evictEntries (h : Holds s) :
    ∃ t, evictEntries s = some t ∧ Holds t ∧ t.limit = s.limit ∧
      t.policy.queue = s.policy.queue.rtake s.limit := by
  let I (u : Store C X Lru) : Prop := Holds u ∧ u.policy.queue <:+ s.policy.queue ∧
    (u.policy.queue ≠ s.policy.queue → u.limit ≤ u.size)
  have hone : ∀ u, I u → u.limit < u.size →
      ∃ t, Lru.evictOne u = some t ∧ I t ∧ t.size + 1 = u.size ∧ t.limit = u.limit := by
    rintro u ⟨hu, hsuffix, -⟩ hlt
    obtain ⟨t, i, ht, hholds, hqueue, hsize, hlimit⟩ := hu.evictOne hlt
    refine ⟨t, ht, ⟨hholds, ?_, fun _ => by omega⟩, hsize, hlimit⟩
    rw [hqueue] at hsuffix
    exact (suffix_cons i _).trans hsuffix
  obtain ⟨t, ht, ⟨hholds, hsuffix, hfull⟩, hle, hlimit⟩ := evictWhile_eq_some hone
    (Nat.le_add_right s.size s.limit) ⟨h, suffix_refl _, fun hne => absurd rfl hne⟩
  refine ⟨t, ht, hholds, hlimit, eq_rtake_of_suffix hsuffix ?_⟩
  have hlength := hholds.length_queue
  by_cases hall : t.policy.queue = s.policy.queue
  · refine .inl ⟨hall, ?_⟩
    rw [← hall]
    omega
  · have hge := hfull hall
    exact .inr (by omega)

lemma rtake_queue (hle : s.size ≤ s.limit) (h : Holds s) :
    s.policy.queue.rtake s.limit = s.policy.queue :=
  (eq_rtake_of_suffix (suffix_refl _) (.inl ⟨rfl, h.length_queue.trans_le hle⟩)).symm

lemma perm_use (h : s.policy.queue.Perm s.entryIds) (hi : i ∈ s.entryIds) :
    (s.policy.queue.erase i ++ [i]).Perm s.entryIds := by
  refine perm_append_comm.trans (List.Perm.trans ?_ h)
  exact (perm_cons_erase (h.mem_iff.mpr hi)).symm

variable {past : List EntryId} {table : List (Entry C X)}

structure Ordered (past : List EntryId) (s : Store C X Lru) : Prop where
  holds : Holds s
  order : s.policy.queue.Sublist past.dedup
  size_le : s.size ≤ s.limit

/-- What an operation leaves of the entries `ids`: all of them have been used, and those used last
stay. -/
structure Keeps (past ids : List EntryId) (t : Store C X Lru) : Prop where
  used : (past.dedup.filter (· ∈ ids)).Perm ids
  last : t.policy.queue = (past.dedup.filter (· ∈ ids)).rtake t.limit

lemma Holds.filter_eq (h : Holds s) (horder : s.policy.queue.Sublist past.dedup) :
    past.dedup.filter (· ∈ s.entryIds) = s.policy.queue := by
  refine filter_eq_of_sublist horder (nodup_dedup _) fun i _ => ?_
  simp [h.queue.mem_iff]

lemma Ordered.keeps (h : Ordered past s) : Keeps past s.entryIds s := by
  have hfilter := h.holds.filter_eq h.order
  constructor
  · rw [hfilter]
    exact h.holds.queue
  · rw [hfilter, rtake_queue h.size_le h.holds]

lemma Holds.evict (h : Holds s) (horder : s.policy.queue.Sublist past.dedup) :
    ∃ t, Lru.evictEntries s = some t ∧ Ordered past t ∧ Keeps past s.entryIds t := by
  obtain ⟨t, ht, hholds, hlimit, hqueue⟩ := h.evictEntries
  have hfilter := h.filter_eq horder
  have hsub : t.policy.queue.Sublist s.policy.queue := by
    rw [hqueue]
    exact drop_sublist ..
  refine ⟨t, ht, ⟨hholds, hsub.trans horder, ?_⟩, ?_, ?_⟩
  · rw [← hholds.length_queue, hqueue, hlimit, List.rtake, length_drop]
    omega
  · rw [hfilter]
    exact h.queue
  · rw [hfilter, hqueue, hlimit]

lemma Ordered.use (h : Ordered past s) (hi : i ∈ s.entryIds)
    {nextId : EntryId} (hids : table.map (·.id) = s.entryIds) (hnext : s.nextId ≤ nextId) :
    ∃ t, touch { s with table := table, nextId := nextId } i false = some t ∧
      Ordered (past ++ [i]) t ∧ t.entryIds = s.entryIds := by
  have hmem : i ∈ s.policy.queue := h.holds.queue.mem_iff.mpr hi
  refine ⟨_, touch_eq_some (iff_of_false nofun (not_not.mpr hmem)), ⟨⟨?_, ?_, ?_⟩, ?_, ?_⟩, hids⟩
  · have hnodup : (table.map (·.id)).Nodup := hids.symm ▸ h.holds.nodup
    exact hnodup
  · exact fun j hj => Nat.lt_of_lt_of_le (h.holds.fresh j (hids ▸ hj)) hnext
  · have hperm := hids.symm ▸ perm_use h.holds.queue hi
    exact hperm
  · exact use_sublist h.order i
  have hlength := congrArg List.length hids
  rw [length_map, length_entryIds] at hlength
  exact hlength.trans_le h.size_le

lemma Ordered.push (h : Ordered past s) (hids : (table.map (·.id)).Perm (s.nextId :: s.entryIds)) :
    ∃ t, (touch { s with table := table, nextId := s.nextId + 1 } s.nextId true).bind
        Lru.evictEntries = some t ∧
      Ordered (past ++ [s.nextId]) t ∧ Keeps (past ++ [s.nextId]) (table.map (·.id)) t := by
  have hnew : s.nextId ∉ s.entryIds := fun hi => Nat.lt_irrefl _ (h.holds.fresh _ hi)
  have hqueue : s.nextId ∉ s.policy.queue := fun hi => hnew (h.holds.queue.mem_iff.mp hi)
  have hholds : Holds { s with
      table := table, nextId := s.nextId + 1
      policy := Lru.mk (s.policy.queue.erase s.nextId ++ [s.nextId]) } := by
    refine ⟨hids.nodup_iff.mpr (nodup_cons.mpr ⟨hnew, h.holds.nodup⟩), ?_, ?_⟩
    · intro j hj
      rcases mem_cons.mp (hids.mem_iff.mp hj) with rfl | hj
      · exact Nat.lt_succ_self _
      · exact Nat.lt_succ_of_lt (h.holds.fresh j hj)
    · rw [erase_of_not_mem hqueue]
      exact perm_append_comm.trans ((h.holds.queue.cons _).trans hids.symm)
  have htouch : touch { s with table := table, nextId := s.nextId + 1 } s.nextId true = _ :=
    touch_eq_some (iff_of_true rfl hqueue)
  rw [htouch]
  exact hholds.evict (use_sublist h.order s.nextId)

end Lru

variable [LinearOrder C]

def unevicted (K : Components C) (s : Store C X P) : Operation C X S → List EntryId
  | .insert data isUnsolicited now =>
    if s.limit = 0 then s.entryIds
    else if data.noCache then s.entryIds
    else (insertData K s.table s.nextId data isUnsolicited now).1.map (·.id)
  | _ => s.entryIds

namespace Lru

variable {K : Components C} {matchesData : Interest C S → Data C X → Bool} {s t : Store C X Lru}
  {past : List EntryId} {op : Operation C X S}

def Enabled (K : Components C) (matchesData : Interest C S → Data C X → Bool) (s : Store C X Lru) :
    Operation C X S → Prop
  | .find interest now => (search K matchesData s.table interest now).isSome
  | _ => True

lemma Ordered.insert (h : Ordered past s) (data : Data C X) (isUnsolicited : Bool)
    (now : Readings) :
    ∃ t, s.insert K policy data isUnsolicited now = some t ∧
      Ordered (past ++ touched K matchesData s (.insert data isUnsolicited now)) t ∧
      Keeps (past ++ touched K matchesData s (.insert data isUnsolicited now))
        (unevicted K s (.insert data isUnsolicited now : Operation C X S)) t := by
  unfold Store.insert touched unevicted
  dsimp only
  split
  · rw [append_nil]
    exact ⟨s, rfl, h, h.keeps⟩
  split
  · rw [append_nil]
    exact ⟨s, rfl, h, h.keeps⟩
  obtain ⟨table, i, isNewEntry, hinsert, -, -, hcases⟩ :=
    insertData_cases K s.table s.nextId data isUnsolicited now
  rw [hinsert]
  rcases hcases with ⟨rfl, rfl, hids⟩ | ⟨rfl, hi, hids⟩
  · exact h.push hids
  obtain ⟨t, ht, hordered, heq⟩ := h.use hi hids (Nat.le_succ _)
  refine ⟨t, ht, hordered, ?_⟩
  rw [hids, ← entryIds, ← heq]
  exact hordered.keeps

lemma Ordered.find (h : Ordered past s) {interest : Interest C S} {now : EntryId → Time}
    {found : Option (Entry C X)} (hfound : search K matchesData s.table interest now = some found) :
    ∃ t, (s.find K policy matchesData interest now).map (·.1) = some t ∧
      Ordered (past ++ touched K matchesData s (.find interest now)) t ∧
      t.entryIds = s.entryIds := by
  unfold Store.find touched
  dsimp only
  rw [hfound]
  cases found with
  | none =>
    rw [append_nil]
    exact ⟨s, rfl, h, rfl⟩
  | some e =>
    obtain ⟨t, ht, hordered, hids⟩ :=
      h.use (List.mem_map_of_mem (search_mem hfound)) rfl (Nat.le_refl _)
    refine ⟨t, ?_, hordered, hids⟩
    dsimp only [policy]
    rw [ht]
    rfl

lemma Ordered.step (h : Ordered past s) (henabled : Enabled K matchesData s op) :
    ∃ t, s.operate K policy matchesData op = some t ∧
      Ordered (past ++ touched K matchesData s op) t ∧
      Keeps (past ++ touched K matchesData s op) (unevicted K s op) t := by
  cases op with
  | insert data isUnsolicited now => exact h.insert data isUnsolicited now
  | find interest now =>
    obtain ⟨found, hfound⟩ := isSome_iff_exists.mp henabled
    obtain ⟨t, ht, hordered, hids⟩ := h.find hfound
    refine ⟨t, ht, hordered, ?_⟩
    have hkeeps := hordered.keeps
    rwa [hids] at hkeeps
  | setLimit n =>
    have hholds : Holds { s with limit := n } := ⟨h.holds.nodup, h.holds.fresh, h.holds.queue⟩
    rw [touched, append_nil]
    exact hholds.evict h.order

lemma enabled_of_operate (h : s.operate K policy matchesData op = some t) :
    Enabled K matchesData s op := by
  cases op with
  | insert data isUnsolicited now | setLimit n => trivial
  | find interest now =>
    refine isSome_iff_ne_none.mpr fun hnone => ?_
    rw [Store.operate, Store.find, hnone] at h
    cases h

def usingStep (K : Components C) (matchesData : Interest C S → Data C X → Bool)
    (r : List EntryId × Store C X Lru) (op : Operation C X S) :
    Option (List EntryId × Store C X Lru) :=
  (r.2.operate K policy matchesData op).map (r.1 ++ touched K matchesData r.2 op, ·)

lemma ordered_reach {limit : ℕ} (h : Reach (usingStep K matchesData) Any
    ([], { limit := limit, policy := {} }) (past, s)) : Ordered past s := by
  refine Reach.invariant (I := fun r => Ordered r.1 r.2) ?_ ?_ h
  · exact ⟨⟨.nil, nofun, .nil⟩, .slnil, Nat.zero_le _⟩
  rintro ⟨past, s⟩ op r hs - hstep
  obtain ⟨t, ht, rfl⟩ := map_eq_some_iff.mp hstep
  obtain ⟨t', ht', hordered, -⟩ := hs.step (enabled_of_operate ht)
  obtain rfl := some.inj (ht'.symm.trans ht)
  exact hordered

/-- In every state of a store with this policy the queue has the entries of the table once each, in
the order of last use. An operation keeps the entries used last of those there would be without
eviction, as many as the limit allows. -/
theorem last_used_kept {limit : ℕ} (h : Reach (usingStep K matchesData) Any
    ([], { limit := limit, policy := {} }) (past, s)) :
    s.policy.queue.Perm s.entryIds ∧ s.policy.queue.Nodup ∧ s.policy.queue.Sublist past.dedup ∧
      ∀ op, Enabled K matchesData s op → ∃ t, s.operate K policy matchesData op = some t ∧
        Keeps (past ++ touched K matchesData s op) (unevicted K s op) t ∧
        t.entryIds.Perm (((past ++ touched K matchesData s op).dedup.filter
          (· ∈ unevicted K s op)).rtake t.limit) := by
  have hs := ordered_reach h
  refine ⟨hs.holds.queue, hs.holds.queue.nodup_iff.mpr hs.holds.nodup, hs.order, ?_⟩
  intro op henabled
  obtain ⟨t, ht, hordered, hkeeps⟩ := hs.step henabled
  refine ⟨t, ht, hkeeps, ?_⟩
  rw [← hkeeps.last]
  exact hordered.holds.queue.symm

/-- The first of two entries is hit, so that a third one replaces the second. -/
theorem last_used_kept_satisfied :
    ∃ s : Store ℕ Unit Lru,
      Reach (usingStep numberComponents matchesName) Any ([], { limit := 2, policy := {} })
        ([0, 1, 0], s) ∧
      s.policy.queue = [1, 0] ∧
      ∃ t, s.operate numberComponents policy matchesName
          (.insert ⟨[400], 7, 3, false, ()⟩ false ⟨3, 3, 3, 3⟩) = some t ∧
        t.policy.queue = [0, 2] ∧ t.entryIds.Perm [0, 2] := by
  obtain ⟨s, hreach, hs⟩ : ∃ s : Store ℕ Unit Lru,
      Reach (usingStep numberComponents matchesName) Any ([], { limit := 2, policy := {} })
        ([0, 1, 0], s) ∧
      s = ⟨[⟨0, ⟨[200], 7, 3, false, ()⟩, false, some 3⟩,
        ⟨1, ⟨[300], 7, 3, false, ()⟩, true, some 5⟩], 2, 2, ⟨[1, 0]⟩⟩ := by
    refine ⟨_, reach_of_run (l := [.insert ⟨[200], 7, 3, false, ()⟩ false ⟨0, 0, 0, 0⟩,
      .insert ⟨[300], 7, 3, false, ()⟩ true ⟨2, 2, 2, 2⟩,
      .find ⟨[200], 0, false, ()⟩ fun _ => 2]) .init rfl, rfl⟩
  obtain ⟨-, -, -, hkept⟩ := last_used_kept hreach
  obtain ⟨t, ht, -, hperm⟩ := hkept (.insert ⟨[400], 7, 3, false, ()⟩ false ⟨3, 3, 3, 3⟩) trivial
  subst hs
  refine ⟨_, hreach, rfl, t, ht, ?_, ?_⟩
  · cases ht
    rfl
  · cases ht
    exact hperm

end Lru

end NfdGateway.Cs
