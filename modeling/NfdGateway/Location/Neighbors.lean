import NfdGateway.Location.Nexthops

/-! The neighbor entries of the route table: what each event does to them. -/
namespace NfdGateway.Location

open List Option Transition

variable {P : Params} {s s' : State} {dest : Coordinate} {t u v : RouteTable} {e : RouteTableEntry}
  {a : Coordinate × RouteTableEntry}

def neighborRows (t : RouteTable) : List (Coordinate × Coordinate × FaceId) :=
  (t.filter (·.2.reach = .neighbor)).map fun p => (p.1, p.2.nexthop, p.2.face)

def rowsOf (ns : NeighborsList) : List (Coordinate × Coordinate × FaceId) :=
  ns.map fun n => (n.1, n.1, n.2)

@[simp] lemma neighborRows_cons (p : Coordinate × RouteTableEntry) :
    neighborRows (p :: t) = if p.2.reach = .neighbor then
      (p.1, p.2.nexthop, p.2.face) :: neighborRows t else neighborRows t := by
  by_cases h : p.2.reach = .neighbor <;> simp [neighborRows, h]

@[simp] lemma neighborRows_nil : neighborRows [] = [] := rfl

@[simp] lemma neighborRows_append :
    neighborRows (t ++ u) = neighborRows t ++ neighborRows u := by
  simp [neighborRows]

lemma mem_neighborRows {r : Coordinate × Coordinate × FaceId} :
    r ∈ neighborRows t ↔ ∃ e, (r.1, e) ∈ t ∧ e.reach = .neighbor ∧ e.nexthop = r.2.1 ∧
      e.face = r.2.2 := by
  simp [neighborRows]
  grind

lemma neighborRows_insertIdx (i : ℕ)
    (ha : a.2.reach ≠ .neighbor) : neighborRows (t.insertIdx i a) = neighborRows t := by
  induction t generalizing i with
  | nil => cases i <;> simp [ha]
  | cons p t ih =>
    cases i with
    | zero => simp [ha]
    | succ i => simp [ih]

structure Rewritten (p q : Coordinate × RouteTableEntry) : Prop where
  key : q.1 = p.1
  nexthop : q.2.nexthop = p.2.nexthop
  face : q.2.face = p.2.face
  reach : q.2.reach = .neighbor → p.2.reach = .neighbor

lemma neighborRows_sublist (h : List.Forall₂ Rewritten t u) :
    (neighborRows u).Sublist (neighborRows t) := by
  induction h with
  | nil => exact .slnil
  | @cons p q t u hpq _ ih =>
    by_cases hq : q.2.reach = .neighbor
    · simpa [hq, hpq.reach hq, hpq.key, hpq.nexthop, hpq.face] using ih
    by_cases hp : p.2.reach = .neighbor
    · simpa [hq, hp] using ih.cons _
    · simpa [hq, hp] using ih

lemma neighborRows_eq_iff (h : List.Forall₂ Rewritten t u) :
    neighborRows u = neighborRows t ↔
      List.Forall₂ (fun p q => p.2.reach = .neighbor → q.2.reach = .neighbor) t u := by
  induction h with
  | nil => simp
  | @cons p q t u hpq htu ih =>
    rw [forall₂_cons, ← ih]
    by_cases hq : q.2.reach = .neighbor
    · simp [hq, hpq.reach hq, hpq.key, hpq.nexthop, hpq.face]
    by_cases hp : p.2.reach = .neighbor
    · have hlen := (neighborRows_sublist htu).length_le
      refine iff_of_false ?_ (by simp [hp, hq])
      intro he
      have := congrArg List.length he
      simp [hq, hp] at this
      omega
    · simp [hq, hp]

structure KeepsRows (g : RouteTableEntry → RouteTableEntry) : Prop where
  nexthop : ∀ e, (g e).nexthop = e.nexthop
  face : ∀ e, (g e).face = e.face
  reach : ∀ e, (g e).reach = .neighbor → e.reach = .neighbor

section Rewriting

variable {g : RouteTableEntry → RouteTableEntry}

section

variable (hg : KeepsRows g)
include hg

lemma KeepsRows.rewritten (p : Coordinate × RouteTableEntry) : Rewritten p (p.1, g p.2) :=
  ⟨rfl, hg.nexthop _, hg.face _, hg.reach _⟩

lemma mapDest_rewritten (t : RouteTable) (dest : Coordinate) :
    List.Forall₂ Rewritten t (t.mapDest dest g) := by
  rw [RouteTable.mapDest, forall₂_map_right_iff, forall₂_same]
  intro p _
  split
  · exact hg.rewritten p
  · exact ⟨rfl, rfl, rfl, id⟩

lemma neighborRows_mapDest_iff :
    neighborRows (t.mapDest dest g) = neighborRows t ↔
      ∀ e ∈ t.equalRange dest, e.reach = .neighbor → (g e).reach = .neighbor := by
  rw [neighborRows_eq_iff (mapDest_rewritten hg t dest), RouteTable.mapDest,
    forall₂_map_right_iff, forall₂_same]
  constructor
  · intro h e he
    simpa using h (dest, e) (mem_equalRange.mp he)
  intro h p hp
  split
  next hd =>
    exact h p.2 (mem_equalRange.mpr (hd ▸ hp))
  · exact id

lemma modify_rewritten (t : RouteTable) (i : ℕ) :
    List.Forall₂ Rewritten t (t.modify i fun p => (p.1, g p.2)) := by
  induction t generalizing i with
  | nil => cases i <;> exact .nil
  | cons p t ih =>
    cases i with
    | zero =>
      exact .cons (hg.rewritten p) (forall₂_same.mpr fun q _ => ⟨rfl, rfl, rfl, id⟩)
    | succ i => exact .cons ⟨rfl, rfl, rfl, id⟩ (ih i)

lemma neighborRows_modify_iff (t : RouteTable) (i : ℕ) :
    neighborRows (t.modify i fun p => (p.1, g p.2)) = neighborRows t ↔
      ∀ p, t[i]? = some p → p.2.reach = .neighbor → (g p.2).reach = .neighbor := by
  induction t generalizing i with
  | nil => cases i <;> simp
  | cons p t ih =>
    cases i with
    | zero =>
      rw [neighborRows_eq_iff (modify_rewritten hg (p :: t) 0)]
      simp [forall₂_same]
    | succ i =>
      have := ih i
      by_cases hp : p.2.reach = .neighbor <;> simpa [hp] using this

end

end Rewriting

/-- What every event but an NDP round does to the table: neighbor entries may be lost,
destinations may not. -/
structure Evolves (t u : RouteTable) : Prop where
  rows : (neighborRows u).Sublist (neighborRows t)
  keys : ∀ k ∈ t.map Prod.fst, k ∈ u.map Prod.fst

lemma Evolves.refl (t : RouteTable) : Evolves t t := ⟨.refl _, fun _ h => h⟩

lemma Evolves.trans (h : Evolves t u) (h' : Evolves u v) : Evolves t v :=
  ⟨h'.rows.trans h.rows, fun k hk => h'.keys k (h.keys k hk)⟩

lemma evolves_of_rewritten (h : List.Forall₂ Rewritten t u) : Evolves t u := by
  refine ⟨neighborRows_sublist h, ?_⟩
  have hkeys : t.map Prod.fst = u.map Prod.fst := by
    induction h with
    | nil => rfl
    | cons hpq _ ih => simp [hpq.key, ih]
  exact fun k hk => hkeys ▸ hk

lemma evolves_insertIdx (t : RouteTable) (i : ℕ)
    (ha : a.2.reach ≠ .neighbor) : Evolves t (t.insertIdx i a) := by
  refine ⟨by rw [neighborRows_insertIdx i ha], fun k hk => ?_⟩
  obtain ⟨p, hp, rfl⟩ := List.mem_map.mp hk
  obtain ⟨j, hj⟩ := mem_iff_getElem?.mp hp
  exact List.mem_map_of_mem (mem_of_getElem? (getElem?_insertIdx_shift hj))

/-! ### `RoutingtableUpdate` -/

lemma neighborRows_insert_perm (t : RouteTable) (n : Coordinate × FaceId) :
    (neighborRows (t.insert P n.1 (neighborEntry n).2)).Perm
      ((n.1, n.1, n.2) :: neighborRows t) := by
  have h : (t.insert P n.1 (neighborEntry n).2).Perm (neighborEntry n :: t) :=
    perm_insertIdx _ _ (Nat.min_le_right _ _)
  exact (h.filter _).map _ |>.trans (by simp [neighborRows, neighborEntry])

lemma neighborRows_foldl_insert (ns : NeighborsList) (t : RouteTable) :
    (neighborRows (ns.foldl (fun t n => t.insert P n.1 (neighborEntry n).2) t)).Perm
      (rowsOf ns ++ neighborRows t) := by
  induction ns generalizing t with
  | nil => exact .refl _
  | cons n ns ih =>
    refine (ih _).trans ?_
    refine (List.Perm.append_left _ (neighborRows_insert_perm t n)).trans ?_
    exact perm_middle

lemma neighborRows_routingtableUpdate (t : RouteTable) (ns : NeighborsList) :
    (neighborRows (routingtableUpdate P t ns)).Perm (rowsOf ns) := by
  have hnone : neighborRows (t.filter fun p => p.2.reach ≠ .neighbor) = [] := by
    simp [neighborRows, List.filter_filter]
  have h := neighborRows_foldl_insert (P := P) ns (t.filter fun p => p.2.reach ≠ .neighbor)
  rwa [hnone, append_nil] at h

/-! ### `cal_Nexthos` -/

lemma evolves_insert_unknown (i : ℕ) (n : Coordinate × FaceId)
    (h : Evolves t v ∧ neighborRows v = neighborRows t) :
    Evolves t (v.insertIdx i (dest, unknownEntry P dest n)) ∧
      neighborRows (v.insertIdx i (dest, unknownEntry P dest n)) = neighborRows t := by
  have hreach : (unknownEntry P dest n).reach ≠ .neighbor := by simp [unknownEntry]
  exact ⟨h.1.trans (evolves_insertIdx _ _ hreach), (neighborRows_insertIdx _ hreach).trans h.2⟩

lemma evolves_refresh (P : Params) (s : State) (dest : Coordinate) :
    Evolves s.table (refresh P s dest).table ∧
      neighborRows (refresh P s dest).table = neighborRows s.table :=
  refresh_induction (Q := fun v => Evolves s.table v ∧ neighborRows v = neighborRows s.table)
    P s dest ⟨.refl _, rfl⟩ fun _ i n h => evolves_insert_unknown i n h

lemma keepsRows_forgetMinlocal : KeepsRows forgetMinlocal := by
  refine ⟨?_, ?_, ?_⟩ <;> intro e <;> unfold forgetMinlocal <;> split <;> simp

lemma evolves_searchTable (P : Params) (s : State) (dest : Coordinate) :
    Evolves s.table (searchTable P s dest) ∧
      neighborRows (searchTable P s dest) = neighborRows s.table := by
  obtain ⟨he, hr⟩ := evolves_refresh P s dest
  have hpost := mapDest_rewritten keepsRows_forgetMinlocal (refresh P s dest).post dest
  have hre : List.Forall₂ Rewritten (refresh P s dest).table (searchTable P s dest) :=
    rel_append (forall₂_same.mpr fun q _ => ⟨rfl, rfl, rfl, id⟩) hpost
  refine ⟨he.trans (evolves_of_rewritten hre), ?_⟩
  rw [← hr, searchTable, Walk.table, neighborRows_append, neighborRows_append]
  congr 1
  refine (neighborRows_mapDest_iff keepsRows_forgetMinlocal).mpr ?_
  exact fun e _ h => (forgetMinlocal_neighbor e).mpr h

lemma evolves_firstLookup (P : Params) (s : State) (dest : Coordinate) :
    Evolves s.table (firstLookup P s dest).1 ∧
      neighborRows (firstLookup P s dest).1 = neighborRows s.table :=
  firstLookup_induction (Q := fun v => Evolves s.table v ∧ neighborRows v = neighborRows s.table)
    P s dest ⟨.refl _, rfl⟩ fun _ i n h => evolves_insert_unknown i n h

lemma keepsRows_send (v : SendStatus) : KeepsRows fun e => { e with send := v } :=
  ⟨fun _ => rfl, fun _ => rfl, fun _ => id⟩

lemma keepsRows_minlocal : KeepsRows fun e => { e with reach := .minlocal } :=
  ⟨fun _ => rfl, fun _ => rfl, fun _ h => by simp at h⟩

def reachAt (t : RouteTable) (i : ℕ) : Option ReachStatus :=
  t[i]?.map fun p => p.2.reach

lemma markFlood_foldl (dest : Coordinate) (ns : NeighborsList) (t : RouteTable) :
    let u := ns.foldl (fun t n => markFlood dest n.1 t) t
    Evolves t u ∧ neighborRows u = neighborRows t ∧
      ∀ i, reachAt u i = reachAt t i := by
  induction ns generalizing t with
  | nil => exact ⟨.refl _, rfl, fun _ => rfl⟩
  | cons n ns ih =>
    obtain ⟨he, hr, hi⟩ := ih (markFlood dest n.1 t)
    refine ⟨?_, hr.trans ?_, fun i => (hi i).trans ?_⟩
    · exact (evolves_of_rewritten (modify_rewritten (keepsRows_send .flood) t _)).trans he
    · exact (neighborRows_modify_iff (keepsRows_send .flood) t _).mpr fun _ _ h => h
    · simp only [reachAt, markFlood, getElem?_modify]
      split <;> simp [Function.comp_def]

lemma evolves_chosenTable (s : State) (dest : Coordinate) (t : RouteTable) (c : Choice) (i : ℕ) :
    Evolves t (chosenTable P s dest t c i) := by
  unfold chosenTable
  split
  · refine (markFlood_foldl dest (floodTargets s c.minnexthop) t).1.trans ?_
    exact evolves_of_rewritten (modify_rewritten keepsRows_minlocal _ i)
  · exact evolves_of_rewritten (modify_rewritten (keepsRows_send .sending) t i)

lemma neighborRows_chosenTable_iff (s : State) (dest : Coordinate) (t : RouteTable)
    (c : Choice) (i : ℕ) :
    neighborRows (chosenTable P s dest t c i) = neighborRows t ↔
      (c.minnexthop = P.self → ∀ p, t[i]? = some p → p.2.reach ≠ .neighbor) := by
  unfold chosenTable
  split
  next hself =>
    obtain ⟨-, hr, hi⟩ := markFlood_foldl dest (floodTargets s c.minnexthop) t
    rw [← hr, neighborRows_modify_iff keepsRows_minlocal]
    have hi' := hi i
    unfold reachAt at hi'
    constructor
    · intro h _ p hp hn
      rw [hp] at hi'
      obtain ⟨q, hq, hqn⟩ := map_eq_some_iff.mp hi'
      simpa using h q hq (hqn.trans hn)
    · intro h q hq hn
      rw [hq] at hi'
      obtain ⟨p, hp, hpn⟩ := map_eq_some_iff.mp hi'.symm
      exact absurd (hpn.trans hn) (h hself p hp)
  next hself =>
    rw [neighborRows_modify_iff (keepsRows_send .sending)]
    simp [hself]

def NothingToChoose (P : Params) (s : State) (dest : Coordinate) : Prop :=
  (Searches P s dest ∧ ∀ m ∈ candidates P s dest, ¬ m.Usable maxWeight) ∨
    (s.table.find dest = none ∧ ∀ n ∈ s.neighbors, ¬ Eligible P s dest n)

structure SparesNeighbors (P : Params) (s : State) (dest : Coordinate) : Prop where
  greedy : ∀ m, Searches P s dest → IsCheapest (candidates P s dest) m →
    m.nexthop = P.self → m.reach ≠ .neighbor
  begin : P.self = {} → NothingToChoose P s dest →
    ∀ p, s.table.head? = some p → p.2.reach ≠ .neighbor

lemma SparesNeighbors.of_not_searches (hno : ¬ Searches P s dest)
    (hf : s.table.find dest ≠ none) : SparesNeighbors P s dest := by
  refine ⟨fun _ hs => absurd hs hno, ?_⟩
  rintro - (⟨hs, -⟩ | ⟨hf', -⟩)
  · exact absurd hs hno
  · exact absurd hf' hf

lemma SparesNeighbors.iff_greedy {m : RouteTableEntry} (hs : Searches P s dest)
    (hm : IsCheapest (candidates P s dest) m) :
    SparesNeighbors P s dest ↔ (m.nexthop = P.self → m.reach ≠ .neighbor) := by
  refine ⟨fun h => h.greedy m hs hm, fun h => ⟨?_, ?_⟩⟩
  · intro m' _ hm'
    rw [isCheapest_unique hm' hm]
    exact h
  · rintro - (⟨-, hno⟩ | ⟨hf, -⟩)
    · exact absurd hm.mem.2 (hno m hm.mem.1)
    · exact absurd hf hs.1.find_ne_none

lemma neighborRows_begins {c : Choice} {o : Outcome} (he : Evolves s.table t)
    (hr : neighborRows t = neighborRows s.table) (hb : Begins s t c)
    (ho : sendChoice P s dest t c = .ok o) :
    Evolves s.table o.table ∧ (neighborRows o.table = neighborRows s.table ↔
      (P.self = {} → ∀ p, s.table.head? = some p → p.2.reach ≠ .neighbor)) := by
  obtain ⟨-, -, hn, ⟨-, hi⟩ | ⟨i, p, q, hp, hi, hq, hpq⟩⟩ := hb
  · rw [sendChoice_none hi] at ho
    cases ho
  rw [sendChoice_some hi] at ho
  cases ho
  refine ⟨he.trans (evolves_chosenTable _ _ _ _ _), ?_⟩
  rw [← hr, neighborRows_chosenTable_iff, hn]
  simp only [hq, hp, some.injEq, forall_eq', ne_eq, hpq, eq_comm (a := P.self)]

lemma neighborRows_calNexthos {o : Outcome} (ho : calNexthos P s dest = .ok o) :
    Evolves s.table o.table ∧
      (neighborRows o.table = neighborRows s.table ↔ SparesNeighbors P s dest) := by
  have hway := way_of_ok ho
  clear ho
  generalize hres : Except.ok o = res at hway
  cases hway with
  | neighbor hf hn =>
    cases hres
    refine ⟨.refl _, iff_of_true rfl (.of_not_searches ?_ (by simp [hf]))⟩
    exact fun hs => hs.1.reach_ne hf hn
  | unreachable hr hu =>
    cases hres
    obtain ⟨he, hrows⟩ := evolves_refresh P s dest
    exact ⟨he, iff_of_true hrows
      (.of_not_searches (not_searches_of_unreachable hu) hr.find_ne_none)⟩
  | reachable hr hfirst hf =>
    cases hres
    obtain ⟨he, hrows⟩ := evolves_refresh P s dest
    exact ⟨he, iff_of_true hrows
      (.of_not_searches (not_searches_of_reachable hfirst) hr.find_ne_none)⟩
  | lostNexthop => cases hres
  | @greedy m i hs hm hi =>
    rw [sendChoice_some rfl] at hres
    cases hres
    obtain ⟨he, hrows⟩ := evolves_searchTable P s dest
    refine ⟨he.trans (evolves_chosenTable _ _ _ _ _), ?_⟩
    rw [← hrows, neighborRows_chosenTable_iff, SparesNeighbors.iff_greedy hs hm]
    simp [hi]
  | noCandidate hs hm hb =>
    obtain ⟨he, hrows⟩ := evolves_searchTable P s dest
    obtain ⟨he', hiff⟩ := neighborRows_begins he hrows hb hres.symm
    refine ⟨he', hiff.trans ⟨fun h => ⟨?_, fun hself _ => h hself⟩, fun h hself =>
      h.begin hself (.inl ⟨hs, hm⟩)⟩⟩
    exact fun m _ hc => absurd hc.mem.2 (hm m hc.mem.1)
  | @first n c hf hn he hc =>
    obtain ⟨i, hi, rfl⟩ := hc
    rw [sendChoice_some rfl] at hres
    cases hres
    obtain ⟨hev, hrows⟩ := evolves_firstLookup P s dest
    refine ⟨hev.trans (evolves_chosenTable _ _ _ _ _), iff_of_true ?_ ?_⟩
    · rw [← hrows, neighborRows_chosenTable_iff]
      intro _ p hp
      rw [hi] at hp
      cases hp
      simp [unknownEntry]
    · refine ⟨fun _ hs => absurd hf hs.1.find_ne_none, ?_⟩
      rintro - (⟨hs, -⟩ | ⟨-, hno⟩)
      · exact absurd hf hs.1.find_ne_none
      · exact absurd he (hno n hn)
  | noNeighbor hf hne hb =>
    obtain ⟨he, hrows⟩ := evolves_firstLookup P s dest
    obtain ⟨he', hiff⟩ := neighborRows_begins he hrows hb hres.symm
    refine ⟨he', hiff.trans ⟨fun h => ⟨?_, fun hself _ => h hself⟩, fun h hself =>
      h.begin hself (.inr ⟨hf, hne⟩)⟩⟩
    exact fun _ hs => absurd hf hs.1.find_ne_none

/-! ### The callbacks -/

lemma keepsRows_giveUpOrFlood : KeepsRows giveUpOrFlood := by
  refine ⟨?_, ?_, ?_⟩ <;> intro e <;> unfold giveUpOrFlood <;> split <;> simp

lemma keepsRows_expireEntry : KeepsRows expireEntry := by
  refine ⟨?_, ?_, ?_⟩ <;> intro e <;> unfold expireEntry <;> split <;> simp

lemma keepsRows_satisfyEntry (n : Coordinate) : KeepsRows (satisfyEntry n) := by
  refine ⟨?_, ?_, ?_⟩ <;> intro e <;> unfold satisfyEntry <;> split <;> (try split) <;> simp

lemma giveUpOrFlood_neighbor (he : e.reach = .neighbor) :
    (giveUpOrFlood e).reach = .neighbor ↔ e.send ≠ .sending := by
  unfold giveUpOrFlood
  split <;> simp_all

lemma expireEntry_neighbor (he : e.reach = .neighbor) :
    (expireEntry e).reach = .neighbor ↔ ¬ e.Waiting := by
  unfold expireEntry
  split <;> simp_all

lemma satisfyEntry_neighbor (n : Coordinate) (he : e.reach = .neighbor) :
    (satisfyEntry n e).reach = .neighbor ↔ ¬ e.Waiting := by
  unfold satisfyEntry
  rw [if_neg (by simp [he])]
  split <;> simp_all

def NoneWaits (t : RouteTable) (dest : Coordinate) : Prop :=
  ∀ e ∈ t.equalRange dest, e.reach = .neighbor → ¬ e.Waiting

lemma neighborRows_satisfy_iff (n : Coordinate) :
    neighborRows (t.mapDest dest (satisfyEntry n)) = neighborRows t ↔ NoneWaits t dest := by
  rw [neighborRows_mapDest_iff (keepsRows_satisfyEntry n)]
  exact forall₂_congr fun e _ => forall_congr' fun he => satisfyEntry_neighbor n he

lemma NoneWaits.satisfy (h : NoneWaits t dest) (n : Coordinate) :
    NoneWaits (t.mapDest dest (satisfyEntry n)) dest := by
  intro e' he' hn
  rw [equalRange_mapDest] at he'
  obtain ⟨e, he, rfl⟩ := List.mem_map.mp he'
  have hne := (keepsRows_satisfyEntry n).reach e hn
  have hw := h e he hne
  simp [satisfyEntry, hne, hw]

lemma Evolves.rows_eq_trans (h : Evolves t u) (h' : Evolves u v) :
    neighborRows v = neighborRows t ↔
      neighborRows u = neighborRows t ∧ neighborRows v = neighborRows u := by
  refine ⟨fun he => ?_, fun he => he.2.trans he.1⟩
  have hle := he ▸ h'.rows.length_le
  have hu := h.rows.eq_of_length_le hle
  exact ⟨hu, he.trans hu.symm⟩

lemma neighborRows_satisfy_foldl (ns : NeighborsList) (t : RouteTable) (dest : Coordinate) :
    let u := ns.foldl (fun t n => t.mapDest dest (satisfyEntry n.1)) t
    Evolves t u ∧ (neighborRows u = neighborRows t ↔ (ns ≠ [] → NoneWaits t dest)) := by
  induction ns generalizing t with
  | nil => exact ⟨.refl _, iff_of_true rfl (by simp)⟩
  | cons n ns ih =>
    obtain ⟨he, hrows⟩ := ih (t.mapDest dest (satisfyEntry n.1))
    have hone := evolves_of_rewritten (mapDest_rewritten (keepsRows_satisfyEntry n.1) t dest)
    refine ⟨hone.trans he, ?_⟩
    rw [foldl_cons, hone.rows_eq_trans he, neighborRows_satisfy_iff, hrows]
    simp only [ne_eq, reduceCtorEq, not_false_eq_true, true_implies, and_iff_left_iff_imp]
    exact fun h _ => h.satisfy n.1

def Event.Spares (P : Params) (s : State) : Event → Prop
  | .ndpRound _ => True
  | .interest f dest p => p = true ∨ SparesNeighbors P { s with incoming := f } dest
  | .data f dest => (∃ n, (n, f) ∈ s.neighbors) → NoneWaits s.table dest
  | .pitExpiry dest => NoneWaits s.table dest
  | .floodTimer dest => alreadyFlooded s.table dest = true ∨
      ∀ e ∈ s.table.equalRange dest, e.reach = .neighbor → e.send ≠ .sending

lemma afterReceiveInterest_cases {f : FaceId} {p : Bool}
    (h : afterReceiveInterest P s f dest p = .ok s') :
    (p = true ∧ s' = s) ∨ (p = false ∧ ∃ o, calNexthos P { s with incoming := f } dest = .ok o ∧
      none ∉ o.faces ∧ s'.table = o.table ∧ s'.neighbors = s.neighbors) := by
  unfold afterReceiveInterest at h
  cases p with
  | true => exact .inl ⟨rfl, by simpa using h.symm⟩
  | false =>
    simp only [Bool.false_eq_true, if_false] at h
    split at h
    · cases h
    rename_i o ho
    split at h
    · cases h
    · cases h
      exact .inr ⟨rfl, o, ho, ‹_›, rfl, rfl⟩

lemma step_evolves {ev : Event} (hev : ∀ ns, ev ≠ .ndpRound ns) (h : step P s ev = some s') :
    s'.neighbors = s.neighbors ∧ Evolves s.table s'.table ∧
      (neighborRows s'.table = neighborRows s.table ↔ ev.Spares P s) := by
  cases ev with
  | ndpRound ns => exact absurd rfl (hev ns)
  | interest f dest p =>
    have hok : afterReceiveInterest P s f dest p = .ok s' := by
      cases hr : afterReceiveInterest P s f dest p <;> simp_all [step, Except.toOption]
    rcases afterReceiveInterest_cases hok with ⟨rfl, rfl⟩ | ⟨rfl, o, ho, -, ht, hn⟩
    · exact ⟨rfl, .refl _, iff_of_true rfl (.inl rfl)⟩
    obtain ⟨he, hrows⟩ := neighborRows_calNexthos ho
    rw [ht]
    exact ⟨hn, he, hrows.trans (by simp [Event.Spares])⟩
  | data f dest =>
    cases h
    obtain ⟨he, hrows⟩ := neighborRows_satisfy_foldl (s.neighbors.filter (·.2 = f)) s.table dest
    refine ⟨rfl, he, hrows.trans ?_⟩
    simp [Event.Spares, filter_eq_nil_iff]
  | pitExpiry dest =>
    cases h
    refine ⟨rfl, evolves_of_rewritten (mapDest_rewritten keepsRows_expireEntry _ dest), ?_⟩
    refine (neighborRows_mapDest_iff keepsRows_expireEntry).trans ?_
    exact forall₂_congr fun e _ => forall_congr' expireEntry_neighbor
  | floodTimer dest =>
    simp only [step] at h
    split at h
    · cases h
      simp only [interestExpiry, Event.Spares]
      split
      · exact ⟨trivial, .refl _, iff_of_true rfl (.inl ‹_›)⟩
      rename_i hno
      refine ⟨trivial, evolves_of_rewritten (mapDest_rewritten keepsRows_giveUpOrFlood _ dest), ?_⟩
      rw [or_iff_right hno, neighborRows_mapDest_iff keepsRows_giveUpOrFlood]
      exact forall₂_congr fun e _ => forall_congr' giveUpOrFlood_neighbor
    · cases h

def OnePerNeighbor (s : State) : Prop := (neighborRows s.table).Perm (rowsOf s.neighbors)

lemma onePerNeighbor_step_iff {ev : Event} (hs : OnePerNeighbor s)
    (h : step P s ev = some s') : OnePerNeighbor s' ↔ ev.Spares P s := by
  by_cases hev : ∃ ns, ev = .ndpRound ns
  · obtain ⟨ns, rfl⟩ := hev
    cases h
    exact iff_of_true (neighborRows_routingtableUpdate s.table ns) trivial
  obtain ⟨hn, he, hrows⟩ := step_evolves (not_exists.mp hev) h
  rw [← hrows, OnePerNeighbor, hn]
  refine ⟨fun hp => he.rows.eq_of_length ?_, fun heq => heq ▸ hs⟩
  exact hp.length_eq.trans hs.length_eq.symm

/-- In a run whose events all spare the neighbor entries there is at all times one per
neighbor; and an event that does not spare them breaks this at once. -/
theorem one_entry_per_neighbor (P : Params) :
    (∀ s, Reach (step P) (fun s ev => ev.Spares P s) {} s → OnePerNeighbor s) ∧
      ∀ s s' ev, OnePerNeighbor s → step P s ev = some s' → ¬ ev.Spares P s →
        ¬ OnePerNeighbor s' := by
  refine ⟨fun s hr => ?_, fun s s' ev hs h hno => ?_⟩
  · have h0 : OnePerNeighbor {} := List.Perm.refl _
    refine hr.invariant h0 ?_
    intro s ev s' hs hok h
    exact (onePerNeighbor_step_iff hs h).mpr hok
  · exact mt (onePerNeighbor_step_iff hs h).mp hno

/-- (3, 3) is asked for while remote, then turns up as neighbor on face 2 before the
Interest times out. The flood marks its new entry, and the expiry gives it up. -/
def demotion : List Event :=
  [.ndpRound [(⟨1, 1⟩, 1)], .interest 9 ⟨3, 3⟩ false, .ndpRound [(⟨1, 1⟩, 1), (⟨3, 3⟩, 2)],
    .floodTimer ⟨3, 3⟩, .pitExpiry ⟨3, 3⟩]

def demoted : State where
  neighbors := [(⟨1, 1⟩, 1), (⟨3, 3⟩, 2)]
  table := [(⟨3, 3⟩, ⟨⟨3, 3⟩, 0, .unreachable, .notsending, 2⟩),
    (⟨3, 3⟩, ⟨⟨1, 1⟩, 1, .unreachable, .notsending, 1⟩),
    (⟨1, 1⟩, ⟨⟨1, 1⟩, 0, .neighbor, .notsending, 1⟩)]
  incoming := 9

lemma run_demotion : run (step frontParams) {} demotion = some demoted := by
  decide +kernel

lemma demoted_reachable : Reachable frontParams demoted :=
  reach_of_run .init run_demotion

/-- Of two neighbors only one has a neighbor entry left. -/
theorem neighbor_entry_demoted : ∃ s, Reachable frontParams s ∧ ¬ OnePerNeighbor s := by
  refine ⟨demoted, demoted_reachable, ?_⟩
  intro h
  exact absurd h.length_eq (by decide)

/-- An NDP round keeps to the rule; a neighbor entry marked as flooded falls to the expiry. -/
theorem one_entry_per_neighbor_round :
    OnePerNeighbor ⟨[(⟨1, 1⟩, 1)], [neighborEntry (⟨1, 1⟩, 1)], 0, []⟩ ∧
    ¬ OnePerNeighbor ⟨[(⟨1, 1⟩, 1)],
      [(⟨1, 1⟩, ⟨⟨1, 1⟩, 0, .unreachable, .notsending, 1⟩)], 0, []⟩ := by
  refine ⟨(one_entry_per_neighbor frontParams).1 _
    (.step (a := .ndpRound [(⟨1, 1⟩, 1)]) .init trivial rfl), ?_⟩
  refine (one_entry_per_neighbor frontParams).2
    ⟨[(⟨1, 1⟩, 1)], [(⟨1, 1⟩, ⟨⟨1, 1⟩, 0, .neighbor, .flood, 1⟩)], 0, []⟩ _
    (.pitExpiry ⟨1, 1⟩) (List.Perm.refl _) rfl ?_
  intro h
  exact h ⟨⟨1, 1⟩, 0, .neighbor, .flood, 1⟩ (by decide) rfl (.inl rfl)

end NfdGateway.Location
