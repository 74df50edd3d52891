import NfdGateway.Location.Neighbors

/-! Next hops and the current neighbor list: when every face `cal_Nexthos` returns leads to
a neighbor, and when the Interest for a neighbor goes to that neighbor. -/
namespace NfdGateway.Location

open List Option Transition

variable {P : Params} {s : State} {dest : Coordinate} {r m : RouteTableEntry} {ns : NeighborsList}

/-- What holds in every reachable state: neighbor entries come from the current list, and
every neighbor has some entry. -/
structure TableInv (s : State) : Prop where
  origin : ∀ r ∈ neighborRows s.table, r ∈ rowsOf s.neighbors
  entry : ∀ n ∈ s.neighbors, n.1 ∈ s.table.map Prod.fst

lemma tableInv_ndpRound (ns : NeighborsList) :
    TableInv { s with neighbors := ns, table := routingtableUpdate P s.table ns } := by
  have hp := neighborRows_routingtableUpdate (P := P) s.table ns
  refine ⟨fun r hr => hp.subset hr, fun n hn => ?_⟩
  have hrow := hp.symm.subset (List.mem_map_of_mem hn)
  obtain ⟨e, he, -⟩ := mem_neighborRows.mp hrow
  exact List.mem_map_of_mem he

lemma tableInv_step {s' : State} {ev : Event} (hs : TableInv s)
    (h : step P s ev = some s') : TableInv s' := by
  by_cases hev : ∃ ns, ev = .ndpRound ns
  · obtain ⟨ns, rfl⟩ := hev
    cases h
    exact tableInv_ndpRound ns
  obtain ⟨hn, he, -⟩ := step_evolves (not_exists.mp hev) h
  refine ⟨fun r hr => ?_, fun n hn' => ?_⟩
  · rw [hn]
    exact hs.origin r (he.rows.subset hr)
  · rw [hn] at hn'
    exact he.keys _ (hs.entry n hn')

lemma tableInv_reachable (h : Reachable P s) : TableInv s := by
  have h0 : TableInv {} := ⟨by simp, by simp⟩
  exact h.invariant h0 fun _ _ _ hs _ => tableInv_step hs

lemma TableInv.face_mem (h : TableInv s) {e : RouteTableEntry}
    (hf : s.table.find dest = some e) (hn : e.reach = .neighbor) :
    (dest, e.face) ∈ s.neighbors := by
  have hmem : (dest, e) ∈ s.table := mem_equalRange.mp (mem_of_head? hf)
  have hrow := h.origin (dest, e.nexthop, e.face) (mem_neighborRows.mpr ⟨e, hmem, hn, rfl, rfl⟩)
  obtain ⟨n, hn', he⟩ := List.mem_map.mp hrow
  simp only [Prod.mk.injEq] at he
  obtain ⟨rfl, -, hface⟩ := he
  rw [← hface]
  exact hn'

lemma TableInv.find_ne_none (h : TableInv s) {g : FaceId} (hd : (dest, g) ∈ s.neighbors) :
    s.table.find dest ≠ none := by
  obtain ⟨p, hp, rfl⟩ := List.mem_map.mp (h.entry _ hd)
  have hmem := mem_equalRange.mpr hp
  intro hnone
  rw [RouteTable.find, head?_eq_none_iff] at hnone
  simp [hnone] at hmem

lemma neighborFace_some {n : Coordinate} {f : FaceId}
    (h : neighborFace ns n = some f) : (n, f) ∈ ns := by
  obtain ⟨p, hp, rfl⟩ := map_eq_some_iff.mp h
  have hn : p.1 = n := by simpa using find?_some hp
  exact hn ▸ mem_of_find?_eq_some hp

lemma neighborFace_none {n : Coordinate} (h : neighborFace ns n = none) : ∀ p ∈ ns, p.1 ≠ n := by
  simpa [neighborFace] using h

def NexthopsSafe (P : Params) (s : State) (dest : Coordinate) : Prop :=
  ∃ o, calNexthos P s dest = .ok o ∧ ∀ f ∈ o.faces, ∃ n ∈ s.neighbors, f = some n.2

structure Current (P : Params) (s : State) (dest : Coordinate) : Prop where
  reachable : ∀ r, Remote s dest → firstReachable s dest = some r →
    ∃ n ∈ s.neighbors, n.1 = r.nexthop
  greedy : ∀ m, Searches P s dest → IsCheapest (candidates P s dest) m →
    m.nexthop ≠ P.self → ∃ n ∈ s.neighbors, n.2 = m.face
  noCandidate : Searches P s dest → (∀ m ∈ candidates P s dest, ¬ m.Usable maxWeight) →
    P.self = {}
  noNeighbor : s.table.find dest = none → (∀ n ∈ s.neighbors, ¬ Eligible P s dest n) →
    P.self = {} ∧ s.table ≠ []

lemma nexthopsSafe_of_eq {o : Outcome} (h : calNexthos P s dest = .ok o) :
    NexthopsSafe P s dest ↔ ∀ f ∈ o.faces, ∃ n ∈ s.neighbors, f = some n.2 := by
  refine ⟨?_, fun hf => ⟨o, h, hf⟩⟩
  rintro ⟨o', ho', hf⟩
  rw [h] at ho'
  cases ho'
  exact hf

lemma not_nexthopsSafe_of_error {e : Fault} (h : calNexthos P s dest = .error e) :
    ¬ NexthopsSafe P s dest := by
  rintro ⟨o, ho, -⟩
  rw [h] at ho
  cases ho

lemma floodTargets_faces (s : State) (c : Coordinate) :
    ∀ f ∈ (floodTargets s c).map fun n => some n.2, ∃ n ∈ s.neighbors, f = some n.2 := by
  intro f hf
  obtain ⟨n, hn, rfl⟩ := List.mem_map.mp hf
  exact ⟨n, mem_of_mem_filter hn, rfl⟩

lemma Current.of_not_searches (hno : ¬ Searches P s dest) (hf : s.table.find dest ≠ none)
    (hr : ∀ r, Remote s dest → firstReachable s dest = some r →
      ∃ n ∈ s.neighbors, n.1 = r.nexthop) : Current P s dest :=
  ⟨hr, fun _ hs => absurd hs hno, fun hs => absurd hs hno, fun hf' => absurd hf' hf⟩

lemma Current.of_unreachable (hrem : Remote s dest)
    (hu : ∀ e ∈ visible P s dest, e.reach = .unreachable) : Current P s dest := by
  refine .of_not_searches (not_searches_of_unreachable hu) hrem.find_ne_none ?_
  intro r _ hfirst
  obtain ⟨hv, hre⟩ := firstReachable_visible (P := P) hfirst
  simp [hu r hv] at hre

lemma Current.iff_reachable (hrem : Remote s dest) (hfirst : firstReachable s dest = some r) :
    Current P s dest ↔ ∃ n ∈ s.neighbors, n.1 = r.nexthop := by
  refine ⟨fun hc => hc.reachable r hrem hfirst, fun h => ?_⟩
  refine .of_not_searches (not_searches_of_reachable hfirst) hrem.find_ne_none ?_
  intro r' _ hr'
  rw [hfirst] at hr'
  cases hr'
  exact h

lemma Current.iff_greedy (hs : Searches P s dest) (hm : IsCheapest (candidates P s dest) m) :
    Current P s dest ↔ (m.nexthop ≠ P.self → ∃ n ∈ s.neighbors, n.2 = m.face) := by
  refine ⟨fun hc => hc.greedy m hs hm, fun h => ⟨?_, ?_, ?_, ?_⟩⟩
  · exact fun r _ hr => absurd hs (not_searches_of_reachable hr)
  · intro m' _ hm'
    rw [isCheapest_unique hm' hm]
    exact h
  · exact fun _ hno => absurd hm.mem.2 (hno m hm.mem.1)
  · exact fun hf => absurd hf hs.1.find_ne_none

lemma Current.iff_noCandidate (hs : Searches P s dest)
    (hm : ∀ m ∈ candidates P s dest, ¬ m.Usable maxWeight) :
    Current P s dest ↔ P.self = {} := by
  refine ⟨fun hc => hc.noCandidate hs hm, fun h => ⟨?_, ?_, fun _ _ => h, ?_⟩⟩
  · exact fun r _ hr => absurd hs (not_searches_of_reachable hr)
  · exact fun m _ hc => absurd hc.mem.2 (hm m hc.mem.1)
  · exact fun hf => absurd hf hs.1.find_ne_none

lemma Current.iff_absent (hf : s.table.find dest = none) :
    Current P s dest ↔
      ((∀ n ∈ s.neighbors, ¬ Eligible P s dest n) → P.self = {} ∧ s.table ≠ []) := by
  refine ⟨fun hc => hc.noNeighbor hf, fun h => ⟨?_, ?_, ?_, fun _ => h⟩⟩
  · exact fun _ hrem => absurd hf hrem.find_ne_none
  · exact fun _ hs => absurd hf hs.1.find_ne_none
  · exact fun hs => absurd hf hs.1.find_ne_none

lemma nexthopsSafe_begins {t : RouteTable} {c : Choice} (hb : Begins s t c)
    (hr : calNexthos P s dest = sendChoice P s dest t c) :
    NexthopsSafe P s dest ↔ P.self = {} ∧ s.table ≠ [] := by
  rcases sendChoice_begins hb with ⟨ht, he⟩ | ⟨ht, u, b, he⟩
  · exact iff_of_false (not_nexthopsSafe_of_error (hr.trans he)) (fun h => h.2 ht)
  rw [nexthopsSafe_of_eq (hr.trans he)]
  by_cases hself : P.self = {}
  · simpa [hself, ht] using floodTargets_faces s {}
  · simp [hself]

lemma nexthopsSafe_iff (hinv : TableInv s) (dest : Coordinate) :
    NexthopsSafe P s dest ↔ usesInvalid P s dest = false ∧ Current P s dest := by
  rcases calNexthos_cases P s dest with ⟨hvalid, he⟩ | ⟨hvalid, hway⟩
  · exact iff_of_false (not_nexthopsSafe_of_error he) (by simp [hvalid])
  rw [and_iff_right hvalid]
  generalize hr : calNexthos P s dest = r at hway
  cases hway with
  | neighbor hf hn =>
    rw [nexthopsSafe_of_eq hr]
    refine iff_of_true ?_ (.of_not_searches (fun hs => hs.1.reach_ne hf hn) (by simp [hf])
      fun _ hrem => absurd hn (hrem.reach_ne hf))
    simpa using ⟨dest, hinv.face_mem hf hn⟩
  | unreachable hrem hu =>
    rw [nexthopsSafe_of_eq hr]
    exact iff_of_true (by simp) (.of_unreachable hrem hu)
  | @reachable r f hrem hfirst hf =>
    rw [nexthopsSafe_of_eq hr, Current.iff_reachable hrem hfirst]
    have hmem := neighborFace_some hf
    exact iff_of_true (by simpa using ⟨r.nexthop, hmem⟩) ⟨_, hmem, rfl⟩
  | lostNexthop hrem hfirst hf =>
    rw [Current.iff_reachable hrem hfirst]
    refine iff_of_false (not_nexthopsSafe_of_error hr) ?_
    rintro ⟨n, hn, he⟩
    exact neighborFace_none hf n hn he
  | greedy hs hm hi =>
    rw [sendChoice_some rfl] at hr
    rw [nexthopsSafe_of_eq hr, Current.iff_greedy hs hm]
    simp only [chosenFaces]
    split
    next hself =>
      exact iff_of_true (floodTargets_faces s _) (absurd hself)
    next hself =>
      simp [hself, eq_comm]
  | noCandidate hs hm hb =>
    rw [nexthopsSafe_begins hb hr, Current.iff_noCandidate hs hm]
    exact and_iff_left hs.1.table_ne_nil
  | @first n c hf hn he hc =>
    obtain ⟨i, hi, rfl⟩ := hc
    rw [sendChoice_some rfl] at hr
    rw [nexthopsSafe_of_eq hr, Current.iff_absent hf]
    refine iff_of_true ?_ (fun hno => absurd he (hno n hn))
    simp only [chosenFaces]
    split
    · exact floodTargets_faces s _
    · simpa using ⟨n.1, hn⟩
  | noNeighbor hf hne hb =>
    rw [nexthopsSafe_begins hb hr, Current.iff_absent hf]
    exact ⟨fun h _ => h, fun h => h hne⟩

/-- In every reachable state, whatever face the Interest comes in on, the lookup is safe exactly
when no rehash invalidates its iterators and the remembered next hops it relies on are current. -/
theorem nexthops_current_iff (h : Reachable P s) (inFace : FaceId) (dest : Coordinate) :
    NexthopsSafe P { s with incoming := inFace } dest ↔
      usesInvalid P { s with incoming := inFace } dest = false ∧
        Current P { s with incoming := inFace } dest := by
  have hinv := tableInv_reachable h
  have hinv' : TableInv { s with incoming := inFace } := ⟨hinv.origin, hinv.entry⟩
  exact nexthopsSafe_iff hinv' dest

def departure : List Event :=
  [.ndpRound [(⟨1, 1⟩, 1)], .interest 9 ⟨3, 3⟩ false, .data 1 ⟨3, 3⟩, .ndpRound [(⟨2, 2⟩, 2)]]

def departed : State where
  neighbors := [(⟨2, 2⟩, 2)]
  table := [(⟨3, 3⟩, ⟨⟨1, 1⟩, 1, .reachable, .received, 1⟩),
    (⟨2, 2⟩, ⟨⟨2, 2⟩, 0, .neighbor, .notsending, 2⟩)]
  incoming := 9
  timers := [⟨3, 3⟩]

lemma departed_reachable : Reachable frontParams departed :=
  reach_of_run .init
    (show run (step frontParams) {} departure = some departed by decide +kernel)

/-- The next hop of the reachable entry is looked up in the new list and not found. -/
theorem nexthop_departed : ∃ s, Reachable frontParams s ∧ ¬ NexthopsSafe frontParams s ⟨3, 3⟩ :=
  ⟨departed, departed_reachable, not_nexthopsSafe_of_error rfl⟩

/-- In the same state the lookup of the new neighbor relies on nothing outdated. -/
theorem nexthops_current_departed :
    usesInvalid frontParams { departed with incoming := 9 } ⟨2, 2⟩ = false ∧
      Current frontParams { departed with incoming := 9 } ⟨2, 2⟩ := by
  refine (nexthops_current_iff departed_reachable 9 ⟨2, 2⟩).mp ?_
  refine ⟨⟨[some 2], departed.table, false⟩, rfl, ?_⟩
  simp [departed]

def SentToNeighbor (P : Params) (s : State) (dest : Coordinate) : Prop :=
  ∃ f t b, calNexthos P s dest = .ok ⟨[some f], t, b⟩ ∧ (dest, f) ∈ s.neighbors

def FloodsOnly (s : State) (c dest : Coordinate) : Prop :=
  ∃ n, floodTargets s c = [n] ∧ (dest, n.2) ∈ s.neighbors

structure Unshadowed (P : Params) (s : State) (dest : Coordinate) : Prop where
  unreachable : Remote s dest → ∃ e ∈ visible P s dest, e.reach ≠ .unreachable
  reachable : ∀ r, Remote s dest → firstReachable s dest = some r →
    ∃ f, neighborFace s.neighbors r.nexthop = some f ∧ (dest, f) ∈ s.neighbors
  greedy : ∀ m, Searches P s dest → IsCheapest (candidates P s dest) m →
    m.nexthop ≠ P.self → (dest, m.face) ∈ s.neighbors
  flood : ∀ m, Searches P s dest → IsCheapest (candidates P s dest) m →
    m.nexthop = P.self → FloodsOnly s P.self dest
  noCandidate : Searches P s dest → (∀ m ∈ candidates P s dest, ¬ m.Usable maxWeight) →
    P.self = {} ∧ FloodsOnly s {} dest

lemma sentToNeighbor_of_eq {o : Outcome} (h : calNexthos P s dest = .ok o) :
    SentToNeighbor P s dest ↔ ∃ f, o.faces = [some f] ∧ (dest, f) ∈ s.neighbors := by
  constructor
  · rintro ⟨f, t, b, ho, hf⟩
    rw [h] at ho
    cases ho
    exact ⟨f, rfl, hf⟩
  · rintro ⟨f, ho, hf⟩
    exact ⟨f, o.table, o.timer, by rw [h, ← ho], hf⟩

lemma not_sentToNeighbor_of_error {e : Fault} (h : calNexthos P s dest = .error e) :
    ¬ SentToNeighbor P s dest := by
  rintro ⟨f, t, b, ho, -⟩
  rw [h] at ho
  cases ho

lemma floodsOnly_iff (c : Coordinate) :
    (∃ f, ((floodTargets s c).map fun n => some n.2) = [some f] ∧ (dest, f) ∈ s.neighbors) ↔
      FloodsOnly s c dest := by
  constructor
  · rintro ⟨f, hf, hd⟩
    obtain ⟨n, hn, he⟩ := map_eq_singleton_iff.mp hf
    exact ⟨n, hn, some.inj he ▸ hd⟩
  · rintro ⟨n, hn, hd⟩
    exact ⟨n.2, by rw [hn, map_singleton], hd⟩

lemma Unshadowed.of_not_remote (hno : ¬ Remote s dest) : Unshadowed P s dest :=
  ⟨fun h => absurd h hno, fun _ h => absurd h hno, fun _ hs => absurd hs.1 hno,
    fun _ hs => absurd hs.1 hno, fun hs => absurd hs.1 hno⟩

lemma Unshadowed.iff_reachable (hrem : Remote s dest) (hfirst : firstReachable s dest = some r) :
    Unshadowed P s dest ↔
      ∃ f, neighborFace s.neighbors r.nexthop = some f ∧ (dest, f) ∈ s.neighbors := by
  have hno : ¬ Searches P s dest := not_searches_of_reachable hfirst
  obtain ⟨hv, hre⟩ := firstReachable_visible hfirst
  refine ⟨fun h => h.reachable r hrem hfirst, fun h => ⟨fun _ => ⟨r, hv, by simp [hre]⟩, ?_,
    fun _ hs => absurd hs hno, fun _ hs => absurd hs hno, fun hs => absurd hs hno⟩⟩
  intro r' _ hr'
  rw [hfirst] at hr'
  cases hr'
  exact h

lemma Unshadowed.iff_greedy (hs : Searches P s dest) (hm : IsCheapest (candidates P s dest) m) :
    Unshadowed P s dest ↔ (m.nexthop ≠ P.self → (dest, m.face) ∈ s.neighbors) ∧
      (m.nexthop = P.self → FloodsOnly s P.self dest) := by
  refine ⟨fun h => ⟨h.greedy m hs hm, h.flood m hs hm⟩, fun h => ⟨fun _ => hs.2.1, ?_, ?_, ?_, ?_⟩⟩
  · exact fun r _ hr => absurd hs (not_searches_of_reachable hr)
  · intro m' _ hm'
    rw [isCheapest_unique hm' hm]
    exact h.1
  · intro m' _ hm'
    rw [isCheapest_unique hm' hm]
    exact h.2
  · exact fun _ hno => absurd hm.mem.2 (hno m hm.mem.1)

lemma Unshadowed.iff_noCandidate (hs : Searches P s dest)
    (hm : ∀ m ∈ candidates P s dest, ¬ m.Usable maxWeight) :
    Unshadowed P s dest ↔ P.self = {} ∧ FloodsOnly s {} dest := by
  refine ⟨fun h => h.noCandidate hs hm, fun h => ⟨fun _ => hs.2.1, ?_, ?_, ?_, fun _ _ => h⟩⟩
  · exact fun r _ hr => absurd hs (not_searches_of_reachable hr)
  · exact fun m _ hc => absurd hc.mem.2 (hm m hc.mem.1)
  · exact fun m _ hc => absurd hc.mem.2 (hm m hc.mem.1)

lemma sentToNeighbor_iff (hinv : TableInv s) {g : FaceId} (hd : (dest, g) ∈ s.neighbors) :
    SentToNeighbor P s dest ↔ usesInvalid P s dest = false ∧ Unshadowed P s dest := by
  have hne := hinv.find_ne_none hd
  rcases calNexthos_cases P s dest with ⟨hvalid, he⟩ | ⟨hvalid, hway⟩
  · exact iff_of_false (not_sentToNeighbor_of_error he) (by simp [hvalid])
  rw [and_iff_right hvalid]
  generalize hr : calNexthos P s dest = r at hway
  cases hway with
  | @neighbor e hf hn =>
    rw [sentToNeighbor_of_eq hr]
    exact iff_of_true ⟨e.face, rfl, hinv.face_mem hf hn⟩
      (.of_not_remote fun hrem => hrem.reach_ne hf hn)
  | unreachable hrem hu =>
    rw [sentToNeighbor_of_eq hr]
    refine iff_of_false (by simp) ?_
    intro h
    obtain ⟨e, he, hne'⟩ := h.unreachable hrem
    exact hne' (hu e he)
  | reachable hrem hfirst hf =>
    rw [sentToNeighbor_of_eq hr, Unshadowed.iff_reachable hrem hfirst, hf]
    simp
  | lostNexthop hrem hfirst hf =>
    rw [Unshadowed.iff_reachable hrem hfirst, hf]
    exact iff_of_false (not_sentToNeighbor_of_error hr) (by simp)
  | greedy hs hm hi =>
    rw [sendChoice_some rfl] at hr
    rw [sentToNeighbor_of_eq hr, Unshadowed.iff_greedy hs hm]
    simp only [chosenFaces]
    split
    next hself =>
      rw [floodsOnly_iff, hself]
      simp
    next hself =>
      simp [hself]
  | noCandidate hs hm hb =>
    rw [Unshadowed.iff_noCandidate hs hm]
    rcases sendChoice_begins hb with ⟨ht, -⟩ | ⟨-, u, b, he⟩
    · exact absurd ht hs.1.table_ne_nil
    rw [sentToNeighbor_of_eq (hr.trans he)]
    by_cases hself : P.self = {}
    · simpa [hself] using floodsOnly_iff {}
    · simp [hself]
  | first hf | noNeighbor hf => exact absurd hf hne

/-- In every reachable state an Interest for a current neighbor goes to that neighbor
exactly when no older entry for it that is found first stands in the way, and none leads to a
lookup in which a rehash invalidates the iterators. -/
theorem sent_to_neighbor_iff (h : Reachable P s) (inFace : FaceId) {g : FaceId}
    (hd : (dest, g) ∈ s.neighbors) :
    SentToNeighbor P { s with incoming := inFace } dest ↔
      usesInvalid P { s with incoming := inFace } dest = false ∧
        Unshadowed P { s with incoming := inFace } dest := by
  have hinv := tableInv_reachable h
  have hinv' : TableInv { s with incoming := inFace } := ⟨hinv.origin, hinv.entry⟩
  exact sentToNeighbor_iff hinv' hd

/-- The demoted entry of the neighbor (3, 3) makes it look unreachable. -/
theorem neighbor_unreachable :
    ∃ s, Reachable frontParams s ∧ (⟨3, 3⟩, 2) ∈ s.neighbors ∧
      ¬ SentToNeighbor frontParams s ⟨3, 3⟩ := by
  refine ⟨demoted, demoted_reachable, by decide, ?_⟩
  rw [sentToNeighbor_of_eq rfl]
  simp

/-- The other neighbor is still reached, for want of older entries. -/
theorem sent_to_neighbor_demoted :
    usesInvalid frontParams { demoted with incoming := 9 } ⟨1, 1⟩ = false ∧
      Unshadowed frontParams { demoted with incoming := 9 } ⟨1, 1⟩ :=
  (sent_to_neighbor_iff demoted_reachable 9 (g := 1) (by decide)).mp
    ⟨1, demoted.table, false, rfl, by decide⟩

end NfdGateway.Location
