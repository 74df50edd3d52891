import NfdGateway.Location.Nexthops

/-! The face an Interest came in on: when `cal_Nexthos` returns it, and when the flood of
the one-second timer sends on it. -/
namespace NfdGateway.Location

variable {P : Params} {s : State} {dest : Coordinate} {f : FaceId}

/-- No branch that does not compare with the incoming face picks it. -/
structure AvoidsIncoming (P : Params) (s : State) (dest : Coordinate) (f : FaceId) : Prop where
  neighbor : ∀ e, s.table.find dest = some e → e.reach = .neighbor → e.face ≠ f
  reachable : ∀ r, Remote s dest → firstReachable s dest = some r →
    neighborFace s.neighbors r.nexthop ≠ some f
  greedy : ∀ m, Searches P s dest → IsCheapest (candidates P s dest) m →
    m.nexthop ≠ P.self → m.face ≠ f

/-- The flood is suppressed, or no other neighbor is behind the face. -/
def FloodAvoids (s : State) (dest : Coordinate) (f : FaceId) : Prop :=
  (∃ e ∈ s.table.equalRange dest, e.reach = .minlocal ∨ e.send = .received) ∨
    ∀ n, (n, f) ∈ s.neighbors → n = sendingCd (s.table.equalRange dest)

lemma mem_floodTargets {n : Coordinate × FaceId} {c : Coordinate} :
    n ∈ floodTargets s c ↔ n ∈ s.neighbors ∧ n.1 ≠ c ∧ n.2 ≠ s.incoming := by
  simp [floodTargets]

lemma incoming_not_flooded (c : Coordinate) :
    some s.incoming ∉ (floodTargets s c).map fun n => some n.2 := by
  intro h
  obtain ⟨n, hn, he⟩ := List.mem_map.mp h
  exact (mem_floodTargets.mp hn).2.2 (Option.some.inj he)

lemma AvoidsIncoming.iff_neighbor {e : RouteTableEntry} (hf : s.table.find dest = some e)
    (hn : e.reach = .neighbor) : AvoidsIncoming P s dest f ↔ e.face ≠ f := by
  constructor
  · exact fun h => h.neighbor e hf hn
  intro h
  refine ⟨?_, fun _ hr => absurd hn (hr.reach_ne hf), fun _ hs => absurd hn (hs.1.reach_ne hf)⟩
  intro e' he' _
  rw [hf] at he'
  cases he'
  exact h

lemma AvoidsIncoming.of_unreachable (hr : Remote s dest)
    (hu : ∀ e ∈ visible P s dest, e.reach = .unreachable) : AvoidsIncoming P s dest f := by
  refine ⟨fun e he hn => absurd hn (hr.reach_ne he), ?_, ?_⟩
  · intro r _ hfirst
    obtain ⟨hv, hre⟩ := firstReachable_visible (P := P) hfirst
    simp [hu r hv] at hre
  · exact fun m hs => absurd hs (not_searches_of_unreachable hu)

lemma AvoidsIncoming.iff_reachable {r : RouteTableEntry} (hr : Remote s dest)
    (hfirst : firstReachable s dest = some r) :
    AvoidsIncoming P s dest f ↔ neighborFace s.neighbors r.nexthop ≠ some f := by
  constructor
  · exact fun h => h.reachable r hr hfirst
  intro h
  refine ⟨fun e he hn => absurd hn (hr.reach_ne he), ?_, ?_⟩
  · intro r' _ hr'
    rw [hfirst] at hr'
    cases hr'
    exact h
  · exact fun m hs => absurd hs (not_searches_of_reachable hfirst)

lemma AvoidsIncoming.of_searches (hs : Searches P s dest)
    (h : ∀ m, IsCheapest (candidates P s dest) m → m.nexthop ≠ P.self → m.face ≠ f) :
    AvoidsIncoming P s dest f := by
  refine ⟨fun e he hn => absurd hn (hs.1.reach_ne he), ?_, fun m _ => h m⟩
  exact fun r _ hr => absurd hs (not_searches_of_reachable hr)

lemma AvoidsIncoming.iff_greedy {m : RouteTableEntry} (hs : Searches P s dest)
    (hm : IsCheapest (candidates P s dest) m) :
    AvoidsIncoming P s dest f ↔ (m.nexthop ≠ P.self → m.face ≠ f) := by
  constructor
  · exact fun h => h.greedy m hs hm
  intro h
  apply AvoidsIncoming.of_searches hs
  intro m' hm'
  rw [isCheapest_unique hm' hm]
  exact h

lemma AvoidsIncoming.of_absent (hf : s.table.find dest = none) : AvoidsIncoming P s dest f := by
  refine ⟨by simp [hf], fun _ hr => absurd hf hr.find_ne_none, ?_⟩
  exact fun _ hs => absurd hf hs.1.find_ne_none

lemma forall_ok_iff {o : Outcome} {Q : Outcome → Prop} :
    (∀ o', (Except.ok o : Except Fault Outcome) = .ok o' → Q o') ↔ Q o := by
  constructor
  · exact fun h => h o rfl
  · rintro h o' ⟨⟩
    exact h

lemma begins_avoids_incoming {t : RouteTable} {c : Choice} {o : Outcome} (hb : Begins s t c)
    (ho : sendChoice P s dest t c = .ok o) : some s.incoming ∉ o.faces := by
  rcases sendChoice_begins hb with ⟨-, he⟩ | ⟨-, u, b, he⟩
  · rw [he] at ho
    cases ho
  rw [he] at ho
  cases ho
  split
  · exact incoming_not_flooded _
  · simp

lemma Way.avoids_iff {r : Except Fault Outcome} (hway : Way P s dest r) :
    (∀ o, r = .ok o → some s.incoming ∉ o.faces) ↔ AvoidsIncoming P s dest s.incoming := by
  cases hway with
  | neighbor hf hn =>
    rw [forall_ok_iff, AvoidsIncoming.iff_neighbor hf hn]
    simp [eq_comm]
  | unreachable hr hu =>
    exact iff_of_true (by simp) (.of_unreachable hr hu)
  | reachable hr hfirst hg =>
    rw [forall_ok_iff, AvoidsIncoming.iff_reachable hr hfirst, hg]
    simp [eq_comm]
  | lostNexthop hr hfirst hg =>
    rw [AvoidsIncoming.iff_reachable hr hfirst, hg]
    simp
  | greedy hs hm hi =>
    rw [sendChoice_some rfl, forall_ok_iff, AvoidsIncoming.iff_greedy hs hm]
    simp only [chosenFaces]
    split
    next hself =>
      exact iff_of_true (incoming_not_flooded _) (absurd hself)
    next hself =>
      simp [hself, eq_comm]
  | noCandidate hs hm hb =>
    refine iff_of_true (fun o ho => begins_avoids_incoming hb ho) (.of_searches hs ?_)
    exact fun m hc => absurd hc.mem.2 (hm m hc.mem.1)
  | first hf hn he hc =>
    obtain ⟨i, -, rfl⟩ := hc
    rw [sendChoice_some rfl, forall_ok_iff]
    refine iff_of_true ?_ (.of_absent hf)
    simp only [chosenFaces]
    split
    · exact incoming_not_flooded _
    · simpa using he.2.symm
  | noNeighbor hf hne hb =>
    exact iff_of_true (fun o ho => begins_avoids_incoming hb ho) (.of_absent hf)

lemma incoming_not_returned_iff (P : Params) (s : State) (dest : Coordinate) :
    (calNexthos P s dest ≠ .error .invalidIterator ∧
      ∀ o, calNexthos P s dest = .ok o → some s.incoming ∉ o.faces) ↔
    usesInvalid P s dest = false ∧ AvoidsIncoming P s dest s.incoming := by
  rcases calNexthos_cases P s dest with ⟨hvalid, he⟩ | ⟨hvalid, hway⟩
  · simp [hvalid, he]
  · rw [and_iff_right hway.ne_invalid, and_iff_right hvalid]
    exact hway.avoids_iff

lemma not_mem_flood_iff : f ∉ (interestExpiry s dest).2 ↔ FloodAvoids s dest f := by
  unfold interestExpiry FloodAvoids
  split
  next h =>
    have hex : ∃ e ∈ s.table.equalRange dest, e.reach = .minlocal ∨ e.send = .received := by
      simpa [alreadyFlooded] using h
    simp [hex]
  rename_i h
  have hno : ¬ ∃ e ∈ s.table.equalRange dest, e.reach = .minlocal ∨ e.send = .received := by
    simpa [alreadyFlooded] using h
  rw [or_iff_right hno]
  simp

/-- The incoming face is neither returned nor flooded exactly when no rehash comes in between, no
unchecked branch picks it and the flood has no other neighbor behind it. `s'` is the state in which
the timer of the same PIT entry fires, whatever happened in between; the flood does not look at
in-records. -/
theorem incoming_face_avoided_iff (P : Params) (s s' : State) (dest : Coordinate) (f : FaceId) :
    ((calNexthos P { s with incoming := f } dest ≠ .error .invalidIterator ∧
      ∀ o, calNexthos P { s with incoming := f } dest = .ok o → some f ∉ o.faces) ∧
      f ∉ (interestExpiry s' dest).2) ↔
    (usesInvalid P { s with incoming := f } dest = false ∧ AvoidsIncoming P s dest f) ∧
      FloodAvoids s' dest f := by
  have h := incoming_not_returned_iff P { s with incoming := f } dest
  have hsame : AvoidsIncoming P { s with incoming := f } dest f ↔ AvoidsIncoming P s dest f :=
    ⟨fun h => ⟨h.neighbor, h.reachable, h.greedy⟩, fun h => ⟨h.neighbor, h.reachable, h.greedy⟩⟩
  exact and_congr (h.trans (and_congr_right' hsame)) not_mem_flood_iff

def backtrack : State where
  neighbors := [(⟨1, 1⟩, 5), (⟨2, 2⟩, 6)]
  table := [(⟨3, 3⟩, ⟨⟨1, 1⟩, 2, .reachable, .received, 5⟩)]

/-- An Interest for (3, 3) that comes from that next hop is sent straight back to it. -/
theorem incoming_face_returned :
    ¬ ((calNexthos frontParams { backtrack with incoming := 5 } ⟨3, 3⟩ ≠ .error .invalidIterator ∧
      ∀ o, calNexthos frontParams { backtrack with incoming := 5 } ⟨3, 3⟩ = .ok o →
      some 5 ∉ o.faces) ∧ 5 ∉ (interestExpiry backtrack ⟨3, 3⟩).2) := by
  rintro ⟨⟨-, h⟩, -⟩
  exact h _ rfl (by decide)

end NfdGateway.Location
