import NfdGateway.Location.Neighbors

/-! A destination from which Data has come back: the route table remembers it for good, and
from then on the one-second timers for it no longer flood. -/
namespace NfdGateway.Location

open List

variable {P : Params} {s : State} {dest d : Coordinate} {t u : RouteTable} {e : RouteTableEntry}
  {p : Coordinate × RouteTableEntry} {i : ℕ}

def Received (t : RouteTable) (d : Coordinate) : Prop :=
  ∃ e, (d, e) ∈ t ∧ e.reach = .reachable ∧ e.send = .received

lemma Received.mono (h : Received t d) (hsub : ∀ e, (d, e) ∈ t → (d, e) ∈ u) : Received u d := by
  obtain ⟨e, he, hmark⟩ := h
  exact ⟨e, hsub e he, hmark⟩

lemma Received.alreadyFlooded (h : Received t d) : alreadyFlooded t d = true := by
  obtain ⟨e, he, -, hsend⟩ := h
  exact List.any_eq_true.mpr ⟨e, mem_equalRange.mpr he, by simp [hsend]⟩

lemma mem_mapDest_of_ne {g : RouteTableEntry → RouteTableEntry}
    (hd : d ≠ dest) (h : (d, e) ∈ t) : (d, e) ∈ t.mapDest dest g :=
  List.mem_map.mpr ⟨(d, e), h, if_neg hd⟩

lemma mem_mapDest {g : RouteTableEntry → RouteTableEntry}
    (h : (dest, e) ∈ t) : (dest, g e) ∈ t.mapDest dest g :=
  List.mem_map.mpr ⟨(dest, e), h, if_pos rfl⟩

lemma Received.mapDest {g : RouteTableEntry → RouteTableEntry} (h : Received t d)
    (hg : ∀ e, e.reach = .reachable → e.send = .received → g e = e) :
    Received (t.mapDest dest g) d := by
  obtain ⟨e, he, hreach, hsend⟩ := h
  by_cases hd : d = dest
  · subst hd
    have hmem : (d, g e) ∈ t.mapDest d g := mem_mapDest he
    rw [hg e hreach hsend] at hmem
    exact ⟨e, hmem, hreach, hsend⟩
  · exact ⟨e, mem_mapDest_of_ne hd he, hreach, hsend⟩

lemma satisfyEntry_received (n : Coordinate) (hreach : e.reach = .reachable)
    (hsend : e.send = .received) : satisfyEntry n e = e := by
  obtain ⟨nexthop, weight, reach, send, face⟩ := e
  cases hreach
  cases hsend
  simp [satisfyEntry, RouteTableEntry.Waiting]

lemma expireEntry_received (hsend : e.send = .received) : expireEntry e = e := by
  simp [expireEntry, RouteTableEntry.Waiting, hsend]

lemma Received.beforeExpirePendingInterest (h : Received t d) :
    Received (beforeExpirePendingInterest t dest) d :=
  h.mapDest fun _ _ hsend => expireEntry_received hsend

lemma Received.interestExpiry (h : Received s.table d) : Received (interestExpiry s dest).1 d := by
  unfold Location.interestExpiry
  split
  · exact h
  rename_i hno
  apply h.mono
  intro e he
  apply mem_mapDest_of_ne _ he
  rintro rfl
  exact hno h.alreadyFlooded

/-- The Data for `d` that comes in on this face marks an entry: the face leads to a neighbor
that is the next hop of an entry for `d` other than a neighbor entry. -/
def Marks (ns : NeighborsList) (t : RouteTable) (inFace : FaceId) (d : Coordinate) : Prop :=
  ∃ n, (n, inFace) ∈ ns ∧ ∃ e, (d, e) ∈ t ∧ e.nexthop = n ∧ e.reach ≠ .neighbor

lemma Received.satisfy_foldl (ns : NeighborsList) (h : Received t d) :
    Received (ns.foldl (fun t n => t.mapDest dest (satisfyEntry n.1)) t) d := by
  induction ns generalizing t with
  | nil => exact h
  | cons n ns ih => exact ih (h.mapDest fun _ hr hs => satisfyEntry_received n.1 hr hs)

lemma Received.beforeSatisfyInterest (inFace : FaceId) (h : Received s.table d) :
    Received (beforeSatisfyInterest s inFace dest) d :=
  h.satisfy_foldl _

lemma satisfyEntry_nexthop (n : Coordinate) (e : RouteTableEntry) :
    (satisfyEntry n e).nexthop = e.nexthop := by
  unfold satisfyEntry
  split
  · rfl
  · split <;> rfl

lemma satisfyEntry_reach_ne {n : Coordinate} (h : e.reach ≠ .neighbor) :
    (satisfyEntry n e).reach ≠ .neighbor := by
  unfold satisfyEntry
  split
  · simp
  split
  · simp
  · exact h

lemma received_satisfy_foldl {ns : NeighborsList} {n : Coordinate}
    {f : FaceId} (hn : (n, f) ∈ ns) (he : (d, e) ∈ t) (hnext : e.nexthop = n)
    (hreach : e.reach ≠ .neighbor) :
    Received (ns.foldl (fun t n => t.mapDest d (satisfyEntry n.1)) t) d := by
  induction ns generalizing t e with
  | nil => cases hn
  | cons m ns ih =>
    have hmem : (d, satisfyEntry m.1 e) ∈ t.mapDest d (satisfyEntry m.1) := mem_mapDest he
    rcases mem_cons.mp hn with rfl | hn
    · have hmark : satisfyEntry n e = { e with reach := .reachable, send := .received } :=
        if_pos ⟨hnext, hreach⟩
      rw [hmark] at hmem
      have hrec : Received (t.mapDest d (satisfyEntry n)) d := ⟨_, hmem, rfl, rfl⟩
      exact hrec.satisfy_foldl ns
    · exact ih hn hmem ((satisfyEntry_nexthop _ _).trans hnext) (satisfyEntry_reach_ne hreach)

lemma Marks.received {inFace : FaceId} (h : Marks s.neighbors s.table inFace d) :
    Received (beforeSatisfyInterest s inFace d) d := by
  obtain ⟨n, hn, e, he, hnext, hreach⟩ := h
  exact received_satisfy_foldl (mem_filter.mpr ⟨hn, by simp⟩) he hnext hreach

lemma Marks.other {inFace : FaceId} (h : Marks s.neighbors s.table inFace d) (hd : d ≠ dest) :
    Marks s.neighbors (beforeSatisfyInterest s inFace dest) inFace d := by
  obtain ⟨n, hn, e, he, hmark⟩ := h
  refine ⟨n, hn, e, ?_, hmark⟩
  unfold Location.beforeSatisfyInterest
  generalize s.neighbors.filter (·.2 = inFace) = ns
  generalize s.table = t at he ⊢
  induction ns generalizing t with
  | nil => exact he
  | cons m ns ih => exact ih _ (mem_mapDest_of_ne hd he)

lemma mem_insertIdx_of_mem {q : Coordinate × RouteTableEntry} (h : p ∈ t) :
    p ∈ t.insertIdx i q := by
  obtain ⟨j, hj⟩ := mem_iff_getElem?.mp h
  exact mem_of_getElem? (getElem?_insertIdx_shift hj)

lemma Received.routingtableUpdate (ns : NeighborsList) (h : Received t d) :
    Received (routingtableUpdate P t ns) d := by
  unfold Location.routingtableUpdate
  have hkept : Received (t.filter fun p => p.2.reach ≠ .neighbor) d := by
    obtain ⟨e, he, hreach, hsend⟩ := h
    exact ⟨e, mem_filter.mpr ⟨he, by simp [hreach]⟩, hreach, hsend⟩
  generalize List.filter _ t = t at hkept
  induction ns generalizing t with
  | nil => exact hkept
  | cons n ns ih => exact ih _ (hkept.mono fun _ he => mem_insertIdx_of_mem he)

lemma mem_refresh (h : p ∈ s.table) : p ∈ (refresh P s dest).table :=
  refresh_induction P s dest h fun _ _ _ h => mem_insertIdx_of_mem h

lemma mem_firstLookup (h : p ∈ s.table) : p ∈ (firstLookup P s dest).1 :=
  firstLookup_induction P s dest h fun _ _ _ h => mem_insertIdx_of_mem h

lemma mem_searchTable (hd : d ≠ dest) (h : (d, e) ∈ s.table) : (d, e) ∈ searchTable P s dest := by
  have hmem : (d, e) ∈ (refresh P s dest).table := mem_refresh h
  rcases mem_append.mp hmem with h | h
  · exact mem_append_left _ h
  · exact mem_append_right _ (mem_mapDest_of_ne hd h)

def PointsTo (t : RouteTable) (i : ℕ) (dest : Coordinate) : Prop :=
  ∀ p, t[i]? = some p → p.1 = dest

lemma mem_modify_of_ne {g : Coordinate × RouteTableEntry → Coordinate × RouteTableEntry}
    (hi : PointsTo t i dest) (hd : d ≠ dest) (h : (d, e) ∈ t) :
    (d, e) ∈ t.modify i g := by
  obtain ⟨j, hj⟩ := mem_iff_getElem?.mp h
  have hij : i ≠ j := by
    rintro rfl
    exact hd (hi _ hj)
  have hkept : (t.modify i g)[j]? = some (d, e) := by
    rw [getElem?_modify_ne _ _ hij]
    exact hj
  exact mem_of_getElem? hkept

lemma pointsTo_markFlood (n : Coordinate) (t : RouteTable) :
    PointsTo t (t.findIdx fun p => p.1 = dest ∧ p.2.nexthop = n) dest := by
  intro p hp
  obtain ⟨hlt, rfl⟩ := List.getElem?_eq_some_iff.mp hp
  have hfound := findIdx_getElem (w := hlt)
  exact (of_decide_eq_true hfound).1

lemma PointsTo.markFlood (h : PointsTo t i dest) (n : Coordinate) :
    PointsTo (markFlood dest n t) i dest := by
  intro p hp
  unfold Location.markFlood at hp
  rw [getElem?_modify] at hp
  obtain ⟨q, hq, rfl⟩ := Option.map_eq_some_iff.mp hp
  have hkey := h q hq
  split <;> exact hkey

lemma markFlood_foldl_other (ns : NeighborsList) (hi : PointsTo t i dest) :
    let u := ns.foldl (fun t n => markFlood dest n.1 t) t
    PointsTo u i dest ∧ ∀ d e, d ≠ dest → (d, e) ∈ t → (d, e) ∈ u := by
  induction ns generalizing t with
  | nil => exact ⟨hi, fun _ _ _ h => h⟩
  | cons n ns ih =>
    obtain ⟨hpoints, hmem⟩ := ih (hi.markFlood n.1)
    refine ⟨hpoints, ?_⟩
    intro d e hd h
    exact hmem d e hd (mem_modify_of_ne (pointsTo_markFlood n.1 t) hd h)

lemma mem_chosenTable {c : Choice} (hi : PointsTo t i dest)
    (hd : d ≠ dest) (h : (d, e) ∈ t) : (d, e) ∈ chosenTable P s dest t c i := by
  unfold chosenTable
  split
  · obtain ⟨hpoints, hmem⟩ := markFlood_foldl_other (floodTargets s c.minnexthop) hi
    exact mem_modify_of_ne hpoints hd (hmem d e hd h)
  · exact mem_modify_of_ne hi hd h

lemma pointsTo_of_getElem? (h : t[i]? = some (dest, e)) : PointsTo t i dest := by
  intro p hp
  rw [h] at hp
  cases hp
  rfl

lemma self_eq_of_begins {c : Choice} {o : Outcome} (hb : Begins s t c)
    (ho : sendChoice P s dest t c = .ok o) (hfaces : none ∉ o.faces) : P.self = {} := by
  rcases sendChoice_begins hb with ⟨-, he⟩ | ⟨-, u, b, he⟩
  · rw [he] at ho
    cases ho
  rw [he] at ho
  obtain rfl : _ = o := Except.ok.inj ho
  by_contra hself
  apply hfaces
  simp [hself]

lemma Received.calNexthos {o : Outcome} (h : Received s.table d)
    (hchoose : P.self = {} → ¬ NothingToChoose P s dest)
    (ho : calNexthos P s dest = .ok o) (hfaces : none ∉ o.faces) : Received o.table d := by
  -- a search is made for destinations without a mark only
  have hsearch : Searches P s dest → d ≠ dest := by
    rintro ⟨-, -, hno⟩ rfl
    obtain ⟨e, he, hreach, -⟩ := h
    exact hno e (mem_equalRange.mpr he) hreach
  have hfirst : s.table.find dest = none → d ≠ dest := by
    rintro hnone rfl
    obtain ⟨e, he, -⟩ := h
    have hnil : s.table.equalRange d = [] := head?_eq_none_iff.mp hnone
    have hmem : e ∈ s.table.equalRange d := mem_equalRange.mpr he
    rw [hnil] at hmem
    cases hmem
  have hway := way_of_ok ho
  generalize hr : Except.ok o = r at hway
  cases hway with
  | neighbor hf hn =>
    cases hr
    exact h
  | unreachable hremote hu | reachable hremote hreach hf =>
    cases hr
    exact h.mono fun _ he => mem_refresh he
  | lostNexthop hremote hreach hf => cases hr
  | greedy hs hm hi =>
    have hd := hsearch hs
    rw [sendChoice_some rfl] at hr
    cases hr
    exact h.mono fun _ he => mem_chosenTable (pointsTo_of_getElem? hi) hd (mem_searchTable hd he)
  | noCandidate hs hm hb =>
    exact absurd (.inl ⟨hs, hm⟩) (hchoose (self_eq_of_begins hb hr.symm hfaces))
  | first hf hn he hc =>
    have hd := hfirst hf
    obtain ⟨i, hi, rfl⟩ := hc
    rw [sendChoice_some rfl] at hr
    cases hr
    exact h.mono fun _ he => mem_chosenTable (pointsTo_of_getElem? hi) hd (mem_firstLookup he)
  | noNeighbor hf hne hb =>
    exact absurd (.inr ⟨hf, hne⟩) (hchoose (self_eq_of_begins hb hr.symm hfaces))

end NfdGateway.Location
