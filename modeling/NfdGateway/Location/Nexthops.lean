import NfdGateway.Location.Strategy

/-! What `cal_Nexthos` returns, case by case, in terms of the tables it starts from. -/
namespace NfdGateway.Location

open List Option

variable {P : Params} {s : State} {dest : Coordinate} {t : RouteTable} {c : Choice}
  {m : RouteTableEntry} {i : ℕ} {Q : RouteTable → Prop} {α : Type}

def RouteTableEntry.Usable (b : ℚ) (e : RouteTableEntry) : Prop :=
  e.reach ≠ .unreachable ∧ e.weight < b

/-- The first of the cheapest entries that are usable below the bound. -/
def CheapestBelow (b : ℚ) (es : List RouteTableEntry) (e : RouteTableEntry) : Prop :=
  ∃ l r, es = l ++ e :: r ∧ e.Usable b ∧ (∀ x ∈ l, x.Usable b → e.weight < x.weight) ∧
    ∀ x ∈ r, x.Usable b → e.weight ≤ x.weight

abbrev IsCheapest := CheapestBelow maxWeight

/-- The entries for the destination after the missing ones have been added. -/
def visible (P : Params) (s : State) (dest : Coordinate) : List RouteTableEntry :=
  (refresh P s dest).post.equalRange dest

def searchTable (P : Params) (s : State) (dest : Coordinate) : RouteTable :=
  let w := refresh P s dest
  w.pre ++ w.post.mapDest dest forgetMinlocal

def candidates (P : Params) (s : State) (dest : Coordinate) : List RouteTableEntry :=
  (searchTable P s dest).equalRange dest

/-- An entry is found, and it is no neighbor entry. -/
def Remote (s : State) (dest : Coordinate) : Prop :=
  ∃ e, s.table.find dest = some e ∧ e.reach ≠ .neighbor

def Searches (P : Params) (s : State) (dest : Coordinate) : Prop :=
  Remote s dest ∧ (∃ e ∈ visible P s dest, e.reach ≠ .unreachable) ∧
    ∀ e ∈ s.table.equalRange dest, e.reach ≠ .reachable

section Ranges

@[simp] lemma equalRange_nil : RouteTable.equalRange [] dest = [] := rfl

@[simp] lemma equalRange_cons (p : Coordinate × RouteTableEntry) :
    RouteTable.equalRange (p :: t) dest =
      if p.1 = dest then p.2 :: t.equalRange dest else t.equalRange dest := by
  unfold RouteTable.equalRange
  by_cases h : p.1 = dest <;> simp [h]

lemma mem_equalRange {e : RouteTableEntry} : e ∈ t.equalRange dest ↔ (dest, e) ∈ t := by
  simp [RouteTable.equalRange]

lemma equalRange_mapDest (f : RouteTableEntry → RouteTableEntry) :
    (t.mapDest dest f).equalRange dest = (t.equalRange dest).map f := by
  induction t with
  | nil => rfl
  | cons p t ih =>
    have ih' : RouteTable.equalRange (List.map (fun p => if p.1 = dest then (p.1, f p.2) else p) t)
        dest = (RouteTable.equalRange t dest).map f := ih
    by_cases h : p.1 = dest <;> simp [RouteTable.mapDest, h, ih']

lemma equalRange_dropWhile :
    RouteTable.equalRange (t.dropWhile (·.1 ≠ dest)) dest = t.equalRange dest := by
  induction t with
  | nil => rfl
  | cons p t ih =>
    by_cases h : p.1 = dest
    · simp [h]
    · simpa [h] using ih

lemma find?_insertIdx {p : α → Bool} {a : α} (ha : p a = false) (l : List α) (i : ℕ) :
    (l.insertIdx i a).find? p = l.find? p := by
  induction l generalizing i with
  | nil => cases i <;> simp [ha]
  | cons b l ih =>
    cases i with
    | zero => simp [ha]
    | succ i => simp [find?_cons, ih]

lemma find?_equalRange (r : RouteTableEntry → Bool) : (t.equalRange dest).find? r =
      (t.find? fun p => decide (p.1 = dest) && r p.2).map Prod.snd := by
  simp [RouteTable.equalRange, find?_map, find?_filter]

end Ranges

section Search

variable {b : ℚ} {e : RouteTableEntry} {es : List RouteTableEntry}

lemma cheapestBelow_cons_of_not (h : ¬ e.Usable b)
    (hm : CheapestBelow b es m) : CheapestBelow b (e :: es) m := by
  obtain ⟨l, r, rfl, hu, hl, hr⟩ := hm
  refine ⟨e :: l, r, rfl, hu, ?_, hr⟩
  intro x hx hxu
  rcases mem_cons.mp hx with rfl | hx
  · exact absurd hxu h
  · exact hl x hx hxu

lemma cheapestBelow_head (h : e.Usable b) (hes : ∀ x ∈ es, ¬ x.Usable e.weight) :
    CheapestBelow b (e :: es) e := by
  refine ⟨[], es, rfl, h, by simp, ?_⟩
  intro x hx hxu
  by_contra hlt
  exact hes x hx ⟨hxu.1, not_le.mp hlt⟩

lemma cheapestBelow_cons (h : e.Usable b)
    (hm : CheapestBelow e.weight es m) : CheapestBelow b (e :: es) m := by
  obtain ⟨l, r, rfl, hu, hl, hr⟩ := hm
  refine ⟨e :: l, r, rfl, ⟨hu.1, hu.2.trans h.2⟩, ?_, ?_⟩
  · intro x hx hxu
    rcases mem_cons.mp hx with rfl | hx
    · exact hu.2
    by_cases hxe : x.weight < e.weight
    · exact hl x hx ⟨hxu.1, hxe⟩
    · exact lt_of_lt_of_le hu.2 (not_lt.mp hxe)
  · intro x hx hxu
    by_cases hxe : x.weight < e.weight
    · exact hr x hx ⟨hxu.1, hxe⟩
    · exact (lt_of_lt_of_le hu.2 (not_lt.mp hxe)).le

lemma search_zipIdx (dest : Coordinate) (t : RouteTable) (k : ℕ) (c : Choice) :
    ((∀ x ∈ t.equalRange dest, ¬ x.Usable c.minweight) ∧
      (t.zipIdx k).foldl (Choice.consider dest) c = c) ∨
    ∃ m j, CheapestBelow c.minweight (t.equalRange dest) m ∧ t[j]? = some (dest, m) ∧
      (t.zipIdx k).foldl (Choice.consider dest) c =
        ⟨m.weight, some m.face, m.nexthop, some (k + j)⟩ := by
  induction t generalizing k c with
  | nil => exact .inl ⟨by simp, rfl⟩
  | cons p t ih =>
    rw [zipIdx_cons, foldl_cons]
    by_cases hp : p.1 = dest ∧ p.2.weight < c.minweight ∧ p.2.reach ≠ .unreachable
    · have hu : p.2.Usable c.minweight := ⟨hp.2.2, hp.2.1⟩
      have hc : c.consider dest (p, k) = ⟨p.2.weight, some p.2.face, p.2.nexthop, some k⟩ := by
        simp [Choice.consider, hp]
      rw [hc, equalRange_cons, if_pos hp.1]
      right
      rcases ih (k + 1) ⟨p.2.weight, some p.2.face, p.2.nexthop, some k⟩ with
        ⟨hn, he⟩ | ⟨m, j, hm, hj, he⟩
      · exact ⟨p.2, 0, cheapestBelow_head hu hn, by simp [← hp.1], he⟩
      · exact ⟨m, j + 1, cheapestBelow_cons hu hm, by simpa using hj, by rw [he]; congr 2; omega⟩
    have hc : c.consider dest (p, k) = c := by simp only [Choice.consider, if_neg hp]
    rw [hc, equalRange_cons]
    have hnu : p.1 = dest → ¬ p.2.Usable c.minweight := fun hd hu => hp ⟨hd, hu.2, hu.1⟩
    rcases ih (k + 1) c with ⟨hn, he⟩ | ⟨m, j, hm, hj, he⟩
    · refine .inl ⟨?_, he⟩
      split
      next hd =>
        simpa using ⟨hnu hd, hn⟩
      · exact hn
    · refine .inr ⟨m, j + 1, ?_, by simpa using hj, by rw [he]; congr 2; omega⟩
      split
      next hd =>
        exact cheapestBelow_cons_of_not (hnu hd) hm
      · exact hm

lemma isCheapest_unique {es : List RouteTableEntry} {a b : RouteTableEntry}
    (ha : IsCheapest es a) (hb : IsCheapest es b) : a = b := by
  obtain ⟨l, r, rfl, hau, hal, har⟩ := ha
  obtain ⟨l', r', he, hbu, hbl, hbr⟩ := hb
  rcases append_eq_append_iff.mp he with ⟨m, rfl, hm⟩ | ⟨m, rfl, hm⟩
  · cases m with
    | nil => simpa using (List.cons.inj hm).1
    | cons x m =>
      cases hm
      have h1 := hbl a (by simp) hau
      have h2 := har b (by simp) hbu
      exact absurd h1 (not_lt.mpr h2)
  · cases m with
    | nil => simpa using (List.cons.inj hm).1.symm
    | cons x m =>
      cases hm
      have h1 := hal b (by simp) hbu
      have h2 := hbr a (by simp) hau
      exact absurd h1 (not_lt.mpr h2)

end Search

section Begin

/-- Nothing has been chosen yet. -/
def Begins (s : State) (t : RouteTable) (c : Choice) : Prop :=
  c.minweight = maxWeight ∧ c.minface = none ∧ c.minnexthop = {} ∧
    (s.table = [] ∧ c.itr = none ∨
      ∃ i p q, s.table.head? = some p ∧ c.itr = some i ∧ t[i]? = some q ∧
        (q.2.reach = .neighbor ↔ p.2.reach = .neighbor))

lemma begins_start (s : State) : Begins s s.table (.start s.table) := by
  refine ⟨rfl, rfl, rfl, ?_⟩
  cases ht : s.table with
  | nil => exact .inl ⟨rfl, rfl⟩
  | cons p t => exact .inr ⟨0, p, p, rfl, rfl, rfl, Iff.rfl⟩

lemma getElem?_insertIdx_shift {l : List α} {j : ℕ} {a b : α} (hj : l[j]? = some b) :
    (l.insertIdx i a)[if i ≤ j then j + 1 else j]? = some b := by
  rw [getElem?_insertIdx]
  split
  · rw [if_neg (by omega), if_neg (by omega)]
    simpa using hj
  · rw [if_pos (by omega)]
    exact hj

lemma begins_shift {a : Coordinate × RouteTableEntry} (h : Begins s t c) :
    Begins s (t.insertIdx i a) (c.shift i) := by
  obtain ⟨hw, hf, hn, hb⟩ := h
  refine ⟨hw, hf, hn, ?_⟩
  rcases hb with ⟨hs, hc⟩ | ⟨j, p, q, hp, hc, hq, hpq⟩
  · exact .inl ⟨hs, by simp [Choice.shift, hc]⟩
  · exact .inr ⟨_, p, q, hp, by simp [Choice.shift, hc], getElem?_insertIdx_shift hq, hpq⟩

lemma insertIdx_append (l r : List α) (i : ℕ) (a : α) : (l ++ r).insertIdx i a =
      if i ≤ l.length then l.insertIdx i a ++ r else l ++ r.insertIdx (i - l.length) a := by
  induction l generalizing i with
  | nil => cases i <;> simp
  | cons b l ih =>
    cases i with
    | zero => simp
    | succ i =>
      simp only [cons_append, insertIdx_succ_cons, ih, length_cons,
        Nat.add_le_add_iff_right, Nat.add_sub_add_right]
      split <;> rfl

lemma walk_insert_table (w : Walk) (e : RouteTableEntry) :
    (w.insert P dest e).table = w.table.insertIdx (w.table.place P dest) (dest, e) := by
  simp only [Walk.insert]
  by_cases h : w.table.place P dest ≤ w.pre.length
  · rw [if_pos h]
    simp only [Walk.table] at h ⊢
    rw [insertIdx_append, if_pos h]
  · rw [if_neg h]
    simp only [Walk.table] at h ⊢
    rw [insertIdx_append, if_neg h]

lemma refresh_induction (P : Params) (s : State) (dest : Coordinate) (h0 : Q s.table)
    (hins : ∀ t i n, Q t → Q (t.insertIdx i (dest, unknownEntry P dest n))) :
    Q (refresh P s dest).table := by
  have hstart : Q (Walk.mk (s.table.takeWhile (·.1 ≠ dest))
      (s.table.dropWhile (·.1 ≠ dest)) (.start s.table)).table := by
    simpa [Walk.table] using h0
  unfold refresh
  generalize s.neighbors = ns
  revert hstart
  generalize (Walk.mk _ _ _) = w
  induction ns generalizing w with
  | nil => exact id
  | cons n ns ih =>
    intro hw
    apply ih
    unfold addMissing
    split
    · exact hw
    · rw [walk_insert_table]
      exact hins _ _ _ hw

lemma firstLookup_induction (P : Params) (s : State) (dest : Coordinate) (h0 : Q s.table)
    (hins : ∀ t i n, Q t → Q (t.insertIdx i (dest, unknownEntry P dest n))) :
    Q (firstLookup P s dest).1 := by
  have hr : Q (s.table, Choice.start s.table).1 := h0
  unfold firstLookup
  generalize s.neighbors = ns
  revert hr
  generalize (s.table, Choice.start s.table) = r
  induction ns generalizing r with
  | nil => exact id
  | cons n ns ih =>
    intro hr
    apply ih
    exact hins _ _ _ hr

lemma walk_insert_choice (w : Walk) (e : RouteTableEntry) :
    (w.insert P dest e).choice = w.choice.shift (w.table.place P dest) := by
  simp only [Walk.insert]
  split <;> rfl

lemma walk_insert_find? {r : RouteTableEntry → Bool} (w : Walk) {e : RouteTableEntry}
    (he : r e = false) :
    ((w.insert P dest e).post.equalRange dest).find? r = (w.post.equalRange dest).find? r := by
  simp only [Walk.insert]
  split
  · rfl
  · simp only [find?_equalRange]
    rw [find?_insertIdx (by simp [he])]

/-- Nothing is chosen, and the first reachable entry is the one from before. -/
def RefreshInv (s : State) (dest : Coordinate) (w : Walk) : Prop :=
  Begins s w.table w.choice ∧ (w.post.equalRange dest).find? (·.reach = .reachable) =
    (s.table.equalRange dest).find? (·.reach = .reachable)

lemma refreshInv_addMissing {w : Walk} (h : RefreshInv s dest w) (n : Coordinate × FaceId) :
    RefreshInv s dest (addMissing P dest w n) := by
  unfold addMissing
  split
  · exact h
  refine ⟨?_, ?_⟩
  · rw [walk_insert_table, walk_insert_choice]
    exact begins_shift h.1
  · rw [walk_insert_find? w (by simp [unknownEntry])]
    exact h.2

lemma refreshInv_refresh (P : Params) (s : State) (dest : Coordinate) :
    RefreshInv s dest (refresh P s dest) := by
  have hstart : RefreshInv s dest
      ⟨s.table.takeWhile (·.1 ≠ dest), s.table.dropWhile (·.1 ≠ dest), .start s.table⟩ := by
    refine ⟨?_, by rw [equalRange_dropWhile]⟩
    simpa [Walk.table] using begins_start s
  unfold refresh
  generalize s.neighbors = ns
  revert hstart
  generalize (Walk.mk _ _ _) = w
  induction ns generalizing w with
  | nil => exact id
  | cons n ns ih => exact fun h => ih _ (refreshInv_addMissing h n)

lemma visible_find?_reachable (P : Params) (s : State) (dest : Coordinate) :
    (visible P s dest).find? (·.reach = .reachable) =
      (s.table.equalRange dest).find? (·.reach = .reachable) :=
  (refreshInv_refresh P s dest).2

lemma forgetMinlocal_neighbor (e : RouteTableEntry) :
    (forgetMinlocal e).reach = .neighbor ↔ e.reach = .neighbor := by
  unfold forgetMinlocal
  split <;> simp_all

lemma begins_searchTable (P : Params) (s : State) (dest : Coordinate) :
    Begins s (searchTable P s dest) (refresh P s dest).choice := by
  obtain ⟨hw, hf, hn, hb⟩ := (refreshInv_refresh P s dest).1
  refine ⟨hw, hf, hn, ?_⟩
  rcases hb with hb | ⟨i, p, q, hp, hi, hq, hpq⟩
  · exact .inl hb
  refine .inr ⟨i, p, ?_⟩
  simp only [Walk.table, searchTable, RouteTable.mapDest, getElem?_append, getElem?_map] at hq ⊢
  split at hq
  next hlt =>
    exact ⟨q, hp, hi, by rw [if_pos hlt]; exact hq, hpq⟩
  rename_i hlt
  rw [if_neg hlt, hq, map_some]
  refine ⟨_, hp, hi, rfl, hpq.symm.trans ?_ |>.symm⟩
  split
  · exact (forgetMinlocal_neighbor _).symm
  · exact Iff.rfl

/-- The neighbor may be chosen for a destination without entries. -/
def Eligible (P : Params) (s : State) (dest : Coordinate) (n : Coordinate × FaceId) : Prop :=
  P.distance n.1 dest < maxWeight ∧ n.2 ≠ s.incoming

def Chose (P : Params) (dest : Coordinate) (n : Coordinate × FaceId) (t : RouteTable)
    (c : Choice) : Prop :=
  ∃ i, t[i]? = some (dest, unknownEntry P dest n) ∧
    c = ⟨P.distance n.1 dest, some n.2, n.1, some i⟩

lemma chose_shift {n : Coordinate × FaceId} {a : Coordinate × RouteTableEntry}
    (h : Chose P dest n t c) : Chose P dest n (t.insertIdx i a) (c.shift i) := by
  obtain ⟨j, hj, rfl⟩ := h
  exact ⟨_, getElem?_insertIdx_shift hj, rfl⟩

lemma chose_new (n : Coordinate × FaceId) :
    Chose P dest n (t.insert P dest (unknownEntry P dest n))
      ⟨P.distance n.1 dest, some n.2, n.1, some (t.place P dest)⟩ := by
  refine ⟨_, ?_, rfl⟩
  have hle : t.place P dest ≤ t.length := Nat.min_le_right _ _
  simp [RouteTable.insert, getElem?_insertIdx, hle]

lemma addNeighbor_foldl (ns : NeighborsList) (r : RouteTable × Choice)
    (h : Begins s r.1 r.2 ∨ ∃ n, Eligible P s dest n ∧ n ∈ s.neighbors ∧ Chose P dest n r.1 r.2)
    (hns : ∀ n ∈ ns, n ∈ s.neighbors) :
    let r' := ns.foldl (addNeighbor P dest s.incoming) r
    (Begins s r.1 r.2 ∧ (∀ n ∈ ns, ¬ Eligible P s dest n) ∧ Begins s r'.1 r'.2) ∨
      ∃ n, Eligible P s dest n ∧ n ∈ s.neighbors ∧ Chose P dest n r'.1 r'.2 := by
  induction ns generalizing r with
  | nil =>
    rcases h with h | h
    · exact .inl ⟨h, by simp, h⟩
    · exact .inr h
  | cons n ns ih =>
    have hrest : ∀ m ∈ ns, m ∈ s.neighbors := fun m hm => hns m (by simp [hm])
    have hmem : n ∈ s.neighbors := hns n (by simp)
    by_cases hn : P.distance n.1 dest < r.2.minweight ∧ n.2 ≠ s.incoming
    · -- a better neighbor is found; it stays eligible because the bound only went down
      have hel : Eligible P s dest n := by
        refine ⟨?_, hn.2⟩
        rcases h with h | ⟨m, hm, -, i, -, hi⟩
        · simpa [h.1] using hn.1
        · rw [hi] at hn
          exact hn.1.trans hm.1
      have hnext : addNeighbor P dest s.incoming r n =
          (r.1.insert P dest (unknownEntry P dest n),
            ⟨P.distance n.1 dest, some n.2, n.1, some (r.1.place P dest)⟩) :=
        Prod.ext rfl (if_pos hn)
      rcases ih (addNeighbor P dest s.incoming r n)
          (.inr ⟨n, hel, hmem, by rw [hnext]; exact chose_new n⟩) hrest with h' | h'
      · obtain ⟨hb, -, -⟩ := h'
        rw [hnext] at hb
        exact absurd hb.2.1 (by simp)
      · exact .inr h'
    have hnext : addNeighbor P dest s.incoming r n =
        (r.1.insert P dest (unknownEntry P dest n), r.2.shift (r.1.place P dest)) :=
      Prod.ext rfl (if_neg hn)
    rcases h with h | ⟨m, hm, hmm, hc⟩
    · have hb : Begins s (addNeighbor P dest s.incoming r n).1
          (addNeighbor P dest s.incoming r n).2 := by
        rw [hnext]
        exact begins_shift h
      rcases ih _ (.inl hb) hrest with ⟨-, hne, hb'⟩ | h'
      · refine .inl ⟨h, ?_, hb'⟩
        intro m hm
        rcases mem_cons.mp hm with rfl | hm
        · intro hel
          exact hn ⟨by rw [h.1]; exact hel.1, hel.2⟩
        · exact hne m hm
      · exact .inr h'
    · rcases ih (addNeighbor P dest s.incoming r n)
          (.inr ⟨m, hm, hmm, by rw [hnext]; exact chose_shift hc⟩) hrest with h' | h'
      · obtain ⟨hb, -, -⟩ := h'
        obtain ⟨i, -, hi⟩ := hc
        rw [hnext] at hb
        simp [Begins, Choice.shift, hi] at hb
      · exact .inr h'

/-- The first lookup chooses an eligible neighbor, if there is one. -/
lemma firstLookup_spec (P : Params) (s : State) (dest : Coordinate) :
    ((∀ n ∈ s.neighbors, ¬ Eligible P s dest n) ∧
      Begins s (firstLookup P s dest).1 (firstLookup P s dest).2) ∨
    ∃ n ∈ s.neighbors, Eligible P s dest n ∧
      Chose P dest n (firstLookup P s dest).1 (firstLookup P s dest).2 := by
  rcases addNeighbor_foldl s.neighbors (s.table, .start s.table)
      (.inl (begins_start s)) (fun n hn => hn) with ⟨-, hne, hb⟩ | ⟨n, hel, hmem, hc⟩
  · exact .inl ⟨hne, hb⟩
  · exact .inr ⟨n, hmem, hel, hc⟩

end Begin

def firstReachable (s : State) (dest : Coordinate) : Option RouteTableEntry :=
  (s.table.equalRange dest).find? (·.reach = .reachable)

/-- The ways `cal_Nexthos` can take while its iterators are valid. -/
inductive Way (P : Params) (s : State) (dest : Coordinate) : Except Fault Outcome → Prop
  | neighbor {e : RouteTableEntry} (hf : s.table.find dest = some e)
      (hn : e.reach = .neighbor) : Way P s dest (.ok ⟨[some e.face], s.table, false⟩)
  | unreachable (hr : Remote s dest) (hu : ∀ e ∈ visible P s dest, e.reach = .unreachable) :
      Way P s dest (.ok ⟨[], (refresh P s dest).table, false⟩)
  | reachable {r : RouteTableEntry} {f : FaceId} (hr : Remote s dest)
      (hfirst : firstReachable s dest = some r)
      (hf : neighborFace s.neighbors r.nexthop = some f) :
      Way P s dest (.ok ⟨[some f], (refresh P s dest).table, false⟩)
  | lostNexthop {r : RouteTableEntry} (hr : Remote s dest)
      (hfirst : firstReachable s dest = some r)
      (hf : neighborFace s.neighbors r.nexthop = none) :
      Way P s dest (.error .endIterator)
  | greedy {m : RouteTableEntry} {i : ℕ} (hs : Searches P s dest)
      (hm : IsCheapest (candidates P s dest) m)
      (hi : (searchTable P s dest)[i]? = some (dest, m)) :
      Way P s dest (sendChoice P s dest (searchTable P s dest)
        ⟨m.weight, some m.face, m.nexthop, some i⟩)
  | noCandidate {c : Choice} (hs : Searches P s dest)
      (hm : ∀ m ∈ candidates P s dest, ¬ m.Usable maxWeight)
      (hb : Begins s (searchTable P s dest) c) :
      Way P s dest (sendChoice P s dest (searchTable P s dest) c)
  | first {n : Coordinate × FaceId} {c : Choice} (hf : s.table.find dest = none)
      (hn : n ∈ s.neighbors) (he : Eligible P s dest n)
      (hc : Chose P dest n (firstLookup P s dest).1 c) :
      Way P s dest (sendChoice P s dest (firstLookup P s dest).1 c)
  | noNeighbor {c : Choice} (hf : s.table.find dest = none)
      (hne : ∀ n ∈ s.neighbors, ¬ Eligible P s dest n)
      (hb : Begins s (firstLookup P s dest).1 c) :
      Way P s dest (sendChoice P s dest (firstLookup P s dest).1 c)

/-- One way for each end of the lookup branch. -/
lemma lookupBranch_way (hr : Remote s dest) : Way P s dest (lookupBranch P s dest) := by
  have hfirst := visible_find?_reachable P s dest
  simp only [lookupBranch]
  split
  next hall =>
    exact .unreachable hr (by simpa [visible] using hall)
  rename_i hall
  have hsome : ∃ e ∈ visible P s dest, e.reach ≠ .unreachable := by simpa [visible] using hall
  unfold visible at hfirst
  split
  next r hr' =>
    rw [hfirst] at hr'
    split
    · exact .reachable hr hr' ‹_›
    · exact .lostNexthop hr hr' ‹_›
  rename_i hnone
  rw [hfirst] at hnone
  have hsearch : Searches P s dest := by
    refine ⟨hr, hsome, ?_⟩
    simpa using hnone
  rcases search_zipIdx dest (searchTable P s dest) 0 (refresh P s dest).choice with
    ⟨hno, he⟩ | ⟨m, i, hm, hi, he⟩
  · have hb := begins_searchTable P s dest
    rw [hb.1] at hno
    have hway := Way.noCandidate hsearch hno hb
    rw [← he] at hway
    exact hway
  · rw [(begins_searchTable P s dest).1] at hm
    have hway := Way.greedy hsearch hm hi
    rw [Nat.zero_add] at he
    rw [← he] at hway
    exact hway

lemma calNexthos_cases (P : Params) (s : State) (dest : Coordinate) :
    usesInvalid P s dest = true ∧ calNexthos P s dest = .error .invalidIterator ∨
      usesInvalid P s dest = false ∧ Way P s dest (calNexthos P s dest) := by
  unfold calNexthos
  cases hvalid : usesInvalid P s dest with
  | true => exact .inl ⟨rfl, rfl⟩
  | false =>
    refine .inr ⟨rfl, ?_⟩
    rw [if_neg nofun]
    split
    next e he =>
      split
      · exact .neighbor he ‹_›
      · exact lookupBranch_way ⟨e, he, ‹_›⟩
    next hnone =>
      rcases firstLookup_spec P s dest with ⟨hne, hb⟩ | ⟨n, hn, hel, hc⟩
      · exact .noNeighbor hnone hne hb
      · exact .first hnone hn hel hc

lemma way_of_ok {o : Outcome} (h : calNexthos P s dest = .ok o) : Way P s dest (.ok o) := by
  rcases calNexthos_cases P s dest with ⟨-, he⟩ | ⟨-, hway⟩
  · rw [h] at he
    cases he
  · rwa [h] at hway

lemma CheapestBelow.mem {b : ℚ} {es : List RouteTableEntry}
    (h : CheapestBelow b es m) : m ∈ es ∧ m.Usable b := by
  obtain ⟨l, r, rfl, hu, -⟩ := h
  exact ⟨by simp, hu⟩

lemma Remote.reach_ne (h : Remote s dest) {e : RouteTableEntry}
    (hf : s.table.find dest = some e) : e.reach ≠ .neighbor := by
  obtain ⟨e', he', hn⟩ := h
  rw [hf] at he'
  exact some.inj he' ▸ hn

lemma Remote.find_ne_none (h : Remote s dest) : s.table.find dest ≠ none := by
  obtain ⟨e, he, -⟩ := h
  simp [he]

lemma Remote.table_ne_nil (h : Remote s dest) : s.table ≠ [] := by
  intro ht
  exact h.find_ne_none (by simp [RouteTable.find, ht])

lemma Searches.firstReachable_eq (h : Searches P s dest) : firstReachable s dest = none := by
  simpa [firstReachable] using h.2.2

lemma firstReachable_visible {r : RouteTableEntry} (h : firstReachable s dest = some r) :
    r ∈ visible P s dest ∧ r.reach = .reachable := by
  have hv := (visible_find?_reachable P s dest).trans h
  exact ⟨mem_of_find?_eq_some hv, by simpa using find?_some hv⟩

lemma not_searches_of_unreachable (hu : ∀ e ∈ visible P s dest, e.reach = .unreachable) :
    ¬ Searches P s dest := by
  rintro ⟨-, ⟨e, he, hne⟩, -⟩
  exact hne (hu e he)

lemma not_searches_of_reachable {r : RouteTableEntry} (h : firstReachable s dest = some r) :
    ¬ Searches P s dest := by
  intro hs
  simp [hs.firstReachable_eq] at h

def chosenFaces (P : Params) (s : State) (c : Choice) : List (Option FaceId) :=
  if c.minnexthop = P.self then (floodTargets s c.minnexthop).map fun n => some n.2
  else [c.minface]

def chosenTable (P : Params) (s : State) (dest : Coordinate) (t : RouteTable) (c : Choice)
    (i : ℕ) : RouteTable :=
  if c.minnexthop = P.self then
    ((floodTargets s c.minnexthop).foldl (fun t n => markFlood dest n.1 t) t).modify i
      fun p => (p.1, { p.2 with reach := .minlocal })
  else t.modify i fun p => (p.1, { p.2 with send := .sending })

lemma sendChoice_some (hi : c.itr = some i) :
    sendChoice P s dest t c =
      .ok ⟨chosenFaces P s c, chosenTable P s dest t c i, decide (c.minnexthop ≠ P.self)⟩ := by
  unfold sendChoice chosenFaces chosenTable
  split <;> simp [*]

lemma sendChoice_none (hi : c.itr = none) : sendChoice P s dest t c = .error .endIterator := by
  unfold sendChoice
  split <;> simp [hi]

lemma Way.ne_invalid {r : Except Fault Outcome} (h : Way P s dest r) :
    r ≠ .error .invalidIterator := by
  have hsend : ∀ t c, sendChoice P s dest t c ≠ .error .invalidIterator := by
    intro t c
    cases hi : c.itr with
    | none => rw [sendChoice_none hi]; nofun
    | some i => rw [sendChoice_some hi]; nofun
  cases h with
  | greedy | noCandidate | first | noNeighbor => exact hsend _ _
  | _ => nofun

lemma sendChoice_begins (hb : Begins s t c) :
    (s.table = [] ∧ sendChoice P s dest t c = .error .endIterator) ∨
    (s.table ≠ [] ∧ ∃ u b, sendChoice P s dest t c =
      .ok ⟨if P.self = {} then (floodTargets s {}).map fun n => some n.2 else [none], u, b⟩) := by
  obtain ⟨-, hf, hn, ⟨ht, hi⟩ | ⟨i, p, -, hp, hi, -⟩⟩ := hb
  · exact .inl ⟨ht, sendChoice_none hi⟩
  refine .inr ⟨by intro ht; simp [ht] at hp, ?_⟩
  refine ⟨chosenTable P s dest t c i, decide (c.minnexthop ≠ P.self), ?_⟩
  rw [sendChoice_some hi, chosenFaces, hf, hn]
  simp only [eq_comm]

end NfdGateway.Location
