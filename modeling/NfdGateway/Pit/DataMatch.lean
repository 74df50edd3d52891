import NfdGateway.Pit.Map

/-! Data packets: which PIT entries `findAllDataMatches` returns. -/
namespace NfdGateway.Pit

open List Transition

variable {C S : Type} {hash : C → Hash} {isDigest : C → Bool} {P : Pit C S}
  {dataName : Name C} {matchesData : Interest C S → Bool} {e : PitEntryId}

def MatchesData (P : Pit C S) (matchesData : Interest C S → Bool) (e : PitEntryId) : Prop :=
  ∃ i, P.interestOf e = some i ∧ matchesData i = true

def ReturnsMatches (P : Pit C S) (matchesData : Interest C S → Bool)
    (result : List PitEntryId) : Prop :=
  result.Nodup ∧ ∀ e, e ∈ result ↔ e ∈ P.present ∧ P.MatchesData matchesData e

/-- Wherever a prefix of the Data name has the hash of a node with PIT entries above a
matching one, a longer prefix has the hash of some node with PIT entries too. -/
def NodesTell (hash : C → Hash) (P : Pit C S) (dataName : Name C)
    (matchesData : Interest C S → Bool) : Prop :=
  ∀ x ∈ P.tree.linked, ∀ e ∈ P.attachedTo x, P.MatchesData matchesData e →
    ∀ y, P.tree.Candidate TreeEntry.hasPitEntries dataName y →
      (P.tree.entries y).pfx.length < (P.tree.entries x).pfx.length →
      ∀ i ≤ dataName.length, computeHash hash (dataName.take i) = (P.tree.entries y).hash →
        ∃ j, i < j ∧ j ≤ dataName.length ∧ ∃ z,
          P.tree.Candidate TreeEntry.hasPitEntries dataName z ∧
          computeHash hash (dataName.take j) = (P.tree.entries z).hash

lemma candidate_of_matches (h : Inv hash isDigest P)
    (hm : ∀ i, matchesData i = true → treeName isDigest i.name <+: dataName) {x : EntryId}
    (hx : x ∈ P.tree.linked) (he : e ∈ P.attachedTo x) (hme : P.MatchesData matchesData e) :
    P.tree.Candidate TreeEntry.hasPitEntries dataName x := by
  obtain ⟨-, j, hj, hjn⟩ := h.attached x hx e he
  obtain ⟨i, hi, hmi⟩ := hme
  obtain rfl : j = i := by simpa [interestOf, hj] using hi
  refine ⟨hx, hjn ▸ hm j hmi, ?_⟩
  have hne : (P.tree.entries x).tables.pitEntries ≠ [] := ne_nil_of_mem he
  simpa [TreeEntry.hasPitEntries] using hne

variable [DecidableEq C]

lemma mem_findAllDataMatches : e ∈ P.findAllDataMatches hash dataName matchesData ↔
    ∃ x ∈ P.tree.findAllMatches hash dataName TreeEntry.hasPitEntries,
      e ∈ P.attachedTo x ∧ P.MatchesData matchesData e := by
  simp only [findAllDataMatches, mem_flatMap, mem_filter, attachedTo, MatchesData, interestOf]
  refine exists_congr fun x => and_congr_right fun _ => and_congr_right fun _ => ?_
  cases P.entries e <;> simp

lemma findAllDataMatches_nodup (h : Inv hash isDigest P)
    (matchesData : Interest C S → Bool) {nodes : List EntryId}
    (hn : P.tree.findAllMatches hash dataName TreeEntry.hasPitEntries = nodes)
    (hnodup : nodes.Nodup) (hlinked : ∀ x ∈ nodes, x ∈ P.tree.linked) :
    (P.findAllDataMatches hash dataName matchesData).Nodup := by
  rw [findAllDataMatches, hn]
  refine nodup_flatMap.mpr ⟨fun x hx => (h.nodup x (hlinked x hx)).filter _, ?_⟩
  refine hnodup.imp_of_mem fun {a b} ha hb hab e hea heb => hab ?_
  exact h.node_unique (hlinked a ha) (hlinked b hb) (mem_of_mem_filter hea) (mem_of_mem_filter heb)

lemma returnsMatches_iff (h : Inv hash isDigest P)
    (hm : ∀ i, matchesData i = true → treeName isDigest i.name <+: dataName) :
    P.ReturnsMatches matchesData (P.findAllDataMatches hash dataName matchesData) ↔
      P.NodesTell hash dataName matchesData := by
  rcases NameTree.findLongestPrefixMatch_spec h.tree dataName TreeEntry.hasPitEntries with
    ⟨hnone, hno⟩ | ⟨s, i, hs, hi, hc, hhash, hshort, hhigh⟩
  · -- no node with PIT entries on the way, hence no match either
    have hnil : P.findAllDataMatches hash dataName matchesData = [] := by
      simp [findAllDataMatches, NameTree.findAllMatches, hnone]
    refine iff_of_true ⟨hnil ▸ nodup_nil, fun e => ?_⟩ ?_
    · rw [hnil]
      refine iff_of_false not_mem_nil ?_
      rintro ⟨he, hme⟩
      obtain ⟨x, hx, hex⟩ := mem_present.mp he
      exact hno x (candidate_of_matches h hm hx hex hme)
    · intro x hx e he hme
      exact absurd (candidate_of_matches h hm hx he hme) (hno x)
  obtain ⟨hnodup, hnodes⟩ := NameTree.findAllMatches_spec h.tree hs hc
  have hdup := findAllDataMatches_nodup h matchesData rfl hnodup
    fun x hx => ((hnodes x).mp hx).1.linked
  constructor
  · rintro ⟨-, hall⟩ x hx e he hme y hy hlt k hk hky
    -- the matching entry was returned, so its node is not longer than the first found
    obtain ⟨x', hx', hex', -⟩ := mem_findAllDataMatches.mp
      ((hall e).mpr ⟨mem_present.mpr ⟨x, hx, he⟩, hme⟩)
    obtain ⟨hcx', hle⟩ := (hnodes x').mp hx'
    rw [h.node_unique hcx'.linked hx hex' he] at hle
    rcases lt_trichotomy k i with hki | rfl | hik
    · exact ⟨i, hki, hi, s, hc, hhash.symm⟩
    · have := hshort y hy (hky.symm.trans hhash.symm)
      omega
    · exact absurd hky.symm (hhigh y hy k hik hk)
  intro htell
  refine ⟨hdup, fun e => ?_⟩
  rw [mem_findAllDataMatches]
  constructor
  · rintro ⟨x, hx, he, hme⟩
    exact ⟨mem_present.mpr ⟨x, ((hnodes x).mp hx).1.linked, he⟩, hme⟩
  rintro ⟨he, hme⟩
  obtain ⟨x, hx, hex⟩ := mem_present.mp he
  have hcx := candidate_of_matches h hm hx hex hme
  refine ⟨x, (hnodes x).mpr ⟨hcx, ?_⟩, hex, hme⟩
  by_contra hlt
  obtain ⟨j, hij, hj, z, hz, hjz⟩ := htell x hx e hex hme s hc (by omega) i hi hhash.symm
  exact hhigh z hz j hij hj hjz.symm

/-- `findAllDataMatches` returns every matching entry once and nothing else, exactly when the
search by hashes does not stop at a node above a match. -/
theorem data_matches_iff [DecidableEq S] {n : ℕ} (hn : 0 < n) {M : InterestMap C S}
    (h : Reach (step hash isDigest) (fun s ev => ev.Ok hash isDigest s)
      (new n, fun _ => none) (P, M))
    (hm : ∀ i, matchesData i = true → treeName isDigest i.name <+: dataName) :
    P.ReturnsMatches matchesData (P.findAllDataMatches hash dataName matchesData) ↔
      P.NodesTell hash dataName matchesData :=
  returnsMatches_iff (refines_run hn h).inv hm

/-- Data /A/A/A satisfies the Interest for /A but not the one for /A/A/A. -/
theorem repeated_component_unmatched :
    ∃ (P : Pit Unit Unit) (M : InterestMap Unit Unit),
      Reach (step (fun _ => 1) fun _ => false) Any
        (new 16, fun _ => none) (P, M) ∧
      ¬ P.ReturnsMatches (fun i => decide (i.name <+: [(), (), ()]))
        (P.findAllDataMatches (fun _ => 1) [(), (), ()]
          fun i => decide (i.name <+: [(), (), ()])) := by
  refine ⟨_, _, .step (a := .insert ⟨[(), (), ()], ()⟩)
    (.step (a := .insert ⟨[()], ()⟩) .init trivial rfl) trivial rfl, ?_⟩
  rintro ⟨-, hall⟩
  exact absurd ((hall 1).mpr ⟨by decide, ⟨[(), (), ()], ()⟩, rfl, rfl⟩) (by decide)

/-- Two Interests, the second below the first. -/
def pair : Pit Unit Unit :=
  (((new 16).insert (fun _ => 1) (fun _ => false) ⟨[()], ()⟩).1.insert (fun _ => 1)
    (fun _ => false) ⟨[(), ()], ()⟩).1

/-- There the search for the Data of both stops at no other node. -/
theorem data_matches_two :
    pair.NodesTell (fun _ => 1) [(), ()] fun i => decide (i.name <+: [(), ()]) := by
  have hreach : Reach (step (fun _ => 1) fun _ => false)
      (fun s ev => ev.Ok (fun _ => 1) (fun _ => false) s) (new 16, fun _ => none)
      (pair, InterestMap.insert (InterestMap.insert (fun _ => none) ⟨[()], ()⟩ (some 0))
        ⟨[(), ()], ()⟩ (some 1)) :=
    .step (a := .insert ⟨[(), ()], ()⟩) (.step (a := .insert ⟨[()], ()⟩) .init
      (NameTree.growthOk_of_room (by decide)) rfl) (NameTree.growthOk_of_room (by decide)) rfl
  have hresult : pair.findAllDataMatches (fun _ => 1) [(), ()]
      (fun i => decide (i.name <+: [(), ()])) = [1, 0] := by decide
  have hpresent : pair.present = [1, 0] := by decide
  refine (data_matches_iff (by decide) hreach ?_).mp ?_
  · intro i hi
    simpa [treeName, isEndWithDigest] using hi
  rw [ReturnsMatches, hresult, hpresent]
  refine ⟨by decide, fun e => ⟨fun he => ⟨he, ?_⟩, fun h => h.1⟩⟩
  simp only [mem_cons, not_mem_nil, or_false] at he
  rcases he with rfl | rfl
  · exact ⟨⟨[(), ()], ()⟩, rfl, rfl⟩
  · exact ⟨⟨[()], ()⟩, rfl, rfl⟩

end NfdGateway.Pit
