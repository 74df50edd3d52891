import NfdGateway.Table.Fib

/-! The FIB behaves as a map from prefixes to nexthops as long as no prefix is erased whose node
is in the name tree without a FIB entry. -/
namespace NfdGateway.Table

open List Option Function Transition

abbrev Routes (C F : Type) := Name C → Option (F → Option ℕ)

namespace Routes

variable {C F : Type} [DecidableEq C]

def insert (M : Routes C F) (pfx : Name C) : Routes C F :=
  update M pfx (some ((M pfx).getD fun _ => none))

def erase (M : Routes C F) (pfx : Name C) : Routes C F := update M pfx none

variable [DecidableEq F]

def setCost (M : Routes C F) (pfx : Name C) (face : F) (cost : Option ℕ) : Routes C F :=
  update M pfx ((M pfx).map fun costs => update costs face cost)

omit [DecidableEq C] in
def withoutFace (M : Routes C F) (face : F) : Routes C F := fun pfx =>
  (M pfx).map fun costs => update costs face none

omit [DecidableEq C] [DecidableEq F] in
open Classical in
noncomputable def prune (M : Routes C F) : Routes C F := fun pfx =>
  if M pfx = some fun _ => none then none else M pfx

omit [DecidableEq C] in
noncomputable def removeFace (M : Routes C F) (face : F) : Routes C F :=
  (M.withoutFace face).prune

end Routes

namespace Fib

variable {C F : Type} {hash : C → Hash} {B B' : Fib C F} {M : Routes C F} {e : FibEntryId}
  {nte : EntryId}

def prefixOf (B : Fib C F) (e : FibEntryId) : Option (Name C) :=
  (B.entries e).nameTreeEntry.map fun _ => (B.entries e).pfx

lemma prefixOf_eq_some (he : B.Attached e) : B.prefixOf e = some (B.entries e).pfx := by
  obtain ⟨nte, hn⟩ := ne_none_iff_exists'.mp he
  simp [prefixOf, hn]

lemma prefixOf_eq_none (he : ¬ B.Attached e) : B.prefixOf e = none := by
  simp [prefixOf, not_not.mp he]

section Runs

variable [DecidableEq C] [DecidableEq F]

inductive Event (C F : Type)
  | insert (pfx : Name C)
  | erase (pfx : Name C)
  | eraseEntry (e : FibEntryId)
  | addNextHop (e : FibEntryId) (face : F) (cost : ℕ)
  | removeNextHop (e : FibEntryId) (face : F)
  | removeNextHopFromAllEntries (face : F)
  | lookup (name : Name C)
  | eraseEntryIfEmpty (id : EntryId)
  | setTables (id : EntryId) (t : TableEntries)

noncomputable def step (hash : C → Hash) (sort : List (NextHop F) → List (NextHop F))
    (s : Fib C F × Routes C F) : Event C F → Option (Fib C F × Routes C F)
  | .insert pfx => (s.1.insert hash pfx).map fun r => (r.1, s.2.insert pfx)
  | .erase pfx => (s.1.erase hash pfx).map fun B => (B, s.2.erase pfx)
  | .eraseEntry e =>
    (s.1.eraseEntry e).map fun B => (B, (s.1.prefixOf e).elim s.2 s.2.erase)
  | .addNextHop e face cost =>
    some (s.1.setNextHops e (addNextHop sort (s.1.entries e).nextHops face cost),
      (s.1.prefixOf e).elim s.2 fun pfx => s.2.setCost pfx face (some cost))
  | .removeNextHop e face =>
    some (s.1.setNextHops e (removeNextHop (s.1.entries e).nextHops face),
      (s.1.prefixOf e).elim s.2 fun pfx => s.2.setCost pfx face none)
  | .removeNextHopFromAllEntries face =>
    (s.1.removeNextHopFromAllEntries face).map fun B => (B, s.2.removeFace face)
  | .lookup name => some ({ s.1 with tree := (s.1.tree.lookup hash name).1 }, s.2)
  | .eraseEntryIfEmpty id =>
    (s.1.tree.eraseEntryIfEmpty id).map fun r => ({ s.1 with tree := r.1 }, s.2)
  | .setTables id t => some ({ s.1 with tree := s.1.tree.setTables id t }, s.2)

omit [DecidableEq F] in
def EraseOk (hash : C → Hash) (B : Fib C F) (pfx : Name C) : Prop :=
  ∀ nte, B.tree.findExactMatch hash pfx = some nte → B.entryOf nte ≠ none

omit [DecidableEq F] in
/-- No resize of the name tree puts an entry into a wrong bucket, no prefix is erased whose node
has no FIB entry, the buckets can be enumerated, and the other tables use linked nodes and leave
the FIB's entries alone. -/
def Event.Ok (hash : C → Hash) (B : Fib C F) : Event C F → Prop
  | .insert pfx => B.tree.GrowthOk hash pfx.inits
  | .erase pfx => B.tree.ShrinkOk ∧ EraseOk hash B pfx
  | .eraseEntry _ => B.tree.ShrinkOk
  | .addNextHop _ _ _ => True
  | .removeNextHop _ _ => True
  | .removeNextHopFromAllEntries _ => B.tree.ShrinkOk ∧ B.tree.nBuckets < 2 ^ 31
  | .lookup name => B.tree.GrowthOk hash name.inits
  | .eraseEntryIfEmpty id => id ∈ B.tree.linked ∧ B.tree.ShrinkOk
  | .setTables id t => id ∈ B.tree.linked ∧ t.holds .fib = B.tree.holds .fib id

end Runs

/-! ### The map that the FIB stands for -/

variable [DecidableEq F] {es : List FibEntryId} {pfx : Name C} {face : F}

structure Maps (B : Fib C F) (M : Routes C F) : Prop where
  costs : ∀ e, B.Attached e → M (B.entries e).pfx = some (costs (B.entries e).nextHops)
  attached : ∀ pfx, M pfx ≠ none → ∃ e, B.Attached e ∧ (B.entries e).pfx = pfx

lemma Maps.none (hM : Maps B M)
    (hno : ∀ e, B.Attached e → (B.entries e).pfx ≠ pfx) : M pfx = none := by
  by_contra hne
  obtain ⟨e, he, hp⟩ := hM.attached pfx hne
  exact hno e he hp

lemma Maps.eq_findExactMatch [DecidableEq C] (h : Inv hash B) (hM : Maps B M) (pfx : Name C) :
    M pfx = (B.findExactMatch hash pfx).map fun e => Fib.costs (B.entries e).nextHops := by
  cases hf : B.findExactMatch hash pfx with
  | some e =>
    obtain ⟨he, rfl⟩ := h.findExactMatch_iff.mp hf
    exact hM.costs e he
  | none =>
    refine hM.none fun e he hp => ?_
    rw [h.findExactMatch_iff.mpr ⟨he, hp⟩] at hf
    cases hf

lemma Maps.congr (hM : Maps B M) (ha : ∀ e, B'.Attached e ↔ B.Attached e)
    (hp : ∀ e, (B'.entries e).pfx = (B.entries e).pfx)
    (hl : ∀ e, (B'.entries e).nextHops = (B.entries e).nextHops) : Maps B' M := by
  refine ⟨fun e he => ?_, fun pfx hne => ?_⟩
  · rw [hp, hl]
    exact hM.costs e ((ha e).mp he)
  · obtain ⟨e, he, rfl⟩ := hM.attached pfx hne
    exact ⟨e, (ha e).mpr he, hp e⟩

section Updates

variable [DecidableEq C]

lemma Maps.insert_attached (hM : Maps B M) (he : B.Attached e) :
    M.insert (B.entries e).pfx = M := by
  have hp := hM.costs e he
  exact update_eq_self_iff.mpr (by simp [hp])

lemma Maps.attach (h : Inv hash B) (hM : Maps B M)
    (hno : ∀ e, B.Attached e → (B.entries e).pfx ≠ pfx) :
    Maps (B.attach nte pfx) (M.insert pfx) := by
  have hnone := hM.none hno
  refine ⟨fun e he => ?_, fun p hne => ?_⟩
  · rw [entries_attach]
    split
    · simp [Routes.insert, hnone, costs_nil]
    rename_i hfresh
    have he' := ((attached_attach pfx e).mp he).resolve_left hfresh
    rw [Routes.insert, update_of_ne (hno e he')]
    exact hM.costs e he'
  · by_cases hp : p = pfx
    · exact ⟨B.fresh, (attached_attach pfx _).mpr (.inl rfl),
        by rw [entries_attach, if_pos rfl, hp]⟩
    rw [Routes.insert, update_of_ne hp] at hne
    obtain ⟨e, he, rfl⟩ := hM.attached p hne
    have hfresh : e ≠ B.fresh := (h.lt_fresh e he).ne
    exact ⟨e, (attached_attach pfx e).mpr (.inr he), by rw [entries_attach, if_neg hfresh]⟩

lemma Maps.detached (h : Inv hash B) (hM : Maps B M) (he : B.Attached e) (T : NameTree C) :
    Maps (B.detached nte e T) (M.erase (B.entries e).pfx) := by
  refine ⟨fun x hx => ?_, fun p hne => ?_⟩
  · obtain ⟨hxe, hx⟩ := (attached_detached x).mp hx
    have hp : (B.entries x).pfx ≠ (B.entries e).pfx := fun hp => hxe (h.unique hx he hp)
    rw [pfx_detached, nextHops_detached, Routes.erase, update_of_ne hp]
    exact hM.costs x hx
  have hp : p ≠ (B.entries e).pfx := by
    rintro rfl
    simp [Routes.erase] at hne
  rw [Routes.erase, update_of_ne hp] at hne
  obtain ⟨x, hx, rfl⟩ := hM.attached p hne
  refine ⟨x, (attached_detached x).mpr ⟨?_, hx⟩, pfx_detached x⟩
  rintro rfl
  exact hp rfl

lemma Maps.setNextHops (h : Inv hash B) (hM : Maps B M) {l : List (NextHop F)} {cost : Option ℕ}
    (hl : Fib.costs l = update (Fib.costs (B.entries e).nextHops) face cost) :
    Maps (B.setNextHops e l) ((B.prefixOf e).elim M fun pfx => M.setCost pfx face cost) := by
  by_cases he : B.Attached e
  · have hcosts := hM.costs e he
    rw [prefixOf_eq_some he, elim_some, Routes.setCost, hcosts, map_some, ← hl]
    refine ⟨fun x hx => ?_, fun p hne => ?_⟩
    · rw [attached_setNextHops] at hx
      rw [pfx_setNextHops, entries_setNextHops]
      split
      next hxe =>
        rw [hxe, update_self]
      rename_i hxe
      have hp : (B.entries x).pfx ≠ (B.entries e).pfx := fun hp => hxe (h.unique hx he hp)
      rw [update_of_ne hp]
      exact hM.costs x hx
    · simp only [attached_setNextHops, pfx_setNextHops]
      by_cases hp : p = (B.entries e).pfx
      · exact ⟨e, he, hp.symm⟩
      · rw [update_of_ne hp] at hne
        exact hM.attached p hne
  · rw [prefixOf_eq_none he, elim_none]
    refine ⟨fun x hx => ?_, fun p hne => ?_⟩
    · rw [attached_setNextHops] at hx
      have hxe : x ≠ e := by
        rintro rfl
        exact he hx
      rw [entries_setNextHops, if_neg hxe]
      exact hM.costs x hx
    · simp only [attached_setNextHops, pfx_setNextHops]
      exact hM.attached p hne

end Updates

/-! ### `removeNextHopFromAllEntries` -/

def withoutFace (B : Fib C F) (face : F) (es : List FibEntryId) : Fib C F :=
  { B with
    entries := fun e =>
      if e ∈ es then
        { B.entries e with nextHops := removeNextHop (B.entries e).nextHops face }
      else B.entries e }

lemma entries_withoutFace (he : e ∈ es) : (B.withoutFace face es).entries e =
      { B.entries e with nextHops := removeNextHop (B.entries e).nextHops face } :=
  if_pos he

lemma setNextHops_withoutFace (he : e ∉ es) :
    (B.setNextHops e (removeNextHop (B.entries e).nextHops face)).withoutFace face es =
      B.withoutFace face (e :: es) := by
  simp only [withoutFace, setNextHops, Fib.mk.injEq, true_and, and_true]
  funext x
  by_cases hx : x = e
  · subst hx
    simp [he]
  · simp [hx]

lemma removeNextHopAt_loop (face : F) (ntes : List EntryId) (acc : List FibEntryId)
    (hn : (ntes.filterMap B.entryOf).Nodup) :
    ntes.foldl (removeNextHopAt face) (B, acc) =
      (B.withoutFace face (ntes.filterMap B.entryOf),
        acc ++ (ntes.filterMap B.entryOf).filter fun e =>
          (removeNextHop (B.entries e).nextHops face).isEmpty) := by
  induction ntes generalizing B acc with
  | nil => simp [withoutFace]
  | cons nte ntes ih =>
    rw [foldl_cons]
    cases he : B.entryOf nte with
    | none =>
      rw [filterMap_cons_none he] at hn ⊢
      simp only [removeNextHopAt, he]
      exact ih acc hn
    | some e =>
      rw [filterMap_cons_some he] at hn ⊢
      obtain ⟨hnot, hn⟩ := nodup_cons.mp hn
      -- the entries still ahead are other ones, which this turn leaves as they are
      have hsame : (ntes.filterMap B.entryOf).filter (fun x => (removeNextHop
            ((B.setNextHops e (removeNextHop (B.entries e).nextHops face)).entries x).nextHops
              face).isEmpty) =
          (ntes.filterMap B.entryOf).filter fun x =>
            (removeNextHop (B.entries x).nextHops face).isEmpty := by
        refine filter_congr fun x hx => ?_
        rw [entries_setNextHops, if_neg (ne_of_mem_of_not_mem hx hnot)]
      simp only [removeNextHopAt, he]
      rw [ih (B := B.setNextHops e _) _ hn]
      show (_, _ ++ (ntes.filterMap B.entryOf).filter _) = _
      rw [hsame]
      refine Prod.ext (setNextHops_withoutFace hnot) ?_
      rw [filter_cons]
      split <;> simp

lemma Inv.withoutFace (h : Inv hash B) (face : F) (es : List FibEntryId) :
    Inv hash (B.withoutFace face es) := by
  refine h.withEntries (fun e => ?_) (fun e => ?_) fun e => ?_ <;> dsimp only <;> split
  · rfl
  · rfl
  · rfl
  · rfl
  · exact tidy_removeNextHop (h.tidy e) face
  · exact h.tidy e

lemma attached_withoutFace (face : F) (es : List FibEntryId) :
    (B.withoutFace face es).Attached e ↔ B.Attached e := by
  unfold Attached Fib.withoutFace
  dsimp only
  split <;> rfl

lemma Maps.withoutFace (h : Inv hash B) (hM : Maps B M) (face : F)
    (hes : ∀ e, e ∈ es ↔ B.Attached e) :
    Maps (B.withoutFace face es) (M.withoutFace face) := by
  refine ⟨fun e he => ?_, fun pfx hne => ?_⟩
  · rw [attached_withoutFace] at he
    rw [entries_withoutFace ((hes e).mpr he), costs_removeNextHop (h.tidy e),
      Routes.withoutFace, hM.costs e he, map_some]
  · have hM' : M pfx ≠ Option.none := fun hc => hne (by simp [Routes.withoutFace, hc])
    obtain ⟨e, he, rfl⟩ := hM.attached pfx hM'
    exact ⟨e, (attached_withoutFace face es).mpr he, by rw [entries_withoutFace ((hes e).mpr he)]⟩

omit [DecidableEq F] in
lemma eraseEntry_loop (L : List FibEntryId) (h : Inv hash B) (hn : L.Nodup)
    (ha : ∀ e ∈ L, B.Attached e) (hok : B.tree.ShrinkOk) :
    ∃ B', L.foldlM eraseEntry B = some B' ∧ Inv hash B' ∧
      (∀ e, B'.Attached e ↔ e ∉ L ∧ B.Attached e) ∧
      (∀ e, (B'.entries e).pfx = (B.entries e).pfx) ∧
      ∀ e, (B'.entries e).nextHops = (B.entries e).nextHops := by
  induction L generalizing B with
  | nil => exact ⟨B, rfl, h, by simp, fun _ => rfl, fun _ => rfl⟩
  | cons e L ih =>
    obtain ⟨hnot, hn⟩ := nodup_cons.mp hn
    obtain ⟨nte, he⟩ := h.attached_iff.mp (ha e (.head _))
    obtain ⟨T, hT, hi, hok'⟩ := h.eraseNode he hok
    have ha' : ∀ x ∈ L, (B.detached nte e T).Attached x := fun x hx =>
      (attached_detached x).mpr ⟨ne_of_mem_of_not_mem hx hnot, ha x (.tail _ hx)⟩
    obtain ⟨B', hB', hi', hatt, hp, hl⟩ := ih hi hn ha' hok'
    refine ⟨B', ?_, hi', fun x => ?_, fun x => ?_, fun x => ?_⟩
    · rw [foldlM_cons, eraseEntry, (h.entryOf_iff nte e).mp he]
      simp only [hT]
      exact hB'
    · rw [hatt, attached_detached, mem_cons, not_or, and_assoc, and_left_comm]
    · rw [hp, pfx_detached]
    · rw [hl, nextHops_detached]

lemma Maps.prune (hM : Maps B M) {L : List FibEntryId}
    (hL : ∀ e, B.Attached e → (e ∈ L ↔ (B.entries e).nextHops = []))
    (ha : ∀ e, B'.Attached e ↔ e ∉ L ∧ B.Attached e)
    (hp : ∀ e, (B'.entries e).pfx = (B.entries e).pfx)
    (hl : ∀ e, (B'.entries e).nextHops = (B.entries e).nextHops) : Maps B' M.prune := by
  refine ⟨fun e he => ?_, fun pfx hne => ?_⟩
  · obtain ⟨hnot, he⟩ := (ha e).mp he
    have hcosts := hM.costs e he
    have hne : Fib.costs (B.entries e).nextHops ≠ fun _ => Option.none := fun hc =>
      hnot ((hL e he).mpr (costs_eq_none_iff.mp hc))
    rw [hp, hl, Routes.prune, if_neg (by rw [hcosts]; simpa using hne), hcosts]
  rw [Routes.prune] at hne
  split at hne
  · exact absurd rfl hne
  rename_i hsome
  obtain ⟨e, he, rfl⟩ := hM.attached pfx hne
  refine ⟨e, (ha e).mpr ⟨fun hmem => hsome ?_, he⟩, hp e⟩
  rw [hM.costs e he, (hL e he).mp hmem, costs_nil]

lemma removeNextHopFromAllEntries_spec (h : Inv hash B) (hM : Maps B M) (face : F)
    (hok : B.tree.ShrinkOk) (hb : B.tree.nBuckets < 2 ^ 31) :
    ∃ B', B.removeNextHopFromAllEntries face = some B' ∧ Inv hash B' ∧
      Maps B' (M.removeFace face) := by
  set es := (B.tree.linked.filter fun x => (B.tree.entries x).tables.fibEntry).filterMap B.entryOf
    with hdef
  have hes : ∀ e, e ∈ es ↔ B.Attached e := by
    intro e
    rw [h.attached_iff, hdef, mem_filterMap]
    constructor
    · rintro ⟨nte, -, he⟩
      exact ⟨nte, he⟩
    · rintro ⟨nte, he⟩
      exact ⟨nte, mem_filter.mpr ((h.held_iff nte).mpr ⟨e, he⟩), he⟩
  have hnodup : es.Nodup := by
    refine (h.tree.nodup.filter _).filterMap fun x y e hx hy => ?_
    rw [mem_def, h.entryOf_iff] at hx hy
    exact some.inj (hx.symm.trans hy)
  have hsub : ∀ e ∈ es.filter fun e => (removeNextHop (B.entries e).nextHops face).isEmpty,
      (B.withoutFace face es).Attached e := fun e he =>
    (attached_withoutFace face es).mpr ((hes e).mp (mem_filter.mp he).1)
  obtain ⟨B', hB', hi, hatt, hp, hl⟩ := eraseEntry_loop _ (h.withoutFace face es)
    (hnodup.filter _) hsub hok
  refine ⟨B', ?_, hi, (hM.withoutFace h face hes).prune (fun e he => ?_) hatt hp hl⟩
  · rw [removeNextHopFromAllEntries, h.tree.fullEnumerate_eq hb, bind_some,
      removeNextHopAt_loop face _ [] hnodup]
    exact hB'
  · have hmem := (hes e).mpr ((attached_withoutFace face es).mp he)
    rw [mem_filter, entries_withoutFace hmem]
    simp [hmem]

/-! ### Runs -/

variable [DecidableEq C] {sort : List (NextHop F) → List (NextHop F)}

structure Refines (hash : C → Hash) (B : Fib C F) (M : Routes C F) : Prop where
  inv : Inv hash B
  maps : Maps B M

lemma Refines.insert (h : Refines hash B M) (hok : B.tree.GrowthOk hash pfx.inits) :
    ∃ r, B.insert hash pfx = some r ∧ Refines hash r.1 (M.insert pfx) := by
  obtain ⟨T, nte, hl, hT, hg, hnte, hname, -⟩ := NameTree.lookup_spec h.inv.tree hok
  have hi := h.inv.grown hT hg
  have hM : Maps { B with tree := T } M :=
    h.maps.congr (fun _ => Iff.rfl) (fun _ => rfl) fun _ => rfl
  cases he : B.entryOf nte with
  | some e =>
    refine ⟨({ B with tree := T }, e, false), ?_, hi, ?_⟩
    · simp only [Fib.insert, hl, map_some, he]
    have hpfx : (B.entries e).pfx = pfx := (hi.pfx nte e he).symm.trans hname
    rw [← hpfx, Maps.insert_attached h.maps (h.inv.attached_iff.mpr ⟨nte, he⟩)]
    exact hM
  | none =>
    refine ⟨(({ B with tree := T } : Fib C F).attach nte pfx, B.fresh, true), ?_, ?_, ?_⟩
    · simp only [Fib.insert, hl, map_some, he]
    · have hi' := hi.attach hnte he
      rwa [hname] at hi'
    refine hM.attach hi fun e ha hp => ?_
    obtain ⟨x, hx⟩ := hi.attached_iff.mp ha
    have hxn : (T.entries x).pfx = (T.entries nte).pfx := by
      rw [hname, ← hp]
      exact hi.pfx x e hx
    rw [hT.unique x (hi.linked hx) nte hnte hxn] at hx
    exact absurd (he.symm.trans hx) (by simp)

lemma Refines.eraseNode (h : Refines hash B M) (he : B.entryOf nte = some e)
    (hok : B.tree.ShrinkOk) :
    ∃ B', B.eraseNode nte = some B' ∧ Refines hash B' (M.erase (B.entries e).pfx) := by
  obtain ⟨T, hT, hi, -⟩ := h.inv.eraseNode he hok
  exact ⟨_, hT, hi, h.maps.detached h.inv (h.inv.attached_iff.mpr ⟨nte, he⟩) T⟩

lemma Refines.erase (h : Refines hash B M) (hok : B.tree.ShrinkOk) (her : EraseOk hash B pfx) :
    ∃ B', B.erase hash pfx = some B' ∧ Refines hash B' (M.erase pfx) := by
  unfold Fib.erase
  cases hf : B.tree.findExactMatch hash pfx with
  | some nte =>
    obtain ⟨e, he⟩ := ne_none_iff_exists'.mp (her nte hf)
    have hpfx : (B.entries e).pfx = pfx :=
      (h.inv.pfx nte e he).symm.trans (h.inv.tree.findExactMatch_iff.mp hf).2
    have hB := h.eraseNode he hok
    rwa [hpfx] at hB
  | none =>
    have hnone : M pfx = Option.none := by
      rw [h.maps.eq_findExactMatch h.inv, findExactMatch, hf]
      rfl
    exact ⟨B, rfl, by rwa [Routes.erase, ← hnone, update_eq_self]⟩

lemma Refines.eraseEntry (h : Refines hash B M) (e : FibEntryId) (hok : B.tree.ShrinkOk) :
    ∃ B', B.eraseEntry e = some B' ∧ Refines hash B' ((B.prefixOf e).elim M M.erase) := by
  by_cases he : B.Attached e
  · obtain ⟨nte, hn⟩ := h.inv.attached_iff.mp he
    rw [Fib.eraseEntry, (h.inv.entryOf_iff nte e).mp hn, prefixOf_eq_some he]
    exact h.eraseNode hn hok
  · rw [Fib.eraseEntry, not_not.mp he, prefixOf_eq_none he]
    exact ⟨B, rfl, h⟩

lemma Refines.step (hsort : SortsByCost sort) {s : Fib C F × Routes C F} (h : Refines hash s.1 s.2)
    {ev : Event C F} (hok : ev.Ok hash s.1) :
    ∃ t, step hash sort s ev = some t ∧ Refines hash t.1 t.2 := by
  obtain ⟨B, M⟩ := s
  have hM : ∀ T, Maps { B with tree := T } M := fun T =>
    h.maps.congr (fun _ => Iff.rfl) (fun _ => rfl) fun _ => rfl
  cases ev with
  | insert pfx =>
    obtain ⟨r, hr, hi⟩ := h.insert hok
    exact ⟨_, map_eq_some_iff.mpr ⟨r, hr, rfl⟩, hi⟩
  | erase pfx =>
    obtain ⟨B', hB', hi⟩ := h.erase hok.1 hok.2
    exact ⟨_, map_eq_some_iff.mpr ⟨B', hB', rfl⟩, hi⟩
  | eraseEntry e =>
    obtain ⟨B', hB', hi⟩ := h.eraseEntry e hok
    exact ⟨_, map_eq_some_iff.mpr ⟨B', hB', rfl⟩, hi⟩
  | addNextHop e face cost =>
    have htidy := h.inv.tidy e
    exact ⟨_, rfl, h.inv.setNextHops (tidy_addNextHop hsort htidy face cost) e,
      h.maps.setNextHops h.inv (costs_addNextHop hsort htidy face cost)⟩
  | removeNextHop e face =>
    have htidy := h.inv.tidy e
    exact ⟨_, rfl, h.inv.setNextHops (tidy_removeNextHop htidy face) e,
      h.maps.setNextHops h.inv (costs_removeNextHop htidy face)⟩
  | removeNextHopFromAllEntries face =>
    obtain ⟨B', hB', hi, hmaps⟩ := removeNextHopFromAllEntries_spec h.inv h.maps face hok.1 hok.2
    exact ⟨_, map_eq_some_iff.mpr ⟨B', hB', rfl⟩, hi, hmaps⟩
  | lookup name =>
    obtain ⟨T, nte, hl, hT, hg, -⟩ := NameTree.lookup_spec h.inv.tree hok
    refine ⟨_, rfl, ?_, hM _⟩
    rw [hl]
    exact h.inv.grown hT hg
  | eraseEntryIfEmpty id =>
    obtain ⟨T, b, he, hT, hp, -⟩ :=
      NameTree.eraseEntryIfEmpty_spec h.inv.tree hok.1 hok.2 h.inv.minNBuckets
    exact ⟨_, map_eq_some_iff.mpr ⟨_, he, rfl⟩, h.inv.pruned hT hp, hM T⟩
  | setTables id t =>
    refine ⟨_, rfl, h.inv.withTree (h.inv.tree.setTables id t) rfl (fun x => ?_) fun x _ => ?_,
      hM _⟩
    · refine and_congr_right fun _ => ?_
      rw [NameTree.holds_setTables]
      split
      next hx =>
        rw [hok.2, hx]
      · rfl
    · rw [NameTree.setTables_entries]

omit [DecidableEq C] in
lemma refines_new {n : ℕ} (hn : 0 < n) :
    Refines hash ({ tree := .new n } : Fib C F) (fun _ => none) := by
  have hl : (NameTree.new n : NameTree C).linked = [] := by simp [NameTree.new, NameTree.linked]
  refine ⟨⟨NameTree.inv_new hn, hn, ?_, ?_, ?_, ?_, fun _ => tidy_nil, [], nodup_nil, ?_, rfl⟩,
    ?_, ?_⟩
  · simp [NameTree.Held, hl]
  all_goals simp [Attached]

/-- In every run whose steps meet the condition, looking a prefix up answers what the map says,
every entry has one nexthop per face and sorted by cost, the counter is the number of prefixes,
erasing a prefix without entry changes nothing, and every call returns. -/
theorem behaves_as_map (hsort : SortsByCost sort) {n : ℕ} (hn : 0 < n)
    {s : Fib C F × Routes C F} (hr : Reach (step hash sort)
      (fun s ev => ev.Ok hash s.1) ({ tree := .new n }, fun _ => none) s) :
    (∀ pfx, s.2 pfx =
      (s.1.findExactMatch hash pfx).map fun e => costs (s.1.entries e).nextHops) ∧
    (∀ pfx e, s.1.findExactMatch hash pfx = some e →
      ((s.1.entries e).nextHops.map (·.face)).Nodup ∧
      (s.1.entries e).nextHops.Pairwise (·.cost ≤ ·.cost)) ∧
    (∃ l : List (Name C), l.Nodup ∧ (∀ pfx, pfx ∈ l ↔ s.2 pfx ≠ none) ∧
      s.1.nItems = l.length) ∧
    (∀ pfx, s.1.findExactMatch hash pfx = none → EraseOk hash s.1 pfx →
      s.1.erase hash pfx = some s.1) ∧
    ∀ ev : Event C F, ev.Ok hash s.1 → step hash sort s ev ≠ none := by
  have h : Refines hash s.1 s.2 := hr.invariant (I := fun s => Refines hash s.1 s.2)
      (refines_new hn) fun s a t hs hok ht => by
    obtain ⟨t', ht', href⟩ := hs.step hsort hok
    rw [ht] at ht'
    exact some.inj ht' ▸ href
  have heq := h.maps.eq_findExactMatch h.inv
  refine ⟨heq, fun pfx e _ => ⟨(h.inv.tidy e).nodup, (h.inv.tidy e).sorted⟩, ?_, ?_, ?_⟩
  · obtain ⟨es, hnodup, hes, hcount⟩ := h.inv.counted
    refine ⟨es.map fun e => (s.1.entries e).pfx, ?_, fun pfx => ?_, by rw [hcount, length_map]⟩
    · exact hnodup.map_on fun a ha b hb => h.inv.unique ((hes a).mp ha) ((hes b).mp hb)
    rw [List.mem_map]
    constructor
    · rintro ⟨e, he, rfl⟩
      rw [h.maps.costs e ((hes e).mp he)]
      simp
    · intro hne
      obtain ⟨e, he, rfl⟩ := h.maps.attached pfx hne
      exact ⟨e, (hes e).mpr he, rfl⟩
  · intro pfx hno her
    unfold Fib.erase
    cases hf : s.1.tree.findExactMatch hash pfx with
    | none => rfl
    | some nte =>
      rw [findExactMatch, hf] at hno
      exact absurd hno (her nte hf)
  · intro ev hok
    obtain ⟨t, ht, -⟩ := h.step hsort hok
    rw [ht]
    simp

def sortByCost (l : List (NextHop ℕ)) : List (NextHop ℕ) := l.insertionSort (·.cost ≤ ·.cost)

lemma sortsByCost_sortByCost : SortsByCost sortByCost := by
  have htotal : Std.Total fun a b : NextHop ℕ => a.cost ≤ b.cost := ⟨fun a b => le_total _ _⟩
  have htrans : IsTrans (NextHop ℕ) fun a b => a.cost ≤ b.cost := ⟨fun _ _ _ => le_trans⟩
  exact ⟨fun l => perm_insertionSort _ l, fun l => pairwise_insertionSort _ l⟩

/-- With entries for `/1` and `/1/2/3`, erasing `/1/2` counts an entry down. -/
theorem erase_without_entry :
    ∃ s, run (step NameTree.numberHash sortByCost)
        ({ tree := .new 16 }, fun _ => none)
        [.insert [1], .insert [1, 2, 3], .erase [1, 2]] = some s ∧
      s.1.findExactMatch NameTree.numberHash [1] = some 0 ∧
      s.1.findExactMatch NameTree.numberHash [1, 2, 3] = some 1 ∧
      s.1.nItems = 1 :=
  ⟨_, rfl, by decide, by decide, by decide⟩

theorem behaves_as_map_two_nexthops :
    ∃ s, run (step NameTree.numberHash sortByCost)
        ({ tree := .new 16 }, fun _ => none)
        [.insert [1], .addNextHop 0 7 10, .addNextHop 0 8 5] = some s ∧
      (s.1.entries 0).nextHops = [⟨8, 5⟩, ⟨7, 10⟩] ∧
      s.2 [1] = some (costs [⟨8, 5⟩, ⟨7, 10⟩]) := by
  have hreach : Reach (step NameTree.numberHash sortByCost)
      (fun s ev => ev.Ok NameTree.numberHash s.1)
      ({ tree := .new 16 }, fun _ => none) _ :=
    .step (a := .addNextHop 0 8 5) (.step (a := .addNextHop 0 7 10) (.step (a := .insert [1]) .init
      (NameTree.growthOk_of_room (by decide)) rfl) trivial rfl) trivial rfl
  exact ⟨_, rfl, by decide, (behaves_as_map sortsByCost_sortByCost (by decide) hreach).1 [1]⟩

end Fib

end NfdGateway.Table
