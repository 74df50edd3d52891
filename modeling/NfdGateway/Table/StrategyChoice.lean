import NfdGateway.Lib.PrefixMap
import NfdGateway.NameTree.SubTree
import NfdGateway.Pit.Operations

/-! The Strategy Choice table on the name tree it shares with the PIT and the Measurements. When
the strategy of a prefix changes, the StrategyInfo of what is under the prefix is cleared. -/
namespace NfdGateway.Table

open List Option

inductive InfoOwner
  | pitEntry (e : PitEntryId)
  | measurements (nte : EntryId)

inductive InfoHolder (F : Type)
  | pitEntry (e : PitEntryId)
  | inRecord (e : PitEntryId) (face : F)
  | outRecord (e : PitEntryId) (face : F)
  | measurements (nte : EntryId)

def InfoHolder.owner {F : Type} : InfoHolder F → InfoOwner
  | .pitEntry e => .pitEntry e
  | .inRecord e _ => .pitEntry e
  | .outRecord e _ => .pitEntry e
  | .measurements nte => .measurements nte

structure Tables (C S F I St : Type) where
  pit : Pit C S
  strategyOf : EntryId → St
  info : InfoHolder F → Option I

namespace Tables

variable {C S F I St : Type}

def tree (t : Tables C S F I St) : NameTree C := t.pit.tree

def withTree (t : Tables C S F I St) (T : NameTree C) : Tables C S F I St :=
  { t with pit := t.pit.withTree T }

def setStrategy (t : Tables C S F I St) (nte : EntryId) (strategy : St) : Tables C S F I St :=
  { t with strategyOf := Function.update t.strategyOf nte strategy }

end Tables

namespace StrategyChoice

variable {C S F I St N : Type}

def hasStrategyChoiceEntry (entry : TreeEntry C) : Bool := entry.tables.strategyChoiceEntry

def findEffectiveStrategyAt (t : Tables C S F I St) (nte : EntryId) : Option St :=
  if t.tree.holds .strategyChoice nte then some (t.strategyOf nte)
  else (t.tree.findLongestPrefixMatchFrom (some nte) hasStrategyChoiceEntry).map t.strategyOf

def isAt (T : NameTree C) (nte : EntryId) : InfoOwner → Bool
  | .pitEntry e => e ∈ (T.entries nte).tables.pitEntries
  | .measurements x => x = nte && T.holds .measurements nte

def clearStrategyInfo (t : Tables C S F I St) (nte : EntryId) : Tables C S F I St :=
  { t with info := fun x => if isAt t.tree nte x.owner then none else t.info x }

def isCovered (T : NameTree C) (root nte : EntryId) : Bool × Bool :=
  if nte = root then (true, true)
  else if T.holds .strategyChoice nte then (false, false)
  else (true, true)

variable [DecidableEq C] (hash : C → Hash)

def findEffectiveStrategy (t : Tables C S F I St) (pfx : Name C) : Option St :=
  (t.tree.findLongestPrefixMatch hash pfx hasStrategyChoiceEntry).map t.strategyOf

def findEffectiveStrategyPit (t : Tables C S F I St) (e : PitEntryId) :
    Option (Tables C S F I St × St) :=
  (t.pit.entries e).bind fun entry =>
    let r := Pit.get hash t.tree entry
    r.2.bind fun nte =>
      (findEffectiveStrategyAt (t.withTree r.1) nte).map fun strategy => (t.withTree r.1, strategy)

variable [DecidableEq St] [DecidableEq N]

def changeStrategy (t : Tables C S F I St) (nte : EntryId) (pfx : Name C)
    (oldStrategy newStrategy : St) : Option (Tables C S F I St) :=
  if oldStrategy = newStrategy then some t
  else
    (t.tree.partialEnumerate hash pfx (isCovered t.tree nte)).map fun ntChanged =>
      ntChanged.foldl clearStrategyInfo t

def insert (getName : St → N) (t : Tables C S F I St) (pfx : Name C) :
    Option St → Option (Tables C S F I St × Bool)
  | none => some (t, false)
  | some strategy =>
    let r := t.tree.lookup hash pfx
    let t := t.withTree r.1
    r.2.bind fun nte =>
      if t.tree.holds .strategyChoice nte then
        if getName (t.strategyOf nte) = getName strategy then some (t, true)
        else
          (changeStrategy hash t nte pfx (t.strategyOf nte) strategy).map fun t =>
            (t.setStrategy nte strategy, true)
      else
        (findEffectiveStrategy hash t pfx).bind fun oldStrategy =>
          let t := t.withTree (t.tree.setHolds .strategyChoice nte true)
          (changeStrategy hash t nte pfx oldStrategy strategy).map fun t =>
            (t.setStrategy nte strategy, true)

omit [DecidableEq St] in
def setDefaultStrategy (t : Tables C S F I St) (strategy : St) : Option (Tables C S F I St) :=
  let r := t.tree.lookup hash []
  r.2.map fun nte =>
    (t.withTree (r.1.setHolds .strategyChoice nte true)).setStrategy nte strategy

def erase (t : Tables C S F I St) (pfx : Name C) : Option (Tables C S F I St) :=
  if pfx = [] then none
  else
    match t.tree.findExactMatch hash pfx with
    | none => some t
    | some nte =>
      if t.tree.holds .strategyChoice nte then
        (findEffectiveStrategy hash t pfx.dropLast).bind fun parentStrategy =>
          (changeStrategy hash t nte pfx (t.strategyOf nte) parentStrategy).bind fun t =>
            (t.tree.release .strategyChoice nte).map t.withTree
      else some t

section Names

omit [DecidableEq St] [DecidableEq N]

variable {hash} {t t' : Tables C S F I St} {nte x : EntryId} {pfx n : Name C} {strategy : St}
  {T : NameTree C}

def strategyAt (hash : C → Hash) (t : Tables C S F I St) (n : Name C) : Option St :=
  (t.tree.findExactMatch hash n).bind fun x =>
    if t.tree.holds .strategyChoice x then some (t.strategyOf x) else none

section

variable (h : NameTree.Inv hash t.tree)
include h

lemma strategyAt_eq_some_iff :
    strategyAt hash t n = some strategy ↔
      ∃ x, t.tree.Held .strategyChoice x ∧ (t.tree.entries x).pfx = n ∧
        t.strategyOf x = strategy := by
  simp only [strategyAt, bind_eq_some_iff, h.findExactMatch_iff,
    ite_none_right_eq_some, some.injEq, NameTree.Held]
  constructor
  · rintro ⟨x, ⟨hx, hn⟩, hh, hs⟩
    exact ⟨x, ⟨hx, hh⟩, hn, hs⟩
  · rintro ⟨x, ⟨hx, hh⟩, hn, hs⟩
    exact ⟨x, ⟨hx, hn⟩, hh, hs⟩

lemma strategyAt_pfx (hx : x ∈ t.tree.linked) :
    strategyAt hash t (t.tree.entries x).pfx =
      if t.tree.holds .strategyChoice x then some (t.strategyOf x) else none := by
  rw [strategyAt, h.findExactMatch_iff.mpr ⟨hx, rfl⟩, bind_some]

lemma strategyAt_ext (h' : NameTree.Inv hash t'.tree)
    (heq : ∀ x, t'.tree.Held .strategyChoice x ↔ t.tree.Held .strategyChoice x)
    (hp : ∀ x, t.tree.Held .strategyChoice x →
      (t'.tree.entries x).pfx = (t.tree.entries x).pfx ∧ t'.strategyOf x = t.strategyOf x) :
    strategyAt hash t' = strategyAt hash t := by
  refine funext fun n => Option.ext fun v => ?_
  rw [strategyAt_eq_some_iff h', strategyAt_eq_some_iff h]
  refine exists_congr fun x => ?_
  rw [heq]
  refine and_congr_right fun hx => ?_
  rw [(hp x hx).1, (hp x hx).2]

lemma walkUp_eq_lookup (fuel : ℕ) (hx : x ∈ t.tree.linked)
    (hfuel : (t.tree.entries x).pfx.length < fuel) :
    (NameTree.walkUp t.tree.entries hasStrategyChoiceEntry fuel (some x)).map t.strategyOf =
      PrefixMap.lookup (strategyAt hash t) (t.tree.entries x).pfx := by
  induction fuel generalizing x with
  | zero => omega
  | succ fuel ih =>
    have hown := strategyAt_pfx h hx
    have hh := h.hangs x hx
    have hsel : hasStrategyChoiceEntry (t.tree.entries x) = t.tree.holds .strategyChoice x := rfl
    rw [NameTree.walkUp, hsel]
    cases hpar : (t.tree.entries x).parent with
    | none =>
      rw [hpar] at hh
      rw [show (t.tree.entries x).pfx = [] from hh] at hown ⊢
      rw [PrefixMap.lookup_nil, hown]
      split
      · rfl
      · cases fuel <;> rfl
    | some p =>
      rw [hpar] at hh
      obtain ⟨hpl, c, hc⟩ := hh
      rw [hc] at hown hfuel ⊢
      rw [PrefixMap.lookup_concat, hown]
      split
      · rfl
      · rw [length_append, length_singleton] at hfuel
        rw [none_or, ih hpl (by omega)]

lemma findEffectiveStrategyAt_eq (hx : x ∈ t.tree.linked) :
    findEffectiveStrategyAt t x =
      PrefixMap.lookup (strategyAt hash t) (t.tree.entries x).pfx := by
  have hwalk := walkUp_eq_lookup h _ hx (Nat.lt_succ_self _)
  unfold findEffectiveStrategyAt
  split
  next hs =>
    have hsel : hasStrategyChoiceEntry (t.tree.entries x) = true := hs
    rw [← hwalk, NameTree.walkUp, if_pos hsel]
    rfl
  · rw [← hwalk]
    rfl

lemma visited_iff_covers (hnte : nte ∈ t.tree.linked) (hx : x ∈ t.tree.linked) :
    t.tree.Visited (t.tree.entries nte).pfx (isCovered t.tree nte) x ↔
      PrefixMap.Covers (strategyAt hash t) (t.tree.entries nte).pfx (t.tree.entries x).pfx := by
  have hsel : ∀ y ∈ t.tree.linked, y ≠ nte →
      (isCovered t.tree nte y = (true, true) ↔
        strategyAt hash t (t.tree.entries y).pfx = none) ∧
      ((isCovered t.tree nte y).1 = (isCovered t.tree nte y).2) := by
    intro y hy hne
    rw [strategyAt_pfx h hy, isCovered, if_neg hne]
    split <;> simp
  have hroot : isCovered t.tree nte nte = (true, true) := if_pos rfl
  constructor
  · intro hv
    refine ⟨hv.pfx, fun q hp hq hne => ?_⟩
    obtain ⟨y, hy, rfl⟩ := h.stored_prefixes hx hq
    have hyn : y ≠ nte := by
      rintro rfl
      exact hne rfl
    obtain ⟨hiff, hsame⟩ := hsel y hy hyn
    refine hiff.mp ?_
    by_cases hyx : y = x
    · subst hyx
      exact Prod.ext hv.selected (hsame ▸ hv.selected)
    · have hab := hv.above y hy hp hq hyx
      exact Prod.ext (hsame ▸ hab) hab
  · intro hc
    have hnone : ∀ y ∈ t.tree.linked, (t.tree.entries nte).pfx <+: (t.tree.entries y).pfx →
        (t.tree.entries y).pfx <+: (t.tree.entries x).pfx →
        isCovered t.tree nte y = (true, true) := by
      intro y hy hp hq
      by_cases hyn : y = nte
      · rw [hyn, hroot]
      · refine (hsel y hy hyn).1.mpr (hc.none _ hp hq fun he => hyn ?_)
        exact h.unique y hy nte hnte he
    refine ⟨hx, hc.pfx, ?_, fun y hy hp hq _ => ?_⟩
    · rw [hnone x hx hc.pfx prefix_rfl]
    · rw [hnone y hy hp hq]

end

omit [DecidableEq C] in
lemma foldl_clearStrategyInfo (l : List EntryId) (t : Tables C S F I St) :
    (l.foldl clearStrategyInfo t).pit = t.pit ∧
    (l.foldl clearStrategyInfo t).strategyOf = t.strategyOf ∧
    ∀ x, (l.foldl clearStrategyInfo t).info x =
      if l.any (isAt t.tree · x.owner) then none else t.info x := by
  induction l generalizing t with
  | nil => simp
  | cons nte l ih =>
    obtain ⟨hp, hs, hi⟩ := ih (clearStrategyInfo t nte)
    refine ⟨hp, hs, fun x => ?_⟩
    rw [foldl_cons, hi]
    show (if l.any (isAt t.tree · x.owner) then none
      else if isAt t.tree nte x.owner then none else t.info x) = _
    rw [any_cons]
    cases isAt t.tree nte x.owner <;> cases l.any (isAt t.tree · x.owner) <;> rfl

end Names

end StrategyChoice

end NfdGateway.Table
