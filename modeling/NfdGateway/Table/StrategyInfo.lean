import NfdGateway.Pit.Map
import NfdGateway.Table.StrategyChoice

/-! Which StrategyInfo an operation on the Strategy Choice table clears, against which effective
strategies it changes. -/
namespace NfdGateway.Table

open List Option Function

namespace Tables

variable {C S F I St : Type}

def Present (t : Tables C S F I St) : InfoOwner → Prop
  | .pitEntry e => e ∈ t.pit.present
  | .measurements nte => t.tree.Held .measurements nte

def entryName (t : Tables C S F I St) : InfoOwner → Name C
  | .pitEntry e => ((t.pit.interestOf e).map (·.name)).getD []
  | .measurements nte => (t.tree.entries nte).pfx

def nodeName (isDigest : C → Bool) (t : Tables C S F I St) : InfoOwner → Name C
  | .pitEntry e => Pit.treeName isDigest (t.entryName (.pitEntry e))
  | .measurements nte => t.entryName (.measurements nte)

end Tables

namespace StrategyChoice

variable {C S F I St N : Type} {hash : C → Hash} {isDigest : C → Bool} {t t' : Tables C S F I St}
  {o : InfoOwner} {nte : EntryId} {T : NameTree C}

lemma node_of_present (h : Pit.Inv hash isDigest t.pit) (hp : t.Present o) :
    ∃ id ∈ t.tree.linked, (t.tree.entries id).pfx = t.nodeName isDigest o ∧
      ∀ x ∈ t.tree.linked, isAt t.tree x o = true ↔ x = id := by
  cases o with
  | pitEntry e =>
    obtain ⟨id, hid, he⟩ := Pit.mem_present.mp hp
    obtain ⟨-, i, hi, hpfx⟩ := h.attached id hid e he
    refine ⟨id, hid, ?_, fun x hx => ?_⟩
    · simp only [Tables.nodeName, Tables.entryName, Pit.interestOf, hi, map_some, getD_some]
      exact hpfx
    simp only [isAt, decide_eq_true_eq]
    constructor
    · exact fun hex => h.node_unique hx hid hex he
    · rintro rfl
      exact he
  | measurements nte =>
    refine ⟨nte, hp.1, rfl, fun x _ => ?_⟩
    simp only [isAt, Bool.and_eq_true, decide_eq_true_eq]
    constructor
    · exact fun hx => hx.1.symm
    · rintro rfl
      exact ⟨rfl, hp.2⟩

/-! ### The entries of the other tables -/

def SameEntries (t t' : Tables C S F I St) : Prop :=
  ∀ o, (t'.Present o ↔ t.Present o) ∧ (t.Present o → t'.entryName o = t.entryName o)

lemma SameEntries.trans {t'' : Tables C S F I St} (h : SameEntries t t')
    (h' : SameEntries t' t'') : SameEntries t t'' := fun o =>
  ⟨(h' o).1.trans (h o).1, fun hp => ((h' o).2 ((h o).1.mpr hp)).trans ((h o).2 hp)⟩

lemma SameEntries.of_pit (h : t'.pit = t.pit) : SameEntries t t' := by
  intro o
  cases o <;> simp [Tables.Present, Tables.entryName, Tables.tree, h]

lemma SameEntries.nodeName (h : SameEntries t t') (hp : t.Present o) :
    t'.nodeName isDigest o = t.nodeName isDigest o := by
  have hname := (h o).2 hp
  cases o with
  | pitEntry e => rw [Tables.nodeName, Tables.nodeName, hname]
  | measurements nte => exact hname

lemma SameEntries.withTree (hpres : ∀ e, e ∈ (t.pit.withTree T).present ↔ e ∈ t.pit.present)
    (hheld : ∀ x, T.Held .measurements x ↔ t.tree.Held .measurements x)
    (hpfx : ∀ x, T.Held .measurements x → (T.entries x).pfx = (t.tree.entries x).pfx) :
    SameEntries t (t.withTree T) := by
  intro o
  cases o with
  | pitEntry e => exact ⟨hpres e, fun _ => rfl⟩
  | measurements nte => exact ⟨hheld nte, fun hp => hpfx nte ((hheld nte).mpr hp)⟩

lemma SameEntries.grown (hg : NameTree.Grown t.tree T) : SameEntries t (t.withTree T) :=
  .withTree (fun _ => (Pit.present_grown hg).mem_iff) (fun _ => hg.held_iff) fun x hx =>
    hg.pfx x (hg.held_iff.mp hx).1

lemma SameEntries.pruned (hp : NameTree.Pruned t.tree T) : SameEntries t (t.withTree T) :=
  .withTree (fun _ => (Pit.present_pruned hp).symm.mem_iff) (fun _ => hp.held_iff) fun x hx =>
    hp.pfx x hx.1

lemma SameEntries.setHolds (hnte : nte ∈ t.tree.linked) (b : Bool) :
    SameEntries t (t.withTree (t.tree.setHolds .strategyChoice nte b)) := by
  refine .withTree (fun e => ?_) (fun x => ?_) fun x _ => NameTree.pfx_setHolds ..
  · have hsame := Pit.attachedTo_setHolds (P := t.pit) .strategyChoice nte b
    simp only [Pit.mem_present]
    exact exists_congr fun x => and_congr_right fun _ => by rw [← hsame x]; rfl
  · refine (NameTree.held_setHolds hnte).trans ?_
    rw [if_neg (by simp)]

/-! ### Effective strategies -/

variable [DecidableEq C]

def effectiveStrategy (hash : C → Hash) (t : Tables C S F I St) : InfoOwner → Option St
  | .pitEntry e => (findEffectiveStrategyPit hash t e).map (·.2)
  | .measurements nte => findEffectiveStrategyAt t nte

def ReadsOk (hash : C → Hash) (t : Tables C S F I St) : Prop :=
  ∀ e ∈ t.pit.present, t.tree.GrowthOk hash (t.entryName (.pitEntry e)).inits

lemma readsOk_of_room (h : ∀ e ∈ t.pit.present,
    t.tree.nItems + (t.entryName (.pitEntry e)).inits.length ≤ t.tree.nBuckets / 2) :
    ReadsOk hash t := fun e he => NameTree.growthOk_of_room (h e he)

lemma strategyAt_grown (h : NameTree.Inv hash t.tree) (hT : NameTree.Inv hash T)
    (hg : NameTree.Grown t.tree T) : strategyAt hash (t.withTree T) = strategyAt hash t :=
  strategyAt_ext h hT (fun _ => hg.held_iff) fun x hx => ⟨hg.pfx x hx.1, rfl⟩

lemma effectiveStrategy_eq (h : Pit.Inv hash isDigest t.pit) (hreads : ReadsOk hash t)
    (hp : t.Present o) :
    effectiveStrategy hash t o = PrefixMap.lookup (strategyAt hash t) (t.entryName o) := by
  cases o with
  | pitEntry e =>
    obtain ⟨id, hid, he⟩ := Pit.mem_present.mp hp
    obtain ⟨-, i, hi, -⟩ := h.attached id hid e he
    have hname : t.entryName (.pitEntry e) = i.name := by
      simp [Tables.entryName, Pit.interestOf, hi]
    have hgrow := hreads e hp
    rw [hname] at hgrow ⊢
    obtain ⟨entry, T, nte, hentry, hget, hlooked⟩ :=
      Pit.get_looked h hp (by simp [Pit.interestOf, hi]) hgrow
    have hget' : Pit.get hash t.tree entry = (T, some nte) := hget
    have heff := findEffectiveStrategyAt_eq (t := t.withTree T) hlooked.inv hlooked.linked
    rw [strategyAt_grown h.tree hlooked.inv hlooked.grown,
      show ((t.withTree T).tree.entries nte).pfx = _ from hlooked.pfx] at heff
    simp only [effectiveStrategy, findEffectiveStrategyPit, hentry, hget', bind_some,
      Option.map_map]
    rw [← heff]
    exact Option.map_id'
  | measurements nte => exact findEffectiveStrategyAt_eq h.tree hp.1

section

variable (h : NameTree.Inv hash t.tree)
include h

lemma strategyAt_update (h' : NameTree.Inv hash t'.tree)
    (hnte : nte ∈ t.tree.linked) {chosen : Option St}
    (hheld : ∀ x, x ≠ nte → (t'.tree.Held .strategyChoice x ↔ t.tree.Held .strategyChoice x))
    (hpfx : ∀ x, t'.tree.Held .strategyChoice x →
      (t'.tree.entries x).pfx = (t.tree.entries x).pfx)
    (hstrat : ∀ x, x ≠ nte → t'.strategyOf x = t.strategyOf x)
    (hchosen : ∀ v, chosen = some v ↔ t'.tree.Held .strategyChoice nte ∧ t'.strategyOf nte = v) :
    strategyAt hash t' =
      update (strategyAt hash t) (t.tree.entries nte).pfx chosen := by
  refine funext fun n => Option.ext fun v => ?_
  rw [strategyAt_eq_some_iff h']
  by_cases hn : n = (t.tree.entries nte).pfx
  · rw [hn, update_self, hchosen]
    constructor
    · rintro ⟨x, hx, hp, hv⟩
      by_cases hxn : x = nte
      · subst hxn
        exact ⟨hx, hv⟩
      · rw [hpfx x hx] at hp
        exact absurd (h.unique x ((hheld x hxn).mp hx).1 nte hnte hp) hxn
    · rintro ⟨hx, hv⟩
      exact ⟨nte, hx, hpfx nte hx, hv⟩
  rw [update_of_ne hn, strategyAt_eq_some_iff h]
  constructor
  · rintro ⟨x, hx, hp, hv⟩
    have hxn : x ≠ nte := by
      rintro rfl
      exact hn (hp.symm.trans (hpfx x hx))
    exact ⟨x, (hheld x hxn).mp hx, (hpfx x hx).symm.trans hp, (hstrat x hxn).symm.trans hv⟩
  rintro ⟨x, hx, hp, hv⟩
  have hxn : x ≠ nte := by
    rintro rfl
    exact hn hp.symm
  have hx' := (hheld x hxn).mpr hx
  exact ⟨x, hx', (hpfx x hx').trans hp, (hstrat x hxn).trans hv⟩

lemma strategyAt_setHolds (hnte : nte ∈ t.tree.linked)
    (b : Bool) : strategyAt hash (t.withTree (t.tree.setHolds .strategyChoice nte b)) =
      update (strategyAt hash t) (t.tree.entries nte).pfx
        (if b then some (t.strategyOf nte) else none) := by
  have hheld : ∀ x, (t.tree.setHolds .strategyChoice nte b).Held .strategyChoice x ↔
      if x = nte then b = true else t.tree.Held .strategyChoice x := fun x =>
    (NameTree.held_setHolds hnte).trans (by simp)
  have hset : NameTree.Inv hash (t.withTree (t.tree.setHolds .strategyChoice nte b)).tree :=
    h.setTables nte _
  have hself : (t.withTree (t.tree.setHolds .strategyChoice nte b)).tree.Held .strategyChoice nte ↔
      b = true := (hheld nte).trans (by rw [if_pos rfl])
  refine strategyAt_update h hset hnte ?_ ?_ (fun _ _ => rfl) ?_
  · intro x hx
    exact (hheld x).trans (by rw [if_neg hx])
  · intro x _
    exact NameTree.pfx_setHolds ..
  intro v
  rw [hself]
  cases b <;> simp [Tables.withTree]

lemma findEffectiveStrategy_some (hroot : strategyAt hash t [] ≠ none) (pfx : Name C) :
    ∃ strategy, findEffectiveStrategy hash t pfx = some strategy := by
  obtain ⟨v, hv⟩ := ne_none_iff_exists'.mp hroot
  obtain ⟨x, hx, hp, -⟩ := (strategyAt_eq_some_iff h).mp hv
  have hc : t.tree.Candidate hasStrategyChoiceEntry pfx x :=
    ⟨hx.1, by rw [hp]; exact nil_prefix, hx.2⟩
  rcases NameTree.findLongestPrefixMatch_spec h pfx hasStrategyChoiceEntry with
    ⟨-, hno⟩ | ⟨y, i, he, -⟩
  · exact absurd hc (hno x)
  · exact ⟨_, by rw [findEffectiveStrategy, he]; rfl⟩

end

/-! ### `changeStrategy` -/

variable [DecidableEq St]

lemma changeStrategy_spec (h : Pit.Inv hash isDigest t.pit) (hnte : nte ∈ t.tree.linked)
    (oldStrategy newStrategy : St) :
    ∃ t', changeStrategy hash t nte (t.tree.entries nte).pfx oldStrategy newStrategy = some t' ∧
      t'.pit = t.pit ∧ t'.strategyOf = t.strategyOf ∧
      (∀ x, t'.info x = none ∨ t'.info x = t.info x) ∧
      ∀ x, t.Present x.owner → t.info x ≠ none →
        (t'.info x = none ↔ PrefixMap.Covers (strategyAt hash t) (t.tree.entries nte).pfx
          (t.nodeName isDigest x.owner) ∧ oldStrategy ≠ newStrategy) := by
  unfold changeStrategy
  split
  next heq =>
    refine ⟨t, rfl, rfl, rfl, fun _ => .inr rfl, fun x _ hinfo => ?_⟩
    simp [heq, hinfo]
  rename_i hne
  obtain ⟨l, hl, hmem⟩ := h.tree.partialEnumerate_spec (t.tree.entries nte).pfx
    (isCovered t.tree nte)
  have hl' : t.tree.partialEnumerate hash (t.tree.entries nte).pfx (isCovered t.tree nte) =
      some l := hl
  obtain ⟨hpit, hstrat, hinfo⟩ := foldl_clearStrategyInfo l t
  refine ⟨l.foldl clearStrategyInfo t, by rw [hl', map_some], hpit, hstrat, ?_, ?_⟩
  · intro x
    rw [hinfo]
    split
    · exact .inl rfl
    · exact .inr rfl
  intro x hp hx
  obtain ⟨id, hid, hname, hat⟩ := node_of_present h hp
  have hany : l.any (isAt t.tree · x.owner) = true ↔ id ∈ l := by
    rw [List.any_eq_true]
    constructor
    · rintro ⟨y, hy, hyat⟩
      have hyl : y ∈ t.tree.linked := ((hmem y).mp hy).linked
      exact (hat y hyl).mp hyat ▸ hy
    · exact fun hy => ⟨id, hy, (hat id hid).mpr rfl⟩
  have hcov : id ∈ l ↔ PrefixMap.Covers (strategyAt hash t) (t.tree.entries nte).pfx
      (t.nodeName isDigest x.owner) := by
    rw [← hname]
    exact (hmem id).trans (visited_iff_covers h.tree hnte hid)
  rw [hinfo, ← hcov, ← hany]
  simp [hx, hne]

/-! ### The operations -/

inductive Operation (C St : Type)
  | insert (pfx : Name C) (strategy : Option St)
  | erase (pfx : Name C)

/-- A prefix gets another strategy: the strategies that are compared, and the one that is chosen
for the prefix itself from then on. -/
structure Change (C St : Type) where
  pfx : Name C
  oldStrategy : St
  newStrategy : St
  chosen : Option St

variable [DecidableEq N] {getName : St → N} {pfx : Name C} {t₁ : Tables C S F I St}

def call (hash : C → Hash) (getName : St → N) (t : Tables C S F I St) :
    Operation C St → Option (Tables C S F I St)
  | .insert pfx strategy => (insert hash getName t pfx strategy).map (·.1)
  | .erase pfx => erase hash t pfx

def changeOf (hash : C → Hash) (getName : St → N) (t : Tables C S F I St) :
    Operation C St → Option (Change C St)
  | .insert pfx strategy => strategy.bind fun new =>
    match strategyAt hash t pfx with
    | some old => if getName old = getName new then none else some ⟨pfx, old, new, some new⟩
    | none =>
      (findEffectiveStrategy hash (t.withTree (t.tree.lookup hash pfx).1) pfx).map fun old =>
        ⟨pfx, old, new, some new⟩
  | .erase pfx => (strategyAt hash t pfx).bind fun old =>
    (findEffectiveStrategy hash t pfx.dropLast).map fun new => ⟨pfx, old, new, none⟩

def Operation.Ok (hash : C → Hash) (t : Tables C S F I St) : Operation C St → Prop
  | .insert pfx _ => t.tree.GrowthOk hash pfx.inits
  | .erase pfx => pfx ≠ [] ∧ t.tree.ShrinkOk

structure Effect (hash : C → Hash) (isDigest : C → Bool) (t t' : Tables C S F I St)
    (change : Option (Change C St)) : Prop where
  inv : Pit.Inv hash isDigest t'.pit
  entries : SameEntries t t'
  chosen : strategyAt hash t' = change.elim (strategyAt hash t) fun c =>
    update (strategyAt hash t) c.pfx c.chosen
  kept : ∀ x, t'.info x = none ∨ t'.info x = t.info x
  cleared : ∀ x, t.Present x.owner → t.info x ≠ none → (t'.info x = none ↔
    ∃ c ∈ change, PrefixMap.Covers (strategyAt hash t) c.pfx (t.nodeName isDigest x.owner) ∧
      c.oldStrategy ≠ c.newStrategy)

omit [DecidableEq St] in
lemma effect_none (h : Pit.Inv hash isDigest t'.pit) (he : SameEntries t t')
    (hs : strategyAt hash t' = strategyAt hash t)
    (hi : t'.info = t.info) : Effect hash isDigest t t' none :=
  ⟨h, he, hs, fun x => .inr (congrFun hi x), fun x _ hx => by simp [hi, hx]⟩

omit [DecidableEq St] in
lemma effect_some {t₂ : Tables C S F I St} {c : Change C St} (he : SameEntries t t₁)
    (hi : t₁.info = t.info) (hA : ∀ q, q ≠ c.pfx → strategyAt hash t₁ q = strategyAt hash t q)
    (hkept : ∀ x, t₂.info x = none ∨ t₂.info x = t₁.info x)
    (hcleared : ∀ x, t₁.Present x.owner → t₁.info x ≠ none → (t₂.info x = none ↔
      PrefixMap.Covers (strategyAt hash t₁) c.pfx (t₁.nodeName isDigest x.owner) ∧
        c.oldStrategy ≠ c.newStrategy))
    (h : Pit.Inv hash isDigest t'.pit) (he' : SameEntries t t') (hi' : t'.info = t₂.info)
    (hs : strategyAt hash t' = update (strategyAt hash t) c.pfx c.chosen) :
    Effect hash isDigest t t' (some c) := by
  refine ⟨h, he', hs, fun x => ?_, fun x hp hx => ?_⟩
  · rw [hi', ← hi]
    exact hkept x
  · rw [hi', hcleared x ((he _).1.mpr hp) (by rwa [hi]), he.nodeName hp, PrefixMap.covers_congr hA]
    simp

lemma insert_change (h : Pit.Inv hash isDigest t₁.pit)
    (hheld : t₁.tree.Held .strategyChoice nte) (he : SameEntries t t₁) (hi : t₁.info = t.info)
    (hpfx : (t₁.tree.entries nte).pfx = pfx)
    (hA : ∀ q, q ≠ pfx → strategyAt hash t₁ q = strategyAt hash t q) (old new : St) :
    ∃ t₂, changeStrategy hash t₁ nte pfx old new = some t₂ ∧
      Effect hash isDigest t (t₂.setStrategy nte new) (some ⟨pfx, old, new, some new⟩) ∧
      t₂.pit = t₁.pit := by
  subst hpfx
  obtain ⟨t₂, ht₂, hpit, hstrat, hkept, hcleared⟩ := changeStrategy_spec h hheld.1 old new
  have htree : (t₂.setStrategy nte new).tree = t₁.tree := congrArg Pit.tree hpit
  have hinv : Pit.Inv hash isDigest (t₂.setStrategy nte new).pit :=
    show Pit.Inv hash isDigest t₂.pit by rwa [hpit]
  refine ⟨t₂, ht₂, effect_some he hi hA hkept hcleared hinv (he.trans (.of_pit hpit)) rfl ?_, hpit⟩
  have hupd : update (strategyAt hash t) (t₁.tree.entries nte).pfx (some new) =
      update (strategyAt hash t₁) (t₁.tree.entries nte).pfx (some new) := by
    refine funext fun q => ?_
    by_cases hq : q = (t₁.tree.entries nte).pfx
    · rw [hq, update_self, update_self]
    · rw [update_of_ne hq, update_of_ne hq, hA q hq]
  rw [hupd]
  refine strategyAt_update h.tree hinv.tree hheld.1 ?_ ?_ ?_ ?_
  · intro x _
    rw [htree]
  · intro x _
    rw [htree]
  · intro x hx
    exact (update_of_ne hx _ _).trans (congrFun hstrat x)
  intro v
  rw [htree]
  simp [Tables.setStrategy, hheld]

def InsertsInto (hash : C → Hash) (t t' : Tables C S F I St) (pfx : Name C) :
    Option St → Prop
  | none => t' = t
  | some _ => ∃ T nte, t.tree.lookup hash pfx = (T, some nte) ∧
    NameTree.Looked hash t.tree T pfx nte ∧
    t'.pit = t.pit.withTree (T.setHolds .strategyChoice nte true)

def ErasesFrom (t t' : Tables C S F I St) (pfx : Name C) : Prop :=
  t' = t ∨ ∃ T nte, nte ∈ t.tree.linked ∧ (t.tree.entries nte).pfx = pfx ∧
    t.tree.release .strategyChoice nte = some T ∧ t'.pit = t.pit.withTree T

lemma insert_effect (getName : St → N) (h : Pit.Inv hash isDigest t.pit)
    (hroot : strategyAt hash t [] ≠ none)
    (hok : t.tree.GrowthOk hash pfx.inits) (strategy : Option St) :
    ∃ t', call hash getName t (.insert pfx strategy) = some t' ∧
      Effect hash isDigest t t' (changeOf hash getName t (.insert pfx strategy)) ∧
      InsertsInto hash t t' pfx strategy := by
  cases strategy with
  | none => exact ⟨t, rfl, effect_none h (.of_pit rfl) rfl rfl, rfl⟩
  | some strategy =>
    obtain ⟨T, nte, hl, hlooked⟩ := NameTree.looked_lookup h.tree hok
    have hl : t.tree.lookup hash pfx = (T, some nte) := hl
    have hnode : ∀ {t'}, t'.pit = t.pit.withTree (T.setHolds .strategyChoice nte true) →
        InsertsInto hash t t' pfx (some strategy) := fun hpit => ⟨T, nte, hl, hlooked, hpit⟩
    obtain ⟨hT, hg, hnte, hname, -⟩ := hlooked
    have h₁ := h.grown hT hg
    have he₁ : SameEntries t (t.withTree T) := .grown hg
    have hA₁ := strategyAt_grown h.tree hT hg
    have hown : strategyAt hash t pfx =
        if (t.withTree T).tree.holds .strategyChoice nte then some ((t.withTree T).strategyOf nte)
        else none := by
      rw [← hA₁, ← hname]
      exact strategyAt_pfx hT hnte
    simp only [call, insert, hl, bind_some, changeOf, hown]
    cases hold : (t.withTree T).tree.holds .strategyChoice nte with
    | true =>
      have hsame := congrArg t.pit.withTree (NameTree.setHolds_of_holds hold).symm
      simp only [if_true]
      split
      · exact ⟨_, rfl, effect_none h₁ he₁ hA₁ rfl, hnode hsame⟩
      obtain ⟨t₂, ht₂, heff, hpit⟩ := insert_change h₁ ⟨hnte, hold⟩ he₁ rfl hname
        (fun q _ => by rw [hA₁]) ((t.withTree T).strategyOf nte) strategy
      exact ⟨_, by rw [ht₂]; rfl, heff, hnode (hpit.trans hsame)⟩
    | false =>
      obtain ⟨old, hfind⟩ := findEffectiveStrategy_some (t := t.withTree T) hT
        (by rw [hA₁]; exact hroot) pfx
      simp only [Bool.false_eq_true, if_false, hfind, bind_some, map_some]
      have h₂ := h₁.setHolds .strategyChoice nte true
      have hheld : ((t.withTree T).withTree (T.setHolds .strategyChoice nte true)).tree.Held
          .strategyChoice nte := (NameTree.held_setHolds hnte).mpr (by simp)
      have hA₂ := strategyAt_setHolds (t := t.withTree T) hT hnte true
      rw [hA₁, show ((t.withTree T).tree.entries nte).pfx = pfx from hname] at hA₂
      obtain ⟨t₂, ht₂, heff, hpit⟩ := insert_change h₂ hheld (he₁.trans (.setHolds hnte true)) rfl
        ((NameTree.pfx_setHolds ..).trans hname)
        (fun q hq => (congrFun hA₂ q).trans (update_of_ne hq _ _)) old strategy
      exact ⟨_, map_eq_some_iff.mpr ⟨_, map_eq_some_iff.mpr ⟨_, ht₂, rfl⟩, rfl⟩, heff, hnode hpit⟩

lemma erase_effect (getName : St → N) (h : Pit.Inv hash isDigest t.pit)
    (hroot : strategyAt hash t [] ≠ none)
    (hne : pfx ≠ []) (hok : t.tree.ShrinkOk) :
    ∃ t', call hash getName t (.erase pfx) = some t' ∧
      Effect hash isDigest t t' (changeOf hash getName t (.erase pfx)) ∧
      ErasesFrom t t' pfx := by
  have htree : NameTree.Inv hash t.tree := h.tree
  simp only [call, erase, if_neg hne, changeOf]
  cases hf : t.tree.findExactMatch hash pfx with
  | none =>
    have hnone : strategyAt hash t pfx = none := by rw [strategyAt, hf, bind_none]
    rw [hnone]
    exact ⟨t, rfl, effect_none h (.of_pit rfl) rfl rfl, .inl rfl⟩
  | some nte =>
    obtain ⟨hnte, rfl⟩ := htree.findExactMatch_iff.mp hf
    rw [strategyAt_pfx htree hnte]
    cases hold : t.tree.holds .strategyChoice nte with
    | false => exact ⟨t, by simp [hold], effect_none h (.of_pit rfl) rfl rfl, .inl rfl⟩
    | true =>
      obtain ⟨new, hfind⟩ := findEffectiveStrategy_some htree hroot
        (t.tree.entries nte).pfx.dropLast
      obtain ⟨t₂, ht₂, hpit, hstrat, hkept, hcleared⟩ := changeStrategy_spec h hnte
        (t.strategyOf nte) new
      obtain ⟨T, hT, hTi, -, hp, -⟩ :=
        NameTree.release_spec htree hnte hok h.minNBuckets .strategyChoice
      simp only [hold, if_true, hfind, bind_some, map_some, ht₂]
      have hT₂ : t₂.tree.release .strategyChoice nte = some T := by
        rw [Tables.tree, hpit]
        exact hT
      have hinv := (h.setHolds .strategyChoice nte false).pruned hTi hp
      have hentries : SameEntries t (t.withTree T) :=
        (SameEntries.setHolds hnte false).trans (.pruned hp)
      have hsame : (t₂.withTree T).pit = (t.withTree T).pit := by simp [Tables.withTree, hpit]
      have hset := strategyAt_setHolds htree hnte false
      have hA : strategyAt hash (t₂.withTree T) =
          update (strategyAt hash t) (t.tree.entries nte).pfx none := by
        refine Eq.trans ?_ hset
        refine strategyAt_ext (htree.setTables nte _) hTi (fun _ => hp.held_iff) fun x hx => ?_
        exact ⟨hp.pfx x (hp.held_iff.mpr hx).1, congrFun hstrat x⟩
      exact ⟨t₂.withTree T, by rw [hT₂, map_some],
        effect_some (.of_pit rfl) rfl (fun _ _ => rfl) hkept hcleared
          (by rw [hsame]; exact hinv) (hentries.trans (.of_pit hsame)) rfl hA,
        .inr ⟨T, nte, hnte, rfl, hT, hsame⟩⟩

/-! ### Cleared and changed -/

/-- For every PIT and measurements entry with StrategyInfo: the prefix covers the node it is
attached to, and the strategies that were compared differ, exactly if the prefix covers the name
of the entry, and the effective strategies of the prefix before and after differ. -/
def CoversAlike (hash : C → Hash) (isDigest : C → Bool) (t : Tables C S F I St)
    (c : Change C St) : Prop :=
  ∀ x, t.Present x.owner → t.info x ≠ none →
    (PrefixMap.Covers (strategyAt hash t) c.pfx (t.nodeName isDigest x.owner) ∧
        c.oldStrategy ≠ c.newStrategy ↔
      PrefixMap.Covers (strategyAt hash t) c.pfx (t.entryName x.owner) ∧
        PrefixMap.lookup (strategyAt hash t) c.pfx ≠
          PrefixMap.lookup (update (strategyAt hash t) c.pfx c.chosen) c.pfx)

lemma call_effect (getName : St → N) (h : Pit.Inv hash isDigest t.pit)
    (hroot : strategyAt hash t [] ≠ none) {op : Operation C St} (hok : op.Ok hash t) :
    ∃ t', call hash getName t op = some t' ∧
      Effect hash isDigest t t' (changeOf hash getName t op) := by
  cases op with
  | insert pfx strategy =>
    obtain ⟨t', ht', heff, -⟩ := insert_effect getName h hroot hok strategy
    exact ⟨t', ht', heff⟩
  | erase pfx =>
    obtain ⟨t', ht', heff, -⟩ := erase_effect getName h hroot hok.1 hok.2
    exact ⟨t', ht', heff⟩

/-- An operation on sound tables returns, and it clears the StrategyInfo of exactly the entries
whose effective strategy differs before and after it, if and only if the change it makes covers
the nodes and the names of all entries alike. -/
theorem cleared_iff_changed (getName : St → N) (h : Pit.Inv hash isDigest t.pit)
    (hroot : strategyAt hash t [] ≠ none) {op : Operation C St} (hok : op.Ok hash t)
    (hreads : ReadsOk hash t) :
    ∃ t', call hash getName t op = some t' ∧
      (∀ x, t'.info x = none ∨ t'.info x = t.info x) ∧
      (ReadsOk hash t' →
        ((∀ x, t.Present x.owner → t.info x ≠ none →
          (t'.info x = none ↔
            effectiveStrategy hash t x.owner ≠ effectiveStrategy hash t' x.owner)) ↔
        ∀ c ∈ changeOf hash getName t op, CoversAlike hash isDigest t c)) := by
  obtain ⟨t', ht', heff⟩ := call_effect getName h hroot hok
  refine ⟨t', ht', heff.kept, fun hreads' => ?_⟩
  have heffective : ∀ x : InfoHolder F, t.Present x.owner →
      (effectiveStrategy hash t x.owner ≠ effectiveStrategy hash t' x.owner ↔
        PrefixMap.lookup (strategyAt hash t) (t.entryName x.owner) ≠
          PrefixMap.lookup (strategyAt hash t') (t.entryName x.owner)) := by
    intro x hp
    obtain ⟨hpres, hname⟩ := heff.entries x.owner
    rw [effectiveStrategy_eq h hreads hp, effectiveStrategy_eq heff.inv hreads' (hpres.mpr hp),
      hname hp]
  have hcleared := heff.cleared
  have hchosen := heff.chosen
  cases hc : changeOf hash getName t op with
  | none =>
    rw [hc] at hcleared hchosen
    refine iff_of_true (fun x hp hx => ?_) (by simp)
    rw [hcleared x hp hx, heffective x hp, hchosen]
    simp
  | some c =>
    rw [hc] at hcleared hchosen
    have hoff : ∀ q, q ≠ c.pfx → strategyAt hash t q = strategyAt hash t' q := by
      intro q hq
      rw [hchosen]
      exact (update_of_ne hq _ _).symm
    have hx : ∀ x : InfoHolder F, t.Present x.owner → t.info x ≠ none →
        ((t'.info x = none ↔
          effectiveStrategy hash t x.owner ≠ effectiveStrategy hash t' x.owner) ↔
        (PrefixMap.Covers (strategyAt hash t) c.pfx (t.nodeName isDigest x.owner) ∧
            c.oldStrategy ≠ c.newStrategy ↔
          PrefixMap.Covers (strategyAt hash t) c.pfx (t.entryName x.owner) ∧
            PrefixMap.lookup (strategyAt hash t) c.pfx ≠
              PrefixMap.lookup (update (strategyAt hash t) c.pfx c.chosen) c.pfx)) := by
      intro x hp hinfo
      rw [hcleared x hp hinfo, heffective x hp, PrefixMap.lookup_ne_iff hoff, hchosen]
      simp
    constructor
    · rintro hall c' hc' x hp hinfo
      obtain rfl : c = c' := by simpa using hc'
      exact (hx x hp hinfo).mp (hall x hp hinfo)
    · intro hall x hp hinfo
      exact (hx x hp hinfo).mpr (hall c rfl x hp hinfo)

omit [DecidableEq St] in
lemma coversAlike_of_names {c : Change C St}
    (hnames : ∀ o, t.Present o → t.nodeName isDigest o = t.entryName o)
    (hfound : c.oldStrategy ≠ c.newStrategy ↔ PrefixMap.lookup (strategyAt hash t) c.pfx ≠
      PrefixMap.lookup (update (strategyAt hash t) c.pfx c.chosen) c.pfx) :
    CoversAlike hash isDigest t c := by
  intro x hp _
  rw [hnames _ hp, hfound]

def oneInterest (name : Name ℕ) : Tables ℕ Unit Unit Unit ℕ where
  pit := (Pit.insert NameTree.numberHash (· == 200)
    { tree := ((NameTree.new 16).lookup NameTree.numberHash []).1.setHolds .strategyChoice 0 true }
    ⟨name, ()⟩).1
  strategyOf := fun _ => 0
  info := fun _ => some ()

/-- The entry for `/1/200` is attached to `/1`: another strategy for `/1/200` becomes effective for
it, and its StrategyInfo is left. -/
theorem digest_entry_not_cleared :
    ∃ t', call NameTree.numberHash id (oneInterest [1, 200]) (.insert [1, 200] (some 5)) =
        some t' ∧
      (oneInterest [1, 200]).Present (.pitEntry 0) ∧
      effectiveStrategy NameTree.numberHash (oneInterest [1, 200]) (.pitEntry 0) = some 0 ∧
      effectiveStrategy NameTree.numberHash t' (.pitEntry 0) = some 5 ∧
      t'.info (.pitEntry 0) = some () :=
  ⟨_, rfl, by unfold Tables.Present; decide, by decide, by decide, by decide⟩

lemma present_oneInterest : (oneInterest [1]).pit.present = [0] := by decide

lemma inv_oneInterest : Pit.Inv NameTree.numberHash (· == 200) (oneInterest [1]).pit := by
  have hnew : Pit.Inv NameTree.numberHash (· == 200) (Pit.new 16 : Pit ℕ Unit) :=
    Pit.inv_new _ (by decide)
  have hroot := hnew.lookup [] (NameTree.growthOk_of_room (by decide))
  have hset := hroot.setHolds .strategyChoice 0 true
  exact hset.insert (i := ⟨[1], ()⟩) (NameTree.growthOk_of_room (by decide))

theorem cleared_iff_changed_one_interest :
    ∃ t', call NameTree.numberHash id (oneInterest [1]) (.insert [1] (some 5)) = some t' ∧
      t'.info (.inRecord 0 ()) = none ∧
      effectiveStrategy NameTree.numberHash (oneInterest [1]) (.pitEntry 0) ≠
        effectiveStrategy NameTree.numberHash t' (.pitEntry 0) := by
  have hok : (Operation.insert [1] (some 5)).Ok NameTree.numberHash (oneInterest [1]) :=
    NameTree.growthOk_of_room (by decide)
  obtain ⟨t', ht', -, hiff⟩ := cleared_iff_changed id inv_oneInterest (by decide) hok
    (readsOk_of_room (by decide))
  have hresult : t' = (call NameTree.numberHash id (oneInterest [1])
      (.insert [1] (some 5))).get (by decide) := (get_of_eq_some _ ht').symm
  have hreads' : ReadsOk NameTree.numberHash t' := by
    rw [hresult]
    exact readsOk_of_room (by decide)
  have hcovers : ∀ c ∈ changeOf NameTree.numberHash id (oneInterest [1]) (.insert [1] (some 5)),
      CoversAlike NameTree.numberHash (· == 200) (oneInterest [1]) c := by
    rintro c hc
    obtain rfl : ⟨[1], 0, 5, some 5⟩ = c := some.inj hc
    refine coversAlike_of_names (fun o ho => ?_) (by decide)
    cases o with
    | pitEntry e =>
      have he : e ∈ (oneInterest [1]).pit.present := ho
      rw [present_oneInterest, mem_singleton] at he
      rw [he]
      decide
    | measurements nte => rfl
  have hpresent : (oneInterest [1]).Present (InfoHolder.inRecord 0 ()).owner := by
    change 0 ∈ (oneInterest [1]).pit.present
    rw [present_oneInterest]
    exact mem_singleton.mpr rfl
  have hcleared := ((hiff hreads').mpr hcovers) (.inRecord 0 ()) hpresent (by decide)
  have hchanged : effectiveStrategy NameTree.numberHash (oneInterest [1]) (.pitEntry 0) ≠
      effectiveStrategy NameTree.numberHash t' (.pitEntry 0) := by
    rw [hresult]
    decide
  exact ⟨t', ht', hcleared.mpr hchanged, hchanged⟩

end StrategyChoice

end NfdGateway.Table
