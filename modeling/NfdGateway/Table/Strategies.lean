import NfdGateway.Lib.PrefixOrder

/-! The strategies that are installed, and the one that a name stands for. A name without its last
component, the version, stands for the latest version. -/
namespace NfdGateway.Table

open PrefixOrder List

variable {C St : Type} [LinearOrder C] {name : List C} {p q : List C × St} {strategy : St}
  {l : List (List C × St)}

lemma not_lt_of_mem_dropWhile (hl : l.Pairwise (·.1 < ·.1))
    (hp : p ∈ l.dropWhile (·.1 < name)) : ¬ p.1 < name := by
  induction l with
  | nil => cases hp
  | cons q l ih =>
    obtain ⟨hq, hl⟩ := pairwise_cons.mp hl
    by_cases hlt : q.1 < name
    · rw [dropWhile_cons_of_pos (by simpa using hlt)] at hp
      exact ih hl hp
    rw [dropWhile_cons_of_neg (by simpa using hlt)] at hp
    rcases mem_cons.mp hp with rfl | hp
    · exact hlt
    · exact fun hpn => hlt ((hq p hp).trans hpn)

lemma mem_dropWhile (hp : p ∈ l) (hn : ¬ p.1 < name) : p ∈ l.dropWhile (·.1 < name) := by
  rw [← takeWhile_append_dropWhile (p := (·.1 < name)) (l := l)] at hp
  rcases mem_append.mp hp with hp | hp
  · exact absurd (by simpa using mem_takeWhile_imp hp) hn
  · exact hp

structure Strategies (C St : Type) [LinearOrder C] where
  instances : List (List C × St)
  ordered : instances.Pairwise (·.1 < ·.1)

def scanStrategies (name : List C) : Option St → List (List C × St) → Option St
  | candidate, [] => candidate
  | candidate, (n, strategy) :: rest =>
    if name <+: n then
      match n.length - name.length with
      | 0 => some strategy
      | 1 => scanStrategies name (some strategy) rest
      | _ => scanStrategies name candidate rest
    else candidate

namespace Strategies

variable (m : Strategies C St)

def getStrategy (name : List C) : Option St :=
  scanStrategies name none (m.instances.dropWhile (·.1 < name))

def hasStrategy (strategyName : List C) (isExact : Bool) : Bool :=
  if isExact then m.instances.any (·.1 = strategyName) else (m.getStrategy strategyName).isSome

def add (name : List C) (strategy : St) (h : ∀ p ∈ m.instances, p.1 ≠ name) : Strategies C St where
  instances := m.instances.takeWhile (·.1 < name) ++
    (name, strategy) :: m.instances.dropWhile (·.1 < name)
  ordered := by
    have hsplit := m.ordered
    rw [← takeWhile_append_dropWhile (l := m.instances)] at hsplit
    obtain ⟨hbelow, habove, hcross⟩ := pairwise_append.mp hsplit
    have hhigh : ∀ p ∈ m.instances.dropWhile (·.1 < name), name < p.1 := fun p hp =>
      lt_of_le_of_ne (not_lt.mp (not_lt_of_mem_dropWhile m.ordered hp))
        (h p (dropWhile_subset _ hp)).symm
    refine pairwise_append.mpr ⟨hbelow, pairwise_cons.mpr ⟨hhigh, habove⟩, ?_⟩
    intro p hp q hq
    rcases mem_cons.mp hq with rfl | hq
    · simpa using mem_takeWhile_imp hp
    · exact hcross p hp q hq

def install (getName : St → List C) (strategy : St) : Strategies C St × Bool :=
  if h : m.hasStrategy (getName strategy) true then (m, false)
  else
    (m.add (getName strategy) strategy fun p hp heq =>
      h (List.any_eq_true.mpr ⟨p, hp, by simpa using heq⟩), true)

def StandsFor (name : List C) (strategy : St) : Prop :=
  (name, strategy) ∈ m.instances ∨
    (∀ p ∈ m.instances, p.1 ≠ name) ∧ ∃ c, (name ++ [c], strategy) ∈ m.instances ∧
      ∀ d, ∀ p ∈ m.instances, p.1 = name ++ [d] → p.1 ≤ name ++ [c]

end Strategies

def Versioned (name : List C) (p : List C × St) : Prop := ∃ c, p.1 = name ++ [c]

omit [LinearOrder C] in
lemma Versioned.isPrefix (h : Versioned name p) : name <+: p.1 := by
  obtain ⟨c, hc⟩ := h
  exact hc ▸ prefix_append name [c]

lemma scanStrategies_cases (candidate : Option St) (hl : l.Pairwise (·.1 < ·.1))
    (hn : ∀ p ∈ l, name < p.1) :
    (∃ p ∈ l, Versioned name p ∧ scanStrategies name candidate l = some p.2 ∧
      ∀ q ∈ l, Versioned name q → q.1 ≤ p.1) ∨
    (∀ p ∈ l, ¬ Versioned name p) ∧ scanStrategies name candidate l = candidate := by
  induction l generalizing candidate with
  | nil => exact .inr ⟨nofun, rfl⟩
  | cons p l ih =>
    obtain ⟨hp, hl⟩ := pairwise_cons.mp hl
    have ih := fun candidate => ih candidate hl fun q hq => hn q (.tail _ hq)
    rw [scanStrategies]
    split
    next hpre =>
      obtain ⟨rest, hrest⟩ := hpre
      have hlen : p.1.length - name.length = rest.length := by simp [← hrest]
      rw [hlen]
      match rest with
      | [] =>
        rw [append_nil] at hrest
        exact absurd hrest (hn p (.head _)).ne
      | [c] =>
        have hversion : Versioned name p := ⟨c, hrest.symm⟩
        rcases ih (some p.2) with ⟨q, hq, hqv, hscan, hmax⟩ | ⟨hnone, hscan⟩
        · refine .inl ⟨q, .tail _ hq, hqv, hscan, ?_⟩
          intro r hr hrv
          rcases mem_cons.mp hr with rfl | hr
          · exact (hp q hq).le
          · exact hmax r hr hrv
        · refine .inl ⟨p, .head _, hversion, hscan, ?_⟩
          intro r hr hrv
          rcases mem_cons.mp hr with rfl | hr
          · exact le_rfl
          · exact absurd hrv (hnone r hr)
      | c :: d :: rest =>
        have hlonger : ¬ Versioned name p := by
          rintro ⟨e, he⟩
          simp [he] at hrest
        have hskip : ∀ q ∈ p :: l, Versioned name q → q ∈ l := by
          intro q hq hqv
          rcases mem_cons.mp hq with rfl | hq
          · exact absurd hqv hlonger
          · exact hq
        rcases ih candidate with ⟨q, hq, hqv, hscan, hmax⟩ | ⟨hnone, hscan⟩
        · exact .inl ⟨q, .tail _ hq, hqv, hscan, fun r hr hrv => hmax r (hskip r hr hrv) hrv⟩
        · exact .inr ⟨fun q hq hqv => hnone q (hskip q hq hqv) hqv, hscan⟩
    · -- no extension of the name comes after a name that is none
      rename_i hpre
      refine .inr ⟨?_, rfl⟩
      intro q hq hqv
      rcases mem_cons.mp hq with rfl | hq
      · exact hpre hqv.isPrefix
      · exact hpre (prefix_of_between (hn p (.head _)).asymm (hp q hq).asymm hqv.isPrefix)

lemma getStrategy_of_mem (m : Strategies C St) (h : (name, strategy) ∈ m.instances) :
    m.getStrategy name = some strategy := by
  have hmem := mem_dropWhile h (lt_irrefl name)
  have hleast : ∀ p ∈ m.instances.dropWhile (·.1 < name), ¬ p.1 < name := fun p hp =>
    not_lt_of_mem_dropWhile m.ordered hp
  unfold Strategies.getStrategy
  have hsorted := m.ordered.sublist (dropWhile_sublist (·.1 < name))
  generalize m.instances.dropWhile (·.1 < name) = l at hmem hleast hsorted
  cases hmem with
  | head => simp [scanStrategies]
  | tail p hmem => exact absurd ((pairwise_cons.mp hsorted).1 _ hmem) (hleast _ (.head _))

/-- The strategy of a name is the one installed under it or, without one, under the greatest of
the names that are longer by a component; a name of neither kind has none. -/
theorem getStrategy_stands_for (m : Strategies C St) (name : List C) :
    (∀ strategy, m.getStrategy name = some strategy ↔ m.StandsFor name strategy) ∧
      (m.getStrategy name = none ↔ ∀ p ∈ m.instances, p.1 ≠ name ∧ ¬ Versioned name p) := by
  by_cases hexact : ∃ p ∈ m.instances, p.1 = name
  · obtain ⟨⟨n, strategy⟩, hmem, rfl⟩ := hexact
    rw [getStrategy_of_mem m hmem]
    refine ⟨fun strategy' => ⟨?_, ?_⟩, iff_of_false nofun fun h => (h _ hmem).1 rfl⟩
    · rintro ⟨⟩
      exact .inl hmem
    rintro (h | ⟨h, -⟩)
    · rw [← getStrategy_of_mem m hmem, getStrategy_of_mem m h]
    · exact absurd rfl (h _ hmem)
  have hne : ∀ p ∈ m.instances, p.1 ≠ name := fun p hp heq => hexact ⟨p, hp, heq⟩
  have habove : ∀ p ∈ m.instances.dropWhile (·.1 < name), name < p.1 := fun p hp =>
    lt_of_le_of_ne (not_lt.mp (not_lt_of_mem_dropWhile m.ordered hp))
      (hne p (dropWhile_subset _ hp)).symm
  have hkept : ∀ p ∈ m.instances, Versioned name p → p ∈ m.instances.dropWhile (·.1 < name) :=
    fun p hp hv => mem_dropWhile hp (not_lt_of_isPrefix hv.isPrefix)
  rcases scanStrategies_cases none
      (m.ordered.sublist (dropWhile_sublist _)) habove with
    ⟨p, hp, ⟨c, hc⟩, hscan, hmax⟩ | ⟨hnone, hscan⟩
  · have hmem := dropWhile_subset _ hp
    have hnodup := (pairwise_map.mpr m.ordered).imp ne_of_lt
    rw [Strategies.getStrategy, hscan]
    refine ⟨fun strategy => ⟨?_, ?_⟩, iff_of_false nofun fun h => (h p hmem).2 ⟨c, hc⟩⟩
    · rintro ⟨⟩
      refine .inr ⟨hne, c, hc ▸ hmem, fun d q hq hqd => ?_⟩
      exact hc ▸ hmax q (hkept q hq ⟨d, hqd⟩) ⟨d, hqd⟩
    rintro (h | ⟨-, d, hd, hgreatest⟩)
    · exact absurd rfl (hne _ h)
    have hle := hmax _ (hkept _ hd ⟨d, rfl⟩) ⟨d, rfl⟩
    have hge := hgreatest c p hmem hc
    rw [inj_on_of_nodup_map hnodup hmem hd (le_antisymm hge hle)]
  · rw [Strategies.getStrategy, hscan]
    have hnever : ∀ p ∈ m.instances, ¬ Versioned name p := fun p hp hv =>
      hnone p (hkept p hp hv) hv
    refine ⟨fun strategy => iff_of_false nofun ?_, iff_of_true rfl fun p hp =>
      ⟨hne p hp, hnever p hp⟩⟩
    rintro (h | ⟨-, d, hd, -⟩)
    · exact hne _ h rfl
    · exact hnever _ hd ⟨d, rfl⟩

end NfdGateway.Table
