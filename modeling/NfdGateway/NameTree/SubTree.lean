import NfdGateway.Lib.TreeWalk
import NfdGateway.NameTree.Refinement

/-! Enumerating the entries under a prefix: the iterator of `partialEnumerate` follows the links
between parents and children. -/
namespace NfdGateway.NameTree

open List Transition

variable {C : Type} {hash : C → Hash} {T : NameTree C} {x y z root : EntryId} {name : Name C}
  {select : EntryId → Bool × Bool}

def childrenOf (T : NameTree C) (x : EntryId) : List EntryId := (T.entries x).children

def parentOf (T : NameTree C) (x : EntryId) : Option EntryId := (T.entries x).parent

def partialEnumerate [DecidableEq C] (hash : C → Hash) (T : NameTree C) (name : Name C)
    (entrySubTreeSelector : EntryId → Bool × Bool) : Option (List EntryId) :=
  match T.findExactMatch hash name with
  | none => some []
  | some root =>
    TreeWalk.visit T.childrenOf T.parentOf entrySubTreeSelector root (2 * T.linked.length + 1) root

structure Visited (T : NameTree C) (name : Name C) (select : EntryId → Bool × Bool)
    (x : EntryId) : Prop where
  linked : x ∈ T.linked
  pfx : name <+: (T.entries x).pfx
  selected : (select x).1 = true
  above : ∀ y ∈ T.linked, name <+: (T.entries y).pfx → (T.entries y).pfx <+: (T.entries x).pfx →
    y ≠ x → (select y).2 = true

def longest (T : NameTree C) : ℕ := (T.linked.map fun x => (T.entries x).pfx.length).sum

section

variable (h : TreeInv hash T)
include h

lemma TreeInv.child (hx : x ∈ T.linked) (hy : y ∈ T.childrenOf x) :
    y ∈ T.linked ∧ T.parentOf y = some x ∧ ∃ c, (T.entries y).pfx = (T.entries x).pfx ++ [c] := by
  obtain ⟨hyl, hpar⟩ := (h.mem_children x hx y).mp hy
  have hh := h.hangs y hyl
  rw [hpar] at hh
  exact ⟨hyl, hpar, hh.2⟩

lemma TreeInv.length_child (hx : x ∈ T.linked) (hy : y ∈ T.childrenOf x) :
    (T.entries y).pfx.length = (T.entries x).pfx.length + 1 := by
  obtain ⟨-, -, c, hc⟩ := h.child hx hy
  rw [hc, length_append, length_singleton]

lemma TreeInv.isTree : TreeWalk.IsTree T.childrenOf T.parentOf
    (· ∈ T.linked) (fun x => (T.entries x).pfx.length) T.longest := by
  refine ⟨fun x hx y hy => ?_, h.children_nodup, fun x hx => ?_⟩
  · obtain ⟨hyl, hpar, -⟩ := h.child hx hy
    exact ⟨hyl, hpar, h.length_child hx hy⟩
  · exact single_le_sum (fun _ _ => Nat.zero_le _) _ (List.mem_map.mpr ⟨x, hx, rfl⟩)

lemma TreeInv.child_towards (hx : x ∈ T.linked) (hz : z ∈ T.linked)
    (hp : (T.entries x).pfx <+: (T.entries z).pfx) (hne : z ≠ x) :
    ∃ c ∈ T.childrenOf x, (T.entries c).pfx <+: (T.entries z).pfx := by
  obtain ⟨r, hr⟩ := hp
  cases r with
  | nil => exact absurd (h.unique z hz x hx (by simpa using hr.symm)) hne
  | cons a r =>
    have hpre : (T.entries x).pfx ++ [a] <+: (T.entries z).pfx := ⟨r, by simpa using hr⟩
    obtain ⟨c, hc, hpc⟩ := h.stored_prefixes hz hpre
    refine ⟨c, (h.mem_children x hx c).mpr ⟨hc, ?_⟩, hpc ▸ hpre⟩
    have hh := h.hangs c hc
    cases hpar : (T.entries c).parent with
    | none =>
      rw [hpar, hpc] at hh
      simp [HangsFrom] at hh
    | some p =>
      rw [hpar, hpc] at hh
      obtain ⟨hpl, b, hb⟩ := hh
      rw [h.unique p hpl x hx (append_inj' hb rfl).1.symm]

end

lemma prefix_of_child_cases {p q r n : Name C} {c : C} (hp : r = p ++ [c]) (hq : p <+: q)
    (hqn : q <+: n) (hrn : r <+: n) : q = p ∨ r <+: q := by
  rcases prefix_or_prefix_of_prefix hqn hrn with hqr | hrq
  · rw [hp] at hqr
    rcases prefix_concat_iff.mp hqr with he | hqp
    · exact .inr (by rw [hp, he])
    · exact .inl (hqp.eq_of_length_le hq.length_le)
  · exact .inr hrq

lemma TreeInv.mem_below (h : TreeInv hash T) (d : ℕ) (hx : x ∈ T.linked)
    (hd : T.longest < (T.entries x).pfx.length + d) :
    z ∈ TreeWalk.below T.childrenOf select d x ↔
      z ∈ T.linked ∧ (T.entries x).pfx <+: (T.entries z).pfx ∧ z ≠ x ∧
      ∀ y ∈ T.linked, (T.entries x).pfx <+: (T.entries y).pfx → y ≠ x →
        (T.entries y).pfx <+: (T.entries z).pfx → y ≠ z → (select y).2 = true := by
  induction d generalizing x with
  | zero =>
    have := h.isTree.bounded x hx
    omega
  | succ d ih =>
    rw [TreeWalk.mem_below_succ]
    constructor
    · rintro ⟨c, hc, hzc⟩
      obtain ⟨hcl, -, a, hca⟩ := h.child hx hc
      have hxc : (T.entries x).pfx <+: (T.entries c).pfx := ⟨[a], hca.symm⟩
      have hlen := h.length_child hx hc
      rcases hzc with rfl | hzc
      · refine ⟨hcl, hxc, by rintro rfl; omega, fun y hy hxy hyx hyz hne => ?_⟩
        rcases prefix_of_child_cases hca hxy hyz prefix_rfl with he | hzy
        · exact absurd (h.unique y hy x hx he) hyx
        · exact absurd (h.unique y hy z hcl (hyz.eq_of_length_le hzy.length_le)) hne
      unfold TreeWalk.entered at hzc
      split at hzc
      next hsel =>
        obtain ⟨hzl, hcz, hzne, hall⟩ := (ih hcl (by omega)).mp hzc
        have hlonger := hcz.length_le
        refine ⟨hzl, hxc.trans hcz, by rintro rfl; omega, fun y hy hxy hyx hyz hne => ?_⟩
        rcases prefix_of_child_cases hca hxy hyz hcz with he | hcy
        · exact absurd (h.unique y hy x hx he) hyx
        by_cases hyc : y = c
        · rw [hyc, hsel]
        · exact hall y hy hcy hyc hyz hne
      · cases hzc
    · rintro ⟨hzl, hxz, hzx, hall⟩
      obtain ⟨c, hc, hcz⟩ := h.child_towards hx hzl hxz hzx
      obtain ⟨hcl, -, a, hca⟩ := h.child hx hc
      have hxc : (T.entries x).pfx <+: (T.entries c).pfx := ⟨[a], hca.symm⟩
      have hlen := h.length_child hx hc
      have hcx : c ≠ x := by
        rintro rfl
        omega
      refine ⟨c, hc, ?_⟩
      by_cases hz : z = c
      · exact .inl hz
      right
      rw [TreeWalk.entered, if_pos (hall c hcl hxc hcx hcz (Ne.symm hz))]
      refine (ih hcl (by omega)).mpr ⟨hzl, hcz, hz, fun y hy hcy hyc hyz hne => ?_⟩
      have hlonger := hcy.length_le
      refine hall y hy (hxc.trans hcy) ?_ hyz hne
      rintro rfl
      omega

lemma Inv.partialEnumerate_of_found [DecidableEq C] (h : Inv hash T)
    (hf : T.findExactMatch hash name = some root) :
    T.partialEnumerate hash name select = some ((root ::
      TreeWalk.entered T.childrenOf select (T.longest + 1) root).filter fun x => (select x).1) := by
  obtain ⟨hroot, -⟩ := h.findExactMatch_iff.mp hf
  have hle : (TreeWalk.entered T.childrenOf select (T.longest + 1) root).length ≤
      T.linked.length := by
    unfold TreeWalk.entered
    split
    · refine (subperm_of_subset (TreeWalk.below_nodup h.isTree _ hroot) ?_).length_le
      exact fun y hy => (TreeWalk.mem_below_spec h.isTree _ hroot hy).1
    · exact Nat.zero_le _
  unfold partialEnumerate
  rw [hf]
  exact TreeWalk.visit_eq h.isTree (T.longest + 1) hroot (by omega) (by omega)

lemma Inv.partialEnumerate_spec [DecidableEq C] (h : Inv hash T) (name : Name C)
    (select : EntryId → Bool × Bool) :
    ∃ l, T.partialEnumerate hash name select = some l ∧ ∀ x, x ∈ l ↔ T.Visited name select x := by
  cases hf : T.findExactMatch hash name with
  | none =>
    refine ⟨[], by rw [partialEnumerate, hf], fun x => iff_of_false (by simp) fun hx => ?_⟩
    obtain ⟨r, hr, hname⟩ := h.stored_prefixes hx.linked hx.pfx
    rw [h.findExactMatch_iff.mpr ⟨hr, hname⟩] at hf
    cases hf
  | some root =>
    refine ⟨_, h.partialEnumerate_of_found hf, fun x => ?_⟩
    obtain ⟨hroot, rfl⟩ := h.findExactMatch_iff.mp hf
    have hd : T.longest < (T.entries root).pfx.length + (T.longest + 1) := by omega
    rw [mem_filter, mem_cons, TreeWalk.entered]
    constructor
    · rintro ⟨rfl | hx, hs⟩
      · refine ⟨hroot, prefix_rfl, hs, fun y hy hxy hyx hne => ?_⟩
        exact absurd (h.unique y hy x hroot (hyx.eq_of_length_le hxy.length_le)) hne
      split at hx
      next hsel =>
        obtain ⟨hxl, hp, hne, hall⟩ := (h.mem_below _ hroot hd).mp hx
        refine ⟨hxl, hp, hs, fun y hy hry hyx hyne => ?_⟩
        by_cases hyr : y = root
        · rw [hyr, hsel]
        · exact hall y hy hry hyr hyx hyne
      · cases hx
    · intro hx
      refine ⟨?_, hx.selected⟩
      by_cases hxr : x = root
      · exact .inl hxr
      right
      rw [if_pos (hx.above root hroot prefix_rfl hx.pfx (Ne.symm hxr))]
      refine (h.mem_below _ hroot hd).mpr ⟨hx.linked, hx.pfx, hxr, ?_⟩
      intro y hy hry _ hyx hyne
      exact hx.above y hy hry hyx hyne

/-- What `partialEnumerate` is for: it ends, and visits the selected entries under the prefix once
each, in preorder; nothing if there is no entry for the prefix. -/
def EnumeratesPreorder [DecidableEq C] (hash : C → Hash) (T : NameTree C) (name : Name C)
    (select : EntryId → Bool × Bool) : Prop :=
  ∃ l, T.partialEnumerate hash name select = some l ∧ l.Nodup ∧
    l.Pairwise (TreeWalk.Before T.childrenOf) ∧ (∀ x, x ∈ l ↔ T.Visited name select x) ∧
    (name ∉ T.storedNames → l = [])

lemma Inv.enumeratesPreorder [DecidableEq C] (h : Inv hash T) (name : Name C)
    (select : EntryId → Bool × Bool) : T.EnumeratesPreorder hash name select := by
  obtain ⟨l, hl, hmem⟩ := h.partialEnumerate_spec name select
  have hlist : l.Nodup ∧ l.Pairwise (TreeWalk.Before T.childrenOf) := by
    cases hf : T.findExactMatch hash name with
    | none =>
      rw [partialEnumerate, hf] at hl
      cases hl
      exact ⟨nodup_nil, List.Pairwise.nil⟩
    | some root =>
      obtain ⟨hroot, -⟩ := h.findExactMatch_iff.mp hf
      rw [h.partialEnumerate_of_found hf] at hl
      cases hl
      refine ⟨List.Nodup.filter _ ?_,
        (TreeWalk.entered_pairwise (TreeWalk.below_pairwise _ _)).sublist filter_sublist⟩
      exact TreeWalk.entered_nodup h.isTree hroot (TreeWalk.below_nodup h.isTree _ hroot)
  refine ⟨l, hl, hlist.1, hlist.2, hmem, fun hname => ?_⟩
  refine eq_nil_iff_forall_not_mem.mpr fun x hx => hname ?_
  have hv := (hmem x).mp hx
  exact mem_storedNames.mpr (h.stored_prefixes hv.linked hv.pfx)

/-- In every run that resizes only to sizes on which the two indices agree, `partialEnumerate`
visits what it is to visit. -/
theorem enumerates_preorder_of_run [DecidableEq C] {n : ℕ} (hn : 0 < n) {A : Names C}
    (h : Reach (step hash) (fun s ev => ev.Ok hash s) (new n, {}) (T, A))
    (name : Name C) (select : EntryId → Bool × Bool) : T.EnumeratesPreorder hash name select :=
  (refines_run hn h).inv.enumeratesPreorder name select

/-- With three buckets the entry of the prefix is lost, and nothing is visited. -/
theorem stored_prefix_not_enumerated :
    ∃ T A, Reach (step wideHash) Any (new 3, {}) (T, A) ∧
      [()] ∈ T.storedNames ∧
      T.partialEnumerate wideHash [()] (fun _ => (true, true)) = some [] ∧
      ¬ T.EnumeratesPreorder wideHash [()] fun _ => (true, true) := by
  have hnone : ((new 3).lookup wideHash [()]).1.partialEnumerate wideHash [()]
      (fun _ => (true, true)) = some [] := by decide
  refine ⟨_, _, .step (a := .lookup [()]) .init trivial rfl, by decide, hnone, ?_⟩
  rintro ⟨l, hl, -, -, hmem, -⟩
  obtain rfl := Option.some.inj (hnone.symm.trans hl)
  exact not_mem_nil ((hmem 1).mpr ⟨by decide, by decide, rfl, fun _ _ _ _ _ => rfl⟩)

/-- With eight buckets `/A` and `/A/A` are visited in this order. -/
theorem enumerates_preorder_chain :
    ∃ T : NameTree Unit, T.EnumeratesPreorder wideHash [()] (fun _ => (true, true)) ∧
      T.partialEnumerate wideHash [()] (fun _ => (true, true)) = some [1, 2] := by
  refine ⟨((new 8).lookup wideHash [(), ()]).1, ?_, by decide⟩
  refine enumerates_preorder_of_run (by decide) (A := ({} : Names Unit).lookup [(), ()])
    (.step (a := .lookup [(), ()]) .init ?_ rfl) [()] _
  exact growthOk_of_room (by decide)

end NfdGateway.NameTree
