import NfdGateway.Lib.Walk

/-! Walking over a tree in preorder by the links of its nodes: down to the first child, on to the
next sibling, up to the parent. A selector says which nodes are taken and below which nodes the
walk goes. -/
namespace TreeWalk

open List Option

variable {α : Type}

def goesDown (children : α → List α) (select : α → Bool × Bool) (x : α) : Bool :=
  (select x).2 && !(children x).isEmpty

def below (children : α → List α) (select : α → Bool × Bool) : ℕ → α → List α
  | 0, _ => []
  | depth + 1, x => (children x).flatMap fun y =>
      y :: if (select y).2 then below children select depth y else []

variable [DecidableEq α]

/-- From `x` on, whose children are still to be visited or not, until the walk is back at the root.
It may run out of fuel or meet a node that its parent does not know. -/
def walk (children : α → List α) (parent : α → Option α) (select : α → Bool × Bool) (root : α) :
    ℕ → α → Bool → Option (List α)
  | 0, _, _ => none
  | fuel + 1, x, down =>
    let visit := fun y =>
      (walk children parent select root fuel y (goesDown children select y)).map fun l =>
        if (select y).1 then y :: l else l
    if down then (children x).head?.bind visit
    else if x = root then some []
    else
      (parent x).bind fun p =>
        if x ∈ children p then
          match (Walk.rest (children p) x).head? with
          | some y => visit y
          | none => walk children parent select root fuel p false
        else none

variable {children : α → List α} {parent : α → Option α} {select : α → Bool × Bool}
  {nodes : α → Prop} {depth : α → ℕ} {root x y : α} {fuel d : ℕ}

def visit (children : α → List α) (parent : α → Option α) (select : α → Bool × Bool) (root : α)
    (fuel : ℕ) (y : α) : Option (List α) :=
  (walk children parent select root fuel y (goesDown children select y)).map fun l =>
    if (select y).1 then y :: l else l

lemma walk_down (h : (children x).head? = some y) :
    walk children parent select root (fuel + 1) x true =
      visit children parent select root fuel y := by
  rw [walk]
  simp only [h]
  rfl

lemma walk_root : walk children parent select root (fuel + 1) root false = some [] := by
  simp [walk]

lemma walk_back {p : α} (hne : x ≠ root) (hp : parent x = some p) (hx : x ∈ children p) :
    walk children parent select root (fuel + 1) x false =
      match (Walk.rest (children p) x).head? with
      | some y => visit children parent select root fuel y
      | none => walk children parent select root fuel p false := by
  rw [walk]
  simp only [Bool.false_eq_true, if_false, if_neg hne, hp, bind_some, if_pos hx]
  rfl

lemma walk_mono {l : List α} {m : ℕ} {down : Bool}
    (h : walk children parent select root fuel x down = some l) (hm : fuel ≤ m) :
    walk children parent select root m x down = some l := by
  induction fuel generalizing m x down l with
  | zero => simp [walk] at h
  | succ fuel ih =>
    obtain ⟨m, rfl⟩ : ∃ k, m = k + 1 := ⟨m - 1, by omega⟩
    have hvisit : ∀ y l, visit children parent select root fuel y = some l →
        visit children parent select root m y = some l := by
      intro y l hl
      obtain ⟨r, hr, rfl⟩ := map_eq_some_iff.mp hl
      exact map_eq_some_iff.mpr ⟨r, ih hr (by omega), rfl⟩
    cases down with
    | true =>
      obtain ⟨y, hy, hl⟩ := bind_eq_some_iff.mp h
      exact bind_eq_some_iff.mpr ⟨y, hy, hvisit y l hl⟩
    | false =>
      by_cases hroot : x = root
      · subst hroot
        rw [walk_root] at h ⊢
        exact h
      rw [walk] at h
      simp only [Bool.false_eq_true, if_false, if_neg hroot] at h
      obtain ⟨p, hp, hl⟩ := bind_eq_some_iff.mp h
      split at hl
      next hx =>
        rw [walk_back hroot hp hx]
        cases hs : (Walk.rest (children p) x).head? with
        | some y =>
          simp only [hs] at hl ⊢
          exact hvisit y l hl
        | none =>
          simp only [hs] at hl ⊢
          exact ih hl (by omega)
      · cases hl

structure IsTree (children : α → List α) (parent : α → Option α) (nodes : α → Prop)
    (depth : α → ℕ) (bound : ℕ) : Prop where
  child : ∀ x, nodes x → ∀ y ∈ children x, nodes y ∧ parent y = some x ∧ depth y = depth x + 1
  nodup : ∀ x, nodes x → (children x).Nodup
  bounded : ∀ x, nodes x → depth x ≤ bound

variable {bound : ℕ}

def entered (children : α → List α) (select : α → Bool × Bool) (d : ℕ) (x : α) : List α :=
  if (select x).2 then below children select d x else []

omit [DecidableEq α] in
lemma below_succ : below children select (d + 1) x =
    (children x).flatMap fun y => y :: entered children select d y := rfl

def WalksThrough (children : α → List α) (parent : α → Option α) (select : α → Bool × Bool)
    (root : α) (d : ℕ) (y : α) : Prop :=
  ∃ k, k ≤ 2 * (entered children select d y).length ∧ ∀ n,
    walk children parent select root (n + k) y (goesDown children select y) =
      (walk children parent select root n y false).map
        (((entered children select d y).filter fun z => (select z).1) ++ ·)

section

variable (h : IsTree children parent nodes depth bound)
include h

lemma visit_child (hx : nodes x)
    (hroot : depth root ≤ depth x) {c : α} {l pre : List α} (hl : children x = pre ++ c :: l)
    (hc : WalksThrough children parent select root d c) :
    ∃ k, k ≤ 2 * (entered children select d c).length ∧ ∀ n,
      visit children parent select root (n + 1 + k) c =
        (match l.head? with
          | some y => visit children parent select root n y
          | none => walk children parent select root n x false).map
          (((c :: entered children select d c).filter fun z => (select z).1) ++ ·) := by
  have hmem : c ∈ children x := by simp [hl]
  obtain ⟨-, hpar, hdep⟩ := h.child x hx c hmem
  have hne : c ≠ root := by
    rintro rfl
    omega
  have hrest : Walk.rest (children x) c = l := by
    have hn := h.nodup x hx
    rw [hl] at hn ⊢
    have hnot : c ∉ pre := fun hm => (nodup_append.mp hn).2.2 c hm c (.head _) rfl
    exact (Walk.sides_append hnot _).2
  obtain ⟨k, hk, hwalk⟩ := hc
  refine ⟨k, hk, fun n => ?_⟩
  rw [visit, hwalk, walk_back hne hpar hmem, hrest, Option.map_map, filter_cons]
  refine congrArg (Option.map · _) (funext fun r => ?_)
  split <;> rfl

lemma visit_siblings (hx : nodes x) (hroot : depth root ≤ depth x)
    (hthrough : ∀ y ∈ children x, WalksThrough children parent select root d y)
    (c : α) (l pre : List α) (hl : children x = pre ++ c :: l) :
    ∃ k, k + 1 ≤ 2 * ((c :: l).flatMap fun y => y :: entered children select d y).length ∧ ∀ n,
      visit children parent select root (n + k) c =
        (walk children parent select root n x false).map
          ((((c :: l).flatMap fun y => y :: entered children select d y).filter
            fun z => (select z).1) ++ ·) := by
  have hmem : c ∈ children x := by simp [hl]
  obtain ⟨k, hk, hvisit⟩ := visit_child h hx hroot hl (hthrough c hmem)
  induction l generalizing c pre k with
  | nil =>
    refine ⟨1 + k, by simp; omega, fun n => ?_⟩
    rw [← Nat.add_assoc, hvisit]
    simp
  | cons c' l ih =>
    have hl' : children x = (pre ++ [c]) ++ c' :: l := by simp [hl]
    have hmem' : c' ∈ children x := by simp [hl]
    obtain ⟨k₁, hk₁, hvisit₁⟩ := visit_child h hx hroot hl' (hthrough c' hmem')
    obtain ⟨k', hk', hnext⟩ := ih c' _ hl' hmem' k₁ hk₁ hvisit₁
    refine ⟨k' + 1 + k, ?_, fun n => ?_⟩
    · rw [flatMap_cons, length_append, length_cons]
      omega
    rw [show n + (k' + 1 + k) = (n + k') + 1 + k by omega, hvisit, flatMap_cons, filter_append]
    simp only [head?_cons, hnext n, Option.map_map]
    refine congrArg (Option.map · _) (funext fun r => ?_)
    simp only [Function.comp_apply, append_assoc]

lemma walksThrough (d : ℕ) (hx : nodes x)
    (hroot : depth root ≤ depth x) (hd : bound < depth x + d) :
    WalksThrough children parent select root d x := by
  induction d generalizing x with
  | zero =>
    have := h.bounded x hx
    omega
  | succ d ih =>
    cases hdown : goesDown children select x with
    | false =>
      have hnil : entered children select (d + 1) x = [] := by
        unfold entered
        split
        next hsel =>
          rw [goesDown, hsel, Bool.true_and, Bool.not_eq_false', List.isEmpty_iff] at hdown
          rw [below_succ, hdown, flatMap_nil]
        · rfl
      refine ⟨0, Nat.zero_le _, fun n => ?_⟩
      rw [hnil, hdown, Nat.add_zero]
      cases walk children parent select root n x false <;> rfl
    | true =>
      obtain ⟨hsel, hne⟩ : (select x).2 = true ∧ children x ≠ [] := by
        simpa [goesDown] using hdown
      obtain ⟨c, l, hl⟩ := exists_cons_of_ne_nil hne
      have hthrough : ∀ y ∈ children x, WalksThrough children parent select root d y := by
        intro y hy
        obtain ⟨hyn, -, hdep⟩ := h.child x hx y hy
        exact ih hyn (by omega) (by omega)
      obtain ⟨k, hk, hvisit⟩ := visit_siblings h hx hroot hthrough c l [] hl
      have hent : entered children select (d + 1) x =
          (c :: l).flatMap fun y => y :: entered children select d y := by
        rw [entered, if_pos hsel, below_succ, hl]
      refine ⟨k + 1, by rw [hent]; exact hk, fun n => ?_⟩
      rw [hent, hdown, ← Nat.add_assoc, walk_down (by rw [hl]; rfl), hvisit]

lemma visit_eq (d : ℕ) (hx : nodes root) (hd : bound < depth root + d)
    (hfuel : 2 * (entered children select d root).length < fuel) :
    visit children parent select root fuel root =
      some ((root :: entered children select d root).filter fun z => (select z).1) := by
  have hthrough : WalksThrough children parent select root d root := walksThrough h d hx le_rfl hd
  obtain ⟨k, hk, hwalk⟩ := hthrough
  have hend := hwalk 1
  rw [walk_root, map_some, append_nil] at hend
  rw [visit, walk_mono hend (by omega), map_some, filter_cons]

end

omit [DecidableEq α]

lemma mem_below_succ {z : α} : z ∈ below children select (d + 1) x ↔
    ∃ c ∈ children x, z = c ∨ z ∈ entered children select d c := by
  simp [below_succ]

def up (parent : α → Option α) : ℕ → α → Option α
  | 0, y => some y
  | n + 1, y => (up parent n y).bind parent

section

variable (h : IsTree children parent nodes depth bound)
include h

lemma mem_below_spec (d : ℕ) (hx : nodes x) (hy : y ∈ below children select d x) :
    nodes y ∧ ∃ n, depth y = depth x + (n + 1) ∧ up parent (n + 1) y = some x := by
  induction d generalizing x with
  | zero => simp [below] at hy
  | succ d ih =>
    obtain ⟨c, hc, hyc⟩ := mem_below_succ.mp hy
    obtain ⟨hcn, hpar, hdep⟩ := h.child x hx c hc
    rcases hyc with rfl | hyc
    · exact ⟨hcn, 0, hdep, by simp [up, hpar]⟩
    unfold entered at hyc
    split at hyc
    · obtain ⟨hyn, n, hn, hup⟩ := ih hcn hyc
      refine ⟨hyn, n + 1, by omega, ?_⟩
      rw [up, hup, bind_some, hpar]
    · cases hyc

lemma entered_nodup {d : ℕ} (hx : nodes x)
    (hd : (below children select d x).Nodup) : (x :: entered children select d x).Nodup := by
  unfold entered
  split
  · refine nodup_cons.mpr ⟨fun hmem => ?_, hd⟩
    obtain ⟨-, n, hn, -⟩ := mem_below_spec h d hx hmem
    omega
  · exact nodup_singleton x

lemma below_nodup (d : ℕ) (hx : nodes x) : (below children select d x).Nodup := by
  induction d generalizing x with
  | zero => exact nodup_nil
  | succ d ih =>
    have hent : ∀ c ∈ children x, ∀ y ∈ entered children select d c,
        ∃ n, depth y = depth c + (n + 1) ∧ up parent (n + 1) y = some c := by
      intro c hc y hy
      unfold entered at hy
      split at hy
      · exact (mem_below_spec h d (h.child x hx c hc).1 hy).2
      · cases hy
    -- a node in two of the subtrees would have two ancestors on one level
    have hlevel : ∀ c ∈ children x, ∀ y ∈ c :: entered children select d c,
        ∃ n, depth y = depth x + 1 + n ∧ up parent n y = some c := by
      intro c hc y hy
      have hdep := (h.child x hx c hc).2.2
      rcases mem_cons.mp hy with rfl | hy
      · exact ⟨0, hdep, rfl⟩
      · obtain ⟨n, hn, hup⟩ := hent c hc y hy
        exact ⟨n + 1, by omega, hup⟩
    refine nodup_flatMap.mpr ⟨fun c hc => ?_, ?_⟩
    · have hcn := (h.child x hx c hc).1
      exact entered_nodup h hcn (ih hcn)
    refine (h.nodup x hx).imp_of_mem fun {a b} ha hb hab y hya hyb => hab ?_
    obtain ⟨n, hn, hup⟩ := hlevel a ha y hya
    obtain ⟨m, hm, hup'⟩ := hlevel b hb y hyb
    obtain rfl : n = m := by omega
    exact some.inj (hup.symm.trans hup')

end

def Under (children : α → List α) : α → α → Prop := Relation.TransGen fun x y => y ∈ children x

/-- A node comes before those below it; what is at or below a child comes before what is at or
below a later child of the same node. -/
def Before (children : α → List α) (x y : α) : Prop :=
  Under children x y ∨ ∃ z a b, [a, b].Sublist (children z) ∧
    (a = x ∨ Under children a x) ∧ (b = y ∨ Under children b y)

lemma under_of_mem_below {d : ℕ} (hy : y ∈ below children select d x) : Under children x y := by
  induction d generalizing x with
  | zero => cases hy
  | succ d ih =>
    obtain ⟨c, hc, rfl | hyc⟩ := mem_below_succ.mp hy
    · exact .single hc
    unfold entered at hyc
    split at hyc
    · exact .head hc (ih hyc)
    · cases hyc

lemma under_of_mem_entered {d : ℕ} (hy : y ∈ entered children select d x) : Under children x y := by
  unfold entered at hy
  split at hy
  · exact under_of_mem_below hy
  · cases hy

lemma entered_pairwise {d : ℕ} (h : (below children select d x).Pairwise (Before children)) :
    (x :: entered children select d x).Pairwise (Before children) := by
  refine List.Pairwise.cons (fun y hy => .inl (under_of_mem_entered hy)) ?_
  unfold entered
  split
  · exact h
  · exact List.Pairwise.nil

lemma below_pairwise (d : ℕ) (x : α) : (below children select d x).Pairwise (Before children) := by
  induction d generalizing x with
  | zero => exact List.Pairwise.nil
  | succ d ih =>
    have hself : ∀ c, ∀ y ∈ c :: entered children select d c, c = y ∨ Under children c y := by
      intro c y hy
      exact (mem_cons.mp hy).imp Eq.symm under_of_mem_entered
    rw [below_succ, pairwise_flatMap]
    refine ⟨fun c _ => entered_pairwise (ih c), ?_⟩
    refine pairwise_iff_forall_sublist.mpr fun {a b} hab y hy z hz => ?_
    exact .inr ⟨x, a, b, hab, hself a y hy, hself b z hz⟩

end TreeWalk
