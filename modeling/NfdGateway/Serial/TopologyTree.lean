import NfdGateway.Lib.TreeWalk
import NfdGateway.Serial.TopologyQueue

/-! The topology tree that the paths of the topology messages are merged into: nodes on the heap
with links to their children and back, and a table of the node ids in use. -/
namespace NfdGateway.Serial

open List Option Function Transition

open TopologyQueue (ptrMax)

abbrev Addr := ℕ

structure BTNode where
  nodeID : ℕ := 0
  ptr : List Addr := []
  parent : Option Addr := none
deriving DecidableEq

structure TopoTree where
  heap : Addr → Option BTNode
  next : Addr
  nodeCheck : ℕ → Bool

namespace TopoTree

def topoHead : Addr := 0

def init : TopoTree where
  heap := fun x => if x = topoHead then some {} else none
  next := 1
  nodeCheck := fun _ => false

def addChild (t : TopoTree) (x : Addr) (n : BTNode) (id : ℕ) : TopoTree where
  heap := update
    (update t.heap t.next (some { nodeID := id, parent := some x }))
    x (some { n with ptr := n.ptr ++ [t.next] })
  next := t.next + 1
  nodeCheck := update t.nodeCheck id true

def findChild (t : TopoTree) (id : ℕ) : List Addr → Option (Option Addr)
  | [] => some none
  | c :: cs => (t.heap c).bind fun n =>
    if n.nodeID = id then some (some c) else t.findChild id cs

/-- The path comes from its end to its beginning. The result says whether the tree is to be
rebuilt; `none` where an index is out of bounds or freed memory is read. -/
def topoTreeBuild : List ℕ → TopoTree → Addr → Option (TopoTree × Bool)
  | [], t, _ => some (t, false)
  | id :: path, t, x =>
    (t.heap x).bind fun n => (t.findChild id n.ptr).bind fun
      | some c => topoTreeBuild path t c
      | none =>
        if 256 ≤ id then none
        else if t.nodeCheck id then some (t, true)
        else if n.ptr.length < ptrMax then topoTreeBuild path (t.addChild x n id) t.next
        else none

def free (t : TopoTree) (x : Addr) : Option TopoTree :=
  (t.heap x).map fun _ => { t with heap := update t.heap x none }

def dfsTopoTree : ℕ → Addr → TopoTree → Option TopoTree
  | 0, _, _ => none
  | fuel + 1, x, t =>
    (t.heap x).bind fun n =>
      (n.ptr.foldlM (fun t c => dfsTopoTree fuel c t) t).bind fun t => t.free x

def topoTreeRecycling (t : TopoTree) : Option TopoTree :=
  (t.heap topoHead).bind fun h =>
    match h.ptr with
    | [] => some t
    | c :: _ => (dfsTopoTree (t.next + 1) c t).map fun t =>
      { t with heap := update t.heap topoHead (some { h with ptr := [] }) }

def children (t : TopoTree) (x : Addr) : List Addr := ((t.heap x).map BTNode.ptr).getD []

/-- The levels of the tree from `bt_buf` on. `none` where the next one is too long for `tmp_buf`,
which has `PTR_MAX` places, or freed memory is read. -/
def topoTreeLevel (t : TopoTree) : ℕ → List Addr → Option Unit
  | _, [] => some ()
  | 0, _ :: _ => none
  | fuel + 1, x :: xs =>
    let tmpBuf := (x :: xs).flatMap t.children
    if (∀ y ∈ x :: xs, (t.heap y).isSome) ∧ tmpBuf.length ≤ ptrMax then t.topoTreeLevel fuel tmpBuf
    else none

def topoTreeShow (t : TopoTree) : Option Unit := t.topoTreeLevel (t.next + 1) [topoHead]

/-- What `topo_management` does with the tree before it shows it. -/
def topoTreeMerge (t : TopoTree) (data : List ℕ) : Option (TopoTree × Bool) :=
  (topoTreeBuild data.reverse t topoHead).bind fun (t, topoRebuildFlag) =>
    if topoRebuildFlag then
      (topoTreeRecycling { t with nodeCheck := fun _ => false }).map fun t => (t, true)
    else some (t, false)

def topoManagement (t : TopoTree) (data : List ℕ) : Option (TopoTree × Bool) :=
  (t.topoTreeMerge data).bind fun r => r.1.topoTreeShow.map fun _ => r

def step (t : TopoTree) (data : List ℕ) : Option TopoTree := (t.topoManagement data).map Prod.fst

/-! ### The tree that the links make -/

variable {t t' : TopoTree} {x y c : Addr} {n : BTNode} {id : ℕ} {path : List ℕ}
  {r : TopoTree × Bool} {depth : Addr → ℕ}

def parentOf (t : TopoTree) (x : Addr) : Option Addr := (t.heap x).bind BTNode.parent

def idOf (t : TopoTree) (x : Addr) : Option ℕ := (t.heap x).map BTNode.nodeID

lemma children_of_heap (h : t.heap x = some n) : t.children x = n.ptr := by
  rw [children, h]
  rfl

inductive Linked (t : TopoTree) : Addr → Prop
  | head : Linked t topoHead
  | child {x c : Addr} (hx : Linked t x) (hc : c ∈ t.children x) : Linked t c

/-- The links form a tree, its node ids are different, and these are the ids in the table. The
head is no node of its own. -/
structure WellFormed (t : TopoTree) : Prop where
  allocated : ∀ x, (t.heap x).isSome → x < t.next
  live : ∀ x, Linked t x → (t.heap x).isSome
  root : t.parentOf topoHead = none
  tree : ∃ depth, TreeWalk.IsTree t.children t.parentOf (Linked t) depth t.next
  ids : ∀ x y, Linked t x → Linked t y → x ≠ topoHead → y ≠ topoHead → t.idOf x = t.idOf y → x = y
  checked : ∀ id, t.nodeCheck id = true ↔ ∃ x, Linked t x ∧ x ≠ topoHead ∧ t.idOf x = some id

lemma WellFormed.parent_of_child (h : WellFormed t) (hx : Linked t x) (hc : c ∈ t.children x) :
    t.parentOf c = some x := by
  obtain ⟨depth, htree⟩ := h.tree
  exact (htree.child x hx c hc).2.1

lemma WellFormed.child_ne_head (h : WellFormed t) (hx : Linked t x) (hc : c ∈ t.children x) :
    c ≠ topoHead := by
  rintro rfl
  have hpar := h.parent_of_child hx hc
  rw [h.root] at hpar
  cases hpar

lemma WellFormed.linked_ne_next (h : WellFormed t) (y : Addr) (hy : Linked t y) : y ≠ t.next := by
  rintro rfl
  exact absurd (h.allocated _ (h.live _ hy)) (Nat.lt_irrefl _)

lemma wellFormed_empty (hn : t.heap topoHead = some n) (hptr : n.ptr = [])
    (hparent : n.parent = none) (halloc : ∀ x, (t.heap x).isSome → x < t.next)
    (hcheck : ∀ id, t.nodeCheck id = false) : WellFormed t := by
  have hnil : t.children topoHead = [] := (children_of_heap hn).trans hptr
  have honly : ∀ x, Linked t x → x = topoHead := by
    intro x hx
    induction hx with
    | head => rfl
    | child hx hc ih =>
      rw [ih, hnil] at hc
      cases hc
  refine ⟨halloc, fun x hx => ?_, ?_, ⟨fun _ => 0, ?_, ?_, fun _ _ => Nat.zero_le _⟩, ?_, ?_⟩
  · rw [honly x hx, hn]
    rfl
  · rw [parentOf, hn]
    exact hparent
  · intro x hx c hc
    rw [honly x hx, hnil] at hc
    cases hc
  · intro x hx
    rw [honly x hx, hnil]
    exact nodup_nil
  · exact fun x y hx hy hxh => absurd (honly x hx) hxh
  intro id
  rw [hcheck id]
  exact ⟨nofun, fun ⟨x, hx, hne, _⟩ => absurd (honly x hx) hne⟩

lemma wellFormed_init : WellFormed init := by
  refine wellFormed_empty rfl rfl rfl (fun x hx => ?_) fun _ => rfl
  by_cases hxh : x = topoHead
  · rw [hxh]
    exact Nat.one_pos
  · simp [init, hxh] at hx

/-! ### A new child -/

section AddChild

variable (h : WellFormed t) (hx : Linked t x) (hn : t.heap x = some n)

include h hn in
lemma WellFormed.ne_next : x ≠ t.next := by
  rintro rfl
  have hlt := h.allocated t.next (by rw [hn]; rfl)
  exact Nat.lt_irrefl _ hlt

include h hn in
lemma children_addChild (id : ℕ) (y : Addr) : (t.addChild x n id).children y =
    if y = x then t.children x ++ [t.next] else if y = t.next then [] else t.children y := by
  have hne := h.ne_next hn
  rw [children_of_heap hn]
  unfold children addChild
  by_cases hy : y = x
  · simp [hy]
  by_cases hyn : y = t.next
  · simp [hyn, Ne.symm hne]
  · simp [hy, hyn]

include h hn in
lemma parentOf_addChild (id : ℕ) (y : Addr) : (t.addChild x n id).parentOf y =
    if y = t.next then some x else t.parentOf y := by
  have hne := h.ne_next hn
  unfold parentOf addChild
  by_cases hy : y = x
  · simp [hy, hne, hn]
  by_cases hyn : y = t.next
  · simp [hyn, Ne.symm hne]
  · simp [hy, hyn]

include h hn in
lemma idOf_addChild (id : ℕ) (y : Addr) : (t.addChild x n id).idOf y =
    if y = t.next then some id else t.idOf y := by
  have hne := h.ne_next hn
  unfold idOf addChild
  by_cases hy : y = x
  · simp [hy, hne, hn]
  by_cases hyn : y = t.next
  · simp [hyn, Ne.symm hne]
  · simp [hy, hyn]

include h hx hn in
lemma linked_addChild_iff (id : ℕ) (y : Addr) :
    Linked (t.addChild x n id) y ↔ Linked t y ∨ y = t.next := by
  have hkeep : ∀ y, Linked t y → Linked (t.addChild x n id) y := by
    intro y hy
    induction hy with
    | head => exact .head
    | @child z c hz hc ih =>
      refine .child ih ?_
      rw [children_addChild h hn]
      by_cases hzx : z = x
      · rw [if_pos hzx]
        exact mem_append_left _ (hzx ▸ hc)
      rw [if_neg hzx, if_neg (h.linked_ne_next z hz)]
      exact hc
  constructor
  · intro hy
    induction hy with
    | head => exact .inl .head
    | @child z c hz hc ih =>
      rw [children_addChild h hn] at hc
      split at hc
      · rcases mem_append.mp hc with hc | hc
        · exact .inl (.child hx hc)
        · exact .inr (mem_singleton.mp hc)
      split at hc
      · cases hc
      next hzn =>
        exact .inl (.child (ih.resolve_right hzn) hc)
  · rintro (hy | rfl)
    · exact hkeep y hy
    refine .child (hkeep x hx) ?_
    rw [children_addChild h hn, if_pos rfl]
    exact mem_append_right _ (mem_singleton.mpr rfl)

include h hx hn in
lemma isTree_addChild (id : ℕ)
    (htree : TreeWalk.IsTree t.children t.parentOf (Linked t) depth t.next) :
    TreeWalk.IsTree (t.addChild x n id).children (t.addChild x n id).parentOf
      (Linked (t.addChild x n id)) (update depth t.next (depth x + 1)) (t.next + 1) := by
  have hlinked := linked_addChild_iff h hx hn id
  have hold := h.linked_ne_next
  refine ⟨fun y hy c hc => ?_, fun y hy => ?_, fun y hy => ?_⟩
  · rw [children_addChild h hn] at hc
    rw [hlinked, parentOf_addChild h hn]
    have hkept : ∀ z, Linked t z → c ∈ t.children z → (Linked t c ∨ c = t.next) ∧
        (if c = t.next then some x else t.parentOf c) = some z ∧
        update depth t.next (depth x + 1) c =
          update depth t.next (depth x + 1) z + 1 := by
      intro z hz hcz
      obtain ⟨hcl, hpar, hdep⟩ := htree.child z hz c hcz
      rw [if_neg (hold c hcl), update_of_ne (hold c hcl), update_of_ne (hold z hz)]
      exact ⟨.inl hcl, hpar, hdep⟩
    split at hc
    next hyx =>
      subst hyx
      rcases mem_append.mp hc with hc | hc
      · exact hkept y hx hc
      obtain rfl := mem_singleton.mp hc
      rw [if_pos rfl, update_self, update_of_ne (hold y hx)]
      exact ⟨.inr rfl, rfl, rfl⟩
    · split at hc
      · cases hc
      next hyn =>
        exact hkept y (((hlinked y).mp hy).resolve_right hyn) hc
  · rw [children_addChild h hn]
    split
    · refine List.Nodup.append (htree.nodup x hx) (nodup_singleton _) ?_
      refine disjoint_singleton.mpr fun hmem => ?_
      exact hold _ (.child hx hmem) rfl
    split
    · exact nodup_nil
    next hyn =>
      exact htree.nodup y (((hlinked y).mp hy).resolve_right hyn)
  · rcases (hlinked y).mp hy with hy | rfl
    · rw [update_of_ne (hold y hy)]
      exact Nat.le_succ_of_le (htree.bounded y hy)
    · rw [update_self]
      exact Nat.succ_le_succ (htree.bounded x hx)

include h hx hn in
lemma WellFormed.addChild (hid : t.nodeCheck id = false) : WellFormed (t.addChild x n id) := by
  have hlinked := linked_addChild_iff h hx hn id
  have hold := h.linked_ne_next
  have hnext : t.next ≠ topoHead := (hold topoHead .head).symm
  have hfresh : ∀ y, Linked t y → y ≠ topoHead → t.idOf y ≠ some id := by
    intro y hy hyh he
    rw [(h.checked id).mpr ⟨y, hy, hyh, he⟩] at hid
    cases hid
  have hheap : ∀ y, y ≠ x → y ≠ t.next → (t.addChild x n id).heap y = t.heap y := by
    intro y hyx hyn
    simp [TopoTree.addChild, hyx, hyn]
  refine ⟨fun y hy => ?_, fun y hy => ?_, ?_, ?_, ?_, ?_⟩
  · by_cases hyx : y = x
    · exact Nat.lt_succ_of_lt (h.allocated y (by rw [hyx, hn]; rfl))
    by_cases hyn : y = t.next
    · exact hyn ▸ Nat.lt_succ_self _
    · rw [hheap y hyx hyn] at hy
      exact Nat.lt_succ_of_lt (h.allocated y hy)
  · by_cases hyx : y = x
    · simp [TopoTree.addChild, hyx]
    by_cases hyn : y = t.next
    · simp [TopoTree.addChild, hyn, (h.ne_next hn).symm]
    · rw [hheap y hyx hyn]
      exact h.live y (((hlinked y).mp hy).resolve_right hyn)
  · rw [parentOf_addChild h hn, if_neg hnext.symm]
    exact h.root
  · obtain ⟨depth, htree⟩ := h.tree
    exact ⟨_, isTree_addChild h hx hn id htree⟩
  · intro y z hy hz hyh hzh he
    rw [idOf_addChild h hn, idOf_addChild h hn] at he
    rcases (hlinked y).mp hy with hy | rfl <;> rcases (hlinked z).mp hz with hz | rfl
    · rw [if_neg (hold y hy), if_neg (hold z hz)] at he
      exact h.ids y z hy hz hyh hzh he
    · rw [if_neg (hold y hy), if_pos rfl] at he
      exact absurd he (hfresh y hy hyh)
    · rw [if_neg (hold z hz), if_pos rfl] at he
      exact absurd he.symm (hfresh z hz hzh)
    · rfl
  intro i
  have hcheck : (t.addChild x n id).nodeCheck i = true ↔ i = id ∨ t.nodeCheck i = true := by
    by_cases hi : i = id <;> simp [TopoTree.addChild, hi]
  rw [hcheck, h.checked i]
  constructor
  · rintro (rfl | ⟨y, hy, hyh, hyid⟩)
    · refine ⟨t.next, (hlinked _).mpr (.inr rfl), hnext, ?_⟩
      rw [idOf_addChild h hn, if_pos rfl]
    refine ⟨y, (hlinked y).mpr (.inl hy), hyh, ?_⟩
    rw [idOf_addChild h hn, if_neg (hold y hy)]
    exact hyid
  rintro ⟨y, hy, hyh, hyid⟩
  rw [idOf_addChild h hn] at hyid
  rcases (hlinked y).mp hy with hy | rfl
  · rw [if_neg (hold y hy)] at hyid
    exact .inr ⟨y, hy, hyh, hyid⟩
  · rw [if_pos rfl] at hyid
    exact .inl (some.inj hyid).symm

end AddChild

/-! ### Merging a path -/

structure Grows (t t' : TopoTree) : Prop where
  ids : ∀ x, Linked t x → t'.idOf x = t.idOf x
  children : ∀ x, Linked t x → t.children x ⊆ t'.children x

lemma Grows.refl (t : TopoTree) : Grows t t := ⟨fun _ _ => rfl, fun _ _ => List.Subset.refl _⟩

lemma Grows.linked (h : Grows t t') (hx : Linked t x) : Linked t' x := by
  induction hx with
  | head => exact .head
  | child hx hc ih => exact .child ih (h.children _ hx hc)

lemma Grows.trans {t'' : TopoTree} (h : Grows t t') (h' : Grows t' t'') : Grows t t'' where
  ids x hx := (h'.ids x (h.linked hx)).trans (h.ids x hx)
  children x hx := List.Subset.trans (h.children x hx) (h'.children x (h.linked hx))

lemma WellFormed.grows_addChild (h : WellFormed t) (hn : t.heap x = some n) :
    Grows t (t.addChild x n id) := by
  have hold := h.linked_ne_next
  refine ⟨fun y hy => ?_, fun y hy c hc => ?_⟩
  · rw [idOf_addChild h hn, if_neg (hold y hy)]
  rw [children_addChild h hn, if_neg (hold y hy)]
  split
  next hyx =>
    exact mem_append_left _ (hyx ▸ hc)
  · exact hc

inductive Leads (t : TopoTree) : Addr → List ℕ → Addr → Prop
  | nil {x : Addr} : Leads t x [] x
  | cons {x c y : Addr} {id : ℕ} {path : List ℕ} (hc : c ∈ t.children x)
      (hid : t.idOf c = some id) (h : Leads t c path y) : Leads t x (id :: path) y

def Edge (t : TopoTree) (p q : ℕ) : Prop :=
  ∃ x, Linked t x ∧ x ≠ topoHead ∧ t.idOf x = some p ∧ ∃ c ∈ t.children x, t.idOf c = some q

lemma Leads.isChain_cons (h : Leads t x path y) (ht : WellFormed t) (hx : Linked t x)
    (hne : x ≠ topoHead) (hid : t.idOf x = some id) : List.IsChain (Edge t) (id :: path) := by
  induction h generalizing id with
  | nil => exact List.IsChain.singleton _
  | cons hc hcid _ ih =>
    refine isChain_cons_cons.mpr ⟨⟨_, hx, hne, hid, _, hc, hcid⟩, ?_⟩
    exact ih (.child hx hc) (ht.child_ne_head hx hc) hcid

lemma Leads.isChain (h : Leads t topoHead path y) (ht : WellFormed t) :
    List.IsChain (Edge t) path := by
  cases h with
  | nil => exact List.IsChain.nil
  | cons hc hid h => exact h.isChain_cons ht (.child .head hc) (ht.child_ne_head .head hc) hid

def Overfull (t : TopoTree) (x : Addr) (path : List ℕ) : Prop :=
  ∃ above id rest y, path = above ++ id :: rest ∧ Leads t x above y ∧
    (∀ c ∈ t.children y, t.idOf c ≠ some id) ∧ t.nodeCheck id = false ∧
    ptrMax ≤ (t.children y).length

lemma Overfull.cons (h : Overfull t c path) (hc : c ∈ t.children x) (hid : t.idOf c = some id) :
    Overfull t x (id :: path) := by
  obtain ⟨above, i, rest, y, rfl, hleads, hrest⟩ := h
  exact ⟨id :: above, i, rest, y, rfl, .cons hc hid hleads, hrest⟩

lemma not_overfull_of_children_nil (h : t.children x = []) : ¬ Overfull t x path := by
  rintro ⟨above, i, rest, y, -, hleads, -, -, hfull⟩
  cases hleads with
  | nil =>
    rw [h] at hfull
    exact absurd hfull (by decide)
  | cons hc =>
    rw [h] at hc
    cases hc

lemma findChild_spec {cs : List Addr} (hlive : ∀ c ∈ cs, (t.heap c).isSome) :
    (∃ c ∈ cs, t.idOf c = some id ∧ t.findChild id cs = some (some c)) ∨
    (∀ c ∈ cs, t.idOf c ≠ some id) ∧ t.findChild id cs = some none := by
  induction cs with
  | nil => exact .inr ⟨nofun, rfl⟩
  | cons c cs ih =>
    obtain ⟨n, hn⟩ := isSome_iff_exists.mp (hlive c (.head _))
    have hid : t.idOf c = some n.nodeID := by rw [idOf, hn]; rfl
    have hstep : t.findChild id (c :: cs) =
        if n.nodeID = id then some (some c) else t.findChild id cs := by
      rw [findChild, hn]
      rfl
    by_cases he : n.nodeID = id
    · exact .inl ⟨c, .head _, hid.trans (congrArg some he), hstep.trans (if_pos he)⟩
    rw [hstep, if_neg he]
    rcases ih fun c hc => hlive c (.tail _ hc) with ⟨d, hd, hrest⟩ | ⟨hnone, hrest⟩
    · exact .inl ⟨d, .tail _ hd, hrest⟩
    refine .inr ⟨fun d hd => ?_, hrest⟩
    rcases mem_cons.mp hd with rfl | hd
    · rw [hid]
      exact fun h => he (some.inj h)
    · exact hnone d hd

def Merged (t : TopoTree) (x : Addr) (path : List ℕ) : TopoTree × Bool → Prop
  | (t', rejected) => WellFormed t' ∧ Grows t t' ∧ (rejected = false → ∃ y, Leads t' x path y)

lemma Merged.of_child (hm : Merged t c path r) (hx : Linked t x)
    (hc : c ∈ t.children x) (hid : t.idOf c = some id) : Merged t x (id :: path) r := by
  obtain ⟨hwf, hgrows, hleads⟩ := hm
  refine ⟨hwf, hgrows, fun hr => ?_⟩
  obtain ⟨y, hy⟩ := hleads hr
  have hid' := (hgrows.ids c (.child hx hc)).trans hid
  exact ⟨y, .cons (hgrows.children x hx hc) hid' hy⟩

lemma Merged.of_grows (hm : Merged t' x path r) (h : Grows t t') : Merged t x path r :=
  ⟨hm.1, h.trans hm.2.1, hm.2.2⟩

lemma topoTreeBuild_cases (path : List ℕ) (h : WellFormed t) (hx : Linked t x) :
    (∃ r, topoTreeBuild path t x = some r ∧ Merged t x path r) ∨
    topoTreeBuild path t x = none ∧ ((∃ id ∈ path, 256 ≤ id) ∨ Overfull t x path) := by
  induction path generalizing t x with
  | nil => exact .inl ⟨(t, false), rfl, h, Grows.refl t, fun _ => ⟨x, .nil⟩⟩
  | cons id path ih =>
    obtain ⟨n, hn⟩ := isSome_iff_exists.mp (h.live x hx)
    have hfind := @findChild_spec t id (t.children x) fun c hc => h.live c (.child hx hc)
    rw [topoTreeBuild, hn, bind_some, ← children_of_heap hn]
    rcases hfind with ⟨c, hc, hcid, hfind⟩ | ⟨hnone, hfind⟩
    · rw [hfind, bind_some]
      rcases ih h (.child hx hc) with ⟨r, hbuild, hm⟩ | ⟨hbuild, ⟨i, hi, hlarge⟩ | hfull⟩
      · exact .inl ⟨r, hbuild, hm.of_child hx hc hcid⟩
      · exact .inr ⟨hbuild, .inl ⟨i, .tail _ hi, hlarge⟩⟩
      · exact .inr ⟨hbuild, .inr (hfull.cons hc hcid)⟩
    rw [hfind, bind_some]
    by_cases hlarge : 256 ≤ id
    · exact .inr ⟨if_pos hlarge, .inl ⟨id, .head _, hlarge⟩⟩
    simp only [if_neg hlarge]
    cases hcheck : t.nodeCheck id with
    | true => exact .inl ⟨(t, true), rfl, h, Grows.refl t, nofun⟩
    | false =>
      by_cases hlt : (t.children x).length < ptrMax
      · -- the new node has no children yet, so the rest of the path finds room
        have hgrows : Grows t (t.addChild x n id) := h.grows_addChild hn
        have hnew : t.next ∈ (t.addChild x n id).children x := by
          rw [children_addChild h hn, if_pos rfl]
          exact mem_append_right _ (mem_singleton.mpr rfl)
        have hnewid : (t.addChild x n id).idOf t.next = some id := by
          rw [idOf_addChild h hn, if_pos rfl]
        have hempty : (t.addChild x n id).children t.next = [] := by
          rw [children_addChild h hn, if_neg (h.ne_next hn).symm, if_pos rfl]
        have hx' := hgrows.linked hx
        rw [if_pos hlt]
        rcases ih (h.addChild hx hn hcheck) (.child hx' hnew) with
          ⟨r, hbuild, hm⟩ | ⟨hbuild, ⟨i, hi, hlarge⟩ | hfull⟩
        · exact .inl ⟨r, hbuild, (hm.of_child hx' hnew hnewid).of_grows hgrows⟩
        · exact .inr ⟨hbuild, .inl ⟨i, .tail _ hi, hlarge⟩⟩
        · exact absurd hfull (not_overfull_of_children_nil hempty)
      · have hfull := Nat.le_of_not_lt hlt
        exact .inr ⟨if_neg hlt, .inr ⟨[], id, path, x, rfl, .nil, hnone, hcheck, hfull⟩⟩

/-! ### Freeing the tree -/

def freeAll (t : TopoTree) (l : List Addr) : TopoTree :=
  { t with heap := fun x => if x ∈ l then none else t.heap x }

lemma freeAll_append (l l' : List Addr) : (t.freeAll l).freeAll l' = t.freeAll (l ++ l') := by
  have hheap : ∀ x, ((t.freeAll l).freeAll l').heap x = (t.freeAll (l ++ l')).heap x := by
    intro x
    by_cases hl : x ∈ l <;> by_cases hl' : x ∈ l' <;> simp [freeAll, hl, hl']
  exact congrArg (TopoTree.mk · _ _) (funext hheap)

lemma freeAll_congr {l l' : List Addr} (h : ∀ y, y ∈ l ↔ y ∈ l') : t.freeAll l = t.freeAll l' := by
  simp only [freeAll, h]

lemma freeAll_nil : t.freeAll [] = t := by simp [freeAll]

lemma free_eq_freeAll (h : t.heap x = some n) : t.free x = some (t.freeAll [x]) := by
  have hheap : update t.heap x none = fun y => if y ∈ [x] then none else t.heap y := by
    funext y
    by_cases hy : y = x <;> simp [hy]
  rw [free, h, map_some, hheap]
  rfl

def subtree (t : TopoTree) (d : ℕ) (x : Addr) : List Addr :=
  x :: TreeWalk.below t.children (fun _ => (true, true)) d x

lemma subtree_succ (d : ℕ) (x : Addr) :
    t.subtree (d + 1) x = x :: (t.children x).flatMap (t.subtree d) := rfl

lemma dfsTopoTree_eq (h : WellFormed t)
    (htree : TreeWalk.IsTree t.children t.parentOf (Linked t) depth t.next) (d : ℕ)
    (hx : Linked t x) (hd : t.next < depth x + d) {u : TopoTree}
    (hu : ∀ y ∈ t.subtree d x, u.heap y = t.heap y) :
    dfsTopoTree d x u = some (u.freeAll (t.subtree d x)) := by
  induction d generalizing x u with
  | zero => exact absurd hd (Nat.not_lt.mpr (htree.bounded x hx))
  | succ d ih =>
    obtain ⟨n, hn⟩ := isSome_iff_exists.mp (h.live x hx)
    have hall : (TreeWalk.below t.children (fun _ => (true, true)) (d + 1) x).Nodup :=
      TreeWalk.below_nodup htree (d + 1) hx
    have hnodup : (t.subtree (d + 1) x).Nodup := TreeWalk.entered_nodup htree hx hall
    rw [subtree_succ] at hu hnodup ⊢
    obtain ⟨hxnot, hbelow⟩ := nodup_cons.mp hnodup
    have hfold : ∀ cs : List Addr, (∀ c ∈ cs, c ∈ t.children x) →
        (cs.flatMap (t.subtree d)).Nodup → ∀ u : TopoTree,
        (∀ y ∈ cs.flatMap (t.subtree d), u.heap y = t.heap y) →
        cs.foldlM (fun u c => dfsTopoTree d c u) u =
          some (u.freeAll (cs.flatMap (t.subtree d))) := by
      intro cs hcs hcsnodup
      induction cs with
      | nil => exact fun u _ => congrArg some freeAll_nil.symm
      | cons c cs ihcs =>
        intro u hu
        rw [flatMap_cons] at hcsnodup hu ⊢
        obtain ⟨-, hrest, hdisjoint⟩ := nodup_append'.mp hcsnodup
        obtain ⟨hcl, -, hdep⟩ := htree.child x hx c (hcs c (.head _))
        have hlevels : t.next < depth c + d := by
          rw [hdep, Nat.add_assoc, Nat.add_comm 1]
          exact hd
        have hc := ih hcl hlevels fun y hy => hu y (mem_append_left _ hy)
        have hnext : ∀ y ∈ cs.flatMap (t.subtree d),
            (u.freeAll (t.subtree d c)).heap y = t.heap y := by
          intro y hy
          have hynot : y ∉ t.subtree d c := fun hyc => hdisjoint hyc hy
          exact (if_neg hynot).trans (hu y (mem_append_right _ hy))
        rw [foldlM_cons, hc]
        refine (ihcs (fun c hc => hcs c (.tail _ hc)) hrest _ hnext).trans ?_
        rw [freeAll_append]
    have hux : u.heap x = some n := (hu x (.head _)).trans hn
    have hchildren := hfold (t.children x) (fun _ hc => hc) hbelow u fun y hy => hu y (.tail _ hy)
    have hxleft : (u.freeAll ((t.children x).flatMap (t.subtree d))).heap x = some n :=
      (if_neg hxnot).trans hux
    rw [dfsTopoTree, hux, bind_some, ← children_of_heap hn, hchildren, bind_some,
      free_eq_freeAll hxleft, freeAll_append]
    exact congrArg some (freeAll_congr fun y => by simp [or_comm])

lemma topoTreeRecycling_spec (h : WellFormed t) :
    ∃ t', topoTreeRecycling { t with nodeCheck := fun _ => false } = some t' ∧ WellFormed t' := by
  obtain ⟨depth, htree⟩ := h.tree
  obtain ⟨n, hn⟩ := isSome_iff_exists.mp (h.live topoHead .head)
  have hptr := children_of_heap hn
  have hparent : n.parent = none := by
    have hroot := h.root
    rw [parentOf, hn] at hroot
    exact hroot
  simp only [topoTreeRecycling, hn, bind_some]
  cases hcs : n.ptr with
  | nil => exact ⟨_, rfl, wellFormed_empty hn hcs hparent h.allocated fun _ => rfl⟩
  | cons c cs =>
    have hc : c ∈ t.children topoHead := by
      rw [hptr, hcs]
      exact .head _
    have hlevels : t.next < depth c + (t.next + 1) :=
      Nat.lt_of_lt_of_le (Nat.lt_succ_self _) (Nat.le_add_left _ _)
    have hdfs : dfsTopoTree (t.next + 1) c { t with nodeCheck := fun _ => false } = _ :=
      dfsTopoTree_eq h htree (t.next + 1) (.child .head hc) hlevels fun y _ => rfl
    simp only [hdfs, map_some]
    refine ⟨_, rfl, wellFormed_empty (n := { n with ptr := [] }) ?_ rfl hparent (fun x hx => ?_)
      fun _ => rfl⟩
    · dsimp only
      rw [update_self]
    refine h.allocated x ?_
    by_cases hxh : x = topoHead
    · rw [hxh, hn]
      rfl
    simp only [update_of_ne hxh] at hx
    by_cases hxs : x ∈ t.subtree (t.next + 1) c
    · simp [freeAll, hxs] at hx
    · simpa [freeAll, hxs] using hx

/-! ### Whole runs -/

def level (t : TopoTree) : ℕ → List Addr
  | 0 => [topoHead]
  | d + 1 => (t.level d).flatMap t.children

lemma topoTreeShow_eq (h : WellFormed t) (hlevels : ∀ d, (t.level d).length ≤ ptrMax) :
    t.topoTreeShow = some () := by
  obtain ⟨depth, htree⟩ := h.tree
  have hdepth : ∀ d, ∀ x ∈ t.level d, Linked t x ∧ d ≤ depth x := by
    intro d
    induction d with
    | zero =>
      intro x hx
      exact ⟨mem_singleton.mp hx ▸ .head, Nat.zero_le _⟩
    | succ d ih =>
      intro c hc
      obtain ⟨x, hx, hcx⟩ := mem_flatMap.mp hc
      obtain ⟨hxl, hd⟩ := ih x hx
      obtain ⟨hcl, -, hdep⟩ := htree.child x hxl c hcx
      exact ⟨hcl, hdep ▸ Nat.succ_le_succ hd⟩
  -- no level is deeper than there are nodes, so the fuel lasts
  have hfrom : ∀ fuel d : ℕ, fuel + d > t.next → t.topoTreeLevel fuel (t.level d) = some () := by
    intro fuel
    induction fuel with
    | zero =>
      intro d hd
      cases hl : t.level d with
      | nil => rfl
      | cons x xs =>
        obtain ⟨hx, hxd⟩ := hdepth d x (hl ▸ .head _)
        have hbound := htree.bounded x hx
        omega
    | succ fuel ih =>
      intro d hd
      have hnext := ih (d + 1) (by omega)
      have hlive : ∀ x ∈ t.level d, (t.heap x).isSome := fun x hx => h.live x (hdepth d x hx).1
      have hroom := hlevels (d + 1)
      rw [level] at hnext hroom
      cases hl : t.level d with
      | nil => rfl
      | cons x xs =>
        rw [hl] at hnext hlive hroom
        exact (if_pos ⟨hlive, hroom⟩).trans hnext
  exact hfrom _ 0 (Nat.lt_succ_self _)

lemma topoTreeMerge_cases (h : WellFormed t) (data : List ℕ) :
    (∃ t' rejected, t.topoTreeMerge data = some (t', rejected) ∧ WellFormed t' ∧
      (rejected = false → List.IsChain (Edge t') data.reverse)) ∨
    t.topoTreeMerge data = none ∧
      ((∃ id ∈ data, 256 ≤ id) ∨ Overfull t topoHead data.reverse) := by
  unfold topoTreeMerge
  rcases topoTreeBuild_cases data.reverse h .head with
    ⟨⟨t₁, rejected⟩, hbuild, hwf, -, hleads⟩ | ⟨hbuild, hroom⟩
  · rw [hbuild, bind_some]
    cases rejected with
    | false =>
      refine .inl ⟨t₁, false, rfl, hwf, fun hr => ?_⟩
      obtain ⟨y, hy⟩ := hleads hr
      exact hy.isChain hwf
    | true =>
      obtain ⟨t', hrecycle, hwf'⟩ := topoTreeRecycling_spec hwf
      refine .inl ⟨t', true, ?_, hwf', nofun⟩
      simp only [if_true, hrecycle, map_some]
  · refine .inr ⟨by rw [hbuild]; rfl, ?_⟩
    simpa only [mem_reverse] using hroom

lemma wellFormed_of_run (h : Reach step Any init t) : WellFormed t := by
  refine h.invariant wellFormed_init fun t data t' hwf _ hstep => ?_
  obtain ⟨r, hr, rfl⟩ := map_eq_some_iff.mp hstep
  obtain ⟨r', hmerge, hshow⟩ := bind_eq_some_iff.mp hr
  obtain ⟨-, -, rfl⟩ := map_eq_some_iff.mp hshow
  rcases topoTreeMerge_cases hwf data with ⟨u, rejected, hu, hwf', -⟩ | ⟨hnone, -⟩
  · cases hmerge.symm.trans hu
    exact hwf'
  · cases hmerge.symm.trans hnone

lemma WellFormed.parent_unique (h : WellFormed t) (hx : Linked t x) (hne : x ≠ topoHead) :
    ∃ p, t.parentOf x = some p ∧ ∀ q, Linked t q ∧ x ∈ t.children q ↔ q = p := by
  cases hx with
  | head => exact absurd rfl hne
  | @child p _ hp hc =>
    have hpar := h.parent_of_child hp hc
    refine ⟨p, hpar, fun q => ⟨fun ⟨hq, hcq⟩ => ?_, ?_⟩⟩
    · exact some.inj ((h.parent_of_child hq hcq).symm.trans hpar)
    · rintro rfl
      exact ⟨hp, hc⟩

/-- After any messages the ids of the tree are different, parent and child links agree, the table
has the ids of the tree, and the next message is merged if the child arrays have room for it; unless
it is rejected, its path is then in the tree. It is handled if the levels are not too long to be
shown. -/
theorem topology_tree_consistent (h : Reach step Any init t) :
    (∀ x y, Linked t x → Linked t y → x ≠ topoHead → y ≠ topoHead →
      t.idOf x = t.idOf y → x = y) ∧
    (∀ x, Linked t x → x ≠ topoHead →
      ∃ p, t.parentOf x = some p ∧ ∀ q, Linked t q ∧ x ∈ t.children q ↔ q = p) ∧
    (∀ id, t.nodeCheck id = true ↔ ∃ x, Linked t x ∧ x ≠ topoHead ∧ t.idOf x = some id) ∧
    ∀ data : List ℕ, (∀ id ∈ data, id < 256) → ¬ Overfull t topoHead data.reverse →
      ∃ t' rejected, t.topoTreeMerge data = some (t', rejected) ∧
        (rejected = false → List.IsChain (Edge t') data.reverse) ∧
        ((∀ d, (t'.level d).length ≤ ptrMax) → t.topoManagement data = some (t', rejected)) := by
  have hwf := wellFormed_of_run h
  refine ⟨hwf.ids, fun x => hwf.parent_unique, hwf.checked, fun data hids hroom => ?_⟩
  rcases topoTreeMerge_cases hwf data with
    ⟨t', rejected, hmerge, hwf', hedges⟩ | ⟨-, ⟨id, hid, hlarge⟩ | hfull⟩
  · refine ⟨t', rejected, hmerge, hedges, fun hlevels => ?_⟩
    rw [topoManagement, hmerge, bind_some, topoTreeShow_eq hwf' hlevels]
    rfl
  · exact absurd (hids id hid) (Nat.not_lt.mpr hlarge)
  · exact absurd hfull hroom

theorem topology_tree_consistent_two :
    ∃ t, run step init [[5, 1], [3, 2, 1]] = some t ∧ t.nodeCheck 3 = true ∧
      ∃ x, Linked t x ∧ x ≠ topoHead ∧ t.idOf x = some 3 := by
  have hrun : (run step init [[5, 1], [3, 2, 1]]).map (·.nodeCheck 3) = some true := by decide
  obtain ⟨t, ht, hcheck⟩ := map_eq_some_iff.mp hrun
  have hids := (topology_tree_consistent (reach_of_run .init ht)).2.2.1
  exact ⟨t, ht, hcheck, (hids 3).mp hcheck⟩

end TopoTree

end NfdGateway.Serial
