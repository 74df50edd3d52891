import NfdGateway.NameTree.Tree

/-! The nexthops of a FIB entry. -/
namespace NfdGateway.Table.Fib

open List Function

structure NextHop (F : Type) where
  face : F
  cost : ℕ := 0
deriving DecidableEq

structure Entry (C F : Type) where
  pfx : Name C := []
  nextHops : List (NextHop F) := []
  nameTreeEntry : Option EntryId := none

variable {C F : Type} {l l' : List (NextHop F)} {face : F} {cost : ℕ}
  {sort : List (NextHop F) → List (NextHop F)}

structure SortsByCost (sort : List (NextHop F) → List (NextHop F)) : Prop where
  perm : ∀ l, (sort l).Perm l
  sorted : ∀ l, (sort l).Pairwise (·.cost ≤ ·.cost)

structure Tidy (l : List (NextHop F)) : Prop where
  nodup : (l.map (·.face)).Nodup
  sorted : l.Pairwise (·.cost ≤ ·.cost)

lemma tidy_nil : Tidy ([] : List (NextHop F)) := ⟨nodup_nil, List.Pairwise.nil⟩

variable [DecidableEq F]

def findNextHop (l : List (NextHop F)) (face : F) : Option ℕ := l.findIdx? (·.face = face)

/-- The cost is set after a new nexthop was pushed back. `sort` is `std::sort`, which may leave
nexthops of one cost in any order. -/
def addNextHop (sort : List (NextHop F) → List (NextHop F)) (l : List (NextHop F)) (face : F)
    (cost : ℕ) : List (NextHop F) :=
  let r : List (NextHop F) × ℕ := match findNextHop l face with
    | some it => (l, it)
    | none => (l ++ [{ face := face }], l.length)
  sort (r.1.modify r.2 fun h => { h with cost := cost })

def removeNextHop (l : List (NextHop F)) (face : F) : List (NextHop F) :=
  match findNextHop l face with
  | some it => l.eraseIdx it
  | none => l

def costs (l : List (NextHop F)) (face : F) : Option ℕ :=
  (l.find? (·.face = face)).map (·.cost)

lemma costs_eq_some_iff (hl : (l.map (·.face)).Nodup) :
    costs l face = some cost ↔ ⟨face, cost⟩ ∈ l := by
  simp only [costs, Option.map_eq_some_iff]
  constructor
  · rintro ⟨⟨f, c⟩, hfind, rfl⟩
    obtain rfl : f = face := by simpa using find?_some hfind
    exact mem_of_find?_eq_some hfind
  intro hmem
  refine ⟨⟨face, cost⟩, ?_, rfl⟩
  cases hfind : l.find? (·.face = face) with
  | none => simpa using find?_eq_none.mp hfind _ hmem
  | some h =>
    have hface : h.face = face := by simpa using find?_some hfind
    exact congrArg some (inj_on_of_nodup_map hl (mem_of_find?_eq_some hfind) hmem hface)

lemma costs_nil : costs ([] : List (NextHop F)) = fun _ => none := rfl

lemma costs_eq_none_iff : (costs l = fun _ => none) ↔ l = [] := by
  refine ⟨fun h => ?_, fun h => h ▸ costs_nil⟩
  cases l with
  | nil => rfl
  | cons x l => simpa [costs] using congrFun h x.face

lemma costs_ext (hl : (l.map (·.face)).Nodup) {f : F → Option ℕ}
    (h : ∀ face cost, ⟨face, cost⟩ ∈ l ↔ f face = some cost) : costs l = f := by
  refine funext fun face => Option.ext fun cost => ?_
  rw [costs_eq_some_iff hl, h]

lemma removeNextHop_eq : removeNextHop l face = l.eraseP (·.face = face) := by
  rw [eraseP_eq_eraseIdx, removeNextHop, findNextHop]
  cases l.findIdx? (·.face = face) <;> rfl

lemma tidy_removeNextHop (h : Tidy l) (face : F) : Tidy (removeNextHop l face) := by
  rw [removeNextHop_eq]
  exact ⟨h.nodup.sublist (eraseP_sublist.map _), h.sorted.eraseP _⟩

lemma mem_removeNextHop (hl : (l.map (·.face)).Nodup) {x : NextHop F} :
    x ∈ removeNextHop l face ↔ x ∈ l ∧ x.face ≠ face := by
  rw [removeNextHop_eq]
  by_cases hx : x.face = face
  · refine iff_of_false (fun hmem => ?_) fun h => h.2 hx
    obtain ⟨a, l₁, l₂, -, ha, rfl, he⟩ :=
      exists_of_eraseP (p := fun h : NextHop F => h.face = face)
      (mem_of_mem_eraseP hmem) (by simpa using hx)
    rw [he] at hmem
    have hperm := (perm_middle.map _).nodup_iff.mp hl
    have hface : a.face = x.face := by
      rw [hx]
      simpa using ha
    exact (nodup_cons.mp hperm).1 (List.mem_map.mpr ⟨x, hmem, hface.symm⟩)
  · rw [mem_eraseP_of_neg (by simpa using hx)]
    simp [hx]

lemma costs_removeNextHop (h : Tidy l) (face : F) :
    costs (removeNextHop l face) = update (costs l) face none := by
  refine costs_ext (tidy_removeNextHop h face).nodup fun f c => ?_
  rw [mem_removeNextHop h.nodup]
  by_cases hf : f = face
  · simp [hf]
  · rw [update_of_ne hf, costs_eq_some_iff h.nodup]
    simp [hf]

lemma addNextHop_eq (sort : List (NextHop F) → List (NextHop F)) (l : List (NextHop F))
    (face : F) (cost : ℕ) :
    ∃ l₁ l₂, removeNextHop l face = l₁ ++ l₂ ∧
      addNextHop sort l face cost = sort (l₁ ++ ⟨face, cost⟩ :: l₂) := by
  cases hfind : findNextHop l face with
  | none =>
    refine ⟨l, [], by simp [removeNextHop, hfind], ?_⟩
    have hlast : l.length < (l ++ [({ face := face } : NextHop F)]).length := by simp
    simp [addNextHop, hfind, modify_eq_take_cons_drop hlast]
  | some it =>
    obtain ⟨hit, hface, -⟩ := findIdx?_eq_some_iff_getElem.mp hfind
    have hface : l[it].face = face := by simpa using hface
    refine ⟨l.take it, l.drop (it + 1), ?_, ?_⟩
    · simp only [removeNextHop, hfind, eraseIdx_eq_take_drop_succ]
    · simp only [addNextHop, hfind, modify_eq_take_cons_drop hit, hface]

lemma tidy_addNextHop (hsort : SortsByCost sort) (h : Tidy l) (face : F) (cost : ℕ) :
    Tidy (addNextHop sort l face cost) := by
  obtain ⟨l₁, l₂, hrest, he⟩ := addNextHop_eq sort l face cost
  have hnew : face ∉ (removeNextHop l face).map (·.face) := by
    rw [List.mem_map]
    rintro ⟨x, hx, hface⟩
    exact ((mem_removeNextHop h.nodup).mp hx).2 hface
  have hnodup := nodup_cons.mpr ⟨hnew, (tidy_removeNextHop h face).nodup⟩
  rw [he]
  refine ⟨((hsort.perm _).map _).nodup_iff.mpr ?_, hsort.sorted _⟩
  rw [hrest] at hnodup
  exact (perm_middle.map NextHop.face).nodup_iff.mpr hnodup

lemma costs_addNextHop (hsort : SortsByCost sort) (h : Tidy l) (face : F) (cost : ℕ) :
    costs (addNextHop sort l face cost) = update (costs l) face (some cost) := by
  refine costs_ext (tidy_addNextHop hsort h face cost).nodup fun f c => ?_
  obtain ⟨l₁, l₂, hrest, he⟩ := addNextHop_eq sort l face cost
  rw [he, (hsort.perm _).mem_iff, perm_middle.mem_iff, mem_cons, ← hrest,
    mem_removeNextHop h.nodup, update_apply]
  split
  next hf =>
    simp [hf, eq_comm]
  next hf =>
    simp [hf, costs_eq_some_iff h.nodup]

end NfdGateway.Table.Fib
