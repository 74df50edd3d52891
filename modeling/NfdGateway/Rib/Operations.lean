import NfdGateway.Rib.Tree

/-! What `Rib::insert` and `Rib::erase` do to the entry they are about, and that they leave
all else as it was. -/
namespace NfdGateway

open List Option Function

namespace Rib

variable {C : Type} [LinearOrder C] {R R₁ R' : Rib C} {n x : Name C} {route : Route} {g : FaceId}
  {c : Option (List Route × ℕ)}

def content (R : Rib C) (x : Name C) : Option (List Route × ℕ) :=
  if x ∈ R.names then some ((R.entries x).routes, (R.entries x).nRoutesWithCaptureSet) else none

lemma content_of_mem (h : x ∈ R.names) :
    R.content x = some ((R.entries x).routes, (R.entries x).nRoutesWithCaptureSet) := if_pos h

lemma content_of_not_mem (h : x ∉ R.names) : R.content x = none := if_neg h

lemma content_isSome : (R.content x).isSome ↔ x ∈ R.names := by
  rw [content]
  split <;> simp [*]

lemma content_eq_some {c : List Route × ℕ} (h : R.content x = some c) :
    x ∈ R.names ∧ ((R.entries x).routes, (R.entries x).nRoutesWithCaptureSet) = c := by
  have hx := content_isSome.mp (by rw [h]; rfl)
  rw [content_of_mem hx] at h
  exact ⟨hx, Option.some_inj.mp h⟩

structure ChangedAt (R R' : Rib C) (n : Name C) (c : Option (List Route × ℕ)) : Prop where
  tree : R'.TreeInv
  self : R'.content n = c
  other : ∀ x, x ≠ n → R'.content x = R.content x

lemma content_congr (hn : x ∈ R'.names ↔ x ∈ R.names)
    (hd : R'.dataOf x = R.dataOf x) : R'.content x = R.content x := by
  obtain ⟨-, -, -, hr, -, hc⟩ := RibEntry.mk.inj hd
  rw [content, content, hr, hc]
  simp only [hn]

lemma changedAt_insertEntry (h : R.TreeInv) (hn : n ∉ R.names) :
    ChangedAt R (R.insertEntry n route) n
      (some ([route], if route.isCapture then 1 else 0)) := by
  obtain ⟨hins, -, -⟩ := insertEntry_spec h hn route
  refine ⟨h.insertEntry hn route, ?_, fun x hx => ?_⟩
  · have hr : ((R.insertEntry n route).entries n).routes = [route] :=
      congrArg RibEntry.routes hins.data_self
    have hc : ((R.insertEntry n route).entries n).nRoutesWithCaptureSet =
        if route.isCapture then (0 + 1) % 2 ^ 64 else 0 :=
      congrArg RibEntry.nRoutesWithCaptureSet hins.data_self
    simp [content_of_mem ((hins.mem_names n).mpr (.inl rfl)), hr, hc]
  · exact content_congr (by simp [hins.mem_names, hx]) (hins.data_other x hx)

lemma changedAt_setEntry (h : R.TreeInv) (hn : n ∈ R.names) {e : RibEntry C}
    (hname : e.name = (R.entries n).name) (hp : e.parent = R.parentOf n)
    (hc : e.children = R.childrenOf n) :
    ChangedAt R (R.setEntry n e) n (some (e.routes, e.nRoutesWithCaptureSet)) := by
  refine ⟨h.setEntry hname hp hc, ?_, fun x hx => ?_⟩
  · simp [content, setEntry, hn]
  · simp [content, setEntry, hx]

lemma changedAt_eraseEntry (h : R.TreeInv) (hn : n ∈ R.names) :
    ChangedAt R (R.eraseEntry n) n none := by
  have her := eraseEntry_spec h hn
  refine ⟨h.eraseEntry hn, content_of_not_mem ?_, fun x hx => ?_⟩
  · rw [her.mem_names h]
    exact fun hm => hm.1 rfl
  · exact content_congr (by simp [her.mem_names h, hx]) (congrFun her.data x)

lemma ChangedAt.trans {c₁ : Option (List Route × ℕ)} (h : ChangedAt R R₁ n c₁)
    (h' : ChangedAt R₁ R' n c) : ChangedAt R R' n c :=
  ⟨h'.tree, h'.self, fun x hx => (h'.other x hx).trans (h.other x hx)⟩

lemma ChangedAt.tables (h : ChangedAt R R' n c) (m : ℕ) (fm : FaceId → List (Name C)) :
    ChangedAt R { R' with nItems := m, faceMap := fm } n c :=
  ⟨⟨h.tree.sorted, h.tree.name_eq, h.tree.parent, h.tree.children⟩, h.self, h.other⟩

lemma ChangedAt.entry (h : ChangedAt R R' n c) (hx : x ∈ R'.names) :
    (x = n ∧ c = some ((R'.entries x).routes, (R'.entries x).nRoutesWithCaptureSet)) ∨
      (x ≠ n ∧ x ∈ R.names ∧ (R'.entries x).routes = (R.entries x).routes ∧
        (R'.entries x).nRoutesWithCaptureSet = (R.entries x).nRoutesWithCaptureSet) := by
  by_cases hxn : x = n
  · subst hxn
    exact .inl ⟨rfl, by rw [← h.self, content_of_mem hx]⟩
  have ho := h.other x hxn
  rw [content_of_mem hx] at ho
  have hm : x ∈ R.names := content_isSome.mp (by rw [← ho]; rfl)
  rw [content_of_mem hm] at ho
  obtain ⟨hr, hk⟩ := Prod.mk.inj (some.inj ho)
  exact .inr ⟨hxn, hm, hr, hk⟩

def Mapped (R : Rib C) : Prop :=
  ∀ x ∈ R.names, ∀ r ∈ (R.entries x).routes, x ∈ R.faceMap r.faceId

end Rib

namespace RibEntry

variable {C : Type} {e : RibEntry C} {route existing : Route}

lemma insertRoute_of_new (h : e.findRoute route = none) : e.insertRoute route =
    { e with
      nRoutesWithCaptureSet :=
        if route.isCapture then (e.nRoutesWithCaptureSet + 1) % 2 ^ 64
        else e.nRoutesWithCaptureSet
      routes := e.routes ++ [route] } := by
  simp only [insertRoute, h]

lemma eraseRoute_of_found (h : e.findRoute route = some existing) : e.eraseRoute route =
    { e with
      nRoutesWithCaptureSet :=
        if existing.isCapture then (e.nRoutesWithCaptureSet + (2 ^ 64 - 1)) % 2 ^ 64
        else e.nRoutesWithCaptureSet
      routes := e.routes.eraseP (·.compareFaceIdAndOrigin route) } := by
  simp only [eraseRoute, h]

@[simp] lemma eraseRoute_name : (e.eraseRoute route).name = e.name := by
  rw [eraseRoute]
  split <;> rfl

@[simp] lemma eraseRoute_children : (e.eraseRoute route).children = e.children := by
  rw [eraseRoute]
  split <;> rfl

@[simp] lemma eraseRoute_parent : (e.eraseRoute route).parent = e.parent := by
  rw [eraseRoute]
  split <;> rfl

lemma mem_of_findRoute (h : e.findRoute route = some existing) :
    existing ∈ e.routes ∧ existing.faceId = route.faceId ∧ existing.origin = route.origin := by
  refine ⟨mem_of_find?_eq_some h, ?_⟩
  have hc := find?_some h
  simpa [Route.compareFaceIdAndOrigin] using hc

lemma overwrite_append {l₁ l : List Route} (h : ∀ r ∈ l₁, r.compareFaceIdAndOrigin route = false) :
    overwrite route (l₁ ++ l) = l₁ ++ overwrite route l := by
  induction l₁ with
  | nil => rfl
  | cons r l₁ ih =>
    rw [cons_append, overwrite, if_neg (by simp [h r (by simp)]),
      ih fun w hw => h w (by simp [hw]), cons_append]

section

variable (h : e.findRoute route = some existing)
include h

lemma exists_of_findRoute :
    ∃ l₁ l₂, e.routes = l₁ ++ existing :: l₂ ∧
      (e.updateRoute route).routes = l₁ ++ route :: l₂ ∧
      (e.eraseRoute route).routes = l₁ ++ l₂ := by
  obtain ⟨hc, l₁, l₂, hl, hne⟩ := find?_eq_some_iff_append.mp h
  have hne : ∀ r ∈ l₁, r.compareFaceIdAndOrigin route = false := by simpa using hne
  refine ⟨l₁, l₂, hl, ?_, ?_⟩
  · have hself : overwrite route (existing :: l₂) = route :: l₂ := by
      obtain ⟨-, hf, ho⟩ := mem_of_findRoute h
      rw [overwrite, if_pos hc, hf, ho]
    rw [updateRoute, hl, overwrite_append hne, hself]
  · rw [eraseRoute_of_found h, hl, eraseP_append_right _ (by simpa using hne), eraseP_cons, hc]
    rfl

lemma getNRoutes_eraseRoute : e.getNRoutes = (e.eraseRoute route).getNRoutes + 1 := by
  obtain ⟨l₁, l₂, hl, -, her⟩ := exists_of_findRoute h
  rw [getNRoutes, getNRoutes, hl, her, length_append, length_append, length_cons]
  omega

lemma hasFaceId_of_findRoute : e.hasFaceId route.faceId = true := by
  obtain ⟨hmem, hface, -⟩ := mem_of_findRoute h
  exact List.any_eq_true.mpr ⟨existing, hmem, by simp [hface]⟩

end

lemma hasFaceId_updateRoute {g : FaceId} (h : e.findRoute route = some existing) :
    (e.updateRoute route).hasFaceId g = e.hasFaceId g := by
  obtain ⟨l₁, l₂, hl, hup, -⟩ := exists_of_findRoute h
  simp [hasFaceId, hl, hup, (mem_of_findRoute h).2.1]

lemma hasFaceId_eraseRoute {g : FaceId} (h : e.findRoute route = some existing)
    (hg : g ≠ route.faceId) : (e.eraseRoute route).hasFaceId g = e.hasFaceId g := by
  obtain ⟨l₁, l₂, hl, -, her⟩ := exists_of_findRoute h
  have hne : (route.faceId == g) = false := by simpa using Ne.symm hg
  simp [hasFaceId, hl, her, (mem_of_findRoute h).2.1, hne]

def Counted (e : RibEntry C) : Prop :=
  e.nRoutesWithCaptureSet = e.routes.countP (·.isCapture) ∧ e.nRoutesWithCaptureSet < 2 ^ 64

section

variable (h : e.Counted)
include h

lemma Counted.hasCapture_eq : e.hasCapture = e.routes.any (·.isCapture) := by
  rw [Bool.eq_iff_iff, hasCapture, h.1, decide_eq_true_eq, gt_iff_lt, countP_pos_iff,
    List.any_eq_true]

lemma Counted.insertRoute (hf : e.findRoute route = none)
    (hlt : route.isCapture = true → e.nRoutesWithCaptureSet + 1 < 2 ^ 64) :
    (e.insertRoute route).Counted := by
  rw [insertRoute_of_new hf]
  cases hc : route.isCapture with
  | false => simpa [Counted, hc] using h
  | true =>
    have hmod := Nat.mod_eq_of_lt (hlt hc)
    simp only [if_true, hmod]
    exact ⟨by simp [hc, h.1], hlt hc⟩

lemma Counted.le_length : e.nRoutesWithCaptureSet ≤ e.routes.length :=
  h.1 ▸ countP_le_length

lemma Counted.insertRoute_pos (hf : e.findRoute route = none)
    (hlen : e.routes.length + 1 < 2 ^ 64) :
    (e.insertRoute route).nRoutesWithCaptureSet > 0 ↔
      e.hasCapture = true ∨ route.isCapture = true := by
  have hroutes : (e.insertRoute route).routes = e.routes ++ [route] := by rw [insertRoute_of_new hf]
  rw [← decide_eq_true_iff (p := _ > 0)]
  change (e.insertRoute route).hasCapture = true ↔ _
  have hlt : e.nRoutesWithCaptureSet + 1 < 2 ^ 64 := by
    have := h.le_length
    omega
  rw [(h.insertRoute hf fun _ => hlt).hasCapture_eq, h.hasCapture_eq, hroutes]
  simp

lemma Counted.updateRoute (hf : e.findRoute route = some existing)
    (hcap : route.isCapture = existing.isCapture) : (e.updateRoute route).Counted := by
  obtain ⟨l₁, l₂, hl, hup, -⟩ := exists_of_findRoute hf
  refine ⟨?_, h.2⟩
  change e.nRoutesWithCaptureSet = _
  rw [h.1, hl, hup]
  simp [countP_cons, hcap]

lemma Counted.eraseRoute (hf : e.findRoute route = some existing) :
    (e.eraseRoute route).Counted := by
  obtain ⟨l₁, l₂, hl, -, her⟩ := exists_of_findRoute hf
  have hcount := h.1
  rw [hl, countP_append, countP_cons] at hcount
  have hlt := h.2
  refine ⟨?_, ?_⟩
  · rw [her, countP_append, eraseRoute_of_found hf]
    cases hc : existing.isCapture with
    | false => simpa [hc] using hcount
    | true =>
      simp only [hc, if_true] at hcount ⊢
      omega
  · rw [eraseRoute_of_found hf]
    dsimp only
    split
    · exact Nat.mod_lt _ (by decide)
    · exact hlt

end

end RibEntry

namespace Rib

variable {C : Type} [LinearOrder C] {R : Rib C} {n : Name C} {route existing : Route}

/-! The branches of `Rib::insert` and `Rib::erase`. -/

lemma find_of_mem (hn : n ∈ R.names) : R.find n = some (R.entries n) := if_pos hn

lemma find_of_not_mem (hn : n ∉ R.names) : R.find n = none := if_neg hn

lemma insert_of_newEntry (hn : n ∉ R.names) : R.insert n route = R.insertEntry n route := by
  rw [Rib.insert, find_of_not_mem hn]

def withRoute (R : Rib C) (n : Name C) (route : Route) : Rib C :=
  { R.setEntry n ((R.entries n).insertRoute route) with
    nItems := R.nItems + 1
    faceMap := update R.faceMap route.faceId (R.faceMap route.faceId ++ [n]) }

lemma insert_of_newRoute (hn : n ∈ R.names) (hf : (R.entries n).findRoute route = none) :
    R.insert n route = R.withRoute n route := by
  simp only [Rib.insert, find_of_mem hn, hf, withRoute]

lemma insert_of_found (hn : n ∈ R.names) (hf : (R.entries n).findRoute route = some existing) :
    R.insert n route = R.setEntry n ((R.entries n).updateRoute route) := by
  simp only [Rib.insert, find_of_mem hn, hf]

def withoutRoute (R : Rib C) (n : Name C) (route : Route) : Rib C :=
  { R.setEntry n ((R.entries n).eraseRoute route) with
    nItems := R.nItems - 1
    faceMap :=
      if ((R.entries n).eraseRoute route).hasFaceId route.faceId then R.faceMap
      else update R.faceMap route.faceId
        ((R.faceMap route.faceId).filter (· != n)) }

lemma erase_of_found (hn : n ∈ R.names)
    (hf : (R.entries n).findRoute route = some existing) : R.erase n route =
      if ((R.entries n).eraseRoute route).getNRoutes = 0 then (R.withoutRoute n route).eraseEntry n
      else R.withoutRoute n route := by
  simp only [Rib.erase, find_of_mem hn, hf, withoutRoute]

lemma erase_of_not_found (hf : n ∈ R.names → (R.entries n).findRoute route = none) :
    R.erase n route = R := by
  rw [Rib.erase]
  by_cases hn : n ∈ R.names
  · simp only [find_of_mem hn, hf hn]
  · simp only [find_of_not_mem hn]

end Rib

open Rib

namespace RibState

variable {C : Type} [LinearOrder C] {R : Rib C} {c : Option (List Route × ℕ)}

def hadRecord (R : Rib C) (x : Name C) (g : FaceId) : Bool :=
  decide (x ∈ R.names) && (R.entries x).hasInheritedRoute g

structure Applied (R R₁ : Rib C) (n : Name C) (c : Option (List Route × ℕ)) : Prop where
  changed : ChangedAt R R₁ n c
  inherited : ∀ x ∈ R₁.names, (R₁.entries x).inheritedRoutes =
    if x ∈ R.names then (R.entries x).inheritedRoutes else []
  mapped : Mapped R → Mapped R₁

variable {n : Name C} {route existing : Route}

lemma Applied.records {R₁ : Rib C} (h : Applied R R₁ n c) {x : Name C} (hx : x ∈ R₁.names)
    (g : FaceId) : (R₁.entries x).hasInheritedRoute g = hadRecord R x g := by
  rw [RibEntry.hasInheritedRoute, h.inherited x hx, hadRecord]
  by_cases hm : x ∈ R.names
  · simp [hm, RibEntry.hasInheritedRoute]
  · simp [hm]

lemma applied_insertEntry (h : R.TreeInv) (hn : n ∉ R.names) :
    Applied R (R.insertEntry n route) n (some ([route], if route.isCapture then 1 else 0)) := by
  obtain ⟨hins, -, -⟩ := insertEntry_spec h hn route
  refine ⟨changedAt_insertEntry h hn, fun x hx => ?_, fun hm x hx r hr => ?_⟩
  · rcases (hins.mem_names x).mp hx with rfl | hx
    · rw [if_neg hn]
      exact (RibEntry.mk.inj hins.data_self).2.2.2.2.1
    have hxn : x ≠ n := fun he => hn (he ▸ hx)
    rw [if_pos hx]
    exact (RibEntry.mk.inj (hins.data_other x hxn)).2.2.2.2.1
  rw [hins.faceMap]
  rcases (hins.mem_names x).mp hx with rfl | hx
  · have hroutes := (RibEntry.mk.inj hins.data_self).2.2.2.1
    obtain rfl : r = route := by simpa [hroutes] using hr
    simp
  have hxn : x ≠ n := fun he => hn (he ▸ hx)
  rw [(RibEntry.mk.inj (hins.data_other x hxn)).2.2.2.1] at hr
  have hmem := hm x hx r hr
  by_cases hf : r.faceId = route.faceId
  · rw [hf] at hmem ⊢
    simp [hmem]
  · rwa [update_of_ne hf]

lemma applied_setEntry (h : R.TreeInv) (hn : n ∈ R.names) {e : RibEntry C} {m : ℕ}
    {t : FaceId → List (Name C)} (hname : e.name = (R.entries n).name)
    (hp : e.parent = R.parentOf n) (hc : e.children = R.childrenOf n)
    (hi : e.inheritedRoutes = (R.entries n).inheritedRoutes)
    (hself : Mapped R → ∀ r ∈ e.routes, n ∈ t r.faceId)
    (hother : ∀ f x, x ≠ n → x ∈ R.faceMap f → x ∈ t f) :
    Applied R { R.setEntry n e with nItems := m, faceMap := t } n
      (some (e.routes, e.nRoutesWithCaptureSet)) := by
  refine ⟨(changedAt_setEntry h hn hname hp hc).tables m t, fun x hx => ?_, fun hm x hx r hr => ?_⟩
  · rw [if_pos (show x ∈ R.names from hx)]
    by_cases hxn : x = n
    · subst hxn
      simp [setEntry, hi]
    · simp [setEntry, hxn]
  · by_cases hxn : x = n
    · subst hxn
      exact hself hm r (by simpa [setEntry] using hr)
    · exact hother r.faceId x hxn (hm x hx r (by simpa [setEntry, hxn] using hr))

lemma Applied.eraseEntry {R₁ : Rib C} (h : Applied R R₁ n c) (hn : n ∈ R₁.names) :
    Applied R (R₁.eraseEntry n) n none := by
  have her := eraseEntry_spec h.changed.tree hn
  have hmem := her.mem_names h.changed.tree
  refine ⟨h.changed.trans (changedAt_eraseEntry h.changed.tree hn), fun x hx => ?_,
    fun hm x hx r hr => ?_⟩
  · rw [← h.inherited x ((hmem x).mp hx).2]
    exact (RibEntry.mk.inj (congrFun her.data x)).2.2.2.2.1
  rw [(RibEntry.mk.inj (congrFun her.data x)).2.2.2.1] at hr
  rw [her.faceMap]
  exact h.mapped hm x ((hmem x).mp hx).2 r hr

section

variable (h : R.TreeInv) (hn : n ∈ R.names)
include h hn

lemma applied_withoutRoute (hf : (R.entries n).findRoute route = some existing) :
    Applied R (R.withoutRoute n route) n (some (((R.entries n).eraseRoute route).routes,
      ((R.entries n).eraseRoute route).nRoutesWithCaptureSet)) := by
  have he := RibEntry.eraseRoute_of_found hf
  obtain ⟨l₁, l₂, hl, -, herase⟩ := RibEntry.exists_of_findRoute hf
  refine applied_setEntry h hn (by rw [he]) (by rw [he]; rfl) (by rw [he]; rfl) (by rw [he])
    (fun hm r hr => ?_) (fun f x hxn hx => ?_)
  · have hmem : n ∈ R.faceMap r.faceId := by
      refine hm n hn r ?_
      rw [herase] at hr
      rw [hl]
      simp only [mem_append, mem_cons] at hr ⊢
      tauto
    split
    · exact hmem
    rename_i hno
    have hne : r.faceId ≠ route.faceId := fun heq =>
      hno (List.any_eq_true.mpr ⟨r, hr, by simpa using heq⟩)
    rwa [update_of_ne hne]
  · split
    · exact hx
    by_cases hff : f = route.faceId
    · subst hff
      simp [hx, hxn]
    · rwa [update_of_ne hff]

lemma applied_erase (hf : (R.entries n).findRoute route = some existing) :
    Applied R (R.erase n route) n
      (if ((R.entries n).eraseRoute route).getNRoutes = 0 then none
      else some (((R.entries n).eraseRoute route).routes,
        ((R.entries n).eraseRoute route).nRoutesWithCaptureSet)) := by
  have hset := applied_withoutRoute h hn hf
  rw [erase_of_found hn hf]
  split
  · exact hset.eraseEntry hn
  · exact hset

lemma applied_newRoute (hf : (R.entries n).findRoute route = none) :
    Applied R (R.insert n route) n (some (((R.entries n).insertRoute route).routes,
      ((R.entries n).insertRoute route).nRoutesWithCaptureSet)) := by
  rw [insert_of_newRoute hn hf]
  have he := RibEntry.insertRoute_of_new hf
  refine applied_setEntry h hn (by rw [he]) (by rw [he]; rfl) (by rw [he]; rfl) (by rw [he])
    (fun hm r hr => ?_) (fun f x _ hx => ?_)
  · rw [he] at hr
    rcases mem_append.mp hr with hr | hr
    · have hmem := hm n hn r hr
      by_cases hff : r.faceId = route.faceId
      · rw [hff]
        simp
      · rwa [update_of_ne hff]
    · obtain rfl := mem_singleton.mp hr
      simp
  · by_cases hff : f = route.faceId
    · subst hff
      simp [hx]
    · rwa [update_of_ne hff]

lemma applied_updated (hf : (R.entries n).findRoute route = some existing) :
    Applied R (R.insert n route) n (some (((R.entries n).updateRoute route).routes,
      (R.entries n).nRoutesWithCaptureSet)) := by
  obtain ⟨l₁, l₂, hl, hup, -⟩ := RibEntry.exists_of_findRoute hf
  obtain ⟨hex, hface, -⟩ := RibEntry.mem_of_findRoute hf
  rw [insert_of_found hn hf]
  refine applied_setEntry (e := (R.entries n).updateRoute route) h hn rfl rfl rfl rfl
    (fun hm r hr => ?_) (fun f x _ hx => hx)
  rw [hup] at hr
  rcases mem_append.mp hr with hr | hr
  · exact hm n hn r (by simp [hl, hr])
  rcases mem_cons.mp hr with rfl | hr
  · exact hface ▸ hm n hn existing hex
  · exact hm n hn r (by simp [hl, hr])

end

def routeKey (r : Route) : FaceId × ℕ := (r.faceId, r.origin)

lemma compareFaceIdAndOrigin_iff {a b : Route} :
    a.compareFaceIdAndOrigin b = true ↔ routeKey a = routeKey b := by
  simp [Route.compareFaceIdAndOrigin, routeKey]

end RibState

namespace Rib

open RibState

variable {C : Type} [LinearOrder C] {R : Rib C} {op : Op C} {c : Option (List Route × ℕ)}

/-- What an operation leaves as the content of the entry it names. -/
inductive Outcome (R : Rib C) : Op C → Option (List Route × ℕ) → Prop
  | newEntry {n : Name C} {route : Route} (hn : n ∉ R.names) :
    Outcome R (.insert n route) (some ([route], if route.isCapture then 1 else 0))
  | newRoute {n : Name C} {route : Route} (hn : n ∈ R.names)
      (hf : (R.entries n).findRoute route = none) :
    Outcome R (.insert n route) (some (((R.entries n).insertRoute route).routes,
      ((R.entries n).insertRoute route).nRoutesWithCaptureSet))
  | updated {n : Name C} {route existing : Route} (hn : n ∈ R.names)
      (hf : (R.entries n).findRoute route = some existing) :
    Outcome R (.insert n route) (some (((R.entries n).updateRoute route).routes,
      (R.entries n).nRoutesWithCaptureSet))
  | erased {n : Name C} {route existing : Route} (hn : n ∈ R.names)
      (hf : (R.entries n).findRoute route = some existing) :
    Outcome R (.erase n route)
      (if ((R.entries n).eraseRoute route).getNRoutes = 0 then none
      else some (((R.entries n).eraseRoute route).routes,
        ((R.entries n).eraseRoute route).nRoutesWithCaptureSet))
  | nothing {n : Name C} {route : Route}
      (hf : n ∈ R.names → (R.entries n).findRoute route = none) :
    Outcome R (.erase n route) (R.content n)

lemma apply_insert_spec (h : R.TreeInv) (n : Name C) (route : Route) :
    ∃ c, Outcome R (.insert n route) c ∧ Applied R (R.insert n route) n c := by
  by_cases hn : n ∈ R.names
  · cases hf : (R.entries n).findRoute route with
    | none => exact ⟨_, .newRoute hn hf, applied_newRoute h hn hf⟩
    | some existing => exact ⟨_, .updated hn hf, applied_updated h hn hf⟩
  · refine ⟨_, .newEntry hn, ?_⟩
    rw [insert_of_newEntry hn]
    exact applied_insertEntry h hn

lemma apply_erase_spec (h : R.TreeInv) (n : Name C) (route : Route) :
    ∃ c, Outcome R (.erase n route) c ∧ Applied R (R.erase n route) n c := by
  by_cases hf : n ∈ R.names → (R.entries n).findRoute route = none
  · refine ⟨_, .nothing hf, ?_⟩
    rw [erase_of_not_found hf]
    exact ⟨⟨h, rfl, fun _ _ => rfl⟩, fun x hx => (if_pos hx).symm, id⟩
  · obtain ⟨hn, hne⟩ := Classical.not_imp.mp hf
    obtain ⟨existing, hex⟩ := ne_none_iff_exists'.mp hne
    exact ⟨_, .erased hn hex, applied_erase h hn hex⟩

lemma apply_spec (h : R.TreeInv) (op : Op C) :
    ∃ c, Outcome R op c ∧ Applied R (R.apply op) op.name c := by
  cases op with
  | insert n route => exact apply_insert_spec h n route
  | erase n route => exact apply_erase_spec h n route

lemma Outcome.unique (ho : Outcome R op c)
    (hu : op.name ∈ R.names → ((R.entries op.name).routes.map routeKey).Nodup) {rs : List Route}
    {k : ℕ} (hc : c = some (rs, k)) : (rs.map routeKey).Nodup := by
  cases ho with
  | newEntry =>
    cases hc
    simp
  | newRoute hn hf =>
    cases hc
    rw [RibEntry.insertRoute_of_new hf, map_append, map_singleton,
      nodup_append_comm, singleton_append, nodup_cons]
    refine ⟨fun hm => ?_, hu hn⟩
    obtain ⟨r, hr, hk⟩ := List.mem_map.mp hm
    exact find?_eq_none.mp hf r hr (compareFaceIdAndOrigin_iff.mpr hk)
  | @updated _ _ existing hn hf =>
    cases hc
    obtain ⟨l₁, l₂, hl, hup, -⟩ := RibEntry.exists_of_findRoute hf
    obtain ⟨-, hface, horig⟩ := RibEntry.mem_of_findRoute hf
    have hnodup := hu hn
    simp only [Op.name] at hnodup
    rw [hl, map_append, map_cons, routeKey, hface, horig] at hnodup
    rw [hup, map_append, map_cons]
    exact hnodup
  | erased hn hf =>
    split at hc
    · cases hc
    cases hc
    rw [RibEntry.eraseRoute_of_found hf]
    exact ((eraseP_sublist).map routeKey).nodup (hu hn)
  | nothing =>
    obtain ⟨hn, ⟨⟩⟩ := content_eq_some hc
    exact hu hn

end Rib

end NfdGateway
