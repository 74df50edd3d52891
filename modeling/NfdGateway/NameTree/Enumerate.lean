import NfdGateway.Lib.Walk
import NfdGateway.NameTree.Refinement

/-! Enumerating all entries of the name tree while entries are created and erased. The iterator
goes by the nodes of the buckets, which a resize puts into another order. -/
namespace NfdGateway.NameTree

open List Option Transition

variable {C : Type} {hash : C → Hash} {T T' : NameTree C} {id : EntryId} {name : Name C}
  {parent : Option EntryId} {entrySelector : TreeEntry C → Bool}

/-- `operator++` of the iterator of `fullEnumerate`: the nodes behind the current one, then the
buckets behind that of its hash; `some none` is `end()`. An entry that is not linked has no node,
and bucket numbers have to fit an `int`. -/
def advance (T : NameTree C) (entrySelector : TreeEntry C → Bool) (id : EntryId) :
    Option (Option EntryId) :=
  if 2 ^ 31 ≤ T.nBuckets then none
  else
    (T.buckets.find? (id ∈ ·)).map fun chain =>
      let rest := Walk.rest chain id
      let newLocation := (T.entries (rest.getLastD id)).hash.toNat % T.nBuckets + 1
      (rest.find? fun x => entrySelector (T.entries x)).or
        ((T.buckets.drop newLocation).flatten.find? fun x => entrySelector (T.entries x))

lemma Inv.advance_eq (h : Inv hash T) (hn : T.nBuckets < 2 ^ 31) (hid : id ∈ T.linked) :
    T.advance entrySelector id =
      some ((Walk.rest T.linked id).find? fun x => entrySelector (T.entries x)) := by
  have hmem := h.placed.mem_flatten.mp hid
  have hb := Chained.lt_length_of_mem_chain hmem
  have hchain := Chained.chain_eq_getElem hb
  have hbefore : ∀ c ∈ T.buckets.take (T.index id), id ∉ c := by
    intro c hc hidc
    obtain ⟨i, hi, rfl⟩ := mem_take_iff_getElem.mp hc
    have hi' : i < T.buckets.length := by omega
    rw [← Chained.chain_eq_getElem hi'] at hidc
    have := h.placed i id hidc
    omega
  have hsplit : T.buckets = T.buckets.take (T.index id) ++
      Chained.chain T.buckets (T.index id) :: T.buckets.drop (T.index id + 1) := by
    rw [hchain, ← drop_eq_getElem_cons hb, take_append_drop]
  have hfind : T.buckets.find? (id ∈ ·) = some (Chained.chain T.buckets (T.index id)) := by
    rw [find?_eq_some_iff_append]
    exact ⟨by simpa using hmem, _, _, hsplit, by simpa using hbefore⟩
  obtain ⟨l₁, l₂, hl, hnot⟩ := eq_append_cons_of_mem hmem
  have hlinked : T.linked = ((T.buckets.take (T.index id)).flatten ++ l₁) ++
      id :: (l₂ ++ (T.buckets.drop (T.index id + 1)).flatten) := by
    conv_lhs => rw [linked, hsplit, hl]
    simp
  have hnot' : id ∉ (T.buckets.take (T.index id)).flatten ++ l₁ := by
    rw [mem_append, mem_flatten]
    rintro (⟨c, hc, hidc⟩ | hidl)
    · exact hbefore c hc hidc
    · exact hnot hidl
  have hlast : (T.entries (l₂.getLastD id)).hash.toNat % T.nBuckets = T.index id := by
    have hlm : l₂.getLastD id ∈ Chained.chain T.buckets (T.index id) := by
      rw [hl]
      exact mem_append_right _ (getLastD_mem_cons ..)
    exact h.placed _ _ hlm
  rw [advance, if_neg (Nat.not_le.mpr hn), hfind, map_some, hl, (Walk.sides_append hnot _).2,
    hlinked, (Walk.sides_append hnot' _).2, find?_append]
  simp only [hlast]

def enumerateFrom (T : NameTree C) (entrySelector : TreeEntry C → Bool) :
    ℕ → EntryId → Option (List EntryId)
  | 0, _ => none
  | fuel + 1, id => (T.advance entrySelector id).bind fun next =>
      match next with
      | none => some [id]
      | some y => (enumerateFrom T entrySelector fuel y).map (id :: ·)

def fullEnumerate (T : NameTree C) (entrySelector : TreeEntry C → Bool) : Option (List EntryId) :=
  match T.linked.find? fun x => entrySelector (T.entries x) with
  | none => some []
  | some id => T.enumerateFrom entrySelector T.linked.length id

lemma Inv.enumerateFrom_eq (h : Inv hash T) (hn : T.nBuckets < 2 ^ 31) (fuel : ℕ)
    (hid : id ∈ T.linked) (hfuel : (Walk.rest T.linked id).length < fuel) :
    T.enumerateFrom entrySelector fuel id =
      some (id :: (Walk.rest T.linked id).filter fun x => entrySelector (T.entries x)) := by
  induction fuel generalizing id with
  | zero => omega
  | succ fuel ih =>
    rw [enumerateFrom, h.advance_eq hn hid, bind_some]
    cases hf : (Walk.rest T.linked id).find? fun x => entrySelector (T.entries x) with
    | none =>
      have hnil := filter_eq_nil_iff.mpr (find?_eq_none.mp hf)
      simp only [hnil]
    | some y =>
      have hy := Walk.mem_of_mem_rest hid (mem_of_find?_eq_some hf)
      have hlt := Walk.length_rest_lt h.nodup hid hf
      obtain ⟨l₁, l₂, hrest, hfilter⟩ := Walk.filter_of_find? hf
      have hrest' := (Walk.sides_of_rest h.nodup hid hrest).2
      simp only [ih hy (by omega), hrest', map_some, hfilter]

lemma Inv.fullEnumerate_eq (h : Inv hash T) (hn : T.nBuckets < 2 ^ 31) :
    T.fullEnumerate entrySelector =
      some (T.linked.filter fun x => entrySelector (T.entries x)) := by
  unfold fullEnumerate
  cases hf : T.linked.find? fun x => entrySelector (T.entries x) with
  | none =>
    have hnil := filter_eq_nil_iff.mpr (find?_eq_none.mp hf)
    simp only [hnil]
  | some id =>
    have hid := mem_of_find?_eq_some hf
    obtain ⟨l₁, l₂, hl, hfilter⟩ := Walk.filter_of_find? hf
    have hnot : id ∉ l₁ := by
      have hnodup := h.nodup
      rw [hl] at hnodup
      exact fun hmem => (nodup_append.mp hnodup).2.2 id hmem id (.head _) rfl
    have hrest : Walk.rest T.linked id = l₂ := by rw [hl, (Walk.sides_append hnot _).2]
    have hlen : l₂.length < T.linked.length := by
      rw [hl, length_append, length_cons]
      omega
    simp only [h.enumerateFrom_eq hn _ hid (hrest.symm ▸ hlen), hrest, hfilter]

structure Extends (T T' : NameTree C) : Prop where
  linked : T.linked.Sublist T'.linked
  nBuckets : T'.nBuckets = T.nBuckets
  minNBuckets : T'.minNBuckets = T.minNBuckets
  fresh : T.fresh ≤ T'.fresh
  new : ∀ x ∈ T'.linked, x ∉ T.linked → T.fresh ≤ x

lemma Extends.refl (T : NameTree C) : Extends T T :=
  ⟨.refl _, rfl, rfl, Nat.le_refl _, fun _ hx hn => absurd hx hn⟩

lemma Extends.trans {T'' : NameTree C} (h : Extends T T') (h' : Extends T' T'') :
    Extends T T'' := by
  refine ⟨h.linked.trans h'.linked, h'.nBuckets.trans h.nBuckets,
    h'.minNBuckets.trans h.minNBuckets, h.fresh.trans h'.fresh, fun x hx hn => ?_⟩
  by_cases hx' : x ∈ T'.linked
  · exact h.new x hx' hn
  · exact h.fresh.trans (h'.new x hx hx')

lemma extends_adopt (h : Inv hash T) (hpar : T.HangsFrom name parent) :
    Extends T ((T.linkNew hash name).adopt T.fresh parent) := by
  have ha := added_adopt h hpar
  refine ⟨?_, ?_, by cases parent <;> rfl, by rw [ha.fresh]; exact Nat.le_succ _, ?_⟩
  · rw [NameTree.linked, NameTree.linked, adopt_buckets]
    exact Chained.sublist_push
  · rw [NameTree.nBuckets, adopt_buckets]
    exact Chained.length_push
  intro x hx hn
  rcases ha.mem_linked.mp hx with rfl | hx
  · exact Nat.le_refl _
  · exact absurd hx hn

lemma enlargeIfLoaded_of_le (h : T.nItems ≤ T.nBuckets / 2) : T.enlargeIfLoaded = T :=
  if_neg (Nat.not_lt.mpr h)

lemma nBuckets_shrinkIfSparse (hmin : 0 < T.minNBuckets) :
    T.shrinkIfSparse.minNBuckets = T.minNBuckets ∧ T.shrinkIfSparse.nBuckets ≤ T.nBuckets ∧
      (T.shrinkIfSparse.nBuckets = T.nBuckets → T.shrinkIfSparse = T) := by
  unfold shrinkIfSparse
  split
  next hsparse =>
    have hpos : 0 < T.nBuckets / 2 := hmin.trans_le hsparse.1
    rw [length_resize hpos]
    exact ⟨rfl, by omega, fun _ => by omega⟩
  · exact ⟨rfl, Nat.le_refl _, fun _ => rfl⟩

lemma eraseUpward_keeps (fuel : ℕ) {b : Bool} (h : Inv hash T) (hid : id ∈ T.linked)
    (hmin : 0 < T.minNBuckets) (he : eraseUpward fuel T id = some (T', b)) :
    T'.minNBuckets = T.minNBuckets ∧ T'.nBuckets ≤ T.nBuckets ∧
      (T'.nBuckets = T.nBuckets →
        Inv hash T' ∧ T'.linked.Sublist T.linked ∧ T'.fresh = T.fresh) := by
  induction fuel generalizing T T' id b with
  | zero => cases he
  | succ fuel ih =>
    rcases h.eraseUpward_succ hid fuel with ⟨-, hturn⟩ | ⟨hc, -, hturn⟩
    · obtain ⟨rfl, -⟩ : T = T' ∧ false = b := by simpa [hturn] using he
      exact ⟨rfl, Nat.le_refl _, fun _ => ⟨h, .refl _, rfl⟩⟩
    have hi₁ := h.dropLeaf hid hc
    have hn₁ : (T.dropLeaf id).nBuckets = T.nBuckets := nBuckets_dropLeaf
    have hm₁ : (T.dropLeaf id).minNBuckets = T.minNBuckets := minNBuckets_dropLeaf
    have hs₁ : (T.dropLeaf id).linked.Sublist T.linked := Chained.unlink_sublist
    have hf₁ : (T.dropLeaf id).fresh = T.fresh := fresh_dropLeaf
    rcases hturn with ⟨-, hturn⟩ | ⟨p, c, hpl₁, -, hturn⟩
    · obtain ⟨rfl, -⟩ : (T.dropLeaf id).shrinkIfSparse = T' ∧ true = b := by simpa [hturn] using he
      obtain ⟨hm, hle, hsame⟩ := nBuckets_shrinkIfSparse (hm₁ ▸ hmin)
      refine ⟨hm.trans hm₁, hn₁ ▸ hle, fun heq => ?_⟩
      rw [hsame (heq.trans hn₁.symm)]
      exact ⟨hi₁, hs₁, hf₁⟩
    rw [hturn] at he
    obtain ⟨⟨T₂, b₂⟩, he₂, hr⟩ := map_eq_some_iff.mp he
    obtain ⟨rfl, -⟩ : T₂.shrinkIfSparse = T' ∧ true = b := by simpa using hr
    obtain ⟨hm₂, hle₂, hsame₂⟩ := ih hi₁ hpl₁ (hm₁ ▸ hmin) he₂
    have hm₂ := hm₂.trans hm₁
    obtain ⟨hm, hle, hsame⟩ := nBuckets_shrinkIfSparse (hm₂ ▸ hmin)
    refine ⟨hm.trans hm₂, hle.trans (hn₁ ▸ hle₂), fun heq => ?_⟩
    obtain ⟨hi₂, hs₂, hf₂⟩ := hsame₂ (by omega)
    rw [hsame (by omega)]
    exact ⟨hi₂, hs₂.trans hs₁, hf₂.trans hf₁⟩

variable [DecidableEq C]

def RoomFor (T : NameTree C) (names : List (Name C)) : Prop :=
  T.nItems + T.missing names ≤ T.nBuckets / 2

lemma lookupStep_room {names : List (Name C)} (h : Inv hash T)
    (hpar : T.HangsFrom name parent) (hroom : T.RoomFor (name :: names)) :
    ∃ T' id, lookupStep hash (T, parent) name = (T', some id) ∧ Inv hash T' ∧ Extends T T' ∧
      id ∈ T'.linked ∧ (T'.entries id).pfx = name ∧ T'.RoomFor names := by
  unfold RoomFor at hroom
  by_cases hs : name ∈ T.storedNames
  · obtain ⟨id, hid, rfl⟩ := mem_storedNames.mp hs
    have hm : T.missing ((T.entries id).pfx :: names) = T.missing names := by simp [missing, hs]
    rw [hm] at hroom
    refine ⟨T, id, ?_, h, .refl T, hid, rfl, hroom⟩
    rw [h.lookupStep_stored hid, enlargeIfLoaded_of_le (by omega)]
  have hm : T.missing (name :: names) = T.missing names + 1 := by simp [missing, hs]
  have ha := added_adopt h hpar
  have hext := extends_adopt h hpar
  have hle := ha.missing_le names
  have hitems := ha.nItems
  have hb := hext.nBuckets
  refine ⟨_, T.fresh, ?_, h.adopt_new hs hpar, hext, ha.mem_linked.mpr (.inl rfl),
    by rw [ha.entry], ?_⟩
  · rw [lookupStep_new hs, enlargeIfLoaded_of_le (by rw [hb]; omega)]
  · unfold RoomFor
    omega

lemma lookup_room (h : Inv hash T) (hroom : T.RoomFor name.inits) :
    Inv hash (T.lookup hash name).1 ∧ Extends T (T.lookup hash name).1 := by
  obtain ⟨T', id, he, -, -, ⟨hi, -⟩, hx⟩ := lookup_rule
    (P := fun T names => Inv hash T ∧ T.RoomFor names) (R := fun T _ T' => Extends T T')
    (fun hP hpar => by
      obtain ⟨T', id, he, hi, hx, hid, hp, hroom'⟩ := lookupStep_room hP.1 hpar hP.2
      exact ⟨T', id, he, hid, hp, ⟨hi, hroom'⟩, hx⟩)
    (fun hx hx' => hx.trans hx') ⟨h, hroom⟩
  rw [he]
  exact ⟨hi, hx⟩

/-- The name tree and an iterator on it, with the entries returned so far and those that were
linked and selected all the time since the start. -/
structure Enumeration (C : Type) where
  tree : NameTree C
  cursor : Option EntryId
  returned : List EntryId
  steady : List EntryId

namespace Enumeration

variable {s t : Enumeration C}

omit [DecidableEq C] in
def start (T : NameTree C) (entrySelector : TreeEntry C → Bool) : Enumeration C where
  tree := T
  cursor := T.linked.find? fun x => entrySelector (T.entries x)
  returned := (T.linked.find? fun x => entrySelector (T.entries x)).toList
  steady := T.linked.filter fun x => entrySelector (T.entries x)

omit [DecidableEq C] in
def mutate (s : Enumeration C) (entrySelector : TreeEntry C → Bool) (T : NameTree C) :
    Enumeration C :=
  { s with
    tree := T
    steady := s.steady.filter fun x => x ∈ T.linked && entrySelector (T.entries x) }

omit [DecidableEq C] in
def move (s : Enumeration C) (c : Option EntryId) : Enumeration C :=
  { s with cursor := c, returned := s.returned ++ c.toList }

inductive Event (C : Type)
  | next
  | lookup (name : Name C)
  | eraseEntryIfEmpty (id : EntryId)

def step (hash : C → Hash) (entrySelector : TreeEntry C → Bool) (s : Enumeration C) :
    Event C → Option (Enumeration C)
  | .next => s.cursor.bind fun c => (s.tree.advance entrySelector c).map s.move
  | .lookup name => some (s.mutate entrySelector (s.tree.lookup hash name).1)
  | .eraseEntryIfEmpty id =>
    if id ∈ s.tree.linked then
      (s.tree.eraseEntryIfEmpty id).bind fun r =>
        if ∀ c ∈ s.cursor, c ∈ r.1.linked then some (s.mutate entrySelector r.1) else none
    else none

def Event.Ok (s : Enumeration C) : Event C → Prop
  | .next => True
  | .lookup name => s.tree.RoomFor name.inits
  | .eraseEntryIfEmpty id =>
    ∀ r, s.tree.eraseEntryIfEmpty id = some r → r.1.nBuckets = s.tree.nBuckets

structure Inv (hash : C → Hash) (entrySelector : TreeEntry C → Bool) (s : Enumeration C) : Prop
    where
  tree : NameTree.Inv hash s.tree
  minNBuckets : 0 < s.tree.minNBuckets
  nBuckets : s.tree.nBuckets < 2 ^ 31
  walk : Walk.Inv s.tree.linked s.cursor s.returned s.steady
  selected : ∀ x ∈ s.steady, entrySelector (s.tree.entries x) = true
  lt_fresh : ∀ x ∈ s.returned, x < s.tree.fresh

omit [DecidableEq C] in
lemma inv_start (h : NameTree.Inv hash T) (hmin : 0 < T.minNBuckets)
    (hn : T.nBuckets < 2 ^ 31) : Inv hash entrySelector (start T entrySelector) := by
  have hmem : ∀ x ∈ (start T entrySelector).steady,
      x ∈ T.linked ∧ entrySelector (T.entries x) = true := fun x hx => mem_filter.mp hx
  refine ⟨h, hmin, hn, Walk.inv_start h.nodup hmem, fun x hx => (hmem x hx).2, ?_⟩
  intro x hx
  exact h.lt_fresh x (mem_of_find?_eq_some (mem_toList.mp hx))

omit [DecidableEq C] in
lemma mem_mutate {x : EntryId} (hx : x ∈ (s.mutate entrySelector T).steady) :
    x ∈ s.steady ∧ x ∈ T.linked ∧ entrySelector (T.entries x) = true := by
  simpa [mutate] using hx

section

variable (h : Inv hash entrySelector s)
include h

lemma Inv.lookup (hroom : s.tree.RoomFor name.inits) :
    Inv hash entrySelector (s.mutate entrySelector (s.tree.lookup hash name).1) := by
  obtain ⟨hi, hx⟩ := lookup_room h.tree hroom
  refine ⟨hi, hx.minNBuckets ▸ h.minNBuckets, hx.nBuckets ▸ h.nBuckets, ?_, ?_, ?_⟩
  · refine h.walk.grow hx.linked hi.nodup ?_ fun x hmem => (mem_mutate hmem).1
    intro x hxl hnew hret
    exact absurd (hx.new x hxl hnew) (Nat.not_le.mpr (h.lt_fresh x hret))
  · exact fun x hmem => (mem_mutate hmem).2.2
  · exact fun x hret => (h.lt_fresh x hret).trans_le hx.fresh

omit [DecidableEq C] in
lemma Inv.eraseEntryIfEmpty (hid : id ∈ s.tree.linked)
    {b : Bool} (he : s.tree.eraseEntryIfEmpty id = some (T, b)) (hn : T.nBuckets = s.tree.nBuckets)
    (hc : ∀ c ∈ s.cursor, c ∈ T.linked) : Inv hash entrySelector (s.mutate entrySelector T) := by
  obtain ⟨hm, -, hkeeps⟩ := eraseUpward_keeps _ h.tree hid h.minNBuckets he
  obtain ⟨hi, hsub, hf⟩ := hkeeps hn
  refine ⟨hi, hm ▸ h.minNBuckets, hn ▸ h.nBuckets, ?_, fun x hmem => (mem_mutate hmem).2.2, ?_⟩
  · exact h.walk.shrink hsub hc fun x hmem =>
      ⟨(mem_mutate hmem).1, (mem_mutate hmem).2.1⟩
  intro x hret
  show x < T.fresh
  rw [hf]
  exact h.lt_fresh x hret

lemma Inv.next {c : EntryId} (hc : s.cursor = some c) :
    ∃ t, s.step hash entrySelector .next = some t ∧ Inv hash entrySelector t ∧ t.tree = s.tree ∧
      t.cursor = (Walk.rest s.tree.linked c).find? fun x => entrySelector (s.tree.entries x) := by
  have hcl := (h.walk.cursor_mem c hc).1
  have hadv : s.tree.advance entrySelector c = some _ := h.tree.advance_eq h.nBuckets hcl
  refine ⟨s.move _, ?_, ?_, rfl, rfl⟩
  · simp only [Enumeration.step, hc, bind_some, hadv, map_some]
  have hwalk := h.walk
  rw [hc] at hwalk
  refine ⟨h.tree, h.minNBuckets, h.nBuckets, hwalk.next h.selected, h.selected, ?_⟩
  intro x hx
  rcases mem_append.mp hx with hx | hx
  · exact h.lt_fresh x hx
  · have hxr := mem_of_find?_eq_some (mem_toList.mp hx)
    exact h.tree.lt_fresh x (Walk.mem_of_mem_rest hcl hxr)

lemma Inv.step {ev : Event C} (hok : ev.Ok s)
    (hs : s.step hash entrySelector ev = some t) : Inv hash entrySelector t := by
  cases ev with
  | next =>
    obtain ⟨c, hc, -⟩ := bind_eq_some_iff.mp hs
    obtain ⟨t', ht, hinv, -⟩ := h.next hc
    rw [hs] at ht
    exact some.inj ht ▸ hinv
  | lookup name =>
    cases hs
    exact h.lookup hok
  | eraseEntryIfEmpty id =>
    simp only [Enumeration.step] at hs
    split at hs
    next hid =>
      obtain ⟨r, hr, hs⟩ := bind_eq_some_iff.mp hs
      split at hs
      next hc =>
        cases hs
        exact h.eraseEntryIfEmpty hid hr (hok r hr) hc
      · cases hs
    · cases hs

lemma Inv.ends :
    ∃ n t, run (Enumeration.step hash entrySelector) s (List.replicate n .next) =
      some t ∧ t.cursor = none := by
  cases hc : s.cursor with
  | none => exact ⟨0, s, rfl, hc⟩
  | some c =>
    generalize hm : (Walk.rest s.tree.linked c).length = m
    induction m using Nat.strong_induction_on generalizing s c with
    | _ m ih =>
      have hcl := (h.walk.cursor_mem c hc).1
      obtain ⟨t, ht, hinv, htree, hcur⟩ := h.next hc
      cases hc' : t.cursor with
      | none => exact ⟨1, t, by simp [run, ht], hc'⟩
      | some c' =>
        rw [hcur] at hc'
        have hlt := Walk.length_rest_lt h.tree.nodup hcl hc'
        obtain ⟨n, u, hu, hend⟩ := ih _ (hm ▸ hlt) hinv c' (hcur.trans hc') (by rw [htree])
        exact ⟨n + 1, u, by simp [replicate_succ, run, ht, hu], hend⟩

end

/-- In every enumeration of a sound name tree during which no call resizes the hash table: no
entry is returned twice, the entry that is returned is linked, every entry that was linked and
selected all the time has been returned at the end, and the end is reached once the calls stop. -/
theorem enumerated_of_run (h : NameTree.Inv hash T) (hmin : 0 < T.minNBuckets)
    (hn : T.nBuckets < 2 ^ 31) (hr : Reach (step hash entrySelector)
      (fun s ev => ev.Ok s) (start T entrySelector) s) :
    s.returned.Nodup ∧
    (∀ c, s.cursor = some c → c ∈ s.tree.linked) ∧
    (s.cursor = none → ∀ x ∈ s.steady, s.returned.count x = 1) ∧
    ∃ n t, run (step hash entrySelector) s (List.replicate n .next) = some t ∧
      t.cursor = none := by
  have hinv : Inv hash entrySelector s :=
    hr.invariant (inv_start h hmin hn) fun _ _ _ hi hok hs => hi.step hok hs
  refine ⟨hinv.walk.returned_nodup, fun c hc => (hinv.walk.cursor_mem c hc).1, ?_, hinv.ends⟩
  intro hc x hx
  exact count_eq_one_of_mem hinv.walk.returned_nodup (hinv.walk.done hc x hx)

def threeNames : NameTree ℕ :=
  (((new 8).lookup numberHash [9]).1.lookup numberHash [2]).1

/-- While the iterator points to `/9`, a lookup of `/3/4` enlarges the table to sixteen buckets:
`/9` is in bucket 9 then, and `/2` in bucket 2 is left out. -/
theorem entry_skipped :
    ∃ s, run (step numberHash fun _ => true) (start threeNames fun _ => true)
        [.next, .lookup [3, 4], .next] = some s ∧ s.cursor = none ∧
      ∃ x ∈ s.steady, (s.tree.entries x).pfx = [2] ∧ x ∉ s.returned :=
  ⟨_, rfl, by decide, 2, by decide, by decide, by decide⟩

lemma inv_threeNames : NameTree.Inv numberHash threeNames :=
  (lookup_room (lookup_room (inv_new (by decide)) (by unfold RoomFor; decide)).1
    (by unfold RoomFor; decide)).1

/-- With room for it, a name looked up on the way is returned as well. -/
theorem enumerated_of_run_three_names :
    ∃ s, run (step numberHash fun _ => true) (start threeNames fun _ => true)
        [.next, .lookup [3], .next, .next, .next] = some s ∧
      ∀ x ∈ s.steady, s.returned.count x = 1 := by
  have hroom : threeNames.RoomFor [[], [3]] := by
    unfold RoomFor
    decide
  have hreach : Reach (step numberHash fun _ => true) (fun s ev => ev.Ok s)
      (start threeNames fun _ => true) _ :=
    .step (a := .next) (.step (a := .next) (.step (a := .next) (.step (a := .lookup [3])
      (.step (a := .next) .init trivial rfl) hroom rfl) trivial rfl) trivial rfl) trivial rfl
  exact ⟨_, rfl, (enumerated_of_run inv_threeNames (by decide) (by decide) hreach).2.2.1 rfl⟩

end Enumeration

end NfdGateway.NameTree
