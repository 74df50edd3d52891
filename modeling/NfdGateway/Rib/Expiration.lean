import NfdGateway.Rib.RouteLookup
import NfdGateway.Rib.Callbacks

/-! The expiration events of routes: when every route that expires has one event, due when it
expires, and is not removed before. -/
namespace NfdGateway

open Rib RibState List Option Function

variable {C : Type} [LinearOrder C] {nth : NthElement} {m m' : RibManager C}
  {item : UpdateQueueItem C} {items : List (UpdateQueueItem C)} {F : FibUpdater C} {u : RibUpdate C}
  {R R' : Rib C} {k : RouteId C}

namespace UpdateQueueItem

def Registers (item : UpdateQueueItem C) (k : RouteId C) : Prop :=
  item.update.action = .register ∧ item.update.routeId = k

def Removes (item : UpdateQueueItem C) (k : RouteId C) : Prop :=
  item.update.action ≠ .register ∧ item.update.routeId = k

def NeedsNoEvent (item : UpdateQueueItem C) (R : Rib C) : Prop :=
  item.update.action = .register ∧ item.expirationEvent = none ∨
    item.update.action ≠ .register ∧
      ∀ r, R.routeAt item.update.routeId = some r → r.expires = timePointMax

end UpdateQueueItem

def Expiration.routeId (e : Expiration C) : RouteId C := (e.name, routeKey e.route)

namespace RibManager

def Due (S : List (Expiration C)) (id : ℕ) (k : RouteId C) (time : ℕ) : Prop :=
  ∃ e ∈ S, e.id = id ∧ e.routeId = k ∧ e.due = time

/-- The routes of the RIB with their events `E`, the scheduled events `S`, and the batches `W` in
progress or waiting, with numbers below `N`. A route that expires has its event, unless a batch
that removes it is on the way; so has a route to be registered, unless a later batch removes it.
There are no other events. A batch of an expiration event finds a route that has expired. -/
structure Timed (R : Rib C) (E : RouteId C → Option ℕ) (S : List (Expiration C)) (now N : ℕ)
    (W : List (UpdateQueueItem C)) : Prop where
  clock : now < timePointMax
  tree : R.TreeInv
  unique : R.UniqueRoutes
  nodup : (W.map (·.id)).Nodup
  fresh : ∀ item ∈ W, item.id < N
  apart : ∀ k id, E k = some id → id < N ∧ ∀ item ∈ W, item.id ≠ id
  inj : ∀ k k' id, E k = some id → E k' = some id → k = k'
  once : (S.map (·.id)).Nodup
  absent : ∀ k, R.routeAt k = none → E k = none
  route : ∀ k r, R.routeAt k = some r → r.expires = timePointMax ∧ E k = none ∨
    r.expires < timePointMax ∧ ∃ id, E k = some id ∧
      (Due S id k r.expires ∨ ∃ item ∈ W, item.Removes k)
  registered : ∀ A item B, W = A ++ item :: B → item.update.action = .register →
    item.update.route.expires = timePointMax ∧ item.expirationEvent = none ∨
    item.update.route.expires < timePointMax ∧ item.expirationEvent = some item.id ∧
      (Due S item.id item.update.routeId item.update.route.expires ∨
        ∃ v ∈ B, v.Removes item.update.routeId)
  scheduled : ∀ e ∈ S, (E e.routeId = some e.id ∧ ∃ r, R.routeAt e.routeId = some r ∧
      r.expires = e.due) ∨
    ∃ item ∈ W, item.Registers e.routeId ∧ item.id = e.id ∧ item.expirationEvent = some e.id ∧
      item.update.route.expires = e.due
  expiring : ∀ A v B, W = A ++ v :: B → v.isExpiration = true → v.update.action ≠ .register ∧
    (∀ item ∈ A, item.Registers v.update.routeId → item.update.route.expires ≤ now) ∧
    ((∃ item ∈ A, item.Registers v.update.routeId) ∨
      ∀ r, R.routeAt v.update.routeId = some r → r.expires ≤ now)

variable {E : RouteId C → Option ℕ} {S : List (Expiration C)} {now N : ℕ}
  {W B A : List (UpdateQueueItem C)} {ev : Option ℕ} {new v : UpdateQueueItem C}

lemma Timed.quiet (h : Timed R E S now N []) :
    (∀ k r, R.routeAt k = some r → r.expires ≠ timePointMax →
      ∃ e, S.filter (·.routeId = k) = [e] ∧ e.due = r.expires) ∧
    ∀ e ∈ S, ∃ r, R.routeAt e.routeId = some r ∧ r.expires = e.due ∧ r.expires ≠ timePointMax := by
  have hattached : ∀ e ∈ S, E e.routeId = some e.id ∧ ∃ r, R.routeAt e.routeId = some r ∧
      r.expires = e.due := by
    intro e he
    rcases h.scheduled e he with hin | ⟨item, hitem, -⟩
    · exact hin
    · cases hitem
  constructor
  · intro k r hr hfinite
    rcases h.route k r hr with ⟨hmax, -⟩ | ⟨-, id, hid, hdue | ⟨item, hitem, -⟩⟩
    · exact absurd hmax hfinite
    · obtain ⟨e, he, heid, hek, hed⟩ := hdue
      refine ⟨e, ?_, hed⟩
      have hall : ∀ e' ∈ S, e'.routeId = k → e'.id = id := by
        intro e' he' hk'
        have hat := (hattached e' he').1
        rw [hk', hid] at hat
        exact (some.inj hat).symm
      have hmem : e ∈ S.filter (·.routeId = k) := mem_filter.mpr ⟨he, by simpa using hek⟩
      have hids : ∀ e' ∈ S.filter (·.routeId = k), e'.id = id := by
        intro e' he'
        obtain ⟨hS, hk'⟩ := mem_filter.mp he'
        exact hall e' hS (by simpa using hk')
      have hnodup : ((S.filter (·.routeId = k)).map (·.id)).Nodup :=
        (filter_sublist.map _).nodup h.once
      rcases hl : S.filter (·.routeId = k) with _ | ⟨a, _ | ⟨b, l⟩⟩
      · rw [hl] at hmem
        cases hmem
      · rw [hl, mem_singleton] at hmem
        rw [hmem]
        exact hl
      · rw [hl] at hids hnodup
        have hab : a.id = b.id := (hids a (by simp)).trans (hids b (by simp)).symm
        simp [hab] at hnodup
    · cases hitem
  · intro e he
    obtain ⟨hE, r, hr, hdue⟩ := hattached e he
    refine ⟨r, hr, hdue, fun hmax => ?_⟩
    rcases h.route _ r hr with ⟨-, hnone⟩ | ⟨hlt, -⟩
    · rw [hE] at hnone
      cases hnone
    · omega

lemma Timed.wait {time : ℕ} (h : Timed R E S now N W) (hclock : now + time < timePointMax) :
    Timed R E S (now + time) N W :=
  { h with
    clock := hclock
    expiring := by
      intro A v B hW hv
      obtain ⟨hact, hold, hlast⟩ := h.expiring A v B hW hv
      refine ⟨hact, fun w hw hreg => ?_, hlast.imp_right fun hr r hrr => ?_⟩
      · have hle := hold w hw hreg
        omega
      · have hle := hr r hrr
        omega }

def without (S : List (Expiration C)) : Option ℕ → List (Expiration C)
  | none => S
  | some id => S.filter (·.id != id)

omit [LinearOrder C] in
lemma mem_without {o : Option ℕ} {e : Expiration C} : e ∈ without S o ↔ e ∈ S ∧ o ≠ some e.id := by
  cases o with
  | none => simp [without]
  | some id => simp [without, eq_comm (a := id)]

omit [LinearOrder C] in
lemma without_sublist {o : Option ℕ} : (without S o).Sublist S := by
  cases o with
  | none => exact List.Sublist.refl _
  | some id => exact filter_sublist

omit [LinearOrder C] in
lemma Due.without {o : Option ℕ} {id time : ℕ} (h : Due S id k time) (ho : o ≠ some id) :
    Due (without S o) id k time := by
  obtain ⟨e, he, rfl, hk, ht⟩ := h
  exact ⟨e, mem_without.mpr ⟨he, ho⟩, rfl, hk, ht⟩

lemma Timed.route_without (h : Timed R E S now N W) {k k₀ : RouteId C} {r : Route} (hk : k ≠ k₀)
    (hr : R.routeAt k = some r) :
    r.expires = timePointMax ∧ E k = none ∨
    r.expires < timePointMax ∧ ∃ id, E k = some id ∧
      (Due (without S (E k₀)) id k r.expires ∨ ∃ item ∈ W, item.Removes k) := by
  rcases h.route k r hr with hmax | ⟨hlt, id, hid, hdue | hrem⟩
  · exact .inl hmax
  · exact .inr ⟨hlt, id, hid, .inl (hdue.without fun ho => hk (h.inj _ _ _ hid ho))⟩
  · exact .inr ⟨hlt, id, hid, .inr hrem⟩

lemma Timed.registered_without (h : Timed R E S now N W) (k₀ : RouteId C) (hW : W = A ++ v :: B)
    (hv : v.update.action = .register) :
    v.update.route.expires = timePointMax ∧ v.expirationEvent = none ∨
    v.update.route.expires < timePointMax ∧ v.expirationEvent = some v.id ∧
      (Due (without S (E k₀)) v.id v.update.routeId v.update.route.expires ∨
        ∃ w ∈ B, w.Removes v.update.routeId) := by
  rcases h.registered A v B hW hv with hmax | ⟨hlt, hev, hdue | hrem⟩
  · exact .inl hmax
  · have hmem : v ∈ W := by simp [hW]
    exact .inr ⟨hlt, hev, .inl (hdue.without fun ho => (h.apart _ _ ho).2 v hmem rfl)⟩
  · exact .inr ⟨hlt, hev, .inr hrem⟩

/-! The updates of a batch that removes a route are computed. -/

lemma Timed.computed (h : Timed R E S now N (item :: items)) (ha : item.update.action ≠ .register) :
    Timed R E (without S (E item.update.routeId)) now N (item :: items) where
  clock := h.clock
  tree := h.tree
  unique := h.unique
  nodup := h.nodup
  fresh := h.fresh
  apart := h.apart
  inj := h.inj
  once := (without_sublist.map _).nodup h.once
  absent := h.absent
  route k r hr := by
    by_cases hk : k = item.update.routeId
    · refine (h.route k r hr).imp_right fun ⟨hlt, id, hid, _⟩ => ⟨hlt, id, hid, .inr ?_⟩
      exact ⟨item, by simp, ha, hk.symm⟩
    · exact h.route_without hk hr
  registered _ _ _ hW hv := h.registered_without _ hW hv
  scheduled e he := h.scheduled e (mem_without.mp he).1
  expiring := h.expiring

/-! The batch succeeds. -/

lemma Timed.apart_update (h : Timed R E S now N (item :: items))
    (hev : ∀ id, ev = some id → item.id = id) (k' : RouteId C) (id : ℕ)
    (hid : update E k ev k' = some id) : id < N ∧ ∀ w ∈ items, w.id ≠ id := by
  by_cases hk : k' = k
  · rw [hk, update_self] at hid
    obtain rfl := hev id hid
    refine ⟨h.fresh item (by simp), fun w hw he => (nodup_cons.mp h.nodup).1 ?_⟩
    exact List.mem_map.mpr ⟨w, hw, he⟩
  · rw [update_of_ne hk] at hid
    obtain ⟨hlt, hne⟩ := h.apart k' id hid
    exact ⟨hlt, fun w hw => hne w (mem_cons_of_mem _ hw)⟩

lemma Timed.inj_update (h : Timed R E S now N (item :: items))
    (hev : ∀ id, ev = some id → item.id = id) (k₁ k₂ : RouteId C) (id : ℕ)
    (h₁ : update E k ev k₁ = some id) (h₂ : update E k ev k₂ = some id) :
    k₁ = k₂ := by
  have hnew : ∀ k, E k ≠ some item.id := fun k hE => (h.apart k _ hE).2 item (by simp) rfl
  by_cases hk₁ : k₁ = k <;> by_cases hk₂ : k₂ = k
  · rw [hk₁, hk₂]
  · rw [hk₁, update_self] at h₁
    rw [update_of_ne hk₂, ← hev id h₁] at h₂
    exact absurd h₂ (hnew k₂)
  · rw [hk₂, update_self] at h₂
    rw [update_of_ne hk₁, ← hev id h₂] at h₁
    exact absurd h₁ (hnew k₁)
  · rw [update_of_ne hk₁] at h₁
    rw [update_of_ne hk₂] at h₂
    exact h.inj k₁ k₂ id h₁ h₂

section Succeeds

variable (h : Timed R E S now N (item :: items)) (ht : R'.TreeInv) (hu : R'.UniqueRoutes)

include h ht hu

lemma Timed.succeeded {o : Option Route}
    (hcase : item.update.action = .register ∧ o = some item.update.route ∧
        ev = item.expirationEvent ∨ item.update.action ≠ .register ∧ o = none ∧ ev = none)
    (hR : ∀ k, R'.routeAt k = if k = item.update.routeId then o else R.routeAt k) :
    Timed R' (update E item.update.routeId ev) (without S (E item.update.routeId)) now N
      items := by
  have hev : ∀ id, ev = some id → item.id = id := by
    rintro id rfl
    rcases hcase with ⟨ha, -, hid⟩ | ⟨-, -, hid⟩
    · rcases h.registered [] item items rfl ha with ⟨-, hnone⟩ | ⟨-, hown, -⟩
      · cases hid.trans hnone
      · exact some.inj (hown.symm.trans hid.symm)
    · cases hid
  constructor
  case clock => exact h.clock
  case tree => exact ht
  case unique => exact hu
  case nodup => exact (nodup_cons.mp h.nodup).2
  case fresh => exact fun w hw => h.fresh w (mem_cons_of_mem _ hw)
  case once => exact (without_sublist.map _).nodup h.once
  case apart => exact h.apart_update hev
  case inj => exact h.inj_update hev
  case absent =>
    intro k hk
    rw [hR] at hk
    split at hk
    next hk' =>
      rw [hk', update_self]
      rcases hcase with ⟨-, ho, -⟩ | ⟨-, -, hnone⟩
      · cases ho.symm.trans hk
      · exact hnone
    next hk' =>
      rw [update_of_ne hk']
      exact h.absent k hk
  case route =>
    intro k r hr
    by_cases hk : k = item.update.routeId
    · subst hk
      rw [hR, if_pos rfl] at hr
      rw [update_self]
      rcases hcase with ⟨ha, ho, rfl⟩ | ⟨-, ho, -⟩
      · obtain rfl : item.update.route = r := some.inj (ho.symm.trans hr)
        refine (h.registered_without item.update.routeId rfl ha (A := [])).imp_right ?_
        exact fun ⟨hlt, hown, hdue⟩ => ⟨hlt, item.id, hown, hdue⟩
      · cases ho.symm.trans hr
    · rw [hR, if_neg hk] at hr
      rw [update_of_ne hk]
      refine (h.route_without hk hr).imp_right fun ⟨hlt, id, hid, hdue⟩ => ⟨hlt, id, hid, ?_⟩
      refine hdue.imp_right fun ⟨w, hw, hrem⟩ => ?_
      rcases mem_cons.mp hw with rfl | hw
      · exact absurd hrem.2.symm hk
      · exact ⟨w, hw, hrem⟩
  case registered =>
    intro A v B hW hv
    exact h.registered_without _ (A := item :: A) (by rw [hW]; rfl) hv
  case scheduled =>
    intro e he
    obtain ⟨heS, hne⟩ := mem_without.mp he
    rcases h.scheduled e heS with ⟨hE, r, hr, hdue⟩ | ⟨w, hw, hreg, hid, hown, hdue⟩
    · have hk : e.routeId ≠ item.update.routeId := fun hk => hne (hk ▸ hE)
      rw [update_of_ne hk, hR, if_neg hk]
      exact .inl ⟨hE, r, hr, hdue⟩
    rcases mem_cons.mp hw with rfl | hw
    · rcases hcase with ⟨-, rfl, rfl⟩ | ⟨ha, -⟩
      · rw [← hreg.2, update_self, hR, if_pos rfl]
        exact .inl ⟨hown, _, rfl, hdue⟩
      · exact absurd hreg.1 ha
    · exact .inr ⟨w, hw, hreg, hid, hown, hdue⟩
  case expiring =>
    intro A v B hW hv
    obtain ⟨hact, hold, hlast⟩ := h.expiring (item :: A) v B (by rw [hW]; rfl) hv
    refine ⟨hact, fun w hw => hold w (mem_cons_of_mem _ hw), ?_⟩
    by_cases hk : v.update.routeId = item.update.routeId
    · right
      intro r hr
      rw [hR, if_pos hk] at hr
      rcases hcase with ⟨ha, ho, -⟩ | ⟨-, ho, -⟩
      · obtain rfl : item.update.route = r := some.inj (ho.symm.trans hr)
        exact hold item (by simp) ⟨ha, hk.symm⟩
      · cases ho.symm.trans hr
    · rw [hR, if_neg hk]
      refine hlast.imp_left fun ⟨w, hw, hreg⟩ => ?_
      rcases mem_cons.mp hw with rfl | hw
      · exact absurd hreg.2.symm hk
      · exact ⟨w, hw, hreg⟩

end Succeeds

/-! The batch fails. -/

lemma Timed.failed (h : Timed R E S now N (item :: items)) (hno : item.NeedsNoEvent R) :
    Timed R E S now N items where
  clock := h.clock
  tree := h.tree
  unique := h.unique
  nodup := (nodup_cons.mp h.nodup).2
  fresh w hw := h.fresh w (mem_cons_of_mem _ hw)
  apart k id hid := ⟨(h.apart k id hid).1,
    fun w hw => (h.apart k id hid).2 w (mem_cons_of_mem _ hw)⟩
  inj := h.inj
  once := h.once
  absent := h.absent
  route k r hr := by
    rcases h.route k r hr with hmax | ⟨hlt, id, hid, hdue | ⟨w, hw, hrem⟩⟩
    · exact .inl hmax
    · exact .inr ⟨hlt, id, hid, .inl hdue⟩
    rcases mem_cons.mp hw with rfl | hw
    · rcases hno with ⟨hreg, -⟩ | ⟨-, hmax⟩
      · exact absurd hreg hrem.1
      · rw [hrem.2] at hmax
        exact absurd (hmax r hr) (Nat.ne_of_lt hlt)
    · exact .inr ⟨hlt, id, hid, .inr ⟨w, hw, hrem⟩⟩
  registered A v B hW hv := h.registered (item :: A) v B (by rw [hW]; rfl) hv
  scheduled e he := by
    rcases h.scheduled e he with hin | ⟨w, hw, hreg, hid, hev, hdue⟩
    · exact .inl hin
    rcases mem_cons.mp hw with rfl | hw
    · rcases hno with ⟨-, hnone⟩ | ⟨hrem, -⟩
      · rw [hnone] at hev
        cases hev
      · exact absurd hreg.1 hrem
    · exact .inr ⟨w, hw, hreg, hid, hev, hdue⟩
  expiring A v B hW hv := by
    obtain ⟨hact, hold, hlast⟩ := h.expiring (item :: A) v B (by rw [hW]; rfl) hv
    refine ⟨hact, fun w hw => hold w (mem_cons_of_mem _ hw), ?_⟩
    rcases hlast with ⟨w, hw, hreg⟩ | hr
    · rcases mem_cons.mp hw with rfl | hw
      · -- a route that does not expire has not expired
        have hle := hold w (by simp) hreg
        have hclock := h.clock
        rcases h.registered [] w items rfl hreg.1 with ⟨hmax, -⟩ | ⟨-, hev, -⟩
        · omega
        rcases hno with ⟨-, hnone⟩ | ⟨hrem, -⟩
        · rw [hnone] at hev
          cases hev
        · exact absurd hreg.1 hrem
      · exact .inl ⟨w, hw, hreg⟩
    · exact .inr hr

/-! A batch is added to the queue. -/

omit [LinearOrder C] in
lemma place_append (h : W ++ [new] = A ++ v :: B) :
    (∃ B', W = A ++ v :: B' ∧ B = B' ++ [new]) ∨ A = W ∧ v = new ∧ B = [] := by
  rcases eq_nil_or_concat B with rfl | ⟨B', b, rfl⟩
  · obtain ⟨rfl, hv⟩ := append_inj' h rfl
    exact .inr ⟨rfl, (List.cons.inj hv).1.symm, rfl⟩
  rw [concat_eq_append, ← cons_append, ← append_assoc] at h
  obtain ⟨rfl, hb⟩ := append_inj' h rfl
  obtain rfl := (List.cons.inj hb).1
  exact .inl ⟨B', rfl, concat_eq_append⟩

lemma Timed.add {S' : List (Expiration C)} (h : Timed R E S now N W)
    (hid : new.id = N) (hkept : ∀ e ∈ S, e ∈ S' ∨ new.Removes e.routeId)
    (honce : (S'.map (·.id)).Nodup)
    (hown : ∀ e ∈ S', e ∈ S ∨ new.Registers e.routeId ∧ new.id = e.id ∧
      new.expirationEvent = some e.id ∧ new.update.route.expires = e.due)
    (hreg : new.update.action = .register →
      new.update.route.expires = timePointMax ∧ new.expirationEvent = none ∨
      new.update.route.expires < timePointMax ∧ new.expirationEvent = some new.id ∧
        Due S' new.id new.update.routeId new.update.route.expires)
    (hexp : new.isExpiration = true → new.update.action ≠ .register ∧
      (∀ item ∈ W, item.Registers new.update.routeId → item.update.route.expires ≤ now) ∧
      ((∃ item ∈ W, item.Registers new.update.routeId) ∨
        ∀ r, R.routeAt new.update.routeId = some r → r.expires ≤ now)) :
    Timed R E S' now (N + 1) (W ++ [new]) := by
  have hdue : ∀ {id k time}, Due S id k time → Due S' id k time ∨ new.Removes k := by
    rintro id k time ⟨e, he, rfl, rfl, rfl⟩
    exact (hkept e he).imp_left fun he' => ⟨e, he', rfl, rfl, rfl⟩
  constructor
  case clock => exact h.clock
  case tree => exact h.tree
  case unique => exact h.unique
  case nodup =>
    rw [map_append, map_singleton, ← concat_eq_append, nodup_concat]
    refine ⟨fun hmem => ?_, h.nodup⟩
    obtain ⟨w, hw, he⟩ := List.mem_map.mp hmem
    have hlt := h.fresh w hw
    omega
  case fresh =>
    intro w hw
    rcases mem_append.mp hw with hw | hw
    · exact Nat.lt_succ_of_lt (h.fresh w hw)
    · obtain rfl := mem_singleton.mp hw
      omega
  case apart =>
    intro k id hE
    obtain ⟨hlt, hne⟩ := h.apart k id hE
    refine ⟨by omega, fun w hw => ?_⟩
    rcases mem_append.mp hw with hw | hw
    · exact hne w hw
    · obtain rfl := mem_singleton.mp hw
      omega
  case inj => exact h.inj
  case once => exact honce
  case absent => exact h.absent
  case route =>
    intro k r hr
    rcases h.route k r hr with hmax | ⟨hlt, id, hE, hd | ⟨w, hw, hrem⟩⟩
    · exact .inl hmax
    · refine .inr ⟨hlt, id, hE, (hdue hd).imp_right fun hrem => ?_⟩
      exact ⟨new, by simp, hrem⟩
    · exact .inr ⟨hlt, id, hE, .inr ⟨w, mem_append_left _ hw, hrem⟩⟩
  case registered =>
    intro A v B hW hv
    rcases place_append hW with ⟨B', rfl, rfl⟩ | ⟨rfl, rfl, rfl⟩
    · rcases h.registered A v B' rfl hv with hmax | ⟨hlt, hev, hd | ⟨w, hw, hrem⟩⟩
      · exact .inl hmax
      · refine .inr ⟨hlt, hev, (hdue hd).imp_right fun hrem => ?_⟩
        exact ⟨new, by simp, hrem⟩
      · exact .inr ⟨hlt, hev, .inr ⟨w, mem_append_left _ hw, hrem⟩⟩
    · exact (hreg hv).imp_right fun ⟨hlt, hev, hd⟩ => ⟨hlt, hev, .inl hd⟩
  case scheduled =>
    intro e he
    rcases hown e he with he | hnew
    · exact (h.scheduled e he).imp_right fun ⟨w, hw, hrest⟩ =>
        ⟨w, mem_append_left _ hw, hrest⟩
    · exact .inr ⟨new, by simp, hnew⟩
  case expiring =>
    intro A v B hW hv
    rcases place_append hW with ⟨B', rfl, rfl⟩ | ⟨rfl, rfl, rfl⟩
    · exact h.expiring A v B' rfl hv
    · exact hexp hv

end RibManager

end NfdGateway
