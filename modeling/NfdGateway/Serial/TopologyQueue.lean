import NfdGateway.Lib.Transition

/-! The ring queue between the thread that reads the serial port and the one that rebuilds the
topology. There is no lock: a step is one access to a shared variable, and the threads interleave
in any way. -/
namespace NfdGateway.Serial.TopologyQueue

open List Option Function Transition

def ptrMax : ℕ := 128

variable {M : Type}

/-- Where the reader of the serial port is. The two writes of `queue[top++] = recv_topo` may come
in either order. -/
inductive ReaderPC (M : Type)
  | idle
  | test (m : M)
  | enqueue (m : M)
  /-- The slot is written, `top` is not. -/
  | advance (m : M)
  /-- `top` is written, the slot is not. -/
  | writeAt (i : ℕ) (m : M)
  | wrap
  | post

/-- Where the topology thread is. The slot of `queue[bottom++]` may be read before or after
`bottom` is written. -/
inductive TopologyPC (M : Type)
  | wait
  | take
  | advance (m : M)
  | readAt (i : ℕ)
  | wrap

/-- The shared variables and both threads, with the messages that were enqueued, taken and
dropped so far. -/
structure State (M : Type) where
  queue : ℕ → Option M := fun _ => none
  top : ℕ := 0
  bottom : ℕ := 0
  sem : ℕ := 0
  reader : ReaderPC M := .idle
  topology : TopologyPC M := .wait
  enqueued : List M := []
  taken : List M := []
  dropped : List M := []

def State.hasRoom (s : State M) : Bool := s.top ≠ (s.bottom + ptrMax - 1) % ptrMax

def wrapped (i : ℕ) : ℕ := if ptrMax ≤ i then i % ptrMax else i

def readerStep (s : State M) (slotFirst : Bool) : Option (State M) :=
  match s.reader with
  | .idle => none
  | .test m =>
    if s.hasRoom then some { s with reader := .enqueue m }
    else some { s with reader := .idle, dropped := s.dropped ++ [m] }
  | .enqueue m =>
    if slotFirst then
      some { s with queue := update s.queue s.top (some m), reader := .advance m }
    else some { s with top := (s.top + 1) % 2 ^ 16, reader := .writeAt s.top m }
  | .advance m =>
    some { s with
      top := (s.top + 1) % 2 ^ 16, reader := .wrap, enqueued := s.enqueued ++ [m] }
  | .writeAt i m =>
    some { s with
      queue := update s.queue i (some m), reader := .wrap
      enqueued := s.enqueued ++ [m] }
  | .wrap => some { s with top := wrapped s.top, reader := .post }
  | .post => some { s with sem := s.sem + 1, reader := .idle }

def topologyStep (s : State M) (slotFirst : Bool) : Option (State M) :=
  match s.topology with
  | .wait => if 0 < s.sem then some { s with sem := s.sem - 1, topology := .take } else none
  | .take =>
    if slotFirst then (s.queue s.bottom).map fun m => { s with topology := .advance m }
    else some { s with bottom := (s.bottom + 1) % 2 ^ 16, topology := .readAt s.bottom }
  | .advance m =>
    some { s with
      bottom := (s.bottom + 1) % 2 ^ 16, topology := .wrap, taken := s.taken ++ [m] }
  | .readAt i => (s.queue i).map fun m =>
      { s with topology := .wrap, taken := s.taken ++ [m] }
  | .wrap => some { s with bottom := wrapped s.bottom, topology := .wait }

inductive Action (M : Type)
  | receive (m : M)
  | reader (slotFirst : Bool)
  | topology (slotFirst : Bool)

def step (s : State M) : Action M → Option (State M)
  | .receive m =>
    match s.reader with
    | .idle => some { s with reader := .test m }
    | _ => none
  | .reader slotFirst => readerStep s slotFirst
  | .topology slotFirst => topologyStep s slotFirst

def State.Accesses (s : State M) (i : ℕ) : Prop :=
  (∃ m, s.reader = .enqueue m ∧ i = s.top) ∨ (∃ m, s.reader = .writeAt i m) ∨
    (s.topology = .take ∧ i = s.bottom) ∨ s.topology = .readAt i

def ReaderPC.pending : ReaderPC M → ℕ
  | .enqueue _ | .advance _ | .writeAt _ _ => 1
  | _ => 0

def ReaderPC.unposted : ReaderPC M → ℕ
  | .wrap | .post => 1
  | _ => 0

def TopologyPC.taking : TopologyPC M → ℕ
  | .take | .advance _ | .readAt _ => 1
  | _ => 0

def TopologyPC.behind : TopologyPC M → ℕ
  | .readAt _ => 1
  | _ => 0

def TopAt (s : State M) : Prop :=
  match s.reader with
  | .advance m =>
    s.top = s.enqueued.length % 128 ∧ s.queue (s.enqueued.length % 128) = some m
  | .writeAt i _ => i = s.enqueued.length % 128 ∧ s.top = i + 1
  | .wrap => 0 < s.enqueued.length ∧ s.top = (s.enqueued.length - 1) % 128 + 1
  | _ => s.top = s.enqueued.length % 128

def BottomAt (s : State M) : Prop :=
  match s.topology with
  | .advance m => s.bottom = s.taken.length % 128 ∧ s.enqueued[s.taken.length]? = some m
  | .readAt i => i = s.taken.length % 128 ∧ s.bottom = i + 1
  | .wrap => 0 < s.taken.length ∧ s.bottom = (s.taken.length - 1) % 128 + 1
  | _ => s.bottom = s.taken.length % 128

structure Inv (s : State M) : Prop where
  taken : s.taken <+: s.enqueued
  slots : ∀ k, s.taken.length ≤ k → k < s.enqueued.length →
    s.queue (k % 128) = s.enqueued[k]?
  room : s.enqueued.length + s.reader.pending ≤ s.taken.length + 127 + s.topology.behind
  count : s.sem + s.topology.taking + s.taken.length + s.reader.unposted = s.enqueued.length
  top : TopAt s
  bottom : BottomAt s

variable {s t : State M} {slotFirst : Bool}

lemma inv_init : Inv ({} : State M) :=
  ⟨by simp, by simp, by simp [ReaderPC.pending], rfl, rfl, rfl⟩

lemma wrapped_succ (n : ℕ) : wrapped (n % 128 + 1) = (n + 1) % 128 := by
  unfold wrapped ptrMax
  split <;> omega

lemma bottom_before (h : BottomAt s) :
    (s.bottom + ptrMax - 1) % ptrMax = (s.taken.length + 127 + s.topology.behind) % 128 := by
  unfold BottomAt at h
  unfold ptrMax
  cases ht : s.topology <;> simp only [ht] at h <;> simp only [TopologyPC.behind] <;> omega

lemma Inv.hasRoom_iff (h : Inv s) {m : M} (hr : s.reader = .test m) :
    s.hasRoom = true ↔
      s.enqueued.length < s.taken.length + 127 + s.topology.behind := by
  have hroom := h.room
  have hcount := h.count
  have htop := h.top
  simp only [TopAt, hr] at htop
  simp only [hr, ReaderPC.pending, ReaderPC.unposted] at hroom hcount
  rw [State.hasRoom, decide_eq_true_eq, bottom_before h.bottom, htop]
  have hbt : s.topology.behind ≤ s.topology.taking := by
    cases s.topology <;> simp [TopologyPC.behind, TopologyPC.taking]
  omega

lemma BottomAt.mono (h : BottomAt s) (hb : t.bottom = s.bottom) (hp : t.topology = s.topology)
    (ht : t.taken = s.taken) (he : s.enqueued <+: t.enqueued) : BottomAt t := by
  unfold BottomAt at h ⊢
  rw [hp, hb, ht]
  cases hc : s.topology with
  | advance m =>
    rw [hc] at h
    obtain ⟨l, hl⟩ := he
    have hlt := (List.getElem?_eq_some_iff.mp h.2).1
    refine ⟨h.1, ?_⟩
    rw [← hl, getElem?_append_left hlt]
    exact h.2
  | wait | take | readAt | wrap =>
    rw [hc] at h
    exact h

section

variable (h : Inv s)
include h

lemma Inv.slots_update (hp : s.reader.pending = 1) (m : M) {k : ℕ}
    (hk : s.taken.length ≤ k) (hlt : k < s.enqueued.length) :
    update s.queue (s.enqueued.length % 128) (some m) (k % 128) = s.enqueued[k]? := by
  have hroom := h.room
  have hb : s.topology.behind ≤ 1 := by cases s.topology <;> simp [TopologyPC.behind]
  have hne : k % 128 ≠ s.enqueued.length % 128 := by omega
  rw [update_of_ne hne]
  exact h.slots k hk hlt

lemma Inv.enqueued (hp : s.reader.pending = 1) {q : ℕ → Option M} {m : M}
    (hold : ∀ k, s.taken.length ≤ k → k < s.enqueued.length → q (k % 128) = s.enqueued[k]?)
    (hnew : q (s.enqueued.length % 128) = some m) :
    Inv { s with
      queue := q, top := s.enqueued.length % 128 + 1, reader := .wrap
      enqueued := s.enqueued ++ [m] } := by
  have hu : s.reader.unposted = 0 := by
    cases hr : s.reader <;> simp_all [ReaderPC.pending, ReaderPC.unposted]
  have hroom := h.room
  have hcount := h.count
  refine ⟨h.taken.trans (prefix_append _ _), ?_, ?_, ?_, ?_, ?_⟩
  · intro k hk hlt
    simp only [length_append, length_singleton] at hlt
    rcases Nat.lt_succ_iff_lt_or_eq.mp hlt with hlt | rfl
    · rw [getElem?_append_left hlt]
      exact hold k hk hlt
    · rw [getElem?_concat_length]
      exact hnew
  · simp only [length_append, length_singleton, ReaderPC.pending]
    omega
  · simp only [length_append, length_singleton, ReaderPC.unposted]
    omega
  · simp [TopAt]
  · exact h.bottom.mono rfl rfl rfl (prefix_append _ _)

lemma Inv.readerStep (hs : readerStep s slotFirst = some t) : Inv t := by
  have htop := h.top
  have hroom := h.room
  have hcount := h.count
  unfold TopologyQueue.readerStep at hs
  unfold TopAt at htop
  cases hr : s.reader with
  | idle => simp [hr] at hs
  | test m =>
    simp only [hr, ReaderPC.pending, ReaderPC.unposted] at hs htop hroom hcount
    split at hs
    next hpass =>
      cases hs
      have hlt := (h.hasRoom_iff hr).mp hpass
      exact ⟨h.taken, h.slots, hlt, hcount, htop, h.bottom⟩
    · cases hs
      exact ⟨h.taken, h.slots, hroom, hcount, htop, h.bottom⟩
  | enqueue m =>
    have hp : s.reader.pending = 1 := by rw [hr]; rfl
    simp only [hr, ReaderPC.pending, ReaderPC.unposted] at hs htop hroom hcount
    cases slotFirst with
    | true =>
      cases hs
      refine ⟨h.taken, ?_, hroom, hcount, ?_, h.bottom⟩
      · intro k hk hlt
        rw [htop]
        exact h.slots_update hp m hk hlt
      · exact ⟨htop, by simp [htop]⟩
    | false =>
      cases hs
      refine ⟨h.taken, h.slots, hroom, hcount, ⟨htop, ?_⟩, h.bottom⟩
      show (s.top + 1) % 2 ^ 16 = s.top + 1
      omega
  | advance m =>
    have hp : s.reader.pending = 1 := by rw [hr]; rfl
    simp only [hr] at hs htop
    cases hs
    have he : (s.top + 1) % 2 ^ 16 = s.enqueued.length % 128 + 1 := by omega
    rw [he]
    exact h.enqueued hp h.slots htop.2
  | writeAt i m =>
    have hp : s.reader.pending = 1 := by rw [hr]; rfl
    simp only [hr] at hs htop
    cases hs
    have hnext := h.enqueued (q := update s.queue i (some m)) (m := m) hp
      (fun k hk hlt => by rw [htop.1]; exact h.slots_update hp m hk hlt) (by simp [htop.1])
    rwa [← htop.1, ← htop.2] at hnext
  | wrap =>
    simp only [hr, ReaderPC.pending, ReaderPC.unposted] at hs htop hroom hcount
    cases hs
    refine ⟨h.taken, h.slots, hroom, hcount, ?_, h.bottom⟩
    show wrapped s.top = s.enqueued.length % 128
    rw [htop.2, wrapped_succ, Nat.sub_add_cancel htop.1]
  | post =>
    simp only [hr, ReaderPC.pending, ReaderPC.unposted] at hs htop hroom hcount
    cases hs
    refine ⟨h.taken, h.slots, hroom, ?_, htop, h.bottom⟩
    simp only [ReaderPC.unposted]
    omega

lemma Inv.next_slot (ht : s.topology.taking = 1) :
    ∃ m, s.enqueued[s.taken.length]? = some m ∧ s.queue (s.taken.length % 128) = some m := by
  have hcount := h.count
  have hlt : s.taken.length < s.enqueued.length := by omega
  have hm := getElem?_eq_getElem hlt
  exact ⟨_, hm, (h.slots _ (Nat.le_refl _) hlt).trans hm⟩

lemma Inv.took (ht : s.topology.taking = 1) {m : M} (hm : s.enqueued[s.taken.length]? = some m) :
    Inv { s with
      bottom := s.taken.length % 128 + 1, topology := .wrap, taken := s.taken ++ [m] } := by
  have hroom := h.room
  have hcount := h.count
  have hb : s.topology.behind ≤ 1 := by cases s.topology <;> simp [TopologyPC.behind]
  refine ⟨?_, ?_, ?_, ?_, h.top, ?_⟩
  · obtain ⟨l, hl⟩ := h.taken
    rw [← hl, getElem?_append_right (Nat.le_refl _), Nat.sub_self] at hm
    obtain ⟨r, rfl⟩ : ∃ r, l = m :: r := by
      cases l with
      | nil => simp at hm
      | cons x r => exact ⟨r, by simpa using hm⟩
    exact ⟨r, by simpa using hl⟩
  · intro k hk
    rw [length_append, length_singleton] at hk
    exact h.slots k (by omega)
  · simp only [length_append, length_singleton, TopologyPC.behind]
    omega
  · simp only [length_append, length_singleton, TopologyPC.taking]
    omega
  · simp [BottomAt]

lemma Inv.topologyStep (hs : topologyStep s slotFirst = some t) : Inv t := by
  have hbottom := h.bottom
  have hroom := h.room
  have hcount := h.count
  unfold TopologyQueue.topologyStep at hs
  unfold BottomAt at hbottom
  cases hp : s.topology with
  | wait =>
    simp only [hp, TopologyPC.taking, TopologyPC.behind] at hs hbottom hroom hcount
    split at hs
    · cases hs
      refine ⟨h.taken, h.slots, hroom, ?_, h.top, hbottom⟩
      simp only [TopologyPC.taking]
      omega
    · cases hs
  | take =>
    obtain ⟨m, hm, hslot⟩ := h.next_slot (by rw [hp]; rfl)
    simp only [hp, TopologyPC.taking, TopologyPC.behind] at hs hbottom hroom hcount
    cases slotFirst with
    | true =>
      rw [if_pos rfl, show s.queue s.bottom = some m by rw [hbottom, hslot]] at hs
      cases hs
      exact ⟨h.taken, h.slots, hroom, hcount, h.top, hbottom, hm⟩
    | false =>
      cases hs
      refine ⟨h.taken, h.slots, Nat.le_succ_of_le hroom, hcount, h.top, hbottom, ?_⟩
      show (s.bottom + 1) % 2 ^ 16 = s.bottom + 1
      omega
  | advance m =>
    simp only [hp] at hs hbottom
    cases hs
    have he : (s.bottom + 1) % 2 ^ 16 = s.taken.length % 128 + 1 := by omega
    rw [he]
    exact h.took (by rw [hp]; rfl) hbottom.2
  | readAt i =>
    obtain ⟨m, hm, hslot⟩ := h.next_slot (by rw [hp]; rfl)
    simp only [hp] at hs hbottom
    rw [hbottom.1, hslot] at hs
    cases hs
    have hnext := h.took (by rw [hp]; rfl) hm
    rwa [← hbottom.1, ← hbottom.2] at hnext
  | wrap =>
    simp only [hp, TopologyPC.taking, TopologyPC.behind] at hs hbottom hroom hcount
    cases hs
    refine ⟨h.taken, h.slots, hroom, hcount, h.top, ?_⟩
    show wrapped s.bottom = s.taken.length % 128
    rw [hbottom.2, wrapped_succ, Nat.sub_add_cancel hbottom.1]

lemma Inv.step {a : Action M} (hs : step s a = some t) : Inv t := by
  cases a with
  | receive m =>
    unfold TopologyQueue.step at hs
    cases hr : s.reader with
    | idle =>
      have htop := h.top
      have hroom := h.room
      have hcount := h.count
      simp only [hr, TopAt, ReaderPC.pending, ReaderPC.unposted] at hs htop hroom hcount
      cases hs
      exact ⟨h.taken, h.slots, hroom, hcount, htop, h.bottom⟩
    | _ => simp [hr] at hs
  | reader slotFirst => exact h.readerStep hs
  | topology slotFirst => exact h.topologyStep hs

end

lemma inv_run (h : Reach step Any {} s) : Inv s :=
  h.invariant inv_init fun _ _ _ hs _ hst => hs.step hst

lemma Inv.accesses_lt (h : Inv s) {i : ℕ} (ha : s.Accesses i) : i < ptrMax := by
  have htop := h.top
  have hbottom := h.bottom
  unfold TopAt at htop
  unfold BottomAt at hbottom
  unfold ptrMax
  rcases ha with ⟨m, hr, rfl⟩ | ⟨m, hr⟩ | ⟨hp, rfl⟩ | hp
  · simp only [hr] at htop
    omega
  · simp only [hr] at htop
    omega
  · simp only [hp] at hbottom
    omega
  · simp only [hp] at hbottom
    omega

lemma topologyStep_dropped (hs : topologyStep s slotFirst = some t) : t.dropped = s.dropped := by
  unfold topologyStep at hs
  cases hp : s.topology <;> simp only [hp] at hs <;> (try split at hs) <;>
    simp only [map_eq_some_iff, some.injEq, reduceCtorEq] at hs
  case take.isTrue | readAt =>
    obtain ⟨m, -, rfl⟩ := hs
    rfl
  all_goals
    subst hs
    rfl

lemma readerStep_dropped (hs : readerStep s slotFirst = some t) :
    t.dropped = s.dropped ∨ ∃ m, s.reader = .test m ∧ s.hasRoom = false := by
  unfold readerStep at hs
  cases hr : s.reader <;> simp only [hr] at hs
  case idle => cases hs
  case test m =>
    cases hroom : s.hasRoom with
    | false => exact .inr ⟨m, rfl, rfl⟩
    | true =>
      rw [hroom, if_pos rfl] at hs
      cases hs
      exact .inl rfl
  case enqueue m =>
    split at hs <;> obtain rfl := some.inj hs <;> exact .inl rfl
  all_goals
    cases hs
    exact .inl rfl

lemma dropped_of_step {a : Action M} (hs : step s a = some t) (hd : t.dropped ≠ s.dropped) :
    ∃ m, s.reader = .test m ∧ s.hasRoom = false := by
  cases a with
  | receive m =>
    simp only [step] at hs
    split at hs
    · cases hs
      exact absurd rfl hd
    · cases hs
  | reader slotFirst => exact (readerStep_dropped hs).resolve_left hd
  | topology slotFirst => exact absurd (topologyStep_dropped hs) hd

lemma Inv.topologyStep_ne_none (h : Inv s) (hw : s.topology = .wait → 0 < s.sem) :
    TopologyQueue.topologyStep s slotFirst ≠ none := by
  have hbottom := h.bottom
  unfold TopologyQueue.topologyStep
  unfold BottomAt at hbottom
  cases hp : s.topology with
  | wait => simp [hw hp]
  | take =>
    obtain ⟨m, -, hslot⟩ := h.next_slot (by rw [hp]; rfl)
    simp only [hp] at hbottom
    cases slotFirst <;> simp [hbottom, hslot]
  | readAt i =>
    obtain ⟨m, -, hslot⟩ := h.next_slot (by rw [hp]; rfl)
    simp only [hp] at hbottom
    simp [hbottom.1, hslot]
  | advance m | wrap => simp

/-- In every interleaving the messages taken are the first of those enqueued, in order; each of
the others is still in its slot; slots are used within the array; the topology thread waits only
for the semaphore, and once both threads are at rest everything was taken; a message is dropped
only while as many as the ring holds are waiting or being taken. -/
theorem fifo_of_run (h : Reach step Any ({} : State M) s) :
    s.taken <+: s.enqueued ∧
    (∀ k, s.taken.length ≤ k → k < s.enqueued.length →
      s.queue (k % ptrMax) = s.enqueued[k]?) ∧
    (∀ i, s.Accesses i → i < ptrMax) ∧
    (∀ slotFirst, (s.topology = .wait → 0 < s.sem) → topologyStep s slotFirst ≠ none) ∧
    (s.reader = .idle → s.topology = .wait → s.sem = 0 → s.taken = s.enqueued) ∧
    ∀ a t, step s a = some t → t.dropped ≠ s.dropped →
      ptrMax - 1 ≤ s.enqueued.length - s.taken.length := by
  have hinv := inv_run h
  refine ⟨hinv.taken, hinv.slots, fun i => hinv.accesses_lt,
    fun slotFirst => hinv.topologyStep_ne_none, ?_, ?_⟩
  · intro hr hp hs
    have hcount := hinv.count
    rw [hr, hp, hs] at hcount
    exact hinv.taken.eq_of_length (by simpa [TopologyPC.taking, ReaderPC.unposted] using hcount)
  intro a t hs hd
  obtain ⟨m, hr, hroom⟩ := dropped_of_step hs hd
  have hle : ¬ _ := mt (hinv.hasRoom_iff hr).mpr (by simp [hroom])
  unfold ptrMax
  omega

/-- A message goes through the ring, with both indices written first. -/
def passage (m : ℕ) : List (Action ℕ) :=
  .receive m :: List.replicate 5 (.reader false) ++ List.replicate 4 (.topology false)

/-- Two messages, one after the other. -/
theorem fifo_of_run_two_messages :
    ∃ s, run step ({} : State ℕ) (passage 5 ++ passage 6) = some s ∧ s.taken = [5, 6] :=
  ⟨_, rfl, (fifo_of_run (reach_of_run (l := passage 5 ++ passage 6) .init rfl)).2.2.2.2.1
    rfl rfl rfl⟩

end NfdGateway.Serial.TopologyQueue
