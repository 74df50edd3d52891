import NfdGateway.Lib.Transition

/-! The Dead Nonce List: a queue of hashes that loses its oldest entries, a few at a time, once
it is over capacity, while marks pushed at regular intervals steer the capacity. -/
namespace NfdGateway

open List Transition

def roundToDouble (p : ℕ) : ℕ :=
  let d := p.log2 + 1 - 53
  let q := p / 2 ^ d
  let r := p % 2 ^ d
  if 2 ^ d < 2 * r ∨ 2 * r = 2 ^ d ∧ q % 2 = 1 then (q + 1) * 2 ^ d else q * 2 ^ d

def timesDouble (n m e : ℕ) : ℕ := roundToDouble (n * m) / 2 ^ e

lemma roundToDouble_near (p : ℕ) : ∃ u, 2 ^ 53 * u ≤ 2 * p ∧
    2 * roundToDouble p ≤ 2 * p + u ∧ 2 * p ≤ 2 * roundToDouble p + u := by
  unfold roundToDouble
  extract_lets d q r
  have hp : q * 2 ^ d + r = p := Nat.div_add_mod' p (2 ^ d)
  have hr : r < 2 ^ d := Nat.mod_lt _ (Nat.two_pow_pos d)
  have hsucc : (q + 1) * 2 ^ d = q * 2 ^ d + 2 ^ d := by ring
  by_cases hd : d = 0
  · refine ⟨0, by omega, ?_⟩
    rw [hd] at hp hr ⊢
    split <;> omega
  have hlog : p.log2 = d + 52 := by omega
  have hne : p ≠ 0 := by
    rintro rfl
    simp at hlog
  have hle : 2 ^ (d + 52) ≤ p := hlog ▸ Nat.log2_self_le hne
  refine ⟨2 ^ d, ?_, ?_⟩
  · calc 2 ^ 53 * 2 ^ d = 2 * 2 ^ (d + 52) := by ring
      _ ≤ 2 * p := by omega
  · split <;> omega

lemma timesDouble_le {n m e : ℕ} (hm : (2 ^ 53 + 1) * m ≤ 2 ^ (53 + e)) :
    timesDouble n m e ≤ n := by
  obtain ⟨u, hu, hle, -⟩ := roundToDouble_near (n * m)
  have hn := Nat.mul_le_mul_left n hm
  have hcomm : n * ((2 ^ 53 + 1) * m) = 2 ^ 53 * (n * m) + n * m := by ring
  have hpow : n * 2 ^ (53 + e) = 2 ^ 53 * (n * 2 ^ e) := by ring
  have hswap : 2 ^ e * n = n * 2 ^ e := Nat.mul_comm _ _
  refine Nat.div_le_of_le_mul ?_
  omega

lemma le_timesDouble {n m e : ℕ} (hm : 2 ^ (53 + e) + m ≤ 2 ^ 53 * m) : n ≤ timesDouble n m e := by
  obtain ⟨u, hu, -, hle⟩ := roundToDouble_near (n * m)
  have hn := Nat.mul_le_mul_left n hm
  have hcomm : n * (2 ^ 53 * m) = 2 ^ 53 * (n * m) := by ring
  have hpow : n * (2 ^ (53 + e) + m) = 2 ^ 53 * (n * 2 ^ e) + n * m := by ring
  rw [timesDouble, Nat.le_div_iff_mul_le (Nat.two_pow_pos e)]
  omega

/-- The queue `m_queue`, oldest entry first, which the hash table `m_ht` indexes, the capacity
and the counts of marks since the last adjustment. -/
structure DeadNonceList where
  queue : List (BitVec 64)
  capacity : ℕ
  actualMarkCounts : List ℕ

namespace DeadNonceList

def initialCapacity : ℕ := 2 ^ 7

def minCapacity : ℕ := 2 ^ 3

def maxCapacity : ℕ := 2 ^ 24

def expectedMarkCount : ℕ := 5

def evictLimit : ℕ := 2 ^ 6

def markEntry : BitVec 64 := 0

def capacityUp (capacity : ℕ) : ℕ := timesDouble capacity 0x13333333333333 52

def capacityDown (capacity : ℕ) : ℕ := timesDouble capacity 0x1ccccccccccccd 53

def new : DeadNonceList where
  queue := List.replicate expectedMarkCount markEntry
  capacity := initialCapacity
  actualMarkCounts := []

variable {N : Type} (makeEntry : N → BitVec 32 → BitVec 64)

def has (d : DeadNonceList) (name : N) (nonce : BitVec 32) : Bool :=
  d.queue.contains (makeEntry name nonce)

def countMarks (d : DeadNonceList) : ℕ := d.queue.count markEntry

def evictEntries (d : DeadNonceList) : Option DeadNonceList :=
  let nOverCapacity := (BitVec.ofNat 64 d.queue.length - BitVec.ofNat 64 d.capacity).toInt
  if nOverCapacity ≤ 0 then some d
  else
    let d' := { d with queue := d.queue.drop (min nOverCapacity evictLimit).toNat }
    if d'.capacity ≤ d'.queue.length then some d' else none

def add (d : DeadNonceList) (name : N) (nonce : BitVec 32) : Option DeadNonceList :=
  evictEntries { d with queue := d.queue ++ [makeEntry name nonce] }

def mark (d : DeadNonceList) : DeadNonceList :=
  let d := { d with queue := d.queue ++ [markEntry] }
  { d with actualMarkCounts := d.countMarks :: d.actualMarkCounts }

/-- The capacity that `adjustCapacity` chooses: down if all counts are above the expected one,
up if all are below it. Without any count the first test succeeds. -/
def adjustedCapacity (d : DeadNonceList) : ℕ :=
  if ∀ n ∈ d.actualMarkCounts, expectedMarkCount < n then
    max minCapacity (capacityDown d.capacity)
  else if ∀ n ∈ d.actualMarkCounts, n < expectedMarkCount then
    min maxCapacity (capacityUp d.capacity)
  else d.capacity

def adjustTo (d : DeadNonceList) (capacity : ℕ) : Option DeadNonceList :=
  evictEntries { d with capacity := capacity, actualMarkCounts := [] }

def adjustCapacity (d : DeadNonceList) : Option DeadNonceList := d.adjustTo d.adjustedCapacity

variable {d d' : DeadNonceList} {c : ℕ}

def InRange (c : ℕ) : Prop := minCapacity ≤ c ∧ c ≤ maxCapacity

lemma capacityDown_le (c : ℕ) : capacityDown c ≤ c := timesDouble_le (by decide)

lemma le_capacityUp (c : ℕ) : c ≤ capacityUp c := le_timesDouble (by decide)

lemma inRange_adjustedCapacity (h : InRange d.capacity) : InRange d.adjustedCapacity := by
  have hle : minCapacity ≤ maxCapacity := by decide
  unfold adjustedCapacity
  split
  · exact ⟨le_max_left _ _, max_le hle ((capacityDown_le _).trans h.2)⟩
  split
  · exact ⟨le_min hle (h.1.trans (le_capacityUp _)), min_le_left _ _⟩
  · exact h

lemma nOverCapacity_le {n : ℕ} (hc : c ≤ maxCapacity)
    (h : 0 < (BitVec.ofNat 64 n - BitVec.ofNat 64 c).toInt) :
    (BitVec.ofNat 64 n - BitVec.ofNat 64 c).toInt.toNat ≤ n - c ∧ c ≤ n := by
  have hmax : maxCapacity = 16777216 := rfl
  rw [BitVec.toInt_eq_toNat_cond, BitVec.toNat_sub, BitVec.toNat_ofNat, BitVec.toNat_ofNat] at h ⊢
  split at h <;> omega

lemma evictEntries_spec (hc : d.capacity ≤ maxCapacity) :
    ∃ k, k ≤ d.queue.length - d.capacity ∧
      d.evictEntries = some { d with queue := d.queue.drop k } := by
  unfold evictEntries
  extract_lets nOverCapacity d'
  split
  · exact ⟨0, Nat.zero_le _, rfl⟩
  rename_i hpos
  obtain ⟨hle, hcap⟩ := nOverCapacity_le hc (Int.not_le.mp hpos)
  have hk : (min nOverCapacity evictLimit).toNat ≤ d.queue.length - d.capacity :=
    (Int.toNat_le_toNat (min_le_left _ _)).trans hle
  refine ⟨_, hk, if_pos ?_⟩
  show d.capacity ≤ (d.queue.drop _).length
  rw [length_drop]
  omega

inductive Event (N : Type)
  | add (name : N) (nonce : BitVec 32)
  | mark
  | adjustCapacity
  | adjustTo (capacity : ℕ)

structure Recorded where
  list : DeadNonceList
  history : List (BitVec 64)
  least : ℕ

def Recorded.new : Recorded where
  list := .new
  history := DeadNonceList.new.queue
  least := DeadNonceList.new.capacity

def Recorded.step (s : Recorded) : Event N → Option Recorded
  | .add name nonce => (s.list.add makeEntry name nonce).map fun d =>
      { s with list := d, history := s.history ++ [makeEntry name nonce] }
  | .mark => some { s with list := s.list.mark, history := s.history ++ [markEntry] }
  | .adjustCapacity => s.list.adjustCapacity.map fun d =>
      { s with list := d, least := min s.least d.capacity }
  | .adjustTo c => (s.list.adjustTo c).map fun d =>
      { s with list := d, least := min s.least d.capacity }

def Event.Ok : Event N → Prop
  | .adjustTo c => InRange c
  | _ => True

structure Recorded.Inv (s : Recorded) : Prop where
  capacity : InRange s.list.capacity
  least_le : s.least ≤ s.list.capacity
  suffix : s.list.queue <:+ s.history
  retained : min s.history.length s.least ≤ s.list.queue.length

variable {s t : Recorded} {ev : Event N}

lemma Recorded.Inv.push (h : s.Inv) (x : BitVec 64) (counts : List ℕ) :
    Inv { s with
      list := { s.list with queue := s.list.queue ++ [x], actualMarkCounts := counts }
      history := s.history ++ [x] } := by
  refine ⟨h.capacity, h.least_le, ?_, ?_⟩
  · obtain ⟨l, hl⟩ := h.suffix
    exact ⟨l, by simp [← hl]⟩
  have := h.retained
  simp only [length_append, length_singleton]
  omega

lemma Recorded.Inv.adjusted (h : s.Inv) (hc : InRange c) :
    Inv { s with
      list := { s.list with capacity := c, actualMarkCounts := [] }
      least := min s.least c } := by
  refine ⟨hc, Nat.min_le_right _ _, h.suffix, ?_⟩
  have := h.retained
  simp only
  omega

lemma Recorded.Inv.evicted (h : s.Inv) :
    ∃ d, s.list.evictEntries = some d ∧ d.capacity = s.list.capacity ∧
      Inv { s with list := d } := by
  obtain ⟨k, hk, he⟩ := evictEntries_spec h.capacity.2
  refine ⟨_, he, rfl, h.capacity, h.least_le, (drop_suffix k _).trans h.suffix, ?_⟩
  have hr := h.retained
  have hl := h.least_le
  simp only [length_drop]
  omega

lemma Recorded.Inv.add (h : s.Inv) (name : N) (nonce : BitVec 32) :
    ∃ t, s.step makeEntry (.add name nonce) = some t ∧ t.Inv := by
  obtain ⟨d, he, -, hinv⟩ := (h.push (makeEntry name nonce) s.list.actualMarkCounts).evicted
  exact ⟨_, congrArg (Option.map _) he, hinv⟩

lemma Recorded.Inv.adjustTo (h : s.Inv) (hc : InRange c) :
    ∃ t, s.step makeEntry (.adjustTo c) = some t ∧ t.Inv := by
  obtain ⟨d, he, hcap, hinv⟩ := (h.adjusted hc).evicted
  refine ⟨_, congrArg (Option.map _) he, ?_⟩
  show Inv { s with list := d, least := min s.least d.capacity }
  rw [hcap]
  exact hinv

lemma Recorded.Inv.step (h : s.Inv) (hok : ev.Ok) : ∃ t, s.step makeEntry ev = some t ∧ t.Inv := by
  cases ev with
  | add name nonce => exact h.add makeEntry name nonce
  | mark => exact ⟨_, rfl, h.push markEntry _⟩
  | adjustCapacity => exact h.adjustTo makeEntry (inRange_adjustedCapacity h.capacity)
  | adjustTo c => exact h.adjustTo makeEntry hok

variable {makeEntry}

lemma Recorded.inv_new : Recorded.new.Inv :=
  ⟨⟨by decide, by decide⟩, Nat.le_refl _, suffix_rfl, by decide⟩

lemma Recorded.inv_run (h : Reach (Recorded.step makeEntry) (fun _ ev => ev.Ok) Recorded.new s) :
    s.Inv := by
  refine h.invariant inv_new fun s ev t hs hok hst => ?_
  obtain ⟨t', ht, hinv⟩ := hs.step makeEntry hok
  rw [hst] at ht
  exact Option.some.inj ht ▸ hinv

lemma Recorded.Inv.mem_queue (h : s.Inv) {l r : List (BitVec 64)} {x : BitVec 64}
    (hh : s.history = l ++ x :: r) (hr : r.length < s.least) : x ∈ s.list.queue := by
  have hsuf : x :: r <:+ s.list.queue := by
    refine suffix_of_suffix_length_le ⟨l, hh.symm⟩ h.suffix (le_trans ?_ h.retained)
    rw [hh]
    simp only [length_append, length_cons]
    omega
  exact hsuf.subset (.head _)

/-- After every run the queue is a suffix of all pushes with at least as many of the last ones as
the smallest capacity so far, so a nonce is known until that many later pushes; the capacity
stays in its range and no assertion fails. -/
theorem retained_of_run (h : Reach (Recorded.step makeEntry) (fun _ ev => ev.Ok) Recorded.new s) :
    s.list.queue <:+ s.history ∧
    min s.history.length s.least ≤ s.list.queue.length ∧
    (∀ l name nonce r, s.history = l ++ makeEntry name nonce :: r → r.length < s.least →
      s.list.has makeEntry name nonce = true) ∧
    InRange s.list.capacity ∧
    ∀ ev : Event N, ev.Ok → s.step makeEntry ev ≠ none := by
  have hinv := Recorded.inv_run h
  refine ⟨hinv.suffix, hinv.retained, ?_, hinv.capacity, ?_⟩
  · intro l name nonce r hh hr
    simpa [has] using hinv.mem_queue hh hr
  intro ev hok
  obtain ⟨t, ht, -⟩ := hinv.step makeEntry hok
  simp [ht]

def sampleEntry (name : ℕ) (_ : BitVec 32) : BitVec 64 := BitVec.ofNat 64 name

def sampleEvents : List (Event ℕ) := .adjustTo 8 :: .add 7 1 :: List.replicate 7 .mark

theorem retained_of_run_seven_marks :
    ∃ s, run (Recorded.step sampleEntry) Recorded.new sampleEvents = some s ∧
      s.list.has sampleEntry 7 1 = true := by
  refine ⟨_, rfl, (retained_of_run (reach_of_run_of_ok (l := sampleEvents) .init ?_ rfl)).2.2.1
    DeadNonceList.new.queue 7 1 (List.replicate 7 markEntry) rfl (by decide)⟩
  intro ev hev _
  rcases mem_cons.mp hev with rfl | hev
  · exact ⟨by decide, by decide⟩
  rcases mem_cons.mp hev with rfl | hev
  · trivial
  · rw [eq_of_mem_replicate hev]
    trivial

end DeadNonceList

end NfdGateway
