import Mathlib

/-! Logs of writes to a keyed store: the write that counts for a key is the latest one, and
a log in which a write takes the place of the earlier one to its key has the same effect. -/
namespace UpdateLog

open List Option Function

variable {U K V : Type} [DecidableEq K] (key : U → K) (val : U → V)

def put (u : U) : List U → List U
  | [] => [u]
  | w :: l => if key w = key u then u :: l else w :: put u l

def write (l : List U) (m : K → V) : K → V :=
  l.foldl (fun m u => update m (key u) (val u)) m

def latest (k : K) : List U → Option V
  | [] => none
  | u :: l => (latest k l).or (if key u = k then some (val u) else none)

variable {key val} {k : K} {u : U} {l l' : List U} {m : K → V}

@[simp] lemma latest_nil : latest key val k [] = none := rfl

lemma latest_cons : latest key val k (u :: l) =
    (latest key val k l).or (if key u = k then some (val u) else none) := rfl

@[simp] lemma latest_append : latest key val k (l ++ l') =
    (latest key val k l').or (latest key val k l) := by
  induction l with
  | nil => simp
  | cons u l ih => simp [latest_cons, ih, Option.or_assoc]

lemma latest_eq_none (h : ∀ u ∈ l, key u ≠ k) : latest key val k l = none := by
  induction l with
  | nil => rfl
  | cons u l ih =>
    rw [latest_cons, ih fun w hw => h w (by simp [hw])]
    simp [h u (by simp)]

lemma write_cons : write key val (u :: l) m =
    write key val l (update m (key u) (val u)) := rfl

lemma write_apply : write key val l m k = (latest key val k l).getD (m k) := by
  induction l generalizing m with
  | nil => rfl
  | cons u l ih =>
    rw [write_cons, ih, latest_cons]
    cases latest key val k l with
    | some v => rfl
    | none =>
      by_cases hk : key u = k
      · simp [← hk]
      · simp [hk, update_of_ne (Ne.symm hk)]

lemma write_perm (h : (l.map key).Nodup) (hp : l.Perm l') (m : K → V) :
    write key val l m = write key val l' m := by
  refine hp.foldl_eq' (fun a ha b hb m => ?_) m
  by_cases hk : key a = key b
  · rw [inj_on_of_nodup_map h ha hb hk]
  · exact update_comm hk ..

lemma mem_put {w : U} (h : w ∈ put key u l) : w = u ∨ w ∈ l := by
  induction l with
  | nil => exact .inl (by simpa [put] using h)
  | cons x l ih =>
    rw [put] at h
    split at h
    · rcases mem_cons.mp h with rfl | hw
      · exact .inl rfl
      · exact .inr (by simp [hw])
    · rcases mem_cons.mp h with rfl | hw
      · exact .inr (by simp)
      · exact (ih hw).imp_right fun hw => by simp [hw]

lemma nodup_put (h : (l.map key).Nodup) : ((put key u l).map key).Nodup := by
  induction l with
  | nil => simp [put]
  | cons x l ih =>
    rw [map_cons, nodup_cons] at h
    rw [put]
    split
    next hx =>
      rw [map_cons, ← hx]
      exact nodup_cons.mpr h
    rename_i hx
    refine nodup_cons.mpr ⟨fun hm => ?_, ih h.2⟩
    obtain ⟨w, hw, hk⟩ := List.mem_map.mp hm
    rcases mem_put hw with rfl | hw
    · exact hx hk.symm
    · exact h.1 (hk ▸ List.mem_map_of_mem hw)

lemma latest_put (h : (l.map key).Nodup) : latest key val k (put key u l) =
    (if key u = k then some (val u) else none).or (latest key val k l) := by
  induction l with
  | nil => simp [put, latest_cons]
  | cons x l ih =>
    rw [map_cons, nodup_cons] at h
    rw [put]
    split
    next hx =>
      by_cases hk : key u = k
      · have hl : latest key val k l = none :=
          latest_eq_none fun w hw hwk => h.1 (hx ▸ hk ▸ hwk ▸ List.mem_map_of_mem hw)
        simp [latest_cons, hl, hk]
      · simp [latest_cons, hk, hx]
    · rw [latest_cons, ih h.2, latest_cons, Option.or_assoc]

lemma latest_flatMap_eq_none {A : Type} {f : A → List U} {as : List A}
    (h : ∀ a ∈ as, latest key val k (f a) = none) :
    latest key val k (as.flatMap f) = none := by
  induction as with
  | nil => rfl
  | cons a as ih =>
    rw [flatMap_cons, latest_append, h a (by simp), ih fun b hb => h b (by simp [hb])]
    rfl

lemma latest_flatMap_of_unique {A : Type} {f : A → List U} {as : List A} {a : A}
    (ha : a ∈ as) (h : ∀ b ∈ as, b ≠ a → latest key val k (f b) = none) :
    latest key val k (as.flatMap f) = latest key val k (f a) := by
  induction as with
  | nil => simp at ha
  | cons b as ih =>
    have hrest : ∀ c ∈ as, c ≠ a → latest key val k (f c) = none := fun c hc => h c (by simp [hc])
    rw [flatMap_cons, latest_append]
    by_cases hm : a ∈ as
    · rw [ih hm hrest]
      by_cases hb : b = a
      · rw [hb, Option.or_self]
      · rw [h b (by simp) hb, or_none]
    · obtain rfl : a = b := by simpa [hm] using ha
      rw [latest_flatMap_eq_none fun c hc => hrest c hc fun hca => hm (hca ▸ hc), none_or]

end UpdateLog
