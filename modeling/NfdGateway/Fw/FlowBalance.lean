import NfdGateway.Fw.Courses

/-! Flow balance: what is sent back on a face against the Interests that came in on it. -/
namespace NfdGateway.Fw

open Transition List Option

variable {C S σ ω : Type} {E : Setting C S} {strategy : Strategy C S σ ω} {fw fw' : Forwarder C S}
  {n n' : Node C S σ} {e : PitEntryId} {x : Entry C S} {f : FaceId} {s : Stage C S}
  {freshness : Option ℕ} {isSatisfied : Bool}

def isAnswer (f : FaceId) : FaceId × Packet C S → Bool
  | (_, .interest _) => false
  | (g, .data _) | (g, .nack _ _) => g = f

def answersOn (f : FaceId) (sent : List (FaceId × Packet C S)) : ℕ := sent.countP (isAnswer f)

def isInterestOn (f : FaceId) : Event C S ω → Bool
  | .interest g _ _ _ => g = f
  | _ => false

def received (f : FaceId) (evs : List (Event C S ω)) : ℕ := evs.countP (isInterestOn f)

def Entry.unanswered (f : FaceId) (x : Entry C S) : ℕ := x.inRecords.countP (·.face = f)

def load (f : FaceId) (fw : Forwarder C S) : ℕ :=
  answersOn f fw.sent + (fw.entries.map (Entry.unanswered f)).sum

lemma sum_modify {g : Entry C S → Entry C S} {l : List (Entry C S)} (w : Entry C S → ℕ)
    (hx : l[e]? = some x) :
    ((l.modify e g).map w).sum + w x = (l.map w).sum + w (g x) := by
  induction l generalizing e with
  | nil => simp at hx
  | cons y l ih =>
    cases e with
    | zero =>
      obtain rfl : y = x := by simpa using hx
      simp only [modify_zero_cons, map_cons, sum_cons]
      omega
    | succ e =>
      have hrest := ih (by simpa using hx)
      simp only [modify_succ_cons, map_cons, sum_cons]
      omega

lemma load_modifyEntry {g : Entry C S → Entry C S} (hx : fw.entries[e]? = some x) :
    load f (fw.modifyEntry e g) + x.unanswered f = load f fw + (g x).unanswered f := by
  have hsum := sum_modify (g := g) (Entry.unanswered f) hx
  simp only [load, Forwarder.modifyEntry]
  omega

lemma load_rewrite {g : Entry C S → Entry C S} (fw : Forwarder C S) (e : PitEntryId)
    (hg : ∀ x, (g x).inRecords = x.inRecords) : load f (fw.modifyEntry e g) = load f fw := by
  cases hx : fw.entries[e]? with
  | none =>
    have hlen := List.getElem?_eq_none_iff.mp hx
    rw [load, Forwarder.modifyEntry, modify_eq_self hlen]
    rfl
  | some x =>
    have hmod := load_modifyEntry (f := f) (g := g) hx
    have hsame : (g x).unanswered f = x.unanswered f := by rw [Entry.unanswered, hg x]; rfl
    omega

lemma load_send (fw : Forwarder C S) (g : FaceId) (p : Packet C S) :
    load f (fw.send g p) = load f fw + answersOn f [(g, p)] := by
  simp only [load, Forwarder.send, answersOn, countP_append]
  omega

lemma answersOn_le (g : FaceId) (p : Packet C S) :
    answersOn f [(g, p)] ≤ if g = f then 1 else 0 := by
  cases p <;> simp [answersOn, isAnswer, countP_singleton]

lemma load_insertDeadNonceList {upstream : Option FaceId} :
    load f (fw.insertDeadNonceList E e isSatisfied freshness upstream) = load f fw := by
  obtain ⟨l, h⟩ := fw.insertDeadNonceList_eq e isSatisfied freshness upstream
  rw [h]
  rfl

lemma load_cancel (fw : Forwarder C S) (e : PitEntryId) :
    load f (fw.cancelUnsatisfyAndStragglerTimer e) = load f fw := load_rewrite fw e fun _ => rfl

lemma load_setStragglerTimer (fw : Forwarder C S) (e : PitEntryId) (isSatisfied : Bool)
    (freshness : Option ℕ) : load f (fw.setStragglerTimer e isSatisfied freshness) = load f fw :=
  load_rewrite fw e fun _ => rfl

lemma load_onInterestFinalize :
    load f (fw.onInterestFinalize E e isSatisfied freshness) = load f fw :=
  (load_cancel _ e).trans load_insertDeadNonceList

lemma load_onInterestReject : load f (fw.onInterestReject e) = load f fw := by
  rcases fw.onInterestReject_cases e with h | h
  · rw [h]
  · rw [h]
    exact (load_setStragglerTimer ..).trans (load_cancel fw e)

lemma countP_eraseP {l : List (InRecord C S)} {g : FaceId} (h : ∃ r ∈ l, r.face = g) :
    (l.eraseP (·.face = g)).countP (·.face = f) + (if g = f then 1 else 0) =
      l.countP (·.face = f) := by
  induction l with
  | nil => simp at h
  | cons r l ih =>
    by_cases hr : r.face = g
    · rw [eraseP_cons_of_pos (by simpa using hr), countP_cons]
      simp [hr]
    rw [eraseP_cons_of_neg (by simpa using hr), countP_cons, countP_cons]
    have hrest : ∃ r ∈ l, r.face = g := by simpa [hr] using h
    have := ih hrest
    omega

lemma countP_eraseP_of_ne {l : List (InRecord C S)} {g : FaceId} (h : g ≠ f) :
    (l.eraseP (·.face = g)).countP (·.face = f) = l.countP (·.face = f) := by
  by_cases hin : ∃ r ∈ l, r.face = g
  · have hcount := countP_eraseP (f := f) hin
    rwa [if_neg h] at hcount
  · rw [eraseP_of_forall_not fun r hr hg => hin ⟨r, hr, of_decide_eq_true hg⟩]

lemma load_onOutgoingNack {outFace : FaceId} {reason : NackReason} :
    load f (fw.onOutgoingNack E e outFace reason) ≤ load f fw := by
  rcases fw.onOutgoingNack_cases e outFace reason with h | ⟨x, r, hx, hr, h⟩
  · rw [h]
  rw [h, load_send]
  have hmod := load_modifyEntry (f := f) (g := fun x => x.deleteInRecord outFace) hx
  have hsent := answersOn_le (f := f) outFace (.nack r.interest reason)
  have hless : (x.deleteInRecord outFace).unanswered f + (if outFace = f then 1 else 0) =
    x.unanswered f := countP_eraseP ⟨r, getInRecord_eq_some hr⟩
  omega

lemma unanswered_insertOrUpdateInRecord (x : Entry C S) (now : ℕ) (g : FaceId)
    (i : InterestPacket C S) :
    (x.insertOrUpdateInRecord now g i).unanswered f ≤
      x.unanswered f + if g = f then 1 else 0 := by
  unfold Entry.insertOrUpdateInRecord Entry.unanswered
  split
  next j hj =>
    obtain ⟨hlt, hface, -⟩ := findIdx?_eq_some_iff_getElem.mp hj
    rw [countP_set hlt]
    have hsame : x.inRecords[j].face = g := of_decide_eq_true hface
    simp only [FaceRecord.update, hsame]
    by_cases hg : g = f <;> simp [hg]
  · rw [countP_cons]
    by_cases hg : g = f <;> simp [hg, FaceRecord.update]

lemma load_missed (fw : Forwarder C S) (g : FaceId) (e : PitEntryId) (i : InterestPacket C S) :
    load f (missed fw g e i) ≤ load f fw + if g = f then 1 else 0 := by
  have hset : load f (missed fw g e i) =
      load f (fw.modifyEntry e fun x => x.insertOrUpdateInRecord fw.now g i) :=
    load_rewrite _ e fun _ => rfl
  rw [hset]
  cases hx : fw.entries[e]? with
  | none =>
    have hlen := List.getElem?_eq_none_iff.mp hx
    rw [Forwarder.modifyEntry, modify_eq_self hlen]
    exact Nat.le_add_right ..
  | some x =>
    have hmod := load_modifyEntry (f := f) (g := fun x => x.insertOrUpdateInRecord fw.now g i) hx
    have hnew := unanswered_insertOrUpdateInRecord (f := f) x fw.now g i
    omega

lemma load_satisfied (inFace : FaceId) (d : Data C) (hx : fw.entries[e]? = some x) :
    load f (satisfied E fw e inFace d) + x.unanswered f = load f fw := by
  have hset : load f (satisfied E fw e inFace d) =
      load f ((fw.insertDeadNonceList E e true d.freshnessPeriod (some inFace)).modifyEntry e
        fun x => x.clearInRecords.deleteOutRecord inFace) := load_setStragglerTimer ..
  have hx' : (fw.insertDeadNonceList E e true d.freshnessPeriod (some inFace)).entries[e]? =
      some x := by
    obtain ⟨l, h⟩ := fw.insertDeadNonceList_eq e true d.freshnessPeriod (some inFace)
    rwa [h]
  have hclear := load_modifyEntry (f := f)
    (g := fun x => x.clearInRecords.deleteOutRecord inFace) hx'
  rw [load_insertDeadNonceList] at hclear
  rw [hset]
  exact hclear

lemma count_addDownstreams (now : ℕ) (x : Entry C S) (l : List FaceId) :
    (Node.addDownstreams now x l).count f ≤ l.count f ∨
      (Node.addDownstreams now x l).count f ≤ l.count f + 1 ∧
        ∃ r ∈ x.inRecords, r.face = f ∧ now < r.expiry := by
  unfold Node.addDownstreams
  generalize x.inRecords = rs
  have hgen : ∀ l : List FaceId,
      (rs.foldl (fun l r => if now < r.expiry ∧ r.face ∉ l then l ++ [r.face] else l) l).count f ≤
          l.count f ∨
        f ∉ l ∧ (rs.foldl (fun l r => if now < r.expiry ∧ r.face ∉ l then l ++ [r.face] else l)
            l).count f ≤ 1 ∧ ∃ r ∈ rs, r.face = f ∧ now < r.expiry := by
    induction rs with
    | nil => exact fun l => .inl (Nat.le_refl _)
    | cons r rs ih =>
      intro l
      rw [foldl_cons]
      split
      next hnew =>
        by_cases hf : r.face = f
        · -- the face is on the list from here on
          rcases ih (l ++ [r.face]) with hle | ⟨hout, -⟩
          · have hnone : l.count f = 0 := count_eq_zero.mpr (hf ▸ hnew.2)
            rw [count_append, hnone, hf, count_singleton_self] at hle
            rw [hf]
            exact .inr ⟨hf ▸ hnew.2, hle, r, .head _, hf, hnew.1⟩
          · simp [hf] at hout
        have hcount : (l ++ [r.face]).count f = l.count f := by
          have hnone : [r.face].count f = 0 := count_eq_zero.mpr (by simpa using Ne.symm hf)
          rw [count_append, hnone]
          rfl
        rcases ih (l ++ [r.face]) with hle | ⟨hout, hle, r', hr', hface⟩
        · exact .inl (hcount ▸ hle)
        · exact .inr ⟨fun hin => hout (mem_append_left _ hin), hle, r', .tail _ hr', hface⟩
      · rcases ih l with hle | ⟨hout, hle, r', hr', hface⟩
        · exact .inl hle
        · exact .inr ⟨hout, hle, r', .tail _ hr', hface⟩
  rcases hgen l with hle | ⟨-, hle, hr⟩
  · exact .inl hle
  · exact .inr ⟨Nat.le_add_left_of_le hle, hr⟩

def Unanswered (f : FaceId) (e : PitEntryId) (fw : Forwarder C S) : Prop :=
  ∃ x, fw.entries[e]? = some x ∧ 0 < x.unanswered f

def cost (f : FaceId) : Stage C S → ℕ
  | .loop g _ | .miss g _ _ | .hit g _ _ | .deliver _ g => if g = f then 1 else 0
  | _ => 0

lemma cost_calls (r : Option (σ × List Action)) :
    ((calls r : List (Stage C S)).map (cost f)).sum = 0 := by
  unfold calls
  split
  · rfl
  rename_i acts
  induction acts with
  | nil => rfl
  | cons a acts ih => simpa [cost] using ih

lemma cost_missStages (n : Node C S σ) (g : FaceId) (e : PitEntryId) (i : InterestPacket C S) :
    ((missStages strategy n g e i).map (cost f)).sum = if g = f then 1 else 0 := by
  rw [missStages, map_cons, sum_cons, cost_calls]
  rfl

variable [DecidableEq C] {inFace : FaceId} {pitMatches : List PitEntryId} {d : Data C}
  {acts : List Action} {l' : List FaceId}

lemma load_onOutgoingData (fw : Forwarder C S) (d : Data C) (g : FaceId) :
    load f (fw.onOutgoingData E d g) ≤ load f fw + if g = f then 1 else 0 := by
  rcases fw.onOutgoingData_cases d g with h | ⟨-, h⟩
  · rw [h]
    exact Nat.le_add_right ..
  · rw [h, load_send]
    exact Nat.add_le_add_left (answersOn_le g (.data d)) _

lemma load_perform {a : Action} (h : fw.perform E a = some fw') : load f fw' ≤ load f fw := by
  cases a with
  | sendInterest e outFace nonce =>
    rcases Forwarder.onOutgoingInterest_cases h with rfl | ⟨x, r, -, -, -, rfl⟩
    · exact Nat.le_refl _
    · rw [load_send]
      exact Nat.le_of_eq (load_rewrite fw e fun _ => rfl)
  | sendNack e outFace reason =>
    cases h
    exact load_onOutgoingNack
  | rejectPendingInterest e =>
    cases h
    exact Nat.le_of_eq load_onInterestReject

/-- While the loop over the matching PIT entries runs, no trigger Nacks a downstream that the Data
is going to be sent to. -/
def NacksNoDownstream (E : Setting C S) (strategy : Strategy C S σ ω) (inFace : FaceId)
    (d : Data C) : Node C S σ → List PitEntryId → Prop
  | _, [] => True
  | n, e :: rest =>
    (∀ st acts, strategy.beforeSatisfyInterest (n.fw.cancelUnsatisfyAndStragglerTimer e) e inFace d
        n.strategy = some (st, acts) →
      ∀ x, n.fw.entries[e]? = some x → ∀ r ∈ x.inRecords, n.fw.now < r.expiry → r.face ≠ inFace →
        ∀ reason, .sendNack e r.face reason ∉ acts) ∧
    ∀ r, Node.satisfy E strategy inFace d (n, []) e = some r →
      NacksNoDownstream E strategy inFace d r.1 rest

lemma Unanswered.perform [DecidableEq S] {a : Action} (h : Unanswered f e fw)
    (ha : ∀ reason, a ≠ .sendNack e f reason) (hs : fw.perform E a = some fw') :
    Unanswered f e fw' := by
  obtain ⟨x, hx, hpos⟩ := h
  obtain ⟨x', hx', hrewrites⟩ := stage_entry_of (s := .call a) hs hx
  refine ⟨x', hx', ?_⟩
  cases hrewrites with
  | timers | interest => exact hpos
  | nack =>
    refine lt_of_lt_of_eq hpos (countP_eraseP_of_ne ?_).symm
    rintro rfl
    exact ha _ rfl

lemma Unanswered.calls [DecidableEq S] (h : Unanswered f e fw)
    (ha : ∀ reason, .sendNack e f reason ∉ acts)
    (hs : acts.foldlM (Forwarder.perform E) fw = some fw') : Unanswered f e fw' := by
  induction acts generalizing fw with
  | nil =>
    cases hs
    exact h
  | cons a acts ih =>
    obtain ⟨fw₁, hone, hrest⟩ := bind_eq_some_iff.mp hs
    refine ih (h.perform ?_ hone) ?_ hrest
    · rintro reason rfl
      exact ha reason (.head _)
    · intro reason hmem
      exact ha reason (.tail _ hmem)

lemma load_calls (hs : acts.foldlM (Forwarder.perform E) fw = some fw') :
    load f fw' ≤ load f fw := by
  induction acts generalizing fw with
  | nil =>
    cases hs
    exact Nat.le_refl _
  | cons a acts ih =>
    obtain ⟨fw₁, hone, hrest⟩ := bind_eq_some_iff.mp hs
    exact (ih hrest).trans (load_perform hone)

def due (inFace f : FaceId) (l : List FaceId) : ℕ := (l.filter (· ≠ inFace)).count f

lemma load_satisfy [DecidableEq S] {l : List FaceId} {rest : List PitEntryId}
    (hok : NacksNoDownstream E strategy inFace d n (e :: rest))
    (hs : Node.satisfy E strategy inFace d (n, l) e = some (n', l')) :
    load f n'.fw + due inFace f l' ≤ load f n.fw + due inFace f l := by
  obtain ⟨x, n₁, hx, hcall, rfl, rfl⟩ := satisfy_eq_some hs
  obtain ⟨acts, hacts, hcalls⟩ := dispatch_eq_some hcall
  have hload : load f n₁.fw ≤ load f n.fw :=
    (load_calls hcalls).trans (Nat.le_of_eq (load_cancel ..))
  have hkeep : Keeps n.fw n₁.fw := (n.fw.keeps_cancelTimers e).trans (Forwarder.keeps_calls hcalls)
  obtain ⟨x₀, hx₀, hrecords⟩ : ∃ x₀, n.fw.entries[e]? = some x₀ ∧ x.inRecords = x₀.inRecords := by
    rcases Forwarder.modifyEntry_cases hx with ⟨he, -⟩ | ⟨-, x₀, hx₀, rfl⟩
    · exact absurd rfl he
    · exact ⟨x₀, hx₀, rfl⟩
  obtain ⟨y, hy, -⟩ := hkeep.entry hx₀
  have hsat := load_satisfied (E := E) (f := f) inFace d hy
  have hdue : ∀ l, due inFace f l = if f = inFace then 0 else l.count f := by
    intro l
    split
    next hf =>
      exact count_eq_zero.mpr (by simp [hf])
    next hf =>
      exact count_filter (by simpa using hf)
  rw [hdue, hdue]
  split
  · simp only [Node.withFw]
    omega
  rename_i hf
  simp only [Node.withFw]
  rcases count_addDownstreams (f := f) n₁.fw.now x l with hle | ⟨hle, r, hr, rfl, hexp⟩
  · omega
  have hpos : Unanswered r.face e n₁.fw := by
    refine Unanswered.calls ⟨_, hx, countP_pos_iff.mpr ⟨r, hr, by simp⟩⟩ ?_ hcalls
    intro reason
    exact hok.1 _ acts hacts x₀ hx₀ r (hrecords ▸ hr) (hkeep.now ▸ hexp) hf reason
  obtain ⟨y', hy', hpos⟩ := hpos
  obtain rfl : y = y' := some.inj (hy.symm.trans hy')
  omega

lemma load_loop [DecidableEq S]
    {l : List FaceId} (hok : NacksNoDownstream E strategy inFace d n pitMatches)
    (hs : pitMatches.foldlM (Node.satisfy E strategy inFace d) (n, l) = some (n', l')) :
    load f n'.fw + due inFace f l' ≤ load f n.fw + due inFace f l := by
  induction pitMatches generalizing n l with
  | nil =>
    cases hs
    exact Nat.le_refl _
  | cons e rest ih =>
    obtain ⟨⟨n₁, l₁⟩, hone, hrest⟩ := bind_eq_some_iff.mp hs
    obtain ⟨l₂, hsame⟩ := satisfy_faces hone
    exact (ih (hok.2 _ hsame) hrest).trans (load_satisfy hok hone)

lemma load_deliver (fw : Forwarder C S) (d : Data C) (fs : List FaceId) :
    load f (fs.foldl (fun fw g => fw.onOutgoingData E d g) fw) ≤ load f fw + fs.count f := by
  induction fs generalizing fw with
  | nil => exact Nat.le_refl _
  | cons g fs ih =>
    have hone := load_onOutgoingData (E := E) (f := f) fw d g
    have hrest := ih (fw.onOutgoingData E d g)
    rw [foldl_cons, count_cons]
    simp only [beq_iff_eq]
    omega

lemma load_data [DecidableEq S] (hok : NacksNoDownstream E strategy inFace d n pitMatches)
    (hs : n.onIncomingData E strategy inFace d pitMatches = some n') :
    load f n'.fw ≤ load f n.fw := by
  unfold Node.onIncomingData at hs
  split at hs
  · cases hs
    exact Nat.le_refl _
  obtain ⟨⟨n₁, downstreams⟩, hloop, hs⟩ := bind_eq_some_iff.mp hs
  cases hs
  have hall : load f n₁.fw + due inFace f downstreams ≤ load f n.fw := load_loop hok hloop
  exact (load_deliver ..).trans hall

lemma nacksNoDownstream_toFace (g inFace : FaceId) (d : Data C) (n : Node C S Unit)
    (l : List PitEntryId) : NacksNoDownstream E (toFace g) inFace d n l := by
  induction l generalizing n with
  | nil => trivial
  | cons e rest ih =>
    refine ⟨?_, fun r _ => ih r.1⟩
    intro st acts hacts x _ r _ _ _ reason hmem
    cases hacts
    cases hmem

def NoNackBeforeData (E : Setting C S) (strategy : Strategy C S σ ω) (n : Node C S σ) :
    Event C S ω → Prop
  | .data inFace d pitMatches => NacksNoDownstream E strategy inFace d n pitMatches
  | _ => True

lemma noNackBeforeData_toFace (g : FaceId) (n : Node C S Unit) (ev : Event C S Unit) :
    NoNackBeforeData E (toFace g) n ev := by
  cases ev with
  | data inFace d pitMatches => exact nacksNoDownstream_toFace g inFace d n pitMatches
  | _ => trivial

variable [DecidableEq S] {ev : Event C S ω}

lemma load_insertPit (fw : Forwarder C S) (i : InterestPacket C S) :
    load f (fw.insertPit i).1 = load f fw := by
  unfold Forwarder.insertPit
  split
  · rfl
  · simp [load, Entry.unanswered]

lemma load_stage (hf : s.Fits E fw) (h : stage E fw s = some fw') :
    load f fw' ≤ load f fw + cost f s := by
  cases s with
  | advance d =>
    cases h
    exact Nat.le_refl _
  | loop g i =>
    cases h
    unfold Forwarder.onInterestLoop
    split
    · exact Nat.le_add_right ..
    · rw [load_send]
      exact Nat.add_le_add_left (answersOn_le g _) _
  | insert i =>
    cases h
    exact Nat.le_of_eq (load_insertPit fw i)
  | cancel e =>
    cases h
    exact Nat.le_of_eq (load_cancel fw e)
  | miss g e i =>
    cases h
    exact load_missed fw g e i
  | hit g e d =>
    cases h
    have hdata := load_onOutgoingData (E := E) (f := f)
      (fw.setStragglerTimer e true d.freshnessPeriod) d g
    rwa [load_setStragglerTimer] at hdata
  | call a => exact load_perform h
  | satisfied e inFace d =>
    cases h
    obtain ⟨-, x, hx, -⟩ := hf
    have hsat := load_satisfied (E := E) (f := f) inFace d hx
    omega
  | deliver d g =>
    cases h
    exact load_onOutgoingData fw d g
  | nacked e g reason | unsatisfyFired e =>
    cases h
    exact Nat.le_of_eq (load_rewrite fw e fun _ => rfl)
  | unsatisfied e =>
    cases h
    exact Nat.le_of_eq load_onInterestFinalize
  | stragglerFired e =>
    obtain ⟨x, -, h⟩ := bind_eq_some_iff.mp h
    obtain ⟨t, -, h⟩ := bind_eq_some_iff.mp h
    cases h
    exact Nat.le_of_eq (load_onInterestFinalize.trans (load_rewrite fw e fun _ => rfl))

lemma load_path {l : List (Stage C S)} (h : Path (stage E) (Stage.Fits E) fw l fw') :
    load f fw' ≤ load f fw + (l.map (cost f)).sum := by
  induction h with
  | nil => exact Nat.le_refl _
  | cons hf hs _ ih =>
    have hone := load_stage (f := f) hf hs
    simp only [map_cons, sum_cons]
    omega

lemma load_step (hdata : ∀ g d l, ev ≠ .data g d l) (h : step E strategy n ev = some n') :
    load f n'.fw ≤ load f n.fw + received f [ev] := by
  have hpath := load_path (f := f) (path_of_step h)
  have hcost : ((stagesOf E strategy n ev).map (cost f)).sum ≤ received f [ev] := by
    have hone : ∀ g i isDeadNonce csMatch, received f [(.interest g i isDeadNonce csMatch :
        Event C S ω)] = if g = f then 1 else 0 := fun _ _ _ _ => by
      simp [received, isInterestOn, countP_singleton]
    cases course_of_step h with
    | advance | stragglerTimer => exact Nat.zero_le _
    | interestIgnored hs | nackIgnored hs =>
      rw [hs]
      exact Nat.zero_le _
    | deadNonce _ hs | duplicateNonce _ _ _ _ hs | hit _ _ _ _ hs =>
      rw [hs, hone]
      simp [cost]
    | miss _ _ _ _ hs =>
      rw [hs, hone, map_cons, map_cons, sum_cons, sum_cons, cost_missStages]
      simp [cost]
    | dataIgnored | data => exact absurd rfl (hdata _ _ _)
    | nack _ _ _ hs =>
      rw [hs, map_cons, sum_cons, cost_calls]
      exact Nat.zero_le _
    | unsatisfyTimer =>
      simp only [stagesOf, map_append, map_cons, sum_append, sum_cons, cost_calls]
      simp [cost]
    | strategy =>
      rw [stagesOf, cost_calls]
      exact Nat.zero_le _
  omega

lemma load_event (hok : NoNackBeforeData E strategy n ev)
    (h : step E strategy n ev = some n') : load f n'.fw ≤ load f n.fw + received f [ev] := by
  cases ev with
  | data inFace d pitMatches =>
    simp only [step] at h
    split at h
    · exact load_data hok h
    · cases h
  | _ => exact load_step (by simp) h

lemma load_le_received {st : σ} {evs : List (Event C S ω)}
    (h : Path (step E strategy) (NoNackBeforeData E strategy) ⟨{}, st⟩ evs n) :
    load f n.fw ≤ received f evs := by
  refine h.invariant (I := fun evs n => load f n.fw ≤ received f evs) (Nat.le_refl _) ?_
  intro evs n ev n' ih hok hs
  have hstep := load_event (f := f) hok hs
  rw [received, countP_append]
  exact hstep.trans (Nat.add_le_add_right ih _)

lemma sent_path {l : List (Stage C S)} (h : Path (stage E) (Stage.Fits E) fw l fw') :
    fw.sent <+: fw'.sent := by
  induction h with
  | nil => exact prefix_refl _
  | cons _ hs _ ih =>
    rcases stage_sent hs with heq | ⟨g, p, heq, -⟩
    · exact heq ▸ ih
    · exact (prefix_append _ _).trans (heq ▸ ih)

/-- As long as no trigger Nacks a downstream that the Data is sent to anyway, a face gets at most
one Data or Nack for each Interest received on it, at every stage of every run. -/
theorem flow_balance (E : Setting C S) (strategy : Strategy C S σ ω) (st : σ)
    {evs : List (Event C S ω)}
    (h : Path (step E strategy) (NoNackBeforeData E strategy) ⟨{}, st⟩ evs n) (f : FaceId) :
    answersOn f n.fw.sent ≤ received f evs ∧
    ∀ ev n', NoNackBeforeData E strategy n ev → step E strategy n ev = some n' →
      ∀ before after fw, stagesOf E strategy n ev = before ++ after →
        run (stage E) n.fw before = some fw →
        answersOn f fw.sent ≤ received f (evs ++ [ev]) := by
  refine ⟨(Nat.le_add_right _ _).trans (load_le_received h), ?_⟩
  intro ev n' hok hs before after fw hsplit hrun
  have hstages := path_of_step hs
  rw [hsplit] at hstages
  obtain ⟨fw₁, hbefore, hafter⟩ := hstages.split
  obtain rfl : fw₁ = fw := some.inj (hbefore.run_eq.symm.trans hrun)
  have hend : answersOn f n'.fw.sent ≤ received f (evs ++ [ev]) :=
    (Nat.le_add_right _ _).trans (load_le_received (h.append (.single hok hs)))
  exact ((sent_path hafter).sublist.countP_le).trans hend

/-- With a strategy that Nacks nothing, the Interest is answered once. -/
theorem flow_balance_answered :
    ∃ n, Path (step localSetting (toFace 2)) (NoNackBeforeData localSetting (toFace 2)) ⟨{}, ()⟩
        exchange n ∧ (1, .data ⟨[5], none⟩) ∈ n.fw.sent ∧
      answersOn 1 n.fw.sent ≤ received 1 exchange := by
  obtain ⟨n, hpath, hsent⟩ : ∃ n, Path (step localSetting (toFace 2))
      (NoNackBeforeData localSetting (toFace 2)) ⟨{}, ()⟩ exchange n ∧
      (1, .data ⟨[5], none⟩) ∈ n.fw.sent :=
    ⟨_, path_of_run (noNackBeforeData_toFace 2) rfl, by decide⟩
  exact ⟨n, hpath, hsent, (flow_balance localSetting (toFace 2) () hpath 1).1⟩

def nackOnData (f : FaceId) : Strategy C S Unit Unit :=
  { toFace f with
    beforeSatisfyInterest := fun _ e _ _ _ => some ((), [.sendNack e 1 .congestion]) }

/-- One Interest from face 1 is answered with a Nack and with Data. -/
theorem answered_twice :
    ∃ n, Path (step localSetting (nackOnData 2)) Any ⟨{}, ()⟩ exchange n ∧
      n.fw.sent = [(2, .interest ⟨⟨[5], ()⟩, 7, none⟩),
        (1, .nack ⟨⟨[5], ()⟩, 7, none⟩ .congestion), (1, .data ⟨[5], none⟩)] ∧
      ¬ answersOn 1 n.fw.sent ≤ received 1 exchange :=
  ⟨_, path_of_run (fun _ _ => trivial) rfl, by decide, by decide⟩

end NfdGateway.Fw
