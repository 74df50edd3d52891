import NfdGateway.Cs.Store

/-! What the operations of the store do to the entries of its table. -/
namespace NfdGateway.Cs

open Store List Option

variable {C X S P : Type} {table : List (Entry C X)} {i : EntryId} {e : Entry C X}
  {f : Entry C X → Entry C X}

section

variable (hf : ∀ e, (f e).id = e.id)
include hf

lemma ids_modifyEntry (table : List (Entry C X)) (i : EntryId) :
    (modifyEntry table i f).map (·.id) = table.map (·.id) := by
  unfold modifyEntry
  rw [List.map_map]
  refine map_congr_left fun e _ => ?_
  dsimp only [Function.comp]
  split
  · exact hf e
  · rfl

lemma mem_of_mem_modifyEntry (he : e ∈ modifyEntry table i f) (hne : e.id ≠ i) : e ∈ table := by
  obtain ⟨e', he', rfl⟩ := List.mem_map.mp he
  by_cases hid : e'.id = i
  · rw [if_pos hid, hf] at hne
    exact absurd hid hne
  · rwa [if_neg hid]

lemma exists_of_mem_modifyEntry (hflag : ∀ e, (f e).isUnsolicited = true → e.isUnsolicited = true)
    (he : e ∈ modifyEntry table i f) :
    ∃ e' ∈ table, e'.id = e.id ∧ (e.isUnsolicited = true → e'.isUnsolicited = true) := by
  obtain ⟨e', he', rfl⟩ := List.mem_map.mp he
  refine ⟨e', he', ?_⟩
  split
  · exact ⟨(hf e').symm, hflag e'⟩
  · exact ⟨rfl, id⟩

end

namespace Store

variable {s : Store C X P}

lemma length_entryIds (s : Store C X P) : s.entryIds.length = s.size := length_map _

lemma eq_of_id_eq {e' : Entry C X} (h : s.entryIds.Nodup) (he : e ∈ s.table)
    (he' : e' ∈ s.table) (hid : e.id = e'.id) : e = e' :=
  inj_on_of_nodup_map h he he' hid

lemma entryIds_eraseEntry (s : Store C X P) (i : EntryId) :
    (s.eraseEntry i).entryIds = s.entryIds.erase i := by
  unfold entryIds eraseEntry
  induction s.table with
  | nil => rfl
  | cons e table ih =>
    by_cases he : e.id = i
    · simp [he]
    have hne : (e.id == i) = false := beq_false_of_ne he
    simp only [eraseP_cons, map_cons, erase_cons, he, hne, decide_false,
      Bool.false_eq_true, if_false, cond_false, ih]

lemma size_eraseEntry (hi : i ∈ s.entryIds) : (s.eraseEntry i).size + 1 = s.size := by
  have hpos := length_pos_of_mem hi
  have hlength := length_erase_of_mem hi
  rw [← length_entryIds, entryIds_eraseEntry, ← length_entryIds]
  omega

lemma exists_entry? (hi : i ∈ s.entryIds) : ∃ e ∈ s.table, e.id = i ∧ s.entry? i = some e := by
  obtain ⟨e, he, rfl⟩ := List.mem_map.mp hi
  have hsome : (s.entry? e.id).isSome = true := find?_isSome.mpr ⟨e, he, by simp⟩
  obtain ⟨e', he'⟩ := isSome_iff_exists.mp hsome
  exact ⟨e', mem_of_find?_eq_some he', by simpa using find?_some he', he'⟩

lemma evictWhile_eq_some {evictOne : Store C X P → Option (Store C X P)} {I : Store C X P → Prop}
    (hone : ∀ s, I s → s.limit < s.size →
      ∃ t, evictOne s = some t ∧ I t ∧ t.size + 1 = s.size ∧ t.limit = s.limit)
    {fuel : ℕ} (hfuel : s.size ≤ fuel + s.limit) (hs : I s) :
    ∃ t, evictWhile evictOne fuel s = some t ∧ I t ∧ t.size ≤ t.limit ∧ t.limit = s.limit := by
  induction fuel generalizing s with
  | zero =>
    rw [evictWhile, if_neg (by omega)]
    exact ⟨s, rfl, hs, by omega, rfl⟩
  | succ fuel ih =>
    rw [evictWhile]
    split
    next hlt =>
      obtain ⟨t, ht, hI, hsize, hlimit⟩ := hone s hs hlt
      obtain ⟨u, hu, hIu, hle, hlimit'⟩ := ih (by omega) hI
      exact ⟨u, by rw [ht]; exact hu, hIu, hle, hlimit'.trans hlimit⟩
    · exact ⟨s, rfl, hs, by omega, rfl⟩

end Store

variable [LinearOrder C]

lemma insertEntry_cases (K : Components C) (table : List (Entry C X)) (e : Entry C X) :
    (∃ table', insertEntry K table e = (table', e.id, true) ∧ table'.Perm (e :: table)) ∨
    ∃ other ∈ table, insertEntry K table e = (table, other.id, false) := by
  have hperm : ∀ n, (table.take n ++ e :: table.drop n).Perm (e :: table) := by
    intro n
    refine perm_middle.trans ?_
    rw [take_append_drop]
  unfold insertEntry
  dsimp only
  split
  · exact .inl ⟨_, rfl, hperm _⟩
  rename_i other hother
  split
  · exact .inl ⟨_, rfl, hperm _⟩
  · exact .inr ⟨other, mem_of_getElem? hother, rfl⟩

lemma search_mem {K : Components C} {matchesData : Interest C S → Data C X → Bool}
    {table : List (Entry C X)} {interest : Interest C S} {now : EntryId → Time} {e : Entry C X}
    (h : search K matchesData table interest now = some (some e)) : e ∈ table := by
  obtain ⟨position, -, hposition⟩ := bind_eq_some_iff.mp h
  generalize (if 0 < interest.name.length then
    lowerBound K table (.query (getSuccessor K interest.name))
    else table.length) = last at hposition
  split at hposition
  · cases hposition
  obtain ⟨e', he', heq⟩ := map_eq_some_iff.mp hposition
  cases heq
  exact mem_of_getElem? he'

lemma insertData_cases (K : Components C) (table : List (Entry C X)) (id : EntryId)
    (data : Data C X) (isUnsolicited : Bool) (now : Readings) :
    ∃ table' i isNewEntry, insertData K table id data isUnsolicited now = (table', i, isNewEntry) ∧
      (∀ e ∈ table', e.id ≠ i → e ∈ table) ∧
      (∀ e ∈ table', e.isUnsolicited = true → e.id ≠ id →
        ∃ e' ∈ table, e'.id = e.id ∧ e'.isUnsolicited = true) ∧
      (isNewEntry = true ∧ i = id ∧ (table'.map (·.id)).Perm (id :: table.map (·.id)) ∨
        isNewEntry = false ∧ i ∈ table.map (·.id) ∧ table'.map (·.id) = table.map (·.id)) := by
  unfold insertData
  generalize hnew :
    Entry.setData ⟨id, data, isUnsolicited, none⟩ data isUnsolicited now.construct = new
  have hid : new.id = id := hnew ▸ rfl
  have hupdate : ∀ e : Entry C X, (e.updateStaleTime now.updateStaleTime).id = e.id := fun _ => rfl
  have hunset : ∀ e : Entry C X, (if (e.isUnsolicited && !isUnsolicited) = true then
      e.unsetUnsolicited now.unsetUnsolicited else e).id = e.id := by
    intro e
    split <;> rfl
  have hkeep : ∀ e : Entry C X, (if (e.isUnsolicited && !isUnsolicited) = true then
      e.unsetUnsolicited now.unsetUnsolicited else e).isUnsolicited = true →
      e.isUnsolicited = true := by
    intro e h
    split at h
    · cases h
    · exact h
  rcases insertEntry_cases K table new with ⟨table', hinsert, hperm⟩ | ⟨other, hother, hinsert⟩
  · simp only [hinsert, hid, Bool.not_true, Bool.false_eq_true, if_false]
    refine ⟨_, _, _, rfl, ?_, ?_, .inl ⟨rfl, rfl, ?_⟩⟩
    · intro e he hne
      have hmem := hperm.mem_iff.mp (mem_of_mem_modifyEntry hupdate he hne)
      rcases mem_cons.mp hmem with rfl | hmem
      · exact absurd hid hne
      · exact hmem
    · intro e he hflag hne
      obtain ⟨e', he', heid, hkeep⟩ := exists_of_mem_modifyEntry hupdate (fun _ h => h) he
      rcases mem_cons.mp (hperm.mem_iff.mp he') with rfl | he'
      · exact absurd (heid.symm.trans hid) hne
      · exact ⟨e', he', heid, hkeep hflag⟩
    · rw [ids_modifyEntry hupdate, ← hid]
      exact hperm.map _
  · simp only [hinsert, Bool.not_false, if_true]
    refine ⟨_, _, _, rfl, ?_, ?_, .inr ⟨rfl, List.mem_map_of_mem hother, ?_⟩⟩
    · intro e he hne
      exact mem_of_mem_modifyEntry hupdate (mem_of_mem_modifyEntry hunset he hne) hne
    · intro e he hflag _
      obtain ⟨e₁, he₁, hid₁, hkeep₁⟩ := exists_of_mem_modifyEntry hunset hkeep he
      obtain ⟨e₂, he₂, hid₂, hkeep₂⟩ := exists_of_mem_modifyEntry hupdate (fun _ h => h) he₁
      exact ⟨e₂, he₂, hid₂.trans hid₁, hkeep₂ (hkeep₁ hflag)⟩
    · rw [ids_modifyEntry hunset, ids_modifyEntry hupdate]

def touched (K : Components C) (matchesData : Interest C S → Data C X → Bool) (s : Store C X P) :
    Operation C X S → List EntryId
  | .insert data isUnsolicited now =>
    if s.limit = 0 then []
    else if data.noCache then []
    else [(insertData K s.table s.nextId data isUnsolicited now).2.1]
  | .find interest now =>
    match search K matchesData s.table interest now with
    | some (some e) => [e.id]
    | _ => []
  | .setLimit _ => []

end NfdGateway.Cs
