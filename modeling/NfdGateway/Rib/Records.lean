import NfdGateway.Rib.Calls

/-! The records of inherited routes go with the nexthops that are added for them. -/
namespace NfdGateway.FibUpdater

open List Option

variable {C : Type} [LinearOrder C] {R : Rib C} {calls calls' : List (Call C)}
  {k : Name C × FaceId} {n : Name C} {f : FaceId} {cost : ℕ} {e temp : RibEntry C}
  {r existing : Route} {children : List (Name C)}

def Backed (calls : List (Call C)) (k : Name C × FaceId) : Prop :=
  (∀ c, pending calls k = some (some c) → recorded calls k = some true) ∧
    (pending calls k = none → recorded calls k = none)

lemma Scripted.backed (h : Scripted calls k) : Backed calls k := by
  rw [Backed, h.record]
  exact ⟨fun c hc => by simp [hc], fun hn => by simp [hn]⟩

lemma Backed.append (h : Backed calls k) (h' : Backed calls' k) : Backed (calls ++ calls') k := by
  rw [Backed, pending_append, recorded_append]
  cases hp : pending calls' k with
  | none =>
    rw [h'.2 hp, none_or, none_or]
    exact h
  | some v =>
    refine ⟨fun c hc => ?_, fun hn => by simp at hn⟩
    rw [h'.1 c (by simpa [hp] using hc), some_or]

lemma backed_nil : Backed ([] : List (Call C)) k := scripted_nil.backed

lemma backed_remove : Backed [.fibUpdate (.createRemoveUpdate n f)] k := by
  refine ⟨fun c hc => ?_, fun _ => rfl⟩
  by_cases hk : k = (n, f) <;> simp [hk] at hc

lemma backed_add (h : k ≠ (n, f)) : Backed [.fibUpdate (.createAddUpdate n f cost)] k :=
  ⟨fun c hc => by simp [h] at hc, fun _ => rfl⟩

lemma backed_newEntry (h : k ≠ (n, r.faceId)) :
    Backed (createFibUpdatesForNewRibEntry R n r children) k := by
  rw [createFibUpdatesForNewRibEntry, ← singleton_append]
  refine (backed_add h).append ?_
  split
  · exact scripted_addInheritedRoutesIgnoring.backed
  split
  · exact scripted_modify.backed
  split
  · exact (scripted_addInheritedRoutesIgnoring.append scripted_modify).backed
  · exact scripted_modify.backed

lemma backed_newRoute {on : Bool} (h : k ≠ (e.name, r.faceId)) :
    Backed (createFibUpdatesForNewRoute R e r on) k := by
  rw [createFibUpdatesForNewRoute]
  refine Backed.append (Backed.append ?_ scripted_modify.backed) ?_
  · split
    · exact scripted_removeInheritedRoutes.backed
    · exact backed_nil
  · split
    · exact backed_add h
    · exact backed_nil

lemma backed_own {own : List (Call C)} (h : k ≠ (e.name, r.faceId))
    (hown : ownUpdateForUpdatedRoute e r existing = some own) : Backed own k := by
  have hpend := (pending_ownUpdate hown).1 k h
  refine ⟨fun c hc => by simp [hpend] at hc, fun _ => ?_⟩
  obtain ⟨lowest, -, hown⟩ := bind_eq_some_iff.mp hown
  split at hown
  · cases hown
    rfl
  split at hown
  · obtain ⟨prev, -, rfl⟩ := map_eq_some_iff.mp hown
    rfl
  · cases hown
    rfl

lemma backed_updated (h : k ≠ (e.name, r.faceId))
    (hu : createFibUpdatesForUpdatedRoute R e r existing = some calls) : Backed calls k := by
  rcases updated_calls hu with ⟨-, -, rfl⟩ | ⟨own, hown, rfl⟩
  · exact backed_nil
  have hownb : Backed own k := by
    split at hown
    · rw [hown]
      exact backed_nil
    · exact backed_own h hown
  refine hownb.append ?_
  split
  · exact scripted_modify.backed
  refine Backed.append ?_ ?_
  · rw [childInheritUpdates]
    split
    · split
      · exact scripted_modify.backed
      · exact backed_nil
    · split
      · exact scripted_modify.backed
      · exact backed_nil
  · rw [captureUpdates]
    split
    · exact (scripted_removeInheritedRoutes.append scripted_modify).backed
    split
    · exact (scripted_addInheritedRoutes.append scripted_modify).backed
    · exact backed_nil

lemma backed_erasedRoute {off : Bool} :
    Backed (createFibUpdatesForErasedRoute R temp existing off) k := by
  rw [createFibUpdatesForErasedRoute, ← singleton_append]
  refine backed_remove.append (Backed.append ?_ ?_)
  · have hself : ∀ b : Bool, ∀ s, Backed (if b then addInheritedRoutes temp s else []) k := by
      intro b s
      split
      · exact scripted_addInheritedRoutes.backed
      · exact backed_nil
    have hmod : ∀ add rem, Backed (modifyChildrensInheritedRoutes R temp.children add rem) k :=
      fun _ _ => scripted_modify.backed
    rw [erasedRouteUpdates]
    split
    · exact (hself _ _).append (hmod _ _)
    split
    · exact hmod _ _
    split
    · exact (hself _ _).append (hmod _ _)
    · exact backed_nil
  · split
    · split
      · exact scripted_addInheritedNexthop.backed
      · exact backed_nil
    · exact backed_nil

lemma backed_erasedEntry : Backed (createFibUpdatesForErasedRibEntry e) k := by
  rw [createFibUpdatesForErasedRibEntry]
  induction e.inheritedRoutes with
  | nil => exact backed_nil
  | cons w l ih => exact backed_remove.append ih

lemma backed_erasedCalls {next : Option Route} {off : Bool} {last : Prop} [Decidable last]
    (h : ∀ b, next = some b → k ≠ (temp.name, b.faceId)) :
    Backed (erasedCalls R e temp existing next off last) k := by
  have hlast : Backed (if last then createFibUpdatesForErasedRibEntry e else []) k := by
    split
    · exact backed_erasedEntry
    · exact backed_nil
  cases next with
  | none => exact (backed_erasedRoute.append backed_nil).append hlast
  | some b => exact (backed_erasedRoute.append (backed_newRoute (h b rfl))).append hlast

end NfdGateway.FibUpdater
