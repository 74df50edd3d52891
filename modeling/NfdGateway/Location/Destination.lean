import NfdGateway.Location.Strategy
import NfdGateway.Nwd.Uri

/-! The destination of an Interest, cut out of its printed name. An exception unwinds the daemon;
`none` stands for one. -/
namespace NfdGateway.Location

open StdString Nwd List Option

def getPointLocation (interestName : List Char) : Option (List Char × List Char) := do
  let xStart := find interestName '/' 1
  let xEnd := find interestName '/' (next xStart)
  let yStart := xEnd
  let yEnd := find interestName '/' (next yStart)
  let pointX ← between interestName xStart xEnd
  let pointY ← between interestName yStart yEnd
  return (pointX, pointY)

def destination (S : Stod) (interestName : List Char) : Option Coordinate := do
  let (pointX, pointY) ← getPointLocation interestName
  let x ← S.value pointX
  let y ← S.value pointY
  return ⟨x, y⟩

section Callbacks

variable (P : Params) (S : Stod) (s : State) (inFace : FaceId) (name : List Char)

def onReceiveInterest (hasPendingOutRecords : Bool) : Option (Except Fault State) :=
  if hasPendingOutRecords then some (.ok s)
  else (destination S name).map fun dest => afterReceiveInterest P s inFace dest false

def onInterestExpiry : Option (RouteTable × List FaceId) :=
  (destination S name).map (interestExpiry s)

def onExpirePendingInterest : Option RouteTable :=
  (destination S name).map (beforeExpirePendingInterest s.table)

def onSatisfyInterest : Option RouteTable :=
  (s.neighbors.filter (·.2 = inFace)).foldlM
    (fun t n => (destination S name).map fun dest => t.mapDest dest (satisfyEntry n.1)) s.table

structure NoneThrows : Prop where
  receive : ∀ hasPendingOutRecords,
    (onReceiveInterest P S s inFace name hasPendingOutRecords).isSome
  interestExpiry : (onInterestExpiry S s name).isSome
  expire : (onExpirePendingInterest S s name).isSome
  satisfy : (onSatisfyInterest S s inFace name).isSome

structure AllUse (dest : Coordinate) : Prop where
  receive : onReceiveInterest P S s inFace name false =
    some (afterReceiveInterest P s inFace dest false)
  interestExpiry : onInterestExpiry S s name = some (Location.interestExpiry s dest)
  expire : onExpirePendingInterest S s name = some (beforeExpirePendingInterest s.table dest)
  satisfy : onSatisfyInterest S s inFace name = some (beforeSatisfyInterest s inFace dest)

end Callbacks

variable {P : Params} {S : Stod} {s : State} {inFace : FaceId} {name : List Char}
  {dest : Coordinate}

lemma allUse_of_destination (h : destination S name = some dest) :
    AllUse P S s inFace name dest := by
  refine ⟨?_, ?_, ?_, ?_⟩
  · rw [onReceiveInterest, if_neg nofun, h, map_some]
  · rw [onInterestExpiry, h, map_some]
  · rw [onExpirePendingInterest, h, map_some]
  · rw [onSatisfyInterest, h]
    exact foldlM_pure

lemma noneThrows_iff : NoneThrows P S s inFace name ↔ ∃ dest, destination S name = some dest := by
  constructor
  · intro h
    have hexpiry := h.interestExpiry
    rw [onInterestExpiry, isSome_map] at hexpiry
    exact isSome_iff_exists.mp hexpiry
  rintro ⟨dest, h⟩
  obtain ⟨hreceive, hexpiry, hexpire, hsatisfy⟩ : AllUse P S s inFace name dest :=
    allUse_of_destination h
  refine ⟨fun pending => ?_, by rw [hexpiry]; rfl, by rw [hexpire]; rfl, by rw [hsatisfy]; rfl⟩
  cases pending
  · rw [hreceive]
    rfl
  · rfl

def nfd : List Char := ['/', 'n', 'f', 'd']

def destinationOf (S : Stod) : List (List Char) → Option Coordinate
  | x :: y :: _ => (S.value x).bind fun x => (S.value y).map fun y => ⟨x, y⟩
  | _ => none

lemma value_nil (S : Stod) : S.value [] = none := by rw [Stod.value, S.nil, map_none]

lemma getPointLocation_cons {x y r : List Char} (hx : '/' ∉ x) (hy : '/' ∉ y)
    (hr : r = [] ∨ ∃ r', r = '/' :: r')
    (hlen : (nfd ++ '/' :: (x ++ '/' :: (y ++ r))).length ≤ npos) :
    getPointLocation (nfd ++ '/' :: (x ++ '/' :: (y ++ r))) = some (x, y) := by
  have hlength : (nfd ++ '/' :: (x ++ '/' :: (y ++ r))).length =
      x.length + y.length + r.length + 6 := by
    simp only [nfd, length_append, length_cons, length_nil]
    omega
  have hfirst : (nfd ++ '/' :: x).length = x.length + 5 := by
    simp only [nfd, length_append, length_cons, length_nil]
    omega
  have hsecond : (nfd ++ '/' :: x ++ '/' :: y).length = x.length + y.length + 6 := by
    simp only [nfd, length_append, length_cons, length_nil]
    omega
  have hnfd : nfd.length = 4 := rfl
  have hassoc : nfd ++ '/' :: (x ++ '/' :: (y ++ r)) = nfd ++ '/' :: x ++ '/' :: (y ++ r) := by simp
  have hxStart : find (nfd ++ '/' :: (x ++ '/' :: (y ++ r))) '/' 1 = nfd.length :=
    find_second (by decide) _
  have hxEnd := find_next (p := nfd) hx (by omega) (y ++ r)
  have hx' : between (nfd ++ '/' :: (x ++ '/' :: (y ++ r))) nfd.length (nfd ++ '/' :: x).length =
      some x := between_append (by omega) _
  have hy' : between (nfd ++ '/' :: (x ++ '/' :: (y ++ r))) (nfd ++ '/' :: x).length
      (find (nfd ++ '/' :: (x ++ '/' :: (y ++ r))) '/' (next (nfd ++ '/' :: x).length)) =
      some y := by
    rw [hassoc]
    rcases hr with rfl | ⟨r', rfl⟩
    · rw [append_nil, find_next_none hy (by omega)]
      refine between_end (by omega)
    · rw [find_next hy (by omega)]
      exact between_append (by omega) _
  simp only [getPointLocation, hxStart, hxEnd, hx', hy', bind_eq_bind, bind_some]
  rfl

lemma destination_joined (S : Stod) (name : Suffix) :
    destination S (joined nfd name.components) = destinationOf S name.components := by
  obtain ⟨cs, hslash, hsize⟩ := name
  have hlen : (joined nfd cs).length ≤ npos := by
    rw [length_joined]
    have hnpos : npos = 2 ^ 64 - 1 := rfl
    have hnfd : nfd.length = 4 := rfl
    omega
  match cs with
  | [] =>
    have hbad : getPointLocation nfd = some ([], ['n', 'f', 'd']) := by decide
    rw [joined_nil, destination, hbad]
    simp [destinationOf, value_nil]
  | [x] =>
    have hx : '/' ∉ x := hslash x (.head _)
    rw [joined_cons, joined_nil] at hlen ⊢
    have hxStart : find (nfd ++ '/' :: x) '/' 1 = nfd.length := find_second (by decide) _
    have hxEnd : find (nfd ++ '/' :: x) '/' (next nfd.length) = npos :=
      find_next_none hx (by decide)
    have hyEnd : find (nfd ++ '/' :: x) '/' 0 = 0 := rfl
    have hy : between (nfd ++ '/' :: x) npos 0 = some [] := between_npos (Nat.zero_le _)
    have hpoint : getPointLocation (nfd ++ '/' :: x) = some (x, []) := by
      simp [getPointLocation, hxStart, hxEnd, hyEnd, hy, between_end hlen]
    rw [destination, hpoint]
    simp [destinationOf, value_nil]
  | x :: y :: rest =>
    have hx : '/' ∉ x := hslash x (.head _)
    have hy : '/' ∉ y := hslash y (.tail _ (.head _))
    have hrest : joined nfd (x :: y :: rest) =
        nfd ++ '/' :: (x ++ '/' :: (y ++ joined [] rest)) := by
      simp [joined]
    have hend : joined [] rest = [] ∨ ∃ r, joined [] rest = '/' :: r := by
      cases rest with
      | nil => exact .inl rfl
      | cons z rest => exact .inr ⟨_, rfl⟩
    rw [hrest] at hlen ⊢
    rw [destination, getPointLocation_cons hx hy hend hlen]
    simp only [destinationOf, bind_eq_bind, bind_some, map_eq_bind]
    rfl

/-- No callback throws for a name exactly if its first two components after `/nfd` are there and
can be read as numbers; then all callbacks use the destination that these give. -/
theorem callbacks_safe_iff (P : Params) (S : Stod) (s : State) (inFace : FaceId) (name : Suffix) :
    (NoneThrows P S s inFace (joined nfd name.components) ↔
      ∃ x y rest, name.components = x :: y :: rest ∧ (S.value x).isSome ∧ (S.value y).isSome) ∧
    ∀ x y rest u v, name.components = x :: y :: rest → S.value x = some u → S.value y = some v →
      AllUse P S s inFace (joined nfd name.components) ⟨u, v⟩ := by
  constructor
  · rw [noneThrows_iff, destination_joined]
    constructor
    · rintro ⟨dest, h⟩
      match hcs : name.components, h with
      | x :: y :: rest, h =>
        obtain ⟨u, hu, h⟩ := bind_eq_some_iff.mp h
        obtain ⟨v, hv, -⟩ := map_eq_some_iff.mp h
        exact ⟨x, y, rest, rfl, by rw [hu]; rfl, by rw [hv]; rfl⟩
    · rintro ⟨x, y, rest, hcs, hx, hy⟩
      obtain ⟨u, hu⟩ := isSome_iff_exists.mp hx
      obtain ⟨v, hv⟩ := isSome_iff_exists.mp hy
      exact ⟨⟨u, v⟩, by simp [hcs, destinationOf, hu, hv]⟩
  · intro x y rest u v hcs hu hv
    refine allUse_of_destination ?_
    rw [destination_joined, hcs]
    simp [destinationOf, hu, hv]

def oneComponent : Suffix := ⟨[['1']], by decide, by decide⟩

/-- An Interest with one component too few. -/
theorem short_name_throws :
    ¬ NoneThrows frontParams .digits {} 1 (joined nfd oneComponent.components) := by
  rintro ⟨dest, h⟩
  cases h

end NfdGateway.Location
