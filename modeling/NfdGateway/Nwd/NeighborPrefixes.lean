import NfdGateway.Location.Destination

/-! The neighbors that `getNeighborsCoordinate` reads off the FIB, among the prefixes of all other
applications. -/
namespace NfdGateway.Nwd

open StdString Location List Option

structure FibEntry where
  name : Suffix
  nexthops : List FaceId

def fibEntryName (e : FibEntry) : List Char :=
  (if e.name.components = [] then ['/'] else joined [] e.name.components) ++ ['\n']

def selected (fibEntryName : List Char) : Bool :=
  contains fibEntryName nfd && fibEntryName.any Char.isDigit

def position (S : Stod) (fibEntryName : List Char) : Option Coordinate := do
  let pos1 := find fibEntryName '/' 1
  let pos2 := find fibEntryName '/' (next pos1)
  let positionX ← S.value (← between fibEntryName pos1 pos2)
  let positionY ← S.value (← substr fibEntryName (next pos2) npos)
  return ⟨positionX, positionY⟩

def neighborsOf (S : Stod) (e : FibEntry) : Option NeighborsList :=
  if selected (fibEntryName e) then
    (position S (fibEntryName e)).map fun c => e.nexthops.map (c, ·)
  else some []

def getNeighborsCoordinate (S : Stod) (fib : List FibEntry) (neighborsList : NeighborsList) :
    Option NeighborsList :=
  fib.foldlM (fun neighborsList e => (neighborsOf S e).map (neighborsList ++ ·)) neighborsList

def numeric (S : Stod) (c : List Char) : Bool :=
  c.any Char.isDigit && (S.parse c).any (·.2 = c.length)

def isNeighborPrefix (S : Stod) (e : FibEntry) : Bool :=
  match e.name.components with
  | [app, x, y] => app == ['n', 'f', 'd'] && numeric S x && numeric S y
  | _ => false

def expectedOf (S : Stod) (e : FibEntry) : NeighborsList :=
  if isNeighborPrefix S e then
    (destinationOf S e.name.components.tail).toList.flatMap fun c => e.nexthops.map (c, ·)
  else []

variable {S : Stod} {e : FibEntry} {l : NeighborsList} {fib : List FibEntry}

lemma value_slash (S : Stod) (t s : List Char) : S.value (t ++ '/' :: s) = S.value t := by
  rw [Stod.value, S.slash, Stod.value]

lemma value_newline (S : Stod) (t : List Char) : S.value (t ++ ['\n']) = S.value t := by
  rw [Stod.value, S.newline, Stod.value]

lemma position_joined (S : Stod) {app : List Char} {cs : List (List Char)}
    (hslash : ∀ c ∈ app :: cs, '/' ∉ c) (hsize : (joined [] (app :: cs)).length < 2 ^ 63) :
    position S (joined [] (app :: cs) ++ ['\n']) = destinationOf S cs := by
  have happ : '/' ∉ app := hslash app (.head _)
  have hnpos : npos = 2 ^ 64 - 1 := rfl
  match cs with
  | [] =>
    have happ' : '/' ∉ app ++ ['\n'] := by simpa using happ
    have hname : joined [] [app] ++ ['\n'] = '/' :: (app ++ ['\n']) := by simp [joined]
    have hx : between ('/' :: (app ++ ['\n'])) npos 0 = some [] := between_npos (Nat.zero_le _)
    have hpos2 : find ('/' :: (app ++ ['\n'])) '/' 0 = 0 := rfl
    rw [hname]
    simp [position, find_second_none happ', hpos2, hx, value_nil, destinationOf]
  | [x] =>
    have hx' : '/' ∉ x ++ ['\n'] := by simpa using hslash x (.tail _ (.head _))
    have hname : joined [] [app, x] ++ ['\n'] = '/' :: app ++ '/' :: (x ++ ['\n']) := by
      simp [joined]
    have hlen : (joined [] [app, x] ++ ['\n']).length ≤ npos := by
      rw [length_append, length_singleton]
      omega
    rw [hname] at hlen ⊢
    have hpos2 := find_next_none (p := '/' :: app) hx'
      (by simp only [length_append, length_cons] at hlen ⊢; omega)
    have hy : substr ('/' :: app ++ '/' :: (x ++ ['\n'])) 0 npos =
        some ('/' :: app ++ '/' :: (x ++ ['\n'])) := by
      rw [substr, if_neg (Nat.not_lt_zero _), drop_zero, take_of_length_le hlen]
    have hnone : S.value ('/' :: app ++ '/' :: (x ++ ['\n'])) = none :=
      (value_slash S [] _).trans (value_nil S)
    simp only [position, find_second happ, hpos2, next_npos, hy, bind_eq_bind,
      bind_some, hnone, bind_none, bind_fun_none, destinationOf]
  | x :: y :: rest =>
    have hx : '/' ∉ x := hslash x (.tail _ (.head _))
    have hname : joined [] (app :: x :: y :: rest) ++ ['\n'] =
        '/' :: app ++ '/' :: (x ++ '/' :: (y ++ joined [] rest ++ ['\n'])) := by
      simp [joined]
    have hassoc : '/' :: app ++ '/' :: (x ++ '/' :: (y ++ joined [] rest ++ ['\n'])) =
        '/' :: app ++ '/' :: x ++ '/' :: (y ++ joined [] rest ++ ['\n']) := by simp
    have hlen : (joined [] (app :: x :: y :: rest) ++ ['\n']).length ≤ npos := by
      rw [length_append, length_singleton]
      omega
    rw [hname] at hlen ⊢
    have hlen' : ('/' :: app ++ '/' :: x).length ≤ npos := by
      rw [hassoc, length_append] at hlen
      omega
    have happ' : ('/' :: app).length < npos := by
      simp only [length_append, length_cons] at hlen' ⊢
      omega
    have hx' : between ('/' :: app ++ '/' :: (x ++ '/' :: (y ++ joined [] rest ++ ['\n'])))
        ('/' :: app).length ('/' :: app ++ '/' :: x).length = some x := between_append hlen' _
    have hy' : substr ('/' :: app ++ '/' :: (x ++ '/' :: (y ++ joined [] rest ++ ['\n'])))
        (next ('/' :: app ++ '/' :: x).length) npos = some (y ++ joined [] rest ++ ['\n']) := by
      rw [hassoc] at hlen ⊢
      exact substr_next hlen
    have hvalue : S.value (y ++ joined [] rest ++ ['\n']) = S.value y := by
      cases rest with
      | nil => rw [joined_nil, append_nil, value_newline]
      | cons z rest =>
        have hz : y ++ joined [] (z :: rest) ++ ['\n'] =
            y ++ '/' :: (z ++ joined [] rest ++ ['\n']) := by simp [joined]
        rw [hz, value_slash]
    simp only [position, find_second happ, find_next hx happ', hx', hy', hvalue,
      bind_eq_bind, bind_some, destinationOf, map_eq_bind]
    rfl

lemma position_fibEntryName (hsel : selected (fibEntryName e) = true) :
    position S (fibEntryName e) = destinationOf S e.name.components.tail := by
  obtain ⟨⟨cs, hslash, hsize⟩, nexthops⟩ := e
  cases cs with
  | nil => exact absurd (show selected ['/', '\n'] = true from hsel) (by decide)
  | cons app cs => exact position_joined S hslash hsize

lemma selected_of_isNeighborPrefix (h : isNeighborPrefix S e = true) :
    selected (fibEntryName e) = true ∧ ∃ c, destinationOf S e.name.components.tail = some c := by
  obtain ⟨⟨cs, hslash, hsize⟩, nexthops⟩ := e
  unfold isNeighborPrefix at h
  dsimp only at h
  split at h
  next app x y =>
    simp only [Bool.and_eq_true, beq_iff_eq, numeric] at h
    obtain ⟨⟨rfl, hdigit, hx⟩, -, hy⟩ := h
    constructor
    · have hname : fibEntryName ⟨⟨[['n', 'f', 'd'], x, y], hslash, hsize⟩, nexthops⟩ =
          nfd ++ ('/' :: x ++ '/' :: y ++ ['\n']) := by
        simp [fibEntryName, joined, nfd]
      rw [selected, hname, contains, Bool.and_eq_true]
      refine ⟨decide_eq_true (prefix_append _ _).isInfix, ?_⟩
      simp [hdigit]
    · obtain ⟨u, hu⟩ := isSome_iff_exists.mp (isSome_of_any hx)
      obtain ⟨v, hv⟩ := isSome_iff_exists.mp (isSome_of_any hy)
      exact ⟨⟨u.1, v.1⟩, by simp [destinationOf, Stod.value, hu, hv]⟩
  · cases h

lemma neighborsOf_eq_iff : neighborsOf S e = some (expectedOf S e) ↔
    (selected (fibEntryName e) = true →
      (destinationOf S e.name.components.tail).isSome ∧
        (isNeighborPrefix S e = true ∨ e.nexthops = [])) := by
  unfold neighborsOf expectedOf
  by_cases hneighbor : isNeighborPrefix S e = true
  · obtain ⟨hsel, c, hc⟩ := selected_of_isNeighborPrefix hneighbor
    rw [if_pos hsel, if_pos hneighbor, position_fibEntryName hsel, hc]
    simp [hneighbor]
  by_cases hsel : selected (fibEntryName e) = true
  · rw [if_pos hsel, if_neg hneighbor, position_fibEntryName hsel]
    cases destinationOf S e.name.components.tail <;> simp [hsel, hneighbor]
  · rw [if_neg hsel, if_neg hneighbor]
    simp [hsel]

lemma length_expectedOf_le (h : neighborsOf S e = some l) : (expectedOf S e).length ≤ l.length := by
  by_cases hneighbor : isNeighborPrefix S e = true
  · obtain ⟨-, c, hc⟩ := selected_of_isNeighborPrefix hneighbor
    have hsome : (destinationOf S e.name.components.tail).isSome = true := by rw [hc]; rfl
    have heq := neighborsOf_eq_iff.mpr fun _ => ⟨hsome, .inl hneighbor⟩
    rw [← some.inj (heq.symm.trans h)]
  · rw [expectedOf, if_neg hneighbor]
    exact Nat.zero_le _

lemma getNeighborsCoordinate_cons (S : Stod) (e : FibEntry) (fib : List FibEntry)
    (l : NeighborsList) :
    getNeighborsCoordinate S (e :: fib) l =
      (neighborsOf S e).bind fun added => getNeighborsCoordinate S fib (l ++ added) := by
  rw [getNeighborsCoordinate, foldlM_cons]
  cases neighborsOf S e <;> rfl

lemma length_expected_le {r : NeighborsList} (h : getNeighborsCoordinate S fib l = some r) :
    ∃ added, r = l ++ added ∧ (fib.flatMap (expectedOf S)).length ≤ added.length := by
  induction fib generalizing l with
  | nil => exact ⟨[], by simpa [getNeighborsCoordinate] using h.symm, Nat.le_refl _⟩
  | cons e fib ih =>
    rw [getNeighborsCoordinate_cons] at h
    obtain ⟨first, hfirst, h⟩ := bind_eq_some_iff.mp h
    obtain ⟨added, rfl, hle⟩ := ih h
    refine ⟨first ++ added, append_assoc .., ?_⟩
    rw [flatMap_cons, length_append, length_append]
    exact Nat.add_le_add (length_expectedOf_le hfirst) hle

lemma getNeighborsCoordinate_eq_iff :
    getNeighborsCoordinate S fib l = some (l ++ fib.flatMap (expectedOf S)) ↔
      ∀ e ∈ fib, neighborsOf S e = some (expectedOf S e) := by
  induction fib generalizing l with
  | nil => simp [getNeighborsCoordinate]
  | cons e fib ih =>
    rw [getNeighborsCoordinate_cons, flatMap_cons, forall_mem_cons, ← append_assoc]
    constructor
    · intro h
      obtain ⟨first, hfirst, h⟩ := bind_eq_some_iff.mp h
      obtain ⟨added, heq, hle⟩ := length_expected_le h
      rw [append_assoc, append_assoc, append_cancel_left_eq] at heq
      have hlength := congrArg List.length heq
      rw [length_append, length_append] at hlength
      have hle' := length_expectedOf_le hfirst
      obtain ⟨rfl, -⟩ := append_inj heq (by omega)
      exact ⟨hfirst, ih.mp h⟩
    · rintro ⟨hfirst, hrest⟩
      rw [hfirst]
      exact ih.mpr hrest

/-- The neighbors added are those of the prefixes `/nfd/<x>/<y>` exactly if every prefix that passes
the test has two further components that begin with numbers, and is such a prefix or has no next
hop. -/
theorem neighbors_exact_iff (S : Stod) (fib : List FibEntry) (neighborsList : NeighborsList) :
    getNeighborsCoordinate S fib neighborsList =
        some (neighborsList ++ fib.flatMap (expectedOf S)) ↔
      ∀ e ∈ fib, selected (fibEntryName e) = true →
        (destinationOf S e.name.components.tail).isSome ∧
          (isNeighborPrefix S e = true ∨ e.nexthops = []) :=
  getNeighborsCoordinate_eq_iff.trans (forall₂_congr fun _ _ => neighborsOf_eq_iff)

def otherPrefix : FibEntry := ⟨⟨[['a', 'p', 'p'], ['n', 'f', 'd', '1']], by decide, by decide⟩, [7]⟩

/-- A prefix of another application that passes the test. -/
theorem other_prefix_throws : getNeighborsCoordinate .digits [otherPrefix] [] = none := by
  decide

end NfdGateway.Nwd
