import Mathlib

/-! The member functions of `std::string` that search and cut, with positions as 64-bit numbers,
`std::stoi` next to the conversion `%d` of `printf`, and what is used of `std::stod`. `none` stands
for an exception. -/
namespace StdString

open List

def npos : ℕ := 2 ^ 64 - 1

def next (pos : ℕ) : ℕ := (pos + 1) % 2 ^ 64

def prev (pos : ℕ) : ℕ := (pos + (2 ^ 64 - 1)) % 2 ^ 64

def gap (lo hi : ℕ) : ℕ := (hi + (2 ^ 64 - 1 - lo)) % 2 ^ 64

def find (s : List Char) (c : Char) (pos : ℕ) : ℕ :=
  match (s.drop pos).findIdx? (· == c) with
  | some i => pos + i
  | none => npos

def rfind (s : List Char) (c : Char) (pos : ℕ) : ℕ :=
  match (s.take (pos + 1)).reverse.findIdx? (· == c) with
  | some i => (s.take (pos + 1)).length - 1 - i
  | none => npos

def substr (s : List Char) (pos n : ℕ) : Option (List Char) :=
  if s.length < pos then none else some ((s.drop pos).take n)

def between (s : List Char) (lo hi : ℕ) : Option (List Char) := substr s (next lo) (gap lo hi)

def replace (s : List Char) (pos n : ℕ) (t : List Char) : Option (List Char) :=
  if s.length < pos then none else some (s.take pos ++ t ++ s.drop (pos + n))

variable {s p a b : List Char} {c : Char} {pos lo hi n : ℕ} {v : ℤ}

lemma findIdx?_eq_none (h : c ∉ a) : a.findIdx? (· == c) = none := by
  rw [findIdx?_eq_none_iff]
  intro x hx
  have hne : x ≠ c := fun he => h (he ▸ hx)
  simpa using hne

lemma findIdx?_append_cons (h : c ∉ a) (b : List Char) :
    (a ++ c :: b).findIdx? (· == c) = some a.length := by
  rw [findIdx?_append, findIdx?_eq_none h, findIdx?_cons]
  simp

lemma find_append_cons (h : c ∉ a) (p b : List Char) :
    find (p ++ (a ++ c :: b)) c p.length = p.length + a.length := by
  rw [find, drop_left, findIdx?_append_cons h]

lemma find_of_not_mem (h : c ∉ s.drop pos) : find s c pos = npos := by
  rw [find, findIdx?_eq_none h]

lemma rfind_of_take (hs : s.take (pos + 1) = a ++ c :: b) (hb : c ∉ b) :
    rfind s c pos = a.length := by
  have hrev : (a ++ c :: b).reverse = b.reverse ++ c :: a.reverse := by simp
  have hidx : (a ++ c :: b).reverse.findIdx? (· == c) = some b.length := by
    rw [hrev, findIdx?_append_cons (by simpa using hb), length_reverse]
  rw [rfind, hs, hidx]
  simp only [length_append, length_cons]
  omega

lemma rfind_last (hb : c ∉ b) (h : (a ++ c :: b).length ≤ npos) :
    rfind (a ++ c :: b) c npos = a.length :=
  rfind_of_take (take_of_length_le (Nat.le_succ_of_le h)) hb

lemma next_of_lt (h : pos < npos) : next pos = pos + 1 := by
  unfold npos at h
  exact Nat.mod_eq_of_lt (by omega)

@[simp] lemma next_npos : next npos = 0 := by decide

lemma prev_succ (h : pos < npos) : prev (pos + 1) = pos := by
  unfold npos at h
  unfold prev
  omega

lemma gap_of_lt (hlo : lo < hi) (hhi : hi ≤ npos) : gap lo hi = hi - lo - 1 := by
  unfold npos at hhi
  unfold gap
  omega

lemma gap_npos (h : hi ≤ npos) : gap npos hi = hi := by
  unfold npos at h
  unfold gap npos
  omega

lemma length_append_cons (p a : List Char) (c : Char) :
    (p ++ c :: a).length = p.length + 1 + a.length := by
  simp only [length_append, length_cons]
  omega

lemma rfind_prev (hb : c ∉ b) (h : (a ++ c :: b).length ≤ npos) (r : List Char) :
    rfind (a ++ c :: b ++ r) c (prev (a ++ c :: b).length) = a.length := by
  have hlen := length_append_cons a b c
  have hprev : prev (a ++ c :: b).length + 1 = (a ++ c :: b).length := by
    rw [hlen, Nat.add_right_comm, prev_succ (by omega)]
  refine rfind_of_take ?_ hb
  rw [hprev, take_left]

lemma find_next (ha : c ∉ a) (hp : p.length < npos) (r : List Char) :
    find (p ++ c :: (a ++ c :: r)) c (next p.length) = (p ++ c :: a).length := by
  have hfind := find_append_cons ha (p ++ [c]) r
  have hassoc : p ++ [c] ++ (a ++ c :: r) = p ++ c :: (a ++ c :: r) := by simp
  have hlen : (p ++ [c]).length = p.length + 1 := by simp
  rw [hassoc, hlen] at hfind
  rw [next_of_lt hp, hfind, length_append_cons]

lemma drop_append_cons (p a : List Char) (c : Char) : (p ++ c :: a).drop (p.length + 1) = a := by
  rw [show p ++ c :: a = (p ++ [c]) ++ a by simp]
  exact drop_left' (by simp)

lemma between_append (h : (p ++ c :: a).length ≤ npos) (r : List Char) :
    between (p ++ c :: (a ++ r)) p.length (p ++ c :: a).length = some a := by
  have hlen := length_append_cons p a c
  have hlo : p.length < npos := by omega
  rw [between, next_of_lt hlo, gap_of_lt (by omega) h, substr, if_neg, drop_append_cons]
  · rw [show (p ++ c :: a).length - p.length - 1 = a.length by omega, take_left]
  · simp only [length_append, length_cons]
    omega

lemma between_end (h : (p ++ c :: a).length ≤ npos) :
    between (p ++ c :: a) p.length npos = some a := by
  have hlen := length_append_cons p a c
  rw [between, next_of_lt (by omega), gap_of_lt (by omega) le_rfl, substr, if_neg (by omega),
    drop_append_cons, take_of_length_le (by omega)]

lemma substr_zero_length (a b : List Char) : substr (a ++ b) 0 a.length = some a := by
  rw [substr, if_neg (Nat.not_lt_zero _), drop_zero, take_left]

lemma substr_next (h : (p ++ c :: a).length ≤ npos) :
    substr (p ++ c :: a) (next p.length) npos = some a := by
  have hlen := length_append_cons p a c
  rw [next_of_lt (by omega), substr, if_neg (by omega), drop_append_cons,
    take_of_length_le (by omega)]

lemma between_npos (h : hi ≤ npos) : between s npos hi = some (s.take hi) := by
  rw [between, next_npos, gap_npos h, substr, if_neg (Nat.not_lt_zero _), drop_zero]

def isSpace (c : Char) : Bool := c ∈ [' ', '\t', '\n', '\x0b', '\x0c', '\r']

def IsInt (v : ℤ) : Prop := -2 ^ 31 ≤ v ∧ v < 2 ^ 31

instance (v : ℤ) : Decidable (IsInt v) := inferInstanceAs (Decidable (_ ∧ _))

def stoiDigits (negative : Bool) (s : List Char) : Option ℤ :=
  let digits := s.takeWhile Char.isDigit
  let v : ℤ := Nat.ofDigitChars 10 digits 0
  let v := if negative then -v else v
  if digits ≠ [] ∧ IsInt v then some v else none

def stoi (s : List Char) : Option ℤ :=
  match s.dropWhile isSpace with
  | '-' :: s => stoiDigits true s
  | '+' :: s => stoiDigits false s
  | s => stoiDigits false s

def printInt (v : ℤ) : List Char :=
  if v < 0 then '-' :: Nat.toDigits 10 v.natAbs else Nat.toDigits 10 v.natAbs

lemma mem_printInt (h : c ∈ printInt v) : c = '-' ∨ c.isDigit = true := by
  unfold printInt at h
  split at h
  · rcases mem_cons.mp h with rfl | h
    · exact .inl rfl
    · exact .inr (Nat.isDigit_of_mem_toDigits (by decide) (by decide) h)
  · exact .inr (Nat.isDigit_of_mem_toDigits (by decide) (by decide) h)

lemma length_printInt (h : IsInt v) : (printInt v).length ≤ 11 := by
  have hdigits : (Nat.toDigits 10 v.natAbs).length ≤ 10 := by
    rw [Nat.length_toDigits_le_iff (by decide) (by decide)]
    unfold IsInt at h
    omega
  unfold printInt
  split
  · rw [length_cons]
    omega
  · omega

lemma stoiDigits_toDigits {negative : Bool} {m : ℕ}
    (hv : v = if negative then -(m : ℤ) else m) (hint : IsInt v) :
    stoiDigits negative (Nat.toDigits 10 m) = some v := by
  have hdigits : (Nat.toDigits 10 m).takeWhile Char.isDigit = Nat.toDigits 10 m := by
    rw [takeWhile_eq_self_iff]
    exact fun c hc => Nat.isDigit_of_mem_toDigits (by decide) (by decide) hc
  simp only [stoiDigits, hdigits, Nat.ofDigitChars_toDigits (by decide : 1 < 10) (by decide), ← hv]
  rw [if_pos ⟨Nat.toDigits_ne_nil, hint⟩]

def lexicalCast (w : ℕ) (s : List Char) : Option ℕ :=
  let digits := if s.head? = some '+' ∨ s.head? = some '-' then s.tail else s
  let v := Nat.ofDigitChars 10 digits 0
  if digits = [] ∨ ¬ digits.all Char.isDigit ∨ 2 ^ w ≤ v then none
  else some (if s.head? = some '-' then (2 ^ w - v) % 2 ^ w else v)

lemma lexicalCast_toDigits (w m : ℕ) :
    lexicalCast w (Nat.toDigits 10 m) = if m < 2 ^ w then some m else none := by
  have hdigit : ∀ c ∈ Nat.toDigits 10 m, c.isDigit = true := fun c hc =>
    Nat.isDigit_of_mem_toDigits (by decide) (by decide) hc
  have hsign : ∀ c, c.isDigit = false → (Nat.toDigits 10 m).head? ≠ some c := fun c hc hh => by
    have := hdigit c (mem_of_mem_head? hh)
    simp [hc] at this
  have hne : Nat.toDigits 10 m ≠ [] := Nat.toDigits_ne_nil
  simp only [lexicalCast, hsign '+' (by decide), hsign '-' (by decide), or_self, if_false,
    Nat.ofDigitChars_toDigits (by decide : 1 < 10) (by decide), hne, false_or,
    all_eq_true.mpr hdigit, not_true_eq_false, ← Nat.not_lt, ite_not]

lemma stoi_of_isDigit (h : c.isDigit = true) : stoi (c :: s) = stoiDigits false (c :: s) := by
  have hspace : isSpace c = false := by
    rw [isSpace, decide_eq_false_iff_not]
    intro hc
    simp only [mem_cons, not_mem_nil, or_false] at hc
    rcases hc with rfl | rfl | rfl | rfl | rfl | rfl <;> cases h
  unfold stoi
  rw [dropWhile_cons_of_neg (by simp [hspace])]
  split
  next heq =>
    cases heq
    cases h
  next heq =>
    cases heq
    cases h
  · rfl

lemma stoi_printInt (hint : IsInt v) : stoi (printInt v) = some v := by
  unfold printInt
  split
  next hneg =>
    have hsign : stoi ('-' :: Nat.toDigits 10 v.natAbs) =
        stoiDigits true (Nat.toDigits 10 v.natAbs) := rfl
    refine stoiDigits_toDigits ?_ hint
    rw [if_pos rfl]
    omega
  rename_i hneg
  have hdigits : stoiDigits false (Nat.toDigits 10 v.natAbs) = some v := by
    refine stoiDigits_toDigits ?_ hint
    rw [if_neg (by decide)]
    omega
  obtain ⟨d, ds, hd⟩ := exists_cons_of_ne_nil (Nat.toDigits_ne_nil (b := 10) (n := v.natAbs))
  have hdig : d.isDigit = true :=
    Nat.isDigit_of_mem_toDigits (by decide) (by decide) (hd ▸ mem_cons_self)
  rw [hd] at hdigits ⊢
  rw [stoi_of_isDigit hdig, hdigits]

/-- `std::stod`: the number, and how many characters were read; `none` is an exception. A number
ends at a slash, and at a newline that is the last character. -/
structure Stod where
  parse : List Char → Option (ℚ × ℕ)
  nil : parse [] = none
  slash : ∀ t s, parse (t ++ '/' :: s) = parse t
  newline : ∀ t, parse (t ++ ['\n']) = parse t

def Stod.value (S : Stod) (s : List Char) : Option ℚ := (S.parse s).map Prod.fst

lemma takeWhile_append_cons {q : Char → Bool} (h : q c = false) (a b : List Char) :
    (a ++ c :: b).takeWhile q = a.takeWhile q := by
  induction a with
  | nil => simp [h]
  | cons d a ih =>
    rw [cons_append, takeWhile_cons, takeWhile_cons, ih]

def Stod.digits : Stod where
  parse s :=
    let ds := s.takeWhile Char.isDigit
    if ds = [] then none else some ((Nat.ofDigitChars 10 ds 0 : ℚ), ds.length)
  nil := rfl
  slash t s := by simp only [takeWhile_append_cons (show Char.isDigit '/' = false by decide)]
  newline t := by simp only [takeWhile_append_cons (show Char.isDigit '\n' = false by decide)]

end StdString
