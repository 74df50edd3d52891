import NfdGateway.Lib.StdString

/-! Names as they are printed, and how they are cut at the slashes. -/
namespace NfdGateway.Nwd

open StdString List

def joined (p : List Char) (cs : List (List Char)) : List Char := p ++ cs.flatMap fun c => '/' :: c

/-- What follows the registered prefix of a name, as it stands in the URI; a string has at most
`max_size` characters. -/
structure Suffix where
  components : List (List Char)
  noSlash : ∀ c ∈ components, '/' ∉ c
  size : (joined [] components).length < 2 ^ 63

def contains (s word : List Char) : Bool := decide (word <:+: s)

lemma joined_cons (p c : List Char) (cs : List (List Char)) :
    joined p (c :: cs) = joined (p ++ '/' :: c) cs := by
  simp [joined]

lemma joined_append (p : List Char) (cs ds : List (List Char)) :
    joined p (cs ++ ds) = joined (joined p cs) ds := by
  simp [joined]

@[simp] lemma joined_nil (p : List Char) : joined p [] = p := by simp [joined]

lemma length_joined (p : List Char) (cs : List (List Char)) :
    (joined p cs).length = p.length + (joined [] cs).length := by
  simp [joined]

variable {q a r : List Char}

lemma find_second (hq : '/' ∉ q) (r : List Char) :
    find ('/' :: q ++ '/' :: r) '/' 1 = ('/' :: q).length := by
  have h := find_append_cons hq ['/'] r
  rw [length_singleton, Nat.add_comm] at h
  exact h

lemma find_second_none (hq : '/' ∉ q) : find ('/' :: q) '/' 1 = npos :=
  find_of_not_mem hq

lemma find_next_none {p : List Char} (ha : '/' ∉ a) (hp : p.length < npos) :
    find (p ++ '/' :: a) '/' (next p.length) = npos := by
  rw [next_of_lt hp]
  refine find_of_not_mem ?_
  rwa [show p ++ '/' :: a = (p ++ ['/']) ++ a by simp, drop_left' (by simp)]

end NfdGateway.Nwd
