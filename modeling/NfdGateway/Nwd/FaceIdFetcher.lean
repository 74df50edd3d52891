import NfdGateway.Lib.StdString
import NfdGateway.Lib.Transition

/-! The object that finds or creates the face for a URI, and deletes itself. -/
namespace NfdGateway.Nwd.FaceIdFetcher

open List Transition

/-- `^[a-z0-9]+\:.*` -/
def isUri (input : List Char) : Bool :=
  let scheme := input.takeWhile fun c => c.isLower || c.isDigit
  scheme ≠ [] ∧ (input.drop scheme.length).head? = some ':'

/-- The parsers that the fetcher calls. `decode` throws `tlv::Error` with a text. -/
structure Parsers (Uri Buffer Block : Type) where
  parse : List Char → Option Uri
  fromBuffer : Buffer → Option Block
  decode : Block → Except String ℕ

variable {Uri Buffer Block : Type}

inductive Call
  | onSucceed (faceId : ℕ)
  | onFail (reason : String)

/-- What was begun on behalf of the fetcher, with what is bound to its callbacks. -/
inductive Operation (Uri : Type)
  | canonize (faceUri : Uri)
  | query (canonicalUri : Uri)
  | create (canonicalUri : Uri)
  deriving DecidableEq

/-- An operation completes by one of its two callbacks. -/
inductive Completion (Uri Buffer : Type)
  | canonizeSuccess (faceUri canonicalUri : Uri)
  | canonizeFailure (faceUri : Uri) (reason : String)
  | querySuccess (data : Buffer) (canonicalUri : Uri)
  | queryFailure (errorCode : ℕ) (canonicalUri : Uri)
  | createSuccess (faceId : ℕ) (canonicalUri : Uri)
  | createError (code : ℕ) (error : String) (canonicalUri : Uri)

def Completion.operation : Completion Uri Buffer → Operation Uri
  | .canonizeSuccess faceUri _ | .canonizeFailure faceUri _ => .canonize faceUri
  | .querySuccess _ uri | .queryFailure _ uri => .query uri
  | .createSuccess _ uri | .createError _ _ uri => .create uri

/-- The calls made, the operations that have not completed, the fetchers made and deleted and the
face-create commands sent. -/
structure State (Uri : Type) where
  allowCreate : Bool
  calls : List Call := []
  outstanding : List (Operation Uri) := []
  allocated : ℕ := 0
  deleted : ℕ := 0
  commands : List Uri := []

namespace State

def fail (s : State Uri) (reason : String) : State Uri :=
  { s with calls := s.calls ++ [.onFail reason], deleted := s.deleted + 1 }

def succeed (s : State Uri) (faceId : ℕ) : State Uri :=
  { s with calls := s.calls ++ [.onSucceed faceId], deleted := s.deleted + 1 }

def startFaceCreate (s : State Uri) (uri : Uri) : State Uri :=
  { s with commands := s.commands ++ [uri], outstanding := s.outstanding ++ [.create uri] }

def onCanonizeSuccess (s : State Uri) (uri : Uri) : State Uri :=
  { s with outstanding := s.outstanding ++ [.query uri] }

def onQuerySuccess (p : Parsers Uri Buffer Block) (s : State Uri) (data : Buffer) (uri : Uri) :
    State Uri :=
  match p.fromBuffer data with
  | none => if s.allowCreate then s.startFaceCreate uri else s.fail "Fail to find faceId"
  | some block =>
    match p.decode block with
    | .ok faceId => s.succeed faceId
    | .error message => s.fail ("ERROR: " ++ message)

/-- A completion calls into the fetcher. `none` is a use of a deleted fetcher. -/
def step [DecidableEq Uri] (p : Parsers Uri Buffer Block) (s : State Uri)
    (c : Completion Uri Buffer) : Option (State Uri) :=
  let s := { s with outstanding := s.outstanding.erase c.operation }
  if s.deleted < s.allocated then
    some <| match c with
      | .canonizeSuccess _ uri => s.onCanonizeSuccess uri
      | .canonizeFailure _ reason => s.fail ("Canonize faceUri failed : " ++ reason)
      | .querySuccess data uri => s.onQuerySuccess p data uri
      | .queryFailure code _ => s.fail ("Cannot fetch data (code " ++ toString code ++ ")")
      | .createSuccess faceId _ => s.succeed faceId
      | .createError code error _ =>
        s.fail ("Face creation failed" ++ " : " ++ error ++ " (code " ++ toString code ++ ")")
  else none

def Enabled (s : State Uri) (c : Completion Uri Buffer) : Prop := c.operation ∈ s.outstanding

end State

open State

/-- `FaceIdFetcher::start`. -/
def start (p : Parsers Uri Buffer Block) (input : List Char) (allowCreate : Bool) : State Uri :=
  if !isUri input then
    match StdString.lexicalCast 32 input with
    | some faceId => { allowCreate, calls := [.onSucceed faceId] }
    | none => { allowCreate, calls := [.onFail "No valid faceId or faceUri is provided"] }
  else
    match p.parse input with
    | none => { allowCreate, calls := [.onFail "FaceUri parse failed"] }
    | some uri => { allowCreate, outstanding := [.canonize uri], allocated := 1 }

def Operation.rank : Operation Uri → ℕ
  | .canonize _ => 0
  | .query _ => 1
  | .create _ => 2

lemma Operation.rank_le (op : Operation Uri) : op.rank ≤ 2 := by cases op <;> simp [rank]

variable {p : Parsers Uri Buffer Block} {allowCreate : Bool} {l : List (Completion Uri Buffer)}
  {s t : State Uri} {c : Completion Uri Buffer}

/-- A query after which a face may be created. -/
def NoFace (p : Parsers Uri Buffer Block) (l : List (Completion Uri Buffer)) : Prop :=
  ∃ data uri, .querySuccess data uri ∈ l ∧ p.fromBuffer data = none

/-- The fetcher waits for one operation, or it has made its call and is deleted. -/
structure Course (p : Parsers Uri Buffer Block) (allowCreate : Bool)
    (l : List (Completion Uri Buffer)) (s : State Uri) : Prop where
  allow : s.allowCreate = allowCreate
  commands : s.commands ≠ [] → allowCreate = true ∧ NoFace p l
  phase : (∃ op, s.outstanding = [op] ∧ l.length = op.rank ∧ s.calls = [] ∧ s.allocated = 1 ∧
      s.deleted = 0) ∨
    s.outstanding = [] ∧ l.length ≤ 3 ∧ s.calls.length = 1 ∧ s.deleted = s.allocated

lemma start_course (input : List Char) : Course p allowCreate [] (start p input allowCreate) := by
  unfold start
  split
  · split <;> exact ⟨rfl, nofun, .inr ⟨rfl, by simp, rfl, rfl⟩⟩
  split
  · exact ⟨rfl, nofun, .inr ⟨rfl, by simp, rfl, rfl⟩⟩
  · exact ⟨rfl, nofun, .inl ⟨_, rfl, rfl, rfl, rfl, rfl⟩⟩

lemma NoFace.concat (h : NoFace p l) (c : Completion Uri Buffer) : NoFace p (l ++ [c]) := by
  obtain ⟨data, uri, hmem, hnone⟩ := h
  exact ⟨data, uri, mem_append_left _ hmem, hnone⟩

variable [DecidableEq Uri]

/-- The callback of an operation ends the fetcher or begins the next operation. -/
lemma step_course (h : Course p allowCreate l s) (hin : s.Enabled c) :
    ∃ t, s.step p c = some t ∧ Course p allowCreate (l ++ [c]) t := by
  obtain ⟨op, hout, hlen, hcalls, halloc, hdel⟩ | ⟨hout, -⟩ := h.phase
  swap
  · rw [Enabled, hout] at hin
    cases hin
  rw [Enabled, hout, mem_singleton] at hin
  subst hin
  have hlive : s.deleted < s.allocated := by omega
  have hold : s.commands ≠ [] → allowCreate = true ∧ NoFace p (l ++ [c]) := fun hc =>
    (h.commands hc).imp_right fun hno => hno.concat c
  have hrank : (l ++ [c]).length = c.operation.rank + 1 := by rw [length_append, hlen]; rfl
  have hend : (l ++ [c]).length ≤ 3 := by
    have := c.operation.rank_le
    omega
  simp only [step, if_pos hlive, hout, erase_cons_head]
  refine ⟨_, rfl, ?_⟩
  have hfail : ∀ reason, Course p allowCreate (l ++ [c])
      (fail { s with outstanding := [] } reason) := fun reason =>
    ⟨h.allow, hold, .inr ⟨rfl, hend, by simp [fail, hcalls], by simp [fail, halloc, hdel]⟩⟩
  have hsucceed : ∀ faceId, Course p allowCreate (l ++ [c])
      (succeed { s with outstanding := [] } faceId) := fun faceId =>
    ⟨h.allow, hold, .inr ⟨rfl, hend, by simp [succeed, hcalls], by simp [succeed, halloc, hdel]⟩⟩
  cases c with
  | canonizeSuccess faceUri uri =>
    exact ⟨h.allow, hold, .inl ⟨_, rfl, hrank, hcalls, halloc, hdel⟩⟩
  | canonizeFailure _ reason | queryFailure code _ => exact hfail _
  | createSuccess faceId _ => exact hsucceed faceId
  | createError code error _ => exact hfail _
  | querySuccess data uri =>
    show Course p allowCreate _ (onQuerySuccess p { s with outstanding := [] } data uri)
    unfold onQuerySuccess
    split
    · next hnone =>
      split
      · next hallow =>
        refine ⟨h.allow, fun _ => ⟨h.allow.symm.trans hallow, data, uri, ?_, hnone⟩,
          .inl ⟨_, rfl, hrank, hcalls, halloc, hdel⟩⟩
        exact mem_append_right _ (mem_singleton_self _)
      · exact hfail _
    · split
      · exact hsucceed _
      · exact hfail _

/-- No completion finds the fetcher deleted, and when none is outstanding, after three at most, one
call was made and no fetcher is left. -/
theorem fetcher_ends_once (p : Parsers Uri Buffer Block) (input : List Char) (allowCreate : Bool)
    (h : Path (step p) Enabled (start p input allowCreate) l s) :
    l.length ≤ 3 ∧ (∀ c : Completion Uri Buffer, s.Enabled c → ∃ t, s.step p c = some t) ∧
      (s.outstanding = [] → s.calls.length = 1 ∧ s.deleted = s.allocated) ∧
      (s.outstanding ≠ [] → s.calls = [] ∧ s.allocated = 1 ∧ s.deleted = 0) ∧
      (s.commands ≠ [] → allowCreate = true ∧ NoFace p l) := by
  have hcourse : Course p allowCreate l s := by
    refine h.invariant (start_course input) fun l s c t hs hin hstep => ?_
    obtain ⟨t', hstep', ht⟩ := step_course hs hin
    rwa [← Option.some.inj (hstep'.symm.trans hstep)]
  have hsafe : ∀ c : Completion Uri Buffer, s.Enabled c → ∃ t, s.step p c = some t := fun c hin =>
    (step_course hcourse hin).imp fun _ ht => ht.1
  obtain ⟨op, hout, hlen, hcalls, halloc, hdel⟩ | ⟨hout, hlen, hcalls, hdel⟩ := hcourse.phase
  · have hrank := op.rank_le
    exact ⟨by omega, hsafe, fun hnil => absurd (hout.symm.trans hnil) (cons_ne_nil _ _),
      fun _ => ⟨hcalls, halloc, hdel⟩, hcourse.commands⟩
  · exact ⟨hlen, hsafe, fun _ => ⟨hcalls, hdel⟩, fun hne => absurd hout hne, hcourse.commands⟩

/-- Every URI is `()`, and a query finds nothing. -/
def emptyParsers : Parsers Unit Unit Unit := ⟨fun _ => some (), fun _ => none, fun _ => .ok 0⟩

/-- A face for `a:` that has to be created. -/
theorem fetcher_ends_once_created :
    ∃ s, run (step emptyParsers) (start emptyParsers ['a', ':'] true)
      [.canonizeSuccess () (), .querySuccess () (), .createSuccess 5 ()] = some s ∧
      s.commands = [()] ∧ s.calls.length = 1 ∧ s.deleted = s.allocated := by
  have hpath : Path (step emptyParsers) Enabled (start emptyParsers ['a', ':'] true)
      [.canonizeSuccess () (), .querySuccess () (), .createSuccess 5 ()] _ :=
    .cons (mem_singleton_self _) rfl (.cons (mem_singleton_self _) rfl
      (.cons (mem_singleton_self _) rfl .nil))
  exact ⟨_, hpath.run_eq, rfl, (fetcher_ends_once _ _ _ hpath).2.2.1 rfl⟩

end NfdGateway.Nwd.FaceIdFetcher
