import SkynetCpp.Lib.Outcome
import SkynetCpp.Lib.Runs

/-!
# Cursors

A cursor of `mongo.lua` and the replies of the server to its commands, one after the other. What a
document is does not matter.
-/

namespace SkynetCpp

open Lib

namespace Mongo

variable {α : Type}

/-- The field `cursor` of a reply: `firstBatch` or `nextBatch`, and `id`. -/
structure ReplyCursor (α : Type) where
  batch : Option (List α)
  id : Option Int64

abbrev Reply (α : Type) := Option (ReplyCursor α)

namespace Reply

/-- The documents, none where there are no batch or no cursor. -/
def documents (r : Reply α) : List α := (r.bind fun c => c.batch).getD []

def cursorId (r : Reply α) : Int64 := (r.bind fun c => c.id).getD 0

end Reply

inductive Command
  | find
  | getMore (id : Int64)
  deriving DecidableEq

/-- A cursor, the replies to come, the commands so far and what `next` has returned. Before the
start, when `__batch` and `__cursor_id` are nil, `batch` is empty and `cursorId` 0. -/
structure State (α : Type) where
  started : Bool
  finished : Bool
  batch : List α
  batchIdx : ℕ
  cursorId : Int64
  replies : List (Reply α)
  commands : List Command
  taken : List α

namespace State

/-- `collection:find` -/
def find (replies : List (Reply α)) : State α := ⟨false, false, [], 0, 0, replies, [], []⟩

variable (s : State α)

/-- The next reply; there may be none. -/
def runCommand (command : Command) : Option (Reply α × State α) :=
  match s.replies with
  | [] => none
  | r :: replies =>
    some (r, { s with replies := replies, commands := s.commands ++ [command] })

/-- The batch and the id of a reply. -/
def fill (r : Reply α) : State α :=
  { s with batch := r.documents, cursorId := r.cursorId, batchIdx := 0 }

def cursorStart : Option (State α) :=
  if s.started then some s
  else do
    let (result, s) ← { s with started := true }.runCommand .find
    return s.fill result

def hasNext : Option (Bool × State α) := do
  let s ← s.cursorStart
  if s.batchIdx < s.batch.length then return (true, s)
  else if s.cursorId = 0 then return (false, { s with finished := true })
  else
    let (result, s) ← s.runCommand (.getMore s.cursorId)
    let s := s.fill result
    if s.batch.length = 0 then return (false, { s with finished := true })
    else return (true, s)

def next : Option (Option α × State α) := do
  let (more, s) ← s.hasNext
  if more then
    let doc := s.batch[s.batchIdx]?
    return (doc, { s with batchIdx := s.batchIdx + 1, taken := s.taken ++ doc.toList })
  else return (none, s)

/-- The loop of `toArray`, with so many rounds. -/
def toArrayLoop : ℕ → List α → State α → Outcome (List α × State α)
  | 0, _, _ => .unfinished
  | rounds + 1, result, s => do
    let (more, s) ← .of s.hasNext
    if more then
      let (doc, s) ← .of s.next
      toArrayLoop rounds (result ++ doc.toList) s
    else return (result, s)

def toArray (rounds : ℕ) : Outcome (List α × State α) := toArrayLoop rounds [] s

end State

inductive Label
  | hasNext
  | next
  deriving DecidableEq

def step (s : State α) : Label → Option (State α)
  | .hasNext => s.hasNext.map (·.2)
  | .next => s.next.map (·.2)

/-- The id is 0 in the last reply and in no other. -/
def Served : List (Reply α) → Prop
  | [] => False
  | [r] => r.cursorId = 0
  | r :: r' :: replies => r.cursorId ≠ 0 ∧ Served (r' :: replies)

def decideServed : (replies : List (Reply α)) → Decidable (Served replies)
  | [] => isFalse nofun
  | [r] => inferInstanceAs (Decidable (r.cursorId = 0))
  | r :: r' :: replies =>
    have := decideServed (r' :: replies)
    inferInstanceAs (Decidable (r.cursorId ≠ 0 ∧ Served (r' :: replies)))

instance (replies : List (Reply α)) : Decidable (Served replies) := decideServed replies

/-- Whatever was called before, `toArray` returns all that `next` has not returned, and `hasNext`
says false, and `next` returns nil, only after the id 0 and all documents. -/
def Complete (replies : List (Reply α)) : Prop :=
  ∀ s, Reachable step (State.find replies) s →
    (∃ rounds rest s', s.toArray rounds = .done (rest, s')
      ∧ s.taken ++ rest = replies.flatMap Reply.documents)
    ∧ (∀ s', s.hasNext = some (false, s') →
      s'.cursorId = 0 ∧ s'.taken = replies.flatMap Reply.documents)
    ∧ ∀ s', s.next = some (none, s') →
      s'.cursorId = 0 ∧ s'.taken = replies.flatMap Reply.documents

/-- No reply to `getMore` is without documents unless it is the last. -/
def NoEmptyBatch (replies : List (Reply α)) : Prop :=
  ∀ r ∈ replies.tail, r.documents = [] → r.cursorId = 0

end Mongo

end SkynetCpp
