-- SUMMARY: Election records of producers, their order, the index electedprod, and the lookups of queue_helper.
import Amax.Base.Ranking
import Amax.System.State

/-! # The election index

Producers are compared by activity, votes and name. The index `electedprod`
lists producers from the best down, and `queue_helper` looks a cached record up
in it. -/

namespace Amax

-- ---------------------------------------------------------------------------
-- Election records
-- ---------------------------------------------------------------------------

namespace ProducerElectedInfo

def clear : ProducerElectedInfo := {}

def empty (a : ProducerElectedInfo) : Bool := a.name = 0

/-- `operator<`: the order of activity, then of votes, then the reverse order of names. -/
def lt (a b : ProducerElectedInfo) : Bool :=
  if a.isActive < b.isActive then true
  else if a.isActive > b.isActive then false
  else if a.electedVotes < b.electedVotes then true
  else if a.electedVotes > b.electedVotes then false
  else a.name > b.name

/-- `operator>`. -/
def gt (a b : ProducerElectedInfo) : Bool :=
  if a.isActive > b.isActive then true
  else if a.isActive < b.isActive then false
  else if a.electedVotes > b.electedVotes then true
  else if a.electedVotes < b.electedVotes then false
  else a.name < b.name

/-- `operator<=`. -/
def le (a b : ProducerElectedInfo) : Bool := !a.gt b

/-- `operator>=`. -/
def ge (a b : ProducerElectedInfo) : Bool := !a.lt b

/-- `operator==`, which does not look at the authority. -/
def eq (a b : ProducerElectedInfo) : Bool :=
  a.isActive = b.isActive && a.electedVotes = b.electedVotes && a.name = b.name

end ProducerElectedInfo

-- ---------------------------------------------------------------------------
-- The index
-- ---------------------------------------------------------------------------

/-- The static `by_elected_prod( owner, is_active, votes )`. -/
def electedKey (owner : Name) (isActive : Bool) (votes : ℤ) : ℕ :=
  let hi := if isActive then 2 ^ 63 - 1 - votes else 2 ^ 64 - 1 - votes
  hi.toNat * 2 ^ 64 + owner.val

namespace ProducerInfo

def getElectedVotes (p : ProducerInfo) : ℤ :=
  match p.ext with
  | some ext => ext.electedVotes
  | none => 0

/-- `get_elected_info( info )`, which leaves the flag of `info` as it is. -/
def fillElectedInfo (p : ProducerInfo) (info : ProducerElectedInfo) : ProducerElectedInfo :=
  { info with
    name := p.owner
    electedVotes := p.getElectedVotes
    authority := p.producerAuthority }

/-- `get_elected_info()`: the record says nothing of the activity of the row. -/
def getElectedInfo (p : ProducerInfo) : ProducerElectedInfo := p.fillElectedInfo {}

def byElectedProd (p : ProducerInfo) : ℕ :=
  electedKey p.owner p.isActive p.getElectedVotes

/-- `deactivate`. -/
def deactivate (p : ProducerInfo) : ProducerInfo :=
  { p with producerAuthority := .none, isActive := false }

end ProducerInfo

/-- The index `electedprod` of a table of producers. -/
def electedProd (producers : Table ProducerInfo.owner) : List ProducerInfo :=
  producers.index (·.indexed) ProducerInfo.byElectedProd

-- ---------------------------------------------------------------------------
-- Lookups
-- ---------------------------------------------------------------------------

namespace QueueHelper

/-- `get_pos_itr`: the position of a record in the index. -/
def getPosItr (idx : List ProducerInfo) (prod : ProducerElectedInfo) : Result ℕ := do
  check .queue (0 ≤ prod.electedVotes ∧ prod.electedVotes < int64Max) "amount < int64_max"
  let key := electedKey prod.name prod.isActive prod.electedVotes
  let pos := idx.findIdx fun r => key ≤ r.byElectedProd
  match idx[pos]? with
  | none => .error ⟨.queue, "producer elected position not found"⟩
  | some itr =>
    check .queue (itr.owner = prod.name) "producer elected position not found"
    check .queue (itr.getElectedVotes = prod.electedVotes)
      "itr->get_elected_votes() == prod.elected_votes"
    return pos

/-- What `fetch_prev` and `fetch_next` abort with. -/
def notFound (title : String) (tail : ProducerElectedInfo) : Abort where
  site := .queue
  message := title ++ " not found! tail: " ++ nameToString tail.name ++ ":" ++
    Asset.toString ⟨tail.electedVotes, voteSymbol⟩

/-- `fetch_prev`: the record before `tail`, read into `prev`. -/
def fetchPrev (idx : List ProducerInfo) (tail prev : ProducerElectedInfo) (checking : Bool)
    (title : String) : Result ProducerElectedInfo := do
  let pos ← getPosItr idx tail
  check .queue (idx ≠ []) "electedprod index of producer table is empty"
  match if pos = 0 then none else idx[pos - 1]? with
  | some itr =>
    let prev := itr.fillElectedInfo prev
    check .queue (tail.lt prev) "tail < prev"
    return prev
  | none => if checking then .error (notFound title tail) else return .clear

/-- `fetch_next`: the record after `tail`, read into `next`. -/
def fetchNext (idx : List ProducerInfo) (tail next : ProducerElectedInfo) (checkFound : Bool)
    (title : String) : Result ProducerElectedInfo := do
  let pos ← getPosItr idx tail
  match idx[pos + 1]?.filter (·.ext.isSome) with
  | some itr =>
    let next := itr.fillElectedInfo next
    check .queue (next.lt tail) "next < tail"
    return next
  | none => if checkFound then .error (notFound title tail) else return .clear

end QueueHelper

end Amax
