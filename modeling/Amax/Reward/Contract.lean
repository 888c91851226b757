-- SUMMARY: The reward contract: its tables, its actions and what one transaction moves.
import Amax.System.State

/-! # The reward contract

`amax.reward` hands the rewards a producer shares to the voters of the
producer, in proportion to their votes. All amounts of one field have one
symbol, the vote symbol or the core symbol, and are plain numbers. -/

namespace Amax.Reward

/-- `HIGH_PRECISION`. -/
def highPrecision : ℤ := 1000000000000000000

/-- The account of the token contract, `CORE_TOKEN`. -/
def coreToken : Name := 3786912000615170048

example : nameToString coreToken = "amax.token" := by decide +kernel

/-- A row of `producers`. -/
structure Producer where
  owner : Name
  isRegistered : Bool := false
  totalRewards : ℤ := 0
  allocatingRewards : ℤ := 0
  allocatedRewards : ℤ := 0
  votes : ℤ := 0
  rewardsPerVote : ℤ := 0
  deriving DecidableEq

/-- An entry of `voted_producer_map`. -/
structure VotedProducer where
  name : Name
  lastRewardsPerVote : ℤ := 0
  deriving DecidableEq

abbrev VotedProducerMap := Table VotedProducer.name

/-- A row of `voters`. -/
structure Voter where
  owner : Name
  votes : ℤ := 0
  producers : VotedProducerMap := .empty
  unclaimedRewards : ℤ := 0
  claimedRewards : ℤ := 0

structure State where
  coreSymbol : Symbol
  /-- `total_rewards` of the global record. -/
  totalRewards : ℤ := 0
  producers : Table Producer.owner := .empty
  voters : Table Voter.owner := .empty

/-- What one action is told by the chain. -/
structure Env where
  hasAuth : Name → Bool
  isAccount : Name → Bool := fun _ => true
  firstReceiver : Name := coreToken
  /-- The token contract takes the transfer of a claim. -/
  transferOk : Bool := true

/-- The core tokens an action moves into or out of the contract. -/
inductive Flow where
  | received (quantity : ℤ)
  | paid (voter : Name) (quantity : ℤ)
  deriving DecidableEq

abbrev Outcome := Result (State × List Flow)

def requireAuth (env : Env) (n : Name) : Result Unit :=
  check .action (env.hasAuth n) ("missing authority of " ++ nameToString n)

/-- `+=` on the amounts of two assets of one symbol. -/
def addAmount (a b : ℤ) : Result ℤ := do
  Asset.checkSum (a + b)
  return a + b

-- ---------------------------------------------------------------------------
-- Rewards
-- ---------------------------------------------------------------------------

/-- `calc_rewards_per_vote`. -/
def calcRewardsPerVote (oldRewardsPerVote rewards votes : ℤ) : Result ℤ := do
  check .action (0 ≤ rewards ∧ 0 ≤ votes) "rewards.amount >= 0 && votes.amount >= 0"
  if 0 < rewards ∧ 0 < votes then
    let newRewardsPerVote :=
      toInt128 (oldRewardsPerVote + (toInt128 (rewards * highPrecision)).tdiv votes)
    check .accrual (oldRewardsPerVote ≤ newRewardsPerVote) "calculated rewards_per_vote overflow"
    return newRewardsPerVote
  else
    return oldRewardsPerVote

/-- `calc_voter_rewards`. -/
def calcVoterRewards (votes rewardsPerVote : ℤ) : Result ℤ := do
  check .accrual (0 ≤ votes ∧ 0 ≤ rewardsPerVote) "votes.amount >= 0 && rewards_per_vote >= 0"
  check .accrual (rewardsPerVote ≤ toInt128 (votes * rewardsPerVote)) "calculated rewards overflow"
  let rewards := (toInt128 (votes * rewardsPerVote)).tdiv highPrecision
  check .accrual (0 ≤ rewards ∧ rewards ≤ int64Max) "calculated rewards overflow"
  check .asset (-Asset.maxAmount ≤ rewards ∧ rewards ≤ Asset.maxAmount)
    "magnitude of asset amount must be less than 2^62"
  return rewards

/-- The row of a producer, or the row it gets when it is first touched. -/
def producerRow (producers : Table Producer.owner) (n : Name) : Producer :=
  (producers.find? n).getD { owner := n }

abbrev State.producer (s : State) (n : Name) : Producer := producerRow s.producers n

/-- The row of a voter, or the row it gets when it is first touched. -/
def State.voter (s : State) (n : Name) : Voter := (s.voters.find? n).getD { owner := n }

/-- What `allocate_producer_rewards` works on. -/
structure Allocation where
  producers : Table Producer.owner
  voted : VotedProducerMap
  unclaimedRewards : ℤ

/-- The part of the loop of `allocate_producer_rewards` that pays a voter. -/
def payVoter (p : Producer) (votesOld lastRewardsPerVote unclaimedRewards : ℤ) :
    Result (Producer × ℤ) :=
  let rewardsPerVoteDelta := p.rewardsPerVote - lastRewardsPerVote
  if 0 < rewardsPerVoteDelta ∧ 0 < votesOld then do
    check .accrual (votesOld ≤ p.votes) "votes_old <= p.votes"
    let newRewards ← calcVoterRewards votesOld rewardsPerVoteDelta
    check .accrual (newRewards ≤ p.allocatingRewards) "producer allocating rewards insufficient"
    let allocatingRewards ← addAmount p.allocatingRewards (-newRewards)
    let allocatedRewards ← addAmount p.allocatedRewards newRewards
    check .accrual (p.totalRewards = allocatingRewards + allocatedRewards)
      "p.total_rewards == p.allocating_rewards + p.allocated_rewards"
    let unclaimedRewards ← addAmount unclaimedRewards newRewards
    return ({ p with allocatingRewards, allocatedRewards }, unclaimedRewards)
  else
    .ok (p, unclaimedRewards)

/-- One round of the loop of `allocate_producer_rewards`. -/
def allocateOne (votesOld votesDelta : ℤ) (st : Allocation) (votedProd : VotedProducer) :
    Result Allocation := do
  let p := producerRow st.producers votedProd.name
  let lastRewardsPerVote := votedProd.lastRewardsPerVote
  check .accrual (lastRewardsPerVote ≤ p.rewardsPerVote) "last_rewards_per_vote invalid"
  let (p, unclaimedRewards) ← payVoter p votesOld lastRewardsPerVote st.unclaimedRewards
  let votes ← addAmount p.votes votesDelta
  check .accrual (0 ≤ votes) "producer votes can not be negtive"
  return {
    producers := st.producers.set { p with votes }
    voted := st.voted.set { votedProd with lastRewardsPerVote := p.rewardsPerVote }
    unclaimedRewards }

/-- `allocate_producer_rewards`: settle a voter with every producer of a map. -/
def allocateProducerRewards (producers : Table Producer.owner) (voted : VotedProducerMap)
    (votesOld votesDelta unclaimedRewards : ℤ) : Result Allocation :=
  voted.rows.foldlM (allocateOne votesOld votesDelta) { producers, voted, unclaimedRewards }

-- ---------------------------------------------------------------------------
-- Votes
-- ---------------------------------------------------------------------------

/-- `regproducer`. -/
def regproducer (env : Env) (s : State) (producer : Name) : Outcome := do
  requireAuth env producer
  check .action (env.isAccount producer) "producer account not found"
  payRow producer
  return ({ s with
    producers := s.producers.set { s.producer producer with isRegistered := true } }, [])

/-- `change_vote`. -/
def changeVote (env : Env) (s : State) (voter : Name) (votes : Asset) (isAdding : Bool) :
    Outcome := do
  requireAuth env self
  requireAuth env voter
  check .action (votes.symbol = voteSymbol) "votes symbol mismatch"
  check .action (0 < votes.amount) "votes must be positive"
  payRow voter
  let v := s.voter voter
  check .action (!isAdding → votes.amount ≤ v.votes) "voter's votes insufficent"
  let votesDelta := if isAdding then votes.amount else -votes.amount
  let st ← allocateProducerRewards s.producers v.producers v.votes votesDelta v.unclaimedRewards
  let sum ← addAmount v.votes votesDelta
  check .action (0 ≤ sum) "voter's votes can not be negative"
  let v := { v with
    votes := sum, producers := st.voted, unclaimedRewards := st.unclaimedRewards }
  return ({ s with producers := st.producers, voters := s.voters.set v }, [])

/-- `addvote`. -/
def addvote (env : Env) (s : State) (voter : Name) (votes : Asset) : Outcome :=
  changeVote env s voter votes true

/-- `subvote`. -/
def subvote (env : Env) (s : State) (voter : Name) (votes : Asset) : Outcome :=
  changeVote env s voter votes false

/-- The three groups `voteproducer` sorts the producers into. -/
structure VoteGroups where
  kept : VotedProducerMap
  removed : VotedProducerMap := .empty
  added : VotedProducerMap := .empty

/-- The loop of `voteproducer` over the old and the new producers. -/
def groupLoop : ℕ → List VotedProducer → List Name → VoteGroups → VoteGroups
  | 0, _, _, g => g
  | fuel + 1, o :: os, n :: ns, g =>
    if o.name < n then
      groupLoop fuel os (n :: ns) { g with removed := g.removed.set o, kept := g.kept.erase o.name }
    else if n < o.name then
      groupLoop fuel (o :: os) ns { g with added := g.added.set { name := n } }
    else
      groupLoop fuel os ns g
  | fuel + 1, o :: os, [], g =>
    groupLoop fuel os [] { g with removed := g.removed.set o, kept := g.kept.erase o.name }
  | fuel + 1, [], n :: ns, g =>
    groupLoop fuel [] ns { g with added := g.added.set { name := n } }
  | _ + 1, [], [], g => g

def voteGroups (old : VotedProducerMap) (new : List Name) : VoteGroups :=
  groupLoop (old.rows.length + new.length) old.rows new { kept := old }

/-- `v.producers.emplace`, which keeps an entry that is already there. -/
def emplaceVoted (m : VotedProducerMap) (e : VotedProducer) : VotedProducerMap :=
  match m.find? e.name with
  | none => m.set e
  | some _ => m

/-- `voteproducer`. -/
def voteproducer (env : Env) (s : State) (voter : Name) (producers : List Name) : Outcome := do
  requireAuth env self
  requireAuth env voter
  check .action (producers.IsChain (· < ·)) "producer votes must be uniqued and sorted"
  payRow voter
  let v := s.voter voter
  let groups := voteGroups v.producers producers
  let st₁ ← allocateProducerRewards s.producers groups.removed v.votes (-v.votes) v.unclaimedRewards
  let st₂ ← allocateProducerRewards st₁.producers groups.kept v.votes 0 st₁.unclaimedRewards
  let st₃ ← allocateProducerRewards st₂.producers groups.added 0 v.votes st₂.unclaimedRewards
  let v := { v with
    producers := st₃.voted.rows.foldl emplaceVoted st₂.voted
    unclaimedRewards := st₃.unclaimedRewards }
  return ({ s with producers := st₃.producers, voters := s.voters.set v }, [])

-- ---------------------------------------------------------------------------
-- Transfers
-- ---------------------------------------------------------------------------

/-- The common body of `claimrewards` and `claimfor`. -/
def claim (env : Env) (s : State) (voter : Name) : Outcome := do
  match s.voters.find? voter with
  | none => .error ⟨.action, "voter info not found"⟩
  | some v =>
    check .action (0 < v.votes) "voter's votes must be positive"
    let st ← allocateProducerRewards s.producers v.producers v.votes 0 v.unclaimedRewards
    check .action (0 < st.unclaimedRewards) "no rewards to claim"
    check .sent env.transferOk "a sent action failed"
    let claimedRewards ← addAmount v.claimedRewards st.unclaimedRewards
    let v := { v with producers := st.voted, unclaimedRewards := 0, claimedRewards }
    return ({ s with producers := st.producers, voters := s.voters.set v },
      [.paid voter st.unclaimedRewards])

/-- `claimrewards`. -/
def claimrewards (env : Env) (s : State) (voter : Name) : Outcome := do
  requireAuth env voter
  claim env s voter

/-- `claimfor`. -/
def claimfor (env : Env) (s : State) (submitter voter : Name) : Outcome := do
  requireAuth env submitter
  claim env s voter

/-- `ontransfer`. -/
def ontransfer (env : Env) (s : State) (sender receiver : Name) (quantity : Asset) : Outcome := do
  if env.firstReceiver = coreToken ∧ quantity.symbol = s.coreSymbol ∧ sender ≠ rewardAccount ∧
      receiver = rewardAccount then
    let totalRewards ← addAmount s.totalRewards quantity.amount
    match s.producers.find? sender with
    | none => .error ⟨.action, "producer(from) not found"⟩
    | some p =>
      check .action p.isRegistered "producer(from) not registered"
      let total ← addAmount p.totalRewards quantity.amount
      let allocatingRewards ← addAmount p.allocatingRewards quantity.amount
      let rewardsPerVote ← calcRewardsPerVote p.rewardsPerVote quantity.amount p.votes
      let p := { p with totalRewards := total, allocatingRewards, rewardsPerVote }
      return ({ s with totalRewards, producers := s.producers.set p }, [.received quantity.amount])
  else
    return (s, [])

-- ---------------------------------------------------------------------------
-- Transactions
-- ---------------------------------------------------------------------------

inductive Action where
  | regproducer (producer : Name)
  | addvote (voter : Name) (votes : Asset)
  | subvote (voter : Name) (votes : Asset)
  | voteproducer (voter : Name) (producers : List Name)
  | claimrewards (voter : Name)
  | claimfor (submitter voter : Name)
  | ontransfer (sender receiver : Name) (quantity : Asset)
  deriving DecidableEq

structure Transaction where
  env : Env
  action : Action

/-- Perform a transaction. Every action first reads the core symbol. -/
def transact (tx : Transaction) (s : State) : Outcome := do
  check .action s.coreSymbol.isValid "core symbol of system contract is invalid"
  match tx.action with
  | .regproducer p => regproducer tx.env s p
  | .addvote voter votes => addvote tx.env s voter votes
  | .subvote voter votes => subvote tx.env s voter votes
  | .voteproducer voter producers => voteproducer tx.env s voter producers
  | .claimrewards voter => claimrewards tx.env s voter
  | .claimfor submitter voter => claimfor tx.env s submitter voter
  | .ontransfer sender receiver quantity => ontransfer tx.env s sender receiver quantity

abbrev State.final (s : State) (txs : List Transaction) : State := Run.final transact s txs
abbrev State.flows (s : State) (txs : List Transaction) : List Flow := Run.outputs transact s txs

end Amax.Reward
