-- SUMMARY: Registration of producers, the votes of voters and their refunds, and the setup of elections.
import Amax.System.Election

/-! # Voting

The actions of `voting.cpp`. An action maps the state to a new state and to the
actions it sends to other contracts, or aborts. -/

namespace Amax

/-- What an action does: the state after it, and the actions it sends. -/
abbrev Outcome := Result (System × List Inline)

/-- `core_symbol()`. -/
def System.coreSymbol (s : System) : Result Symbol := do
  check .action (s.gstate.coreSymbol ≠ .none) "system contract must first be initialized"
  return s.gstate.coreSymbol

/-- `has_auth( get_self() ) || has_auth( producer_admin )`. -/
def requireAdmin (env : Env) : Result Unit :=
  check .action (env.hasAuth self ∨ env.hasAuth producerAdmin) "missing authority"

/-- The loop that checks that names are unique and sorted. -/
def sortedNames (producers : List Name) : Result NameList :=
  if h : producers.IsChain (· < ·) then .ok ⟨producers, h.pairwise⟩
  else .error ⟨.action, "producer votes must be unique and sorted"⟩

-- ---------------------------------------------------------------------------
-- Registration
-- ---------------------------------------------------------------------------

/-- The row `register_producer` leaves for a producer that has one. -/
def ProducerInfo.reregister (info : ProducerInfo) (now : TimePoint)
    (authority : BlockSigningAuthority) (rewardSharedRatio : Option ℕ) : ProducerInfo :=
  let ext := info.ext.getD {}
  { info with
    isActive := true
    producerAuthority := authority
    ext := some { ext with rewardSharedRatio := rewardSharedRatio.getD ext.rewardSharedRatio }
    lastClaimedTime := if info.lastClaimedTime = 0 then now else info.lastClaimedTime
    indexed := true }

/-- `register_producer`. -/
def registerProducer (env : Env) (s : System) (producer : Name) (authority : BlockSigningAuthority)
    (rewardSharedRatio : Option ℕ) : Outcome := do
  check .action (∀ r ∈ rewardSharedRatio, r ≤ ratioBoost)
    "reward_shared_ratio is too large than 10000"
  let coreSym ← s.coreSymbol
  let sent := if env.rewardRegistered producer then [] else [.rewardRegproducer producer]
  match s.producers.find? producer with
  | some prod =>
    let info := prod.reregister env.now authority rewardSharedRatio
    let s := { s with producers := s.producers.set info }
    if s.electGstate.isBbpEnabled then
      let (g, changes) ← processElectedProducer s.electGstate (electedProd s.producers)
        prod.getElectedInfo info.getElectedInfo {}
      let s ← saveProducerChanges env { s with electGstate := g } changes
      return (s, sent)
    else
      return (s, sent)
  | none =>
    payRow producer
    let unclaimedRewards ← Asset.make 0 coreSym
    let info : ProducerInfo := {
      owner := producer
      isActive := true
      lastClaimedTime := env.now
      unclaimedRewards
      producerAuthority := authority
      ext := some { rewardSharedRatio := rewardSharedRatio.getD 0 }
      indexed := true }
    return ({ s with producers := s.producers.set info }, sent)

/-- `regproducer`. -/
def regproducer (env : Env) (s : System) (producer : Name) (producerKey : PublicKey) (url : String)
    (rewardSharedRatio : Option ℕ) : Outcome := do
  check .action (env.hasAuth producer ∨ env.hasAuth self) "missing authority producer"
  check .action (url.utf8ByteSize < 512) "url too long"
  registerProducer env s producer ⟨1, [⟨producerKey, 1⟩]⟩ rewardSharedRatio

/-- `regproducer2`. -/
def regproducer2 (env : Env) (s : System) (producer : Name)
    (producerAuthority : BlockSigningAuthority) (url : String) (rewardSharedRatio : Option ℕ) :
    Outcome := do
  check .action (env.hasAuth producer ∨ env.hasAuth self) "missing authority producer"
  check .action (url.utf8ByteSize < 512) "url too long"
  check .action (producerAuthority.isValid) "invalid producer authority"
  registerProducer env s producer producerAuthority rewardSharedRatio

/-- `setvoteshare`. -/
def setvoteshare (env : Env) (s : System) (producer : Name) (rewardSharedRatio : ℕ) :
    Outcome := do
  check .action (env.hasAuth producer ∨ env.hasAuth self) "missing authority producer"
  check .action (rewardSharedRatio ≤ ratioBoost) "reward_shared_ratio is too large than 10000"
  match s.producers.find? producer with
  | none => .error ⟨.action, "producer not found"⟩
  | some prod =>
    match prod.ext with
    | none => .error ⟨.action, "producer is not updated"⟩
    | some ext =>
      let prod := { prod with ext := some { ext with rewardSharedRatio } }
      return ({ s with producers := s.producers.set prod }, [])

/-- What `unregprod` and `rmvproducer` do to the row of a producer. -/
def deactivateProducer (s : System) (producer : Name) : Outcome :=
  match s.producers.find? producer with
  | none => .error ⟨.action, "producer not found"⟩
  | some prod => .ok ({ s with producers := s.producers.set prod.deactivate }, [])

/-- `unregprod`. -/
def unregprod (env : Env) (s : System) (producer : Name) : Outcome := do
  requireAuth env producer
  deactivateProducer s producer

/-- `rmvproducer`. -/
def rmvproducer (env : Env) (s : System) (producer : Name) : Outcome := do
  requireAdmin env
  deactivateProducer s producer

-- ---------------------------------------------------------------------------
-- Setup of elections
-- ---------------------------------------------------------------------------

/-- `upgradevote`. -/
def upgradevote (env : Env) (s : System) : Outcome := do
  requireAdmin env
  let s := updateElectedProducers env { s with
    electGstate := { s.electGstate with electedVersion := 1 } }
  return ({ s with gstate := { s.gstate with
    lastProducerScheduleUpdate := TimePoint.toSlot env.now } }, [])

/-- `setmprodvote`. -/
def setmprodvote (env : Env) (s : System) (minProducerVotes : Asset) : Outcome := do
  requireAdmin env
  check .action (minProducerVotes.symbol = voteSymbol) "min_producer_votes symbol mismatch"
  check .action (0 < minProducerVotes.amount) "min_producer_votes must be positive"
  check .action (minProducerVotes.amount ≠ s.electGstate.minProducerVotes)
    "min_producer_votes no change"
  return ({ s with electGstate := { s.electGstate with
    minProducerVotes := minProducerVotes.amount } }, [])

/-- The part of `initbbpelect` that starts a new round of elections. -/
def startElection (env : Env) (s : System) : Result System := do
  match ← reinitElectedProducers s.electGstate (electedProd s.producers) with
  | none =>
    .error ⟨.action, "there must be at least " ++ toString (s.electGstate.minProducerCount + 1) ++
      " valid producers"⟩
  | some (g, changes) =>
    let (ret, native) := setProposedProducersEx env.nativeAccepts changes s.native
    check .action (0 ≤ ret)
      ("set proposed producers to native system failed(" ++ toString ret ++ ")")
    return { s with
      electGstate := g
      native
      gstate := { s.gstate with
        electedSequence := nextSequence s.gstate.electedSequence
        lastProducerScheduleUpdate := TimePoint.toSlot env.now } }

/-- `initbbpelect`. -/
def initbbpelect (env : Env) (s : System) (maxBackupProducerCount : ℕ) : Outcome := do
  requireAdmin env
  check .action (minBackupProducerCount ≤ maxBackupProducerCount)
    "max_backup_producer_count must >= 3"
  let needReinit := s.electGstate.electedVersion < electedVersionBbpEnabled ∨
    maxBackupProducerCount < s.electGstate.maxBackupProducerCount
  let s := { s with electGstate := { s.electGstate with
    electedVersion := electedVersionBbpEnabled, maxBackupProducerCount } }
  let s ← (if needReinit then startElection env s else .ok s)
  if s.gstate.threshActivatedStakeTime = 0 then
    return ({ s with gstate := { s.gstate with threshActivatedStakeTime := env.now } }, [])
  else
    return (s, [])

-- ---------------------------------------------------------------------------
-- Voting by stake
-- ---------------------------------------------------------------------------

/-- `if (v.votes.symbol != vote_symbol) v.votes = vote_asset_0`. -/
def VoterInfo.withVoteSymbol (v : VoterInfo) : VoterInfo :=
  if v.votes.symbol ≠ voteSymbol then { v with votes := ⟨0, voteSymbol⟩ } else v

/-- The loop of `update_vote_weight_old` over the producers of the new vote. -/
def checkVotable (s : System) (voting : Bool) (p : Name) : Result Unit :=
  match s.producers.find? p with
  | some pitr =>
    check .action (voting → pitr.isActive)
      ("producer " ++ nameToString pitr.owner ++ " is not currently registered")
  | none => .error ⟨.action, "producer " ++ nameToString p ++ " is not registered"⟩

def checkVotables (s : System) (voting : Bool) : List Name → Result Unit
  | [] => .ok ()
  | p :: ps => do
    checkVotable s voting p
    checkVotables s voting ps

/-- `update_vote_weight_old` without a proxy. -/
def updateVoteWeightOld (env : Env) (s : System) (voterName : Name) (producers : List Name)
    (voting : Bool) : Result System := do
  check .action (producers.length ≤ 30) "attempt to vote for too many producers"
  let producers ← sortedNames producers
  match s.voters.find? voterName with
  | none => .error ⟨.action, "user must stake before they can vote"⟩
  | some voter =>
    let gstate :=
      if s.gstate.threshActivatedStakeTime = 0 ∧ !voter.weighted then
        let total := s.gstate.totalActivatedStake + voter.staked
        { s.gstate with
          totalActivatedStake := total
          threshActivatedStakeTime := if minActivatedStake ≤ total then env.now else 0 }
      else s.gstate
    -- the weight of a vote has the sign of the stake
    checkVotables s voting (if 0 ≤ voter.staked then producers.names else [])
    let voter := { voter with weighted := decide (0 < voter.staked), producers }.withVoteSymbol
    return { s with gstate, voters := s.voters.set voter }

/-- `voteproducer`. -/
def voteproducer (env : Env) (s : System) (voterName proxy : Name) (producers : List Name) :
    Outcome := do
  check .action (proxy = 0) "proxy is unsupported"
  check .action (!s.electGstate.isInit) "voteproducer is unsupported, use vote() action instead"
  requireAuth env voterName
  let s ← updateVoteWeightOld env s voterName producers true
  return (s, [])

/-- The row of a voter with the change of its stake, which may be its first row. -/
def stakedVoter (s : System) (voter : Name) (totalUpdate : ℤ) : Result VoterInfo :=
  match s.voters.find? voter with
  | none => do
    payRow voter
    return { owner := voter, staked := totalUpdate }
  | some v => .ok { v with staked := v.staked + totalUpdate }

/-- `update_voting_power`. -/
def updateVotingPower (env : Env) (s : System) (voter : Name) (totalUpdate : ℤ) :
    Result System := do
  let v ← stakedVoter s voter totalUpdate
  check .action (0 ≤ v.staked) "stake for voting cannot be negative"
  let s := { s with voters := s.voters.set v }
  if v.producers.names ≠ [] then
    updateVoteWeightOld env s voter v.producers.names false
  else return s

/-- `changebw`, of which only the voting power is modelled in full. -/
def changebw (env : Env) (s : System) (sender receiver : Name) (stakeNetDelta stakeCpuDelta : Asset)
    (transfer : Bool) : Outcome := do
  check .action (env.hasAuth sender ∨ env.hasAuth armoniaadmin) "non authorized"
  check .action (stakeNetDelta.amount ≠ 0 ∨ stakeCpuDelta.amount ≠ 0)
    "should stake non-zero amount"
  let total ← stakeNetDelta.add stakeCpuDelta
  check .action (max |stakeNetDelta.amount| |stakeCpuDelta.amount| ≤ |total.amount|)
    "net and cpu deltas cannot be opposite signs"
  check .action env.bandwidthOk "insufficient staked bandwidth"
  let sender := if transfer then receiver else sender
  let s ← updateVotingPower env s sender total.amount
  return (s, [])

/-- `delegatebw`. -/
def delegatebw (env : Env) (s : System) (sender receiver : Name)
    (stakeNetQuantity stakeCpuQuantity : Asset) (transfer : Bool) : Outcome := do
  let zeroAsset ← Asset.make 0 (← s.coreSymbol)
  check .action (← zeroAsset.le stakeCpuQuantity) "must stake a positive amount"
  check .action (← zeroAsset.le stakeNetQuantity) "must stake a positive amount"
  check .action (0 < stakeNetQuantity.amount + stakeCpuQuantity.amount)
    "must stake a positive amount"
  check .action (!transfer ∨ sender ≠ receiver) "cannot use transfer flag if delegating to self"
  changebw env s sender receiver stakeNetQuantity stakeCpuQuantity transfer

/-- `undelegatebw`. -/
def undelegatebw (env : Env) (s : System) (sender receiver : Name)
    (unstakeNetQuantity unstakeCpuQuantity : Asset) : Outcome := do
  check .action (env.hasAuth self ∨ env.hasAuth armoniaadmin) "non authorized"
  let zeroAsset ← Asset.make 0 (← s.coreSymbol)
  check .action (← zeroAsset.le unstakeCpuQuantity) "must unstake a positive amount"
  check .action (← zeroAsset.le unstakeNetQuantity) "must unstake a positive amount"
  check .action (0 < unstakeCpuQuantity.amount + unstakeNetQuantity.amount)
    "must unstake a positive amount"
  check .action (s.gstate.threshActivatedStakeTime ≠ 0 ∨ s.electGstate.isInit)
    ("cannot undelegate bandwidth until the chain is activated (at least 5% of all tokens " ++
      "participate in voting or electing is initialized)")
  changebw env s sender receiver unstakeNetQuantity.neg unstakeCpuQuantity.neg false

inductive ManagedResource where
  | ram
  | net
  | cpu
  deriving DecidableEq

namespace ManagedResource

def isManaged (r : ManagedResource) (v : VoterInfo) : Bool :=
  match r with
  | .ram => v.ramManaged
  | .net => v.netManaged
  | .cpu => v.cpuManaged

def setManaged (r : ManagedResource) (v : VoterInfo) (managed : Bool) : VoterInfo :=
  match r with
  | .ram => { v with ramManaged := managed }
  | .net => { v with netManaged := managed }
  | .cpu => { v with cpuManaged := managed }

/-- The smallest limit the action for this resource takes. -/
def minLimit : ManagedResource → ℤ
  | .ram => 0
  | .net => -1
  | .cpu => -1

def unmanaged : ManagedResource → String
  | .ram => "RAM of account is already unmanaged"
  | .net => "Network bandwidth of account is already unmanaged"
  | .cpu => "CPU bandwidth of account is already unmanaged"

def invalid : ManagedResource → String
  | .ram => "not allowed to set RAM limit to unlimited"
  | .net => "invalid value for net_weight"
  | .cpu => "invalid value for cpu_weight"

end ManagedResource

/-- The common body of `setacctram`, `setacctnet` and `setacctcpu`. -/
def setAccountResource (r : ManagedResource) (env : Env) (s : System) (account : Name)
    (limit : Option ℤ) : Outcome := do
  requireAuth env self
  match limit, s.voters.find? account with
  | none, none => .error ⟨.action, r.unmanaged⟩
  | none, some v =>
    check .action (r.isManaged v) r.unmanaged
    return ({ s with voters := s.voters.set (r.setManaged v false) }, [])
  | some x, some v =>
    check .action (r.minLimit ≤ x) r.invalid
    return ({ s with voters := s.voters.set (r.setManaged v true) }, [])
  | some x, none =>
    check .action (r.minLimit ≤ x) r.invalid
    payRow account
    return ({ s with voters := s.voters.set (r.setManaged { owner := account } true) }, [])

def setacctram (env : Env) (s : System) (account : Name) (ramBytes : Option ℤ) : Outcome :=
  setAccountResource .ram env s account ramBytes

def setacctnet (env : Env) (s : System) (account : Name) (netWeight : Option ℤ) : Outcome :=
  setAccountResource .net env s account netWeight

def setacctcpu (env : Env) (s : System) (account : Name) (cpuWeight : Option ℤ) : Outcome :=
  setAccountResource .cpu env s account cpuWeight

-- ---------------------------------------------------------------------------
-- Elected votes
-- ---------------------------------------------------------------------------

/-- `vote_to_core_asset`: the product is taken in 64 bits, then checked. -/
def voteToCoreAsset (s : System) (votes : Asset) : Result Asset := do
  let amount := toInt64 (votes.amount * voteToCoreAssetFactor)
  check .action (0 ≤ amount ∧ amount ≤ int64Max) "votes out of range"
  Asset.make amount (← s.coreSymbol)

/-- One round of the loop of `update_producer_elected_votes`. -/
def addElectedVotes (votesDelta : Asset) (isAdding : Bool) (s : System)
    (changes : ProposedProducerChanges) (p : Name) : Result (System × ProposedProducerChanges) := do
  match s.producers.find? p with
  | none => .error ⟨.action, "producer " ++ nameToString p ++ " is not registered"⟩
  | some pitr =>
    check .action (isAdding → pitr.isActive)
      ("producer " ++ nameToString pitr.owner ++ " is not active")
    match pitr.ext with
    | none =>
      .error ⟨.action, "producer " ++ nameToString pitr.owner ++ " is not updated by regproducer"⟩
    | some ext =>
      let electedVotes ← (Asset.mk ext.electedVotes voteSymbol).add votesDelta
      check .tally (0 ≤ electedVotes.amount) "producer's elected votes can not be negative"
      let total := s.electGstate.totalProducerElectedVotes + votesDelta.amount
      check .tally (0 ≤ total) "total_producer_elected_votes can not be negative"
      let info := { pitr with ext := some { ext with electedVotes := electedVotes.amount } }
      let s := { s with
        producers := s.producers.set info
        electGstate := { s.electGstate with totalProducerElectedVotes := total } }
      if s.electGstate.isBbpEnabled then
        let (g, changes) ← processElectedProducer s.electGstate (electedProd s.producers)
          pitr.getElectedInfo info.getElectedInfo changes
        return ({ s with electGstate := g }, changes)
      else
        return (s, changes)

/-- `update_producer_elected_votes`. -/
def updateProducerElectedVotes (producers : List Name) (votesDelta : Asset) (isAdding : Bool)
    (s : System) (changes : ProposedProducerChanges) : Result (System × ProposedProducerChanges) :=
  producers.foldlM (fun r p => addElectedVotes votesDelta isAdding r.1 r.2 p) (s, changes)

/-- Change the votes of groups of producers one after the other, and save the changes. -/
def moveElectedVotes (env : Env) (s : System) (groups : List (List Name × Asset)) :
    Result System := do
  let (s, changes) ← groups.foldlM
    (fun r group => updateProducerElectedVotes group.1 group.2 false r.1 r.2) (s, {})
  saveProducerChanges env s changes

/-- `addvote`. -/
def addvote (env : Env) (s : System) (voter : Name) (votes : Asset) : Outcome := do
  requireAuth env voter
  check .action (votes.symbol = voteSymbol) "votes symbol mismatch"
  check .action (0 < votes.amount) "votes must be positive"
  let voteStaked ← voteToCoreAsset s votes
  let sent := [.transfer voter voteAccount voteStaked "addvote", .rewardAddvote voter votes]
  match s.voters.find? voter with
  | some v => do
    let s ← (if v.producers.names ≠ [] then moveElectedVotes env s [(v.producers.names, votes)]
      else .ok s)
    let v := v.withVoteSymbol
    let sum ← v.votes.add votes
    return ({ s with voters := s.voters.set { v with votes := sum } }, sent)
  | none =>
    payRow voter
    return ({ s with voters := s.voters.set { owner := voter, votes } }, sent)

/-- `subvote`. -/
def subvote (env : Env) (s : System) (voter : Name) (votes : Asset) : Outcome := do
  requireAuth env voter
  check .action (1724839200 < env.now.secSinceEpoch) "Backup node feature upgrade in progress"
  check .action (votes.symbol = voteSymbol) "votes symbol mismatch"
  check .action (0 < votes.amount) "votes must be positive"
  match s.voters.find? voter with
  | none => .error ⟨.action, "voter not found"⟩
  | some v =>
    check .action (← votes.le v.votes) "votes insufficent"
    check .action (voter ≠ armoniaadmin →
        Slot.toTimePoint v.lastUnvotedTime + seconds voteIntervalSec < env.now)
      "[[100]] [[amax]] Voter can only vote or subvote once a day"
    check .action ((s.voteRefunds.find? voter).isNone)
      "[[101]] [[amax]] This account already has a vote refund"
    let votesDelta := votes.neg
    let s ← moveElectedVotes env s [(v.producers.names, votesDelta)]
    let v := v.withVoteSymbol
    let rest ← v.votes.add votesDelta
    payRow voter
    return ({ s with
      voters := s.voters.set { v with votes := rest, lastUnvotedTime := TimePoint.toSlot env.now }
      voteRefunds := s.voteRefunds.set
        { owner := voter, requestTime := env.now.secSinceEpoch, votes } },
      [.rewardSubvote voter votes])

/-- `refundvote`. -/
def refundvote (env : Env) (s : System) (owner : Name) : Outcome := do
  match s.voteRefunds.find? owner with
  | none => .error ⟨.action, "no vote refund found"⟩
  | some itr =>
    check .action (seconds itr.requestTime + seconds refundDelaySec ≤ env.now)
      "refund period not mature yet"
    let voteStaked ← voteToCoreAsset s itr.votes
    return ({ s with voteRefunds := s.voteRefunds.erase owner },
      [.transfer voteAccount itr.owner voteStaked "refundvote"])

/-- The vectors `vote` fills. -/
structure VoteDiff where
  removed : List Name := []
  modified : List Name := []
  added : List Name := []
  deriving DecidableEq

/-- The loop of `vote` over the old and the new producers. It compares the two
iterators themselves, that is, the addresses `oldItr` and `newItr`, and not the
names they point to. -/
def voteDiffLoop : ℕ → (oldItr newItr : ℕ) → (oldProds newProds : List Name) → VoteDiff → VoteDiff
  | 0, _, _, _, _, d => d
  | fuel + 1, oldItr, newItr, o :: os, n :: ns, d =>
    if oldItr < newItr then
      voteDiffLoop fuel (oldItr + 8) newItr os (n :: ns) { d with removed := d.removed ++ [o] }
    else if newItr < oldItr then
      voteDiffLoop fuel oldItr (newItr + 8) (o :: os) ns { d with added := d.added ++ [n] }
    else
      voteDiffLoop fuel (oldItr + 8) (newItr + 8) os ns { d with modified := d.modified ++ [o] }
  | fuel + 1, oldItr, newItr, o :: os, [], d =>
    voteDiffLoop fuel (oldItr + 8) newItr os [] { d with removed := d.removed ++ [o] }
  | fuel + 1, oldItr, newItr, [], n :: ns, d =>
    voteDiffLoop fuel oldItr (newItr + 8) [] ns { d with added := d.added ++ [n] }
  | _ + 1, _, _, [], [], d => d

def voteDiff (place : (m n : ℕ) → Placement m n) (oldProds newProds : List Name) : VoteDiff :=
  let at_ := place oldProds.length newProds.length
  voteDiffLoop (oldProds.length + newProds.length) at_.old at_.new oldProds newProds {}

/-- `vote`. -/
def vote (env : Env) (s : System) (voter : Name) (producers : List Name) : Outcome := do
  requireAuth env voter
  check .action (producers.length ≤ maxVoteProducerCount) "attempt to vote for too many producers"
  let producers ← sortedNames producers
  match s.voters.find? voter with
  | none => .error ⟨.action, "voter not found"⟩
  | some v =>
    check .action (0 ≤ v.votes.amount) "voter_itr->votes.amount >= 0"
    if v.producers = producers then
      return (s, [])
    else
      check .action (Slot.toTimePoint v.lastUnvotedTime + seconds voteIntervalSec < env.now)
        "Voter can only vote or subvote once a day"
      let diff := voteDiff env.place v.producers.names producers.names
      let s ← moveElectedVotes env s
        [(diff.removed, v.votes.neg), (diff.modified, ⟨0, voteSymbol⟩), (diff.added, v.votes)]
      let v := { v.withVoteSymbol with producers, lastUnvotedTime := TimePoint.toSlot env.now }
      return ({ s with voters := s.voters.set v }, [.rewardVoteproducer voter producers.names])

-- ---------------------------------------------------------------------------
-- The comparison of the two vectors
-- ---------------------------------------------------------------------------

private theorem voteDiffLoop_old_first {fuel a b : ℕ} {os ns : List Name} {d : VoteDiff}
    (hf : os.length + ns.length ≤ fuel) (h : a + 8 * os.length ≤ b) :
    voteDiffLoop fuel a b os ns d =
      { d with removed := d.removed ++ os, added := d.added ++ ns } := by
  induction fuel generalizing a b os ns d with
  | zero =>
    obtain rfl : os = [] := List.length_eq_zero_iff.mp (by omega)
    obtain rfl : ns = [] := List.length_eq_zero_iff.mp (by omega)
    simp [voteDiffLoop]
  | succ fuel ih =>
    cases os with
    | nil =>
      cases ns with
      | nil => simp [voteDiffLoop]
      | cons n ns =>
        have hlen : ([] : List Name).length + ns.length ≤ fuel := by simp at hf ⊢; omega
        rw [voteDiffLoop, ih (b := b + 8) hlen (by simp at h ⊢; omega)]
        simp
    | cons o os =>
      simp only [List.length_cons] at hf h
      cases ns with
      | nil =>
        rw [voteDiffLoop, ih (by simp at hf ⊢; omega) (by omega)]
        simp
      | cons n ns =>
        rw [voteDiffLoop, if_pos (by omega), ih (by simp at hf ⊢; omega) (by omega)]
        simp

private theorem voteDiffLoop_new_first {fuel a b : ℕ} {os ns : List Name} {d : VoteDiff}
    (hf : os.length + ns.length ≤ fuel) (h : b + 8 * ns.length ≤ a) :
    voteDiffLoop fuel a b os ns d =
      { d with removed := d.removed ++ os, added := d.added ++ ns } := by
  induction fuel generalizing a b os ns d with
  | zero =>
    obtain rfl : os = [] := List.length_eq_zero_iff.mp (by omega)
    obtain rfl : ns = [] := List.length_eq_zero_iff.mp (by omega)
    simp [voteDiffLoop]
  | succ fuel ih =>
    cases ns with
    | nil =>
      cases os with
      | nil => simp [voteDiffLoop]
      | cons o os =>
        have hlen : os.length + ([] : List Name).length ≤ fuel := by simp at hf ⊢; omega
        rw [voteDiffLoop, ih (a := a + 8) hlen (by simp at h ⊢; omega)]
        simp
    | cons n ns =>
      simp only [List.length_cons] at hf h
      cases os with
      | nil =>
        rw [voteDiffLoop, ih (by simp at hf ⊢; omega) (by omega)]
        simp
      | cons o os =>
        rw [voteDiffLoop, if_neg (by omega), if_pos (by omega),
          ih (by simp at hf ⊢; omega) (by omega)]
        simp

/-- Wherever the two vectors lie, every old producer is removed and every new
one is added: a producer in both lists is never recognised. -/
theorem voteDiff_eq (place : (m n : ℕ) → Placement m n) (oldProds newProds : List Name) :
    voteDiff place oldProds newProds =
      { removed := oldProds, modified := [], added := newProds } := by
  unfold voteDiff
  rcases (place oldProds.length newProds.length).disjoint with h | h
  · simpa using voteDiffLoop_old_first (d := {}) le_rfl h
  · simpa using voteDiffLoop_new_first (d := {}) le_rfl h

end Amax
