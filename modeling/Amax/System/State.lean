-- SUMMARY: The tables and global records of the system contract, the answers it gets from the chain, and what it asks of other contracts.
import Amax.Base.Table
import Amax.Base.Patch
import Amax.Eosio.Types

/-! # State of the system contract

The tables of the contract with the fields its elections, payments and reward
accounting use, and the environment one action runs in. Amounts that only ever
hold the vote symbol are plain numbers. -/

namespace Amax

-- ---------------------------------------------------------------------------
-- Constants
-- ---------------------------------------------------------------------------

/-- `symbol("VOTE", 4)`. -/
def voteSymbol : Symbol := ⟨['V', 'O', 'T', 'E'], 4⟩

def minBackupProducerCount : ℕ := 3
def maxVoteProducerCount : ℕ := 30
def voteIntervalSec : ℕ := 24 * 3600
def refundDelaySec : ℕ := 3 * (24 * 3600)
def secondsPerDay : ℕ := 24 * 3600
def voteToCoreAssetFactor : ℤ := 10000
def ratioBoost : ℕ := 10000
def blocksPerMinute : ℕ := 60 * 1000 / blockIntervalMs
def minActivatedStake : ℤ := 5000000000000000
def totalMainProducerRewards : ℤ := 5000000000000000
def totalBackupProducerRewards : ℤ := 5000000000000000
def rewardHalvingPeriodSeconds : ℤ := 5 * (365 * 24 * 3600)
def rewardHalvingPeriodBlocks : ℤ := rewardHalvingPeriodSeconds * 1000 / 500

/-- `ELECTED_VERSION_BBP_ENABLED`. -/
def electedVersionBbpEnabled : ℕ := 2

def self : Name := 3786911560107032576
def voteAccount : Name := 3786912035125592064
def rewardAccount : Name := 3786911961086022144
def producerAdmin : Name := 3786915230994525056
def armoniaadmin : Name := 3883591311626640688

example : [self, voteAccount, rewardAccount, producerAdmin, armoniaadmin].map nameToString =
    ["amax", "amax.vote", "amax.reward", "amaxapplybps", "armoniaadmin"] := by decide +kernel

-- ---------------------------------------------------------------------------
-- Producers
-- ---------------------------------------------------------------------------

/-- A public key, as a number; `0` is the empty key. -/
abbrev PublicKey := ℕ

structure KeyWeight where
  key : PublicKey
  weight : ℕ
  deriving DecidableEq

/-- `block_signing_authority_v0`. -/
structure BlockSigningAuthority where
  threshold : ℕ
  keys : List KeyWeight
  deriving DecidableEq

/-- `block_signing_authority{}`. -/
def BlockSigningAuthority.none : BlockSigningAuthority := ⟨0, []⟩

/-- `auth.is_valid()`: no key twice, and the weights reach a positive threshold. -/
def BlockSigningAuthority.isValid (a : BlockSigningAuthority) : Bool :=
  (a.keys.map (·.key)).Nodup && min (a.keys.map (·.weight)).sum (2 ^ 32 - 1) ≥ a.threshold &&
    a.threshold ≠ 0

structure ProducerInfoExt where
  electedVotes : ℤ := 0
  rewardSharedRatio : ℕ := 0
  deriving DecidableEq

/-- A row of `producers`. -/
structure ProducerInfo where
  owner : Name
  isActive : Bool
  lastClaimedTime : TimePoint
  unclaimedRewards : Asset
  producerAuthority : BlockSigningAuthority
  ext : Option ProducerInfoExt
  /-- The row has an entry in the nullable index `electedprod`. -/
  indexed : Bool
  deriving DecidableEq

-- ---------------------------------------------------------------------------
-- Voters
-- ---------------------------------------------------------------------------

/-- A list of names in increasing order without repetition. -/
@[ext] structure NameList where
  names : List Name
  sorted : names.Pairwise (· < ·)
  deriving DecidableEq

def NameList.nil : NameList := ⟨[], .nil⟩

def NameList.single (n : Name) : NameList := ⟨[n], List.pairwise_singleton _ _⟩

/-- A row of `voters`. -/
structure VoterInfo where
  owner : Name
  producers : NameList := .nil
  staked : ℤ := 0
  /-- `last_vote_weight > 0`. -/
  weighted : Bool := false
  ramManaged : Bool := false
  netManaged : Bool := false
  cpuManaged : Bool := false
  votes : Asset := ⟨0, voteSymbol⟩
  lastUnvotedTime : Slot := 0
  deriving DecidableEq

/-- A row of `voterefund`; `requestTime` is in seconds. -/
structure VoteRefund where
  owner : Name
  requestTime : ℕ
  votes : Asset
  deriving DecidableEq

-- ---------------------------------------------------------------------------
-- Producer changes
-- ---------------------------------------------------------------------------

/-- `producer_change_record`. -/
inductive ProducerChangeRecord where
  | add (authority : BlockSigningAuthority)
  | modify (authority : BlockSigningAuthority)
  | del
  deriving DecidableEq

structure ProducerChange where
  name : Name
  record : ProducerChangeRecord
  deriving DecidableEq

/-- `change_map_t`. -/
abbrev ChangeMap := Table ProducerChange.name

structure ProducerChangeMap where
  clearExisted : Bool := false
  producerCount : ℕ := 0
  changes : ChangeMap := .empty

structure ProposedProducerChanges where
  mainChanges : ProducerChangeMap := {}
  backupChanges : ProducerChangeMap := {}

/-- A row of `electchange`. -/
structure ElectedChange where
  id : ℕ
  electedSequence : ℕ
  changes : ProposedProducerChanges
  createdAt : Slot

-- ---------------------------------------------------------------------------
-- Global records
-- ---------------------------------------------------------------------------

structure ProducerElectedInfo where
  name : Name := 0
  isActive : Bool := true
  electedVotes : ℤ := 0
  authority : BlockSigningAuthority := .none
  deriving DecidableEq

structure ProducerElectedQueue where
  lastProducerCount : ℕ := 0
  tail : ProducerElectedInfo := {}
  tailPrev : ProducerElectedInfo := {}
  tailNext : ProducerElectedInfo := {}
  deriving DecidableEq

structure ProducerRewardInfo where
  totalRewards : Asset := .none
  rewardsPerBlock : Asset := .none
  producedRewards : Asset := .none
  deriving DecidableEq

/-- `amax_global_state`. -/
structure GlobalState where
  coreSymbol : Symbol := .none
  lastProducerScheduleUpdate : Slot := 0
  totalActivatedStake : ℤ := 0
  threshActivatedStakeTime : TimePoint := 0
  lastProducerScheduleSize : ℕ := 0
  initRewardStartTime : TimePoint := 0
  initRewardEndTime : TimePoint := 0
  /-- A `uint32_t`. -/
  electedSequence : ℕ := 0
  deriving DecidableEq

structure ElectGlobalState where
  electedVersion : ℕ := 0
  totalProducerElectedVotes : ℤ := 0
  maxMainProducerCount : ℕ := 21
  maxBackupProducerCount : ℕ := 10000
  minProducerVotes : ℤ := 10000000
  lastProducerChangeId : ℕ := 0
  producerChangeInterrupted : Bool := false
  mainElectedQueue : ProducerElectedQueue := {}
  backupElectedQueue : ProducerElectedQueue := {}
  halvingPeriodNum : ℤ := 0
  mainRewardInfo : ProducerRewardInfo := {}
  backupRewardInfo : ProducerRewardInfo := {}
  minBackupRewardContribution : ℕ := 3000
  deriving DecidableEq

namespace ElectGlobalState

def isInit (g : ElectGlobalState) : Bool := 0 < g.electedVersion
def isBbpEnabled (g : ElectGlobalState) : Bool := electedVersionBbpEnabled ≤ g.electedVersion
def minProducerCount (g : ElectGlobalState) : ℕ := g.maxMainProducerCount + minBackupProducerCount

/-- `is_prod_votes_valid`. -/
def isProdVotesValid (g : ElectGlobalState) (votes : ℤ) : Bool :=
  0 < votes && g.minProducerVotes ≤ votes

end ElectGlobalState

/-- The producers the chain itself runs with. -/
structure Native where
  main : Finset Name := ∅
  backup : Finset Name := ∅
  deriving DecidableEq

structure System where
  gstate : GlobalState := {}
  electGstate : ElectGlobalState := {}
  producers : Table ProducerInfo.owner := .empty
  voters : Table VoterInfo.owner := .empty
  voteRefunds : Table VoteRefund.owner := .empty
  electedChanges : Table ElectedChange.id := .empty
  native : Native := {}

-- ---------------------------------------------------------------------------
-- Environment
-- ---------------------------------------------------------------------------

/-- The actions of other contracts that an action sends. -/
inductive Inline where
  | transfer (sender receiver : Name) (quantity : Asset) (memo : String)
  | issue (receiver : Name) (quantity : Asset) (memo : String)
  | rewardRegproducer (producer : Name)
  | rewardAddvote (voter : Name) (votes : Asset)
  | rewardSubvote (voter : Name) (votes : Asset)
  | rewardVoteproducer (voter : Name) (producers : List Name)
  deriving DecidableEq

/-- Where two vectors of `m` and of `n` names lie in memory: 8 bytes a name, and
the two do not overlap. -/
structure Placement (m n : ℕ) where
  old : ℕ
  new : ℕ
  disjoint : old + 8 * m ≤ new ∨ new + 8 * n ≤ old

theorem Placement.after (m n : ℕ) : 0 + 8 * m ≤ 8 * m ∨ 8 * m + 8 * n ≤ 0 := .inl (Nat.zero_add _).le

/-- What one action is told by the chain. -/
structure Env where
  now : TimePoint
  hasAuth : Name → Bool
  isAccount : Name → Bool := fun _ => true
  /-- `amax_reward::is_producer_registered`. -/
  rewardRegistered : Name → Bool := fun _ => true
  /-- The chain takes an empty set of producer changes. -/
  nativeSettable : Bool := true
  /-- The chain takes the proposed producers, or producer changes. -/
  nativeAccepts : Bool := true
  /-- What an uninitialised `bool need_erasing` happens to hold. -/
  needErasing : Bool := false
  /-- Where `vote` finds the old and the new producers of the voter. -/
  place : (m n : ℕ) → Placement m n := fun m n => ⟨0, 8 * m, Placement.after m n⟩
  /-- The producers with the largest `total_votes`, before elections are initialised. -/
  topByTotalVotes : List Name := []
  /-- The bandwidth tables and resource limits take the change. -/
  bandwidthOk : Bool := true
  /-- The other contract takes the action. -/
  inlineOk : Inline → Bool := fun _ => true

/-- `require_auth`. -/
def requireAuth (env : Env) (n : Name) : Result Unit :=
  check .action (env.hasAuth n) ("missing authority of " ++ nameToString n)

/-- A new row needs an account to pay for it. -/
def payRow (payer : Name) : Result Unit :=
  check .action (payer ≠ 0) "must specify a valid account to pay for new record"

end Amax
