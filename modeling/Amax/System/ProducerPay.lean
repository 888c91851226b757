-- SUMMARY: Block rewards: configuration, production at each block, claims, and the minute-by-minute schedule update.
import Amax.System.Voting

/-! # Producer pay

The actions of `producer_pay.cpp`. Two streams of rewards, for main and for
backup producers, credit one balance of each producer. The auction of names in
`onblock` touches none of this state and is left out. -/

namespace Amax

-- ---------------------------------------------------------------------------
-- Reward records
-- ---------------------------------------------------------------------------

/-- `if (!produced_rewards.is_valid()) produced_rewards = asset(0, symbol)`. -/
def ProducerRewardInfo.startedRewards (info : ProducerRewardInfo) (symbol : Symbol) :
    Result Asset :=
  if info.producedRewards.isValid then .ok info.producedRewards else Asset.make 0 symbol

/-- `update_reward_info`. -/
def updateRewardInfo (info : ProducerRewardInfo) (totalRewards rewardsPerBlock : Asset) :
    Result ProducerRewardInfo := do
  let producedRewards ← info.startedRewards totalRewards.symbol
  check .action (← producedRewards.le totalRewards)
    "reward_info.total_rewards >= reward_info.produced_rewards"
  return { totalRewards, rewardsPerBlock, producedRewards }

/-- `calc_halving_rewards_per_block( total_rewards )`. -/
def halvingRewardsPerBlock (totalRewards : ℤ) : ℤ :=
  (totalRewards.tdiv 2).tdiv rewardHalvingPeriodBlocks

/-- `calc_halving_rewards_per_block( reward_info )`. -/
def calcHalvingRewardsPerBlock (info : ProducerRewardInfo) : Result Asset := do
  check .action (← info.producedRewards.le info.totalRewards)
    "reward_info.total_rewards >= reward_info.produced_rewards"
  let amount := info.totalRewards.amount - info.producedRewards.amount
  Asset.make (halvingRewardsPerBlock (if 0 ≤ amount then amount else 0)) info.totalRewards.symbol

/-- `inc_producer_rewards`: pay one block out of a stream, if the stream still holds it. -/
def incProducerRewards (producers : Table ProducerInfo.owner) (info : ProducerRewardInfo)
    (producer : Name) : Result (Table ProducerInfo.owner × ProducerRewardInfo) := do
  if info.rewardsPerBlock.amount ≤ 0 then
    return (producers, info)
  else
    match producers.find? producer with
    | none => return (producers, info)
    | some prod =>
      let producedRewards ← info.producedRewards.add info.rewardsPerBlock
      if ← info.totalRewards.lt producedRewards then
        return (producers, info)
      else
        let unclaimedRewards ← prod.unclaimedRewards.add info.rewardsPerBlock
        return (producers.set { prod with unclaimedRewards }, { info with producedRewards })

-- ---------------------------------------------------------------------------
-- Blocks
-- ---------------------------------------------------------------------------

structure PreviousBackupInfo where
  producer : Name
  contribution : ℕ
  deriving DecidableEq

structure BackupBlockExtension where
  isBackup : Bool := false
  previousBackup : Option PreviousBackupInfo := none
  deriving DecidableEq

/-- `block_header`; `none` stands for an extension with another id. -/
structure BlockHeader where
  timestamp : Slot
  producer : Name
  headerExtensions : List (Option BackupBlockExtension) := []
  deriving DecidableEq

/-- The last backup extension of a header. -/
def BlockHeader.backupExtension (bh : BlockHeader) : BackupBlockExtension :=
  bh.headerExtensions.foldl (fun bbe e => e.getD bbe) {}

/-- The start of a new halving period. -/
def halve (env : Env) (s : System) : Result ElectGlobalState := do
  let g := s.electGstate
  if s.gstate.initRewardEndTime ≤ env.now then
    let curPeriodNum : ℤ := 1 +
      (((env.now - s.gstate.initRewardEndTime) / 1000000 : ℕ) : ℤ).tdiv rewardHalvingPeriodSeconds
    check .action (g.halvingPeriodNum ≤ curPeriodNum)
      "cur_period_num >= _elect_gstate.halving_period_num"
    if g.halvingPeriodNum < curPeriodNum then
      let mainPerBlock ← calcHalvingRewardsPerBlock g.mainRewardInfo
      let backupPerBlock ← (if g.isBbpEnabled then calcHalvingRewardsPerBlock g.backupRewardInfo
        else .ok g.backupRewardInfo.rewardsPerBlock)
      return { g with
        halvingPeriodNum := curPeriodNum
        mainRewardInfo := { g.mainRewardInfo with rewardsPerBlock := mainPerBlock }
        backupRewardInfo := { g.backupRewardInfo with rewardsPerBlock := backupPerBlock } }
    else return g
  else return g

/-- The rewards of one block, once the reward phase has started. -/
def produceRewards (env : Env) (s : System) (bh : BlockHeader) : Result System := do
  if s.electGstate.isInit ∧ s.gstate.initRewardStartTime ≠ 0 ∧
      s.gstate.initRewardStartTime ≤ env.now then
    let g ← halve env s
    let (producers, mainRewardInfo) ← incProducerRewards s.producers g.mainRewardInfo bh.producer
    let g : ElectGlobalState := { g with mainRewardInfo }
    let s := { s with producers, electGstate := g }
    if g.isBbpEnabled ∧ 0 < g.backupRewardInfo.rewardsPerBlock.amount then
      let bbe := bh.backupExtension
      match bbe.previousBackup with
      | some previous =>
        if !bbe.isBackup ∧ g.minBackupRewardContribution ≤ previous.contribution then
          let (producers, backupRewardInfo) ←
            incProducerRewards s.producers g.backupRewardInfo previous.producer
          return { s with producers, electGstate := { g with backupRewardInfo } }
        else return s
      | none => return s
    else return s
  else return s

/-- The part of `onblock` that runs once every minute. -/
def updateSchedule (env : Env) (s : System) (bh : BlockHeader) : Result System := do
  if s.gstate.lastProducerScheduleUpdate + blocksPerMinute < bh.timestamp then
    let s ← (if s.electGstate.isBbpEnabled then updateElectedProducerChanges env s
      else .ok (updateElectedProducers env s))
    return { s with gstate := { s.gstate with lastProducerScheduleUpdate := bh.timestamp } }
  else return s

/-- `onblock`. -/
def onblock (env : Env) (s : System) (bh : BlockHeader) : Outcome := do
  requireAuth env self
  if s.gstate.threshActivatedStakeTime = 0 ∧ !s.electGstate.isInit then
    return (s, [])
  else
    let s ← produceRewards env s bh
    let s ← updateSchedule env s bh
    return (s, [])

-- ---------------------------------------------------------------------------
-- Configuration
-- ---------------------------------------------------------------------------

/-- `cfgreward`. -/
def cfgreward (env : Env) (s : System) (initRewardStartTime initRewardEndTime : TimePoint)
    (mainRewardsPerBlock backupRewardsPerBlock : Asset) : Outcome := do
  requireAuth env self
  check .action (initRewardStartTime ≤ initRewardEndTime)
    "init_reward_end_time can not be less than init_reward_start_time"
  let coreSymb ← s.coreSymbol
  check .action (mainRewardsPerBlock.symbol = coreSymb ∧ backupRewardsPerBlock.symbol = coreSymb)
    "rewards symbol mismatch with core symbol"
  check .action (0 ≤ mainRewardsPerBlock.amount ∧ 0 ≤ backupRewardsPerBlock.amount)
    "rewards can not be negative"
  check .action (s.gstate.initRewardEndTime ≠ 0 → env.now < s.gstate.initRewardEndTime)
    "initializing reward phase has already ended"
  check .action (s.gstate.initRewardStartTime ≠ 0 ∧ s.gstate.initRewardStartTime ≤ env.now →
      initRewardStartTime = s.gstate.initRewardStartTime)
    "can not change init_reward_start_time when initializing reward phase has already started"
  let mainMax := halvingRewardsPerBlock totalMainProducerRewards
  let backupMax := halvingRewardsPerBlock totalBackupProducerRewards
  check .action (mainRewardsPerBlock.amount ≤ mainMax)
    ("main_rewards_per_block is larger than " ++ Asset.toString ⟨mainMax, coreSymb⟩)
  check .action (backupRewardsPerBlock.amount ≤ backupMax)
    ("backup_rewards_per_block is larger than " ++ Asset.toString ⟨backupMax, coreSymb⟩)
  let mainRewardInfo ← updateRewardInfo s.electGstate.mainRewardInfo
    (← Asset.make totalMainProducerRewards coreSymb) mainRewardsPerBlock
  let backupRewardInfo ← updateRewardInfo s.electGstate.backupRewardInfo
    (← Asset.make totalBackupProducerRewards coreSymb) backupRewardsPerBlock
  return ({ s with
    gstate := { s.gstate with initRewardStartTime, initRewardEndTime }
    electGstate := { s.electGstate with mainRewardInfo, backupRewardInfo } }, [])

/-- `cfgbbpreward`. -/
def cfgbbpreward (env : Env) (s : System) (backupRewardsPerBlock : Asset) : Outcome := do
  requireAdmin env
  let coreSymb ← s.coreSymbol
  check .action (backupRewardsPerBlock.symbol = coreSymb) "rewards symbol mismatch with core symbol"
  check .action (0 ≤ backupRewardsPerBlock.amount) "rewards can not be negative"
  let info := s.electGstate.backupRewardInfo
  let producedRewards ← info.startedRewards coreSymb
  let remainingRewards ← info.totalRewards.sub producedRewards
  check .action (0 < remainingRewards.amount) "insufficent remaining rewards"
  check .action (← backupRewardsPerBlock.lt remainingRewards)
    "backup_rewards_per_block must be lower than remaining rewards"
  let backupRewardInfo := { info with rewardsPerBlock := backupRewardsPerBlock, producedRewards }
  return ({ s with electGstate := { s.electGstate with backupRewardInfo } }, [])

/-- `cfgcontrib`. -/
def cfgcontrib (env : Env) (s : System) (minBackupRewardContribution : ℕ) : Outcome := do
  requireAuth env self
  check .action (minBackupRewardContribution ≤ 10000)
    "min_backup_reward_contribution out of range"
  return ({ s with electGstate := { s.electGstate with minBackupRewardContribution } }, [])

-- ---------------------------------------------------------------------------
-- Claims
-- ---------------------------------------------------------------------------

/-- `multiply_decimal64`: `a * b / precision`, rounded off. -/
def multiplyDecimal64 (a b precision : ℤ) : Result ℤ := do
  let tmp := (10 * a * b).tdiv precision
  check .share (-2 ^ 63 ≤ tmp ∧ tmp ≤ int64Max) "overflow exception of multiply_decimal"
  return (tmp + 5).tdiv 10

/-- The seconds from `since` to `now`, in a `uint32_t`. -/
def elapsedSeconds (now since : TimePoint) : ℕ :=
  (now.secSinceEpoch + 2 ^ 32 - since.secSinceEpoch % 2 ^ 32) % 2 ^ 32

/-- What `claimrewards` sends to share a claim with the voters. -/
def sendShared (env : Env) (prod : ProducerInfo) (sharedAmount : ℤ) : Result (List Inline) :=
  if 0 < sharedAmount then do
    let sharedQuant ← Asset.make sharedAmount prod.unclaimedRewards.symbol
    return (if env.rewardRegistered prod.owner then [] else [.rewardRegproducer prod.owner]) ++
      [.transfer prod.owner rewardAccount sharedQuant "reward"]
  else .ok []

/-- `claimrewards`. -/
def claimrewards (env : Env) (s : System) (submitter owner : Name) : Outcome := do
  requireAuth env submitter
  match s.producers.find? owner with
  | none => .error ⟨.action, "unable to find key"⟩
  | some prod =>
    check .action prod.isActive "producer does not have an active key"
    match prod.ext with
    | none => .error ⟨.action, "producer not set yet thru regproducer"⟩
    | some ext =>
      check .action s.electGstate.isInit "election is not initialized"
      check .action (0 < prod.unclaimedRewards.amount) "There are no more rewards to claim"
      let elapsed := elapsedSeconds env.now prod.lastClaimedTime
      check .action (secondsPerDay - 1800 ≤ elapsed)
        ("Claim after " ++ toString (secondsPerDay - elapsed) ++ " sec")
      check .action (ext.rewardSharedRatio ≤ ratioBoost)
        "prod.ext->reward_shared_ratio <= ratio_boost"
      let sharedAmount ←
        multiplyDecimal64 prod.unclaimedRewards.amount ext.rewardSharedRatio ratioBoost
      check .share (0 ≤ sharedAmount ∧ sharedAmount ≤ prod.unclaimedRewards.amount)
        "shared_amount >= 0 && prod.unclaimed_rewards.amount >= shared_amount"
      let shared ← sendShared env prod sharedAmount
      let prod' := { prod with
        unclaimedRewards := { prod.unclaimedRewards with amount := 0 }
        lastClaimedTime := env.now }
      return ({ s with producers := s.producers.set prod' },
        [.issue self prod.unclaimedRewards "issue block rewards for producer",
          .transfer self prod.owner prod.unclaimedRewards "producer block rewards"] ++ shared)

/-- `undoreward`. -/
def undoreward (env : Env) (s : System) (owner : Name) (rewards : Asset) : Outcome := do
  requireAuth env owner
  match s.producers.find? owner with
  | none => .error ⟨.action, "unable to find key"⟩
  | some prod =>
    check .action prod.isActive "producer does not have an active key"
    check .action s.electGstate.isInit "election hasnot been initialized"
    check .action (prod.ext.isSome) "producer is not updated by regproducer"
    check .action (0 < rewards.amount) "rewards must be positive"
    check .action (← rewards.le prod.unclaimedRewards) "insufficient unclaimed rewards"
    let unclaimedRewards ← prod.unclaimedRewards.sub rewards
    let prod := { prod with unclaimedRewards, lastClaimedTime := env.now }
    return ({ s with producers := s.producers.set prod }, [])

end Amax
