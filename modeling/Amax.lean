import Amax.Base.Table
import Amax.Base.Ranking
import Amax.Base.Patch
import Amax.Base.MapPatch
import Amax.Base.Accrual
import Amax.Base.ConstantProduct
import Amax.Base.Replay
import Amax.Base.Run
import Amax.Eosio.Types
import Amax.Eosio.Holdings
import Amax.System.State
import Amax.System.ProducerChange
import Amax.System.Merge
import Amax.System.Queue
import Amax.System.Election
import Amax.System.Voting
import Amax.System.ProducerPay
import Amax.System.Contract
import Amax.Reward.Contract
import Amax.Reward.Groups
import Amax.Reward.Settlement
import Amax.Reward.Ledger
import Amax.Reward.Actions
import Amax.Reward.Solvency
import Amax.Reward.Withdrawal
import Amax.Reward.Dust
import Amax.Reward.Lockstep
import Amax.Reward.Frequency
import Amax.Reward.Fairness
import Amax.System.Frame
import Amax.System.Effect
import Amax.System.Issuance
import Amax.System.MainStream
import Amax.System.MainRewards
import Amax.System.Backing
import Amax.System.Tally
import Amax.Chain.Contract
import Amax.Chain.Agreement
import Amax.Election.Standing
import Amax.Election.Positions
import Amax.Election.Moves
import Amax.Election.Turns
import Amax.Election.Branches
import Amax.Election.Process
import Amax.Election.Reinit
import Amax.Election.Tracking
import Amax.Election.Setup
import Amax.Election.Threshold
import Amax.Election.Blocks
import Amax.Election.Queues
import Amax.Election.Steady
import Amax.Election.Restart
import Amax.Election.Recovery
import Amax.Election.Replay
import Amax.Election.Deactivation
import Amax.Election.History
import Amax.Election.Keys
import Amax.Election.Entry
import Amax.Election.Flush
import Amax.Election.Log
import Amax.Election.Signing
import Amax.Election.Renewal
import Amax.System.VoteDiff
import Amax.System.Bandwidth
import Amax.System.Staking
import Amax.Token.Contract
import Amax.Token.Supply
import Amax.Token.Movement
import Amax.Xtoken.Contract
import Amax.Xtoken.Supply
import Amax.Ram.Contract
import Amax.Ram.Supply
import Amax.Ram.Reserve
import Amax.Mining.Contract
import Amax.Mining.Payout
import Amax.Msig.Contract
import Amax.Msig.Delay
import Amax.System.Voters
import Amax.Chain.World
import Amax.Chain.Credit
import Amax.Chain.Custody
import Amax.Chain.Payout
import Amax.Chain.Consent
import Amax.Base.Lock
import Amax.Chain.Pace
import Amax.Chain.Supply
