-- SUMMARY: The actions of the system contract and what one transaction does.
import Amax.System.ProducerPay

/-! # The system contract

An action of the contract together with the environment it runs in is one
transaction. The actions it sends to other contracts belong to it: when one of
them fails, nothing happens at all. -/

namespace Amax

inductive Action where
  | regproducer (producer : Name) (producerKey : PublicKey) (url : String)
      (rewardSharedRatio : Option ℕ)
  | regproducer2 (producer : Name) (producerAuthority : BlockSigningAuthority) (url : String)
      (rewardSharedRatio : Option ℕ)
  | setvoteshare (producer : Name) (rewardSharedRatio : ℕ)
  | unregprod (producer : Name)
  | rmvproducer (producer : Name)
  | upgradevote
  | setmprodvote (minProducerVotes : Asset)
  | initbbpelect (maxBackupProducerCount : ℕ)
  | voteproducer (voter proxy : Name) (producers : List Name)
  | delegatebw (sender receiver : Name) (stakeNetQuantity stakeCpuQuantity : Asset)
      (transfer : Bool)
  | undelegatebw (sender receiver : Name) (unstakeNetQuantity unstakeCpuQuantity : Asset)
  | setacctram (account : Name) (ramBytes : Option ℤ)
  | setacctnet (account : Name) (netWeight : Option ℤ)
  | setacctcpu (account : Name) (cpuWeight : Option ℤ)
  | addvote (voter : Name) (votes : Asset)
  | subvote (voter : Name) (votes : Asset)
  | vote (voter : Name) (producers : List Name)
  | refundvote (owner : Name)
  | onblock (header : BlockHeader)
  | cfgreward (initRewardStartTime initRewardEndTime : TimePoint)
      (mainRewardsPerBlock backupRewardsPerBlock : Asset)
  | cfgbbpreward (backupRewardsPerBlock : Asset)
  | cfgcontrib (minBackupRewardContribution : ℕ)
  | claimrewards (submitter owner : Name)
  | undoreward (owner : Name) (rewards : Asset)
  deriving DecidableEq

/-- Perform an action, without the actions it sends. -/
def perform (env : Env) (s : System) : Action → Outcome
  | .regproducer p key url ratio => regproducer env s p key url ratio
  | .regproducer2 p authority url ratio => regproducer2 env s p authority url ratio
  | .setvoteshare p ratio => setvoteshare env s p ratio
  | .unregprod p => unregprod env s p
  | .rmvproducer p => rmvproducer env s p
  | .upgradevote => upgradevote env s
  | .setmprodvote votes => setmprodvote env s votes
  | .initbbpelect count => initbbpelect env s count
  | .voteproducer voter proxy producers => voteproducer env s voter proxy producers
  | .delegatebw sender receiver net cpu transfer => delegatebw env s sender receiver net cpu transfer
  | .undelegatebw sender receiver net cpu => undelegatebw env s sender receiver net cpu
  | .setacctram account limit => setacctram env s account limit
  | .setacctnet account limit => setacctnet env s account limit
  | .setacctcpu account limit => setacctcpu env s account limit
  | .addvote voter votes => addvote env s voter votes
  | .subvote voter votes => subvote env s voter votes
  | .vote voter producers => vote env s voter producers
  | .refundvote owner => refundvote env s owner
  | .onblock header => onblock env s header
  | .cfgreward start stop main backup => cfgreward env s start stop main backup
  | .cfgbbpreward backup => cfgbbpreward env s backup
  | .cfgcontrib contribution => cfgcontrib env s contribution
  | .claimrewards submitter owner => claimrewards env s submitter owner
  | .undoreward owner rewards => undoreward env s owner rewards

/-- A transaction: an action and what the chain tells it. -/
structure Transaction where
  env : Env
  action : Action

/-- Perform a transaction. The actions it sends are part of it, and it is undone
when another contract does not take one of them. -/
def transact (tx : Transaction) (s : System) : Outcome := do
  let (s', sent) ← perform tx.env s tx.action
  check .sent (∀ i ∈ sent, tx.env.inlineOk i) "a sent action failed"
  return (s', sent)

theorem transact_ok_iff {tx : Transaction} {s s' : System} {sent : List Inline} :
    transact tx s = .ok (s', sent) ↔
      perform tx.env s tx.action = .ok (s', sent) ∧ ∀ i ∈ sent, tx.env.inlineOk i = true := by
  simp only [transact, Except.bind_ok_iff, check_ok_iff, Except.pure_ok_iff, Prod.exists,
    exists_const, Prod.mk.injEq]
  constructor
  · rintro ⟨a, b, h, hi, rfl, rfl⟩
    exact ⟨h, hi⟩
  · rintro ⟨h, hi⟩
    exact ⟨s', sent, h, hi, rfl, rfl⟩

abbrev System.final (s : System) (txs : List Transaction) : System := Run.final transact s txs
abbrev System.sent (s : System) (txs : List Transaction) : List Inline := Run.outputs transact s txs

end Amax
