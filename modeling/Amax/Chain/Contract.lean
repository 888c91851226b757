-- SUMMARY: The system contract and the reward contract as one chain: what the first sends is done by the second.
import Amax.Reward.Actions
import Amax.System.Effect

/-! # The chain of the two contracts

The system contract sends actions to the reward contract, and the token
contract tells the reward contract of transfers it is a party to. All of them
belong to the transaction that sent them, which happens as a whole or not at
all. -/

namespace Amax

-- ---------------------------------------------------------------------------
-- Delivery
-- ---------------------------------------------------------------------------

namespace Inline

/-- The action of the reward contract that an action leads to, and the accounts
that authorise it. -/
def toReward : Inline → Option (List Name × Reward.Action)
  | .transfer sender receiver quantity _ =>
    if sender = rewardAccount ∨ receiver = rewardAccount then
      some ([sender], .ontransfer sender receiver quantity)
    else none
  | .issue _ _ _ => none
  | .rewardRegproducer producer => some ([producer], .regproducer producer)
  | .rewardAddvote voter votes => some ([self, voter], .addvote voter votes)
  | .rewardSubvote voter votes => some ([self, voter], .subvote voter votes)
  | .rewardVoteproducer voter producers => some ([self, voter], .voteproducer voter producers)

end Inline

/-- An action that was sent, as the reward contract sees it. -/
def deliver (env : Reward.Env) (r : Reward.State) (i : Inline) : Reward.Outcome :=
  match i.toReward with
  | none => .ok (r, [])
  | some (auths, action) =>
    let env := { env with hasAuth := fun n => n ∈ auths, firstReceiver := Reward.coreToken }
    Reward.transact ⟨env, action⟩ r

/-- The actions of one transaction are done in the order they were sent. -/
def deliverAll (env : Reward.Env) (r : Reward.State) : List Inline → Reward.Outcome
  | [] => .ok (r, [])
  | i :: is => do
    let (r₁, flows) ← deliver env r i
    let (r₂, rest) ← deliverAll env r₁ is
    return (r₂, flows ++ rest)

-- ---------------------------------------------------------------------------
-- Transactions
-- ---------------------------------------------------------------------------

/-- The state of both contracts. -/
structure Chain where
  system : System
  reward : Reward.State

/-- An action of the system contract and what the chain tells the two contracts. -/
structure ChainTransaction where
  env : Env
  rewardEnv : Reward.Env
  action : Action

namespace Chain

/-- The system contract reads in the tables of the reward contract who is
registered there. -/
def systemEnv (c : Chain) (env : Env) : Env :=
  { env with rewardRegistered := fun n => (c.reward.producer n).isRegistered }

/-- Perform a transaction in both contracts. -/
def transact (tx : ChainTransaction) (c : Chain) : Result (Chain × List Reward.Flow) := do
  let (system, sent) ← Amax.transact ⟨c.systemEnv tx.env, tx.action⟩ c.system
  let (reward, flows) ← deliverAll tx.rewardEnv c.reward sent
  return (⟨system, reward⟩, flows)

theorem transact_ok_iff {tx : ChainTransaction} {c c' : Chain} {flows : List Reward.Flow} :
    transact tx c = .ok (c', flows) ↔
      ∃ sent, Amax.transact ⟨c.systemEnv tx.env, tx.action⟩ c.system = .ok (c'.system, sent) ∧
        deliverAll tx.rewardEnv c.reward sent = .ok (c'.reward, flows) := by
  simp only [transact, Except.bind_ok_iff, Except.pure_ok_iff, Prod.exists, Prod.mk.injEq]
  constructor
  · rintro ⟨s, sent, hs, r, fl, hr, rfl, rfl⟩
    exact ⟨sent, hs, hr⟩
  · rintro ⟨sent, hs, hr⟩
    exact ⟨c'.system, sent, hs, c'.reward, flows, hr, rfl, rfl⟩

abbrev final (c : Chain) (txs : List ChainTransaction) : Chain := Run.final transact c txs

end Chain

-- ---------------------------------------------------------------------------
-- What delivery keeps
-- ---------------------------------------------------------------------------

section Delivery

variable {env : Reward.Env} {r r' : Reward.State} {flows out : List Reward.Flow}

/-- Every delivered action keeps the books of the reward contract. -/
theorem deliver_books {i : Inline} (h : Reward.Books r out)
    (hok : deliver env r i = .ok (r', flows)) : Reward.Books r' (out ++ flows) := by
  unfold deliver at hok
  cases hi : i.toReward with
  | none =>
    simp only [hi, Except.ok.injEq, Prod.mk.injEq] at hok
    obtain ⟨rfl, rfl⟩ := hok
    rwa [List.append_nil]
  | some call =>
    simp only [hi] at hok
    exact Reward.transact_books h hok

theorem deliverAll_books {sent : List Inline} (h : Reward.Books r out)
    (hok : deliverAll env r sent = .ok (r', flows)) : Reward.Books r' (out ++ flows) := by
  induction sent generalizing r out flows with
  | nil =>
    simp only [deliverAll, Except.ok.injEq, Prod.mk.injEq] at hok
    obtain ⟨rfl, rfl⟩ := hok
    rwa [List.append_nil]
  | cons i is ih =>
    simp only [deliverAll, Except.bind_ok_iff, Except.pure_ok_iff, Prod.exists,
      Prod.mk.injEq] at hok
    obtain ⟨r₁, fl, h₁, r₂, rest, h₂, rfl, rfl⟩ := hok
    rw [← List.append_assoc]
    exact ih (deliver_books h h₁) h₂

/-- What is not sent by a vote moves no votes in the reward contract. -/
theorem deliver_keepsVotes {i : Inline} (hi : i.isVote = false)
    (hok : deliver env r i = .ok (r', flows)) : Reward.KeepsVotes r r' := by
  have hkeep : Reward.KeepsVotes r r := ⟨fun _ => rfl, rfl⟩
  cases i with
  | transfer sender receiver quantity memo =>
    by_cases hparty : sender = rewardAccount ∨ receiver = rewardAccount
    · simp only [deliver, Inline.toReward, if_pos hparty, Reward.transact, Except.bind_ok_iff,
        check_ok_iff, exists_const] at hok
      exact Reward.ontransfer_keepsVotes hok.2
    · simp only [deliver, Inline.toReward, if_neg hparty, Except.ok.injEq, Prod.mk.injEq] at hok
      exact hok.1 ▸ hkeep
  | issue receiver quantity memo =>
    simp only [deliver, Inline.toReward, Except.ok.injEq, Prod.mk.injEq] at hok
    exact hok.1 ▸ hkeep
  | rewardRegproducer producer =>
    simp only [deliver, Inline.toReward, Reward.transact, Except.bind_ok_iff, check_ok_iff,
      exists_const] at hok
    exact Reward.regproducer_keepsVotes hok.2
  | rewardAddvote voter votes => cases hi
  | rewardSubvote voter votes => cases hi
  | rewardVoteproducer voter producers => cases hi

theorem deliverAll_keepsVotes {sent : List Inline} (hs : ∀ i ∈ sent, i.isVote = false)
    (hok : deliverAll env r sent = .ok (r', flows)) : Reward.KeepsVotes r r' := by
  induction sent generalizing r flows with
  | nil =>
    simp only [deliverAll, Except.ok.injEq, Prod.mk.injEq] at hok
    obtain ⟨rfl, -⟩ := hok
    exact ⟨fun _ => rfl, rfl⟩
  | cons i is ih =>
    simp only [deliverAll, Except.bind_ok_iff, Except.pure_ok_iff, Prod.exists,
      Prod.mk.injEq] at hok
    obtain ⟨r₁, fl, h₁, r₂, rest, h₂, rfl, -⟩ := hok
    have hfirst := deliver_keepsVotes (hs i List.mem_cons_self) h₁
    have hrest := ih (fun j hj => hs j (List.mem_cons_of_mem _ hj)) h₂
    exact ⟨fun n => (hrest.votes n).trans (hfirst.votes n), hrest.voters.trans hfirst.voters⟩

/-- An action sent alone. -/
theorem deliverAll_singleton {i : Inline} (hok : deliverAll env r [i] = .ok (r', flows)) :
    ∃ fl, deliver env r i = .ok (r', fl) := by
  simp only [deliverAll, Except.bind_ok_iff, Except.pure_ok_iff, Prod.exists, Prod.mk.injEq,
    Except.ok.injEq] at hok
  obtain ⟨r₁, fl, h₁, _, _, ⟨rfl, -⟩, rfl, -⟩ := hok
  exact ⟨fl, h₁⟩

end Delivery

end Amax
