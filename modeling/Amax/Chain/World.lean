-- SUMMARY: The contracts around the core token as one chain: an action, the actions it sends to other contracts, and what these send.
import Amax.Chain.Contract
import Amax.Ram.Contract
import Amax.Token.Contract

/-! # The chain of all contracts

The system contract keeps votes, staked bandwidth and the RAM market, the reward
contract keeps the rewards of voters, and both move core tokens by actions they
send to the token contract. A transaction is an action of one of the contracts
with everything that is sent on its behalf, and happens as a whole or not at
all. -/

namespace Amax

-- ---------------------------------------------------------------------------
-- Messages
-- ---------------------------------------------------------------------------

/-- An action that is sent to the token contract or to the reward contract, and the accounts that
authorise it. -/
inductive Message where
  | token (auths : Name → Bool) (action : Token.Action)
  | reward (auths : Name → Bool) (action : Reward.Action)

/-- A transfer is authorised by its sender. The receiver authorises some transfers too, and nobody
asks it. -/
def Inline.toMessage : Inline → Message
  | .transfer sender receiver quantity memo =>
    .token (· = sender) (.transfer sender receiver quantity memo)
  | .issue receiver quantity memo => .token (· = self) (.issue receiver quantity memo)
  | .rewardRegproducer producer => .reward (· = producer) (.regproducer producer)
  | .rewardAddvote voter votes => .reward (· ∈ [self, voter]) (.addvote voter votes)
  | .rewardSubvote voter votes => .reward (· ∈ [self, voter]) (.subvote voter votes)
  | .rewardVoteproducer voter producers =>
    .reward (· ∈ [self, voter]) (.voteproducer voter producers)

/-- A deferred refund is a transaction of its own, which the chain starts later. -/
def Bandwidth.Sent.toMessages : Bandwidth.Sent → List Message
  | .inline i => [i.toMessage]
  | .deferRefund _ | .cancelDeferred _ => []

def Ram.Sent.toMessage : Ram.Sent → Message
  | .transfer sender receiver quantity memo =>
    .token (· = sender) (.transfer sender receiver quantity memo)
  | .openBalance owner symbol ramPayer => .token (· = ramPayer) (.open_ owner symbol ramPayer)

/-- `TRANSFER_OUT`. -/
def Reward.Flow.toMessages (coreSymbol : Symbol) : Reward.Flow → List Message
  | .received _ => []
  | .paid voter quantity => [.token (· = rewardAccount)
      (.transfer rewardAccount voter ⟨quantity, coreSymbol⟩ "voted rewards")]

-- ---------------------------------------------------------------------------
-- State
-- ---------------------------------------------------------------------------

/-- The state of all contracts. The table `userres` is in `bandwidth`, and the market in `ram` works
on it too. -/
structure World where
  bandwidth : Bandwidth := {}
  ram : Ram.State := {}
  reward : Reward.State := { coreSymbol := .none }
  token : Token.State := {}

namespace World

/-- What one transaction is told by the chain; `hasAuth` are the accounts that sign it. -/
structure Env extends Amax.Env where
  /-- The blacklist of `amax.degov`. -/
  degovBlacklist : Name → Bool := fun _ => false
  /-- The contract of a notified account lets the notification pass. -/
  notifiedOk : Name → Bool := fun _ => true
  /-- `max_inline_action_depth`. -/
  maxInlineActionDepth : ℕ := 4

abbrev Outcome := Result (World × List Message)

abbrev system (w : World) : System := w.bandwidth.system

/-- The RAM market with the table it shares. -/
def ramState (w : World) : Ram.State := { w.ram with totals := w.bandwidth.totals }

def Env.token (env : Env) (auths : Name → Bool) : Token.Env :=
  { hasAuth := auths, isAccount := env.isAccount, degovBlacklist := env.degovBlacklist }

def Env.reward (env : Env) (auths : Name → Bool) (firstReceiver : Name) : Reward.Env :=
  { hasAuth := auths, isAccount := env.isAccount, firstReceiver }

/-- `token::is_blacklisted`. -/
def isBlacklisted (w : World) (env : Env) (n : Name) : Bool :=
  Token.isBlacklisted (env.token env.hasAuth) w.token n Token.amaxToken

def systemEnv (w : World) (env : Env) : Amax.Env :=
  { env.toEnv with rewardRegistered := fun n => (w.reward.producer n).isRegistered }

def bandwidthEnv (w : World) (env : Env) : Bandwidth.Env :=
  { toEnv := w.systemEnv env, isBlacklisted := w.isBlacklisted env }

def ramEnv (w : World) (env : Env) : Ram.Env :=
  { toEnv := w.systemEnv env
    isBlacklisted := w.isBlacklisted env
    supply := fun code => (w.token.stats.find? code).map (·.supply) }

-- ---------------------------------------------------------------------------
-- Delivery
-- ---------------------------------------------------------------------------

/-- The reward contract is notified of a transfer it is a party to. -/
def notify (env : Env) (auths : Name → Bool) (r : Reward.State) : Token.Action → Result Reward.State
  | .transfer sender receiver quantity _ =>
    if sender = rewardAccount ∨ receiver = rewardAccount then do
      let env := env.reward auths Reward.coreToken
      let (r, _) ← Reward.transact ⟨env, .ontransfer sender receiver quantity⟩ r
      return r
    else .ok r
  | _ => .ok r

/-- Perform a message: the state after it, and what it sends in turn. -/
def deliver (env : Env) (w : World) : Message → Outcome
  | .token auths action => do
    let (token, notified) ← Token.transact ⟨env.token auths, action⟩ w.token
    check .sent (notified.all env.notifiedOk) "a notified contract failed"
    let reward ← notify env auths w.reward action
    return ({ w with token, reward }, [])
  | .reward auths action => do
    let (reward, flows) ← Reward.transact ⟨env.reward auths rewardAccount, action⟩ w.reward
    return ({ w with reward }, flows.flatMap (·.toMessages w.reward.coreSymbol))

/-- Perform a message and all that it sends, down to a depth. -/
def deliverFrom (env : Env) : ℕ → World → Message → Result World
  | 0, _, _ => .error ⟨.sent, "max inline action depth per transaction reached"⟩
  | depth + 1, w, m => do
    let (w, sent) ← deliver env w m
    sent.foldlM (deliverFrom env depth) w

-- ---------------------------------------------------------------------------
-- Transactions
-- ---------------------------------------------------------------------------

/-- The action that a transaction starts with. -/
inductive Call where
  | system (action : Action)
  | refund (owner : Name)
  | ram (action : Ram.Action)
  | reward (action : Reward.Action)
  | token (action : Token.Action)

/-- An action of the system contract, on its tables of bandwidth too. -/
def performSystem (env : Env) (w : World) : Action → Bandwidth.Outcome
  | .delegatebw sender receiver net cpu transfer =>
    Bandwidth.delegatebw (w.bandwidthEnv env) w.bandwidth sender receiver net cpu transfer
  | .undelegatebw sender receiver net cpu =>
    Bandwidth.undelegatebw (w.bandwidthEnv env) w.bandwidth sender receiver net cpu
  | a => Bandwidth.onSystem w.bandwidth (Amax.perform (w.systemEnv env) w.system a)

/-- Perform the action of a transaction, without what it sends. -/
def perform (d : Ram.Doubles) (env : Env) (w : World) : Call → Outcome
  | .system action => do
    let (bandwidth, sent) ← performSystem env w action
    return ({ w with bandwidth }, sent.flatMap (·.toMessages))
  | .refund owner => do
    let (bandwidth, sent) ← Bandwidth.refund (w.bandwidthEnv env) w.bandwidth owner
    return ({ w with bandwidth }, sent.flatMap (·.toMessages))
  | .ram action => do
    let (ram, sent) ← Ram.transact d ⟨w.ramEnv env, action⟩ w.ramState
    return ({ w with ram, bandwidth := { w.bandwidth with totals := ram.totals } },
      sent.map (·.toMessage))
  | .reward action => deliver env w (.reward env.hasAuth action)
  | .token action => deliver env w (.token env.hasAuth action)

structure Transaction where
  env : Env
  call : Call

/-- Perform a transaction with all that it sends. -/
def transact (d : Ram.Doubles) (tx : Transaction) (w : World) : Outcome := do
  let (w, sent) ← perform d tx.env w tx.call
  let w ← sent.foldlM (deliverFrom tx.env tx.env.maxInlineActionDepth) w
  return (w, sent)

/-- The messages that are delivered with `m`: `m`, and all that is sent in turn. -/
def deliveredFrom (env : Env) : ℕ → World → Message → List Message
  | 0, _, _ => []
  | depth + 1, w, m => m :: match deliver env w m with
    | .ok (w, sent) => Fold.gathered (deliverFrom env depth) (deliveredFrom env depth) w sent
    | .error _ => []

/-- The call as a message, when the token contract or the reward contract performs it. -/
def Call.toMessages (auths : Name → Bool) : Call → List Message
  | .reward action => [.reward auths action]
  | .token action => [.token auths action]
  | _ => []

/-- All that the token contract and the reward contract perform in a transaction: its own action
when it is one of theirs, and what is sent on its behalf, at any depth. -/
def Transaction.delivered (d : Ram.Doubles) (tx : Transaction) (w : World) : List Message :=
  tx.call.toMessages tx.env.hasAuth ++ match perform d tx.env w tx.call with
    | .ok (w, sent) =>
      let depth := tx.env.maxInlineActionDepth
      Fold.gathered (deliverFrom tx.env depth) (deliveredFrom tx.env depth) w sent
    | .error _ => []

abbrev final (d : Ram.Doubles) (w : World) (txs : List Transaction) : World :=
  Run.final (transact d) w txs

/-- `init` of the system contract, which sets the core symbol for all contracts. -/
def init (env : Env) (w : World) (version : ℕ) (core : Symbol) : Result World := do
  let (ram, sent) ← Ram.init (w.ramEnv env) w.ramState version core
  let system := { w.system with gstate := { w.system.gstate with coreSymbol := core } }
  let w := { w with
    ram, bandwidth := { w.bandwidth with system }, reward := { w.reward with coreSymbol := core } }
  sent.foldlM (fun w m => deliverFrom env env.maxInlineActionDepth w m.toMessage) w

-- ---------------------------------------------------------------------------
-- Successful transactions
-- ---------------------------------------------------------------------------

section Success

variable {d : Ram.Doubles} {env : Env} {w w' : World} {sent : List Message}

/-- The token contract sends nothing on; the reward contract is told. -/
theorem deliver_token_ok {auths : Name → Bool} {a : Token.Action}
    (h : deliver env w (.token auths a) = .ok (w', sent)) :
    ∃ token notified reward, Token.transact ⟨env.token auths, a⟩ w.token = .ok (token, notified) ∧
      notify env auths w.reward a = .ok reward ∧ w' = { w with token, reward } ∧ sent = [] := by
  simp only [deliver, Except.bind_ok_iff, Except.pure_ok_iff, Prod.exists, Prod.mk.injEq] at h
  obtain ⟨token, notified, htoken, -, -, reward, hnotify, rfl, rfl⟩ := h
  exact ⟨token, notified, reward, htoken, hnotify, rfl, rfl⟩

/-- The reward contract sends what it pays. -/
theorem deliver_reward_ok {auths : Name → Bool} {a : Reward.Action}
    (h : deliver env w (.reward auths a) = .ok (w', sent)) :
    ∃ reward flows,
      Reward.transact ⟨env.reward auths rewardAccount, a⟩ w.reward = .ok (reward, flows) ∧
      w' = { w with reward } ∧ sent = flows.flatMap (·.toMessages w.reward.coreSymbol) := by
  simp only [deliver, Except.bind_ok_iff, Except.pure_ok_iff, Prod.exists, Prod.mk.injEq] at h
  obtain ⟨reward, flows, hreward, rfl, rfl⟩ := h
  exact ⟨reward, flows, hreward, rfl, rfl⟩

theorem perform_system_ok {a : Action} (h : perform d env w (.system a) = .ok (w', sent)) :
    ∃ b out, performSystem env w a = .ok (b, out) ∧ w' = { w with bandwidth := b } ∧
      sent = out.flatMap (·.toMessages) := by
  simp only [perform, Except.bind_ok_iff, Except.pure_ok_iff, Prod.exists, Prod.mk.injEq] at h
  obtain ⟨b, out, hok, rfl, rfl⟩ := h
  exact ⟨b, out, hok, rfl, rfl⟩

theorem perform_refund_ok {owner : Name} (h : perform d env w (.refund owner) = .ok (w', sent)) :
    ∃ b out, Bandwidth.refund (w.bandwidthEnv env) w.bandwidth owner = .ok (b, out) ∧
      w' = { w with bandwidth := b } ∧ sent = out.flatMap (·.toMessages) := by
  simp only [perform, Except.bind_ok_iff, Except.pure_ok_iff, Prod.exists, Prod.mk.injEq] at h
  obtain ⟨b, out, hok, rfl, rfl⟩ := h
  exact ⟨b, out, hok, rfl, rfl⟩

theorem perform_ram_ok {a : Ram.Action} (h : perform d env w (.ram a) = .ok (w', sent)) :
    ∃ ram out, Ram.perform d (w.ramEnv env) w.ramState a = .ok (ram, out) ∧
      w' = { w with ram, bandwidth := { w.bandwidth with totals := ram.totals } } ∧
      sent = out.map (·.toMessage) := by
  simp only [perform, Ram.transact, Except.bind_ok_iff, check_ok_iff, exists_const,
    Except.pure_ok_iff, Prod.exists, Prod.mk.injEq] at h
  obtain ⟨_, _, ⟨ram, out, hok, -, rfl, rfl⟩, rfl, rfl⟩ := h
  exact ⟨ram, out, hok, rfl, rfl⟩

theorem transact_ok {tx : Transaction} (h : transact d tx w = .ok (w', sent)) :
    ∃ w₁, perform d tx.env w tx.call = .ok (w₁, sent) ∧
      sent.foldlM (deliverFrom tx.env tx.env.maxInlineActionDepth) w₁ = .ok w' := by
  simp only [transact, Except.bind_ok_iff, Except.pure_ok_iff, Prod.exists, Prod.mk.injEq] at h
  obtain ⟨w₁, out, hperform, w₂, hsent, rfl, rfl⟩ := h
  exact ⟨w₁, hperform, hsent⟩

/-- What every delivery keeps, messages with all that they send keep. -/
theorem deliverFrom_preserves {P : World → Prop}
    (hdeliver : ∀ w m w' sent, P w → deliver env w m = .ok (w', sent) → P w') (depth : ℕ)
    (h : P w) (hok : sent.foldlM (deliverFrom env depth) w = .ok w') : P w' := by
  have hfrom : ∀ w₁ w₂ m, P w₁ → deliverFrom env depth w₁ m = .ok w₂ → P w₂ := by
    clear hok h
    induction depth with
    | zero => exact fun _ _ _ _ hok => by cases hok
    | succ depth ih =>
      intro w₁ w₂ m h hok
      simp only [deliverFrom, Except.bind_ok_iff, Prod.exists] at hok
      obtain ⟨w₃, out, hfirst, hsent⟩ := hok
      have hout := hdeliver _ _ _ _ h hfirst
      exact Ensures.foldlM (fun _ m h _ hok => ih _ _ m h hok) hout out _ hsent
  exact Ensures.foldlM (fun _ m h _ hok => hfrom _ _ m h hok) h sent _ hok

end Success

end World

end Amax
