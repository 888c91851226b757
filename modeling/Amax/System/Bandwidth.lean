-- SUMMARY: Staked bandwidth in full: what is delegated to whom, the totals of the receivers, and pending refunds.
import Amax.System.Contract
import Mathlib.Data.Prod.Lex

/-! # Staked bandwidth

The tables of `delegate_bandwidth.cpp` over the state of the system contract,
and the actions that write them. -/

namespace Amax

-- ---------------------------------------------------------------------------
-- State
-- ---------------------------------------------------------------------------

def stakeAccount : Name := 3786911985954881536

example : nameToString stakeAccount = "amax.stake" := by decide +kernel

/-- A row of `delband`; its scope is `sender`. -/
structure DelegatedBandwidth where
  sender : Name
  receiver : Name
  netWeight : Asset
  cpuWeight : Asset
  deriving DecidableEq

/-- A row of `userres`. -/
structure UserResources where
  owner : Name
  netWeight : Asset
  cpuWeight : Asset
  ramBytes : ℤ := 0
  deriving DecidableEq

/-- A row of `refunds`; `requestTime` is in seconds. -/
structure RefundRequest where
  owner : Name
  requestTime : ℕ
  netAmount : Asset
  cpuAmount : Asset
  deriving DecidableEq

abbrev Delbands := Table fun d : DelegatedBandwidth => toLex (d.sender, d.receiver)
abbrev Totals := Table UserResources.owner
abbrev Refunds := Table RefundRequest.owner

/-- The state of the system contract with its tables of staked bandwidth. -/
structure Bandwidth where
  system : System := {}
  delbands : Delbands := .empty
  totals : Totals := .empty
  refunds : Refunds := .empty

namespace Bandwidth

/-- What the actions send: actions of other contracts and deferred refunds. -/
inductive Sent where
  | inline (i : Inline)
  | deferRefund (owner : Name)
  | cancelDeferred (owner : Name)
  deriving DecidableEq

/-- What one action is told by the chain. -/
structure Env extends Amax.Env where
  /-- `token::is_blacklisted`. -/
  isBlacklisted : Name → Bool := fun _ => false

abbrev Outcome := Result (Bandwidth × List Sent)

-- ---------------------------------------------------------------------------
-- Delegated and total bandwidth
-- ---------------------------------------------------------------------------

/-- The row of `delband` with the change, which may be a new row. -/
def delbandRow (t : Delbands) (sender receiver : Name) (stakeNetDelta stakeCpuDelta : Asset) :
    Result DelegatedBandwidth :=
  match t.find? (toLex (sender, receiver)) with
  | none => do
    payRow sender
    return { sender, receiver, netWeight := stakeNetDelta, cpuWeight := stakeCpuDelta }
  | some row => do
    let netWeight ← row.netWeight.add stakeNetDelta
    let cpuWeight ← row.cpuWeight.add stakeCpuDelta
    return { row with netWeight, cpuWeight }

/-- Update the stake delegated from `sender` to `receiver`. -/
def updateDelband (t : Delbands) (sender receiver : Name) (stakeNetDelta stakeCpuDelta : Asset) :
    Result Delbands := do
  let row ← delbandRow t sender receiver stakeNetDelta stakeCpuDelta
  check .action (0 ≤ row.netWeight.amount) "insufficient staked net bandwidth"
  check .action (0 ≤ row.cpuWeight.amount) "insufficient staked cpu bandwidth"
  return if row.netWeight.amount = 0 ∧ row.cpuWeight.amount = 0 then
    t.erase (toLex (sender, receiver))
  else t.set row

/-- The row of `userres` with the change, which may be a new row. -/
def totalsRow (t : Totals) (sender receiver : Name) (stakeNetDelta stakeCpuDelta : Asset) :
    Result UserResources :=
  match t.find? receiver with
  | none => do
    payRow sender
    return { owner := receiver, netWeight := stakeNetDelta, cpuWeight := stakeCpuDelta }
  | some row => do
    let netWeight ← row.netWeight.add stakeNetDelta
    let cpuWeight ← row.cpuWeight.add stakeCpuDelta
    return { row with netWeight, cpuWeight }

/-- Update the totals of `receiver`. -/
def updateTotals (t : Totals) (sender receiver : Name) (stakeNetDelta stakeCpuDelta : Asset) :
    Result Totals := do
  let row ← totalsRow t sender receiver stakeNetDelta stakeCpuDelta
  check .action (0 ≤ row.netWeight.amount) "insufficient staked total net bandwidth"
  check .action (0 ≤ row.cpuWeight.amount) "insufficient staked total cpu bandwidth"
  return if row.netWeight.amount = 0 ∧ row.cpuWeight.amount = 0 ∧ row.ramBytes = 0 then
    t.erase receiver
  else t.set row

-- ---------------------------------------------------------------------------
-- Refunds and transfers
-- ---------------------------------------------------------------------------

/-- Take a balance from the amount of a refund: what is left of the refund, and of the balance. -/
def netAgainst (amount balance : Asset) : Result (Asset × Asset) := do
  let rest ← amount.sub balance
  if rest.amount < 0 then return ({ rest with amount := 0 }, rest.neg)
  else return (rest, { balance with amount := 0 })

/-- What a new refund owes of one resource, and what is left of its balance. -/
def newRefund (balance : Asset) (coreSym : Symbol) : Result (Asset × Asset) := do
  if balance.amount < 0 then return (balance.neg, { balance with amount := 0 })
  else return (← Asset.make 0 coreSym, balance)

/-- Create, update or delete the refund of `sender`: the table, what is left of the two balances,
and whether a refund is pending. -/
def updateRefund (now : TimePoint) (coreSym : Symbol) (t : Refunds) (sender : Name)
    (netBalance cpuBalance : Asset) : Result (Refunds × Asset × Asset × Bool) := do
  match t.find? sender with
  | some req =>
    let (netAmount, netBalance') ← netAgainst req.netAmount netBalance
    let (cpuAmount, cpuBalance') ← netAgainst req.cpuAmount cpuBalance
    let requestTime :=
      if netBalance.amount < 0 ∨ cpuBalance.amount < 0 then now.secSinceEpoch
      else req.requestTime
    check .action (0 ≤ netAmount.amount) "negative net refund amount"
    check .action (0 ≤ cpuAmount.amount) "negative cpu refund amount"
    if netAmount.amount = 0 ∧ cpuAmount.amount = 0 then
      return (t.erase sender, netBalance', cpuBalance', false)
    else
      return (t.set { req with netAmount, cpuAmount, requestTime }, netBalance', cpuBalance', true)
  | none =>
    if netBalance.amount < 0 ∨ cpuBalance.amount < 0 then do
      payRow sender
      let (netAmount, netBalance) ← newRefund netBalance coreSym
      let (cpuAmount, cpuBalance) ← newRefund cpuBalance coreSym
      let req := { owner := sender, requestTime := now.secSinceEpoch, netAmount, cpuAmount }
      return (t.set req, netBalance, cpuBalance, true)
    else
      return (t, netBalance, cpuBalance, false)

/-- The regime of refunds after elections are initialised: everything moves at once. -/
def moveAtOnce (t : Refunds) (source sender : Name) (stakeNetDelta stakeCpuDelta : Asset) :
    Result (List Sent) := do
  check .action ((t.find? sender).isNone) "There is already an old staked refund being processed"
  let quant ← stakeNetDelta.add stakeCpuDelta
  if 0 < quant.amount then
    return [.inline (.transfer source stakeAccount quant "stake bandwidth")]
  else if quant.amount < 0 then
    return [.inline (.transfer stakeAccount source quant.neg "unstake bandwidth")]
  else
    return []

/-- The regime of refunds before: an unstake waits as a refund, which a stake to oneself uses up. -/
def moveByRefund (now : TimePoint) (coreSym : Symbol) (t : Refunds) (source sender receiver : Name)
    (stakeNetDelta stakeCpuDelta : Asset) (transfer : Bool) : Result (Refunds × List Sent) := do
  let isUndelegating := stakeNetDelta.amount + stakeCpuDelta.amount < 0
  let isDelegatingToSelf := !transfer ∧ sender = receiver
  let (t, netBalance, cpuBalance, needDeferredTrx) ←
    (if isDelegatingToSelf ∨ isUndelegating then
      updateRefund now coreSym t sender stakeNetDelta stakeCpuDelta
    else .ok (t, stakeNetDelta, stakeCpuDelta, false))
  let deferred := if needDeferredTrx then [.cancelDeferred sender, .deferRefund sender]
    else [.cancelDeferred sender]
  let transferAmount ← netBalance.add cpuBalance
  if 0 < transferAmount.amount then
    return (t, deferred ++ [.inline (.transfer source stakeAccount transferAmount "stake bandwidth")])
  else
    return (t, deferred)

/-- Move the tokens of a stake, except those of `amax.stake` itself. -/
def moveStake (env : Env) (b : Bandwidth) (source sender receiver : Name)
    (stakeNetDelta stakeCpuDelta : Asset) (transfer : Bool) : Result (Refunds × List Sent) :=
  if stakeAccount ≠ source then
    if b.system.electGstate.isInit then do
      let sent ← moveAtOnce b.refunds source sender stakeNetDelta stakeCpuDelta
      return (b.refunds, sent)
    else do
      let coreSym ← b.system.coreSymbol
      moveByRefund env.now coreSym b.refunds source sender receiver stakeNetDelta stakeCpuDelta
        transfer
  else .ok (b.refunds, [])

-- ---------------------------------------------------------------------------
-- Actions
-- ---------------------------------------------------------------------------

/-- `changebw`. -/
def changebw (env : Env) (b : Bandwidth) (sender receiver : Name)
    (stakeNetDelta stakeCpuDelta : Asset) (transfer : Bool) : Outcome := do
  check .action (env.hasAuth sender ∨ env.hasAuth armoniaadmin) "non authorized"
  check .action (stakeNetDelta.amount ≠ 0 ∨ stakeCpuDelta.amount ≠ 0)
    "should stake non-zero amount"
  let total ← stakeNetDelta.add stakeCpuDelta
  check .action (max |stakeNetDelta.amount| |stakeCpuDelta.amount| ≤ |total.amount|)
    "net and cpu deltas cannot be opposite signs"
  let source := sender
  let sender := if transfer then receiver else sender
  let delbands ← updateDelband b.delbands sender receiver stakeNetDelta stakeCpuDelta
  let totals ← updateTotals b.totals sender receiver stakeNetDelta stakeCpuDelta
  -- the resource limits of the receiver
  check .action env.bandwidthOk "insufficient staked bandwidth"
  let (refunds, sent) ← moveStake env b source sender receiver stakeNetDelta stakeCpuDelta transfer
  let system ← updateVotingPower env.toEnv b.system sender total.amount
  return ({ system, delbands, totals, refunds }, sent)

/-- `delegatebw`. -/
def delegatebw (env : Env) (b : Bandwidth) (sender receiver : Name)
    (stakeNetQuantity stakeCpuQuantity : Asset) (transfer : Bool) : Outcome := do
  check .action (!env.isBlacklisted sender) "blacklisted"
  let zeroAsset ← Asset.make 0 (← b.system.coreSymbol)
  check .action (← zeroAsset.le stakeCpuQuantity) "must stake a positive amount"
  check .action (← zeroAsset.le stakeNetQuantity) "must stake a positive amount"
  check .action (0 < stakeNetQuantity.amount + stakeCpuQuantity.amount)
    "must stake a positive amount"
  check .action (!transfer ∨ sender ≠ receiver) "cannot use transfer flag if delegating to self"
  changebw env b sender receiver stakeNetQuantity stakeCpuQuantity transfer

/-- `undelegatebw`. -/
def undelegatebw (env : Env) (b : Bandwidth) (sender receiver : Name)
    (unstakeNetQuantity unstakeCpuQuantity : Asset) : Outcome := do
  check .action (env.hasAuth self ∨ env.hasAuth armoniaadmin) "non authorized"
  let zeroAsset ← Asset.make 0 (← b.system.coreSymbol)
  check .action (← zeroAsset.le unstakeCpuQuantity) "must unstake a positive amount"
  check .action (← zeroAsset.le unstakeNetQuantity) "must unstake a positive amount"
  check .action (0 < unstakeCpuQuantity.amount + unstakeNetQuantity.amount)
    "must unstake a positive amount"
  check .action (b.system.gstate.threshActivatedStakeTime ≠ 0 ∨ b.system.electGstate.isInit)
    ("cannot undelegate bandwidth until the chain is activated (at least 5% of all tokens " ++
      "participate in voting or electing is initialized)")
  changebw env b sender receiver unstakeNetQuantity.neg unstakeCpuQuantity.neg false

/-- `refund`. -/
def refund (env : Env) (b : Bandwidth) (owner : Name) : Outcome := do
  requireAuth env.toEnv owner
  match b.refunds.find? owner with
  | none => .error ⟨.action, "refund request not found"⟩
  | some req => do
    check .action (seconds (req.requestTime + refundDelaySec) ≤ env.now)
      "refund is not available yet"
    let quantity ← req.netAmount.add req.cpuAmount
    return ({ b with refunds := b.refunds.erase owner },
      [.inline (.transfer stakeAccount owner quantity "unstake")])

-- ---------------------------------------------------------------------------
-- Transactions
-- ---------------------------------------------------------------------------

inductive Action where
  | delegatebw (sender receiver : Name) (net cpu : Asset) (transfer : Bool)
  | undelegatebw (sender receiver : Name) (net cpu : Asset)
  | refund (owner : Name)
  | upgradevote
  | initbbpelect (maxBackupProducerCount : ℕ)

/-- The account whose tokens an action stakes or unstakes. -/
def Action.source : Action → Option Name
  | .delegatebw sender _ _ _ _ => some sender
  | .undelegatebw sender _ _ _ => some sender
  | _ => none

/-- An action and what the chain tells it. -/
structure Transaction where
  env : Env
  action : Action

/-- An action of the system contract that does not touch the tables of bandwidth. -/
def onSystem (b : Bandwidth) (r : Amax.Outcome) : Outcome := do
  let (system, sent) ← r
  return ({ b with system }, sent.map .inline)

def perform (env : Env) (b : Bandwidth) : Action → Outcome
  | .delegatebw sender receiver net cpu transfer => delegatebw env b sender receiver net cpu transfer
  | .undelegatebw sender receiver net cpu => undelegatebw env b sender receiver net cpu
  | .refund owner => refund env b owner
  | .upgradevote => onSystem b (upgradevote env.toEnv b.system)
  | .initbbpelect count => onSystem b (initbbpelect env.toEnv b.system count)

/-- The chain and the other contracts take what an action sends. -/
def Env.takes (env : Env) : Sent → Bool
  | .inline i => env.inlineOk i
  | _ => true

/-- Perform a transaction, which is undone when what it sends is not taken. -/
def transact (tx : Transaction) (b : Bandwidth) : Outcome := do
  let (b', sent) ← perform tx.env b tx.action
  check .sent (∀ m ∈ sent, tx.env.takes m) "a sent action failed"
  return (b', sent)

abbrev final (b : Bandwidth) (txs : List Transaction) : Bandwidth := Run.final transact b txs

variable {env : Env} {b b' : Bandwidth} {sender receiver : Name} {net cpu : Asset} {sent : List Sent}

-- ---------------------------------------------------------------------------
-- Successful actions
-- ---------------------------------------------------------------------------

/-- Delegating moves a positive stake of core tokens. -/
theorem delegatebw_ok {transfer : Bool}
    (h : delegatebw env b sender receiver net cpu transfer = .ok (b', sent)) :
    net.symbol = b.system.gstate.coreSymbol ∧ cpu.symbol = b.system.gstate.coreSymbol ∧
      0 < net.amount + cpu.amount ∧
      changebw env b sender receiver net cpu transfer = .ok (b', sent) := by
  simp only [delegatebw, System.coreSymbol, Except.bind_ok_iff, check_ok_iff, exists_const,
    Except.pure_ok_iff, Asset.make_ok_iff, Asset.le_ok_iff] at h
  obtain ⟨-, _, ⟨-, rfl⟩, _, ⟨-, -, rfl⟩, _, ⟨hcpu, -⟩, -, _, ⟨hnet, -⟩, -, hpos, -, hok⟩ := h
  exact ⟨hnet.symm, hcpu.symm, hpos, hok⟩

/-- Undelegating moves a stake of core tokens the other way. -/
theorem undelegatebw_ok (h : undelegatebw env b sender receiver net cpu = .ok (b', sent)) :
    net.symbol = b.system.gstate.coreSymbol ∧ cpu.symbol = b.system.gstate.coreSymbol ∧
      changebw env b sender receiver net.neg cpu.neg false = .ok (b', sent) := by
  simp only [undelegatebw, System.coreSymbol, Except.bind_ok_iff, check_ok_iff, exists_const,
    Except.pure_ok_iff, Asset.make_ok_iff, Asset.le_ok_iff] at h
  obtain ⟨-, _, ⟨-, rfl⟩, _, ⟨-, -, rfl⟩, _, ⟨hcpu, -⟩, -, _, ⟨hnet, -⟩, -, -, -, hok⟩ := h
  exact ⟨hnet.symm, hcpu.symm, hok⟩

/-- A refund that is due is erased and sent, and nothing else happens. -/
theorem refund_ok {owner : Name} (h : refund env b owner = .ok (b', sent)) :
    ∃ req quantity, b.refunds.find? owner = some req ∧ env.hasAuth owner = true ∧
      seconds (req.requestTime + refundDelaySec) ≤ env.now ∧
      req.netAmount.add req.cpuAmount = .ok quantity ∧
      b' = { b with refunds := b.refunds.erase owner } ∧
      sent = [.inline (.transfer stakeAccount owner quantity "unstake")] := by
  simp only [refund, requireAuth, Except.bind_ok_iff, check_ok_iff, exists_const] at h
  obtain ⟨hauth, h⟩ := h
  cases hfind : b.refunds.find? owner with
  | none => simp [hfind] at h
  | some req =>
    simp only [hfind, Except.bind_ok_iff, check_ok_iff, exists_const, Except.pure_ok_iff,
      Prod.mk.injEq] at h
    obtain ⟨hdue, quantity, hquantity, rfl, rfl⟩ := h
    exact ⟨req, quantity, rfl, hauth, hdue, hquantity, rfl, rfl⟩

/-- What does not touch the tables of bandwidth sends actions of other contracts alone. -/
theorem onSystem_ok {r : Amax.Outcome} (h : onSystem b r = .ok (b', sent)) :
    ∃ s sent', r = .ok (s, sent') ∧ b' = { b with system := s } ∧ sent = sent'.map .inline := by
  simp only [onSystem, Except.bind_ok_iff, Prod.exists, Except.pure_ok_iff, Prod.mk.injEq] at h
  obtain ⟨s, sent', hr, rfl, rfl⟩ := h
  exact ⟨s, sent', hr, rfl, rfl⟩

-- ---------------------------------------------------------------------------
-- Refinement
-- ---------------------------------------------------------------------------

section Refinement

theorem changebw_system {transfer : Bool}
    (h : changebw env b sender receiver net cpu transfer = .ok (b', sent)) :
    Amax.changebw env.toEnv b.system sender receiver net cpu transfer = .ok (b'.system, []) := by
  simp only [changebw, Except.bind_ok_iff, check_ok_iff, exists_const, Prod.exists,
    Except.pure_ok_iff, Prod.mk.injEq] at h
  obtain ⟨hauth, hzero, total, htotal, hsigns, -, -, -, -, hlimits, -, -, -, s, hpower, rfl, -⟩ := h
  simp only [Amax.changebw, Except.bind_ok_iff, check_ok_iff, exists_const, Except.pure_ok_iff]
  exact ⟨hauth, hzero, total, htotal, hsigns, hlimits, s, hpower, rfl⟩

theorem delegatebw_system {transfer : Bool}
    (h : delegatebw env b sender receiver net cpu transfer = .ok (b', sent)) :
    Amax.delegatebw env.toEnv b.system sender receiver net cpu transfer = .ok (b'.system, []) := by
  simp only [delegatebw, Except.bind_ok_iff, check_ok_iff, exists_const] at h
  obtain ⟨-, sym, hsym, zero, hzero, _, hcpu, hc, _, hnet, hn, hpos, htransfer, h⟩ := h
  simp only [Amax.delegatebw, Except.bind_ok_iff, check_ok_iff, exists_const]
  exact ⟨sym, hsym, zero, hzero, _, hcpu, hc, _, hnet, hn, hpos, htransfer, changebw_system h⟩

theorem undelegatebw_system
    (h : undelegatebw env b sender receiver net cpu = .ok (b', sent)) :
    Amax.undelegatebw env.toEnv b.system sender receiver net cpu = .ok (b'.system, []) := by
  simp only [undelegatebw, Except.bind_ok_iff, check_ok_iff, exists_const] at h
  obtain ⟨hauth, sym, hsym, zero, hzero, _, hcpu, hc, _, hnet, hn, hpos, hactive, h⟩ := h
  simp only [Amax.undelegatebw, Except.bind_ok_iff, check_ok_iff, exists_const]
  exact ⟨hauth, sym, hsym, zero, hzero, _, hcpu, hc, _, hnet, hn, hpos, hactive, changebw_system h⟩

/-- A successful transaction does to the state of the system contract what one of its own
transactions does, or nothing. -/
theorem transact_system {tx : Transaction} (h : transact tx b = .ok (b', sent)) :
    b'.system = b.system ∨ ∃ a sent',
      Amax.transact ⟨tx.env.toEnv, a⟩ b.system = .ok (b'.system, sent') := by
  simp only [transact, Except.bind_ok_iff, check_ok_iff, exists_const, Prod.exists,
    Except.pure_ok_iff, Prod.mk.injEq] at h
  obtain ⟨b', sent, h, htakes, rfl, rfl⟩ := h
  have honSystem : ∀ a (r : Amax.Outcome), Amax.perform tx.env.toEnv b.system a = r →
      onSystem b r = .ok (b', sent) → ∃ sent',
        Amax.transact ⟨tx.env.toEnv, a⟩ b.system = .ok (b'.system, sent') := by
    intro a r hr hok
    obtain ⟨s, sent', rfl, rfl, rfl⟩ := onSystem_ok hok
    exact ⟨sent', transact_ok_iff.mpr ⟨hr, fun i hi => htakes _ (List.mem_map_of_mem hi)⟩⟩
  cases ha : tx.action with
  | delegatebw sender receiver net cpu transfer =>
    rw [ha] at h
    exact .inr ⟨.delegatebw sender receiver net cpu transfer, [],
      transact_ok_iff.mpr ⟨delegatebw_system h, fun _ hi => absurd hi List.not_mem_nil⟩⟩
  | undelegatebw sender receiver net cpu =>
    rw [ha] at h
    exact .inr ⟨.undelegatebw sender receiver net cpu, [],
      transact_ok_iff.mpr ⟨undelegatebw_system h, fun _ hi => absurd hi List.not_mem_nil⟩⟩
  | refund owner =>
    rw [ha] at h
    obtain ⟨req, quantity, -, -, -, -, rfl, -⟩ := refund_ok h
    exact .inl rfl
  | upgradevote =>
    rw [ha] at h
    exact .inr ⟨.upgradevote, honSystem .upgradevote _ rfl h⟩
  | initbbpelect count =>
    rw [ha] at h
    exact .inr ⟨.initbbpelect count, honSystem (.initbbpelect count) _ rfl h⟩

/-- What a run does to the state of the system contract, a run of its own actions does. -/
theorem final_system (b : Bandwidth) (txs : List Transaction) :
    ∃ txs', (b.final txs).system = b.system.final txs' := by
  induction txs generalizing b with
  | nil => exact ⟨[], rfl⟩
  | cons tx txs ih =>
    obtain ⟨txs', hrest⟩ := ih (Run.next transact b tx).1
    cases hstep : transact tx b with
    | error e =>
      rw [Run.next_error hstep] at hrest
      exact ⟨txs', by rw [← hrest, final, Run.final, Run.next_error hstep]⟩
    | ok r =>
      have hfinal : (b.final (tx :: txs)).system = r.1.system.final txs' := by
        rw [Run.next_ok hstep] at hrest
        rw [← hrest, final, Run.final, Run.next_ok hstep]
      rcases transact_system hstep with hsame | ⟨a, sent', hok⟩
      · exact ⟨txs', by rw [hfinal, hsame]⟩
      · exact ⟨⟨tx.env.toEnv, a⟩ :: txs', by rw [hfinal, System.final, System.final, Run.final,
          Run.next_ok hok]⟩

end Refinement

end Bandwidth

end Amax
