-- SUMMARY: The multisig contract: proposals, approvals with their times, invalidations, and delayed execution.
import Amax.Base.Table
import Amax.Eosio.Types
import Mathlib.Data.Prod.Lex

/-! # The multisig contract

The tables and actions of `amax.msig`. Which approvals authorise a transaction
is told by the chain, `check_transaction_authorization`, which is a parameter. -/

namespace Amax.Msig

-- ---------------------------------------------------------------------------
-- State
-- ---------------------------------------------------------------------------

structure PermissionLevel where
  actor : Name
  permission : Name
  deriving DecidableEq

/-- A proposed transaction; its actions are only sent on and stand as numbers. -/
structure Trx where
  /-- In seconds. -/
  expiration : ℕ
  /-- In seconds. -/
  delaySec : ℕ
  contextFreeActions : List ℕ
  actions : List ℕ
  deriving DecidableEq

/-- A row of `proposal`; its scope is `proposer`. -/
structure Proposal where
  proposer : Name
  proposalName : Name
  packedTransaction : Trx
  /-- A `binary_extension`, which old rows lack. `0` is no time. -/
  earliestExecTime : Option TimePoint
  deriving DecidableEq

structure Approval where
  level : PermissionLevel
  time : TimePoint
  deriving DecidableEq

/-- A row of `approvals2`; its scope is `proposer`. -/
structure ApprovalsInfo where
  proposer : Name
  proposalName : Name
  requestedApprovals : List Approval
  providedApprovals : List Approval
  deriving DecidableEq

/-- A row of `invals`. -/
structure Invalidation where
  account : Name
  lastInvalidationTime : TimePoint
  deriving DecidableEq

structure State where
  proposals : Table fun p : Proposal => toLex (p.proposer, p.proposalName) := .empty
  approvals : Table fun a : ApprovalsInfo => toLex (a.proposer, a.proposalName) := .empty
  invalidations : Table Invalidation.account := .empty

/-- What one action is told by the chain. -/
structure Env where
  now : TimePoint
  hasAuth : Name → Bool
  hasLevel : PermissionLevel → Bool
  sha256 : Trx → ℕ := fun _ => 0

/-- The actions of an executed transaction, as they are sent. -/
abbrev Outcome := Result (State × List ℕ)

def requireAuth (env : Env) (n : Name) : Result Unit :=
  check .action (env.hasAuth n) ("missing authority of " ++ nameToString n)

-- ---------------------------------------------------------------------------
-- Approvals
-- ---------------------------------------------------------------------------

/-- The approval is not older than the last invalidation of its actor. -/
def State.isStanding (s : State) (a : Approval) : Bool :=
  match s.invalidations.find? a.level.actor with
  | none => true
  | some i => i.lastInvalidationTime < a.time

/-- The levels of the approvals that stand. -/
def State.standing (s : State) (approvals : List Approval) : List PermissionLevel :=
  (approvals.filter s.isStanding).map (·.level)

/-- `get_approvals_and_adjust_table`, which looks up the row its caller may erase. -/
def getApprovals (s : State) (proposer proposalName : Name) : Result (List PermissionLevel) :=
  match s.approvals.find? (toLex (proposer, proposalName)) with
  | none => .error ⟨.action, "proposal not found"⟩
  | some a => .ok (s.standing a.providedApprovals)

/-- `proptable.get`. -/
def getProposal (s : State) (proposer proposalName : Name) : Result Proposal :=
  match s.proposals.find? (toLex (proposer, proposalName)) with
  | none => .error ⟨.action, "proposal not found"⟩
  | some prop => .ok prop

/-- The row of `approvals2`. -/
def getApprovalsInfo (s : State) (proposer proposalName : Name) : Result ApprovalsInfo :=
  match s.approvals.find? (toLex (proposer, proposalName)) with
  | none => .error ⟨.action, "proposal not found"⟩
  | some a => .ok a

/-- The requested approval of a level is provided. -/
def ApprovalsInfo.provide (info : ApprovalsInfo) (level : PermissionLevel) (now : TimePoint) :
    ApprovalsInfo :=
  { info with
    providedApprovals := info.providedApprovals ++ [⟨level, now⟩]
    requestedApprovals := info.requestedApprovals.eraseP fun a => a.level = level }

/-- The provided approval of a level is requested again. -/
def ApprovalsInfo.takeBack (info : ApprovalsInfo) (level : PermissionLevel) (now : TimePoint) :
    ApprovalsInfo :=
  { info with
    requestedApprovals := info.requestedApprovals ++ [⟨level, now⟩]
    providedApprovals := info.providedApprovals.eraseP fun a => a.level = level }

def oldProposal : String :=
  "old proposals are not allowed to have non-zero `delay_sec`; cancel and retry"

-- ---------------------------------------------------------------------------
-- Actions
-- ---------------------------------------------------------------------------

section Actions

-- `check_transaction_authorization`
variable (trxIsAuthorized : Trx → List PermissionLevel → Bool)

def propose (env : Env) (s : State) (proposer proposalName : Name)
    (requested : List PermissionLevel) (trx : Trx) : Outcome := do
  requireAuth env proposer
  check .action (env.now.secSinceEpoch ≤ trx.expiration) "transaction expired"
  check .action (trx.contextFreeActions = [])
    "not allowed to `propose` a transaction with context-free actions"
  check .action ((s.proposals.find? (toLex (proposer, proposalName))).isNone)
    "proposal with the same name exists"
  check .action (trxIsAuthorized trx requested) "transaction authorization failed"
  check .action ((s.approvals.find? (toLex (proposer, proposalName))).isNone)
    "could not insert object, most likely a uniqueness constraint was violated"
  let prop := {
    proposer, proposalName, packedTransaction := trx, earliestExecTime := some 0 }
  let info := {
    proposer, proposalName
    requestedApprovals := requested.map fun level => ⟨level, 0⟩
    providedApprovals := [] }
  return ({ s with proposals := s.proposals.set prop, approvals := s.approvals.set info }, [])

def approve (env : Env) (s : State) (proposer proposalName : Name) (level : PermissionLevel)
    (proposalHash : Option ℕ) : Outcome := do
  check .action (env.hasLevel level) "missing authority"
  let prop ← getProposal s proposer proposalName
  check .action (∀ hash ∈ proposalHash, env.sha256 prop.packedTransaction = hash)
    "hash mismatch"
  let info ← getApprovalsInfo s proposer proposalName
  check .action (info.requestedApprovals.any fun a => a.level = level)
    "approval is not on the list of requested approvals"
  let s := { s with approvals := s.approvals.set (info.provide level env.now) }
  let trx := prop.packedTransaction
  match prop.earliestExecTime with
  | some earliest =>
    if trx.delaySec ≠ 0 ∧ earliest = 0 then do
      if trxIsAuthorized trx (← getApprovals s proposer proposalName) then
        let prop := { prop with earliestExecTime := some (env.now + seconds trx.delaySec) }
        return ({ s with proposals := s.proposals.set prop }, [])
      else
        return (s, [])
    else
      return (s, [])
  | none =>
    check .action (trx.delaySec = 0) oldProposal
    return (s, [])

def unapprove (env : Env) (s : State) (proposer proposalName : Name) (level : PermissionLevel) :
    Outcome := do
  check .action (env.hasLevel level) "missing authority"
  let info ← getApprovalsInfo s proposer proposalName
  check .action (info.providedApprovals.any fun a => a.level = level)
    "no approval previously granted"
  let s := { s with approvals := s.approvals.set (info.takeBack level env.now) }
  let prop ← getProposal s proposer proposalName
  let trx := prop.packedTransaction
  match prop.earliestExecTime with
  | some earliest =>
    if earliest ≠ 0 then do
      if trxIsAuthorized trx (← getApprovals s proposer proposalName) then
        return (s, [])
      else
        return ({ s with proposals := s.proposals.set { prop with earliestExecTime := some 0 } }, [])
    else
      return (s, [])
  | none =>
    check .action (trx.delaySec = 0) oldProposal
    return (s, [])

def cancel (env : Env) (s : State) (proposer proposalName canceler : Name) : Outcome := do
  requireAuth env canceler
  let prop ← getProposal s proposer proposalName
  check .action (canceler ≠ proposer →
      prop.packedTransaction.expiration < env.now.secSinceEpoch)
    "cannot cancel until expiration"
  let _ ← getApprovalsInfo s proposer proposalName
  return ({ s with
    proposals := s.proposals.erase (toLex (proposer, proposalName))
    approvals := s.approvals.erase (toLex (proposer, proposalName)) }, [])

def exec (env : Env) (s : State) (proposer proposalName executer : Name) : Outcome := do
  requireAuth env executer
  let prop ← getProposal s proposer proposalName
  let trx := prop.packedTransaction
  check .action (env.now.secSinceEpoch ≤ trx.expiration) "transaction expired"
  check .action (trx.contextFreeActions = [])
    "not allowed to `exec` a transaction with context-free actions"
  let approvals ← getApprovals s proposer proposalName
  check .action (trxIsAuthorized trx approvals) "transaction authorization failed"
  match prop.earliestExecTime with
  | some earliest =>
    if earliest ≠ 0 then check .action (earliest ≤ env.now) "too early to execute"
    else check .action (trx.delaySec = 0) oldProposal
  | none => check .action (trx.delaySec = 0) oldProposal
  return ({ s with
    proposals := s.proposals.erase (toLex (proposer, proposalName))
    approvals := s.approvals.erase (toLex (proposer, proposalName)) }, trx.actions)

def invalidate (env : Env) (s : State) (account : Name) : Outcome := do
  requireAuth env account
  return ({ s with invalidations := s.invalidations.set ⟨account, env.now⟩ }, [])

-- ---------------------------------------------------------------------------
-- Transactions
-- ---------------------------------------------------------------------------

inductive Action where
  | propose (proposer proposalName : Name) (requested : List PermissionLevel) (trx : Trx)
  | approve (proposer proposalName : Name) (level : PermissionLevel) (proposalHash : Option ℕ)
  | unapprove (proposer proposalName : Name) (level : PermissionLevel)
  | cancel (proposer proposalName canceler : Name)
  | exec (proposer proposalName executer : Name)
  | invalidate (account : Name)

/-- An action and what the chain tells it. -/
structure Transaction where
  env : Env
  action : Action

def transact (tx : Transaction) (s : State) : Outcome :=
  match tx.action with
  | .propose proposer name requested trx =>
    propose trxIsAuthorized tx.env s proposer name requested trx
  | .approve proposer name level hash => approve trxIsAuthorized tx.env s proposer name level hash
  | .unapprove proposer name level => unapprove trxIsAuthorized tx.env s proposer name level
  | .cancel proposer name canceler => cancel tx.env s proposer name canceler
  | .exec proposer name executer => exec trxIsAuthorized tx.env s proposer name executer
  | .invalidate account => invalidate tx.env s account

abbrev State.final (s : State) (txs : List Transaction) : State :=
  Run.final (transact trxIsAuthorized) s txs

end Actions

end Amax.Msig
