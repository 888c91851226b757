-- SUMMARY: The mining contract: deposits that are swapped at once or kept as orders, and the settlement of orders.
import Amax.Base.Table
import Amax.Eosio.Types

/-! # The mining contract

The tables and actions of `amax.one`. A deposit is a transfer the token contract
of the deposited coin tells the contract of. -/

namespace Amax.Mining

-- ---------------------------------------------------------------------------
-- State
-- ---------------------------------------------------------------------------

/-- `APL_SYMBOL`. -/
def aplSymbol : Symbol := ⟨['A', 'P', 'L'], 4⟩

/-- `HOUR_SECONDS`. -/
def hourSeconds : ℕ := 60 * 60

/-- The value of `x` stored in a `uint64_t`. -/
def toUint64 (x : ℤ) : ℕ := (x % 2 ^ 64).toNat

/-- `global_t`; times are in seconds. -/
structure Global where
  mineTokenContract : Name := 0
  admin : Name := 0
  lastOrderId : ℕ := 0
  startedAt : ℕ := 0
  endedAt : ℕ := 0
  deriving DecidableEq

/-- A row of `adsorder`. -/
structure AdsOrder where
  id : ℕ
  miner : Name
  adsId : String
  recdApls : Asset
  createdAt : ℕ
  expiredAt : ℕ
  deriving DecidableEq

/-- A row of `swapconfs`. -/
structure SwapConf where
  swapAmount : ℕ
  swapTokens : Asset
  swapTokensAfterAdscheck : Asset
  mineTokenTotal : Asset
  mineTokenRemained : Asset
  deriving DecidableEq

structure State where
  gstate : Global := {}
  orders : Table AdsOrder.id := .empty
  confs : Table SwapConf.swapAmount := .empty

/-- The actions that an action sends. -/
inductive Inline where
  | transfer (contract receiver : Name) (quantity : Asset) (memo : String)
  | aplswaplog (miner : Name) (recdApls swapTokens : Asset) (adsId : String) (createdAt : TimePoint)
  deriving DecidableEq

/-- What one action is told by the chain. -/
structure Env where
  self : Name := 3786911914072735744
  now : TimePoint
  hasAuth : Name → Bool
  /-- `aplink::token::get_sum` of an account, when it has a row. -/
  aplSum : Name → Option ℤ
  /-- `amax::token::is_blacklisted`. -/
  isBlacklisted : Name → Bool
  /-- The token contract and the contract itself take what is sent to them. -/
  inlineOk : Inline → Bool := fun _ => true

example : nameToString 3786911914072735744 = "amax.one" := by decide +kernel

abbrev Outcome := Result (State × List Inline)

def requireAuth (env : Env) (n : Name) : Result Unit :=
  check .action (env.hasAuth n) ("missing authority of " ++ nameToString n)

-- ---------------------------------------------------------------------------
-- Memos
-- ---------------------------------------------------------------------------

/-- `trim`: without the spaces at both ends. -/
def trim (cs : List Char) : List Char :=
  ((cs.dropWhile (· = ' ')).reverse.dropWhile (· = ' ')).reverse

/-- `_get_ads_id`. -/
def getAdsId (memo : String) : String :=
  if "adsid:".toList.isPrefixOf memo.toList then
    match (memo.toList.splitOn ':').map trim with
    | [_, adsId] => String.ofList adsId
    | _ => ""
  else ""

-- ---------------------------------------------------------------------------
-- Rewards
-- ---------------------------------------------------------------------------

/-- What a deposit is worth, with or without its advertisement checked. -/
def SwapConf.price (conf : SwapConf) (adsChecked : Bool) : Asset :=
  if adsChecked then conf.swapTokensAfterAdscheck else conf.swapTokens

/-- `_claim_reward`. -/
def claimReward (env : Env) (s : State) (receiver : Name) (recdApls : Asset) (adsChecked : Bool)
    (adsId memo : String) : Outcome :=
  match s.confs.find? (toUint64 recdApls.amount) with
  | none => .error ⟨.action, "swap conf not found: " ++ recdApls.toString⟩
  | some conf => do
    let swapTokens := conf.price adsChecked
    check .action (0 < swapTokens.amount) "swap token must greater than 0"
    check .action (← swapTokens.le conf.mineTokenRemained) "reward token not enough"
    let mineTokenRemained ← conf.mineTokenRemained.sub swapTokens
    return ({ s with confs := s.confs.set { conf with mineTokenRemained } },
      [.transfer s.gstate.mineTokenContract receiver swapTokens memo,
        .aplswaplog receiver recdApls swapTokens adsId env.now])

/-- `_add_adsorder`. -/
def addAdsorder (env : Env) (s : State) (miner : Name) (quantity : Asset) (adsId : String) :
    Outcome := do
  let id := (s.gstate.lastOrderId + 1) % 2 ^ 64
  check .action ((s.orders.find? id).isNone)
    "could not insert object, most likely a uniqueness constraint was violated"
  let order := {
    id
    miner
    adsId
    recdApls := quantity
    createdAt := env.now.secSinceEpoch
    expiredAt := env.now.secSinceEpoch + hourSeconds }
  return ({ s with
    gstate := { s.gstate with lastOrderId := id }, orders := s.orders.set order }, [])

-- ---------------------------------------------------------------------------
-- Actions
-- ---------------------------------------------------------------------------

def init (env : Env) (s : State) (admin mineTokenContract : Name) (startedAt endedAt : ℕ) :
    Outcome := do
  requireAuth env env.self
  return ({ s with gstate := { s.gstate with admin, mineTokenContract, startedAt, endedAt } }, [])

def ontransfer (env : Env) (s : State) (sender receiver : Name) (quantity : Asset)
    (memo : String) : Outcome :=
  if sender = env.self ∨ receiver ≠ env.self then .ok (s, [])
  else do
    check .action (0 < quantity.amount) "quantity must be positive"
    match env.aplSum sender with
    | none => .error ⟨.action, "unable to find key"⟩
    | some sumbalance => do
      check .action (sumbalance < 10000000)
        "apl sum greater than or equal to 1000, please go to the pro pool to mine"
      -- the coins of a blacklisted sender are kept
      if env.isBlacklisted sender then return (s, [])
      else
        check .action (s.gstate.startedAt ≤ env.now.secSinceEpoch) "amax #1 not open yet"
        check .action (env.now.secSinceEpoch < s.gstate.endedAt) "amax #1 already ended"
        check .action (quantity.symbol = aplSymbol)
          ("None APL symbol not allowed: " ++ quantity.toString)
        match s.confs.find? (toUint64 quantity.amount) with
        | none => .error ⟨.action, "swap amount not supported: " ++ quantity.toString⟩
        | some conf => do
          check .action (← conf.swapTokens.le conf.mineTokenRemained) "swap not enought amax "
          let adsId := getAdsId memo
          if 10 < memo.utf8ByteSize ∧ quantity.amount = 1000000 ∧ 4 < adsId.utf8ByteSize then
            addAdsorder env s sender quantity adsId
          else
            claimReward env s sender quantity false "" ""

/-- Pay an order, and forget it. -/
def settle (env : Env) (s : State) (orderId : ℕ) (adsChecked : Bool) : Outcome := do
  requireAuth env s.gstate.admin
  match s.orders.find? orderId with
  | none => .error ⟨.action, "order_id not existed"⟩
  | some order => do
    let adsId := if adsChecked then order.adsId else ""
    let (s, sent) ← claimReward env s order.miner order.recdApls adsChecked adsId ""
    return ({ s with orders := s.orders.erase orderId }, sent)

def confirmads (env : Env) (s : State) (orderId : ℕ) : Outcome := settle env s orderId true

def onswapexpird (env : Env) (s : State) (orderId : ℕ) : Outcome := settle env s orderId false

/-- The authority the actions on configurations ask for. -/
def requireOperator (env : Env) (s : State) (account : Name) : Result Unit := do
  requireAuth env account
  check .action (account = env.self ∨ account = s.gstate.admin) "no auth for operate"

def addswapconf (env : Env) (s : State) (account : Name) (conf : SwapConf) : Outcome := do
  requireOperator env s account
  check .action ((s.confs.find? conf.swapAmount).isNone)
    ("swap conf already existed: " ++ conf.swapAmount.repr)
  return ({ s with confs := s.confs.set conf }, [])

def setremained (env : Env) (s : State) (swapAmount : ℕ) (amount : Asset) : Outcome := do
  requireAuth env env.self
  match s.confs.find? swapAmount with
  | none => .error ⟨.action, "swap conf not existing: " ++ swapAmount.repr⟩
  | some conf => return ({ s with confs := s.confs.set { conf with mineTokenRemained := amount } }, [])

def delswapconf (env : Env) (s : State) (account : Name) (amount : ℕ) : Outcome := do
  requireOperator env s account
  check .action ((s.confs.find? amount).isSome) ("swap conf not found: " ++ amount.repr)
  return ({ s with confs := s.confs.erase amount }, [])

-- ---------------------------------------------------------------------------
-- Transactions
-- ---------------------------------------------------------------------------

inductive Action where
  | init (admin mineTokenContract : Name) (startedAt endedAt : ℕ)
  | ontransfer (sender receiver : Name) (quantity : Asset) (memo : String)
  | confirmads (orderId : ℕ)
  | onswapexpird (orderId : ℕ)
  | addswapconf (account : Name) (conf : SwapConf)
  | setremained (swapAmount : ℕ) (amount : Asset)
  | delswapconf (account : Name) (amount : ℕ)

/-- The action uses the configurations and does not edit them. -/
def Action.isUse : Action → Bool
  | .ontransfer .. | .confirmads _ | .onswapexpird _ => true
  | _ => false

/-- An action and what the chain tells it. -/
structure Transaction where
  env : Env
  action : Action

def perform (env : Env) (s : State) : Action → Outcome
  | .init admin contract startedAt endedAt => init env s admin contract startedAt endedAt
  | .ontransfer sender receiver quantity memo => ontransfer env s sender receiver quantity memo
  | .confirmads orderId => confirmads env s orderId
  | .onswapexpird orderId => onswapexpird env s orderId
  | .addswapconf account conf => addswapconf env s account conf
  | .setremained swapAmount amount => setremained env s swapAmount amount
  | .delswapconf account amount => delswapconf env s account amount

/-- Perform a transaction, which is undone when one of the actions it sends fails. -/
def transact (tx : Transaction) (s : State) : Outcome := do
  let (s', sent) ← perform tx.env s tx.action
  check .sent (∀ i ∈ sent, tx.env.inlineOk i) "a sent action failed"
  return (s', sent)

abbrev State.final (s : State) (txs : List Transaction) : State := Run.final transact s txs
abbrev State.sent (s : State) (txs : List Transaction) : List Inline := Run.outputs transact s txs

end Amax.Mining
