-- SUMMARY: The token contract with transfer fees, frozen accounts and paused currencies.
import Amax.Eosio.Holdings

/-! # The token contract with fees

The tables and actions of `amax.xtoken`. An action puts out the accounts it
notifies and the fee it reports. -/

namespace Amax.Xtoken

-- ---------------------------------------------------------------------------
-- State
-- ---------------------------------------------------------------------------

/-- `RATIO_BOOST`. -/
def ratioBoost : ℕ := 10000

/-- A row of `accounts`; its scope is `owner`. -/
structure Account where
  owner : Name
  balance : Asset
  isFrozen : Bool := false
  isFeeExempt : Bool := false
  deriving DecidableEq

/-- A row of `stat`. The empty name stands for no fee receiver. -/
structure CurrencyStats where
  supply : Asset
  maxSupply : Asset
  issuer : Name
  isPaused : Bool := false
  feeReceiver : Name := 0
  feeRatio : ℕ := 0
  minFeeQuantity : Asset := .none
  deriving DecidableEq

abbrev Accounts := Holdings Account.owner Account.balance

structure State where
  accounts : Accounts := .empty
  stats : Currencies CurrencyStats.supply := .empty

/-- What one action is told by the chain. -/
structure Env where
  self : Name
  hasAuth : Name → Bool
  isAccount : Name → Bool

/-- What an action makes known. -/
inductive Notice where
  | recipient (account : Name)
  | notifypayfee (sender receiver feeReceiver : Name) (fee : Asset) (memo : String)
  deriving DecidableEq

abbrev Outcome := Result (State × List Notice)

def requireAuth (env : Env) (n : Name) : Result Unit :=
  check .action (env.hasAuth n) ("missing authority of " ++ nameToString n)

/-- `multiply_decimal64`: `a * b / precision`. -/
def multiplyDecimal64 (a b precision : ℤ) : Result ℤ := do
  let tmp := (toInt128 (a * b)).tdiv precision
  check .fee (-2 ^ 63 ≤ tmp ∧ tmp ≤ int64Max) "overflow exception of multiply_decimal"
  return tmp

-- ---------------------------------------------------------------------------
-- Balances
-- ---------------------------------------------------------------------------

/-- `is_account_frozen`. -/
def isAccountFrozen (st : CurrencyStats) (owner : Name) (acct : Account) : Bool :=
  acct.isFrozen && owner ≠ st.issuer

/-- `sub_balance`. -/
def subBalance (st : CurrencyStats) (accounts : Accounts) (owner : Name) (value : Asset)
    (isCheckFrozen : Bool) : Result Accounts :=
  match accounts.find? (toLex (owner, value.symbol.code)) with
  | none => .error ⟨.action, "no balance object found"⟩
  | some row => do
    check .action (isCheckFrozen → isAccountFrozen st owner row = false) "from account is frozen"
    check .action (value.amount ≤ row.balance.amount) "overdrawn balance"
    let balance ← row.balance.sub value
    return accounts.set { row with balance }

/-- `add_balance`. -/
def addBalance (st : CurrencyStats) (accounts : Accounts) (owner : Name) (value : Asset)
    (isCheckFrozen : Bool) : Result Accounts :=
  match accounts.find? (toLex (owner, value.symbol.code)) with
  | none => .ok (accounts.set { owner, balance := value })
  | some row => do
    check .action (isCheckFrozen → isAccountFrozen st owner row = false) "to account is frozen"
    let balance ← row.balance.add value
    return accounts.set { row with balance }

/-- `open_account`. -/
def openAccount (accounts : Accounts) (owner : Name) (symbol : Symbol) : Result Accounts :=
  match accounts.find? (toLex (owner, symbol.code)) with
  | some _ => .ok accounts
  | none => do
    let balance ← Asset.make 0 symbol
    return accounts.set { owner, balance }

/-- The row of a symbol's currency. -/
def getStats (s : State) (symbol : Symbol) : Result CurrencyStats :=
  match s.stats.find? symbol.code with
  | none => .error ⟨.action, "token of symbol does not exist"⟩
  | some st => do
    check .action (st.supply.symbol = symbol) "symbol precision mismatch"
    return st

-- ---------------------------------------------------------------------------
-- Currencies
-- ---------------------------------------------------------------------------

def create (env : Env) (s : State) (issuer : Name) (maximumSupply : Asset) : Outcome := do
  requireAuth env env.self
  check .action (env.isAccount issuer) "issuer account does not exist"
  let sym := maximumSupply.symbol
  check .action sym.isValid "invalid symbol name"
  check .action maximumSupply.isValid "invalid supply"
  check .action (0 < maximumSupply.amount) "max-supply must be positive"
  check .action ((s.stats.find? sym.code).isNone) "token with symbol already exists"
  let minFeeQuantity ← Asset.make 0 sym
  let st := { supply := ⟨0, sym⟩, maxSupply := maximumSupply, issuer, minFeeQuantity }
  return ({ s with stats := s.stats.set st }, [])

def issue (env : Env) (s : State) (receiver : Name) (quantity : Asset) (memo : String) :
    Outcome := do
  let sym := quantity.symbol
  check .action sym.isValid "invalid symbol name"
  check .action (memo.utf8ByteSize ≤ 256) "memo has more than 256 bytes"
  match s.stats.find? sym.code with
  | none =>
    .error ⟨.action, "token with symbol does not exist, create token before issue"⟩
  | some st => do
    check .action (receiver = st.issuer) "tokens can only be issued to issuer account"
    requireAuth env st.issuer
    check .action quantity.isValid "invalid quantity"
    check .action (0 < quantity.amount) "must issue positive quantity"
    check .action (quantity.symbol = st.supply.symbol) "symbol precision mismatch"
    check .action (quantity.amount ≤ st.maxSupply.amount - st.supply.amount)
      "quantity exceeds available supply"
    let supply ← st.supply.add quantity
    let accounts ← addBalance st s.accounts st.issuer quantity false
    return ({ s with stats := s.stats.set { st with supply }, accounts }, [])

def retire (env : Env) (s : State) (quantity : Asset) (memo : String) : Outcome := do
  let sym := quantity.symbol
  check .action sym.isValid "invalid symbol name"
  check .action (memo.utf8ByteSize ≤ 256) "memo has more than 256 bytes"
  match s.stats.find? sym.code with
  | none => .error ⟨.action, "token with symbol does not exist"⟩
  | some st => do
    requireAuth env st.issuer
    check .action quantity.isValid "invalid quantity"
    check .action (0 < quantity.amount) "must retire positive quantity"
    check .action (quantity.symbol = st.supply.symbol) "symbol precision mismatch"
    let supply ← st.supply.sub quantity
    let accounts ← subBalance st s.accounts st.issuer quantity false
    return ({ s with stats := s.stats.set { st with supply }, accounts }, [])

-- ---------------------------------------------------------------------------
-- Transfers
-- ---------------------------------------------------------------------------

/-- The fee of a transfer that is not free of one. -/
def calcFee (st : CurrencyStats) (quantity : Asset) : Result Asset := do
  let share ← multiplyDecimal64 quantity.amount st.feeRatio ratioBoost
  let fee : Asset := ⟨max st.minFeeQuantity.amount share, quantity.symbol⟩
  check .fee (← fee.lt quantity) "the calculated fee must less than quantity"
  return fee

/-- What is kept back of a transfer. -/
def transferFee (st : CurrencyStats) (accounts : Accounts) (receiver : Name) (quantity : Asset) :
    Result Asset := do
  let fee ← Asset.make 0 quantity.symbol
  if st.feeReceiver ≠ 0 ∧ 0 < st.feeRatio ∧ receiver ≠ st.issuer ∧ receiver ≠ st.feeReceiver then
    match accounts.find? (toLex (receiver, quantity.symbol.code)) with
    | none => calcFee st quantity
    | some toAcct => if toAcct.isFeeExempt then return fee else calcFee st quantity
  else
    return fee

def transfer (env : Env) (s : State) (sender receiver : Name) (quantity : Asset)
    (memo : String) : Outcome := do
  check .action (sender ≠ receiver) "cannot transfer to self"
  requireAuth env sender
  check .action (env.isAccount receiver) "to account does not exist"
  let st ← getStats s quantity.symbol
  check .action (!st.isPaused) "token is paused"
  check .action quantity.isValid "invalid quantity"
  check .action (0 < quantity.amount) "must transfer positive quantity"
  check .action (quantity.symbol = st.supply.symbol) "symbol precision mismatch"
  check .action (memo.utf8ByteSize ≤ 256) "memo has more than 256 bytes"
  check .action (← st.minFeeQuantity.lt quantity)
    ("quantity must larger than min fee:" ++ st.minFeeQuantity.toString)
  let fee ← transferFee st s.accounts receiver quantity
  let actualRecv ← quantity.sub fee
  let accounts ← subBalance st s.accounts sender quantity true
  let accounts ← addBalance st accounts receiver actualRecv true
  let notices := [.recipient sender, .recipient receiver]
  if 0 < fee.amount then
    let accounts ← addBalance st accounts st.feeReceiver fee false
    return ({ s with accounts },
      notices ++ [.notifypayfee sender receiver st.feeReceiver fee memo])
  else
    return ({ s with accounts }, notices)

def notifypayfee (env : Env) (s : State) (receiver feeReceiver : Name) : Outcome := do
  requireAuth env env.self
  return (s, [.recipient receiver, .recipient feeReceiver])

-- ---------------------------------------------------------------------------
-- Accounts
-- ---------------------------------------------------------------------------

/-- `open`. -/
def open_ (env : Env) (s : State) (owner : Name) (symbol : Symbol) (ramPayer : Name) :
    Outcome := do
  requireAuth env ramPayer
  check .action (env.isAccount owner) "owner account does not exist"
  let st ← getStats s symbol
  check .action (!st.isPaused) "token is paused"
  let accounts ← openAccount s.accounts owner symbol
  return ({ s with accounts }, [])

def close (env : Env) (s : State) (owner : Name) (symbol : Symbol) : Outcome := do
  requireAuth env owner
  let st ← getStats s symbol
  check .action (!st.isPaused) "token is paused"
  match s.accounts.find? (toLex (owner, symbol.code)) with
  | none =>
    .error ⟨.action,
      "Balance row already deleted or never existed. Action won't have any effect."⟩
  | some row => do
    check .action (isAccountFrozen st owner row = false) "account is frozen"
    check .action (row.balance.amount = 0) "Cannot close because the balance is not zero."
    return ({ s with accounts := s.accounts.erase (toLex (owner, symbol.code)) }, [])

/-- Change the row of an account in the name of the issuer. -/
def updateAccount (env : Env) (s : State) (symbol : Symbol) (account : Name)
    (f : Account → Account) : Outcome := do
  let st ← getStats s symbol
  requireAuth env st.issuer
  match s.accounts.find? (toLex (account, symbol.code)) with
  | none => .error ⟨.action, "account of token does not exist"⟩
  | some acct => return ({ s with accounts := s.accounts.set (f acct) }, [])

def feeexempt (env : Env) (s : State) (symbol : Symbol) (account : Name) (isFeeExempt : Bool) :
    Outcome :=
  updateAccount env s symbol account fun a => { a with isFeeExempt }

def freezeacct (env : Env) (s : State) (symbol : Symbol) (account : Name) (isFrozen : Bool) :
    Outcome :=
  updateAccount env s symbol account fun a => { a with isFrozen }

-- ---------------------------------------------------------------------------
-- Fields of a currency
-- ---------------------------------------------------------------------------

/-- `update_currency_field`, with the row it writes. -/
def updateCurrencyField (env : Env) (s : State) (symbol : Symbol)
    (f : CurrencyStats → CurrencyStats) : Result (State × CurrencyStats) := do
  let st ← getStats s symbol
  requireAuth env st.issuer
  return ({ s with stats := s.stats.set (f st) }, f st)

def feeratio (env : Env) (s : State) (symbol : Symbol) (feeRatio : ℕ) : Outcome := do
  check .action (feeRatio < ratioBoost) "fee_ratio out of range"
  let (s, _) ← updateCurrencyField env s symbol fun st => { st with feeRatio }
  return (s, [])

def feereceiver (env : Env) (s : State) (symbol : Symbol) (feeReceiver : Name) : Outcome := do
  check .action (env.isAccount feeReceiver) "Invalid account of fee_receiver"
  let (s, _) ← updateCurrencyField env s symbol fun st => { st with feeReceiver }
  let accounts ← openAccount s.accounts feeReceiver symbol
  return ({ s with accounts }, [])

def minfee (env : Env) (s : State) (symbol : Symbol) (minFeeQuantity : Asset) : Outcome := do
  check .action (minFeeQuantity.symbol = symbol) "symbol of min_fee_quantity  mismatch"
  check .action (0 < minFeeQuantity.amount) "amount of min_fee_quantity can not be negative"
  let (s, _) ← updateCurrencyField env s symbol fun st => { st with minFeeQuantity }
  return (s, [])

def pause (env : Env) (s : State) (symbol : Symbol) (isPaused : Bool) : Outcome := do
  let (s, _) ← updateCurrencyField env s symbol fun st => { st with isPaused }
  return (s, [])

-- ---------------------------------------------------------------------------
-- Transactions
-- ---------------------------------------------------------------------------

inductive Action where
  | create (issuer : Name) (maximumSupply : Asset)
  | issue (receiver : Name) (quantity : Asset) (memo : String)
  | retire (quantity : Asset) (memo : String)
  | transfer (sender receiver : Name) (quantity : Asset) (memo : String)
  | notifypayfee (receiver feeReceiver : Name)
  | open_ (owner : Name) (symbol : Symbol) (ramPayer : Name)
  | close (owner : Name) (symbol : Symbol)
  | feeratio (symbol : Symbol) (feeRatio : ℕ)
  | feereceiver (symbol : Symbol) (feeReceiver : Name)
  | minfee (symbol : Symbol) (minFeeQuantity : Asset)
  | feeexempt (symbol : Symbol) (account : Name) (isFeeExempt : Bool)
  | pause (symbol : Symbol) (isPaused : Bool)
  | freezeacct (symbol : Symbol) (account : Name) (isFrozen : Bool)

/-- An action and what the chain tells it. -/
structure Transaction where
  env : Env
  action : Action

def transact (tx : Transaction) (s : State) : Outcome :=
  match tx.action with
  | .create issuer maximumSupply => create tx.env s issuer maximumSupply
  | .issue receiver quantity memo => issue tx.env s receiver quantity memo
  | .retire quantity memo => retire tx.env s quantity memo
  | .transfer sender receiver quantity memo => transfer tx.env s sender receiver quantity memo
  | .notifypayfee receiver feeReceiver => notifypayfee tx.env s receiver feeReceiver
  | .open_ owner symbol ramPayer => open_ tx.env s owner symbol ramPayer
  | .close owner symbol => close tx.env s owner symbol
  | .feeratio symbol feeRatio => feeratio tx.env s symbol feeRatio
  | .feereceiver symbol feeReceiver => feereceiver tx.env s symbol feeReceiver
  | .minfee symbol minFeeQuantity => minfee tx.env s symbol minFeeQuantity
  | .feeexempt symbol account isFeeExempt => feeexempt tx.env s symbol account isFeeExempt
  | .pause symbol isPaused => pause tx.env s symbol isPaused
  | .freezeacct symbol account isFrozen => freezeacct tx.env s symbol account isFrozen

abbrev State.final (s : State) (txs : List Transaction) : State := Run.final transact s txs

end Amax.Xtoken
