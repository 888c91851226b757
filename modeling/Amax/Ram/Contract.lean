-- SUMMARY: The RAM market of the system contract: buying, selling, and the growing supply of RAM.
import Amax.System.Bandwidth

/-! # The RAM market

The tables of `exchange_state.cpp` and the actions that write them. The market
computes its prices in floating point, which stays a parameter. -/

namespace Amax.Ram

-- ---------------------------------------------------------------------------
-- State
-- ---------------------------------------------------------------------------

def ramAccount : Name := 3786911958767239168
def ramfeeAccount : Name := 3786911958773175296
def rexAccount : Name := 3786911961099272192

example : [ramAccount, ramfeeAccount, rexAccount].map nameToString =
    ["amax.ram", "amax.ramfee", "amax.rex"] := by decide +kernel

/-- `symbol("RAMCORE", 4)`. -/
def ramcoreSymbol : Symbol := ⟨['R', 'A', 'M', 'C', 'O', 'R', 'E'], 4⟩

/-- `symbol("RAM", 0)`. -/
def ramSymbol : Symbol := ⟨['R', 'A', 'M'], 0⟩

/-- `exchange_state`, the row of `rammarket`; of a connector only its balance is used. -/
structure ExchangeState where
  supply : Asset
  base : Asset
  quote : Asset
  deriving DecidableEq

/-- What the market uses of the global state, its row, and the table `userres`. -/
structure State where
  coreSymbol : Symbol := .none
  maxRamSize : ℤ := 64 * 1024 * 1024 * 1024
  totalRamBytesReserved : ℤ := 0
  totalRamStake : ℤ := 0
  newRamPerBlock : Fin (2 ^ 16) := 0
  lastRamIncrease : Slot := 0
  market : Option ExchangeState := none
  totals : Totals := .empty

/-- What is computed in floating point. -/
structure Doubles where
  /-- `int64_t( (in * ob) / (ib + in) )`, given `ib`, `ob` and `in`. -/
  bancorOutput : ℤ → ℤ → ℤ → ℤ
  /-- `int64_t( (ib * out) / (ob - out) )`, given `ob`, `ib` and `out`. -/
  bancorInput : ℤ → ℤ → ℤ → ℤ
  /-- `int64_t( cost / double(0.995) )`. -/
  costPlusFee : ℤ → ℤ

/-- The actions that an action sends. -/
inductive Sent where
  | transfer (sender receiver : Name) (quantity : Asset) (memo : String)
  | openBalance (owner : Name) (symbol : Symbol) (ramPayer : Name)
  deriving DecidableEq

/-- What one action is told by the chain. -/
structure Env extends Amax.Env where
  /-- `token::is_blacklisted`. -/
  isBlacklisted : Name → Bool := fun _ => false
  /-- `token::get_supply`. -/
  supply : List Char → Option Asset := fun _ => none
  /-- The token contract takes the action, after its checks of the quantity and of the accounts. -/
  sentOk : Sent → Bool := fun _ => true

abbrev Outcome := Result (State × List Sent)

-- ---------------------------------------------------------------------------
-- The exchange
-- ---------------------------------------------------------------------------

/-- `get_bancor_output`. -/
def getBancorOutput (d : Doubles) (inpReserve outReserve inp : ℤ) : ℤ :=
  let out := d.bancorOutput inpReserve outReserve inp
  if out < 0 then 0 else out

/-- `get_bancor_input`. -/
def getBancorInput (d : Doubles) (outReserve inpReserve out : ℤ) : ℤ :=
  let inp := d.bancorInput outReserve inpReserve out
  if inp < 0 then 0 else inp

/-- `direct_convert`: the exchange after it, and what it gives. -/
def directConvert (d : Doubles) (es : ExchangeState) (payment : Asset) (target : Symbol) :
    Result (ExchangeState × Asset) := do
  check .action (payment.symbol ≠ target) "cannot convert to the same symbol"
  let out ← Asset.make 0 target
  if payment.symbol = es.base.symbol ∧ target = es.quote.symbol then
    let out := { out with
      amount := getBancorOutput d es.base.amount es.quote.amount payment.amount }
    let base ← es.base.add payment
    let quote ← es.quote.sub out
    return ({ es with base, quote }, out)
  else if payment.symbol = es.quote.symbol ∧ target = es.base.symbol then
    let out := { out with
      amount := getBancorOutput d es.quote.amount es.base.amount payment.amount }
    let quote ← es.quote.add payment
    let base ← es.base.sub out
    return ({ es with base, quote }, out)
  else .error ⟨.action, "invalid conversion"⟩

-- ---------------------------------------------------------------------------
-- The supply
-- ---------------------------------------------------------------------------

/-- `core_symbol()`. -/
def State.getCoreSymbol (s : State) : Result Symbol := do
  check .action (s.coreSymbol ≠ .none) "system contract must first be initialized"
  return s.coreSymbol

/-- The row of the market, which is read to be written. -/
def State.getMarket (s : State) (message : String) : Result ExchangeState :=
  match s.market with
  | none => .error ⟨.action, message⟩
  | some es => .ok es

/-- Put `delta` more bytes up for sale. -/
def State.grow (s : State) (es : ExchangeState) (delta : ℤ) : State :=
  { s with
    maxRamSize := s.maxRamSize + delta
    market := some { es with base := { es.base with amount := es.base.amount + delta } } }

/-- `update_ram_supply`. The bytes of all blocks since the last increase are a 32-bit product. -/
def updateRamSupply (env : Env) (s : State) : Result State := do
  let cbt := TimePoint.toSlot env.now
  if cbt ≤ s.lastRamIncrease then return s
  else
    let newRam : ℕ := (cbt - s.lastRamIncrease) * s.newRamPerBlock.val % 2 ^ 32
    let es ← s.getMarket "cannot pass end iterator to modify"
    return { s.grow es newRam with lastRamIncrease := cbt }

/-- `setram`. -/
def setram (env : Env) (s : State) (maxRamSize : ℕ) : Outcome := do
  requireAuth env.toEnv self
  check .action (s.maxRamSize < maxRamSize) "ram may only be increased"
  check .action (maxRamSize < 1024 * 1024 * 1024 * 1024 * 1024) "ram size is unrealistic"
  check .action (s.totalRamBytesReserved < maxRamSize) "attempt to set max below reserved"
  let es ← s.getMarket "cannot pass end iterator to modify"
  return (s.grow es (maxRamSize - s.maxRamSize), [])

/-- `setramrate`. -/
def setramrate (env : Env) (s : State) (bytesPerBlock : Fin (2 ^ 16)) : Outcome := do
  requireAuth env.toEnv self
  let s ← updateRamSupply env s
  return ({ s with newRamPerBlock := bytesPerBlock }, [])

/-- `init`. -/
def init (env : Env) (s : State) (version : ℕ) (core : Symbol) : Outcome := do
  requireAuth env.toEnv self
  check .action (version = 0) "unsupported version for init action"
  check .action (s.coreSymbol = .none) "system contract has already been initialized"
  check .action s.market.isNone "ramcore symbol has already been initialized"
  match env.supply core.code with
  | none => .error ⟨.action, "unable to find key"⟩
  | some systemTokenSupply => do
    check .action (systemTokenSupply.symbol = core)
      "specified core symbol does not exist (precision mismatch)"
    check .action (0 < systemTokenSupply.amount) "system token supply must be greater than 0"
    let es : ExchangeState := {
      supply := ⟨100000000000000, ramcoreSymbol⟩
      base := ⟨s.maxRamSize - s.totalRamBytesReserved, ramSymbol⟩
      quote := ⟨systemTokenSupply.amount / 1000, core⟩ }
    return ({ s with coreSymbol := core, market := some es }, [.openBalance rexAccount core self])

-- ---------------------------------------------------------------------------
-- Buying and selling
-- ---------------------------------------------------------------------------

/-- The row of `receiver` with the bytes it bought, which may be a new row. -/
def boughtRow (t : Totals) (core : Symbol) (receiver : Name) (bytesOut : ℤ) :
    Result UserResources :=
  match t.find? receiver with
  | none => do
    payRow receiver
    let zero ← Asset.make 0 core
    return { owner := receiver, netWeight := zero, cpuWeight := zero, ramBytes := bytesOut }
  | some row => .ok { row with ramBytes := row.ramBytes + bytesOut }

/-- The fee of half a percent, rounded up. -/
def ramFee (amount : ℤ) : ℤ := (amount + 199) / 200

/-- `buyram`. A quantity so large that the rounding of its fee would wrap is more than the market
takes. -/
def buyram (d : Doubles) (env : Env) (s : State) (payer receiver : Name) (quant : Asset) :
    Outcome := do
  check .action (!env.isBlacklisted payer) "blacklisted"
  requireAuth env.toEnv payer
  let s ← updateRamSupply env s
  let core ← s.getCoreSymbol
  check .action (quant.symbol = core) "must buy ram with core token"
  check .action (0 < quant.amount) "must purchase a positive amount"
  let fee := { quant with amount := ramFee quant.amount }
  let quantAfterFee := { quant with amount := quant.amount - fee.amount }
  let sent := Sent.transfer payer ramAccount quantAfterFee "buy ram" ::
    if 0 < fee.amount then [.transfer payer ramfeeAccount fee "ram fee"] else []
  let es ← s.getMarket "ram market does not exist"
  let (es, out) ← directConvert d es quantAfterFee ramSymbol
  check .action (0 < out.amount) "must reserve a positive amount"
  let row ← boughtRow s.totals core receiver out.amount
  check .action env.bandwidthOk "the limits of the receiver are not taken"
  return ({ s with
    market := some es
    totalRamBytesReserved := s.totalRamBytesReserved + out.amount
    totalRamStake := s.totalRamStake + quantAfterFee.amount
    totals := s.totals.set row }, sent)

/-- `buyrambytes`. -/
def buyrambytes (d : Doubles) (env : Env) (s : State) (payer receiver : Name) (bytes : ℕ) :
    Outcome := do
  let es ← s.getMarket "cannot read the end of the table"
  let cost := getBancorInput d es.base.amount es.quote.amount bytes
  let quant ← Asset.make (d.costPlusFee cost) (← s.getCoreSymbol)
  buyram d env s payer receiver quant

/-- `sellram`. -/
def sellram (d : Doubles) (env : Env) (s : State) (account : Name) (bytes : ℤ) : Outcome := do
  check .action (env.hasAuth self ∨ env.hasAuth armoniaadmin) "non authorized"
  let s ← updateRamSupply env s
  check .action (0 < bytes) "cannot sell negative byte"
  match s.totals.find? account with
  | none => .error ⟨.action, "no resource row"⟩
  | some row => do
    check .action (bytes ≤ row.ramBytes) "insufficient quota"
    let es ← s.getMarket "cannot pass end iterator to modify"
    let core ← s.getCoreSymbol
    let payment ← Asset.make bytes ramSymbol
    let (es, tokensOut) ← directConvert d es payment core
    check .action (1 < tokensOut.amount) "token amount received from selling ram is too low"
    let stake := s.totalRamStake - tokensOut.amount
    check .stake (0 ≤ stake) "error, attempt to unstake more tokens than previously staked"
    check .action env.bandwidthOk "the limits of the account are not taken"
    let fee ← Asset.make (ramFee tokensOut.amount) core
    let sent := Sent.transfer ramAccount account tokensOut "sell ram" ::
      if 0 < fee.amount then [.transfer account ramfeeAccount fee "sell ram fee"] else []
    return ({ s with
      market := some es
      totalRamBytesReserved := s.totalRamBytesReserved - bytes
      totalRamStake := stake
      totals := s.totals.set { row with ramBytes := row.ramBytes - bytes } }, sent)

-- ---------------------------------------------------------------------------
-- Transactions
-- ---------------------------------------------------------------------------

inductive Action where
  | buyram (payer receiver : Name) (quant : Asset)
  | buyrambytes (payer receiver : Name) (bytes : ℕ)
  | sellram (account : Name) (bytes : ℤ)
  | setram (maxRamSize : ℕ)
  | setramrate (bytesPerBlock : Fin (2 ^ 16))

/-- An action and what the chain tells it. -/
structure Transaction where
  env : Env
  action : Action

def perform (d : Doubles) (env : Env) (s : State) : Action → Outcome
  | .buyram payer receiver quant => buyram d env s payer receiver quant
  | .buyrambytes payer receiver bytes => buyrambytes d env s payer receiver bytes
  | .sellram account bytes => sellram d env s account bytes
  | .setram maxRamSize => setram env s maxRamSize
  | .setramrate bytesPerBlock => setramrate env s bytesPerBlock

/-- The token contract takes the action: a transfer is never one to the sender itself. -/
def Env.takes (env : Env) (m : Sent) : Bool :=
  (match m with
    | .transfer sender receiver _ _ => sender ≠ receiver
    | .openBalance _ _ _ => true) && env.sentOk m

/-- Perform a transaction, which is undone when the token contract does not take what it sends. -/
def transact (d : Doubles) (tx : Transaction) (s : State) : Outcome := do
  let (s', sent) ← perform d tx.env s tx.action
  check .sent (∀ m ∈ sent, tx.env.takes m) "a sent action failed"
  return (s', sent)

abbrev State.final (d : Doubles) (s : State) (txs : List Transaction) : State :=
  Run.final (transact d) s txs

end Amax.Ram
