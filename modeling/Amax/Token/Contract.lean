-- SUMMARY: The token contract: creating, issuing, slashing, retiring and moving tokens, and its blacklist.
import Amax.Eosio.Holdings

/-! # The token contract

The tables and actions of `amax.token`. An action puts out the accounts it
notifies. -/

namespace Amax.Token

-- ---------------------------------------------------------------------------
-- State
-- ---------------------------------------------------------------------------

def amax : Name := 3786911560107032576
def amaxDao : Name := 3786911718282625024
def amaxToken : Name := 3786912000615170048
def armoniaadmin : Name := 3883591311626640688
def aaaaaaaaaaaa : Name := 3570337562653461600
def oooo : Name := 11901113859047424000

example : [amax, amaxDao, amaxToken, armoniaadmin, aaaaaaaaaaaa, oooo].map nameToString =
    ["amax", "amax.dao", "amax.token", "armoniaadmin", "aaaaaaaaaaaa", "oooo"] := by
  decide +kernel

/-- A row of `accounts`; its scope is `owner`. -/
structure Account where
  owner : Name
  balance : Asset
  deriving DecidableEq

/-- A row of `stat`. -/
structure CurrencyStats where
  supply : Asset
  maxSupply : Asset
  issuer : Name
  deriving DecidableEq

/-- A row of `blacklist`. -/
structure BlacklistT where
  account : Name
  deriving DecidableEq

structure State where
  accounts : Holdings Account.owner Account.balance := .empty
  stats : Currencies CurrencyStats.supply := .empty
  blacklist : Table BlacklistT.account := .empty

/-- What one action is told by the chain. -/
structure Env where
  self : Name := amaxToken
  hasAuth : Name → Bool := fun _ => false
  isAccount : Name → Bool := fun _ => true
  /-- The blacklist of the account `amax.token`, which a contract of another account reads. -/
  tokenBlacklist : Name → Bool := fun _ => false
  /-- The blacklist of `amax.degov`. -/
  degovBlacklist : Name → Bool := fun _ => false

abbrev Outcome := Result (State × List Name)

abbrev Accounts := Holdings Account.owner Account.balance

def requireAuth (env : Env) (n : Name) : Result Unit :=
  check .action (env.hasAuth n) ("missing authority of " ++ nameToString n)

/-- `_is_blacklisted`. -/
def isBlacklisted (env : Env) (s : State) (target tokenContract : Name) : Bool :=
  let selfBlacklisted :=
    if tokenContract = env.self then (s.blacklist.find? target).isSome
    else env.tokenBlacklist target
  selfBlacklisted || env.degovBlacklist target

-- ---------------------------------------------------------------------------
-- Balances
-- ---------------------------------------------------------------------------

/-- `sub_balance`. -/
def subBalance (accounts : Accounts) (owner : Name) (value : Asset) : Result Accounts :=
  match accounts.find? (toLex (owner, value.symbol.code)) with
  | none => .error ⟨.action, "no balance object found"⟩
  | some row => do
    check .action (value.amount ≤ row.balance.amount) "overdrawn balance"
    let balance ← row.balance.sub value
    return accounts.set { row with balance }

/-- `add_balance`. -/
def addBalance (accounts : Accounts) (owner : Name) (value : Asset) : Result Accounts :=
  match accounts.find? (toLex (owner, value.symbol.code)) with
  | none => .ok (accounts.set { owner, balance := value })
  | some row => do
    let balance ← row.balance.add value
    return accounts.set { row with balance }

-- ---------------------------------------------------------------------------
-- Currencies
-- ---------------------------------------------------------------------------

def create (env : Env) (s : State) (issuer : Name) (maximumSupply : Asset) : Outcome := do
  requireAuth env env.self
  check .action (env.isAccount issuer) "issuer account does not exist"
  let sym := maximumSupply.symbol
  check .action sym.isValid "invalid symbol name"
  check .action maximumSupply.isValid "invalid supply"
  check .action (0 < maximumSupply.amount) "max-supply must be positive"
  check .action ((s.stats.find? sym.code).isNone) "token with symbol already exists"
  let st := { supply := ⟨0, sym⟩, maxSupply := maximumSupply, issuer }
  return ({ s with stats := s.stats.set st }, [])

def issue (env : Env) (s : State) (issuer : Name) (quantity : Asset) (memo : String) :
    Outcome := do
  let sym := quantity.symbol
  check .action sym.isValid "invalid symbol name"
  check .action (memo.utf8ByteSize ≤ 256) "memo has more than 256 bytes"
  match s.stats.find? sym.code with
  | none =>
    .error ⟨.action, "token with symbol does not exist, create token before issue"⟩
  | some st => do
    check .action (issuer = st.issuer) "tokens can only be issued to issuer account"
    requireAuth env st.issuer
    check .action quantity.isValid "invalid quantity"
    check .action (0 < quantity.amount) "must issue positive quantity"
    check .action (quantity.symbol = st.supply.symbol) "symbol precision mismatch"
    check .action (quantity.amount ≤ st.maxSupply.amount - st.supply.amount)
      "quantity exceeds available supply"
    let supply ← st.supply.add quantity
    let accounts ← addBalance s.accounts st.issuer quantity
    return ({ s with stats := s.stats.set { st with supply }, accounts }, [])

def setissue (env : Env) (s : State) (issuer : Name) (sym : Symbol) (newissuer : Name) :
    Outcome := do
  check .action (issuer ≠ newissuer) "tokens issuer account is same"
  check .action sym.isValid "invalid symbol name"
  match s.stats.find? sym.code with
  | none =>
    .error ⟨.action, "token with symbol does not exist, create token before issue"⟩
  | some st => do
    check .action (issuer = st.issuer) "tokens can only be issued to issuer account"
    requireAuth env st.issuer
    check .action (sym = st.supply.symbol) "symbol precision mismatch"
    return ({ s with stats := s.stats.set { st with issuer := newissuer } }, [])

def slashblack (env : Env) (s : State) (target : Name) (quantity : Asset) (memo : String) :
    Outcome := do
  check .action (env.hasAuth amax || env.hasAuth armoniaadmin || env.hasAuth amaxDao)
    "no auth to operate"
  check .action (isBlacklisted env s target env.self) "blacklisted acccounts only!"
  check .action (memo.utf8ByteSize ≤ 256) "memo has more than 256 bytes"
  check .action quantity.isValid "invalid quantity"
  check .action (0 < quantity.amount) "must slash positive quantity"
  match s.accounts.find? (toLex (target, quantity.symbol.code)) with
  | none => .error ⟨.action, "no balance object found"⟩
  | some row => do
    check .action (← quantity.le row.balance) "overdrawn balance"
    let balance ← row.balance.sub quantity
    match s.stats.find? quantity.symbol.code with
    | none => .error ⟨.action, "token with symbol does not exist"⟩
    | some st => do
      let supply ← st.supply.sub quantity
      return ({ s with
        accounts := s.accounts.set { row with balance }
        stats := s.stats.set { st with supply } }, [target])

def retire (env : Env) (s : State) (quantity : Asset) (memo : String) : Outcome := do
  let sym := quantity.symbol
  check .action sym.isValid "invalid symbol name"
  check .action (memo.utf8ByteSize ≤ 256) "memo has more than 256 bytes"
  match s.stats.find? sym.code with
  | none => .error ⟨.action, "token with symbol does not exist"⟩
  | some st => do
    requireAuth env st.issuer
    check .action quantity.isValid "invalid quantity"
    check .action (0 < quantity.amount) "must retire positive quantity"
    check .action (quantity.symbol = st.supply.symbol) "symbol precision mismatch"
    -- the supply goes down before the balance is looked at
    let supply ← st.supply.sub quantity
    let accounts ← subBalance s.accounts st.issuer quantity
    return ({ s with stats := s.stats.set { st with supply }, accounts }, [])

-- ---------------------------------------------------------------------------
-- Accounts
-- ---------------------------------------------------------------------------

def transfer (env : Env) (s : State) (sender receiver : Name) (quantity : Asset)
    (memo : String) : Outcome := do
  requireAuth env sender
  check .action (sender ≠ receiver) "cannot transfer to self"
  check .action (env.isAccount receiver) "to account does not exist"
  check .action (sender = aaaaaaaaaaaa → receiver = amax) "can only transfer to amax"
  check .action (isBlacklisted env s sender amaxToken → receiver = oooo)
    "blacklisted accounts can only transfer to oooo"
  match s.stats.find? quantity.symbol.code with
  | none => .error ⟨.action, "unable to find key"⟩
  | some st => do
    check .action quantity.isValid "invalid quantity"
    check .action (0 < quantity.amount) "must transfer positive quantity"
    check .action (quantity.symbol = st.supply.symbol) "symbol precision mismatch"
    check .action (memo.utf8ByteSize ≤ 256) "memo has more than 256 bytes"
    let accounts ← subBalance s.accounts sender quantity
    let accounts ← addBalance accounts receiver quantity
    return ({ s with accounts }, [sender, receiver])

def blacklist (env : Env) (s : State) (targets : List Name) (toAdd : Bool) : Outcome := do
  check .action (env.hasAuth env.self || env.hasAuth armoniaadmin) "not authorized"
  check .action (targets.length ≤ 50) ("overiszed targets: " ++ targets.length.repr)
  if toAdd then
    let add (t : Table BlacklistT.account) (target : Name) :=
      if (t.find? target).isSome then t else t.set ⟨target⟩
    return ({ s with blacklist := targets.foldl add s.blacklist }, [])
  else
    return ({ s with blacklist := targets.foldl Table.erase s.blacklist }, [])

/-- `open`. -/
def open_ (env : Env) (s : State) (owner : Name) (symbol : Symbol) (ramPayer : Name) :
    Outcome := do
  requireAuth env ramPayer
  check .action (env.isAccount owner) "owner account does not exist"
  match s.stats.find? symbol.code with
  | none => .error ⟨.action, "symbol does not exist"⟩
  | some st => do
    check .action (st.supply.symbol = symbol) "symbol precision mismatch"
    match s.accounts.find? (toLex (owner, symbol.code)) with
    | some _ => return (s, [])
    | none => do
      let balance ← Asset.make 0 symbol
      return ({ s with accounts := s.accounts.set { owner, balance } }, [])

def close (env : Env) (s : State) (owner : Name) (symbol : Symbol) : Outcome := do
  requireAuth env owner
  match s.accounts.find? (toLex (owner, symbol.code)) with
  | none =>
    .error ⟨.action,
      "Balance row already deleted or never existed. Action won't have any effect."⟩
  | some row => do
    check .action (row.balance.amount = 0) "Cannot close because the balance is not zero."
    return ({ s with accounts := s.accounts.erase (toLex (owner, symbol.code)) }, [])

-- ---------------------------------------------------------------------------
-- Transactions
-- ---------------------------------------------------------------------------

inductive Action where
  | create (issuer : Name) (maximumSupply : Asset)
  | issue (issuer : Name) (quantity : Asset) (memo : String)
  | setissue (issuer : Name) (sym : Symbol) (newissuer : Name)
  | slashblack (target : Name) (quantity : Asset) (memo : String)
  | retire (quantity : Asset) (memo : String)
  | transfer (sender receiver : Name) (quantity : Asset) (memo : String)
  | blacklist (targets : List Name) (toAdd : Bool)
  | open_ (owner : Name) (symbol : Symbol) (ramPayer : Name)
  | close (owner : Name) (symbol : Symbol)

/-- An action and what the chain tells it. -/
structure Transaction where
  env : Env
  action : Action

def transact (tx : Transaction) (s : State) : Outcome :=
  match tx.action with
  | .create issuer maximumSupply => create tx.env s issuer maximumSupply
  | .issue issuer quantity memo => issue tx.env s issuer quantity memo
  | .setissue issuer sym newissuer => setissue tx.env s issuer sym newissuer
  | .slashblack target quantity memo => slashblack tx.env s target quantity memo
  | .retire quantity memo => retire tx.env s quantity memo
  | .transfer sender receiver quantity memo => transfer tx.env s sender receiver quantity memo
  | .blacklist targets toAdd => blacklist tx.env s targets toAdd
  | .open_ owner symbol ramPayer => open_ tx.env s owner symbol ramPayer
  | .close owner symbol => close tx.env s owner symbol

abbrev State.final (s : State) (txs : List Transaction) : State := Run.final transact s txs

-- ---------------------------------------------------------------------------
-- Successful actions
-- ---------------------------------------------------------------------------

section Success

variable {env : Env} {s s' : State} {out : List Name} {quantity : Asset} {memo : String}

theorem create_ok {issuer : Name} {maximumSupply : Asset}
    (h : create env s issuer maximumSupply = .ok (s', out)) :
    maximumSupply.symbol.isValid = true ∧ maximumSupply.isValid = true ∧
      0 < maximumSupply.amount ∧ s.stats.find? maximumSupply.symbol.code = none ∧
      s' = { s with
        stats := s.stats.set
          { supply := ⟨0, maximumSupply.symbol⟩, maxSupply := maximumSupply, issuer } } := by
  simp only [create, requireAuth, Except.bind_ok_iff, check_ok_iff, exists_const,
    Except.pure_ok_iff, Prod.mk.injEq, Option.isNone_iff_eq_none] at h
  obtain ⟨-, -, hsym, hvalid, hpos, hnone, rfl, -⟩ := h
  exact ⟨hsym, hvalid, hpos, hnone, rfl⟩

/-- Tokens are issued to the issuer, within the maximum. -/
theorem issue_ok {issuer : Name} (h : issue env s issuer quantity memo = .ok (s', out)) :
    ∃ st accounts, s.stats.find? quantity.symbol.code = some st ∧ issuer = st.issuer ∧
      0 < quantity.amount ∧ quantity.symbol = st.supply.symbol ∧
      quantity.amount ≤ st.maxSupply.amount - st.supply.amount ∧
      addBalance s.accounts st.issuer quantity = .ok accounts ∧
      s' = { s with
        stats := s.stats.set
          { st with supply := ⟨st.supply.amount + quantity.amount, st.supply.symbol⟩ },
        accounts } := by
  simp only [issue, requireAuth, Except.bind_ok_iff, check_ok_iff, exists_const] at h
  obtain ⟨-, -, h⟩ := h
  cases hst : s.stats.find? quantity.symbol.code with
  | none => simp [hst] at h
  | some st =>
    simp only [hst, Except.bind_ok_iff, check_ok_iff, exists_const, Asset.add_ok_iff,
      Except.pure_ok_iff, Prod.mk.injEq] at h
    obtain ⟨hissuer, -, -, hpos, hsym, hcap, _, ⟨-, -, rfl⟩, accounts, hadd, rfl, -⟩ := h
    exact ⟨st, accounts, rfl, hissuer, hpos, hsym, hcap, hadd, rfl⟩

theorem setissue_ok {issuer newissuer : Name} {sym : Symbol}
    (h : setissue env s issuer sym newissuer = .ok (s', out)) :
    ∃ st, s.stats.find? sym.code = some st ∧
      s' = { s with stats := s.stats.set { st with issuer := newissuer } } := by
  simp only [setissue, Except.bind_ok_iff] at h
  obtain ⟨-, -, -, -, h⟩ := h
  cases hst : s.stats.find? sym.code with
  | none => simp [hst] at h
  | some st =>
    simp only [hst, Except.bind_ok_iff, Except.pure_ok_iff, Prod.mk.injEq] at h
    obtain ⟨-, -, -, -, -, -, rfl, -⟩ := h
    exact ⟨st, rfl, rfl⟩

/-- An administrator takes tokens from a blacklisted account, and from the supply. -/
theorem slashblack_ok {target : Name} (h : slashblack env s target quantity memo = .ok (s', out)) :
    (env.hasAuth amax || env.hasAuth armoniaadmin || env.hasAuth amaxDao) = true ∧
      isBlacklisted env s target env.self = true ∧ 0 < quantity.amount ∧
      ∃ row st, s.accounts.find? (toLex (target, quantity.symbol.code)) = some row ∧
        s.stats.find? quantity.symbol.code = some st ∧ quantity.amount ≤ row.balance.amount ∧
        s' = { s with
          accounts := s.accounts.set
            { row with balance := ⟨row.balance.amount - quantity.amount, row.balance.symbol⟩ },
          stats := s.stats.set
            { st with supply := ⟨st.supply.amount - quantity.amount, st.supply.symbol⟩ } } := by
  simp only [slashblack, Except.bind_ok_iff, check_ok_iff, exists_const] at h
  obtain ⟨hadmin, hblack, -, -, hpos, h⟩ := h
  cases hrow : s.accounts.find? (toLex (target, quantity.symbol.code)) with
  | none => simp [hrow] at h
  | some row =>
    simp only [hrow, Except.bind_ok_iff, check_ok_iff, exists_const, Asset.le_ok_iff,
      Asset.sub_ok_iff] at h
    obtain ⟨_, ⟨-, rfl⟩, hle, _, ⟨-, -, rfl⟩, h⟩ := h
    cases hst : s.stats.find? quantity.symbol.code with
    | none => simp [hst] at h
    | some st =>
      simp only [hst, Except.bind_ok_iff, Asset.sub_ok_iff, Except.pure_ok_iff,
        Prod.mk.injEq] at h
      obtain ⟨_, ⟨-, -, rfl⟩, rfl, -⟩ := h
      exact ⟨hadmin, hblack, hpos, row, st, rfl, rfl, of_decide_eq_true hle, rfl⟩

/-- The issuer takes tokens out of its own balance, and out of the supply. -/
theorem retire_ok (h : retire env s quantity memo = .ok (s', out)) :
    ∃ st accounts, s.stats.find? quantity.symbol.code = some st ∧ env.hasAuth st.issuer = true ∧
      0 < quantity.amount ∧ quantity.symbol = st.supply.symbol ∧
      subBalance s.accounts st.issuer quantity = .ok accounts ∧
      s' = { s with
        stats := s.stats.set
          { st with supply := ⟨st.supply.amount - quantity.amount, st.supply.symbol⟩ },
        accounts } := by
  simp only [retire, requireAuth, Except.bind_ok_iff, check_ok_iff, exists_const] at h
  obtain ⟨-, -, h⟩ := h
  cases hst : s.stats.find? quantity.symbol.code with
  | none => simp [hst] at h
  | some st =>
    simp only [hst, Except.bind_ok_iff, check_ok_iff, exists_const, Asset.sub_ok_iff,
      Except.pure_ok_iff, Prod.mk.injEq] at h
    obtain ⟨hauth, -, hpos, hsym, _, ⟨-, -, rfl⟩, accounts, hsub, rfl, -⟩ := h
    exact ⟨st, accounts, rfl, hauth, hpos, hsym, hsub, rfl⟩

/-- The sender signs a transfer, and may send to `oooo` alone while it is blacklisted. -/
theorem transfer_ok {sender receiver : Name}
    (h : transfer env s sender receiver quantity memo = .ok (s', out)) :
    env.hasAuth sender = true ∧ sender ≠ receiver ∧
      (isBlacklisted env s sender amaxToken = true → receiver = oooo) ∧ 0 < quantity.amount ∧
      ∃ st accounts accounts', s.stats.find? quantity.symbol.code = some st ∧
        quantity.symbol = st.supply.symbol ∧ subBalance s.accounts sender quantity = .ok accounts ∧
        addBalance accounts receiver quantity = .ok accounts' ∧
        s' = { s with accounts := accounts' } := by
  simp only [transfer, requireAuth, Except.bind_ok_iff, check_ok_iff, exists_const] at h
  obtain ⟨hauth, hne, -, -, hblack, h⟩ := h
  cases hst : s.stats.find? quantity.symbol.code with
  | none => simp [hst] at h
  | some st =>
    simp only [hst, Except.bind_ok_iff, check_ok_iff, exists_const, Except.pure_ok_iff,
      Prod.mk.injEq] at h
    obtain ⟨-, hpos, hsym, -, accounts, hsub, accounts', hadd, rfl, -⟩ := h
    exact ⟨hauth, hne, hblack, hpos, st, accounts, accounts', rfl, hsym, hsub, hadd, rfl⟩

theorem blacklist_ok {targets : List Name} {toAdd : Bool}
    (h : blacklist env s targets toAdd = .ok (s', out)) :
    s'.accounts = s.accounts ∧ s'.stats = s.stats := by
  simp only [blacklist, Except.bind_ok_iff] at h
  obtain ⟨-, -, -, -, h⟩ := h
  split_ifs at h
  all_goals
    simp only [Except.pure_ok_iff, Prod.mk.injEq] at h
    obtain ⟨rfl, -⟩ := h
    exact ⟨rfl, rfl⟩

/-- A balance of nothing is opened where there is none. -/
theorem open_ok {owner ramPayer : Name} {symbol : Symbol}
    (h : open_ env s owner symbol ramPayer = .ok (s', out)) :
    s' = s ∨ ∃ st, s.stats.find? symbol.code = some st ∧ st.supply.symbol = symbol ∧
      s.accounts.find? (toLex (owner, symbol.code)) = none ∧
      s' = { s with accounts := s.accounts.set { owner, balance := ⟨0, symbol⟩ } } := by
  simp only [open_, requireAuth, Except.bind_ok_iff, check_ok_iff, exists_const] at h
  obtain ⟨-, -, h⟩ := h
  cases hst : s.stats.find? symbol.code with
  | none => simp [hst] at h
  | some st =>
    simp only [hst, Except.bind_ok_iff, check_ok_iff, exists_const] at h
    obtain ⟨hsym, h⟩ := h
    cases hrow : s.accounts.find? (toLex (owner, symbol.code)) with
    | some row =>
      simp only [hrow, Except.pure_ok_iff, Prod.mk.injEq] at h
      exact .inl h.1.symm
    | none =>
      simp only [hrow, Except.bind_ok_iff, Asset.make_ok_iff, Except.pure_ok_iff,
        Prod.mk.injEq] at h
      obtain ⟨_, ⟨-, -, rfl⟩, rfl, -⟩ := h
      exact .inr ⟨st, rfl, hsym, rfl, rfl⟩

/-- A balance of nothing is closed. -/
theorem close_ok {owner : Name} {symbol : Symbol}
    (h : close env s owner symbol = .ok (s', out)) :
    ∃ row, s.accounts.find? (toLex (owner, symbol.code)) = some row ∧ row.balance.amount = 0 ∧
      s' = { s with accounts := s.accounts.erase (toLex (owner, symbol.code)) } := by
  simp only [close, requireAuth, Except.bind_ok_iff, check_ok_iff, exists_const] at h
  obtain ⟨-, h⟩ := h
  cases hrow : s.accounts.find? (toLex (owner, symbol.code)) with
  | none => simp [hrow] at h
  | some row =>
    simp only [hrow, Except.bind_ok_iff, check_ok_iff, exists_const, Except.pure_ok_iff,
      Prod.mk.injEq] at h
    obtain ⟨hzero, rfl, -⟩ := h
    exact ⟨row, rfl, hzero, rfl⟩

end Success

end Amax.Token
