-- SUMMARY: What every action of the token contract moves into or out of an account, who has to agree to it, and when a transfer succeeds.
import Amax.Token.Supply

/-! # Movements of the token contract

An account loses tokens in a transfer or a retirement it authorises, or because
it is blacklisted. In turn a transfer of tokens it holds is refused for no
reason of the arithmetic: no sum of balances passes the supply. -/

namespace Amax.Token

-- ---------------------------------------------------------------------------
-- Balances
-- ---------------------------------------------------------------------------

section Balances

variable {accounts accounts' : Accounts} {owner : Name} {value : Asset}

theorem subBalance_amount (hok : subBalance accounts owner value = .ok accounts') (n : Name)
    (c : List Char) : accounts'.amount n c =
      accounts.amount n c - if owner = n ∧ value.symbol.code = c then value.amount else 0 := by
  unfold subBalance at hok
  cases hrow : accounts.find? (toLex (owner, value.symbol.code)) with
  | none => simp [hrow] at hok
  | some row =>
    simp only [hrow, Except.bind_ok_iff, check_ok_iff, exists_const, Asset.sub_ok_iff,
      Except.pure_ok_iff] at hok
    obtain ⟨-, _, ⟨-, -, rfl⟩, rfl⟩ := hok
    have hamount := Holdings.amount_set_row (r := { row with
      balance := ⟨row.balance.amount - value.amount, row.balance.symbol⟩ }) hrow rfl rfl
      (sub_eq_add_neg _ _) n c
    rw [hamount]
    split_ifs <;> ring

theorem addBalance_amount (hok : addBalance accounts owner value = .ok accounts') (n : Name)
    (c : List Char) : accounts'.amount n c =
      accounts.amount n c + if owner = n ∧ value.symbol.code = c then value.amount else 0 := by
  unfold addBalance at hok
  cases hrow : accounts.find? (toLex (owner, value.symbol.code)) with
  | none =>
    simp only [hrow, Except.ok.injEq] at hok
    subst hok
    exact Holdings.amount_set_new (r := (⟨owner, value⟩ : Account)) hrow n c
  | some row =>
    simp only [hrow, Except.bind_ok_iff, Asset.add_ok_iff, Except.pure_ok_iff] at hok
    obtain ⟨_, ⟨-, -, rfl⟩, rfl⟩ := hok
    exact Holdings.amount_set_row (r := { row with
      balance := ⟨row.balance.amount + value.amount, row.balance.symbol⟩ }) hrow rfl rfl rfl n c

end Balances

-- ---------------------------------------------------------------------------
-- Movements
-- ---------------------------------------------------------------------------

/-- What a successful action moves into the account `n`, less what it moves out, of the symbol
code `c`. -/
def Action.movement (n : Name) (c : List Char) (s : State) : Action → ℤ
  | .issue issuer quantity _ =>
    if issuer = n ∧ quantity.symbol.code = c then quantity.amount else 0
  | .slashblack target quantity _ =>
    -if target = n ∧ quantity.symbol.code = c then quantity.amount else 0
  | .retire quantity _ =>
    -if (s.stats.find? quantity.symbol.code).map (·.issuer) = some n ∧ quantity.symbol.code = c then
      quantity.amount else 0
  | .transfer sender receiver quantity _ =>
    (if receiver = n ∧ quantity.symbol.code = c then quantity.amount else 0) -
      if sender = n ∧ quantity.symbol.code = c then quantity.amount else 0
  | _ => 0

section Movements

variable {env : Env} {s s' : State} {out : List Name}

theorem issue_amount {issuer : Name} {quantity : Asset} {memo : String}
    (hok : issue env s issuer quantity memo = .ok (s', out)) (n : Name) (c : List Char) :
    s'.accounts.amount n c = s.accounts.amount n c +
      (Action.issue issuer quantity memo).movement n c s := by
  obtain ⟨st, accounts, -, rfl, -, -, -, hadd, rfl⟩ := issue_ok hok
  exact addBalance_amount hadd n c

theorem slashblack_amount {target : Name} {quantity : Asset} {memo : String}
    (hok : slashblack env s target quantity memo = .ok (s', out)) (n : Name) (c : List Char) :
    s'.accounts.amount n c = s.accounts.amount n c +
      (Action.slashblack target quantity memo).movement n c s := by
  obtain ⟨-, -, -, row, st, hrow, -, -, rfl⟩ := slashblack_ok hok
  have hamount := Holdings.amount_set_row (r := { row with
    balance := ⟨row.balance.amount - quantity.amount, row.balance.symbol⟩ }) hrow rfl rfl
    (sub_eq_add_neg _ _) n c
  simp only [Action.movement]
  rw [hamount]
  split_ifs <;> ring

theorem retire_amount {quantity : Asset} {memo : String}
    (hok : retire env s quantity memo = .ok (s', out)) (n : Name) (c : List Char) :
    s'.accounts.amount n c = s.accounts.amount n c +
      (Action.retire quantity memo).movement n c s := by
  obtain ⟨st, accounts, hst, -, -, -, hsub, rfl⟩ := retire_ok hok
  simp only [Action.movement, hst, Option.map_some, Option.some.injEq, ← sub_eq_add_neg]
  exact subBalance_amount hsub n c

theorem transfer_amount {sender receiver : Name} {quantity : Asset} {memo : String}
    (hok : transfer env s sender receiver quantity memo = .ok (s', out)) (n : Name)
    (c : List Char) : s'.accounts.amount n c = s.accounts.amount n c +
      (Action.transfer sender receiver quantity memo).movement n c s := by
  obtain ⟨-, -, -, -, st, accounts, accounts', -, -, hsub, hadd, rfl⟩ := transfer_ok hok
  simp only [Action.movement]
  rw [addBalance_amount hadd n c, subBalance_amount hsub n c]
  ring

theorem open_amount {owner ramPayer : Name} {symbol : Symbol}
    (hok : open_ env s owner symbol ramPayer = .ok (s', out)) (n : Name) (c : List Char) :
    s'.accounts.amount n c = s.accounts.amount n c := by
  rcases open_ok hok with rfl | ⟨st, -, -, hrow, rfl⟩
  · rfl
  · have hamount := Holdings.amount_set_new (r := (⟨owner, ⟨0, symbol⟩⟩ : Account)) hrow n c
    simp only [ite_self, add_zero] at hamount
    exact hamount

theorem close_amount {owner : Name} {symbol : Symbol}
    (hok : close env s owner symbol = .ok (s', out)) (n : Name) (c : List Char) :
    s'.accounts.amount n c = s.accounts.amount n c := by
  obtain ⟨row, hrow, hzero, rfl⟩ := close_ok hok
  exact Holdings.amount_erase hrow hzero

theorem create_accounts {issuer : Name} {maximumSupply : Asset}
    (hok : create env s issuer maximumSupply = .ok (s', out)) : s'.accounts = s.accounts := by
  obtain ⟨-, -, -, -, rfl⟩ := create_ok hok
  rfl

theorem setissue_accounts {issuer newissuer : Name} {sym : Symbol}
    (hok : setissue env s issuer sym newissuer = .ok (s', out)) : s'.accounts = s.accounts := by
  obtain ⟨st, -, rfl⟩ := setissue_ok hok
  rfl

theorem blacklist_accounts {targets : List Name} {toAdd : Bool}
    (hok : blacklist env s targets toAdd = .ok (s', out)) : s'.accounts = s.accounts := by
  exact (blacklist_ok hok).1

/-- The balance of every account changes by the movement of the action. -/
theorem transact_amount {tx : Transaction} (hok : transact tx s = .ok (s', out)) (n : Name)
    (c : List Char) :
    s'.accounts.amount n c = s.accounts.amount n c + tx.action.movement n c s := by
  obtain ⟨env, action⟩ := tx
  cases action with
  | issue => exact issue_amount hok n c
  | slashblack => exact slashblack_amount hok n c
  | retire => exact retire_amount hok n c
  | transfer => exact transfer_amount hok n c
  | open_ => exact (open_amount hok n c).trans (add_zero _).symm
  | close => exact (close_amount hok n c).trans (add_zero _).symm
  | create => rw [create_accounts hok]; exact (add_zero _).symm
  | setissue => rw [setissue_accounts hok]; exact (add_zero _).symm
  | blacklist => rw [blacklist_accounts hok]; exact (add_zero _).symm

end Movements

-- ---------------------------------------------------------------------------
-- Consent
-- ---------------------------------------------------------------------------

/-- The ways an account may lose tokens: it transfers them itself, and only to `oooo` when it is
blacklisted; it retires them as the issuer; or it is blacklisted, and an administrator slashes
it. -/
def Transaction.MayTake (tx : Transaction) (s : State) (n : Name) : Prop :=
  match tx.action with
  | .transfer sender receiver _ _ =>
    sender = n ∧ tx.env.hasAuth n = true ∧
      (isBlacklisted tx.env s n amaxToken = true → receiver = oooo)
  | .retire quantity _ =>
    (s.stats.find? quantity.symbol.code).map (·.issuer) = some n ∧ tx.env.hasAuth n = true
  | .slashblack target _ _ =>
    target = n ∧ isBlacklisted tx.env s n tx.env.self = true ∧
      (tx.env.hasAuth amax || tx.env.hasAuth armoniaadmin || tx.env.hasAuth amaxDao) = true
  | _ => False

/-- The account that an action slashes. -/
def Action.slashed : Action → Option Name
  | .slashblack target _ _ => some target
  | _ => none

section Consent

variable {s s' : State} {tx : Transaction} {out : List Name} {n : Name} {c : List Char}

theorem mayTake_of_movement_neg (hok : transact tx s = .ok (s', out))
    (hneg : tx.action.movement n c s < 0) : tx.MayTake s n := by
  obtain ⟨env, action⟩ := tx
  cases action with
  | transfer sender receiver quantity memo =>
    obtain ⟨hauth, -, hblack, hpos, -⟩ := transfer_ok hok
    simp only [Action.movement] at hneg
    have hsender : sender = n := by
      by_contra hne
      rw [if_neg (fun h : sender = n ∧ _ => hne h.1), sub_zero] at hneg
      split_ifs at hneg <;> omega
    subst hsender
    exact ⟨rfl, hauth, hblack⟩
  | issue issuer quantity memo =>
    obtain ⟨st, accounts, -, -, hpos, -⟩ := issue_ok hok
    simp only [Action.movement] at hneg
    split_ifs at hneg <;> omega
  | slashblack target quantity memo =>
    obtain ⟨hadmin, hblack, -⟩ := slashblack_ok hok
    simp only [Action.movement] at hneg
    split_ifs at hneg with htarget
    · obtain ⟨rfl, -⟩ := htarget
      exact ⟨rfl, hblack, hadmin⟩
    · omega
  | retire quantity memo =>
    obtain ⟨st, accounts, hst, hauth, -⟩ := retire_ok hok
    simp only [Action.movement] at hneg
    split_ifs at hneg with hissuer
    · refine ⟨hissuer.1, ?_⟩
      rw [hst, Option.map_some, Option.some.injEq] at hissuer
      exact hissuer.1 ▸ hauth
    · omega
  | _ => exact absurd hneg (lt_irrefl 0)

/-- An account that neither signs nor is slashed loses nothing. -/
theorem amount_le (hok : transact tx s = .ok (s', out)) (hauth : tx.env.hasAuth n = false)
    (hslash : tx.action.slashed ≠ some n) : s.accounts.amount n c ≤ s'.accounts.amount n c := by
  rw [transact_amount hok]
  refine le_add_of_nonneg_right (not_lt.mp fun hneg => ?_)
  have htakes := mayTake_of_movement_neg hok hneg
  obtain ⟨env, action⟩ := tx
  cases action with
  | transfer => exact Bool.false_ne_true (hauth.symm.trans htakes.2.1)
  | retire => exact Bool.false_ne_true (hauth.symm.trans htakes.2)
  | slashblack => exact hslash (congrArg some htakes.1)
  | _ => exact htakes

end Consent

/-- In every run an account has what it had at first and what every action moved into it or out of
it, and no action moves anything out of it but a transfer or a retirement that it signs, or a slash
while it is blacklisted. -/
theorem balance_accounted (s : State) (txs : List Transaction) (n : Name) (c : List Char) :
    (s.final txs).accounts.amount n c =
        s.accounts.amount n c + Run.total transact (fun s tx => tx.action.movement n c s) s txs ∧
      ∀ (s : State) (tx : Transaction) (s' : State) (out : List Name),
        transact tx s = .ok (s', out) → tx.action.movement n c s < 0 → tx.MayTake s n := by
  refine ⟨?_, fun s tx s' out hok hneg => mayTake_of_movement_neg hok hneg⟩
  induction txs generalizing s with
  | nil => exact (add_zero _).symm
  | cons tx txs ih =>
    simp only [State.final, Run.final, Run.total] at ih ⊢
    rw [ih, ← add_assoc]
    congr 1
    cases hstep : transact tx s with
    | error e => rw [Run.next_error hstep, add_zero]
    | ok r => rw [Run.next_ok hstep, transact_amount hstep]

-- ---------------------------------------------------------------------------
-- Currencies
-- ---------------------------------------------------------------------------

/-- A currency that can be moved: its symbol is valid, and no supply passes what an asset holds. -/
structure CurrencyStats.Usable (st : CurrencyStats) : Prop where
  max_le : st.maxSupply.amount ≤ Asset.maxAmount
  symbol : st.supply.symbol.isValid = true

/-- From `s` to `s'` every currency keeps its symbol and its maximum, and a new one is usable. -/
structure KeepsCurrencies (s s' : State) : Prop where
  usable : ∀ st' ∈ s'.stats.rows, st'.Usable ∨ ∃ st ∈ s.stats.rows,
    st.supply.symbol = st'.supply.symbol ∧ st.maxSupply = st'.maxSupply
  kept : ∀ st ∈ s.stats.rows, ∃ st' ∈ s'.stats.rows, st'.supply.symbol = st.supply.symbol

section Currencies

variable {env : Env} {s s' : State} {out : List Name} {st st' : CurrencyStats}

theorem KeepsCurrencies.of_eq (h : s'.stats = s.stats) : KeepsCurrencies s s' :=
  ⟨fun st' hst' => .inr ⟨st', h ▸ hst', rfl, rfl⟩, fun st hst => ⟨st, h ▸ hst, rfl⟩⟩

/-- A row that takes the place of another one of its symbol. -/
theorem KeepsCurrencies.modify {code : List Char} (hst : s.stats.find? code = some st)
    (h : s'.stats = s.stats.set st') (hsym : st'.supply.symbol = st.supply.symbol)
    (hmax : st'.maxSupply = st.maxSupply) : KeepsCurrencies s s' := by
  have hmem := Table.mem_of_find? hst
  refine ⟨fun u hu => ?_, fun u hu => ?_⟩
  · rw [h] at hu
    rcases Table.mem_set.mp hu with rfl | ⟨hu, -⟩
    · exact .inr ⟨st, hmem, hsym.symm, hmax.symm⟩
    · exact .inr ⟨u, hu, rfl, rfl⟩
  · rw [h]
    by_cases hcode : u.supply.symbol.code = st'.supply.symbol.code
    · refine ⟨st', Table.mem_set.mpr (.inl rfl), ?_⟩
      have hfind := Table.find?_of_mem hu
      rw [hcode, hsym, Table.key_of_find? hst, hst] at hfind
      rw [hsym, Option.some.inj hfind]
    · exact ⟨u, Table.mem_set.mpr (.inr ⟨hu, hcode⟩), rfl⟩

theorem create_keepsCurrencies {issuer : Name} {maximumSupply : Asset}
    (hok : create env s issuer maximumSupply = .ok (s', out)) : KeepsCurrencies s s' := by
  obtain ⟨hsym, hvalid, -, hnone, rfl⟩ := create_ok hok
  refine ⟨fun st' hst' => ?_,
    fun st hst => ⟨st, Table.mem_set.mpr (.inr ⟨hst, fun hcode => ?_⟩), rfl⟩⟩
  · rcases Table.mem_set.mp hst' with rfl | ⟨hst', -⟩
    · simp only [Asset.isValid, Asset.isAmountWithinRange, Bool.and_eq_true,
        decide_eq_true_eq] at hvalid
      exact .inl ⟨hvalid.1.2, hsym⟩
    · exact .inr ⟨st', hst', rfl, rfl⟩
  · exact Table.find?_eq_none_iff.mp hnone st hst hcode

theorem issue_keepsCurrencies {issuer : Name} {quantity : Asset} {memo : String}
    (hok : issue env s issuer quantity memo = .ok (s', out)) : KeepsCurrencies s s' := by
  obtain ⟨st, accounts, hst, -, -, -, -, -, rfl⟩ := issue_ok hok
  exact .modify hst rfl rfl rfl

theorem setissue_keepsCurrencies {issuer newissuer : Name} {sym : Symbol}
    (hok : setissue env s issuer sym newissuer = .ok (s', out)) : KeepsCurrencies s s' := by
  obtain ⟨st, hst, rfl⟩ := setissue_ok hok
  exact .modify hst rfl rfl rfl

theorem slashblack_keepsCurrencies {target : Name} {quantity : Asset} {memo : String}
    (hok : slashblack env s target quantity memo = .ok (s', out)) : KeepsCurrencies s s' := by
  obtain ⟨-, -, -, row, st, -, hst, -, rfl⟩ := slashblack_ok hok
  exact .modify hst rfl rfl rfl

theorem retire_keepsCurrencies {quantity : Asset} {memo : String}
    (hok : retire env s quantity memo = .ok (s', out)) : KeepsCurrencies s s' := by
  obtain ⟨st, accounts, hst, -, -, -, -, rfl⟩ := retire_ok hok
  exact .modify hst rfl rfl rfl

theorem transfer_stats {sender receiver : Name} {quantity : Asset} {memo : String}
    (hok : transfer env s sender receiver quantity memo = .ok (s', out)) :
    s'.stats = s.stats := by
  obtain ⟨-, -, -, -, st, accounts, accounts', -, -, -, -, rfl⟩ := transfer_ok hok
  rfl

theorem blacklist_stats {targets : List Name} {toAdd : Bool}
    (hok : blacklist env s targets toAdd = .ok (s', out)) : s'.stats = s.stats := by
  exact (blacklist_ok hok).2

theorem open_stats {owner ramPayer : Name} {symbol : Symbol}
    (hok : open_ env s owner symbol ramPayer = .ok (s', out)) : s'.stats = s.stats := by
  rcases open_ok hok with rfl | ⟨st, -, -, -, rfl⟩ <;> rfl

theorem close_stats {owner : Name} {symbol : Symbol}
    (hok : close env s owner symbol = .ok (s', out)) : s'.stats = s.stats := by
  obtain ⟨row, -, -, rfl⟩ := close_ok hok
  rfl

theorem transact_keepsCurrencies {tx : Transaction} (hok : transact tx s = .ok (s', out)) :
    KeepsCurrencies s s' := by
  obtain ⟨env, action⟩ := tx
  cases action with
  | create => exact create_keepsCurrencies hok
  | issue => exact issue_keepsCurrencies hok
  | setissue => exact setissue_keepsCurrencies hok
  | slashblack => exact slashblack_keepsCurrencies hok
  | retire => exact retire_keepsCurrencies hok
  | transfer => exact .of_eq (transfer_stats hok)
  | blacklist => exact .of_eq (blacklist_stats hok)
  | open_ => exact .of_eq (open_stats hok)
  | close => exact .of_eq (close_stats hok)

/-- The balances are sound, and every currency can be moved. -/
structure Liquid (s : State) : Prop extends Sound s where
  usable : ∀ st ∈ s.stats.rows, st.Usable

theorem Liquid.transact {tx : Transaction} (h : Liquid s)
    (hok : Token.transact tx s = .ok (s', out)) : Liquid s' := by
  refine ⟨transact_sound h.toSound hok, fun st' hst' => ?_⟩
  rcases (transact_keepsCurrencies hok).usable st' hst' with hnew | ⟨st, hst, hsym, hmax⟩
  · exact hnew
  · have hold := h.usable st hst
    exact ⟨hmax ▸ hold.max_le, hsym ▸ hold.symbol⟩

theorem final_liquid (txs : List Transaction) : Liquid (State.final {} txs) :=
  Run.invariant (fun _ _ _ _ h _ hok => h.transact hok) ⟨⟨.empty, nofun⟩, nofun⟩
    (Run.along_true _ txs)

end Currencies

-- ---------------------------------------------------------------------------
-- Transfers that succeed
-- ---------------------------------------------------------------------------

section Transfers

variable {env : Env} {s : State} {st : CurrencyStats} {sender receiver : Name} {quantity : Asset}
  {memo : String}

/-- No two balances together pass the supply of their currency. -/
theorem Liquid.amount_add_le (h : Liquid s) (hst : st ∈ s.stats.rows) (hne : sender ≠ receiver) :
    s.accounts.amount sender st.supply.symbol.code +
      s.accounts.amount receiver st.supply.symbol.code ≤ Asset.maxAmount := by
  have hheld := h.circulates.held st hst
  rw [Pi.zero_apply, add_zero] at hheld
  calc s.accounts.amount sender st.supply.symbol.code +
        s.accounts.amount receiver st.supply.symbol.code
    _ ≤ s.accounts.held st.supply.symbol.code :=
      Holdings.amount_add_le_held h.circulates.nonneg hne _
    _ = st.supply.amount := hheld
    _ ≤ st.maxSupply.amount := h.capped st hst
    _ ≤ Asset.maxAmount := (h.usable st hst).max_le

theorem Liquid.subBalance_ok (h : Liquid s) (hpos : 0 < quantity.amount)
    (hst : st ∈ s.stats.rows) (hsym : st.supply.symbol = quantity.symbol)
    (hle : quantity.amount ≤ s.accounts.amount sender quantity.symbol.code) :
    ∃ accounts, subBalance s.accounts sender quantity = .ok accounts := by
  unfold Holdings.amount at hle
  unfold subBalance
  cases hrow : s.accounts.find? (toLex (sender, quantity.symbol.code)) with
  | none =>
    rw [hrow] at hle
    exact absurd hpos (not_lt.mpr hle)
  | some row =>
    simp only [hrow, Option.map_some, Option.getD_some] at hle
    have hmem := Table.mem_of_find? hrow
    have hkey := Table.key_of_find? hrow
    have hcode : row.balance.symbol.code = quantity.symbol.code :=
      (Prod.mk.inj (toLex_inj.mp hkey)).2
    have hcurrency : st.supply.symbol = row.balance.symbol := by
      refine h.circulates.find?_currency hmem ?_
      rw [hcode, ← hsym]
      exact Table.find?_of_mem hst
    have hmax : row.balance.amount ≤ Asset.maxAmount := by
      have hheld := h.circulates.held st hst
      have hone := Holdings.amount_le_held h.circulates.nonneg sender quantity.symbol.code
      have hcap := (h.capped st hst).trans (h.usable st hst).max_le
      rw [Pi.zero_apply, add_zero, hsym] at hheld
      simp only [Holdings.amount, hrow, Option.map_some, Option.getD_some] at hone
      omega
    have hsub : row.balance.sub quantity =
        .ok ⟨row.balance.amount - quantity.amount, row.balance.symbol⟩ := by
      have hnonneg := h.circulates.nonneg row hmem
      exact Asset.sub_ok_iff.mpr ⟨hsym.symm.trans hcurrency, ⟨by omega, by omega⟩, rfl⟩
    refine ⟨s.accounts.set { row with
      balance := ⟨row.balance.amount - quantity.amount, row.balance.symbol⟩ }, ?_⟩
    simp only [Except.bind_ok_iff, check_ok_iff, exists_const, Except.pure_ok_iff]
    exact ⟨hle, _, hsub, rfl⟩

theorem Liquid.addBalance_ok (h : Liquid s) {accounts : Accounts} (hne : sender ≠ receiver)
    (hst : st ∈ s.stats.rows) (hsym : st.supply.symbol = quantity.symbol)
    (hpos : 0 < quantity.amount)
    (hle : quantity.amount ≤ s.accounts.amount sender quantity.symbol.code)
    (hsub : subBalance s.accounts sender quantity = .ok accounts) :
    ∃ accounts', addBalance accounts receiver quantity = .ok accounts' := by
  have hreceiver : accounts.amount receiver quantity.symbol.code =
      s.accounts.amount receiver quantity.symbol.code := by
    rw [subBalance_amount hsub, if_neg fun e => hne e.1, sub_zero]
  have hsum := h.amount_add_le hst hne
  rw [hsym] at hsum
  have hcirc := subBalance_circulates h.circulates hsub
  unfold addBalance
  cases hrow : accounts.find? (toLex (receiver, quantity.symbol.code)) with
  | none => exact ⟨_, rfl⟩
  | some row =>
    have hkey := Table.key_of_find? hrow
    have hcode : row.balance.symbol.code = quantity.symbol.code :=
      (Prod.mk.inj (toLex_inj.mp hkey)).2
    have hmem := Table.mem_of_find? hrow
    have hcurrency : st.supply.symbol = row.balance.symbol := by
      refine hcirc.find?_currency hmem ?_
      rw [hcode, ← hsym]
      exact Table.find?_of_mem hst
    have hamount : accounts.amount receiver quantity.symbol.code = row.balance.amount := by
      simp [Holdings.amount, hrow]
    have hnonneg := hcirc.nonneg row hmem
    have hadd : row.balance.add quantity =
        .ok ⟨row.balance.amount + quantity.amount, row.balance.symbol⟩ :=
      Asset.add_ok_iff.mpr ⟨hsym.symm.trans hcurrency, ⟨by omega, by omega⟩, rfl⟩
    refine ⟨accounts.set { row with
      balance := ⟨row.balance.amount + quantity.amount, row.balance.symbol⟩ }, ?_⟩
    simp only [Except.bind_ok_iff, Except.pure_ok_iff]
    exact ⟨_, hadd, rfl⟩

/-- Nothing but the balance of the sender stands in the way of a transfer. -/
structure Permitted (env : Env) (s : State) (sender receiver : Name) (memo : String) : Prop where
  auth : env.hasAuth sender = true
  ne : sender ≠ receiver
  isAccount : env.isAccount receiver = true
  free : sender ≠ aaaaaaaaaaaa
  clean : isBlacklisted env s sender amaxToken = false
  memo_le : memo.utf8ByteSize ≤ 256

/-- A permitted transfer of tokens that the sender has succeeds. -/
theorem Liquid.transfer_ok (h : Liquid s) (hp : Permitted env s sender receiver memo)
    (hst : st ∈ s.stats.rows) (hsym : st.supply.symbol = quantity.symbol)
    (hpos : 0 < quantity.amount)
    (hle : quantity.amount ≤ s.accounts.amount sender quantity.symbol.code) :
    ∃ s', transfer env s sender receiver quantity memo = .ok (s', [sender, receiver]) := by
  obtain ⟨accounts, hsub⟩ := h.subBalance_ok hpos hst hsym hle
  obtain ⟨accounts', hadd⟩ := h.addBalance_ok hp.ne hst hsym hpos hle hsub
  have hfind : s.stats.find? quantity.symbol.code = some st := by
    rw [← hsym]
    exact Table.find?_of_mem hst
  have hsum := h.amount_add_le hst hp.ne
  have hreceiver := Holdings.amount_nonneg h.circulates.nonneg receiver st.supply.symbol.code
  have hvalid : quantity.isValid = true := by
    have hsymbol := (h.usable st hst).symbol
    simp only [Asset.isValid, Asset.isAmountWithinRange, Bool.and_eq_true, decide_eq_true_eq,
      ← hsym, hsymbol, and_true]
    rw [hsym] at hsum hreceiver
    have hmax : (0 : ℤ) ≤ Asset.maxAmount := by decide
    exact ⟨by omega, by omega⟩
  refine ⟨{ s with accounts := accounts' }, ?_⟩
  simp only [transfer, requireAuth, hfind, Except.bind_ok_iff, check_ok_iff, exists_const,
    Except.pure_ok_iff]
  refine ⟨hp.auth, hp.ne, hp.isAccount, fun e => absurd e hp.free, fun e => ?_, hvalid, hpos,
    hsym.symm, hp.memo_le, accounts, hsub, accounts', hadd, rfl⟩
  rw [hp.clean] at e
  exact absurd e Bool.false_ne_true

end Transfers

end Amax.Token
