-- SUMMARY: Transfers with a fee change three balances exactly, the fee stays below the quantity, and balances add up to the supply.
import Amax.Xtoken.Contract
import Mathlib.Tactic.NormNum

/-! # Fees and supply of the token contract with fees -/

namespace Amax.Xtoken

-- ---------------------------------------------------------------------------
-- Balances
-- ---------------------------------------------------------------------------

/-- The balance of `owner` in `symbol` goes up by `d`, and no other changes. -/
def Credited (accounts accounts' : Accounts) (owner : Name) (symbol : Symbol) (d : ℤ) : Prop :=
  ∀ n c, accounts'.amount n c =
    accounts.amount n c + if owner = n ∧ symbol.code = c then d else 0

section Balances

variable {accounts accounts' : Accounts} {stats : Currencies CurrencyStats.supply}
variable {gap : List Char → ℤ} {owner : Name} {value : Asset} {st cur : CurrencyStats}
variable {isCheckFrozen : Bool}

theorem subBalance_spec (h : Circulates accounts stats gap)
    (hok : subBalance cur accounts owner value isCheckFrozen = .ok accounts') :
    Circulates accounts' stats (gap + Pi.single value.symbol.code (-value.amount)) ∧
      Credited accounts accounts' owner value.symbol (-value.amount) := by
  unfold subBalance at hok
  cases hrow : accounts.find? (toLex (owner, value.symbol.code)) with
  | none => simp [hrow] at hok
  | some row =>
    simp only [hrow, Except.bind_ok_iff, check_ok_iff, exists_const, Asset.sub_ok_iff,
      Except.pure_ok_iff] at hok
    obtain ⟨-, hle, _, ⟨hsym, -, rfl⟩, rfl⟩ := hok
    have hneg := sub_eq_add_neg row.balance.amount value.amount
    constructor
    · exact h.changed hrow rfl rfl hneg (sub_nonneg.mpr hle)
    · exact Holdings.amount_set_row (r := { row with
        balance := ⟨row.balance.amount - value.amount, row.balance.symbol⟩ }) hrow rfl rfl hneg

theorem addBalance_spec (h : Circulates accounts stats gap)
    (hok : addBalance cur accounts owner value isCheckFrozen = .ok accounts')
    (hst : st ∈ stats.rows) (hsym : st.supply.symbol = value.symbol) (hpos : 0 ≤ value.amount) :
    Circulates accounts' stats (gap + Pi.single value.symbol.code value.amount) ∧
      Credited accounts accounts' owner value.symbol value.amount := by
  unfold addBalance at hok
  cases hrow : accounts.find? (toLex (owner, value.symbol.code)) with
  | none =>
    simp only [hrow, Except.ok.injEq] at hok
    subst hok
    constructor
    · exact h.opened (r := { owner, balance := value }) hrow hst hsym hpos
    · exact Holdings.amount_set_new (r := Account.mk owner value false false) hrow
  | some row =>
    simp only [hrow, Except.bind_ok_iff, check_ok_iff, exists_const, Asset.add_ok_iff,
      Except.pure_ok_iff] at hok
    obtain ⟨-, _, ⟨-, -, rfl⟩, rfl⟩ := hok
    have hrow₀ := h.nonneg row (Table.mem_of_find? hrow)
    constructor
    · exact h.changed hrow rfl rfl rfl (add_nonneg hrow₀ hpos)
    · exact Holdings.amount_set_row (r := { row with
        balance := ⟨row.balance.amount + value.amount, row.balance.symbol⟩ }) hrow rfl rfl rfl

theorem openAccount_circulates {symbol : Symbol} (h : Circulates accounts stats 0)
    (hst : st ∈ stats.rows) (hsym : st.supply.symbol = symbol)
    (hok : openAccount accounts owner symbol = .ok accounts') : Circulates accounts' stats 0 := by
  unfold openAccount at hok
  cases hrow : accounts.find? (toLex (owner, symbol.code)) with
  | some row =>
    simp only [hrow, Except.ok.injEq] at hok
    exact hok ▸ h
  | none =>
    simp only [hrow, Except.bind_ok_iff, Asset.make_ok_iff, Except.pure_ok_iff] at hok
    obtain ⟨_, ⟨-, -, rfl⟩, rfl⟩ := hok
    refine (h.opened (r := { owner, balance := ⟨0, symbol⟩ }) hrow hst hsym le_rfl).congr ?_
    simp

end Balances

-- ---------------------------------------------------------------------------
-- Fees
-- ---------------------------------------------------------------------------

/-- The fields of a currency are in the ranges its setters check. -/
structure CurrencyStats.Fits (st : CurrencyStats) : Prop where
  capped : st.supply.amount ≤ st.maxSupply.amount
  ratio : st.feeRatio < ratioBoost
  min_nonneg : 0 ≤ st.minFeeQuantity.amount
  min_symbol : st.minFeeQuantity.symbol = st.supply.symbol

/-- The row of an account says that it pays no fees. -/
def State.exempt (s : State) (n : Name) (code : List Char) : Bool :=
  ((s.accounts.find? (toLex (n, code))).map (·.isFeeExempt)).getD false

/-- The fee of a transfer, as a whole number of the smallest unit. -/
def State.dueFee (s : State) (st : CurrencyStats) (receiver : Name) (quantity : Asset) : ℤ :=
  if st.feeReceiver = 0 ∨ st.feeRatio = 0 ∨ receiver = st.issuer ∨ receiver = st.feeReceiver ∨
      s.exempt receiver quantity.symbol.code then 0
  else max st.minFeeQuantity.amount (quantity.amount * st.feeRatio / ratioBoost)

section Fees

variable {st : CurrencyStats} {quantity : Asset}

/-- The share of a transfer is computed without overflow and below the quantity. -/
private theorem multiplyDecimal64_fee (hratio : st.feeRatio < ratioBoost)
    (hpos : 0 < quantity.amount) (hmax : quantity.amount ≤ Asset.maxAmount) :
    multiplyDecimal64 quantity.amount st.feeRatio ratioBoost =
        .ok (quantity.amount * st.feeRatio / ratioBoost) ∧
      0 ≤ quantity.amount * st.feeRatio / ratioBoost ∧
      quantity.amount * st.feeRatio / ratioBoost < quantity.amount := by
  have hr : (st.feeRatio : ℤ) ≤ 9999 := by
    unfold ratioBoost at hratio
    omega
  have hr₀ : (0 : ℤ) ≤ st.feeRatio := Int.natCast_nonneg _
  have hprod₀ : 0 ≤ quantity.amount * st.feeRatio := mul_nonneg hpos.le hr₀
  have hprod : quantity.amount * st.feeRatio ≤ quantity.amount * 9999 :=
    mul_le_mul_of_nonneg_left hr hpos.le
  have hboost : ((ratioBoost : ℕ) : ℤ) = 10000 := rfl
  unfold Asset.maxAmount at hmax
  refine ⟨?_, by rw [hboost]; omega, by rw [hboost]; omega⟩
  have hwide : toInt128 (quantity.amount * st.feeRatio) = quantity.amount * st.feeRatio :=
    toInt128_of_lt hprod₀ (by omega)
  simp only [multiplyDecimal64, hwide, Int.tdiv_eq_ediv_of_nonneg hprod₀, Except.bind_ok_iff,
    check_ok_iff, exists_const, Except.pure_ok_iff, and_true, int64Max, hboost]
  omega

/-- The fee that is computed is due, and less than the quantity. -/
theorem transferFee_eq (s : State) (receiver : Name) (h : st.Fits)
    (hvalid : quantity.symbol.isValid) (hpos : 0 < quantity.amount)
    (hmax : quantity.amount ≤ Asset.maxAmount) (hmin : st.minFeeQuantity.amount < quantity.amount) :
    transferFee st s.accounts receiver quantity =
        .ok ⟨s.dueFee st receiver quantity, quantity.symbol⟩ ∧
      0 ≤ s.dueFee st receiver quantity ∧ s.dueFee st receiver quantity < quantity.amount := by
  obtain ⟨hmul, hshare₀, hshare⟩ := multiplyDecimal64_fee h.ratio hpos hmax
  have hzero : Asset.make 0 quantity.symbol = .ok ⟨0, quantity.symbol⟩ :=
    Asset.make_ok_iff.mpr ⟨by decide, hvalid, rfl⟩
  have hcalc : calcFee st quantity = .ok ⟨max st.minFeeQuantity.amount
      (quantity.amount * st.feeRatio / ratioBoost), quantity.symbol⟩ := by
    have hlt : (Asset.mk (max st.minFeeQuantity.amount
        (quantity.amount * st.feeRatio / ratioBoost)) quantity.symbol).lt quantity = .ok true :=
      Asset.lt_ok_iff.mpr ⟨rfl, decide_eq_true (max_lt hmin hshare)⟩
    simp only [calcFee, hmul, Except.bind_ok_iff, Except.ok.injEq, exists_eq_left', hlt,
      check_ok_iff, exists_const, Except.pure_ok_iff, and_true]
  have hdue : (s.dueFee st receiver quantity = 0 ∧
      transferFee st s.accounts receiver quantity = .ok ⟨0, quantity.symbol⟩) ∨
      s.dueFee st receiver quantity = max st.minFeeQuantity.amount
        (quantity.amount * st.feeRatio / ratioBoost) ∧
      transferFee st s.accounts receiver quantity = calcFee st quantity := by
    unfold transferFee State.dueFee State.exempt
    rw [hzero]
    by_cases hset : st.feeReceiver ≠ 0 ∧ 0 < st.feeRatio ∧ receiver ≠ st.issuer ∧
        receiver ≠ st.feeReceiver
    · obtain ⟨h₁, h₂, h₃, h₄⟩ := hset
      cases hrow : s.accounts.find? (toLex (receiver, quantity.symbol.code)) with
      | none => simp [bind, Except.bind, h₁, h₂, h₃, h₄, h₂.ne']
      | some row =>
        cases hex : row.isFeeExempt <;>
          simp [bind, Except.bind, pure, Except.pure, h₁, h₂, h₃, h₄, h₂.ne', hex]
    · have hfree : st.feeReceiver = 0 ∨ st.feeRatio = 0 ∨ receiver = st.issuer ∨
          receiver = st.feeReceiver := by
        by_contra hno
        simp only [not_or] at hno
        exact hset ⟨hno.1, Nat.pos_of_ne_zero hno.2.1, hno.2.2.1, hno.2.2.2⟩
      refine .inl ⟨if_pos ?_, if_neg hset⟩
      exact hfree.imp_right fun h => h.imp_right fun h => h.imp_right .inl
  rcases hdue with ⟨hd, ht⟩ | ⟨hd, ht⟩
  · rw [ht, hd]
    exact ⟨rfl, le_rfl, hpos⟩
  · rw [ht, hd, hcalc]
    exact ⟨rfl, le_max_of_le_right hshare₀, max_lt hmin hshare⟩

end Fees

-- ---------------------------------------------------------------------------
-- Transfers
-- ---------------------------------------------------------------------------

/-- The balances of every currency are its supply, and its fields are in their ranges. -/
structure Sound (s : State) : Prop where
  circulates : Circulates s.accounts s.stats 0
  fits : ∀ st ∈ s.stats.rows, st.Fits

theorem getStats_ok_iff {s : State} {symbol : Symbol} {st : CurrencyStats} :
    getStats s symbol = .ok st ↔ s.stats.find? symbol.code = some st ∧ st.supply.symbol = symbol := by
  unfold getStats
  cases hst : s.stats.find? symbol.code with
  | none => simp
  | some st' =>
    simp only [Except.bind_ok_iff, check_ok_iff, exists_const, Except.pure_ok_iff,
      Option.some.injEq]
    constructor
    · rintro ⟨h, rfl⟩
      exact ⟨rfl, h⟩
    · rintro ⟨rfl, h⟩
      exact ⟨h, rfl⟩

section Transfers

variable {env : Env} {s s' : State} {out : List Notice}

theorem subBalance_avoids (st : CurrencyStats) (accounts : Accounts) (owner : Name) (value : Asset)
    (b : Bool) : Avoids .fee (subBalance st accounts owner value b) := by
  unfold subBalance
  cases accounts.find? (toLex (owner, value.symbol.code)) with
  | none => exact .error (show Site.action ≠ Site.fee by decide)
  | some row =>
    refine .check_bind (by decide) fun _ => .check_bind (by decide) fun _ => ?_
    exact .bind (Asset.sub_avoids (by decide) _ _) fun _ _ => .ok _

theorem addBalance_avoids (st : CurrencyStats) (accounts : Accounts) (owner : Name) (value : Asset)
    (b : Bool) : Avoids .fee (addBalance st accounts owner value b) := by
  unfold addBalance
  cases accounts.find? (toLex (owner, value.symbol.code)) with
  | none => exact .ok _
  | some row =>
    refine .check_bind (by decide) fun _ => ?_
    exact .bind (Asset.add_avoids (by decide) _ _) fun _ _ => .ok _

theorem getStats_avoids (s : State) (symbol : Symbol) : Avoids .fee (getStats s symbol) := by
  unfold getStats
  cases s.stats.find? symbol.code with
  | none => exact .error (show Site.action ≠ Site.fee by decide)
  | some st => exact .check_bind (by decide) fun _ => .ok _

/-- A valid quantity is in range and has a valid symbol. -/
private theorem isValid_iff {q : Asset} :
    q.isValid = true ↔ (-Asset.maxAmount ≤ q.amount ∧ q.amount ≤ Asset.maxAmount) ∧
      q.symbol.isValid = true := by
  simp [Asset.isValid, Asset.isAmountWithinRange]

/-- The fee of a transfer is always computed, and is always below the quantity. -/
theorem transfer_avoids_fee (h : Sound s) (env : Env) (sender receiver : Name) (quantity : Asset)
    (memo : String) : Avoids .fee (transfer env s sender receiver quantity memo) := by
  refine .check_bind (by decide) fun _ => .check_bind (by decide) fun _ => ?_
  refine .check_bind (by decide) fun _ => .bind (getStats_avoids s _) fun st hst => ?_
  refine .check_bind (by decide) fun _ => .check_bind (by decide) fun hvalid => ?_
  refine .check_bind (by decide) fun hpos => .check_bind (by decide) fun _ => ?_
  refine .check_bind (by decide) fun _ => .bind (Asset.lt_avoids (by decide) _ _) fun lt hlt => ?_
  refine .check_bind (by decide) fun hlt' => ?_
  have hfits := h.fits st (Table.mem_of_find? (getStats_ok_iff.mp hst).1)
  obtain ⟨⟨-, hmax⟩, hsymbol⟩ := isValid_iff.mp hvalid
  obtain ⟨-, rfl⟩ := Asset.lt_ok_iff.mp hlt
  obtain ⟨hfee, -, -⟩ := transferFee_eq s receiver hfits hsymbol hpos hmax
    (of_decide_eq_true hlt')
  rw [hfee]
  refine .bind (.ok _) fun fee _ => .bind (Asset.sub_avoids (by decide) _ _) fun _ _ => ?_
  refine .bind (subBalance_avoids _ _ _ _ _) fun _ _ => ?_
  refine .bind (addBalance_avoids _ _ _ _ _) fun _ _ => .ite ?_ (.ok _)
  exact .bind (addBalance_avoids _ _ _ _ _) fun _ _ => .ok _

/-- What a transfer does to the balances, with the fee it takes. -/
theorem transfer_effect {sender receiver : Name} {quantity : Asset} {memo : String}
    (h : Sound s) (hok : transfer env s sender receiver quantity memo = .ok (s', out)) :
    Sound s' ∧ ∃ st, s.stats.find? quantity.symbol.code = some st ∧ s'.stats = s.stats ∧
      0 ≤ s.dueFee st receiver quantity ∧ s.dueFee st receiver quantity < quantity.amount ∧
      ∀ n c, s'.accounts.amount n c = s.accounts.amount n c +
        if quantity.symbol.code = c then
          (if sender = n then -quantity.amount else 0) +
          (if receiver = n then quantity.amount - s.dueFee st receiver quantity else 0) +
          (if st.feeReceiver = n then s.dueFee st receiver quantity else 0)
        else 0 := by
  simp only [transfer, requireAuth, Except.bind_ok_iff, check_ok_iff, exists_const,
    getStats_ok_iff, Asset.lt_ok_iff] at hok
  obtain ⟨-, -, -, st, ⟨hst, hsym⟩, -, hvalid, hpos, -, -, _, ⟨-, rfl⟩, hlt, fee, hfee, recv,
    hrecv, accounts₁, hsub, accounts₂, hadd, hok⟩ := hok
  have hmem := Table.mem_of_find? hst
  obtain ⟨⟨-, hmax⟩, hsymbol⟩ := isValid_iff.mp hvalid
  obtain ⟨hdue, hdue₀, hduelt⟩ := transferFee_eq s receiver (h.fits st hmem)
    hsymbol hpos hmax (of_decide_eq_true hlt)
  obtain rfl := Except.ok.inj (hdue.symm.trans hfee)
  obtain ⟨-, -, rfl⟩ := Asset.sub_ok_iff.mp hrecv
  obtain ⟨hcirc₁, hmove₁⟩ := subBalance_spec h.circulates hsub
  obtain ⟨hcirc₂, hmove₂⟩ := addBalance_spec hcirc₁ hadd hmem hsym (sub_nonneg.mpr hduelt.le)
  simp only at hok
  split_ifs at hok with hfeepos
  · simp only [Except.bind_ok_iff, Except.pure_ok_iff, Prod.mk.injEq] at hok
    obtain ⟨accounts₃, hfeeadd, rfl, -⟩ := hok
    obtain ⟨hcirc₃, hmove₃⟩ := addBalance_spec hcirc₂ hfeeadd hmem hsym hdue₀
    refine ⟨⟨hcirc₃.congr (funext fun c => ?_), h.fits⟩, st, hst, rfl, hdue₀, hduelt, fun n c => ?_⟩
    · by_cases hc : c = quantity.symbol.code
      · subst hc
        simp only [Pi.add_apply, Pi.single_eq_same, Pi.zero_apply]
        ring
      · simp [Pi.single_eq_of_ne hc]
    · rw [hmove₃, hmove₂, hmove₁]
      by_cases hc : quantity.symbol.code = c
      · simp only [hc, and_true, if_true]
        ring
      · simp only [hc, and_false, if_false, add_zero]
  · simp only [Except.pure_ok_iff, Prod.mk.injEq] at hok
    obtain ⟨rfl, -⟩ := hok
    have hzero : s.dueFee st receiver quantity = 0 := by omega
    rw [hzero, sub_zero] at hcirc₂ hmove₂
    refine ⟨⟨hcirc₂.settled (neg_add_cancel _), h.fits⟩, st, hst, rfl, hdue₀, hduelt,
      fun n c => ?_⟩
    rw [hmove₂, hmove₁, hzero]
    by_cases hc : quantity.symbol.code = c
    · simp only [hc, and_true, if_true, sub_zero, ite_self, add_zero]
      ring
    · simp only [hc, and_false, if_false, add_zero]

end Transfers

-- ---------------------------------------------------------------------------
-- The other actions
-- ---------------------------------------------------------------------------

section Actions

variable {env : Env} {s s' : State} {out : List Notice}

/-- A currency that takes the place of another one, with what its balances need. -/
private theorem fits_set {st : CurrencyStats} (h : Sound s) (hst : st.Fits) :
    ∀ st' ∈ (s.stats.set st).rows, st'.Fits := by
  intro st' hst'
  rcases Table.mem_set.mp hst' with rfl | ⟨hst', -⟩
  · exact hst
  · exact h.fits st' hst'

theorem create_sound {issuer : Name} {maximumSupply : Asset} (h : Sound s)
    (hok : create env s issuer maximumSupply = .ok (s', out)) : Sound s' := by
  simp only [create, requireAuth, Except.bind_ok_iff, check_ok_iff, exists_const,
    Asset.make_ok_iff, Except.pure_ok_iff, Prod.mk.injEq, Option.isNone_iff_eq_none] at hok
  obtain ⟨-, -, -, -, hpos, hnone, _, ⟨-, -, rfl⟩, rfl, -⟩ := hok
  exact ⟨h.circulates.create hnone rfl, fits_set h ⟨hpos.le, show 0 < ratioBoost by decide, le_rfl, rfl⟩⟩

theorem issue_sound {receiver : Name} {quantity : Asset} {memo : String} (h : Sound s)
    (hok : issue env s receiver quantity memo = .ok (s', out)) : Sound s' := by
  simp only [issue, requireAuth, Except.bind_ok_iff, check_ok_iff, exists_const] at hok
  obtain ⟨-, -, hok⟩ := hok
  cases hst : s.stats.find? quantity.symbol.code with
  | none => simp [hst] at hok
  | some st =>
    simp only [hst, Except.bind_ok_iff, check_ok_iff, exists_const, Asset.add_ok_iff,
      Except.pure_ok_iff, Prod.mk.injEq] at hok
    obtain ⟨-, -, -, hpos, hsym, hcap, _, ⟨-, -, rfl⟩, accounts, hadd, rfl, -⟩ := hok
    have hfits := h.fits st (Table.mem_of_find? hst)
    have hcirc := h.circulates.supplied (u := { st with
      supply := ⟨st.supply.amount + quantity.amount, st.supply.symbol⟩ }) hst rfl rfl
    have hadded := (addBalance_spec hcirc hadd (Table.mem_set.mpr (.inl rfl)) hsym.symm hpos.le).1
    refine ⟨hadded.settled (neg_add_cancel _), fits_set h ⟨?_, hfits.ratio, hfits.min_nonneg,
      hfits.min_symbol⟩⟩
    simp only
    omega

theorem retire_sound {quantity : Asset} {memo : String} (h : Sound s)
    (hok : retire env s quantity memo = .ok (s', out)) : Sound s' := by
  simp only [retire, requireAuth, Except.bind_ok_iff, check_ok_iff, exists_const] at hok
  obtain ⟨-, -, hok⟩ := hok
  cases hst : s.stats.find? quantity.symbol.code with
  | none => simp [hst] at hok
  | some st =>
    simp only [hst, Except.bind_ok_iff, check_ok_iff, exists_const, Asset.sub_ok_iff,
      Except.pure_ok_iff, Prod.mk.injEq] at hok
    obtain ⟨-, -, hpos, hsym, _, ⟨-, -, rfl⟩, accounts, hsub, rfl, -⟩ := hok
    have hfits := h.fits st (Table.mem_of_find? hst)
    have hcap := hfits.capped
    have hcirc := h.circulates.supplied (u := { st with
      supply := ⟨st.supply.amount - quantity.amount, st.supply.symbol⟩ }) hst rfl
      (sub_eq_add_neg _ _)
    refine ⟨(subBalance_spec hcirc hsub).1.settled (by omega), fits_set h ⟨?_, hfits.ratio,
      hfits.min_nonneg, hfits.min_symbol⟩⟩
    simp only
    omega

theorem notifypayfee_sound {receiver feeReceiver : Name} (h : Sound s)
    (hok : notifypayfee env s receiver feeReceiver = .ok (s', out)) : Sound s' := by
  simp only [notifypayfee, requireAuth, Except.bind_ok_iff, check_ok_iff, exists_const,
    Except.pure_ok_iff, Prod.mk.injEq] at hok
  exact hok.2.1 ▸ h

theorem open_sound {owner ramPayer : Name} {symbol : Symbol} (h : Sound s)
    (hok : open_ env s owner symbol ramPayer = .ok (s', out)) : Sound s' := by
  simp only [open_, requireAuth, Except.bind_ok_iff, check_ok_iff, exists_const, getStats_ok_iff,
    Except.pure_ok_iff, Prod.mk.injEq] at hok
  obtain ⟨-, -, st, ⟨hst, hsym⟩, -, accounts, hopen, rfl, -⟩ := hok
  exact ⟨openAccount_circulates h.circulates (Table.mem_of_find? hst) hsym hopen, h.fits⟩

theorem close_sound {owner : Name} {symbol : Symbol} (h : Sound s)
    (hok : close env s owner symbol = .ok (s', out)) : Sound s' := by
  simp only [close, requireAuth, Except.bind_ok_iff, check_ok_iff, exists_const,
    getStats_ok_iff] at hok
  obtain ⟨-, st, -, -, hok⟩ := hok
  cases hrow : s.accounts.find? (toLex (owner, symbol.code)) with
  | none => simp [hrow] at hok
  | some row =>
    simp only [hrow, Except.bind_ok_iff, check_ok_iff, exists_const, Except.pure_ok_iff,
      Prod.mk.injEq] at hok
    obtain ⟨-, hzero, rfl, -⟩ := hok
    exact ⟨h.circulates.closed hrow hzero, h.fits⟩

/-- The two flags of an account change no balance. -/
theorem updateAccount_sound {symbol : Symbol} {account : Name} {f : Account → Account}
    (h : Sound s) (hok : updateAccount env s symbol account f = .ok (s', out))
    (hf : ∀ a, (f a).owner = a.owner ∧ (f a).balance = a.balance) : Sound s' := by
  simp only [updateAccount, requireAuth, Except.bind_ok_iff, check_ok_iff, exists_const,
    getStats_ok_iff] at hok
  obtain ⟨st, -, -, hok⟩ := hok
  cases hrow : s.accounts.find? (toLex (account, symbol.code)) with
  | none => simp [hrow] at hok
  | some acct =>
    simp only [hrow, Except.pure_ok_iff, Prod.mk.injEq] at hok
    obtain ⟨rfl, -⟩ := hok
    exact ⟨h.circulates.touched hrow (hf acct).1 (hf acct).2, h.fits⟩

/-- A field that changes keeps the supply, and fits the ranges when its setter has checked it. -/
theorem updateCurrencyField_sound {symbol : Symbol} {f : CurrencyStats → CurrencyStats}
    {cur : CurrencyStats} (h : Sound s)
    (hok : updateCurrencyField env s symbol f = .ok (s', cur))
    (hf : ∀ st, (f st).supply = st.supply)
    (hfits : ∀ st, st.supply.symbol = symbol → st.Fits → (f st).Fits) :
    Sound s' ∧ cur ∈ s'.stats.rows ∧ cur.supply.symbol = symbol := by
  simp only [updateCurrencyField, requireAuth, Except.bind_ok_iff, check_ok_iff, exists_const,
    getStats_ok_iff, Except.pure_ok_iff, Prod.mk.injEq] at hok
  obtain ⟨st, ⟨hst, hsym⟩, -, rfl, rfl⟩ := hok
  refine ⟨⟨h.circulates.modified hst (hf st), fits_set h ?_⟩, Table.mem_set.mpr (.inl rfl), ?_⟩
  · exact hfits st hsym (h.fits st (Table.mem_of_find? hst))
  · rw [hf, hsym]

theorem feeratio_sound {symbol : Symbol} {feeRatio : ℕ} (h : Sound s)
    (hok : feeratio env s symbol feeRatio = .ok (s', out)) : Sound s' := by
  simp only [feeratio, Except.bind_ok_iff, check_ok_iff, exists_const, Except.pure_ok_iff,
    Prod.mk.injEq, Prod.exists] at hok
  obtain ⟨hratio, _, _, hupdate, rfl, -⟩ := hok
  exact (updateCurrencyField_sound h hupdate (fun _ => rfl)
    fun st _ hst => ⟨hst.capped, hratio, hst.min_nonneg, hst.min_symbol⟩).1

theorem feereceiver_sound {symbol : Symbol} {feeReceiver : Name} (h : Sound s)
    (hok : feereceiver env s symbol feeReceiver = .ok (s', out)) : Sound s' := by
  simp only [feereceiver, Except.bind_ok_iff, check_ok_iff, exists_const, Except.pure_ok_iff,
    Prod.mk.injEq, Prod.exists] at hok
  obtain ⟨-, s₁, cur, hupdate, accounts, hopen, rfl, -⟩ := hok
  obtain ⟨hsound, hcur, hsym⟩ := updateCurrencyField_sound h hupdate (fun _ => rfl)
    fun st _ hst => ⟨hst.capped, hst.ratio, hst.min_nonneg, hst.min_symbol⟩
  exact ⟨openAccount_circulates hsound.circulates hcur hsym hopen, hsound.fits⟩

theorem minfee_sound {symbol : Symbol} {minFeeQuantity : Asset} (h : Sound s)
    (hok : minfee env s symbol minFeeQuantity = .ok (s', out)) : Sound s' := by
  simp only [minfee, Except.bind_ok_iff, check_ok_iff, exists_const, Except.pure_ok_iff,
    Prod.mk.injEq, Prod.exists] at hok
  obtain ⟨hmin, hpos, _, _, hupdate, rfl, -⟩ := hok
  exact (updateCurrencyField_sound h hupdate (fun _ => rfl)
    fun st hsym hst => ⟨hst.capped, hst.ratio, hpos.le, hmin.trans hsym.symm⟩).1

theorem pause_sound {symbol : Symbol} {isPaused : Bool} (h : Sound s)
    (hok : pause env s symbol isPaused = .ok (s', out)) : Sound s' := by
  simp only [pause, Except.bind_ok_iff, Except.pure_ok_iff, Prod.mk.injEq, Prod.exists] at hok
  obtain ⟨_, _, hupdate, rfl, -⟩ := hok
  exact (updateCurrencyField_sound h hupdate (fun _ => rfl)
    fun st _ hst => ⟨hst.capped, hst.ratio, hst.min_nonneg, hst.min_symbol⟩).1

theorem transact_sound {tx : Transaction} (h : Sound s) (hok : transact tx s = .ok (s', out)) :
    Sound s' := by
  obtain ⟨env, action⟩ := tx
  cases action with
  | create => exact create_sound h hok
  | issue => exact issue_sound h hok
  | retire => exact retire_sound h hok
  | transfer => exact (transfer_effect h hok).1
  | notifypayfee => exact notifypayfee_sound h hok
  | open_ => exact open_sound h hok
  | close => exact close_sound h hok
  | feeratio => exact feeratio_sound h hok
  | feereceiver => exact feereceiver_sound h hok
  | minfee => exact minfee_sound h hok
  | feeexempt => exact updateAccount_sound h hok fun _ => ⟨rfl, rfl⟩
  | pause => exact pause_sound h hok
  | freezeacct => exact updateAccount_sound h hok fun _ => ⟨rfl, rfl⟩

end Actions

theorem final_sound (txs : List Transaction) : Sound (State.final {} txs) :=
  Run.invariant (fun _ _ _ _ h _ hok => transact_sound h hok) ⟨.empty, nofun⟩
    (Run.along_true _ txs)

/-- Whatever is done by whoever: what is held of a currency is its supply, no more than its
maximum. Every transfer then moves its quantity less the fee that is due, which goes to the fee
receiver, and no transfer fails on the computation of the fee. -/
theorem transfers_conserve (txs : List Transaction) :
    (∀ code, (State.final {} txs).accounts.held code = (State.final {} txs).stats.supplied code) ∧
    (∀ st ∈ (State.final {} txs).stats.rows,
      (State.final {} txs).accounts.held st.supply.symbol.code = st.supply.amount ∧
        st.supply.amount ≤ st.maxSupply.amount) ∧
    (∀ r ∈ (State.final {} txs).accounts.rows, 0 ≤ r.balance.amount ∧
      ∃ st ∈ (State.final {} txs).stats.rows, st.supply.symbol = r.balance.symbol) ∧
    ∀ (env : Env) (sender receiver : Name) (quantity : Asset) (memo : String),
      Avoids .fee (transfer env (State.final {} txs) sender receiver quantity memo) ∧
      ∀ s' out, transfer env (State.final {} txs) sender receiver quantity memo = .ok (s', out) →
        ∃ st, (State.final {} txs).stats.find? quantity.symbol.code = some st ∧
          s'.stats = (State.final {} txs).stats ∧
          0 ≤ (State.final {} txs).dueFee st receiver quantity ∧
          (State.final {} txs).dueFee st receiver quantity < quantity.amount ∧
          ∀ n c, s'.accounts.amount n c = (State.final {} txs).accounts.amount n c +
            if quantity.symbol.code = c then
              (if sender = n then -quantity.amount else 0) +
              (if receiver = n then
                quantity.amount - (State.final {} txs).dueFee st receiver quantity else 0) +
              (if st.feeReceiver = n then
                (State.final {} txs).dueFee st receiver quantity else 0)
            else 0 := by
  have h := final_sound txs
  refine ⟨fun code => ?_, fun st hst => ?_, fun r hr => ?_,
    fun env sender receiver quantity memo => ⟨?_, fun s' out hok => ?_⟩⟩
  · exact h.circulates.held_eq_supplied code
  · exact ⟨by simpa using h.circulates.held st hst, (h.fits st hst).capped⟩
  · exact ⟨h.circulates.nonneg r hr, h.circulates.issued r hr⟩
  · exact transfer_avoids_fee h env sender receiver quantity memo
  · exact (transfer_effect h hok).2

private def symbol : Symbol := ⟨['A', 'M', 'A', 'X'], 8⟩

private def anyone : Env := { self := 9, hasAuth := fun _ => true, isAccount := fun _ => true }

/-- Account 1 issues 100000 tokens and gives 60000 to account 2, which gets the fees of one
hundredth, but at least 5. -/
private def minted : List Transaction :=
  [⟨anyone, .create 1 ⟨1000000, symbol⟩⟩, ⟨anyone, .issue 1 ⟨100000, symbol⟩ ""⟩,
    ⟨anyone, .transfer 1 2 ⟨60000, symbol⟩ ""⟩, ⟨anyone, .feereceiver symbol 2⟩,
    ⟨anyone, .feeratio symbol 100⟩, ⟨anyone, .minfee symbol ⟨5, symbol⟩⟩]

/-- The fee receiver itself pays 10000 to account 3, and gets 100 back. -/
theorem transfers_conserve_receiver :
    ∃ s' out, transfer anyone (State.final {} minted) 2 3 ⟨10000, symbol⟩ "" = .ok (s', out) ∧
      s'.accounts.amount 2 symbol.code = 50100 ∧ s'.accounts.amount 3 symbol.code = 9900 := by
  obtain ⟨-, -, -, htransfer⟩ := transfers_conserve minted
  obtain ⟨st, hst, -, -, -, hmove⟩ := (htransfer anyone 2 3 ⟨10000, symbol⟩ "").2 _ _ rfl
  refine ⟨_, _, rfl, ?_, ?_⟩
  · rw [hmove, show st = _ from (Option.some.inj hst).symm]
    rfl
  · rw [hmove, show st = _ from (Option.some.inj hst).symm]
    rfl

end Amax.Xtoken
