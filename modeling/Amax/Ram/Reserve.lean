-- SUMMARY: Conservation of the RAM market, and why it can always buy back the RAM it sold.
import Amax.Base.ConstantProduct
import Amax.Ram.Supply
import Mathlib.Algebra.Order.Field.Basic
import Mathlib.Data.Rat.Cast.Order

/-! # The reserves of the RAM market

Every action lets the supply grow and then trades, or does neither. Both keep
what the market has and has sold; and as long as a trade gives no more than the
exact quotient, both keep the product of the reserves. -/

namespace Amax.Ram

-- ---------------------------------------------------------------------------
-- Conservation
-- ---------------------------------------------------------------------------

/-- The tokens the action `m` moves into `amax.ram`, less those it moves out. -/
def Sent.inflow (core : Symbol) : Sent → ℤ
  | .transfer sender receiver quantity _ =>
    if quantity.symbol = core then
      (if receiver = ramAccount then quantity.amount else 0) -
        (if sender = ramAccount then quantity.amount else 0)
    else 0
  | .openBalance _ _ _ => 0

def inflow (core : Symbol) (sent : List Sent) : ℤ := (sent.map (Sent.inflow core)).sum

/-- What the market has and what it sold make up the size of the RAM, and what it was paid is the
stake. `initial` is its first balance of tokens and `held` what was moved into `amax.ram`. -/
structure Conserved (s : State) (es : ExchangeState) (initial held : ℤ) : Prop where
  market : s.market = some es
  base_eq : es.base.amount + s.totalRamBytesReserved = s.maxRamSize
  reserved_eq : s.totalRamBytesReserved = s.totals.sum (·.ramBytes)
  quote_eq : es.quote.amount - initial = s.totalRamStake
  stake_eq : s.totalRamStake = held

/-- No reserve is negative, and together they are worth what they were at first. -/
structure Solvent (s : State) (es : ExchangeState) (initial : ℤ) : Prop where
  base_nonneg : 0 ≤ es.base.amount
  quote_nonneg : 0 ≤ es.quote.amount
  stake_nonneg : 0 ≤ s.totalRamStake
  product_le : initial * s.maxRamSize ≤ es.base.amount * es.quote.amount
  ram_nonneg : ∀ u ∈ s.totals.rows, 0 ≤ u.ramBytes

/-- `get_bancor_output` returns no more than the exact quotient. -/
def Doubles.RoundsDown (d : Doubles) : Prop :=
  ∀ i o x : ℤ, 0 ≤ i → 0 ≤ o → 0 ≤ x →
    0 ≤ getBancorOutput d i o x ∧ (getBancorOutput d i o x : ℚ) ≤ (o * x : ℚ) / (i + x)

variable {d : Doubles}

theorem getBancorOutput_nonneg (d : Doubles) (i o x : ℤ) : 0 ≤ getBancorOutput d i o x := by
  simp only [getBancorOutput]
  split_ifs <;> omega

theorem Doubles.RoundsDown.mul_le (h : d.RoundsDown) {i o x : ℤ} (hi : 0 ≤ i) (ho : 0 ≤ o)
    (hx : 0 ≤ x) : getBancorOutput d i o x * (i + x) ≤ o * x := by
  rcases (add_nonneg hi hx).eq_or_lt with hzero | hpos
  · rw [← hzero, mul_zero]
    exact mul_nonneg ho hx
  · have hpos' : (0 : ℚ) < i + x := by exact_mod_cast hpos
    have hle := (le_div_iff₀ hpos').mp (h i o x hi ho hx).2
    exact_mod_cast hle

/-- Something is given only for something. -/
theorem Doubles.RoundsDown.pos_of_pos (h : d.RoundsDown) {i o x : ℤ} (hi : 0 ≤ i) (ho : 0 ≤ o)
    (hx : 0 ≤ x) (hout : 0 < getBancorOutput d i o x) : 0 < x := by
  rcases hx.eq_or_lt with rfl | hx
  · have hle := (h i o 0 hi ho le_rfl).2
    rw [Int.cast_zero, mul_zero, zero_div] at hle
    exact absurd hout (not_lt.mpr (by exact_mod_cast hle))
  · exact hx

-- ---------------------------------------------------------------------------
-- Growth and trades
-- ---------------------------------------------------------------------------

section Steps

variable {s : State} {es : ExchangeState} {initial held : ℤ}

/-- The market after `x` tokens bought `out` bytes. -/
def ExchangeState.buy (es : ExchangeState) (x out : ℤ) : ExchangeState :=
  { es with
    base := { es.base with amount := es.base.amount - out }
    quote := { es.quote with amount := es.quote.amount + x } }

/-- The market after `x` bytes were sold for `out` tokens. -/
def ExchangeState.sell (es : ExchangeState) (x out : ℤ) : ExchangeState :=
  { es with
    base := { es.base with amount := es.base.amount + x }
    quote := { es.quote with amount := es.quote.amount - out } }

/-- The state after `x` tokens bought the `out` bytes that the row `u` now has more. -/
def State.buy (s : State) (es : ExchangeState) (u : UserResources) (x out : ℤ) : State :=
  { s with
    market := some (es.buy x out)
    totalRamBytesReserved := s.totalRamBytesReserved + out
    totalRamStake := s.totalRamStake + x
    totals := s.totals.set u }

/-- The state after the `x` bytes that the row `u` now has less were sold for `out` tokens. -/
def State.sell (s : State) (es : ExchangeState) (u : UserResources) (x out : ℤ) : State :=
  { s with
    market := some (es.sell x out)
    totalRamBytesReserved := s.totalRamBytesReserved - x
    totalRamStake := s.totalRamStake - out
    totals := s.totals.set u }

namespace Conserved

theorem grow (h : Conserved s es initial held) (n : ℤ) :
    Conserved (s.grow es n) { es with base := { es.base with amount := es.base.amount + n } }
      initial held := by
  refine ⟨rfl, ?_, h.reserved_eq, h.quote_eq, h.stake_eq⟩
  simp only [State.grow, ← h.base_eq]
  ring

theorem buy (h : Conserved s es initial held) {u : UserResources} {x out : ℤ}
    (hu : u.ramBytes = ((s.totals.find? u.owner).map (·.ramBytes)).getD 0 + out) :
    Conserved (s.buy es u x out) (es.buy x out) initial (held + x) := by
  refine ⟨rfl, ?_, ?_, ?_, ?_⟩
  · simp only [State.buy, ExchangeState.buy, ← h.base_eq]
    ring
  · simp only [State.buy, Table.sum_set, hu, h.reserved_eq]
    ring
  · simp only [State.buy, ExchangeState.buy, ← h.quote_eq]
    ring
  · simp only [State.buy, h.stake_eq]

theorem sell (h : Conserved s es initial held) {u row : UserResources} {x out : ℤ}
    (hrow : s.totals.find? u.owner = some row) (hu : u.ramBytes = row.ramBytes - x) :
    Conserved (s.sell es u x out) (es.sell x out) initial (held - out) := by
  refine ⟨rfl, ?_, ?_, ?_, ?_⟩
  · simp only [State.sell, ExchangeState.sell, ← h.base_eq]
    ring
  · simp only [State.sell, Table.sum_set_of_find? hrow, hu, h.reserved_eq]
    ring
  · simp only [State.sell, ExchangeState.sell, ← h.quote_eq]
    ring
  · simp only [State.sell, h.stake_eq]

end Conserved

namespace Solvent

theorem grow (h : Solvent s es initial) (hc : Conserved s es initial held) {n : ℤ} (hn : 0 ≤ n) :
    Solvent (s.grow es n) { es with base := { es.base with amount := es.base.amount + n } }
      initial := by
  have hworth : initial ≤ es.quote.amount := by
    have := hc.quote_eq
    have := h.stake_nonneg
    omega
  exact ⟨add_nonneg h.base_nonneg hn, h.quote_nonneg, h.stake_nonneg,
    ConstantProduct.le_grow h.product_le hworth hn, h.ram_nonneg⟩

theorem buy (h : Solvent s es initial) {u : UserResources} {x out : ℤ} (hx : 0 < x)
    (hpos : 0 < out) (hout : out * (es.quote.amount + x) ≤ es.base.amount * x)
    (hu : u.ramBytes = ((s.totals.find? u.owner).map (·.ramBytes)).getD 0 + out) :
    Solvent (s.buy es u x out) (es.buy x out) initial := by
  have hle := ConstantProduct.out_le h.quote_nonneg h.base_nonneg hx hout
  refine ⟨sub_nonneg.mpr hle, add_nonneg h.quote_nonneg hx.le, add_nonneg h.stake_nonneg hx.le,
    ?_, fun v hv => ?_⟩
  · have hswap := ConstantProduct.le_swap hout
    simp only [State.buy, ExchangeState.buy]
    linarith [h.product_le, mul_comm es.quote.amount es.base.amount,
      mul_comm (es.quote.amount + x) (es.base.amount - out)]
  · rcases Table.mem_set.mp hv with rfl | hv
    · rw [hu]
      have hold : 0 ≤ ((s.totals.find? v.owner).map (·.ramBytes)).getD 0 := by
        cases hf : s.totals.find? v.owner with
        | none => exact le_rfl
        | some row => exact h.ram_nonneg row (Table.mem_of_find? hf)
      omega
    · exact h.ram_nonneg v hv.1

/-- What the sale of owned bytes pays is staked. -/
theorem out_le_stake (h : Solvent s es initial) (hc : Conserved s es initial held)
    {row : UserResources} {x out : ℤ} (hrow : row ∈ s.totals.rows) (hx : 0 < x)
    (howned : x ≤ row.ramBytes) (hout : out * (es.base.amount + x) ≤ es.quote.amount * x) :
    out ≤ s.totalRamStake := by
  have hbytes : row.ramBytes ≤ s.totalRamBytesReserved :=
    hc.reserved_eq ▸ Table.le_sum_of_mem h.ram_nonneg hrow
  have hbase := hc.base_eq
  have hbase' := h.base_nonneg
  have hle := ConstantProduct.out_le h.base_nonneg h.quote_nonneg hx hout
  have hproduct : initial * s.maxRamSize ≤ (es.base.amount + x) * (es.quote.amount - out) :=
    h.product_le.trans (ConstantProduct.le_swap hout)
  have hworth := ConstantProduct.le_reserve hproduct (by omega) (by omega) (sub_nonneg.mpr hle)
  have hquote := hc.quote_eq
  omega

theorem sell (h : Solvent s es initial) (hc : Conserved s es initial held)
    {u row : UserResources} {x out : ℤ} (hrow : s.totals.find? u.owner = some row) (hx : 0 < x)
    (howned : x ≤ row.ramBytes) (hu : u.ramBytes = row.ramBytes - x)
    (hout : out * (es.base.amount + x) ≤ es.quote.amount * x) :
    Solvent (s.sell es u x out) (es.sell x out) initial := by
  have hmem := Table.mem_of_find? hrow
  have hle := ConstantProduct.out_le h.base_nonneg h.quote_nonneg hx hout
  refine ⟨add_nonneg h.base_nonneg hx.le, sub_nonneg.mpr hle,
    sub_nonneg.mpr (h.out_le_stake hc hmem hx howned hout),
    h.product_le.trans (ConstantProduct.le_swap hout), fun v hv => ?_⟩
  rcases Table.mem_set.mp hv with rfl | hv
  · omega
  · exact h.ram_nonneg v hv.1

end Solvent

end Steps

-- ---------------------------------------------------------------------------
-- Actions
-- ---------------------------------------------------------------------------

/-- The market is conserved, trades RAM for core tokens, and is solvent while its trades round
down. -/
structure Sound (d : Doubles) (s : State) (es : ExchangeState) (core : Symbol)
    (initial held : ℤ) : Prop extends Conserved s es initial held where
  core_eq : s.coreSymbol = core
  base_symbol : es.base.symbol = ramSymbol
  quote_symbol : es.quote.symbol = core
  solvent : d.RoundsDown → Solvent s es initial

theorem directConvert_buy {es es' : ExchangeState} {payment out : Asset}
    (hbase : es.base.symbol = ramSymbol) (hpayment : payment.symbol = es.quote.symbol)
    (h : directConvert d es payment ramSymbol = .ok (es', out)) :
    es' = es.buy payment.amount out.amount ∧
      out.amount = getBancorOutput d es.quote.amount es.base.amount payment.amount := by
  simp only [directConvert, Except.bind_ok_iff, check_ok_iff, exists_const, Asset.make_ok_iff] at h
  obtain ⟨hne, _, ⟨-, -, rfl⟩, h⟩ := h
  rw [if_neg (fun e => hne (e.1.trans hbase)), if_pos ⟨hpayment, hbase.symm⟩] at h
  simp only [Except.bind_ok_iff, Asset.add_ok_iff, Asset.sub_ok_iff, Except.pure_ok_iff,
    Prod.mk.injEq] at h
  obtain ⟨_, ⟨-, -, rfl⟩, _, ⟨-, -, rfl⟩, rfl, rfl⟩ := h
  exact ⟨rfl, rfl⟩

theorem directConvert_sell {es es' : ExchangeState} {payment out : Asset} {core : Symbol}
    (hpayment : payment.symbol = es.base.symbol) (hquote : es.quote.symbol = core)
    (h : directConvert d es payment core = .ok (es', out)) :
    es' = es.sell payment.amount out.amount ∧ out.symbol = core ∧
      out.amount = getBancorOutput d es.base.amount es.quote.amount payment.amount := by
  simp only [directConvert, Except.bind_ok_iff, check_ok_iff, exists_const, Asset.make_ok_iff] at h
  obtain ⟨-, _, ⟨-, -, rfl⟩, h⟩ := h
  rw [if_pos ⟨hpayment, hquote.symm⟩] at h
  simp only [Except.bind_ok_iff, Asset.add_ok_iff, Asset.sub_ok_iff, Except.pure_ok_iff,
    Prod.mk.injEq] at h
  obtain ⟨_, ⟨-, -, rfl⟩, _, ⟨-, -, rfl⟩, rfl, rfl⟩ := h
  exact ⟨rfl, rfl, rfl⟩

theorem boughtRow_ok {t : Totals} {core : Symbol} {receiver : Name} {out : ℤ} {u : UserResources}
    (h : boughtRow t core receiver out = .ok u) :
    u.ramBytes = ((t.find? u.owner).map (·.ramBytes)).getD 0 + out := by
  unfold boughtRow at h
  cases hf : t.find? receiver with
  | none =>
    simp only [hf, payRow, Except.bind_ok_iff, check_ok_iff, exists_const,
      Except.pure_ok_iff] at h
    obtain ⟨-, _, -, rfl⟩ := h
    simp [hf]
  | some row =>
    simp only [hf, Except.ok.injEq] at h
    subst h
    obtain rfl : row.owner = receiver := Table.key_of_find? hf
    simp [hf]

@[simp] theorem inflow_nil (core : Symbol) : inflow core [] = 0 := rfl

/-- The payment for RAM goes to `amax.ram`, and its fee does not. -/
theorem inflow_bought {core : Symbol} {payer : Name} {quantity fee : Asset} {memo memo' : String}
    {c : Prop} [Decidable c] (hpayer : payer ≠ ramAccount) (hsym : quantity.symbol = core) :
    inflow core (.transfer payer ramAccount quantity memo ::
      if c then [.transfer payer ramfeeAccount fee memo'] else []) =
      quantity.amount := by
  have hfee : ramfeeAccount ≠ ramAccount := by decide
  split_ifs <;> simp [inflow, Sent.inflow, hpayer, hsym, hfee]

/-- The payment for sold RAM comes from `amax.ram`, and its fee does not. -/
theorem inflow_sold {core : Symbol} {account : Name} {quantity fee : Asset} {memo memo' : String}
    {c : Prop} [Decidable c] (haccount : account ≠ ramAccount) (hsym : quantity.symbol = core) :
    inflow core (.transfer ramAccount account quantity memo ::
      if c then [.transfer account ramfeeAccount fee memo'] else []) =
      -quantity.amount := by
  have hfee : ramfeeAccount ≠ ramAccount := by decide
  split_ifs <;> simp [inflow, Sent.inflow, haccount, hsym, hfee]

theorem takes_ne {env : Env} {sender receiver : Name} {quantity : Asset} {memo : String}
    (h : env.takes (.transfer sender receiver quantity memo) = true) : sender ≠ receiver := by
  simp only [Env.takes, Bool.and_eq_true, decide_eq_true_eq] at h
  exact h.1

theorem getMarket_avoids (s : State) (message : String) :
    Avoids .stake (s.getMarket message) := by
  unfold State.getMarket
  cases s.market with
  | none => exact .error nofun
  | some es => exact .ok es

theorem getCoreSymbol_avoids (s : State) : Avoids .stake s.getCoreSymbol :=
  .check_bind nofun fun _ => .ok _

theorem make_avoids (x : ℤ) (sym : Symbol) : Avoids .stake (Asset.make x sym) :=
  .check_bind nofun fun _ => .check_bind nofun fun _ => .ok _

theorem directConvert_avoids (d : Doubles) (es : ExchangeState) (payment : Asset)
    (target : Symbol) : Avoids .stake (directConvert d es payment target) := by
  have hs : Site.asset ≠ .stake := nofun
  refine .check_bind nofun fun _ => .bind (make_avoids 0 target) fun out _ => ?_
  refine .ite ?_ (.ite ?_ (.error nofun))
  · exact .bind (Asset.add_avoids hs _ _) fun _ _ => .bind (Asset.sub_avoids hs _ _) fun _ _ => .ok _
  · exact .bind (Asset.add_avoids hs _ _) fun _ _ => .bind (Asset.sub_avoids hs _ _) fun _ _ => .ok _

theorem updateRamSupply_avoids (env : Env) (s : State) : Avoids .stake (updateRamSupply env s) := by
  refine .ite (.ok s) (.bind ?_ fun _ _ => .ok _)
  exact getMarket_avoids s _

namespace Sound

variable {env : Env} {s s' : State} {es : ExchangeState} {core : Symbol} {initial held : ℤ}
    {sent : List Sent}

/-- The market only depends on a part of the state. -/
theorem congr (h : Sound d s es core initial held) (hmarket : s'.market = s.market)
    (hsize : s'.maxRamSize = s.maxRamSize)
    (hreserved : s'.totalRamBytesReserved = s.totalRamBytesReserved)
    (hstake : s'.totalRamStake = s.totalRamStake) (htotals : s'.totals = s.totals)
    (hcore : s'.coreSymbol = s.coreSymbol) : Sound d s' es core initial held := by
  obtain ⟨⟨h₁, h₂, h₃, h₄, h₅⟩, h₆, h₇, h₈, h₉⟩ := h
  refine ⟨⟨hmarket.trans h₁, ?_, ?_, ?_, ?_⟩, hcore.trans h₆, h₇, h₈, fun hd => ?_⟩
  · rw [hreserved, hsize, h₂]
  · rw [hreserved, htotals, h₃]
  · rw [hstake, h₄]
  · rw [hstake, h₅]
  · obtain ⟨k₁, k₂, k₃, k₄, k₅⟩ := h₉ hd
    exact ⟨k₁, k₂, hstake.symm ▸ k₃, hsize.symm ▸ k₄, htotals.symm ▸ k₅⟩

theorem grow (h : Sound d s es core initial held) {n : ℤ} (hn : 0 ≤ n) :
    Sound d (s.grow es n) { es with base := { es.base with amount := es.base.amount + n } } core
      initial held :=
  ⟨h.toConserved.grow n, h.core_eq, h.base_symbol, h.quote_symbol,
    fun hd => (h.solvent hd).grow h.toConserved hn⟩

theorem updateRamSupply (h : Sound d s es core initial held)
    (hok : Ram.updateRamSupply env s = .ok s') : ∃ es', Sound d s' es' core initial held := by
  unfold Ram.updateRamSupply at hok
  dsimp only at hok
  split_ifs at hok
  · obtain rfl := Except.pure_ok_iff.mp hok
    exact ⟨es, h⟩
  · simp only [State.getMarket, h.market, Except.bind_ok_iff, Except.ok.injEq,
      Except.pure_ok_iff] at hok
    obtain ⟨_, rfl, rfl⟩ := hok
    exact ⟨_, (h.grow (Int.natCast_nonneg _)).congr rfl rfl rfl rfl rfl rfl⟩

theorem buyram {payer receiver : Name} {quant : Asset} (h : Sound d s es core initial held)
    (hok : Ram.buyram d env s payer receiver quant = .ok (s', sent))
    (htakes : ∀ m ∈ sent, env.takes m = true) :
    ∃ es', Sound d s' es' core initial (held + inflow core sent) := by
  simp only [Ram.buyram, State.getCoreSymbol, requireAuth, Except.bind_ok_iff, check_ok_iff,
    exists_const, Except.pure_ok_iff, Prod.exists, Prod.mk.injEq] at hok
  obtain ⟨-, -, s₁, hs₁, _, ⟨-, rfl⟩, hsym, hpos, es₁, hes₁, es', out, hconvert, hout, u, hu, -, rfl,
    rfl⟩ := hok
  obtain ⟨es₂, h₁⟩ := h.updateRamSupply hs₁
  obtain rfl : es₂ = es₁ := by simpa [State.getMarket, h₁.market] using hes₁
  have hcore : quant.symbol = core := hsym.trans h₁.core_eq
  obtain ⟨rfl, hgiven⟩ := directConvert_buy h₁.base_symbol
    (by exact hcore.trans h₁.quote_symbol.symm) hconvert
  have hrow := boughtRow_ok hu
  have hpaid : 0 ≤ quant.amount - ramFee quant.amount := by
    unfold ramFee
    omega
  rw [inflow_bought (takes_ne (htakes _ List.mem_cons_self)) (by exact hcore)]
  refine ⟨_, h₁.toConserved.buy hrow, h₁.core_eq, h₁.base_symbol, h₁.quote_symbol, fun hd => ?_⟩
  have hs := h₁.solvent hd
  have hgave := hd.pos_of_pos hs.quote_nonneg hs.base_nonneg hpaid (by exact hgiven ▸ hout)
  refine hs.buy hgave hout ?_ hrow
  rw [hgiven]
  exact hd.mul_le hs.quote_nonneg hs.base_nonneg hpaid

theorem buyrambytes {payer receiver : Name} {bytes : ℕ} (h : Sound d s es core initial held)
    (hok : Ram.buyrambytes d env s payer receiver bytes = .ok (s', sent))
    (htakes : ∀ m ∈ sent, env.takes m = true) :
    ∃ es', Sound d s' es' core initial (held + inflow core sent) := by
  simp only [Ram.buyrambytes, Except.bind_ok_iff] at hok
  obtain ⟨-, -, -, -, quant, -, hok⟩ := hok
  exact h.buyram hok htakes

theorem sellram {account : Name} {bytes : ℤ} (h : Sound d s es core initial held)
    (hok : Ram.sellram d env s account bytes = .ok (s', sent))
    (htakes : ∀ m ∈ sent, env.takes m = true) :
    ∃ es', Sound d s' es' core initial (held + inflow core sent) := by
  simp only [Ram.sellram, Except.bind_ok_iff, check_ok_iff, exists_const] at hok
  obtain ⟨-, s₁, hs₁, hpos, hok⟩ := hok
  obtain ⟨es₁, h₁⟩ := h.updateRamSupply hs₁
  cases hrow : s₁.totals.find? account with
  | none => simp [hrow] at hok
  | some row =>
    simp only [hrow, State.getCoreSymbol, State.getMarket, h₁.market, Except.bind_ok_iff,
      check_ok_iff, exists_const, Except.pure_ok_iff, Asset.make_ok_iff, Prod.exists,
      Prod.mk.injEq, Except.ok.injEq] at hok
    obtain ⟨howned, _, rfl, _, ⟨-, rfl⟩, _, ⟨-, -, rfl⟩, es', out, hconvert, -, -, -, fee,
      ⟨-, -, rfl⟩, rfl, rfl⟩ := hok
    obtain ⟨rfl, hsym, hgiven⟩ := directConvert_sell (by exact h₁.base_symbol.symm)
      (h₁.quote_symbol.trans h₁.core_eq.symm) hconvert
    obtain rfl : row.owner = account := Table.key_of_find? hrow
    rw [inflow_sold (takes_ne (htakes _ List.mem_cons_self)).symm (hsym.trans h₁.core_eq),
      ← sub_eq_add_neg]
    refine ⟨_, h₁.toConserved.sell hrow rfl, h₁.core_eq, h₁.base_symbol, h₁.quote_symbol,
      fun hd => ?_⟩
    have hs := h₁.solvent hd
    refine hs.sell h₁.toConserved hrow hpos howned rfl ?_
    rw [hgiven]
    exact hd.mul_le hs.base_nonneg hs.quote_nonneg hpos.le

theorem setram {size : ℕ} (h : Sound d s es core initial held)
    (hok : Ram.setram env s size = .ok (s', sent)) :
    ∃ es', Sound d s' es' core initial (held + inflow core sent) := by
  simp only [Ram.setram, requireAuth, State.getMarket, h.market, Except.bind_ok_iff, check_ok_iff,
    exists_const, Except.ok.injEq, Except.pure_ok_iff, Prod.mk.injEq] at hok
  obtain ⟨-, hmore, -, -, _, rfl, rfl, rfl⟩ := hok
  rw [inflow_nil, add_zero]
  exact ⟨_, h.grow (by omega)⟩

theorem setramrate {rate : Fin (2 ^ 16)} (h : Sound d s es core initial held)
    (hok : Ram.setramrate env s rate = .ok (s', sent)) :
    ∃ es', Sound d s' es' core initial (held + inflow core sent) := by
  simp only [Ram.setramrate, requireAuth, Except.bind_ok_iff, check_ok_iff, exists_const,
    Except.pure_ok_iff, Prod.mk.injEq] at hok
  obtain ⟨-, s₁, hs₁, rfl, rfl⟩ := hok
  obtain ⟨es₁, h₁⟩ := h.updateRamSupply hs₁
  rw [inflow_nil, add_zero]
  exact ⟨es₁, h₁.congr rfl rfl rfl rfl rfl rfl⟩

theorem transact {tx : Transaction} (h : Sound d s es core initial held)
    (hok : Ram.transact d tx s = .ok (s', sent)) :
    ∃ es', Sound d s' es' core initial (held + inflow core sent) := by
  simp only [Ram.transact, Except.bind_ok_iff, check_ok_iff, exists_const, Prod.exists,
    Except.pure_ok_iff, Prod.mk.injEq] at hok
  obtain ⟨_, _, hok, htakes, rfl, rfl⟩ := hok
  cases ha : tx.action with
  | buyram payer receiver quant =>
    rw [ha] at hok
    exact h.buyram hok htakes
  | buyrambytes payer receiver bytes =>
    rw [ha] at hok
    exact h.buyrambytes hok htakes
  | sellram account bytes =>
    rw [ha] at hok
    exact h.sellram hok htakes
  | setram size =>
    rw [ha] at hok
    exact h.setram hok
  | setramrate rate =>
    rw [ha] at hok
    exact h.setramrate hok

/-- What an account owns it can sell without unstaking more than was staked. -/
theorem sellram_avoids (h : Sound d s es core initial held) (hd : d.RoundsDown) (env : Env)
    (account : Name) (bytes : ℤ) : Avoids .stake (Ram.sellram d env s account bytes) := by
  refine .check_bind nofun fun _ => .bind (updateRamSupply_avoids env s) fun s₁ hs₁ => ?_
  obtain ⟨es₁, h₁⟩ := h.updateRamSupply hs₁
  refine .check_bind nofun fun hpos => ?_
  cases hrow : s₁.totals.find? account with
  | none => exact .error nofun
  | some row =>
    refine .check_bind nofun fun howned => .bind (getMarket_avoids s₁ _) fun es₂ hes₂ => ?_
    refine .bind (getCoreSymbol_avoids s₁) fun core' hcore => ?_
    refine .bind (make_avoids _ _) fun payment hpayment => ?_
    refine .bind (directConvert_avoids d _ _ _) fun r hr => .check_bind nofun fun _ => ?_
    refine .checked_bind ?_ <| .check_bind nofun fun _ => .bind (make_avoids _ _) fun _ _ => .ok _
    obtain rfl : es₁ = es₂ := by simpa [State.getMarket, h₁.market] using hes₂
    obtain ⟨-, -, rfl⟩ := Asset.make_ok_iff.mp hpayment
    simp only [State.getCoreSymbol, Except.bind_ok_iff, check_ok_iff, exists_const,
      Except.pure_ok_iff] at hcore
    obtain ⟨-, rfl⟩ := hcore
    obtain ⟨es', out⟩ := r
    obtain ⟨-, -, hgiven⟩ := directConvert_sell (by exact h₁.base_symbol.symm)
      (h₁.quote_symbol.trans h₁.core_eq.symm) hr
    have hs := h₁.solvent hd
    refine sub_nonneg.mpr (hs.out_le_stake h₁.toConserved (Table.mem_of_find? hrow) hpos howned ?_)
    rw [hgiven]
    exact hd.mul_le hs.base_nonneg hs.quote_nonneg hpos.le

end Sound

-- ---------------------------------------------------------------------------
-- The size
-- ---------------------------------------------------------------------------

/-- `setram` sets less than `2 ^ 50` bytes, and a slot adds less than `2 ^ 16`. With 32-bit slots
the size stays far below what its 64-bit word holds. -/
def SizeOk (s : State) : Prop := s.maxRamSize ≤ 2 ^ 50 + 2 ^ 16 * s.lastRamIncrease

private theorem grown_le {size : ℤ} {last cbt rate : ℕ} (h : size ≤ 2 ^ 50 + 2 ^ 16 * last)
    (hlast : last ≤ cbt) (hrate : rate ≤ 2 ^ 16) :
    size + ((cbt - last) * rate % 2 ^ 32 : ℕ) ≤ 2 ^ 50 + 2 ^ 16 * cbt := by
  have hword : (cbt - last) * rate % 2 ^ 32 ≤ (cbt - last) * 2 ^ 16 :=
    (Nat.mod_le _ _).trans (Nat.mul_le_mul_left _ hrate)
  generalize (cbt - last) * rate % 2 ^ 32 = newRam at hword ⊢
  omega

theorem updateRamSupply_size {env : Env} {s s' : State} (h : SizeOk s)
    (hok : updateRamSupply env s = .ok s') : SizeOk s' := by
  unfold updateRamSupply at hok
  dsimp only at hok
  split_ifs at hok with hlast
  · exact Except.pure_ok_iff.mp hok ▸ h
  · simp only [Except.bind_ok_iff, Except.pure_ok_iff] at hok
    obtain ⟨es, -, rfl⟩ := hok
    exact grown_le h (not_le.mp hlast).le s.newRamPerBlock.isLt.le

theorem transact_size {s s' : State} {tx : Transaction} {sent : List Sent} (h : SizeOk s)
    (hok : transact d tx s = .ok (s', sent)) : SizeOk s' := by
  cases ha : tx.action.isSetram with
  | true =>
    obtain ⟨hsize, hlast, -⟩ := transact_setram hok ha
    unfold SizeOk
    rw [hlast]
    omega
  | false =>
    obtain ⟨s₁, hs₁, hfollows⟩ := transact_follows hok ha
    have hsize := updateRamSupply_size h hs₁
    unfold SizeOk at hsize ⊢
    rwa [hfollows.size, hfollows.last]

theorem size_run {s : State} (h : SizeOk s) (txs : List Transaction) : SizeOk (s.final d txs) := by
  have hstep : ∀ s₁ (tx : Transaction) s₂ out, SizeOk s₁ → True → transact d tx s₁ = .ok (s₂, out) →
      SizeOk s₂ := fun s₁ tx s₂ out hs _ hok => transact_size hs hok
  exact Run.invariant hstep h (Run.along_true s txs)

-- ---------------------------------------------------------------------------
-- Runs
-- ---------------------------------------------------------------------------

/-- No RAM is sold, and nothing is staked for RAM. -/
structure NoRam (s : State) : Prop where
  reserved : s.totalRamBytesReserved = 0
  stake : s.totalRamStake = 0
  totals : ∀ u ∈ s.totals.rows, u.ramBytes = 0
  size_nonneg : 0 ≤ s.maxRamSize

theorem init_sound {env : Env} {s s' : State} {version : ℕ} {core : Symbol} {sent : List Sent}
    (h : NoRam s) (hok : init env s version core = .ok (s', sent)) :
    ∃ es, s'.market = some es ∧ Sound d s' es core es.quote.amount 0 := by
  simp only [init, requireAuth, Except.bind_ok_iff, check_ok_iff, exists_const] at hok
  obtain ⟨-, -, -, -, hok⟩ := hok
  cases hsupply : env.supply core.code with
  | none => simp [hsupply] at hok
  | some supply =>
    simp only [hsupply, Except.bind_ok_iff, check_ok_iff, exists_const, Except.pure_ok_iff,
      Prod.mk.injEq] at hok
    obtain ⟨-, hpos, rfl, rfl⟩ := hok
    refine ⟨_, rfl, ⟨rfl, sub_add_cancel _ _, ?_, ?_, h.stake⟩, rfl, rfl, rfl, fun _ => ?_⟩
    · exact h.reserved.trans (Table.sum_eq_zero h.totals).symm
    · exact (sub_self _).trans h.stake.symm
    · refine ⟨?_, Int.ediv_nonneg hpos.le (by norm_num), h.stake.ge, ?_,
        fun u hu => (h.totals u hu).ge⟩
      · simp only [h.reserved, sub_zero]
        exact h.size_nonneg
      · simp only [h.reserved, sub_zero]
        rw [mul_comm]

/-- The core tokens a run moves into `amax.ram`, less those it moves out. -/
def State.moved (d : Doubles) (s : State) (txs : List Transaction) : ℤ :=
  inflow s.coreSymbol (Run.outputs (transact d) s txs)

theorem inflow_append (core : Symbol) (l l' : List Sent) :
    inflow core (l ++ l') = inflow core l + inflow core l' := by
  simp [inflow]

theorem sound_run {s : State} {es : ExchangeState} {initial : ℤ}
    (h : Sound d s es s.coreSymbol initial 0) (txs : List Transaction) :
    ∃ es', Sound d (s.final d txs) es' s.coreSymbol initial (s.moved d txs) := by
  have hstep : ∀ s₁ held (tx : Transaction) s₂ out,
      (∃ es', Sound d s₁ es' s.coreSymbol initial held) → True → transact d tx s₁ = .ok (s₂, out) →
      ∃ es', Sound d s₂ es' s.coreSymbol initial (held + inflow s.coreSymbol out) :=
    fun s₁ held tx s₂ out ⟨_, hs⟩ _ hok => hs.transact hok
  have hrun := Run.invariant_tally hstep ⟨es, h⟩ (Run.along_true s txs)
  rwa [zero_add, Run.tally_outputs rfl (inflow_append _)] at hrun

/-- From the initialisation of the contract on, the RAM market is conserved in every run. While
its trades give no more than the exact quotient, the product of the reserves is at least what the
whole RAM was worth at first, the stake is not negative, and no sale of owned RAM is refused for
want of stake. -/
theorem ram_conserved {env : Env} {s s₀ : State} {version : ℕ} {core : Symbol} {sent : List Sent}
    (h : NoRam s) (hinit : init env s version core = .ok (s₀, sent)) (txs : List Transaction) :
    ∃ es₀ es, s₀.market = some es₀ ∧
      Conserved (s₀.final d txs) es es₀.quote.amount (s₀.moved d txs) ∧
      (d.RoundsDown →
        es₀.quote.amount * (s₀.final d txs).maxRamSize ≤ es.base.amount * es.quote.amount ∧
        0 ≤ (s₀.final d txs).totalRamStake ∧
        ∀ env account bytes, Avoids .stake (sellram d env (s₀.final d txs) account bytes)) := by
  obtain ⟨es₀, hmarket, hsound⟩ := init_sound (d := d) h hinit
  obtain ⟨es, hfinal⟩ := sound_run (hsound.core_eq.symm ▸ hsound) txs
  refine ⟨es₀, es, hmarket, hfinal.toConserved, fun hd => ?_⟩
  have hs := hfinal.solvent hd
  exact ⟨hs.product_le, hs.stake_nonneg, hfinal.sellram_avoids hd⟩

/-- A market that rounds the quotient of integers down, as the doubles do for small numbers. -/
private def exact : Doubles where
  bancorOutput i o x := o * x / (i + x)
  bancorInput o i out := i * out / (o - out)
  costPlusFee cost := cost * 1000 / 995

private theorem exact_roundsDown : exact.RoundsDown := by
  intro i o x hi ho hx
  refine ⟨getBancorOutput_nonneg exact i o x, ?_⟩
  have hquot : getBancorOutput exact i o x = o * x / (i + x) :=
    if_neg (not_lt.mpr (Int.ediv_nonneg (mul_nonneg ho hx) (add_nonneg hi hx)))
  rw [hquot]
  rcases (add_nonneg hi hx).eq_or_lt with hzero | hpos
  · have hzero' : (i + x : ℚ) = 0 := by exact_mod_cast hzero.symm
    rw [← hzero, hzero', Int.ediv_zero, div_zero, Int.cast_zero]
  · have hpos' : (0 : ℚ) < i + x := by exact_mod_cast hpos
    rw [le_div_iff₀ hpos']
    exact_mod_cast Int.ediv_mul_le (o * x) hpos.ne'

/-- A thousand tokens buy RAM, of which a thousand bytes are sold while the supply grows. -/
theorem ram_conserved_sale :
    let core : Symbol := ⟨['A', 'M', 'A', 'X'], 8⟩
    let env : Env := {
      now := seconds 1800000000, hasAuth := fun _ => true
      supply := fun _ => some ⟨1000000000000, core⟩ }
    let later : Env := { env with now := seconds 1800000100 }
    let txs : List Transaction := [
      ⟨env, .buyram 1 2 ⟨1000, core⟩⟩,
      ⟨env, .setramrate 5⟩,
      ⟨later, .sellram 2 1000⟩]
    let s₀ : State := {
      coreSymbol := core
      market := some {
        supply := ⟨100000000000000, ramcoreSymbol⟩
        base := ⟨68719476736, ramSymbol⟩
        quote := ⟨1000000000, core⟩ } }
    init env {} 0 core = .ok (s₀, [.openBalance rexAccount core self]) ∧
      s₀.moved exact txs = 981 ∧
      ∃ es₀ es, s₀.market = some es₀ ∧
        Conserved (s₀.final exact txs) es es₀.quote.amount (s₀.moved exact txs) ∧
        es₀.quote.amount * (s₀.final exact txs).maxRamSize ≤ es.base.amount * es.quote.amount := by
  intro core env later txs s₀
  have hstart : NoRam {} := ⟨rfl, rfl, fun _ hu => (List.not_mem_nil hu).elim, by decide⟩
  have hinit : init env {} 0 core = .ok (s₀, [.openBalance rexAccount core self]) := rfl
  obtain ⟨es₀, es, hmarket, hconserved, hsolvent⟩ := ram_conserved (d := exact) hstart hinit txs
  exact ⟨hinit, by decide +kernel, es₀, es, hmarket, hconserved, (hsolvent exact_roundsDown).1⟩

end Amax.Ram
