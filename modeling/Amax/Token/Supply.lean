-- SUMMARY: The balances of every currency of the token contract add up to its supply, which never passes the maximum.
import Amax.Token.Contract

/-! # Supply of the token contract -/

namespace Amax.Token

-- ---------------------------------------------------------------------------
-- Balances
-- ---------------------------------------------------------------------------

section Balances

variable {accounts accounts' : Accounts} {stats : Currencies CurrencyStats.supply}
variable {gap : List Char → ℤ} {owner : Name} {value : Asset} {st : CurrencyStats}

theorem subBalance_circulates (h : Circulates accounts stats gap)
    (hok : subBalance accounts owner value = .ok accounts') :
    Circulates accounts' stats (gap + Pi.single value.symbol.code (-value.amount)) := by
  unfold subBalance at hok
  cases hrow : accounts.find? (toLex (owner, value.symbol.code)) with
  | none => simp [hrow] at hok
  | some row =>
    simp only [hrow, Except.bind_ok_iff, check_ok_iff, exists_const, Asset.sub_ok_iff,
      Except.pure_ok_iff] at hok
    obtain ⟨hle, _, ⟨hsym, -, rfl⟩, rfl⟩ := hok
    exact h.changed hrow rfl rfl (sub_eq_add_neg _ _) (sub_nonneg.mpr hle)

theorem addBalance_circulates (h : Circulates accounts stats gap) (hst : st ∈ stats.rows)
    (hsym : st.supply.symbol = value.symbol) (hpos : 0 ≤ value.amount)
    (hok : addBalance accounts owner value = .ok accounts') :
    Circulates accounts' stats (gap + Pi.single value.symbol.code value.amount) := by
  unfold addBalance at hok
  cases hrow : accounts.find? (toLex (owner, value.symbol.code)) with
  | none =>
    simp only [hrow, Except.ok.injEq] at hok
    subst hok
    exact h.opened (r := ⟨owner, value⟩) hrow hst hsym hpos
  | some row =>
    simp only [hrow, Except.bind_ok_iff, Asset.add_ok_iff, Except.pure_ok_iff] at hok
    obtain ⟨_, ⟨hsym', -, rfl⟩, rfl⟩ := hok
    have hrow₀ := h.nonneg row (Table.mem_of_find? hrow)
    exact h.changed hrow rfl rfl rfl (add_nonneg hrow₀ hpos)

end Balances

-- ---------------------------------------------------------------------------
-- Every action
-- ---------------------------------------------------------------------------

/-- The balances of every currency are its supply, and no supply passes its maximum. -/
structure Sound (s : State) : Prop where
  circulates : Circulates s.accounts s.stats 0
  capped : ∀ st ∈ s.stats.rows, st.supply.amount ≤ st.maxSupply.amount

section Actions

variable {env : Env} {s s' : State} {out : List Name}

theorem create_sound {issuer : Name} {maximumSupply : Asset} (h : Sound s)
    (hok : create env s issuer maximumSupply = .ok (s', out)) : Sound s' := by
  obtain ⟨-, -, hpos, hnone, rfl⟩ := create_ok hok
  refine ⟨h.circulates.create hnone rfl, fun st hst => ?_⟩
  rcases Table.mem_set.mp hst with rfl | ⟨hst, -⟩
  · exact hpos.le
  · exact h.capped st hst

theorem issue_sound {issuer : Name} {quantity : Asset} {memo : String} (h : Sound s)
    (hok : issue env s issuer quantity memo = .ok (s', out)) : Sound s' := by
  obtain ⟨st, accounts, hst, -, hpos, hsym, hcap, hadd, rfl⟩ := issue_ok hok
  have hcirc := h.circulates.supplied (u := { st with
    supply := ⟨st.supply.amount + quantity.amount, st.supply.symbol⟩ }) hst rfl rfl
  refine ⟨(addBalance_circulates hcirc (Table.mem_set.mpr (.inl rfl)) hsym.symm hpos.le
    hadd).settled (neg_add_cancel _), fun st' hst' => ?_⟩
  rcases Table.mem_set.mp hst' with rfl | ⟨hst', -⟩
  · simp only
    omega
  · exact h.capped st' hst'

theorem setissue_sound {issuer newissuer : Name} {sym : Symbol} (h : Sound s)
    (hok : setissue env s issuer sym newissuer = .ok (s', out)) : Sound s' := by
  obtain ⟨st, hst, rfl⟩ := setissue_ok hok
  refine ⟨h.circulates.modified hst rfl, fun st' hst' => ?_⟩
  rcases Table.mem_set.mp hst' with rfl | ⟨hst', -⟩
  · exact h.capped st (Table.mem_of_find? hst)
  · exact h.capped st' hst'

/-- Slashing a blacklisted account lowers its balance and the supply alike. -/
theorem slashblack_effect {target : Name} {quantity : Asset} {memo : String} (h : Sound s)
    (hok : slashblack env s target quantity memo = .ok (s', out)) :
    Sound s' ∧ isBlacklisted env s target env.self = true ∧
      (∀ n c, s'.accounts.amount n c = s.accounts.amount n c -
        if target = n ∧ quantity.symbol.code = c then quantity.amount else 0) ∧
      ∀ c, s'.stats.supplied c = s.stats.supplied c -
        if quantity.symbol.code = c then quantity.amount else 0 := by
  obtain ⟨-, hblack, hpos, row, st, hrow, hst, hle, rfl⟩ := slashblack_ok hok
  have hneg := sub_eq_add_neg row.balance.amount quantity.amount
  have hneg' := sub_eq_add_neg st.supply.amount quantity.amount
  have hsub := h.circulates.changed (r := { row with
    balance := ⟨row.balance.amount - quantity.amount, row.balance.symbol⟩ }) hrow rfl rfl hneg
    (sub_nonneg.mpr hle)
  have hcirc := hsub.supplied (u := { st with
    supply := ⟨st.supply.amount - quantity.amount, st.supply.symbol⟩ }) hst rfl hneg'
  have hamount := Holdings.amount_set_row (r := { row with
    balance := ⟨row.balance.amount - quantity.amount, row.balance.symbol⟩ }) hrow rfl rfl hneg
  have hsupplied := Currencies.supplied_set (u := { st with
    supply := ⟨st.supply.amount - quantity.amount, st.supply.symbol⟩ }) hst rfl hneg'
  refine ⟨⟨hcirc.settled (by omega), fun st' hst' => ?_⟩, hblack,
    fun n c => (hamount n c).trans ?_, fun c => (hsupplied c).trans ?_⟩
  · rcases Table.mem_set.mp hst' with rfl | ⟨hst', -⟩
    · have := h.capped st (Table.mem_of_find? hst)
      simp only
      omega
    · exact h.capped st' hst'
  · split_ifs <;> omega
  · split_ifs <;> omega

theorem retire_sound {quantity : Asset} {memo : String} (h : Sound s)
    (hok : retire env s quantity memo = .ok (s', out)) : Sound s' := by
  obtain ⟨st, accounts, hst, -, hpos, -, hsub, rfl⟩ := retire_ok hok
  have hcirc := h.circulates.supplied (u := { st with
    supply := ⟨st.supply.amount - quantity.amount, st.supply.symbol⟩ }) hst rfl
    (sub_eq_add_neg _ _)
  refine ⟨(subBalance_circulates hcirc hsub).settled (by omega), fun st' hst' => ?_⟩
  rcases Table.mem_set.mp hst' with rfl | ⟨hst', -⟩
  · have := h.capped st (Table.mem_of_find? hst)
    simp only
    omega
  · exact h.capped st' hst'

theorem transfer_sound {sender receiver : Name} {quantity : Asset} {memo : String}
    (h : Sound s) (hok : transfer env s sender receiver quantity memo = .ok (s', out)) :
    Sound s' := by
  obtain ⟨-, -, -, hpos, st, accounts, accounts', hst, hsym, hsub, hadd, rfl⟩ := transfer_ok hok
  have hcirc := subBalance_circulates h.circulates hsub
  exact ⟨(addBalance_circulates hcirc (Table.mem_of_find? hst) hsym.symm hpos.le
    hadd).settled (neg_add_cancel _), h.capped⟩

theorem blacklist_sound {targets : List Name} {toAdd : Bool} (h : Sound s)
    (hok : blacklist env s targets toAdd = .ok (s', out)) : Sound s' := by
  obtain ⟨haccounts, hstats⟩ := blacklist_ok hok
  refine ⟨?_, ?_⟩
  · rw [haccounts, hstats]
    exact h.circulates
  · rw [hstats]
    exact h.capped

theorem open_sound {owner ramPayer : Name} {symbol : Symbol} (h : Sound s)
    (hok : open_ env s owner symbol ramPayer = .ok (s', out)) : Sound s' := by
  rcases open_ok hok with rfl | ⟨st, hst, hsym, hrow, rfl⟩
  · exact h
  · refine ⟨(h.circulates.opened (r := ⟨owner, ⟨0, symbol⟩⟩) hrow (Table.mem_of_find? hst)
      hsym le_rfl).congr ?_, h.capped⟩
    simp

theorem close_sound {owner : Name} {symbol : Symbol} (h : Sound s)
    (hok : close env s owner symbol = .ok (s', out)) : Sound s' := by
  obtain ⟨row, hrow, hzero, rfl⟩ := close_ok hok
  exact ⟨h.circulates.closed hrow hzero, h.capped⟩

theorem transact_sound {tx : Transaction} (h : Sound s) (hok : transact tx s = .ok (s', out)) :
    Sound s' := by
  obtain ⟨env, action⟩ := tx
  cases action with
  | create => exact create_sound h hok
  | issue => exact issue_sound h hok
  | setissue => exact setissue_sound h hok
  | slashblack => exact (slashblack_effect h hok).1
  | retire => exact retire_sound h hok
  | transfer => exact transfer_sound h hok
  | blacklist => exact blacklist_sound h hok
  | open_ => exact open_sound h hok
  | close => exact close_sound h hok

end Actions

theorem final_sound (txs : List Transaction) : Sound (State.final {} txs) :=
  Run.invariant (fun _ _ _ _ h _ hok => transact_sound h hok) ⟨.empty, nofun⟩
    (Run.along_true _ txs)

/-- Whatever is done by whoever: what is held of a currency is its supply, no more than its
maximum, and slashing takes the same amount from a balance and from the supply. -/
theorem supply_conserved (txs : List Transaction) :
    (∀ code, (State.final {} txs).accounts.held code = (State.final {} txs).stats.supplied code) ∧
    (∀ st ∈ (State.final {} txs).stats.rows,
      (State.final {} txs).accounts.held st.supply.symbol.code = st.supply.amount ∧
        st.supply.amount ≤ st.maxSupply.amount) ∧
    (∀ r ∈ (State.final {} txs).accounts.rows, 0 ≤ r.balance.amount ∧
      ∃ st ∈ (State.final {} txs).stats.rows, st.supply.symbol = r.balance.symbol) ∧
    ∀ (env : Env) (target : Name) (quantity : Asset) (memo : String) (s' : State) (out : List Name),
      slashblack env (State.final {} txs) target quantity memo = .ok (s', out) →
      isBlacklisted env (State.final {} txs) target env.self = true ∧
      (∀ n c, s'.accounts.amount n c = (State.final {} txs).accounts.amount n c -
        if target = n ∧ quantity.symbol.code = c then quantity.amount else 0) ∧
      ∀ c, s'.stats.supplied c = (State.final {} txs).stats.supplied c -
        if quantity.symbol.code = c then quantity.amount else 0 := by
  have h := final_sound txs
  refine ⟨fun code => ?_, fun st hst => ?_, fun r hr => ?_, fun env target quantity memo s' out hok => ?_⟩
  · exact h.circulates.held_eq_supplied code
  · exact ⟨by simpa using h.circulates.held st hst, h.capped st hst⟩
  · exact ⟨h.circulates.nonneg r hr, h.circulates.issued r hr⟩
  · exact (slashblack_effect h hok).2

private def symbol : Symbol := ⟨['A', 'M', 'A', 'X'], 8⟩

private def anyone : Env := { hasAuth := fun _ => true }

/-- Account 1 is issued 100 tokens, gives 60 of them to account 2 and is blacklisted. -/
private def minted : List Transaction :=
  [⟨anyone, .create 1 ⟨1000, symbol⟩⟩, ⟨anyone, .issue 1 ⟨100, symbol⟩ ""⟩,
    ⟨anyone, .transfer 1 2 ⟨60, symbol⟩ ""⟩, ⟨anyone, .blacklist [1] true⟩]

theorem supply_conserved_slash :
    ∃ s' out, slashblack anyone (State.final {} minted) 1 ⟨30, symbol⟩ "" = .ok (s', out) ∧
      s'.accounts.amount 1 symbol.code = 10 ∧ s'.stats.supplied symbol.code = 70 := by
  obtain ⟨-, -, -, hslash⟩ := supply_conserved minted
  refine ⟨_, _, rfl, ?_, ?_⟩
  · rw [(hslash anyone 1 ⟨30, symbol⟩ "" _ _ rfl).2.1]
    rfl
  · rw [(hslash anyone 1 ⟨30, symbol⟩ "" _ _ rfl).2.2]
    rfl

end Amax.Token
