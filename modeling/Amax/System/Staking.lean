-- SUMMARY: Conservation of staked bandwidth: delegations, totals, voting stakes and refunds add up to the tokens staked.
import Amax.System.Bandwidth
import Amax.System.Effect

/-! # Conservation of stake

The four ledgers of staked bandwidth agree in every state of every run, and
together they hold what was moved into `amax.stake`. -/

namespace Amax

-- ---------------------------------------------------------------------------
-- The ledgers
-- ---------------------------------------------------------------------------

def DelegatedBandwidth.stake (d : DelegatedBandwidth) : ℤ := d.netWeight.amount + d.cpuWeight.amount

def RefundRequest.owed (r : RefundRequest) : ℤ := r.netAmount.amount + r.cpuAmount.amount

def Totals.net (t : Totals) (n : Name) : ℤ := ((t.find? n).map (·.netWeight.amount)).getD 0
def Totals.cpu (t : Totals) (n : Name) : ℤ := ((t.find? n).map (·.cpuWeight.amount)).getD 0

namespace Bandwidth

/-- What the action `m` moves into `amax.stake`, in tokens with the symbol `sym`. -/
def Sent.inflow (sym : Symbol) : Sent → ℤ
  | .inline (.transfer sender receiver quantity _) =>
    if quantity.symbol = sym then
      (if receiver = stakeAccount then quantity.amount else 0) -
        (if sender = stakeAccount then quantity.amount else 0)
    else 0
  | _ => 0

def inflow (sym : Symbol) (sent : List Sent) : ℤ := (sent.map (Sent.inflow sym)).sum

/-- The four ledgers agree, and hold `held` tokens together. -/
structure Conserved (b : Bandwidth) (held : ℤ) : Prop where
  held_eq : b.delbands.sum DelegatedBandwidth.stake + b.refunds.sum RefundRequest.owed = held
  net_eq : ∀ n, b.totals.net n =
    b.delbands.sum fun d => if d.receiver = n then d.netWeight.amount else 0
  cpu_eq : ∀ n, b.totals.cpu n =
    b.delbands.sum fun d => if d.receiver = n then d.cpuWeight.amount else 0
  staked_eq : ∀ n, (b.system.voter n).staked =
    b.delbands.sum fun d => if d.sender = n then d.netWeight.amount + d.cpuWeight.amount else 0
  delbands_nonneg : ∀ d ∈ b.delbands.rows, 0 ≤ d.netWeight.amount ∧ 0 ≤ d.cpuWeight.amount
  refunds_nonneg : ∀ r ∈ b.refunds.rows, 0 ≤ r.netAmount.amount ∧ 0 ≤ r.cpuAmount.amount

namespace Conserved

variable {b : Bandwidth} {held : ℤ}

theorem totals_nonneg (h : Conserved b held) (n : Name) :
    0 ≤ b.totals.net n ∧ 0 ≤ b.totals.cpu n := by
  rw [h.net_eq, h.cpu_eq]
  constructor
  · refine Table.sum_nonneg fun d hd => ?_
    split_ifs
    · exact (h.delbands_nonneg d hd).1
    · exact le_rfl
  · refine Table.sum_nonneg fun d hd => ?_
    split_ifs
    · exact (h.delbands_nonneg d hd).2
    · exact le_rfl

theorem staked_nonneg (h : Conserved b held) (n : Name) : 0 ≤ (b.system.voter n).staked := by
  rw [h.staked_eq]
  refine Table.sum_nonneg fun d hd => ?_
  split_ifs
  · exact add_nonneg (h.delbands_nonneg d hd).1 (h.delbands_nonneg d hd).2
  · exact le_rfl

/-- No voter has more at stake than all tokens staked, so that the 64-bit stake of a voter does
not wrap. -/
theorem staked_le (h : Conserved b held) (n : Name) : (b.system.voter n).staked ≤ held := by
  rw [h.staked_eq, ← h.held_eq]
  have hdel : (b.delbands.sum fun d => if d.sender = n then d.netWeight.amount + d.cpuWeight.amount
      else 0) ≤ b.delbands.sum DelegatedBandwidth.stake := by
    refine Table.sum_le_sum fun d hd => ?_
    have := h.delbands_nonneg d hd
    simp only [DelegatedBandwidth.stake]
    split_ifs <;> omega
  have href : 0 ≤ b.refunds.sum RefundRequest.owed := Table.sum_nonneg fun r hr =>
    add_nonneg (h.refunds_nonneg r hr).1 (h.refunds_nonneg r hr).2
  omega

end Conserved

-- ---------------------------------------------------------------------------
-- Delegated bandwidth and totals
-- ---------------------------------------------------------------------------

variable {sender receiver : Name} {net cpu : Asset}

/-- A sum over the delegations that is linear in the two weights grows by what it counts of the
change alone. -/
theorem updateDelband_sum {t t' : Delbands} (h : updateDelband t sender receiver net cpu = .ok t')
    {f : DelegatedBandwidth → ℤ} (w w' : Name → Name → ℤ)
    (hf : ∀ d, f d = w d.sender d.receiver * d.netWeight.amount +
      w' d.sender d.receiver * d.cpuWeight.amount) :
    t'.sum f = t.sum f + f ⟨sender, receiver, net, cpu⟩ := by
  simp only [updateDelband, Except.bind_ok_iff, check_ok_iff, exists_const,
    Except.pure_ok_iff] at h
  obtain ⟨row, hrow, -, -, rfl⟩ := h
  have hkey : toLex (row.sender, row.receiver) = toLex (sender, receiver) ∧
      f row = ((t.find? (toLex (sender, receiver))).map f).getD 0 +
        f ⟨sender, receiver, net, cpu⟩ := by
    unfold delbandRow at hrow
    cases hfind : t.find? (toLex (sender, receiver)) with
    | none =>
      simp only [hfind, payRow, Except.bind_ok_iff, check_ok_iff, exists_const,
        Except.pure_ok_iff] at hrow
      obtain ⟨-, rfl⟩ := hrow
      exact ⟨rfl, by simp⟩
    | some d =>
      simp only [hfind, Except.bind_ok_iff, Asset.add_ok_iff, Except.pure_ok_iff] at hrow
      obtain ⟨_, ⟨-, -, rfl⟩, _, ⟨-, -, rfl⟩, rfl⟩ := hrow
      have hk : toLex (d.sender, d.receiver) = toLex (sender, receiver) :=
        (Table.key_of_find? hfind :)
      have hpair := Prod.mk.inj (toLex.injective hk)
      refine ⟨hk, ?_⟩
      simp only [hf, Option.map_some, Option.getD_some, hpair.1, hpair.2]
      ring
  rw [← hkey.1, t.sum_setOrErase, hkey.2, hkey.1]
  · ring
  · rintro ⟨hn, hc⟩
    rw [hf, hn, hc]
    ring

theorem updateDelband_mem {t t' : Delbands} (h : updateDelband t sender receiver net cpu = .ok t')
    {d : DelegatedBandwidth} (hd : d ∈ t'.rows) :
    d ∈ t.rows ∨ (0 ≤ d.netWeight.amount ∧ 0 ≤ d.cpuWeight.amount) := by
  simp only [updateDelband, Except.bind_ok_iff, check_ok_iff, exists_const,
    Except.pure_ok_iff] at h
  obtain ⟨row, hrow, hn, hc, rfl⟩ := h
  split_ifs at hd with hempty
  · exact .inl (Table.mem_erase.mp hd).1
  · rcases Table.mem_set.mp hd with rfl | hd
    · exact .inr ⟨hn, hc⟩
    · exact .inl hd.1

/-- The totals of the receiver grow by the change, and those of the others stay. -/
theorem updateTotals_ok {t t' : Totals} (h : updateTotals t sender receiver net cpu = .ok t')
    (n : Name) :
    t'.net n = t.net n + (if receiver = n then net.amount else 0) ∧
      t'.cpu n = t.cpu n + (if receiver = n then cpu.amount else 0) := by
  simp only [updateTotals, Except.bind_ok_iff, check_ok_iff, exists_const,
    Except.pure_ok_iff] at h
  obtain ⟨row, hrow, -, -, rfl⟩ := h
  have hsum : row.owner = receiver ∧ row.netWeight.amount = t.net receiver + net.amount ∧
      row.cpuWeight.amount = t.cpu receiver + cpu.amount := by
    unfold totalsRow at hrow
    unfold Totals.net Totals.cpu
    cases hfind : t.find? receiver with
    | none =>
      simp only [hfind, payRow, Except.bind_ok_iff, check_ok_iff, exists_const,
        Except.pure_ok_iff] at hrow
      obtain ⟨-, rfl⟩ := hrow
      exact ⟨rfl, by simp, by simp⟩
    | some u =>
      simp only [hfind, Except.bind_ok_iff, Asset.add_ok_iff, Except.pure_ok_iff] at hrow
      obtain ⟨_, ⟨-, -, rfl⟩, _, ⟨-, -, rfl⟩, rfl⟩ := hrow
      exact ⟨(Table.key_of_find? hfind :), rfl, rfl⟩
  obtain ⟨rfl, hn, hc⟩ := hsum
  by_cases hk : row.owner = n
  · subst hk
    rw [if_pos rfl, if_pos rfl, ← hn, ← hc, Totals.net, Totals.cpu, Table.find?_setOrErase,
      if_pos rfl]
    split_ifs with hempty
    · exact ⟨hempty.1.symm, hempty.2.1.symm⟩
    · exact ⟨rfl, rfl⟩
  · rw [if_neg hk, if_neg hk, Totals.net, Totals.cpu, Table.find?_setOrErase, if_neg hk, add_zero,
      add_zero]
    exact ⟨rfl, rfl⟩

-- ---------------------------------------------------------------------------
-- Refunds and transfers
-- ---------------------------------------------------------------------------

theorem netAgainst_ok {amount balance amount' balance' : Asset}
    (h : netAgainst amount balance = .ok (amount', balance')) :
    amount'.amount - balance'.amount = amount.amount - balance.amount ∧
      0 ≤ amount'.amount ∧ 0 ≤ balance'.amount ∧
      amount'.symbol = amount.symbol ∧ balance'.symbol = balance.symbol := by
  simp only [netAgainst, Except.bind_ok_iff, Asset.sub_ok_iff] at h
  obtain ⟨rest, ⟨hsym, -, rfl⟩, h⟩ := h
  split_ifs at h with hneg
  · obtain ⟨rfl, rfl⟩ := Prod.mk.inj (Except.pure_ok_iff.mp h)
    refine ⟨?_, le_rfl, neg_nonneg.mpr hneg.le, rfl, hsym.symm⟩
    simp only [Asset.neg_amount]
    omega
  · obtain ⟨rfl, rfl⟩ := Prod.mk.inj (Except.pure_ok_iff.mp h)
    exact ⟨sub_zero _, not_lt.mp hneg, le_rfl, rfl, rfl⟩

theorem newRefund_ok {sym : Symbol} {balance amount' balance' : Asset}
    (hsym : balance.symbol = sym) (h : newRefund balance sym = .ok (amount', balance')) :
    amount'.amount - balance'.amount = -balance.amount ∧ 0 ≤ amount'.amount ∧
      0 ≤ balance'.amount ∧ amount'.symbol = sym ∧ balance'.symbol = sym := by
  unfold newRefund at h
  split_ifs at h with hneg
  · obtain ⟨rfl, rfl⟩ := Prod.mk.inj (Except.pure_ok_iff.mp h)
    exact ⟨sub_zero _, neg_nonneg.mpr hneg.le, le_rfl, hsym, hsym⟩
  · simp only [Except.bind_ok_iff, Asset.make_ok_iff, Except.pure_ok_iff, Prod.mk.injEq] at h
    obtain ⟨_, ⟨-, -, rfl⟩, rfl, rfl⟩ := h
    exact ⟨zero_sub _, le_rfl, not_lt.mp hneg, rfl, hsym⟩

@[simp] theorem inflow_nil (sym : Symbol) : inflow sym [] = 0 := rfl

theorem inflow_append (sym : Symbol) (l l' : List Sent) :
    inflow sym (l ++ l') = inflow sym l + inflow sym l' := by
  simp [inflow]

theorem inflow_stake {sym : Symbol} {source : Name} {quantity : Asset} {memo : String}
    (hsource : source ≠ stakeAccount) (hsym : quantity.symbol = sym) :
    inflow sym [.inline (.transfer source stakeAccount quantity memo)] = quantity.amount := by
  simp [inflow, Sent.inflow, hsource, hsym]

theorem inflow_unstake {sym : Symbol} {target : Name} {quantity : Asset} {memo : String}
    (htarget : target ≠ stakeAccount) (hsym : quantity.symbol = sym) :
    inflow sym [.inline (.transfer stakeAccount target quantity memo)] = -quantity.amount := by
  simp [inflow, Sent.inflow, htarget, hsym]

/-- The refund `r` is owed in core tokens, and not to `amax.stake`. -/
structure RefundOk (sym : Symbol) (r : RefundRequest) : Prop where
  net_nonneg : 0 ≤ r.netAmount.amount
  cpu_nonneg : 0 ≤ r.cpuAmount.amount
  net_symbol : r.netAmount.symbol = sym
  cpu_symbol : r.cpuAmount.symbol = sym
  owner : r.owner ≠ stakeAccount

/-- What the refunds take up of the two balances, they owe less. -/
theorem updateRefund_ok {now : TimePoint} {sym : Symbol} {t t' : Refunds} {net' cpu' : Asset}
    {pending : Bool} (ht : ∀ r ∈ t.rows, RefundOk sym r) (hsender : sender ≠ stakeAccount)
    (hnet : net.symbol = sym) (hcpu : cpu.symbol = sym)
    (h : updateRefund now sym t sender net cpu = .ok (t', net', cpu', pending)) :
    (∀ r ∈ t'.rows, RefundOk sym r) ∧
      (0 ≤ net'.amount ∧ 0 ≤ cpu'.amount ∧ net'.symbol = sym) ∧
      t'.sum RefundRequest.owed + (net.amount + cpu.amount) =
        t.sum RefundRequest.owed + (net'.amount + cpu'.amount) := by
  unfold updateRefund at h
  cases hfind : t.find? sender with
  | some req =>
    have hreq := ht req (Table.mem_of_find? hfind)
    obtain rfl : req.owner = sender := Table.key_of_find? hfind
    simp only [hfind, Except.bind_ok_iff, check_ok_iff, exists_const, Prod.exists] at h
    obtain ⟨netAmount, netBalance, hn, cpuAmount, cpuBalance, hc, hn₀, hc₀, h⟩ := h
    obtain ⟨hnsum, -, hnb, hnsym, hnbsym⟩ := netAgainst_ok hn
    obtain ⟨hcsum, -, hcb, hcsym, -⟩ := netAgainst_ok hc
    by_cases hempty : netAmount.amount = 0 ∧ cpuAmount.amount = 0
    · simp only [if_pos hempty, Except.pure_ok_iff, Prod.mk.injEq] at h
      obtain ⟨rfl, rfl, rfl, -⟩ := h
      refine ⟨fun r hr => ht r (Table.mem_erase.mp hr).1, ⟨hnb, hcb, hnbsym.trans hnet⟩, ?_⟩
      rw [Table.sum_erase_of_find? hfind, RefundRequest.owed]
      omega
    · simp only [if_neg hempty, Except.pure_ok_iff, Prod.mk.injEq] at h
      obtain ⟨rfl, rfl, rfl, -⟩ := h
      refine ⟨fun r hr => ?_, ⟨hnb, hcb, hnbsym.trans hnet⟩, ?_⟩
      · rcases Table.mem_set.mp hr with rfl | hr
        · exact ⟨hn₀, hc₀, hnsym.trans hreq.net_symbol, hcsym.trans hreq.cpu_symbol, hsender⟩
        · exact ht r hr.1
      · rw [Table.sum_set_of_find? (a := req) (by exact hfind)]
        simp only [RefundRequest.owed]
        omega
  | none =>
    simp only [hfind] at h
    split_ifs at h with hneg
    · simp only [payRow, Except.bind_ok_iff, check_ok_iff, exists_const, Prod.exists,
        Except.pure_ok_iff, Prod.mk.injEq] at h
      obtain ⟨-, netAmount, netBalance, hn, cpuAmount, cpuBalance, hc, rfl, rfl, rfl, -⟩ := h
      obtain ⟨hnsum, hn₀, hnb, hnsym, hnbsym⟩ := newRefund_ok hnet hn
      obtain ⟨hcsum, hc₀, hcb, hcsym, -⟩ := newRefund_ok hcpu hc
      refine ⟨fun r hr => ?_, ⟨hnb, hcb, hnbsym⟩, ?_⟩
      · rcases Table.mem_set.mp hr with rfl | hr
        · exact ⟨hn₀, hc₀, hnsym, hcsym, hsender⟩
        · exact ht r hr.1
      · rw [Table.sum_set_of_none (by exact hfind)]
        simp only [RefundRequest.owed]
        omega
    · simp only [Except.pure_ok_iff, Prod.mk.injEq] at h
      obtain ⟨rfl, rfl, rfl, -⟩ := h
      exact ⟨ht, ⟨by omega, by omega, hnet⟩, rfl⟩

/-- Before elections are initialised, what a stake does not move it takes from a refund. -/
theorem moveByRefund_ok {now : TimePoint} {sym : Symbol} {t t' : Refunds} {source : Name}
    {transfer : Bool} {sent : List Sent} (ht : ∀ r ∈ t.rows, RefundOk sym r)
    (hsource : source ≠ stakeAccount) (hsender : transfer = false → sender = source)
    (htransfer : transfer = true → 0 ≤ net.amount + cpu.amount)
    (hnet : net.symbol = sym) (hcpu : cpu.symbol = sym)
    (h : moveByRefund now sym t source sender receiver net cpu transfer = .ok (t', sent)) :
    (∀ r ∈ t'.rows, RefundOk sym r) ∧
      t'.sum RefundRequest.owed + (net.amount + cpu.amount) =
        t.sum RefundRequest.owed + inflow sym sent := by
  simp only [moveByRefund, Except.bind_ok_iff, Prod.exists] at h
  obtain ⟨t₁, net', cpu', pending, h₁, total, htotal, h⟩ := h
  have hspec : (∀ r ∈ t₁.rows, RefundOk sym r) ∧
      (0 ≤ net'.amount + cpu'.amount ∧ net'.symbol = sym) ∧
      t₁.sum RefundRequest.owed + (net.amount + cpu.amount) =
        t.sum RefundRequest.owed + (net'.amount + cpu'.amount) := by
    split_ifs at h₁ with hcase
    · have hne : sender ≠ stakeAccount := by
        cases htr : transfer with
        | false => exact fun e => hsource ((hsender htr).symm.trans e)
        | true =>
          -- a transfer neither unstakes nor stakes to oneself
          have := htransfer htr
          simp [htr] at hcase
          omega
      obtain ⟨hok, ⟨hn, hc, hsym⟩, hsum⟩ := updateRefund_ok ht hne hnet hcpu h₁
      exact ⟨hok, ⟨by omega, hsym⟩, hsum⟩
    · simp only [Except.ok.injEq, Prod.mk.injEq] at h₁
      obtain ⟨rfl, rfl, rfl, -⟩ := h₁
      simp only [not_or, not_lt] at hcase
      exact ⟨ht, ⟨hcase.2, hnet⟩, rfl⟩
  obtain ⟨hok, ⟨hnonneg, hsym⟩, hsum⟩ := hspec
  obtain ⟨-, -, rfl⟩ := Asset.add_ok_iff.mp htotal
  have hdeferred : inflow sym (if pending then [.cancelDeferred sender, .deferRefund sender]
      else [.cancelDeferred sender]) = 0 := by
    split_ifs <;> rfl
  generalize (if pending then [Sent.cancelDeferred sender, .deferRefund sender]
      else [.cancelDeferred sender]) = deferred at h hdeferred
  split_ifs at h with hpos
  · simp only [Except.pure_ok_iff, Prod.mk.injEq] at h
    obtain ⟨rfl, rfl⟩ := h
    refine ⟨hok, ?_⟩
    rw [inflow_append, hdeferred, inflow_stake hsource (by exact hsym), hsum, zero_add]
  · simp only [Except.pure_ok_iff, Prod.mk.injEq] at h
    obtain ⟨rfl, rfl⟩ := h
    refine ⟨hok, ?_⟩
    rw [hdeferred, hsum, le_antisymm (by exact not_lt.mp hpos) hnonneg]

/-- A stake of `net` and `cpu` leaves refunds and moves tokens that make up for it. -/
theorem moveStake_ok {env : Env} {b : Bandwidth} {source : Name} {transfer : Bool} {t' : Refunds}
    {sent : List Sent} (ht : ∀ r ∈ b.refunds.rows, RefundOk b.system.gstate.coreSymbol r)
    (hsource : source ≠ stakeAccount) (hsender : transfer = false → sender = source)
    (htransfer : transfer = true → 0 ≤ net.amount + cpu.amount)
    (hnet : net.symbol = b.system.gstate.coreSymbol)
    (hcpu : cpu.symbol = b.system.gstate.coreSymbol)
    (h : moveStake env b source sender receiver net cpu transfer = .ok (t', sent)) :
    (∀ r ∈ t'.rows, RefundOk b.system.gstate.coreSymbol r) ∧
      t'.sum RefundRequest.owed + (net.amount + cpu.amount) =
        b.refunds.sum RefundRequest.owed + inflow b.system.gstate.coreSymbol sent := by
  unfold moveStake at h
  rw [if_pos hsource.symm] at h
  split_ifs at h with hinit
  · simp only [moveAtOnce, Except.bind_ok_iff, check_ok_iff, exists_const, Asset.add_ok_iff,
      Except.pure_ok_iff, Prod.mk.injEq] at h
    obtain ⟨_, ⟨-, _, ⟨-, -, rfl⟩, h⟩, rfl, rfl⟩ := h
    refine ⟨ht, ?_⟩
    split_ifs at h with hpos hneg <;> rw [← Except.ok.inj h]
    · rw [inflow_stake hsource (by exact hnet)]
    · rw [inflow_unstake hsource (by exact hnet), Asset.neg_amount, neg_neg]
    · have hzero : net.amount + cpu.amount = 0 := le_antisymm (not_lt.mp hpos) (not_lt.mp hneg)
      rw [inflow_nil, hzero]
  · simp only [System.coreSymbol, Except.bind_ok_iff, check_ok_iff, exists_const,
      Except.pure_ok_iff] at h
    obtain ⟨_, ⟨-, rfl⟩, h⟩ := h
    exact moveByRefund_ok ht hsource hsender htransfer hnet hcpu h

-- ---------------------------------------------------------------------------
-- Voting power
-- ---------------------------------------------------------------------------

private theorem voter_set (s : System) (gs : GlobalState) (v : VoterInfo) (n : Name) :
    ({ s with gstate := gs, voters := s.voters.set v } : System).voter n =
      if v.owner = n then v else s.voter n := by
  simp only [System.voter, Table.find?_set]
  split_ifs <;> rfl

theorem withVoteSymbol_staked (v : VoterInfo) : v.withVoteSymbol.staked = v.staked := by
  unfold VoterInfo.withVoteSymbol
  split_ifs <;> rfl

theorem updateVoteWeightOld_staked {env : Amax.Env} {s s' : System} {voter : Name}
    {producers : List Name} {voting : Bool}
    (h : updateVoteWeightOld env s voter producers voting = .ok s') :
    s'.gstate.coreSymbol = s.gstate.coreSymbol ∧
      ∀ n, (s'.voter n).staked = (s.voter n).staked := by
  simp only [updateVoteWeightOld, Except.bind_ok_iff, check_ok_iff, exists_const] at h
  obtain ⟨-, list, -, h⟩ := h
  cases hv : s.voters.find? voter with
  | none => simp [hv] at h
  | some v =>
    simp only [hv, Except.bind_ok_iff, Except.pure_ok_iff] at h
    obtain ⟨-, -, rfl⟩ := h
    refine ⟨by dsimp only; split_ifs <;> rfl, fun n => ?_⟩
    rw [voter_set, VoterInfo.withVoteSymbol_owner]
    split_ifs with hn
    · rw [withVoteSymbol_staked, ← hn, Table.key_of_find? hv, System.voter_of_find? hv]
    · rfl

theorem stakedVoter_ok {s : System} {voter : Name} {d : ℤ} {v : VoterInfo}
    (h : stakedVoter s voter d = .ok v) :
    v.owner = voter ∧ v.staked = (s.voter voter).staked + d := by
  unfold stakedVoter at h
  cases hv : s.voters.find? voter with
  | none =>
    simp only [hv, payRow, Except.bind_ok_iff, check_ok_iff, exists_const,
      Except.pure_ok_iff] at h
    obtain ⟨-, rfl⟩ := h
    rw [System.voter_of_none hv]
    exact ⟨rfl, (zero_add d).symm⟩
  | some w =>
    simp only [hv, Except.ok.injEq] at h
    subst h
    rw [System.voter_of_find? hv]
    exact ⟨(Table.key_of_find? hv :), rfl⟩

theorem updateVotingPower_staked {env : Amax.Env} {s s' : System} {voter : Name} {d : ℤ}
    (h : updateVotingPower env s voter d = .ok s') :
    s'.gstate.coreSymbol = s.gstate.coreSymbol ∧
      ∀ n, (s'.voter n).staked = (s.voter n).staked + if voter = n then d else 0 := by
  simp only [updateVotingPower, Except.bind_ok_iff, check_ok_iff, exists_const] at h
  obtain ⟨v, hv, -, h⟩ := h
  obtain ⟨rfl, hstaked⟩ := stakedVoter_ok hv
  have hset : ∀ n, (({ s with voters := s.voters.set v } : System).voter n).staked =
      (s.voter n).staked + if v.owner = n then d else 0 := by
    intro n
    rw [voter_set s s.gstate]
    split_ifs with hn
    · rw [hstaked, hn]
    · rw [add_zero]
  split_ifs at h
  · obtain ⟨hsym, hkeep⟩ := updateVoteWeightOld_staked h
    exact ⟨hsym, fun n => (hkeep n).trans (hset n)⟩
  · obtain rfl := Except.pure_ok_iff.mp h
    exact ⟨rfl, hset⟩

-- ---------------------------------------------------------------------------
-- Steps
-- ---------------------------------------------------------------------------

/-- The ledgers agree, and what the refunds owe are core tokens. -/
structure Sound (sym : Symbol) (b : Bandwidth) (held : ℤ) : Prop extends Conserved b held where
  symbol : b.system.gstate.coreSymbol = sym
  refunds_ok : ∀ r ∈ b.refunds.rows, RefundOk sym r

namespace Sound

variable {sym : Symbol} {env : Env} {b b' : Bandwidth} {held : ℤ} {sent : List Sent}

theorem changebw {transfer : Bool} (h : Sound sym b held) (hsource : sender ≠ stakeAccount)
    (htransfer : transfer = true → 0 ≤ net.amount + cpu.amount)
    (hnet : net.symbol = sym) (hcpu : cpu.symbol = sym)
    (hok : Bandwidth.changebw env b sender receiver net cpu transfer = .ok (b', sent)) :
    Sound sym b' (held + inflow sym sent) := by
  obtain ⟨⟨hheld, hnets, hcpus, hstaked, hdel, href⟩, rfl, hrefs⟩ := h
  simp only [Bandwidth.changebw, Except.bind_ok_iff, check_ok_iff, exists_const, Prod.exists,
    Except.pure_ok_iff, Prod.mk.injEq] at hok
  obtain ⟨-, -, total, htotal, -, delbands, hdelbands, totals, htotals, -, refunds, sent', hmove,
    system, hpower, rfl, rfl⟩ := hok
  obtain ⟨-, -, rfl⟩ := Asset.add_ok_iff.mp htotal
  obtain ⟨hsymbol, hpower⟩ := updateVotingPower_staked hpower
  obtain ⟨hrefs', hsum⟩ := moveStake_ok hrefs hsource (fun htr => by simp [htr]) htransfer hnet
    hcpu hmove
  refine ⟨⟨?_, fun n => ?_, fun n => ?_, fun n => ?_, fun d hd => ?_, ?_⟩, hsymbol, hrefs'⟩
  · have hstake := updateDelband_sum hdelbands (f := DelegatedBandwidth.stake) (fun _ _ => 1)
      (fun _ _ => 1) fun d => by simp [DelegatedBandwidth.stake]
    simp only [DelegatedBandwidth.stake] at hstake
    simp only [← hheld, hstake]
    omega
  · rw [(updateTotals_ok htotals n).1, hnets n, updateDelband_sum hdelbands
      (fun _ r => if r = n then 1 else 0) fun _ _ => 0]
    intro d
    split_ifs <;> ring
  · rw [(updateTotals_ok htotals n).2, hcpus n, updateDelband_sum hdelbands
      (fun _ _ => 0) fun _ r => if r = n then 1 else 0]
    intro d
    split_ifs <;> ring
  · rw [hpower n, hstaked n, updateDelband_sum hdelbands
      (fun s _ => if s = n then 1 else 0) fun s _ => if s = n then 1 else 0]
    intro d
    split_ifs <;> ring
  · exact (updateDelband_mem hdelbands hd).elim (hdel d) id
  · exact fun r hr => ⟨(hrefs' r hr).net_nonneg, (hrefs' r hr).cpu_nonneg⟩

theorem delegatebw {transfer : Bool} (h : Sound sym b held) (hsource : sender ≠ stakeAccount)
    (hok : Bandwidth.delegatebw env b sender receiver net cpu transfer = .ok (b', sent)) :
    Sound sym b' (held + inflow sym sent) := by
  obtain ⟨hnet, hcpu, hpos, hok⟩ := delegatebw_ok hok
  exact h.changebw hsource (fun _ => hpos.le) (hnet.trans h.symbol) (hcpu.trans h.symbol) hok

theorem undelegatebw (h : Sound sym b held) (hsource : sender ≠ stakeAccount)
    (hok : Bandwidth.undelegatebw env b sender receiver net cpu = .ok (b', sent)) :
    Sound sym b' (held + inflow sym sent) := by
  obtain ⟨hnet, hcpu, hok⟩ := undelegatebw_ok hok
  have hnet' : net.neg.symbol = sym := hnet.trans h.symbol
  have hcpu' : cpu.neg.symbol = sym := hcpu.trans h.symbol
  exact h.changebw hsource (fun e => absurd e Bool.false_ne_true) hnet' hcpu' hok

theorem refund {owner : Name} (h : Sound sym b held)
    (hok : Bandwidth.refund env b owner = .ok (b', sent)) :
    Sound sym b' (held + inflow sym sent) := by
  obtain ⟨req, quantity, hfind, -, -, hquantity, rfl, rfl⟩ := refund_ok hok
  obtain ⟨-, -, rfl⟩ := Asset.add_ok_iff.mp hquantity
  have hreq := h.refunds_ok req (Table.mem_of_find? hfind)
  obtain rfl : req.owner = owner := Table.key_of_find? hfind
  refine ⟨⟨?_, h.net_eq, h.cpu_eq, h.staked_eq, h.delbands_nonneg, fun r hr => ?_⟩, h.symbol,
    fun r hr => ?_⟩
  · rw [inflow_unstake hreq.owner (by exact hreq.net_symbol), ← h.held_eq,
      Table.sum_erase_of_find? hfind, RefundRequest.owed]
    dsimp only
    omega
  · exact h.refunds_nonneg r (Table.mem_erase.mp hr).1
  · exact h.refunds_ok r (Table.mem_erase.mp hr).1

/-- Actions that keep the voters and the core symbol keep the ledgers. -/
theorem onSystem {r : Amax.Outcome} (h : Sound sym b held)
    (hr : ∀ s sent', r = .ok (s, sent') → s.voters = b.system.voters ∧
      s.gstate.coreSymbol = b.system.gstate.coreSymbol ∧ sent' = [])
    (hok : Bandwidth.onSystem b r = .ok (b', sent)) : Sound sym b' (held + inflow sym sent) := by
  obtain ⟨s, sent', hrok, rfl, rfl⟩ := onSystem_ok hok
  obtain ⟨hvoters, hsymbol, rfl⟩ := hr s sent' hrok
  rw [List.map_nil, inflow_nil, add_zero]
  refine ⟨⟨h.held_eq, h.net_eq, h.cpu_eq, fun n => ?_, h.delbands_nonneg, h.refunds_nonneg⟩,
    hsymbol.trans h.symbol, h.refunds_ok⟩
  rw [← h.staked_eq n, System.voter, System.voter, hvoters]

/-- What keeps the state outside of the elections keeps the voters and the core symbol. -/
private theorem kept_of_outside {s s' : System} (h : s'.outside = s.outside) :
    s'.voters = s.voters ∧ s'.gstate.coreSymbol = s.gstate.coreSymbol :=
  ⟨(congrArg System.voters h :), (congrArg (fun t : System => t.gstate.coreSymbol) h :)⟩

theorem upgradevote (h : Sound sym b held)
    (hok : Bandwidth.onSystem b (Amax.upgradevote env.toEnv b.system) = .ok (b', sent)) :
    Sound sym b' (held + inflow sym sent) := by
  refine h.onSystem (fun s sent' hs => ?_) hok
  simp only [Amax.upgradevote, Except.bind_ok_iff, Except.pure_ok_iff, Prod.mk.injEq] at hs
  obtain ⟨-, -, rfl, rfl⟩ := hs
  obtain ⟨hvoters, hsymbol⟩ := kept_of_outside (updateElectedProducers_outside env.toEnv
    { b.system with electGstate := { b.system.electGstate with electedVersion := 1 } })
  exact ⟨hvoters, hsymbol, rfl⟩

theorem initbbpelect {count : ℕ} (h : Sound sym b held)
    (hok : Bandwidth.onSystem b (Amax.initbbpelect env.toEnv b.system count) = .ok (b', sent)) :
    Sound sym b' (held + inflow sym sent) := by
  refine h.onSystem (fun s sent' hs => ?_) hok
  simp only [Amax.initbbpelect, requireAdmin, Except.bind_ok_iff, check_ok_iff,
    exists_const] at hs
  obtain ⟨-, -, s₁, h₁, hs⟩ := hs
  have hout : s₁.voters = b.system.voters ∧
      s₁.gstate.coreSymbol = b.system.gstate.coreSymbol := by
    split_ifs at h₁ with hre
    · have hkept := kept_of_outside (startElection_outside h₁)
      exact ⟨hkept.1, hkept.2⟩
    · rw [← Except.ok.inj h₁]
      exact ⟨rfl, rfl⟩
  split_ifs at hs
  · obtain ⟨rfl, rfl⟩ := Prod.mk.inj (Except.pure_ok_iff.mp hs)
    exact ⟨hout.1, hout.2, rfl⟩
  · obtain ⟨rfl, rfl⟩ := Prod.mk.inj (Except.pure_ok_iff.mp hs)
    exact ⟨hout.1, hout.2, rfl⟩

theorem transact {tx : Transaction} (h : Sound sym b held)
    (hsource : tx.action.source ≠ some stakeAccount)
    (hok : Bandwidth.transact tx b = .ok (b', sent)) : Sound sym b' (held + inflow sym sent) := by
  simp only [Bandwidth.transact, Except.bind_ok_iff, check_ok_iff, exists_const, Prod.exists,
    Except.pure_ok_iff, Prod.mk.injEq] at hok
  obtain ⟨_, _, hok, -, rfl, rfl⟩ := hok
  cases ha : tx.action with
  | delegatebw sender receiver net cpu transfer =>
    rw [ha] at hok hsource
    exact h.delegatebw (fun e => hsource (congrArg some e)) hok
  | undelegatebw sender receiver net cpu =>
    rw [ha] at hok hsource
    exact h.undelegatebw (fun e => hsource (congrArg some e)) hok
  | refund owner =>
    rw [ha] at hok
    exact h.refund hok
  | upgradevote =>
    rw [ha] at hok
    exact h.upgradevote hok
  | initbbpelect count =>
    rw [ha] at hok
    exact h.initbbpelect hok

end Sound

-- ---------------------------------------------------------------------------
-- Runs
-- ---------------------------------------------------------------------------

/-- Nothing is staked, and no refund is pending. -/
structure NoStake (b : Bandwidth) : Prop where
  delbands : b.delbands.rows = []
  refunds : b.refunds.rows = []
  totals : ∀ u ∈ b.totals.rows, u.netWeight.amount = 0 ∧ u.cpuWeight.amount = 0
  voters : ∀ v ∈ b.system.voters.rows, v.staked = 0

theorem NoStake.sound {b : Bandwidth} (h : NoStake b) : Sound b.system.gstate.coreSymbol b 0 := by
  have hdel : ∀ f, b.delbands.sum f = 0 := fun f => by rw [Table.sum, h.delbands]; rfl
  have href : ∀ f, b.refunds.sum f = 0 := fun f => by rw [Table.sum, h.refunds]; rfl
  have htotals : ∀ n, b.totals.net n = 0 ∧ b.totals.cpu n = 0 := by
    intro n
    unfold Totals.net Totals.cpu
    cases hn : b.totals.find? n with
    | none => exact ⟨rfl, rfl⟩
    | some u => exact h.totals u (Table.mem_of_find? hn)
  refine ⟨⟨by rw [hdel, href]; rfl, fun n => ?_, fun n => ?_, fun n => ?_, fun d hd => ?_,
    fun r hr => ?_⟩, rfl, fun r hr => ?_⟩
  · rw [hdel, (htotals n).1]
  · rw [hdel, (htotals n).2]
  · rw [hdel, System.voter]
    cases hn : b.system.voters.find? n with
    | none => rfl
    | some v => exact h.voters v (Table.mem_of_find? hn)
  · rw [h.delbands] at hd
    cases hd
  · rw [h.refunds] at hr
    cases hr
  · rw [h.refunds] at hr
    cases hr

/-- The core tokens a run moves into `amax.stake`, less those it moves out. -/
def moved (b : Bandwidth) (txs : List Transaction) : ℤ :=
  inflow b.system.gstate.coreSymbol (Run.outputs transact b txs)

theorem sound_run {b : Bandwidth} (h : NoStake b) {txs : List Transaction}
    (hsource : ∀ tx ∈ txs, tx.action.source ≠ some stakeAccount) :
    Sound b.system.gstate.coreSymbol (b.final txs) (b.moved txs) := by
  have hstep : ∀ s n (tx : Transaction) s' out, Sound b.system.gstate.coreSymbol s n →
      tx.action.source ≠ some stakeAccount → transact tx s = .ok (s', out) →
      Sound b.system.gstate.coreSymbol s' (n + inflow b.system.gstate.coreSymbol out) :=
    fun s n tx s' out hs hp hok => hs.transact hp hok
  have hrun := Run.invariant_tally hstep h.sound (Run.along_of_forall hsource b)
  rwa [zero_add, Run.tally_outputs rfl (inflow_append _)] at hrun

/-- In every run that stakes nothing of `amax.stake` itself, the delegations and the refunds are
what was moved into `amax.stake`, the totals and the stakes of the voters add up the delegations,
and nothing is negative. -/
theorem stake_conserved {b : Bandwidth} (h : NoStake b) {txs : List Transaction}
    (hsource : ∀ tx ∈ txs, tx.action.source ≠ some stakeAccount) :
    Conserved (b.final txs) (b.moved txs) ∧
      (∀ n, 0 ≤ (b.final txs).totals.net n ∧ 0 ≤ (b.final txs).totals.cpu n) ∧
      ∀ n, 0 ≤ ((b.final txs).system.voter n).staked := by
  have hc := (sound_run h hsource).toConserved
  exact ⟨hc, hc.totals_nonneg, hc.staked_nonneg⟩

/-- A chain whose stake is activated. -/
private def activated : Bandwidth where
  system := { gstate := {
    coreSymbol := ⟨['A', 'M', 'A', 'X'], 8⟩, threshActivatedStakeTime := seconds 1 } }

/-- An unstake waits as a refund, and a new stake uses up a part of it; once elections are
initialised, an unstake is paid at once. -/
theorem stake_conserved_refund :
    let amax (n : ℤ) : Asset := ⟨n, ⟨['A', 'M', 'A', 'X'], 8⟩⟩
    let at_ (t : ℕ) (a : Action) : Transaction := ⟨{ now := seconds t, hasAuth := fun _ => true }, a⟩
    let txs : List Transaction := [
      at_ 1800000000 (.delegatebw 1 1 (amax 100) (amax 50) false),
      at_ 1800000000 (.undelegatebw 1 1 (amax 30) (amax 20)),
      at_ 1800000001 (.delegatebw 1 1 (amax 10) (amax 10) false),
      at_ 1800000002 (.delegatebw 1 2 (amax 7) (amax 0) true),
      at_ 1800300000 (.refund 1),
      at_ 1800300000 .upgradevote,
      at_ 1800300000 (.undelegatebw 1 1 (amax 5) (amax 5))]
    activated.moved txs = 117 ∧ Conserved (activated.final txs) (activated.moved txs) := by
  intro amax at_ txs
  have hstart : NoStake activated :=
    ⟨rfl, rfl, fun _ hu => (List.not_mem_nil hu).elim, fun _ hv => (List.not_mem_nil hv).elim⟩
  exact ⟨by decide +kernel, (stake_conserved hstart (by decide +kernel)).1⟩

end Bandwidth

end Amax
