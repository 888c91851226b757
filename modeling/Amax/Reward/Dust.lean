-- SUMMARY: What a producer of the reward contract has over what it owes: rounding dust, and what it got while it had no votes.
import Amax.Reward.Actions

/-! # Dust

Deposits and settlements both round down, and what they round off stays with
the producer. A settlement leaves less than one unit and a deposit less than
one scaled unit for each vote. A deposit for a producer without votes has
nobody to be owed to, and stays as a whole. -/

namespace Amax.Reward

/-- What a producer has over what it owes to all of its voters, scaled. -/
def State.surplus (s : State) (p : Name) : ℤ :=
  (s.producer p).allocatingRewards * highPrecision - s.voters.sum (·.owedBy (s.producer p))

/-- `1` if the transaction settles a voter of `p`. -/
def settlement (p : Name) (s : State) (tx : Transaction) : ℤ :=
  match tx.action.voter with
  | some voter => if ((s.voter voter).producers.find? p).isSome then 1 else 0
  | none => 0

/-- What the transaction, if it is a transfer credited to `p`, brings `p`. -/
def deposit (p : Name) (s : State) (tx : Transaction) : Option ℤ :=
  match tx.action with
  | .ontransfer sender receiver quantity =>
    if Credited tx.env s sender receiver quantity ∧ sender = p then some quantity.amount else none
  | _ => none

/-- The votes of `p` at the time of a transfer credited to it. -/
def depositVotes (p : Name) (s : State) (tx : Transaction) : ℤ :=
  if (deposit p s tx).isSome then (s.producer p).votes else 0

/-- What `p` is credited while it has no votes. -/
def stranded (p : Name) (s : State) (tx : Transaction) : ℤ :=
  if (s.producer p).votes = 0 then (deposit p s tx).getD 0 else 0

section Steps

variable {s s' : State} {flows : List Flow} {p : Name} {tx : Transaction}

theorem VoterAction.surplus_eq {voter : Name} {v' : Voter} (h : VoterAction s voter v' s' flows)
    (p : Name) : s'.surplus p = s.surplus p + ((s.voter voter).owedBy (s.producer p) -
      Accrual.payout highPrecision ((s.voter voter).owedBy (s.producer p)) * highPrecision) := by
  have hsum := h.step.sum_owedBy p
  have hvoters : s'.voters = s.voters.set v' := by rw [h.state]
  unfold State.surplus
  rw [hvoters]
  simp only [State.producer] at hsum ⊢
  rw [hsum, h.step.row p]
  ring

theorem VoterAction.surplus_le {voter : Name} {v' : Voter} (h : VoterAction s voter v' s' flows)
    (hv : tx.action.voter = some voter) (p : Name) :
    s'.surplus p ≤ s.surplus p + highPrecision * settlement p s tx := by
  rw [h.surplus_eq p, settlement, hv]
  dsimp only
  split_ifs with hp
  · have := Accrual.lt_payout_mul_add (x := (s.voter voter).owedBy (s.producer p))
      highPrecision_pos
    omega
  · have hzero : (s.voter voter).owedBy (s.producer p) = 0 := by
      rw [Voter.owedBy_row, Option.not_isSome_iff_eq_none.mp hp]
    rw [hzero, Accrual.payout_zero]
    omega

theorem Deposit.surplus_eq {n : Name} {p' : Producer} {q d total : ℤ} (h : Ledger s)
    (hd : Deposit (s.producer n) p' q d) (p : Name) :
    State.surplus { s with totalRewards := total, producers := s.producers.set p' } p =
      s.surplus p + if n = p then q * highPrecision - d * (s.producer p).votes else 0 := by
  have howner : p'.owner = n := hd.owner.trans (producerRow_owner _ _)
  have hrow : producerRow (s.producers.set p') p = if n = p then p' else s.producer p := by
    rw [producerRow_set, howner]
  unfold State.surplus
  rw [show State.producer { s with totalRewards := total, producers := s.producers.set p' } p =
    producerRow (s.producers.set p') p from rfl, hrow]
  split_ifs with hn
  · subst hn
    simp only [hd.owedBy, producerRow_owner, Table.sum_add, Table.sum_mul_left, ← h.votes_eq n,
      hd.allocating]
    ring
  · rw [add_zero]

/-- What a deposit leaves over: less than a scaled unit for each vote, or all of it. -/
theorem raise_remainder {r : Producer} {q : ℤ} (hq : 0 ≤ q) (hv : 0 ≤ r.votes) :
    q * highPrecision - r.raise q * r.votes ≤
      r.votes + highPrecision * if r.votes = 0 then q else 0 := by
  unfold Producer.raise
  rcases hv.lt_or_eq with hpos | hzero
  · rw [if_neg hpos.ne', mul_zero, add_zero]
    rcases hq.lt_or_eq with hq | rfl
    · rw [if_pos ⟨hq, hpos⟩]
      have := Accrual.lt_raise_mul_add (P := highPrecision) (q := q) hpos
      omega
    · simp [hv]
  · rw [if_pos hzero.symm, ← hzero, mul_zero, sub_zero, zero_add, mul_comm]

/-- One transaction. -/
theorem transact_surplus (h : Ledger s) (hok : transact tx s = .ok (s', flows)) (p : Name) :
    s'.surplus p ≤ s.surplus p + (highPrecision * settlement p s tx +
      (depositVotes p s tx + highPrecision * stranded p s tx)) := by
  cases hv : tx.action.voter with
  | some voter =>
    obtain ⟨v', ha⟩ := transact_voter h hok hv
    have hnone : deposit p s tx = none := by
      unfold deposit
      cases htx : tx.action with
      | ontransfer _ _ _ => simp [htx, Action.voter] at hv
      | _ => rfl
    have hle := ha.surplus_le hv p
    simp only [depositVotes, stranded, hnone, Option.isSome_none, Bool.false_eq_true, if_false,
      Option.getD_none, ite_self, mul_zero, add_zero]
    exact hle
  | none =>
    have hsettle : settlement p s tx = 0 := by rw [settlement, hv]
    simp only [transact, Except.bind_ok_iff, check_ok_iff, exists_const] at hok
    replace hok := hok.2
    cases htx : tx.action with
    | regproducer n =>
      rw [htx] at hok
      obtain ⟨-, p', hd, rfl⟩ := regproducer_ok h hok
      have hnone : deposit p s tx = none := by rw [deposit, htx]
      have heq : State.surplus { s with producers := s.producers.set p' } p = _ :=
        hd.surplus_eq h p
      simp only [zero_mul, sub_zero, ite_self, add_zero] at heq
      simp only [hsettle, depositVotes, stranded, hnone, Option.isSome_none, Bool.false_eq_true,
        if_false, Option.getD_none, ite_self, mul_zero, add_zero]
      exact heq.le
    | ontransfer sender receiver quantity =>
      rw [htx] at hok
      have hvotes := h.producer_votes_nonneg p
      rcases ontransfer_ok h hok with ⟨hnot, rfl, -⟩ | ⟨hin, hq, -, p', hd, rfl⟩
      · have hnone : deposit p s' tx = none := by
          simp only [deposit, htx]
          exact if_neg fun hc => hnot hc.1
        simp [hsettle, depositVotes, stranded, hnone]
      · rw [hd.surplus_eq h p, hsettle]
        by_cases hn : sender = p
        · subst hn
          have hsome : deposit sender s tx = some quantity.amount := by
            simp only [deposit, htx]
            exact if_pos ⟨hin, trivial⟩
          have hrem := raise_remainder hq hvotes
          simp only [depositVotes, stranded, hsome, Option.isSome_some, if_true, Option.getD_some]
          omega
        · have hnone : deposit p s tx = none := by
            simp only [deposit, htx]
            exact if_neg fun hc => hn hc.2
          simp [hn, depositVotes, stranded, hnone]
    | _ => simp [htx, Action.voter] at hv

end Steps

-- ---------------------------------------------------------------------------
-- Runs
-- ---------------------------------------------------------------------------

/-- If the transaction is a transfer credited to `p` that brings anything, `p` has votes. -/
def FindsVotes (p : Name) (s : State) (tx : Transaction) : Prop :=
  (∃ r, transact tx s = .ok r) → ∀ q, deposit p s tx = some q → q = 0 ∨ 0 < (s.producer p).votes

theorem FindsVotes.stranded_eq {p : Name} {s : State} {tx : Transaction} (h : FindsVotes p s tx)
    (hok : ∃ r, transact tx s = .ok r) : stranded p s tx = 0 := by
  unfold stranded
  split_ifs with hzero
  · cases hd : deposit p s tx with
    | none => rfl
    | some q => exact (h hok q hd).resolve_right hzero.not_gt
  · rfl

theorem surplus_run (coreSymbol : Symbol) (txs : List Transaction) (p : Name) :
    (State.final (.fresh coreSymbol) txs).surplus p ≤
      highPrecision * Run.total transact (settlement p) (.fresh coreSymbol) txs +
        (Run.total transact (depositVotes p) (.fresh coreSymbol) txs +
          highPrecision * Run.total transact (stranded p) (.fresh coreSymbol) txs) := by
  have hstep : ∀ s n tx s' out, (∃ l, Books s l) ∧ s.surplus p ≤ n → True →
      transact tx s = .ok (s', out) → (∃ l, Books s' l) ∧
        s'.surplus p ≤ n + (highPrecision * settlement p s tx +
          (depositVotes p s tx + highPrecision * stranded p s tx)) := by
    intro s n tx s' out ⟨⟨l, hb⟩, hle⟩ _ hok
    have hone := transact_surplus hb.ledger hok p
    exact ⟨⟨l ++ out, transact_books hb hok⟩, by omega⟩
  have hstart : (∃ l, Books (.fresh coreSymbol) l) ∧ State.surplus (.fresh coreSymbol) p ≤ 0 :=
    ⟨⟨[], books_fresh coreSymbol⟩, le_rfl⟩
  have hrun := (Run.invariant_total (P := fun _ _ => True) hstep hstart (Run.along_true _ txs)).2
  simp only [Run.total_add, Run.total_mul_left, zero_add] at hrun
  exact hrun

/-- After every run, what a producer has over what it owes is at most one unit for each settlement
of one of its voters, a scaled unit for each vote at the time of each transfer credited to it, and
what it was credited while it had no votes: nothing, if every transfer finds votes. -/
theorem dust_bounded (coreSymbol : Symbol) (txs : List Transaction) (p : Name) :
    let s := State.final (.fresh coreSymbol) txs
    let surplus := (s.producer p).allocatingRewards * 10 ^ 18 -
      s.voters.sum fun v => match v.producers.find? p with
        | some e => v.votes * ((s.producer p).rewardsPerVote - e.lastRewardsPerVote)
        | none => 0
    let dust := 10 ^ 18 * Run.total transact (settlement p) (.fresh coreSymbol) txs +
      Run.total transact (depositVotes p) (.fresh coreSymbol) txs
    surplus ≤ dust + 10 ^ 18 * Run.total transact (stranded p) (.fresh coreSymbol) txs ∧
      (Run.Along transact (FindsVotes p) (.fresh coreSymbol) txs → surplus ≤ dust) := by
  intro s surplus dust
  have hsurplus : surplus = s.surplus p := by
    simp only [surplus, State.surplus, Voter.owedBy_row]
    rfl
  have hrun := surplus_run coreSymbol txs p
  have hbound : surplus ≤
      dust + 10 ^ 18 * Run.total transact (stranded p) (.fresh coreSymbol) txs := by
    rw [hsurplus]
    exact hrun.trans (add_assoc _ _ _).ge
  refine ⟨hbound, fun hfinds => ?_⟩
  have hzero : Run.total transact (stranded p) (.fresh coreSymbol) txs = 0 :=
    Run.total_eq_zero (hfinds.mono fun _ _ h r hr => h.stranded_eq ⟨r, hr⟩)
  rwa [hzero, mul_zero, add_zero] at hbound

private def amaxSymbol : Symbol := ⟨['A', 'M', 'A', 'X'], 8⟩

private def anybody : Env := { hasAuth := fun _ => true }

private def transfer (q : ℤ) : Transaction :=
  ⟨anybody, .ontransfer 1 rewardAccount ⟨q, amaxSymbol⟩⟩

/-- Three voters of producer 1, who get a thousand tokens and are settled once each. -/
private def dusty : List Transaction :=
  [⟨anybody, .regproducer 1⟩, ⟨anybody, .addvote 2 ⟨1, voteSymbol⟩⟩,
    ⟨anybody, .voteproducer 2 [1]⟩, ⟨anybody, .addvote 3 ⟨2, voteSymbol⟩⟩,
    ⟨anybody, .voteproducer 3 [1]⟩, transfer 1000, ⟨anybody, .claimrewards 2⟩,
    ⟨anybody, .claimrewards 3⟩]

/-- Of a thousand tokens for three votes 333 and 666 are claimed, and one is left over. -/
theorem dust_bounded_third :
    let s := State.final (.fresh amaxSymbol) dusty
    (s.producer 1).allocatingRewards = 1 ∧
      (s.producer 1).allocatingRewards * 10 ^ 18 - (s.voters.sum fun v =>
        match v.producers.find? 1 with
        | some e => v.votes * ((s.producer 1).rewardsPerVote - e.lastRewardsPerVote)
        | none => 0) ≤ 10 ^ 18 * Run.total transact (settlement 1) (.fresh amaxSymbol) dusty +
          Run.total transact (depositVotes 1) (.fresh amaxSymbol) dusty := by
  refine ⟨by decide +kernel, (dust_bounded amaxSymbol dusty 1).2 ?_⟩
  have hnone : ∀ s (tx : Transaction), (∀ sender receiver quantity,
      tx.action ≠ .ontransfer sender receiver quantity) → FindsVotes 1 s tx := by
    intro s tx h _ q hq
    unfold deposit at hq
    cases htx : tx.action with
    | ontransfer sender receiver quantity => exact absurd htx (h _ _ _)
    | _ => simp [htx] at hq
  exact ⟨hnone _ _ nofun, hnone _ _ nofun, hnone _ _ nofun, hnone _ _ nofun, hnone _ _ nofun,
    fun _ _ _ => .inr (by decide +kernel), hnone _ _ nofun, hnone _ _ nofun, trivial⟩

/-- What a producer shares before it has any votes is never owed to anyone. -/
theorem dust_unbounded_unvoted :
    let txs : List Transaction := [⟨anybody, .regproducer 1⟩, transfer 1000]
    let s := State.final (.fresh amaxSymbol) txs
    Run.Along transact (fun s tx => (transact tx s).toBool = true) (.fresh amaxSymbol) txs ∧
      ¬ ((s.producer 1).allocatingRewards * 10 ^ 18 - (s.voters.sum fun v =>
        match v.producers.find? 1 with
        | some e => v.votes * ((s.producer 1).rewardsPerVote - e.lastRewardsPerVote)
        | none => 0) ≤ 10 ^ 18 * Run.total transact (settlement 1) (.fresh amaxSymbol) txs +
          Run.total transact (depositVotes 1) (.fresh amaxSymbol) txs) := by
  decide +kernel

end Amax.Reward
