-- SUMMARY: Amounts of the reward contract stay in the range of an asset, and a claim pays all a voter has accrued.
import Amax.Reward.Actions

/-! # Claims

A claim settles a voter with all of its producers and pays out what the voter
has then. No amount can leave its range on the way: everything a voter ever
earned came in through transfers. What is left to stop a claim is the check
of the voter's votes. -/

namespace Amax.Reward

-- ---------------------------------------------------------------------------
-- Amounts in range
-- ---------------------------------------------------------------------------

/-- The amounts that no other amount bounds are in the range of an asset, and the contract only
has voters once the core symbol is valid. -/
structure Ranged (s : State) : Prop where
  votes_le : ∀ n, (s.producer n).votes ≤ Asset.maxAmount
  total_le : s.totalRewards ≤ Asset.maxAmount
  unclaimed_nonneg : ∀ v ∈ s.voters.rows, 0 ≤ v.unclaimedRewards
  claimed_nonneg : ∀ v ∈ s.voters.rows, 0 ≤ v.claimedRewards
  symbol : s.voters.rows ≠ [] → s.coreSymbol.isValid = true

/-- What the loop of `allocate_producer_rewards` keeps. -/
structure Allocation.Ranged (st : Allocation) : Prop where
  votes_le : ∀ n, (producerRow st.producers n).votes ≤ Asset.maxAmount
  unclaimed_nonneg : 0 ≤ st.unclaimedRewards

section Ranges

variable {votesOld votesDelta : ℤ} {st : Allocation}

private theorem payVoter_ranged {p : Producer} {last unclaimed : ℤ} (hu : 0 ≤ unclaimed) :
    Ensures (payVoter p votesOld last unclaimed) fun r =>
      r.1.owner = p.owner ∧ 0 ≤ r.2 := by
  unfold payVoter
  refine .ite (fun _ => ?_) fun _ => .ok ⟨rfl, hu⟩
  refine .check fun _ => .bind_eq fun rewards hrewards => ?_
  have hnonneg : 0 ≤ rewards := by
    simp only [calcVoterRewards, Except.bind_ok_iff, check_ok_iff, exists_const,
      Except.pure_ok_iff] at hrewards
    obtain ⟨-, -, h, -, rfl⟩ := hrewards
    exact h.1
  refine .check fun _ => .bind_eq fun _ _ => .bind_eq fun _ _ => .check fun _ =>
    .bind_eq fun sum hsum => .ok ⟨rfl, ?_⟩
  obtain ⟨-, rfl⟩ := addAmount_ok_iff.mp hsum
  exact add_nonneg hu hnonneg

theorem Allocation.Ranged.allocateOne (h : st.Ranged) (e : VotedProducer) :
    Ensures (allocateOne votesOld votesDelta st e) Allocation.Ranged := by
  unfold Reward.allocateOne
  refine .check fun _ => .bind (payVoter_ranged h.unclaimed_nonneg) fun r hr => ?_
  refine .bind_eq fun votes hvotes => .check fun _ => .ok ⟨fun n => ?_, hr.2⟩
  obtain ⟨⟨-, hle⟩, rfl⟩ := addAmount_ok_iff.mp hvotes
  rw [producerRow_set]
  split_ifs
  · exact hle
  · exact h.votes_le n

theorem Allocation.Ranged.foldlM (h : st.Ranged) (l : List VotedProducer) :
    Ensures (l.foldlM (Reward.allocateOne votesOld votesDelta) st) Allocation.Ranged := by
  induction l generalizing st with
  | nil => exact .ok h
  | cons e es ih =>
    rw [List.foldlM_cons]
    exact .bind (h.allocateOne e) fun _ h' => ih h'

theorem Allocation.Ranged.allocate (h : st.Ranged) (m : VotedProducerMap) :
    Ensures (allocateProducerRewards st.producers m votesOld votesDelta st.unclaimedRewards)
      Allocation.Ranged :=
  have h' : Allocation.Ranged ⟨st.producers, m, st.unclaimedRewards⟩ :=
    ⟨h.votes_le, h.unclaimed_nonneg⟩
  h'.foldlM m.rows

end Ranges

namespace Ranged

variable {env : Env} {s s' : State} {flows : List Flow}

theorem allocate (h : Ranged s) {m : VotedProducerMap} {w d : ℤ} (n : Name) :
    Ensures (allocateProducerRewards s.producers m w d (s.voter n).unclaimedRewards)
      Allocation.Ranged := by
  refine Allocation.Ranged.foldlM ⟨h.votes_le, ?_⟩ m.rows
  rcases voter_mem_or s n with hv | hv
  · exact h.unclaimed_nonneg _ hv
  · rw [hv]

/-- A voter is settled, and its row is set. -/
theorem settle (h : Ranged s) {st : Allocation} (hst : st.Ranged) {v : Voter}
    (hu : 0 ≤ v.unclaimedRewards) (hc : 0 ≤ v.claimedRewards) (hsym : s.coreSymbol.isValid = true) :
    Ranged { s with producers := st.producers, voters := s.voters.set v } where
  votes_le := hst.votes_le
  total_le := h.total_le
  unclaimed_nonneg x hx := by
    rcases Table.mem_set.mp hx with rfl | ⟨hx, -⟩
    · exact hu
    · exact h.unclaimed_nonneg x hx
  claimed_nonneg x hx := by
    rcases Table.mem_set.mp hx with rfl | ⟨hx, -⟩
    · exact hc
    · exact h.claimed_nonneg x hx
  symbol _ := hsym

theorem voter_claimed_nonneg (h : Ranged s) (n : Name) : 0 ≤ (s.voter n).claimedRewards := by
  rcases voter_mem_or s n with hv | hv
  · exact h.claimed_nonneg _ hv
  · rw [hv]

theorem changeVote (h : Ranged s) (hsym : s.coreSymbol.isValid = true) (voter : Name)
    (votes : Asset) (isAdding : Bool) :
    Ensures (changeVote env s voter votes isAdding) fun out => Ranged out.1 := by
  unfold Reward.changeVote requireAuth payRow
  refine .check fun _ => .check fun _ => .check fun _ => .check fun _ =>
    .check fun _ => .check fun _ => .bind (h.allocate voter) fun st hst => ?_
  exact .bind_eq fun _ _ => .check fun _ =>
    .ok (h.settle hst hst.unclaimed_nonneg (h.voter_claimed_nonneg voter) hsym)

theorem voteproducer (h : Ranged s) (hsym : s.coreSymbol.isValid = true) (voter : Name)
    (producers : List Name) :
    Ensures (voteproducer env s voter producers) fun out => Ranged out.1 := by
  unfold Reward.voteproducer requireAuth payRow
  refine .check fun _ => .check fun _ => .check fun _ => .check fun _ =>
    .bind (h.allocate voter) fun st₁ h₁ => .bind (h₁.allocate _) fun st₂ h₂ =>
    .bind (h₂.allocate _) fun st₃ h₃ => ?_
  exact .ok (h.settle h₃ h₃.unclaimed_nonneg (h.voter_claimed_nonneg voter) hsym)

theorem claim (h : Ranged s) (hsym : s.coreSymbol.isValid = true) (voter : Name) :
    Ensures (claim env s voter) fun out => Ranged out.1 := by
  unfold Reward.claim
  cases hv : s.voters.find? voter with
  | none => exact fun _ hok => nomatch hok
  | some v =>
    have hrow : s.voter voter = v := by simp [State.voter, hv]
    have hst := h.allocate (m := v.producers) (w := v.votes) (d := 0) voter
    rw [hrow] at hst
    refine .check fun _ => .bind hst fun st hst => .check fun hpos => .check fun _ =>
      .bind_eq fun claimed hclaimed => .ok (h.settle hst le_rfl ?_ hsym)
    obtain ⟨-, rfl⟩ := addAmount_ok_iff.mp hclaimed
    exact add_nonneg (h.claimed_nonneg v (Table.mem_of_find? hv)) hpos.le

/-- A row of a producer is set that keeps its votes. -/
theorem setProducer (h : Ranged s) {p : Producer} {total : ℤ} (htotal : total ≤ Asset.maxAmount)
    (hvotes : p.votes ≤ Asset.maxAmount) :
    Ranged { s with totalRewards := total, producers := s.producers.set p } where
  votes_le n := by
    show (producerRow (s.producers.set p) n).votes ≤ _
    rw [producerRow_set]
    split_ifs
    · exact hvotes
    · exact h.votes_le n
  total_le := htotal
  unclaimed_nonneg := h.unclaimed_nonneg
  claimed_nonneg := h.claimed_nonneg
  symbol := h.symbol

theorem regproducer (h : Ranged s) (producer : Name) :
    Ensures (regproducer env s producer) fun out => Ranged out.1 := by
  unfold Reward.regproducer requireAuth payRow
  exact .check fun _ => .check fun _ => .check fun _ =>
    .ok (h.setProducer h.total_le (h.votes_le producer))

theorem ontransfer (h : Ranged s) (sender receiver : Name) (quantity : Asset) :
    Ensures (ontransfer env s sender receiver quantity) fun out => Ranged out.1 := by
  unfold Reward.ontransfer
  refine .ite (fun _ => .bind_eq fun total htotal => ?_) fun _ => .ok h
  obtain ⟨⟨-, hmax⟩, rfl⟩ := addAmount_ok_iff.mp htotal
  cases hp : s.producers.find? sender with
  | none => exact fun _ hok => nomatch hok
  | some p =>
    have hvotes := h.votes_le sender
    simp only [producerRow, hp, Option.getD_some] at hvotes
    exact .check fun _ => .bind_eq fun _ _ => .bind_eq fun _ _ => .bind_eq fun _ _ =>
      .ok (h.setProducer hmax hvotes)

/-- One transaction leaves the amounts in range. -/
theorem transact (h : Ranged s) (tx : Transaction) :
    Ensures (transact tx s) fun out => Ranged out.1 := by
  unfold Reward.transact
  refine .check fun hsym => ?_
  cases tx.action with
  | regproducer p => exact h.regproducer p
  | addvote voter votes => exact h.changeVote hsym voter votes true
  | subvote voter votes => exact h.changeVote hsym voter votes false
  | voteproducer voter producers => exact h.voteproducer hsym voter producers
  | claimrewards voter => exact .check fun _ => h.claim hsym voter
  | claimfor submitter voter => exact .check fun _ => h.claim hsym voter
  | ontransfer sender receiver quantity => exact h.ontransfer sender receiver quantity

end Ranged

theorem ranged_fresh (coreSymbol : Symbol) : Ranged (.fresh coreSymbol) where
  votes_le _ := show (0 : ℤ) ≤ Asset.maxAmount by decide
  total_le := show (0 : ℤ) ≤ Asset.maxAmount by decide
  unclaimed_nonneg v hv := by simp [State.fresh, Table.empty] at hv
  claimed_nonneg v hv := by simp [State.fresh, Table.empty] at hv
  symbol h := absurd rfl h

theorem ranged_run (coreSymbol : Symbol) (txs : List Transaction) :
    Ranged (State.final (.fresh coreSymbol) txs) := by
  have hstep : ∀ s tx s' out, Ranged s → True → transact tx s = .ok (s', out) → Ranged s' :=
    fun s tx s' out h _ hok => h.transact tx _ hok
  exact Run.invariant hstep (ranged_fresh coreSymbol) (Run.along_true _ txs)

-- ---------------------------------------------------------------------------
-- Settling in range
-- ---------------------------------------------------------------------------

/-- Paying a voter leaves the amounts of `p` in range, whatever the voter is paid. -/
structure Producer.Roomy (p : Producer) (votesDelta : ℤ) : Prop where
  votes_le : p.votes + votesDelta ≤ Asset.maxAmount
  allocated_nonneg : 0 ≤ p.allocatedRewards
  total_le : p.totalRewards ≤ Asset.maxAmount

section Settling

variable {votesOld votesDelta : ℤ}

theorem addAmount_avoids {site : Site} {a b : ℤ} (hlo : -Asset.maxAmount ≤ a + b)
    (hhi : a + b ≤ Asset.maxAmount) : Avoids site (addAmount a b) := by
  rw [addAmount_ok_iff.mpr ⟨⟨hlo, hhi⟩, rfl⟩]
  exact .ok _

theorem Producer.Covers.payout_le {p : Producer} {last : ℤ}
    (h : p.Covers votesOld votesDelta last) : p.payout votesOld last ≤ p.allocatingRewards :=
  Accrual.payout_le highPrecision_pos h.owed_le

theorem Producer.Covers.payout_nonneg {p : Producer} {last : ℤ}
    (h : p.Covers votesOld votesDelta last) : 0 ≤ p.payout votesOld last :=
  Accrual.payout_nonneg highPrecision_pos (Accrual.owed_nonneg h.votesOld_nonneg h.last_le)

theorem payVoter_avoids {p : Producer} {last unclaimed : ℤ}
    (h : p.Covers votesOld votesDelta last) (hroom : p.Roomy votesDelta) (hu : 0 ≤ unclaimed)
    (hsum : unclaimed + p.payout votesOld last ≤ Asset.maxAmount) :
    Avoids .asset (payVoter p votesOld last unclaimed) := by
  unfold payVoter
  by_cases hd : 0 < p.rewardsPerVote - last ∧ 0 < votesOld
  · have howed : p.owed votesOld last ≤ Asset.maxAmount * highPrecision :=
      h.owed_le.trans (mul_le_mul_of_nonneg_right h.allocating_le highPrecision_pos.le)
    have hcalc : calcVoterRewards votesOld (p.rewardsPerVote - last) =
        .ok (p.payout votesOld last) := calcVoterRewards_eq hd.2 hd.1 howed
    have hpay := h.payout_le
    have hnonneg := h.payout_nonneg
    have hallocated := hroom.allocated_nonneg
    have htotal := hroom.total_le
    have htotal_eq := h.total_eq
    have hmax : 0 ≤ Asset.maxAmount := by decide
    rw [if_pos hd, hcalc]
    refine .check_bind (by decide) fun _ => .bind (.ok _) fun rewards hrewards => ?_
    obtain rfl := Except.ok.inj hrewards
    exact .check_bind (by decide) fun _ => .bind (addAmount_avoids (by omega) (by omega)) fun _ _ =>
      .bind (addAmount_avoids (by omega) (by omega)) fun _ _ => .check_bind (by decide) fun _ =>
      .bind (addAmount_avoids (by omega) hsum) fun _ _ => .ok _
  · rw [if_neg hd]
    exact .ok _

theorem allocateOne_avoids {st : Allocation} {e : VotedProducer}
    (h : (producerRow st.producers e.name).Covers votesOld votesDelta e.lastRewardsPerVote)
    (hroom : (producerRow st.producers e.name).Roomy votesDelta) (hu : 0 ≤ st.unclaimedRewards)
    (hsum : st.unclaimedRewards +
      (producerRow st.producers e.name).payout votesOld e.lastRewardsPerVote ≤ Asset.maxAmount) :
    Avoids .asset (allocateOne votesOld votesDelta st e) := by
  unfold allocateOne
  refine .check_bind (by decide) fun _ => .bind (payVoter_avoids h hroom hu hsum) fun r hr => ?_
  obtain rfl := (payVoter_upToRange h).eq_of_ok hr
  have hvotes := h.votes_nonneg
  have hmax : 0 ≤ Asset.maxAmount := by decide
  exact .bind (addAmount_avoids (by simp only; omega) hroom.votes_le) fun _ _ =>
    .check_bind (by decide) fun _ => .ok _

private theorem foldlM_avoids {l : List VotedProducer}
    (hl : l.Pairwise (fun a b => a.name < b.name)) {st : Allocation}
    (h : ∀ e ∈ l, (producerRow st.producers e.name).Covers votesOld votesDelta e.lastRewardsPerVote)
    (hroom : ∀ e ∈ l, (producerRow st.producers e.name).Roomy votesDelta)
    (hu : 0 ≤ st.unclaimedRewards)
    (hsum : st.unclaimedRewards + (l.map fun e =>
      (producerRow st.producers e.name).payout votesOld e.lastRewardsPerVote).sum ≤
        Asset.maxAmount) :
    Avoids .asset (l.foldlM (allocateOne votesOld votesDelta) st) := by
  induction l generalizing st with
  | nil => exact .ok _
  | cons e es ih =>
    obtain ⟨he, hes⟩ := List.pairwise_cons.mp hl
    have hcover := h e List.mem_cons_self
    have hothers : 0 ≤ (es.map fun e =>
        (producerRow st.producers e.name).payout votesOld e.lastRewardsPerVote).sum := by
      refine List.sum_nonneg fun x hx => ?_
      obtain ⟨e', he', rfl⟩ := List.mem_map.mp hx
      exact (h e' (List.mem_cons_of_mem _ he')).payout_nonneg
    have hpay := hcover.payout_nonneg
    rw [List.map_cons, List.sum_cons] at hsum
    rw [List.foldlM_cons]
    refine .bind (allocateOne_avoids hcover (hroom e List.mem_cons_self) hu (by omega))
      fun st' hst' => ?_
    obtain rfl := (allocateOne_upToRange hcover).eq_of_ok hst'
    have hrest : ∀ x ∈ es, producerRow (settleOne votesOld votesDelta st e).producers x.name =
        producerRow st.producers x.name := fun x hx => by
      rw [settleOne, producerRow_set, Producer.settle_owner, producerRow_owner,
        if_neg (he x hx).ne]
    refine ih hes (fun x hx => ?_) (fun x hx => ?_) (add_nonneg hu hpay) ?_
    · rw [hrest x hx]
      exact h x (List.mem_cons_of_mem _ hx)
    · rw [hrest x hx]
      exact hroom x (List.mem_cons_of_mem _ hx)
    · rw [List.map_congr_left fun x hx => by rw [hrest x hx]]
      simp only [settleOne]
      omega

/-- A voter is settled with all producers of a map if these cover it and no sum is too large. -/
theorem allocateProducerRewards_yields {producers : Table Producer.owner} {m : VotedProducerMap}
    {unclaimed : ℤ} (h : ∀ n e, m.find? n = some e →
      (producerRow producers n).Covers votesOld votesDelta e.lastRewardsPerVote)
    (hroom : ∀ n e, m.find? n = some e → (producerRow producers n).Roomy votesDelta)
    (hu : 0 ≤ unclaimed)
    (hsum : unclaimed + (m.sum fun e =>
      (producerRow producers e.name).payout votesOld e.lastRewardsPerVote) ≤ Asset.maxAmount) :
    Yields (allocateProducerRewards producers m votesOld votesDelta unclaimed)
      (Settled producers m votesOld votesDelta unclaimed) := by
  obtain ⟨st, hst, hsettled⟩ := allocateProducerRewards_upToRange unclaimed h
  refine ⟨st, ?_, hsettled⟩
  have havoids : Avoids .asset (allocateProducerRewards producers m votesOld votesDelta unclaimed) :=
    foldlM_avoids m.sorted (fun e he => h e.name e (Table.find?_of_mem he))
      (fun e he => hroom e.name e (Table.find?_of_mem he)) hu hsum
  rcases hst with ⟨e, he, hs⟩ | hok
  · exact absurd hs (havoids e he)
  · exact hok

end Settling

-- ---------------------------------------------------------------------------
-- Claims
-- ---------------------------------------------------------------------------

/-- What a voter has accrued with its producers since it was last settled. -/
def Voter.accrued (v : Voter) (s : State) : ℤ :=
  v.producers.sum fun e => (s.producer e.name).payout v.votes e.lastRewardsPerVote

/-- What a claim pays. -/
def Voter.claimable (v : Voter) (s : State) : ℤ := v.unclaimedRewards + v.accrued s

/-- The voter `v` is paid what it has, and nothing is left. -/
structure PaidOut (s : State) (v : Voter) (s' : State) (flows : List Flow) : Prop where
  flows_eq : flows = [.paid v.owner (v.claimable s)]
  row : ∃ v', s'.voters.find? v.owner = some v' ∧ v'.votes = v.votes ∧
    v'.producers.rows.map (·.name) = v.producers.rows.map (·.name) ∧
    v'.claimedRewards = v.claimedRewards + v.claimable s ∧ v'.unclaimedRewards = 0 ∧
    v'.accrued s' = 0

/-- A claim of the rewards of `voter`, by the voter or for it, which the token contract pays. -/
def IsClaim (voter : Name) (tx : Transaction) : Prop :=
  tx.env.transferOk = true ∧
    ((tx.action = .claimrewards voter ∧ tx.env.hasAuth voter = true) ∨
      ∃ submitter, tx.action = .claimfor submitter voter ∧ tx.env.hasAuth submitter = true)

/-- A claim succeeds if and only if `c`, and then pays all there is. -/
def PaysWhen (s : State) (v : Voter) (c : Prop) [Decidable c] : Prop :=
  ∀ tx, IsClaim v.owner tx →
    if c then Yields (transact tx s) fun out => PaidOut s v out.1 out.2
    else ∃ e, transact tx s = .error e

/-- A claim succeeds if and only if there is anything to claim. -/
def Withdrawable (s : State) (v : Voter) : Prop := PaysWhen s v (0 < v.claimable s)

section Claims

variable {env : Env} {s s' : State} {flows : List Flow} {v : Voter} {st : Allocation}

theorem accrued_nonneg (h : Ledger s) (hv : v ∈ s.voters.rows) : 0 ≤ v.accrued s := by
  refine Table.sum_nonneg fun e he => Accrual.payout_nonneg highPrecision_pos ?_
  exact Accrual.owed_nonneg (h.voter_nonneg v hv) (h.last_le v hv _ e (Table.find?_of_mem he))

theorem accrued_of_votes_eq_zero (hv : v.votes = 0) : v.accrued s = 0 :=
  Table.sum_eq_zero fun e _ => by simp [Producer.payout, Producer.owed, hv]

theorem Settled.unclaimed_eq {votesDelta : ℤ}
    (h : Settled s.producers v.producers v.votes votesDelta v.unclaimedRewards st) :
    st.unclaimedRewards = v.claimable s :=
  h.unclaimed

/-- No voter has earned more than came in. -/
theorem earned_le (h : Ledger s) (hearned : ∀ x ∈ s.voters.rows, 0 ≤ x.earned)
    (hv : v ∈ s.voters.rows) : v.earned ≤ s.totalRewards := by
  have hle : v.earned ≤ s.voters.sum (·.earned) := Table.le_sum_of_mem hearned hv
  have hallocating : 0 ≤ s.producers.sum (·.allocatingRewards) := by
    refine Table.sum_nonneg fun p hp => ?_
    have := h.allocating_nonneg p.owner
    rwa [State.producer, producerRow_of_mem hp] at this
  have h₁ := h.sum_allocated
  have h₂ := h.sum_allocating
  omega

/-- The row of a voter after a claim. -/
def Voter.afterClaim (v : Voter) (st : Allocation) : Voter :=
  { v with
    producers := st.voted
    unclaimedRewards := 0
    claimedRewards := v.claimedRewards + st.unclaimedRewards }

/-- What a voter has claimed and can claim is in the range of an asset. -/
theorem claimable_le (h : Ledger s) (hr : Ranged s) (hv : v ∈ s.voters.rows)
    (hst : Settled s.producers v.producers v.votes 0 v.unclaimedRewards st) :
    v.claimedRewards + v.claimable s ≤ Asset.maxAmount := by
  have hrow : s.voter v.owner = v := by simp [State.voter, Table.find?_of_mem hv]
  have hstep : VoterStep s (s.voter v.owner) (v.afterClaim st) st.producers := by
    rw [hrow]
    refine hst.voterStep rfl (add_zero _).symm (h.voter_nonneg v hv) rfl ?_
    simp only [Voter.earned, Voter.afterClaim]
    ring
  have hledger := hstep.ledger h
  have hclaimable : 0 ≤ v.claimable s :=
    add_nonneg (hr.unclaimed_nonneg v hv) (accrued_nonneg h hv)
  have hearned : ∀ x ∈ (s.voters.set (v.afterClaim st)).rows, 0 ≤ x.earned := by
    intro x hx
    rcases Table.mem_set.mp hx with rfl | ⟨hx, -⟩
    · have hc := hr.claimed_nonneg v hv
      simp only [Voter.earned, Voter.afterClaim, hst.unclaimed_eq]
      omega
    · exact add_nonneg (hr.unclaimed_nonneg x hx) (hr.claimed_nonneg x hx)
  have hle := earned_le hledger hearned (v := v.afterClaim st) (Table.mem_set.mpr (.inl rfl))
  have htotal := hr.total_le
  simp only [Voter.earned, Voter.afterClaim, hst.unclaimed_eq] at hle
  omega

/-- A settled voter has nothing accrued. -/
theorem accrued_afterClaim
    (h : Settled s.producers v.producers v.votes 0 v.unclaimedRewards st)
    (hs : s'.producers = st.producers) : (v.afterClaim st).accrued s' = 0 := by
  refine Table.sum_eq_zero fun e he => ?_
  have hfind := h.voted e.name
  rw [Table.find?_of_mem (by exact he)] at hfind
  obtain ⟨e', he', heq⟩ := Option.map_eq_some_iff.mp hfind.symm
  have hlast : e.lastRewardsPerVote = (s'.producer e.name).rewardsPerVote := by
    rw [State.producer, hs, h.row_of_some he', Producer.settle_rewardsPerVote]
    exact (congrArg VotedProducer.lastRewardsPerVote heq).symm
  rw [Producer.payout, Producer.owed, hlast, Accrual.owed_self, Accrual.payout_zero]

theorem names_voted {votesDelta : ℤ}
    (h : Settled s.producers v.producers v.votes votesDelta v.unclaimedRewards st) :
    st.voted.rows.map (·.name) = v.producers.rows.map (·.name) := by
  refine Table.keys_eq (List.pairwise_map.mpr v.producers.sorted) fun n => ?_
  rw [h.voted n, Option.isSome_map, Table.mem_keys]

theorem claim_paidOut (h : Ledger s) (hr : Ranged s) (hv : v ∈ s.voters.rows)
    (hvotes : 0 < v.votes) (hpos : 0 < v.claimable s) (ht : env.transferOk = true) :
    Yields (claim env s v.owner) fun out => PaidOut s v out.1 out.2 := by
  have hfind := Table.find?_of_mem hv
  have hrow : s.voter v.owner = v := by simp [State.voter, hfind]
  obtain ⟨st', -, hst'⟩ := claim_allocation h hfind
  have hmax := claimable_le h hr hv hst'
  have hclaimed := hr.claimed_nonneg v hv
  have hroom : ∀ n e, v.producers.find? n = some e → (s.producer n).Roomy 0 := fun n _ _ =>
    ⟨by rw [add_zero]; exact hr.votes_le n, h.allocated_nonneg n, h.total_le n⟩
  have hcover : ∀ n e, v.producers.find? n = some e →
      (s.producer n).Covers v.votes 0 e.lastRewardsPerVote := fun n e he => by
    rw [← hrow] at he hvotes ⊢
    exact h.covers he (by rw [add_zero]; exact hvotes.le)
  obtain ⟨st, hok, hst⟩ := allocateProducerRewards_yields hcover hroom (hr.unclaimed_nonneg v hv)
    (by rw [← Voter.accrued, ← Voter.claimable]; omega)
  refine ⟨({ s with producers := st.producers, voters := s.voters.set (v.afterClaim st) },
    [.paid v.owner st.unclaimedRewards]), ?_, ?_⟩
  · have hadd : addAmount v.claimedRewards st.unclaimedRewards =
        .ok (v.claimedRewards + st.unclaimedRewards) :=
      addAmount_ok_iff.mpr ⟨⟨by rw [hst.unclaimed_eq]; omega, by rw [hst.unclaimed_eq]; exact hmax⟩,
        rfl⟩
    simp only [claim, hfind, Except.bind_ok_iff, check_ok_iff, exists_const, Except.pure_ok_iff]
    exact ⟨hvotes, st, hok, by rw [hst.unclaimed_eq]; exact hpos, ht, _, hadd, rfl⟩
  · refine ⟨by rw [hst.unclaimed_eq], v.afterClaim st, Table.find?_set_self _ _, rfl, names_voted hst,
      ?_, rfl, accrued_afterClaim hst rfl⟩
    rw [← hst.unclaimed_eq]
    rfl

theorem claim_ok_pos (h : Ledger s) (hv : v ∈ s.voters.rows)
    (hok : claim env s v.owner = .ok (s', flows)) : 0 < v.votes ∧ 0 < v.claimable s := by
  have hfind := Table.find?_of_mem hv
  obtain ⟨st, hst, hsettled⟩ := claim_allocation h hfind
  simp only [claim, hfind, Except.bind_ok_iff, check_ok_iff, exists_const] at hok
  obtain ⟨hvotes, st', hst', hpos, -⟩ := hok
  obtain rfl := hst.eq_of_ok hst'
  exact ⟨hvotes, hsettled.unclaimed_eq ▸ hpos⟩

/-- A claim is the common body of the two actions. -/
theorem IsClaim.transact_eq {voter : Name} {tx : Transaction} (h : IsClaim voter tx)
    (hsym : s.coreSymbol.isValid = true) : transact tx s = claim tx.env s voter := by
  obtain ⟨env, action⟩ := tx
  obtain ⟨-, ⟨rfl, hauth⟩ | ⟨submitter, rfl, hauth⟩⟩ := h
  · simp only [transact, claimrewards, requireAuth, check, hsym, if_true]
    rw [if_pos (by exact hauth)]
    rfl
  · simp only [transact, claimfor, requireAuth, check, hsym, if_true]
    rw [if_pos (by exact hauth)]
    rfl

/-- A claim succeeds if and only if the voter has votes and there is anything to claim. -/
theorem paysWhen (h : Ledger s) (hr : Ranged s) (hv : v ∈ s.voters.rows) :
    PaysWhen s v (0 < v.votes ∧ 0 < v.claimable s) := by
  intro tx htx
  rw [htx.transact_eq (hr.symbol (List.ne_nil_of_mem hv))]
  split_ifs with hpos
  · exact claim_paidOut h hr hv hpos.1 hpos.2 htx.1
  · cases hok : claim tx.env s v.owner with
    | error e => exact ⟨e, rfl⟩
    | ok out => exact absurd (claim_ok_pos h hv hok) hpos

/-- A voter without votes has nothing but what was settled before. -/
theorem claimable_of_votes_eq_zero (hv : v.votes = 0) : v.claimable s = v.unclaimedRewards := by
  rw [Voter.claimable, accrued_of_votes_eq_zero hv, add_zero]

theorem withdrawable_iff (h : Ledger s) (hr : Ranged s) (hv : v ∈ s.voters.rows) :
    Withdrawable s v ↔ 0 < v.votes ∨ v.unclaimedRewards = 0 := by
  have hvotes := h.voter_nonneg v hv
  have hunclaimed := hr.unclaimed_nonneg v hv
  have hpays := paysWhen h hr hv
  constructor
  · intro hw
    by_contra hnot
    rw [not_or, not_lt] at hnot
    have hzero : v.votes = 0 := le_antisymm hnot.1 hvotes
    have hpos : 0 < v.claimable s := by
      rw [claimable_of_votes_eq_zero hzero]
      omega
    have htx : IsClaim v.owner ⟨{ hasAuth := fun _ => true }, .claimrewards v.owner⟩ :=
      ⟨rfl, .inl ⟨rfl, rfl⟩⟩
    have hpaid := hw _ htx
    have hrefused := hpays _ htx
    rw [if_pos hpos] at hpaid
    rw [if_neg fun hc => hc.1.ne' hzero] at hrefused
    obtain ⟨out, hok, -⟩ := hpaid
    obtain ⟨e, he⟩ := hrefused
    exact absurd (hok.symm.trans he) nofun
  · intro hcond tx htx
    have hiff : 0 < v.votes ∧ 0 < v.claimable s ↔ 0 < v.claimable s := by
      refine ⟨fun hc => hc.2, fun hpos => ⟨?_, hpos⟩⟩
      rcases hcond with hvoting | hzero
      · exact hvoting
      · by_contra hnot
        rw [claimable_of_votes_eq_zero (by omega), hzero] at hpos
        exact lt_irrefl _ hpos
    have hpaid := hpays tx htx
    simpa only [hiff] using hpaid

end Claims

/-- After every run, a claim succeeds if and only if the voter has votes and there is anything to
claim, and then pays all of it. So all a voter has accrued can be claimed if and only if it has
votes or nothing is unclaimed. -/
theorem rewards_withdrawable (coreSymbol : Symbol) (txs : List Transaction) :
    let s := State.final (.fresh coreSymbol) txs
    ∀ v ∈ s.voters.rows, PaysWhen s v (0 < v.votes ∧ 0 < v.claimable s) ∧
      (Withdrawable s v ↔ 0 < v.votes ∨ v.unclaimedRewards = 0) := by
  intro s v hv
  have hledger := (books_run coreSymbol txs).ledger
  have hranged := ranged_run coreSymbol txs
  exact ⟨paysWhen hledger hranged hv, withdrawable_iff hledger hranged hv⟩

private def amax : Symbol := ⟨['A', 'M', 'A', 'X'], 8⟩

private def anyone : Env := { hasAuth := fun _ => true }

/-- Producer 1 shares a thousand tokens with its one voter. -/
private def shared : List Transaction :=
  [⟨anyone, .regproducer 1⟩, ⟨anyone, .addvote 2 ⟨100, voteSymbol⟩⟩, ⟨anyone, .voteproducer 2 [1]⟩,
    ⟨anyone, .ontransfer 1 rewardAccount ⟨1000, amax⟩⟩]

private def unvoted : List Transaction := [⟨anyone, .subvote 2 ⟨100, voteSymbol⟩⟩]

theorem rewards_withdrawable_voter :
    let s := State.final (.fresh amax) shared
    (s.voter 2).claimable s = 1000 ∧ Withdrawable s (s.voter 2) := by
  intro s
  refine ⟨by decide +kernel, (rewards_withdrawable amax shared (s.voter 2) ?_).2.mpr ?_⟩
  · refine (voter_mem_or s 2).resolve_right fun h => ?_
    exact absurd (congrArg Voter.votes h) (by decide +kernel)
  · decide +kernel

/-- A voter who takes back all of its votes cannot claim what it has earned. -/
theorem rewards_locked_unvoted :
    let s := State.final (.fresh amax) (shared ++ unvoted)
    (s.voter 2) ∈ s.voters.rows ∧ (s.voter 2).claimable s = 1000 ∧
      transact ⟨anyone, .claimrewards 2⟩ s =
        .error ⟨.action, "voter's votes must be positive"⟩ ∧ ¬ Withdrawable s (s.voter 2) := by
  intro s
  have hclaimable : (s.voter 2).claimable s = 1000 := by decide +kernel
  have hmem : (s.voter 2) ∈ s.voters.rows := by
    refine (voter_mem_or s 2).resolve_right fun h => ?_
    exact absurd (congrArg Voter.unclaimedRewards h) (by decide +kernel)
  have herror : transact ⟨anyone, .claimrewards 2⟩ s =
      .error ⟨.action, "voter's votes must be positive"⟩ := rfl
  refine ⟨hmem, hclaimable, herror, fun hw => ?_⟩
  have hpaid := hw ⟨anyone, .claimrewards 2⟩ ⟨rfl, .inl ⟨by rw [voter_owner], rfl⟩⟩
  rw [if_pos (by omega), herror] at hpaid
  obtain ⟨out, hok, -⟩ := hpaid
  cases hok

end Amax.Reward
