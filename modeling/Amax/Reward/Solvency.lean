-- SUMMARY: After every run of the reward contract each producer can pay its voters, and the rewards of all tables add up.
import Amax.Reward.Actions

/-! # Solvency and conservation

What the ledger says about the states the reward contract can reach. -/

namespace Amax.Reward

section Reachable

variable {s : State}

theorem producer_of_mem {p : Producer} (hp : p ∈ s.producers.rows) : s.producer p.owner = p := by
  rw [State.producer, producerRow, Table.find?_of_mem hp, Option.getD_some]

/-- The product a voter's rewards are computed from stays far inside 128 bits. -/
theorem Ledger.owed_bounds (h : Ledger s) {v : Voter} {e : VotedProducer}
    (hv : v ∈ s.voters.rows) (he : e ∈ v.producers.rows) :
    0 ≤ v.votes * ((s.producer e.name).rewardsPerVote - e.lastRewardsPerVote) ∧
      v.votes * ((s.producer e.name).rewardsPerVote - e.lastRewardsPerVote) < 2 ^ 127 := by
  have hf := Table.find?_of_mem he
  have howed : v.owedBy (s.producer e.name) =
      v.votes * ((s.producer e.name).rewardsPerVote - e.lastRewardsPerVote) := by
    rw [Voter.owedBy_row, hf]
    rfl
  have hle : v.owedBy (s.producer e.name) ≤ (s.producer e.name).allocatingRewards * highPrecision :=
    (Table.le_sum_of_mem (fun x hx => h.owedBy_nonneg hx e.name) hv).trans (h.solvent e.name)
  have hmax : (s.producer e.name).allocatingRewards * highPrecision ≤
      Asset.maxAmount * highPrecision :=
    mul_le_mul_of_nonneg_right (h.allocating_le e.name) highPrecision_pos.le
  have hlt : Asset.maxAmount * highPrecision < 2 ^ 127 := by decide
  rw [← howed]
  exact ⟨h.owedBy_nonneg hv e.name, by omega⟩

/-- The product and the rate an incoming transfer is turned into stay far inside 128 bits. -/
theorem Ledger.rate_bounds (h : Ledger s) (n : Name) {q : ℤ} (hq₀ : 0 ≤ q)
    (hq : q ≤ Asset.maxAmount) :
    q * highPrecision < 2 ^ 127 ∧
      (s.producer n).rewardsPerVote + q * highPrecision / (s.producer n).votes < 2 ^ 127 := by
  have hprod₀ : 0 ≤ q * highPrecision := mul_nonneg hq₀ highPrecision_pos.le
  have hprod : q * highPrecision ≤ Asset.maxAmount * highPrecision :=
    mul_le_mul_of_nonneg_right hq highPrecision_pos.le
  have hdiv : q * highPrecision / (s.producer n).votes ≤ q * highPrecision :=
    Int.ediv_le_self _ hprod₀
  have hrate : (s.producer n).rewardsPerVote ≤ Asset.maxAmount * highPrecision :=
    (h.rate_le n).trans (mul_le_mul_of_nonneg_right (h.total_le n) highPrecision_pos.le)
  have hlt : Asset.maxAmount * highPrecision + Asset.maxAmount * highPrecision < 2 ^ 127 := by
    decide
  exact ⟨by omega, by omega⟩

end Reachable

/-- After every run each producer still has what it owes to all of its voters
together, so that no check on rewards ever stops the next transaction and no
product leaves 128 bits. -/
theorem solvent_run (coreSymbol : Symbol) (txs : List Transaction) :
    let s := State.final (.fresh coreSymbol) txs
    (∀ p ∈ s.producers.rows, (s.voters.sum fun v => match v.producers.find? p.owner with
        | some e => v.votes * (p.rewardsPerVote - e.lastRewardsPerVote)
        | none => 0) ≤ p.allocatingRewards * 10 ^ 18) ∧
    (∀ v ∈ s.voters.rows, ∀ e ∈ v.producers.rows,
      e.lastRewardsPerVote ≤ (s.producer e.name).rewardsPerVote) ∧
    (∀ tx, Avoids .accrual (transact tx s)) ∧
    (∀ v ∈ s.voters.rows, ∀ e ∈ v.producers.rows,
      0 ≤ v.votes * ((s.producer e.name).rewardsPerVote - e.lastRewardsPerVote) ∧
      v.votes * ((s.producer e.name).rewardsPerVote - e.lastRewardsPerVote) < 2 ^ 127) ∧
    ∀ n q, 0 ≤ q → q ≤ Asset.maxAmount → q * highPrecision < 2 ^ 127 ∧
      (s.producer n).rewardsPerVote + q * highPrecision / (s.producer n).votes < 2 ^ 127 := by
  intro s
  have h : Ledger s := (books_run coreSymbol txs).ledger
  refine ⟨fun p hp => ?_, fun v hv e he => h.last_le v hv _ e (Table.find?_of_mem he),
    fun tx => transact_avoids h tx, fun v hv e he => h.owed_bounds hv he,
    fun n q hq₀ hq => h.rate_bounds n hq₀ hq⟩
  have := h.solvent p.owner
  rwa [producer_of_mem hp] at this

/-- After every run the two tables and the transfers agree on every reward, and
a vote leaves a voter with exactly the producers it names. -/
theorem conserved_run (coreSymbol : Symbol) (txs : List Transaction) :
    let s := State.final (.fresh coreSymbol) txs
    let flows := State.flows (.fresh coreSymbol) txs
    (∀ p ∈ s.producers.rows,
      p.votes = (s.voters.sum fun v => if (v.producers.find? p.owner).isSome then v.votes else 0) ∧
      p.totalRewards = p.allocatingRewards + p.allocatedRewards) ∧
    s.producers.sum (·.allocatedRewards) =
      s.voters.sum (fun v => v.unclaimedRewards + v.claimedRewards) ∧
    s.totalRewards = s.producers.sum (·.totalRewards) ∧
    received flows - paid flows =
      s.producers.sum (·.allocatingRewards) + s.voters.sum (·.unclaimedRewards) ∧
    ∀ env voter producers s' out,
      transact ⟨env, .voteproducer voter producers⟩ s = .ok (s', out) →
        (s'.voter voter).producers.rows.map (·.name) = producers := by
  intro s flows
  have hb : Books s flows := books_run coreSymbol txs
  have h := hb.ledger
  refine ⟨fun p hp => ⟨?_, ?_⟩, h.sum_allocated, h.sum_total, ?_,
    fun env voter producers s' out hok => ?_⟩
  · have := h.votes_eq p.owner
    rwa [producer_of_mem hp] at this
  · have := h.total_eq p.owner
    rwa [producer_of_mem hp] at this
  · have hearned : s.voters.sum (·.earned) =
        s.voters.sum (·.unclaimedRewards) + s.voters.sum (·.claimedRewards) := Table.sum_add _ _ _
    have h₁ := hb.received_eq
    have h₂ := hb.paid_eq
    have h₃ := h.sum_allocating
    have h₄ := h.sum_allocated
    omega
  · simp only [transact, Except.bind_ok_iff, check_ok_iff, exists_const] at hok
    obtain ⟨v', ha, -, hkeys⟩ := voteproducer_ok h hok.2
    have hkey : v'.owner = voter := ha.step.owner.trans (voter_owner s voter)
    have hrow : s'.voter voter = v' := by
      rw [ha.state, State.voter, ← hkey, Table.find?_set_self, Option.getD_some]
    rw [hrow, hkeys]

end Amax.Reward
