-- SUMMARY: The ledger invariant of the reward contract and why settling a voter keeps it.
import Amax.Reward.Groups
import Amax.Reward.Settlement

/-! # The ledger of the reward contract

For each producer the ledger compares what the producer still has with what it
owes to all of its voters; over all rows it compares the sums the two tables
keep of the same money. Every action of a voter settles the voter with all of
its producers, and a settled voter is owed nothing. -/

namespace Amax.Reward

-- ---------------------------------------------------------------------------
-- The invariant
-- ---------------------------------------------------------------------------

/-- The votes of `v` that count for the producer `n`. -/
def Voter.votesOn (v : Voter) (n : Name) : ℤ := if (v.producers.find? n).isSome then v.votes else 0

/-- The producers of a voter. -/
def Voter.names (v : Voter) : List Name := v.producers.rows.map (·.name)

/-- What `p` owes to `v`, scaled. -/
def Voter.owedBy (v : Voter) (p : Producer) : ℤ :=
  match v.producers.find? p.owner with
  | some e => p.owed v.votes e.lastRewardsPerVote
  | none => 0

/-- What was ever credited to `v`. -/
def Voter.earned (v : Voter) : ℤ := v.unclaimedRewards + v.claimedRewards

structure Ledger (s : State) : Prop where
  voter_nonneg : ∀ v ∈ s.voters.rows, 0 ≤ v.votes
  last_le : ∀ v ∈ s.voters.rows, ∀ n e, v.producers.find? n = some e →
    e.lastRewardsPerVote ≤ (s.producer n).rewardsPerVote
  votes_eq : ∀ n, (s.producer n).votes = s.voters.sum (·.votesOn n)
  rate_nonneg : ∀ n, 0 ≤ (s.producer n).rewardsPerVote
  rate_le : ∀ n, (s.producer n).rewardsPerVote ≤ (s.producer n).totalRewards * highPrecision
  total_eq : ∀ n, (s.producer n).totalRewards =
    (s.producer n).allocatingRewards + (s.producer n).allocatedRewards
  allocated_nonneg : ∀ n, 0 ≤ (s.producer n).allocatedRewards
  total_le : ∀ n, (s.producer n).totalRewards ≤ Asset.maxAmount
  solvent : ∀ n, s.voters.sum (·.owedBy (s.producer n)) ≤
    (s.producer n).allocatingRewards * highPrecision
  sum_allocated : s.producers.sum (·.allocatedRewards) = s.voters.sum (·.earned)
  sum_allocating : s.producers.sum (·.allocatingRewards) =
    s.totalRewards - s.producers.sum (·.allocatedRewards)
  sum_total : s.totalRewards = s.producers.sum (·.totalRewards)

theorem voter_mem_or (s : State) (n : Name) :
    s.voter n ∈ s.voters.rows ∨ s.voter n = { owner := n } := by
  unfold State.voter
  cases h : s.voters.find? n with
  | none => exact .inr rfl
  | some v => exact .inl (Table.mem_of_find? h)

@[simp] theorem voter_owner (s : State) (n : Name) : (s.voter n).owner = n := by
  unfold State.voter
  cases h : s.voters.find? n with
  | none => rfl
  | some v => exact Table.key_of_find? h

theorem Voter.mem_names {v : Voter} {n : Name} : n ∈ v.names ↔ (v.producers.find? n).isSome :=
  Table.mem_keys

theorem Voter.votesOn_eq (v : Voter) (n : Name) :
    v.votesOn n = if n ∈ v.names then v.votes else 0 := by
  rw [votesOn]
  simp only [mem_names]

/-- Lists with the same producers are the same. -/
theorem Voter.names_congr {v w : Voter}
    (h : ∀ n, (v.producers.find? n).isSome = (w.producers.find? n).isSome) :
    v.names = w.names :=
  Table.keys_eq (List.pairwise_map.mpr w.producers.sorted) fun n => by rw [h n]; exact mem_names.symm

theorem Voter.votesOn_nonneg {v : Voter} (h : 0 ≤ v.votes) (n : Name) : 0 ≤ v.votesOn n := by
  unfold Voter.votesOn
  split_ifs <;> omega

theorem Voter.owedBy_congr (v : Voter) {p q : Producer} (ho : p.owner = q.owner)
    (hr : p.rewardsPerVote = q.rewardsPerVote) : v.owedBy p = v.owedBy q := by
  simp only [Voter.owedBy, Producer.owed, ho, hr]

theorem Voter.owedBy_row (v : Voter) (producers : Table Producer.owner) (n : Name) :
    v.owedBy (producerRow producers n) = match v.producers.find? n with
      | some e => (producerRow producers n).owed v.votes e.lastRewardsPerVote
      | none => 0 := by
  rw [Voter.owedBy, producerRow_owner]

namespace Ledger

variable {s : State}

theorem voter_votes_nonneg (h : Ledger s) (n : Name) : 0 ≤ (s.voter n).votes := by
  rcases voter_mem_or s n with hv | hv
  · exact h.voter_nonneg _ hv
  · rw [hv]

theorem voter_last_le (h : Ledger s) {v n : Name} {e : VotedProducer}
    (he : (s.voter v).producers.find? n = some e) :
    e.lastRewardsPerVote ≤ (s.producer n).rewardsPerVote := by
  rcases voter_mem_or s v with hv | hv
  · exact h.last_le _ hv n e he
  · rw [hv] at he
    simp at he

theorem owedBy_nonneg (h : Ledger s) {v : Voter} (hv : v ∈ s.voters.rows) (n : Name) :
    0 ≤ v.owedBy (s.producer n) := by
  rw [Voter.owedBy_row]
  cases he : v.producers.find? n with
  | none => exact le_rfl
  | some e => exact Accrual.owed_nonneg (h.voter_nonneg v hv) (h.last_le v hv n e he)

/-- A voter is owed no more than all voters together. -/
theorem owedBy_le (h : Ledger s) (v n : Name) :
    (s.voter v).owedBy (s.producer n) ≤ (s.producer n).allocatingRewards * highPrecision := by
  refine le_trans ?_ (h.solvent n)
  rcases voter_mem_or s v with hv | hv
  · exact Table.le_sum_of_mem (fun x hx => h.owedBy_nonneg hx n) hv
  · rw [hv]
    exact Table.sum_nonneg fun x hx => h.owedBy_nonneg hx n

/-- The votes of a voter are among the votes of each of its producers. -/
theorem votesOn_le (h : Ledger s) (v n : Name) : (s.voter v).votesOn n ≤ (s.producer n).votes := by
  rw [h.votes_eq n]
  rcases voter_mem_or s v with hv | hv
  · exact Table.le_sum_of_mem (fun x hx => Voter.votesOn_nonneg (h.voter_nonneg x hx) n) hv
  · rw [hv]
    exact Table.sum_nonneg fun x hx => Voter.votesOn_nonneg (h.voter_nonneg x hx) n

theorem producer_votes_nonneg (h : Ledger s) (n : Name) : 0 ≤ (s.producer n).votes := by
  rw [h.votes_eq n]
  exact Table.sum_nonneg fun x hx => Voter.votesOn_nonneg (h.voter_nonneg x hx) n

theorem allocating_nonneg (h : Ledger s) (n : Name) : 0 ≤ (s.producer n).allocatingRewards := by
  have hs := h.solvent n
  have hn : 0 ≤ s.voters.sum (·.owedBy (s.producer n)) :=
    Table.sum_nonneg fun x hx => h.owedBy_nonneg hx n
  exact nonneg_of_mul_nonneg_left (hn.trans hs) highPrecision_pos

theorem allocating_le (h : Ledger s) (n : Name) :
    (s.producer n).allocatingRewards ≤ Asset.maxAmount := by
  have := h.total_eq n
  have := h.allocated_nonneg n
  have := h.total_le n
  omega

/-- A producer can settle each of its voters, whatever happens to the votes. -/
theorem covers (h : Ledger s) {v n : Name} {e : VotedProducer} {votesDelta : ℤ}
    (he : (s.voter v).producers.find? n = some e) (hd : 0 ≤ (s.voter v).votes + votesDelta) :
    (s.producer n).Covers (s.voter v).votes votesDelta e.lastRewardsPerVote where
  last_le := h.voter_last_le he
  votesOld_nonneg := h.voter_votes_nonneg v
  votesOld_le := by
    have := h.votesOn_le v n
    simpa [Voter.votesOn, he] using this
  votes_nonneg := by
    have := h.votesOn_le v n
    simp only [Voter.votesOn, he, Option.isSome_some, if_true] at this
    omega
  owed_le := by
    have := h.owedBy_le v n
    simpa [Voter.owedBy_row, he] using this
  allocating_le := h.allocating_le n
  total_eq := h.total_eq n

/-- A producer can take over the votes of a voter it owes nothing. -/
theorem covers_new (h : Ledger s) {n : Name} {votesDelta : ℤ} (hd : 0 ≤ votesDelta) :
    (s.producer n).Covers 0 votesDelta 0 where
  last_le := h.rate_nonneg n
  votesOld_nonneg := le_rfl
  votesOld_le := h.producer_votes_nonneg n
  votes_nonneg := add_nonneg (h.producer_votes_nonneg n) hd
  owed_le := by
    rw [Producer.owed, Accrual.owed_zero]
    exact mul_nonneg (h.allocating_nonneg n) highPrecision_pos.le
  allocating_le := h.allocating_le n
  total_eq := h.total_eq n

end Ledger

-- ---------------------------------------------------------------------------
-- Settling a voter
-- ---------------------------------------------------------------------------

/-- The voter `v` was settled with all of its producers, and became `v'`. -/
structure VoterStep (s : State) (v v' : Voter) (producers : Table Producer.owner) : Prop where
  owner : v'.owner = v.owner
  votes_nonneg : 0 ≤ v'.votes
  row : ∀ n, producerRow producers n = { s.producer n with
    allocatingRewards := (s.producer n).allocatingRewards -
      Accrual.payout highPrecision (v.owedBy (s.producer n))
    allocatedRewards := (s.producer n).allocatedRewards +
      Accrual.payout highPrecision (v.owedBy (s.producer n))
    votes := (s.producer n).votes - v.votesOn n + v'.votesOn n }
  last : ∀ n e, v'.producers.find? n = some e →
    e.lastRewardsPerVote = (s.producer n).rewardsPerVote
  sums : ∃ reward, v'.earned = v.earned + reward ∧
    producers.sum (·.allocatedRewards) = s.producers.sum (·.allocatedRewards) + reward ∧
    producers.sum (·.allocatingRewards) = s.producers.sum (·.allocatingRewards) - reward ∧
    producers.sum (·.totalRewards) = s.producers.sum (·.totalRewards)

/-- A settled voter is owed nothing any more, and the others are owed what they were. -/
theorem VoterStep.sum_owedBy {s : State} {name : Name} {v' : Voter}
    {producers : Table Producer.owner} (hs : VoterStep s (s.voter name) v' producers) (n : Name) :
    (s.voters.set v').sum (·.owedBy (producerRow producers n)) =
      s.voters.sum (·.owedBy (s.producer n)) - (s.voter name).owedBy (s.producer n) := by
  have hkey : v'.owner = name := hs.owner.trans (voter_owner s name)
  have hcongr : ∀ v : Voter, v.owedBy (producerRow producers n) = v.owedBy (s.producer n) :=
    fun v => v.owedBy_congr (by rw [producerRow_owner, producerRow_owner]) (by rw [hs.row n])
  have hv' : v'.owedBy (s.producer n) = 0 := by
    rw [Voter.owedBy_row]
    cases he : v'.producers.find? n with
    | none => rfl
    | some e => simp [Producer.owed, hs.last n e he]
  simp only [hcongr]
  rw [Table.sum_set_getD (d := { owner := name }) _ (by simp [Voter.owedBy]), hkey, hv', add_zero]
  rfl

theorem VoterStep.ledger {s : State} {name : Name} {v' : Voter} {producers : Table Producer.owner}
    (h : Ledger s) (hs : VoterStep s (s.voter name) v' producers) :
    Ledger { s with producers, voters := s.voters.set v' } := by
  have hkey : v'.owner = name := hs.owner.trans (voter_owner s name)
  have hsum : ∀ f : Voter → ℤ, f { owner := name } = 0 →
      (s.voters.set v').sum f = s.voters.sum f - f (s.voter name) + f v' := fun f hf => by
    rw [Table.sum_set_getD (d := { owner := name }) _ hf, hkey]
    rfl
  have hrate : ∀ n, (producerRow producers n).rewardsPerVote = (s.producer n).rewardsPerVote :=
    fun n => by rw [hs.row n]
  obtain ⟨reward, hearned, hallocated, hallocating, htotal⟩ := hs.sums
  have howed : ∀ n, 0 ≤ (s.voter name).owedBy (s.producer n) := fun n => by
    rcases voter_mem_or s name with hv | hv
    · exact h.owedBy_nonneg hv n
    · rw [hv]
      exact le_rfl
  constructor
  case voter_nonneg =>
    intro v hv
    rcases Table.mem_set.mp hv with rfl | ⟨hv, -⟩
    · exact hs.votes_nonneg
    · exact h.voter_nonneg v hv
  case last_le =>
    intro v hv n e he
    rw [show (State.producer { s with producers, voters := s.voters.set v' } n).rewardsPerVote =
      (s.producer n).rewardsPerVote from hrate n]
    rcases Table.mem_set.mp hv with rfl | ⟨hv, -⟩
    · exact (hs.last n e he).le
    · exact h.last_le v hv n e he
  case votes_eq =>
    intro n
    show (producerRow producers n).votes = (s.voters.set v').sum (·.votesOn n)
    rw [hsum _ (by simp [Voter.votesOn]), hs.row n, ← h.votes_eq n]
  case rate_nonneg =>
    intro n
    show 0 ≤ (producerRow producers n).rewardsPerVote
    rw [hrate n]
    exact h.rate_nonneg n
  case rate_le =>
    intro n
    show (producerRow producers n).rewardsPerVote ≤ (producerRow producers n).totalRewards * _
    rw [hrate n, hs.row n]
    exact h.rate_le n
  case total_eq =>
    intro n
    show (producerRow producers n).totalRewards = (producerRow producers n).allocatingRewards +
      (producerRow producers n).allocatedRewards
    rw [hs.row n]
    have := h.total_eq n
    simp only
    omega
  case allocated_nonneg =>
    intro n
    show 0 ≤ (producerRow producers n).allocatedRewards
    rw [hs.row n]
    exact add_nonneg (h.allocated_nonneg n) (Accrual.payout_nonneg highPrecision_pos (howed n))
  case total_le =>
    intro n
    show (producerRow producers n).totalRewards ≤ _
    rw [hs.row n]
    exact h.total_le n
  case solvent =>
    intro n
    show (s.voters.set v').sum (·.owedBy (producerRow producers n)) ≤
      (producerRow producers n).allocatingRewards * highPrecision
    rw [hs.sum_owedBy n, hs.row n]
    refine Accrual.solvent_payout highPrecision_pos ?_
    have := h.solvent n
    linarith
  case sum_allocated =>
    show producers.sum (·.allocatedRewards) = (s.voters.set v').sum (·.earned)
    rw [hsum _ rfl, hallocated, hearned, h.sum_allocated]
    ring
  case sum_allocating =>
    show producers.sum (·.allocatingRewards) = s.totalRewards - producers.sum (·.allocatedRewards)
    rw [hallocating, hallocated, h.sum_allocating]
    ring
  case sum_total =>
    show s.totalRewards = producers.sum (·.totalRewards)
    rw [htotal, h.sum_total]

-- ---------------------------------------------------------------------------
-- Deposits
-- ---------------------------------------------------------------------------

/-- The row `p'` of one producer: `q` more rewards, at a rate raised by `d`. -/
structure Deposit (p p' : Producer) (q d : ℤ) : Prop where
  owner : p'.owner = p.owner
  votes : p'.votes = p.votes
  allocating : p'.allocatingRewards = p.allocatingRewards + q
  allocated : p'.allocatedRewards = p.allocatedRewards
  total : p'.totalRewards = p.totalRewards + q
  rate : p'.rewardsPerVote = p.rewardsPerVote + d
  raise_nonneg : 0 ≤ d
  total_le : p'.totalRewards ≤ Asset.maxAmount
  rate_le : p'.rewardsPerVote ≤ p'.totalRewards * highPrecision
  solvent : ∀ x, x ≤ p.allocatingRewards * highPrecision →
    x + d * p.votes ≤ p'.allocatingRewards * highPrecision

/-- A raise of the rate raises what a voter is owed by its votes. -/
theorem Deposit.owedBy {p p' : Producer} {q d : ℤ} (h : Deposit p p' q d) (v : Voter) :
    v.owedBy p' = v.owedBy p + d * v.votesOn p.owner := by
  simp only [Voter.owedBy, Voter.votesOn, h.owner]
  cases v.producers.find? p.owner with
  | none => simp
  | some e => simp [Producer.owed, h.rate, Accrual.owed_raise]

theorem Deposit.ledger {s : State} {n₀ : Name} {p' : Producer} {q d : ℤ} (h : Ledger s)
    (hp : Deposit (s.producer n₀) p' q d) :
    Ledger { s with totalRewards := s.totalRewards + q, producers := s.producers.set p' } := by
  have howner : p'.owner = n₀ := hp.owner.trans (producerRow_owner _ _)
  have hrow : ∀ n, producerRow (s.producers.set p') n = if n₀ = n then p' else s.producer n :=
    fun n => by rw [producerRow_set, howner]
  have hself : producerRow (s.producers.set p') n₀ = p' := by rw [hrow, if_pos rfl]
  have hother : ∀ n, n₀ ≠ n → producerRow (s.producers.set p') n = s.producer n :=
    fun n hn => by rw [hrow, if_neg hn]
  have hsum : ∀ f : Producer → ℤ, f { owner := n₀ } = 0 →
      (s.producers.set p').sum f = s.producers.sum f - f (s.producer n₀) + f p' := fun f hf => by
    rw [Table.sum_set_getD (d := { owner := n₀ }) _ hf, howner]
    rfl
  constructor
  case voter_nonneg => exact h.voter_nonneg
  case last_le =>
    intro v hv n e he
    refine (h.last_le v hv n e he).trans ?_
    show _ ≤ (producerRow (s.producers.set p') n).rewardsPerVote
    rcases eq_or_ne n₀ n with rfl | hn
    · rw [hself, hp.rate]
      have := hp.raise_nonneg
      omega
    · rw [hother n hn]
  case votes_eq =>
    intro n
    show (producerRow (s.producers.set p') n).votes = _
    rcases eq_or_ne n₀ n with rfl | hn
    · rw [hself, hp.votes, h.votes_eq]
    · rw [hother n hn, h.votes_eq]
  case rate_nonneg =>
    intro n
    show 0 ≤ (producerRow (s.producers.set p') n).rewardsPerVote
    rcases eq_or_ne n₀ n with rfl | hn
    · rw [hself, hp.rate]
      exact add_nonneg (h.rate_nonneg _) hp.raise_nonneg
    · rw [hother n hn]
      exact h.rate_nonneg n
  case rate_le =>
    intro n
    show (producerRow (s.producers.set p') n).rewardsPerVote ≤
      (producerRow (s.producers.set p') n).totalRewards * highPrecision
    rcases eq_or_ne n₀ n with rfl | hn
    · rw [hself]
      exact hp.rate_le
    · rw [hother n hn]
      exact h.rate_le n
  case total_eq =>
    intro n
    show (producerRow (s.producers.set p') n).totalRewards =
      (producerRow (s.producers.set p') n).allocatingRewards +
        (producerRow (s.producers.set p') n).allocatedRewards
    rcases eq_or_ne n₀ n with rfl | hn
    · rw [hself, hp.total, hp.allocating, hp.allocated, h.total_eq]
      ring
    · rw [hother n hn]
      exact h.total_eq n
  case allocated_nonneg =>
    intro n
    show 0 ≤ (producerRow (s.producers.set p') n).allocatedRewards
    rcases eq_or_ne n₀ n with rfl | hn
    · rw [hself, hp.allocated]
      exact h.allocated_nonneg _
    · rw [hother n hn]
      exact h.allocated_nonneg n
  case total_le =>
    intro n
    show (producerRow (s.producers.set p') n).totalRewards ≤ _
    rcases eq_or_ne n₀ n with rfl | hn
    · rw [hself]
      exact hp.total_le
    · rw [hother n hn]
      exact h.total_le n
  case solvent =>
    intro n
    show s.voters.sum (·.owedBy (producerRow (s.producers.set p') n)) ≤
      (producerRow (s.producers.set p') n).allocatingRewards * highPrecision
    rcases eq_or_ne n₀ n with rfl | hn
    · rw [hself]
      simp only [hp.owedBy, producerRow_owner]
      simp only [Table.sum_add, Table.sum_mul_left, ← h.votes_eq n₀]
      exact hp.solvent _ (h.solvent n₀)
    · rw [hother n hn]
      exact h.solvent n
  case sum_allocated =>
    show (s.producers.set p').sum (·.allocatedRewards) = _
    rw [hsum _ rfl, hp.allocated, h.sum_allocated]
    ring
  case sum_allocating =>
    show (s.producers.set p').sum (·.allocatingRewards) =
      s.totalRewards + q - (s.producers.set p').sum (·.allocatedRewards)
    rw [hsum _ rfl, hsum _ rfl, hp.allocated, hp.allocating, h.sum_allocating]
    ring
  case sum_total =>
    show s.totalRewards + q = (s.producers.set p').sum (·.totalRewards)
    rw [hsum _ rfl, hp.total, h.sum_total]
    ring

end Amax.Reward
