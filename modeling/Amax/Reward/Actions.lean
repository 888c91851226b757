-- SUMMARY: What each action of the reward contract does to the ledger, and that its checks on rewards never fail.
import Amax.Reward.Ledger

/-! # The actions of the reward contract

Every action of a voter is a settlement; a registration changes no amount, and
an incoming transfer is a deposit for one producer. -/

namespace Amax.Reward

/-- The core tokens received through accepted transfers. -/
def received : List Flow → ℤ
  | [] => 0
  | .received q :: flows => q + received flows
  | .paid _ _ :: flows => received flows

/-- The core tokens paid for claims. -/
def paid : List Flow → ℤ
  | [] => 0
  | .received _ :: flows => paid flows
  | .paid _ q :: flows => q + paid flows

theorem received_append (l l' : List Flow) : received (l ++ l') = received l + received l' := by
  induction l with
  | nil => simp [received]
  | cons f l ih => cases f <;> simp [received, ih, add_assoc]

theorem paid_append (l l' : List Flow) : paid (l ++ l') = paid l + paid l' := by
  induction l with
  | nil => simp [paid]
  | cons f l ih => cases f <;> simp [paid, ih, add_assoc]

/-- The ledger agrees with what came in and what went out. -/
structure Books (s : State) (flows : List Flow) : Prop where
  ledger : Ledger s
  received_eq : received flows = s.totalRewards
  paid_eq : paid flows = s.voters.sum (·.claimedRewards)

-- ---------------------------------------------------------------------------
-- Settlements
-- ---------------------------------------------------------------------------

/-- A successful action of the voter `name`, who becomes `v'`. -/
structure VoterAction (s : State) (name : Name) (v' : Voter) (s' : State) (flows : List Flow) :
    Prop where
  step : VoterStep s (s.voter name) v' s'.producers
  state : s' = { s with producers := s'.producers, voters := s.voters.set v' }
  received_eq : received flows = 0
  paid_eq : paid flows = v'.claimedRewards - (s.voter name).claimedRewards

theorem VoterAction.books {s s' : State} {name : Name} {v' : Voter} {flows out : List Flow}
    (h : VoterAction s name v' s' out) (hb : Books s flows) : Books s' (flows ++ out) := by
  have hkey : v'.owner = name := h.step.owner.trans (voter_owner s name)
  have hs := h.state
  have htotal : s'.totalRewards = s.totalRewards := by rw [hs]
  have hvoters : s'.voters = s.voters.set v' := by rw [hs]
  refine ⟨?_, ?_, ?_⟩
  · rw [hs]
    exact h.step.ledger hb.ledger
  · rw [received_append, hb.received_eq, h.received_eq, htotal, add_zero]
  · rw [paid_append, hb.paid_eq, h.paid_eq, hvoters,
      Table.sum_set_getD (d := { owner := name }) _ rfl, hkey]
    show _ + (v'.claimedRewards - (s.voter name).claimedRewards) =
      _ - (s.voter name).claimedRewards + _
    ring

/-- A voter settled by one call of `allocate_producer_rewards`. -/
theorem Settled.voterStep {s : State} {v v' : Voter} {votesDelta : ℤ} {st : Allocation}
    (h : Settled s.producers v.producers v.votes votesDelta v.unclaimedRewards st)
    (ho : v'.owner = v.owner) (hvotes : v'.votes = v.votes + votesDelta) (hn : 0 ≤ v'.votes)
    (hp : v'.producers = st.voted)
    (he : v'.earned = st.unclaimedRewards + v.claimedRewards) :
    VoterStep s v v' st.producers where
  owner := ho
  votes_nonneg := hn
  row n := by
    rw [h.row n]
    simp only [Voter.owedBy_row, Voter.votesOn, hp, h.voted n, hvotes]
    cases v.producers.find? n with
    | none => simp
    | some e =>
      simp only [Producer.settle, Producer.payout, Option.map_some, Option.isSome_some, if_true]
      congr 1
      ring
  last n e hf := by
    rw [hp, h.voted n, Option.map_eq_some_iff] at hf
    obtain ⟨e', -, rfl⟩ := hf
    rfl
  sums := by
    refine ⟨st.unclaimedRewards - v.unclaimedRewards, ?_, ?_, ?_, ?_⟩
    · rw [he]
      simp only [Voter.earned]
      ring
    · rw [h.sum (·.allocatedRewards) 1 (fun _ => rfl) (by simp [Producer.settle]), h.unclaimed]
      ring
    · rw [h.sum (·.allocatingRewards) (-1) (fun _ => rfl)
        (by intro p l; simp only [Producer.settle]; ring), h.unclaimed]
      ring
    · simpa using h.sum (·.totalRewards) 0 (fun _ => rfl) (by simp [Producer.settle])

/-- The rows of the producers a call does not settle stay as they are. -/
theorem Settled.row_of_none {producers : Table Producer.owner} {m : VotedProducerMap}
    {votesOld votesDelta unclaimed : ℤ} {st : Allocation} {n : Name}
    (h : Settled producers m votesOld votesDelta unclaimed st) (hn : m.find? n = none) :
    producerRow st.producers n = producerRow producers n := by
  rw [h.row n, hn]

theorem Settled.row_of_some {producers : Table Producer.owner} {m : VotedProducerMap}
    {votesOld votesDelta unclaimed : ℤ} {st : Allocation} {n : Name} {e : VotedProducer}
    (h : Settled producers m votesOld votesDelta unclaimed st) (hn : m.find? n = some e) :
    producerRow st.producers n =
      (producerRow producers n).settle votesOld votesDelta e.lastRewardsPerVote := by
  rw [h.row n, hn]

theorem Settled.voted_of_some {producers : Table Producer.owner} {m : VotedProducerMap}
    {votesOld votesDelta unclaimed : ℤ} {st : Allocation} {n : Name} {e : VotedProducer}
    (h : Settled producers m votesOld votesDelta unclaimed st) (hn : m.find? n = some e) :
    st.voted.find? n = some { e with
      lastRewardsPerVote := (producerRow producers n).rewardsPerVote } := by
  rw [h.voted n, hn, Option.map_some]

theorem Settled.voted_of_none {producers : Table Producer.owner} {m : VotedProducerMap}
    {votesOld votesDelta unclaimed : ℤ} {st : Allocation} {n : Name}
    (h : Settled producers m votesOld votesDelta unclaimed st) (hn : m.find? n = none) :
    st.voted.find? n = none := by
  rw [h.voted n, hn, Option.map_none]

section Voteproducer

variable {s : State} {v : Voter} {new : List Name} {st₁ st₂ st₃ : Allocation}
  (hnew : new.Pairwise (· < ·))
  (h₁ : Settled s.producers (voteGroups v.producers new).removed v.votes (-v.votes)
    v.unclaimedRewards st₁)
  (h₂ : Settled st₁.producers (voteGroups v.producers new).kept v.votes 0 st₁.unclaimedRewards st₂)
  (h₃ : Settled st₂.producers (voteGroups v.producers new).added 0 v.votes st₂.unclaimedRewards st₃)

include hnew h₁ h₂ h₃

/-- What the three calls of `voteproducer` do to one producer and to the voter's entry for it. -/
theorem voteproducer_row (n : Name) :
    let m := st₃.voted.rows.foldl emplaceVoted st₂.voted
    let p := s.producer n
    (m.find? n).isSome = decide (n ∈ new) ∧
    (∀ e, m.find? n = some e → e.lastRewardsPerVote = p.rewardsPerVote) ∧
    producerRow st₃.producers n = { p with
      allocatingRewards := p.allocatingRewards -
        Accrual.payout highPrecision (v.owedBy p)
      allocatedRewards := p.allocatedRewards + Accrual.payout highPrecision (v.owedBy p)
      votes := p.votes - v.votesOn n + if n ∈ new then v.votes else 0 } := by
  have hr := voteGroups_removed v.producers hnew n
  have hk := voteGroups_kept v.producers hnew n
  have ha := voteGroups_added v.producers hnew n
  simp only [find?_foldl_emplaceVoted, Voter.owedBy_row, Voter.votesOn]
  by_cases hn : n ∈ new
  · rw [if_pos hn] at hr hk
    have hp₁ := h₁.row_of_none hr
    cases he : v.producers.find? n with
    | some e =>
      rw [if_neg (by simp [he])] at ha
      rw [he] at hk
      have hp₂ := h₂.row_of_some hk
      have hp₃ := h₃.row_of_none ha
      rw [hp₃, hp₂, hp₁, h₂.voted_of_some hk, hp₁]
      simp [hn, Producer.settle, Producer.payout]
    | none =>
      rw [if_pos ⟨hn, he⟩] at ha
      rw [he] at hk
      have hp₂ := h₂.row_of_none hk
      have hp₃ := h₃.row_of_some ha
      rw [hp₃, hp₂, hp₁, h₂.voted_of_none hk, h₃.voted_of_some ha, hp₂, hp₁]
      simp [hn, Producer.settle, Producer.payout, Producer.owed]
  · rw [if_neg hn] at hr hk
    rw [if_neg fun h => hn h.1] at ha
    have hp₂ := h₂.row_of_none hk
    have hp₃ := h₃.row_of_none ha
    rw [hp₃, hp₂, h₂.voted_of_none hk, h₃.voted_of_none ha]
    cases he : v.producers.find? n with
    | some e =>
      rw [he] at hr
      rw [h₁.row_of_some hr]
      simp [hn, Producer.settle, Producer.payout, sub_eq_add_neg]
    | none =>
      rw [he] at hr
      rw [h₁.row_of_none hr]
      simp [hn]

theorem voteproducer_voterStep (hv : 0 ≤ v.votes) :
    VoterStep s v { v with
      producers := st₃.voted.rows.foldl emplaceVoted st₂.voted
      unclaimedRewards := st₃.unclaimedRewards } st₃.producers where
  owner := rfl
  votes_nonneg := hv
  row n := by
    obtain ⟨hkey, -, hrow⟩ := voteproducer_row hnew h₁ h₂ h₃ n
    rw [hrow]
    simp only [Voter.votesOn, hkey, decide_eq_true_eq]
  last n e he := (voteproducer_row hnew h₁ h₂ h₃ n).2.1 e he
  sums := by
    have u₁ := h₁.unclaimed
    have u₂ := h₂.unclaimed
    have u₃ := h₃.unclaimed
    refine ⟨st₃.unclaimedRewards - v.unclaimedRewards, ?_, ?_, ?_, ?_⟩
    · simp only [Voter.earned]
      ring
    · have e₁ := h₁.sum (·.allocatedRewards) 1 (fun _ => rfl) (by simp [Producer.settle])
      have e₂ := h₂.sum (·.allocatedRewards) 1 (fun _ => rfl) (by simp [Producer.settle])
      have e₃ := h₃.sum (·.allocatedRewards) 1 (fun _ => rfl) (by simp [Producer.settle])
      linarith
    · have e₁ := h₁.sum (·.allocatingRewards) (-1) (fun _ => rfl)
        (by intro p l; simp only [Producer.settle]; ring)
      have e₂ := h₂.sum (·.allocatingRewards) (-1) (fun _ => rfl)
        (by intro p l; simp only [Producer.settle]; ring)
      have e₃ := h₃.sum (·.allocatingRewards) (-1) (fun _ => rfl)
        (by intro p l; simp only [Producer.settle]; ring)
      linarith
    · have e₁ := h₁.sum (·.totalRewards) 0 (fun _ => rfl) (by simp [Producer.settle])
      have e₂ := h₂.sum (·.totalRewards) 0 (fun _ => rfl) (by simp [Producer.settle])
      have e₃ := h₃.sum (·.totalRewards) 0 (fun _ => rfl) (by simp [Producer.settle])
      linarith

end Voteproducer

-- ---------------------------------------------------------------------------
-- Actions of voters
-- ---------------------------------------------------------------------------

section Actions

variable {env : Env} {s s' : State} {flows : List Flow}

private theorem changeVote_allocation (h : Ledger s) (voter : Name) {votesDelta : ℤ}
    (hd : 0 ≤ (s.voter voter).votes + votesDelta) :
    ∃ st, UpToRange (allocateProducerRewards s.producers (s.voter voter).producers
        (s.voter voter).votes votesDelta (s.voter voter).unclaimedRewards) st ∧
      Settled s.producers (s.voter voter).producers (s.voter voter).votes votesDelta
        (s.voter voter).unclaimedRewards st :=
  allocateProducerRewards_upToRange _ fun _ _ he => h.covers he hd

theorem changeVote_delta {v : Voter} {votes : Asset} {isAdding : Bool} (hv : 0 ≤ v.votes)
    (hpos : 0 < votes.amount) (hsub : !isAdding → votes.amount ≤ v.votes) :
    0 ≤ v.votes + if isAdding then votes.amount else -votes.amount := by
  cases isAdding with
  | true => simp only [if_true]; omega
  | false =>
    have := hsub rfl
    simp only [Bool.false_eq_true, if_false]
    omega

theorem changeVote_avoids (h : Ledger s) (voter : Name) (votes : Asset) (isAdding : Bool) :
    Avoids .accrual (changeVote env s voter votes isAdding) := by
  unfold changeVote requireAuth payRow
  refine .check_bind (by decide) fun _ => .check_bind (by decide) fun _ =>
    .check_bind (by decide) fun _ => .check_bind (by decide) fun hpos =>
    .check_bind (by decide) fun _ => .check_bind (by decide) fun hsub => ?_
  obtain ⟨st, hst, -⟩ := changeVote_allocation h voter
    (changeVote_delta (h.voter_votes_nonneg voter) hpos hsub)
  exact .bind (hst.avoids (by decide)) fun _ _ =>
    .bind ((addAmount_upToRange _ _).avoids (by decide)) fun _ _ =>
    .check_bind (by decide) fun _ => .ok _

/-- `addvote` and `subvote` settle the voter, change its votes and keep its producers. -/
theorem changeVote_ok {voter : Name} {votes : Asset} {isAdding : Bool} (h : Ledger s)
    (hok : changeVote env s voter votes isAdding = .ok (s', flows)) :
    ∃ v', VoterAction s voter v' s' flows ∧
      v'.votes = (s.voter voter).votes + (if isAdding then votes.amount else -votes.amount) ∧
      ∀ n, (v'.producers.find? n).isSome = ((s.voter voter).producers.find? n).isSome := by
  simp only [changeVote, requireAuth, payRow, Except.bind_ok_iff, check_ok_iff, exists_const,
    addAmount_ok_iff, Except.pure_ok_iff, Prod.mk.injEq] at hok
  obtain ⟨-, -, -, hpos, -, hsub, st', hst', sum, ⟨-, rfl⟩, hn, rfl, rfl⟩ := hok
  obtain ⟨st, hst, hsettled⟩ := changeVote_allocation h voter
    (changeVote_delta (h.voter_votes_nonneg voter) hpos hsub)
  obtain rfl := hst.eq_of_ok hst'
  refine ⟨{ s.voter voter with
      votes := (s.voter voter).votes + if isAdding then votes.amount else -votes.amount
      producers := st'.voted
      unclaimedRewards := st'.unclaimedRewards }, ⟨?_, rfl, rfl, ?_⟩, rfl, fun n => ?_⟩
  · exact hsettled.voterStep rfl rfl hn rfl rfl
  · simp [paid]
  · simp [hsettled.voted n]

section Covered

variable {voter : Name} {new : List Name} {st₁ st₂ : Allocation} (h : Ledger s)
  (hnew : new.Pairwise (· < ·))

include h hnew

/-- The producers a voter leaves cover it. -/
theorem removed_covers {n : Name} {e : VotedProducer}
    (he : (voteGroups (s.voter voter).producers new).removed.find? n = some e) :
    (s.producer n).Covers (s.voter voter).votes (-(s.voter voter).votes) e.lastRewardsPerVote := by
  rw [voteGroups_removed _ hnew n] at he
  split_ifs at he
  exact h.covers he (add_neg_cancel _).ge

/-- The producers a voter keeps cover it. -/
theorem kept_covers {n : Name} {e : VotedProducer}
    (he : (voteGroups (s.voter voter).producers new).kept.find? n = some e) :
    (s.producer n).Covers (s.voter voter).votes 0 e.lastRewardsPerVote := by
  rw [voteGroups_kept _ hnew n] at he
  split_ifs at he
  exact h.covers he (by rw [add_zero]; exact h.voter_votes_nonneg voter)

/-- The producers a voter adds cover it. -/
theorem added_covers {n : Name} {e : VotedProducer}
    (he : (voteGroups (s.voter voter).producers new).added.find? n = some e) :
    (s.producer n).Covers 0 (s.voter voter).votes e.lastRewardsPerVote := by
  rw [voteGroups_added _ hnew n] at he
  split_ifs at he
  obtain rfl : ({ name := n } : VotedProducer) = e := Option.some.inj he
  exact h.covers_new (h.voter_votes_nonneg voter)

omit h in
theorem kept_row {w d u : ℤ} {n : Name} {e : VotedProducer}
    (h₁ : Settled s.producers (voteGroups (s.voter voter).producers new).removed w d u st₁)
    (he : (voteGroups (s.voter voter).producers new).kept.find? n = some e) :
    producerRow st₁.producers n = s.producer n := by
  rw [voteGroups_kept _ hnew n] at he
  split_ifs at he with hn
  exact h₁.row_of_none (by rw [voteGroups_removed _ hnew n, if_pos hn])

omit h in
theorem added_row {w d u w' d' u' : ℤ} {n : Name} {e : VotedProducer}
    (h₁ : Settled s.producers (voteGroups (s.voter voter).producers new).removed w d u st₁)
    (h₂ : Settled st₁.producers (voteGroups (s.voter voter).producers new).kept w' d' u' st₂)
    (he : (voteGroups (s.voter voter).producers new).added.find? n = some e) :
    producerRow st₂.producers n = s.producer n := by
  rw [voteGroups_added _ hnew n] at he
  split_ifs at he with hn
  rw [h₂.row_of_none (by rw [voteGroups_kept _ hnew n, if_pos hn.1, hn.2]),
    h₁.row_of_none (by rw [voteGroups_removed _ hnew n, if_pos hn.1])]

end Covered

private theorem voteproducer_allocations (h : Ledger s) (voter : Name) {new : List Name}
    (hnew : new.Pairwise (· < ·)) :
    let v := s.voter voter
    let g := voteGroups v.producers new
    ∃ st₁ st₂ st₃,
      UpToRange (allocateProducerRewards s.producers g.removed v.votes (-v.votes)
        v.unclaimedRewards) st₁ ∧
      UpToRange (allocateProducerRewards st₁.producers g.kept v.votes 0 st₁.unclaimedRewards) st₂ ∧
      UpToRange (allocateProducerRewards st₂.producers g.added 0 v.votes st₂.unclaimedRewards) st₃ ∧
      Settled s.producers g.removed v.votes (-v.votes) v.unclaimedRewards st₁ ∧
      Settled st₁.producers g.kept v.votes 0 st₁.unclaimedRewards st₂ ∧
      Settled st₂.producers g.added 0 v.votes st₂.unclaimedRewards st₃ := by
  intro v g
  obtain ⟨st₁, u₁, s₁⟩ := allocateProducerRewards_upToRange v.unclaimedRewards
    fun n e he => removed_covers h hnew he
  have c₂ : ∀ n e, g.kept.find? n = some e →
      (producerRow st₁.producers n).Covers v.votes 0 e.lastRewardsPerVote := by
    intro n e he
    rw [kept_row hnew s₁ he]
    exact kept_covers h hnew he
  obtain ⟨st₂, u₂, s₂⟩ := allocateProducerRewards_upToRange st₁.unclaimedRewards c₂
  have c₃ : ∀ n e, g.added.find? n = some e →
      (producerRow st₂.producers n).Covers 0 v.votes e.lastRewardsPerVote := by
    intro n e he
    rw [added_row hnew s₁ s₂ he]
    exact added_covers h hnew he
  obtain ⟨st₃, u₃, s₃⟩ := allocateProducerRewards_upToRange st₂.unclaimedRewards c₃
  exact ⟨st₁, st₂, st₃, u₁, u₂, u₃, s₁, s₂, s₃⟩

theorem voteproducer_avoids (h : Ledger s) (voter : Name) (producers : List Name) :
    Avoids .accrual (voteproducer env s voter producers) := by
  unfold voteproducer requireAuth payRow
  refine .check_bind (by decide) fun _ => .check_bind (by decide) fun _ =>
    .check_bind (by decide) fun hsorted => .check_bind (by decide) fun _ => ?_
  obtain ⟨st₁, st₂, st₃, u₁, u₂, u₃, -⟩ := voteproducer_allocations h voter hsorted.pairwise
  refine .bind (u₁.avoids (by decide)) fun a₁ h₁ => ?_
  obtain rfl := u₁.eq_of_ok h₁
  refine .bind (u₂.avoids (by decide)) fun a₂ h₂ => ?_
  obtain rfl := u₂.eq_of_ok h₂
  exact .bind (u₃.avoids (by decide)) fun _ _ => .ok _

/-- `voteproducer` settles the voter, keeps its votes and replaces its producers. -/
theorem voteproducer_ok {voter : Name} {producers : List Name} (h : Ledger s)
    (hok : voteproducer env s voter producers = .ok (s', flows)) :
    ∃ v', VoterAction s voter v' s' flows ∧ v'.votes = (s.voter voter).votes ∧
      v'.producers.rows.map (·.name) = producers := by
  simp only [voteproducer, requireAuth, payRow, Except.bind_ok_iff, check_ok_iff, exists_const,
    Except.pure_ok_iff, Prod.mk.injEq] at hok
  obtain ⟨-, -, hsorted, -, a₁, h₁, a₂, h₂, a₃, h₃, rfl, rfl⟩ := hok
  have hnew := hsorted.pairwise
  obtain ⟨st₁, st₂, st₃, u₁, u₂, u₃, s₁, s₂, s₃⟩ := voteproducer_allocations h voter hnew
  obtain rfl := u₁.eq_of_ok h₁
  obtain rfl := u₂.eq_of_ok h₂
  obtain rfl := u₃.eq_of_ok h₃
  refine ⟨{ s.voter voter with
      producers := a₃.voted.rows.foldl emplaceVoted a₂.voted
      unclaimedRewards := a₃.unclaimedRewards }, ⟨?_, rfl, rfl, ?_⟩, rfl, ?_⟩
  · exact voteproducer_voterStep hnew s₁ s₂ s₃ (h.voter_votes_nonneg voter)
  · simp [paid]
  · refine Table.keys_eq hnew fun n => ?_
    rw [(voteproducer_row hnew s₁ s₂ s₃ n).1, decide_eq_true_iff]

theorem claim_allocation (h : Ledger s) {voter : Name} {v : Voter}
    (hv : s.voters.find? voter = some v) :
    ∃ st, UpToRange (allocateProducerRewards s.producers v.producers v.votes 0 v.unclaimedRewards)
        st ∧ Settled s.producers v.producers v.votes 0 v.unclaimedRewards st := by
  have hrow : s.voter voter = v := by simp [State.voter, hv]
  have hn := h.voter_votes_nonneg voter
  have := changeVote_allocation h voter (hn.trans (add_zero _).ge)
  rwa [hrow] at this

theorem claim_avoids (h : Ledger s) (voter : Name) : Avoids .accrual (claim env s voter) := by
  unfold claim
  cases hv : s.voters.find? voter with
  | none => exact .error (by decide)
  | some v =>
    obtain ⟨st, hst, -⟩ := claim_allocation h hv
    exact .check_bind (by decide) fun _ => .bind (hst.avoids (by decide)) fun _ _ =>
      .check_bind (by decide) fun _ => .check_bind (by decide) fun _ =>
      .bind ((addAmount_upToRange _ _).avoids (by decide)) fun _ _ => .ok _

/-- A claim settles the voter and pays out all it has earned. -/
theorem claim_ok {voter : Name} (h : Ledger s) (hok : claim env s voter = .ok (s', flows)) :
    ∃ v', VoterAction s voter v' s' flows := by
  unfold claim at hok
  cases hv : s.voters.find? voter with
  | none => simp [hv] at hok
  | some v =>
    have hrow : s.voter voter = v := by simp [State.voter, hv]
    simp only [hv, Except.bind_ok_iff, check_ok_iff, exists_const, addAmount_ok_iff,
      Except.pure_ok_iff, Prod.mk.injEq] at hok
    obtain ⟨hpos, st', hst', -, -, claimed, ⟨-, rfl⟩, rfl, rfl⟩ := hok
    obtain ⟨st, hst, hsettled⟩ := claim_allocation h hv
    obtain rfl := hst.eq_of_ok hst'
    refine ⟨{ v with
        producers := st'.voted
        unclaimedRewards := 0
        claimedRewards := v.claimedRewards + st'.unclaimedRewards }, ⟨?_, rfl, rfl, ?_⟩⟩
    · rw [hrow]
      refine hsettled.voterStep rfl (by simp) hpos.le rfl ?_
      simp only [Voter.earned]
      ring
    · simp [paid, hrow]

-- ---------------------------------------------------------------------------
-- Registrations and deposits
-- ---------------------------------------------------------------------------

/-- A registration is a deposit of nothing. -/
theorem regproducer_ok {producer : Name} (h : Ledger s)
    (hok : regproducer env s producer = .ok (s', flows)) :
    flows = [] ∧ ∃ p', Deposit (s.producer producer) p' 0 0 ∧
      s' = { s with producers := s.producers.set p' } := by
  simp only [regproducer, requireAuth, payRow, Except.bind_ok_iff, check_ok_iff, exists_const,
    Except.pure_ok_iff, Prod.mk.injEq] at hok
  obtain ⟨-, -, -, rfl, rfl⟩ := hok
  refine ⟨rfl, _, ?_, rfl⟩
  exact { owner := rfl, votes := rfl, allocating := (add_zero _).symm, allocated := rfl
          total := (add_zero _).symm, rate := (add_zero _).symm, raise_nonneg := le_rfl
          total_le := h.total_le producer
          rate_le := h.rate_le producer
          solvent := fun x hx => by simpa using hx }

theorem regproducer_books {producer : Name} {out : List Flow} (hb : Books s out)
    (hok : regproducer env s producer = .ok (s', flows)) : Books s' (out ++ flows) := by
  obtain ⟨rfl, p', hd, rfl⟩ := regproducer_ok hb.ledger hok
  have hledger := hd.ledger hb.ledger
  rw [add_zero] at hledger
  rw [List.append_nil]
  exact ⟨hledger, hb.received_eq, hb.paid_eq⟩

/-- What an incoming transfer of `q` adds to the rate of `p`. -/
def Producer.raise (p : Producer) (q : ℤ) : ℤ :=
  if 0 < q ∧ 0 < p.votes then Accrual.raise highPrecision q p.votes else 0

/-- The rate and the products it is computed from stay far inside 128 bits. -/
theorem calcRewardsPerVote_upToRange {p : Producer} {q : ℤ} (h₀ : 0 ≤ p.rewardsPerVote)
    (hle : p.rewardsPerVote ≤ Asset.maxAmount * highPrecision) (hq₀ : 0 ≤ q)
    (hq : q ≤ Asset.maxAmount) (hv : 0 ≤ p.votes) :
    UpToRange (calcRewardsPerVote p.rewardsPerVote q p.votes) (p.rewardsPerVote + p.raise q) := by
  unfold calcRewardsPerVote Producer.raise
  refine .check ⟨hq₀, hv⟩ ?_
  split_ifs with hpos
  · have hprod₀ : 0 ≤ q * highPrecision := mul_nonneg hq₀ highPrecision_pos.le
    have hprod : q * highPrecision ≤ Asset.maxAmount * highPrecision :=
      mul_le_mul_of_nonneg_right hq highPrecision_pos.le
    have hraise₀ : 0 ≤ Accrual.raise highPrecision q p.votes :=
      Accrual.raise_nonneg highPrecision_pos hq₀ hpos.2
    have hraise : Accrual.raise highPrecision q p.votes ≤ q * highPrecision :=
      Int.ediv_le_self _ hprod₀
    have hmax : Asset.maxAmount * highPrecision + Asset.maxAmount * highPrecision < 2 ^ 127 := by
      decide
    have hnew : toInt128 (p.rewardsPerVote + (toInt128 (q * highPrecision)).tdiv p.votes) =
        p.rewardsPerVote + Accrual.raise highPrecision q p.votes := by
      rw [toInt128_of_lt hprod₀ (by omega), Int.tdiv_eq_ediv_of_nonneg hprod₀]
      exact toInt128_of_lt (add_nonneg h₀ hraise₀)
        (by simp only [Accrual.raise] at hraise ⊢; omega)
    rw [hnew]
    exact .check (by omega) (.ok _)
  · rw [add_zero]
    exact .ok _

/-- What `ontransfer` computes for a transfer it takes. -/
private theorem ontransfer_rate (h : Ledger s) {sender : Name} {p : Producer} {q : ℤ}
    (hp : s.producers.find? sender = some p) (hq₀ : 0 ≤ q)
    (hq : p.totalRewards + q ≤ Asset.maxAmount) :
    UpToRange (calcRewardsPerVote p.rewardsPerVote q p.votes) (p.rewardsPerVote + p.raise q) ∧
      0 ≤ p.raise q ∧ p.rewardsPerVote + p.raise q ≤ (p.totalRewards + q) * highPrecision ∧
      ∀ x, x ≤ p.allocatingRewards * highPrecision →
        x + p.raise q * p.votes ≤ (p.allocatingRewards + q) * highPrecision := by
  have hrow : s.producer sender = p := by simp [producerRow, hp]
  have h₀ := h.rate_nonneg sender
  have hle := h.rate_le sender
  have htotal := h.total_eq sender
  have hallocating := h.allocating_nonneg sender
  have hallocated := h.allocated_nonneg sender
  have hv := h.producer_votes_nonneg sender
  rw [hrow] at h₀ hle htotal hallocating hallocated hv
  have hmax : p.rewardsPerVote ≤ Asset.maxAmount * highPrecision :=
    hle.trans (mul_le_mul_of_nonneg_right (by omega) highPrecision_pos.le)
  have hgrow : ∀ a : ℤ, a * highPrecision ≤ (a + q) * highPrecision :=
    fun a => mul_le_mul_of_nonneg_right (by omega) highPrecision_pos.le
  refine ⟨calcRewardsPerVote_upToRange h₀ hmax hq₀ (by omega) hv, ?_⟩
  unfold Producer.raise
  split_ifs with hpos
  · exact ⟨Accrual.raise_nonneg highPrecision_pos hq₀ hpos.2,
      Accrual.raise_le highPrecision_pos hq₀ hle, fun x hx => Accrual.solvent_deposit hpos.2 hx⟩
  · refine ⟨le_rfl, by rw [add_zero]; exact hle.trans (hgrow _), fun x hx => ?_⟩
    rw [zero_mul, add_zero]
    exact hx.trans (hgrow _)

theorem ontransfer_avoids (h : Ledger s) (sender receiver : Name) (quantity : Asset) :
    Avoids .accrual (ontransfer env s sender receiver quantity) := by
  unfold ontransfer
  split_ifs with hin
  · refine .bind ((addAmount_upToRange _ _).avoids (by decide)) fun _ _ => ?_
    cases hp : s.producers.find? sender with
    | none => exact .error (by decide)
    | some p =>
      refine .check_bind (by decide) fun _ => ?_
      refine .bind ((addAmount_upToRange _ _).avoids (by decide)) fun total htotal => ?_
      refine .bind ((addAmount_upToRange _ _).avoids (by decide)) fun _ _ => ?_
      refine .bind ?_ fun _ _ => .ok _
      obtain ⟨⟨-, hmax⟩, -⟩ := addAmount_ok_iff.mp htotal
      by_cases hq : 0 ≤ quantity.amount
      · exact (ontransfer_rate h hp hq hmax).1.avoids (by decide)
      · -- a negative quantity fails the first check, which is about the transfer
        unfold calcRewardsPerVote
        exact .check_bind (by decide) fun hc => absurd hc.1 hq
  · exact .ok _

/-- The transfer is one of core tokens into the contract. -/
def Credited (env : Env) (s : State) (sender receiver : Name) (quantity : Asset) : Prop :=
  env.firstReceiver = coreToken ∧ quantity.symbol = s.coreSymbol ∧ sender ≠ rewardAccount ∧
    receiver = rewardAccount

instance (env : Env) (s : State) (sender receiver : Name) (quantity : Asset) :
    Decidable (Credited env s sender receiver quantity) :=
  inferInstanceAs (Decidable (_ ∧ _))

/-- A transfer that is taken is a deposit for its sender, or does not concern the contract. -/
theorem ontransfer_ok {sender receiver : Name} {quantity : Asset} (h : Ledger s)
    (hok : ontransfer env s sender receiver quantity = .ok (s', flows)) :
    (¬ Credited env s sender receiver quantity ∧ s' = s ∧ flows = []) ∨
      Credited env s sender receiver quantity ∧ 0 ≤ quantity.amount ∧
        flows = [.received quantity.amount] ∧
        ∃ p', Deposit (s.producer sender) p' quantity.amount
            ((s.producer sender).raise quantity.amount) ∧
          s' = { s with
            totalRewards := s.totalRewards + quantity.amount
            producers := s.producers.set p' } := by
  unfold ontransfer at hok
  split_ifs at hok with hin
  · cases hp : s.producers.find? sender with
    | none => simp [hp, Except.bind_ok_iff] at hok
    | some p =>
      simp only [hp, Except.bind_ok_iff, check_ok_iff, exists_const, addAmount_ok_iff,
        Except.pure_ok_iff, Prod.mk.injEq] at hok
      obtain ⟨_, ⟨-, rfl⟩, -, total, ⟨⟨-, hmax⟩, rfl⟩, _, ⟨-, rfl⟩, rate, hrate, rfl, rfl⟩ := hok
      have hrow : s.producer sender = p := by simp [producerRow, hp]
      have hq : 0 ≤ quantity.amount := by
        have := hrate
        simp only [calcRewardsPerVote, Except.bind_ok_iff, check_ok_iff] at this
        exact this.choose_spec.1.1
      obtain ⟨hupto, hraise, hle, hsolvent⟩ := ontransfer_rate h hp hq hmax
      obtain rfl := hupto.eq_of_ok hrate
      refine .inr ⟨hin, hq, rfl, _, ?_, rfl⟩
      rw [hrow]
      exact { owner := rfl, votes := rfl, allocating := rfl, allocated := rfl, total := rfl
              rate := rfl, raise_nonneg := hraise, total_le := hmax, rate_le := hle
              solvent := hsolvent }
  · simp only [Except.pure_ok_iff, Prod.mk.injEq] at hok
    exact .inl ⟨hin, hok.1.symm, hok.2.symm⟩

theorem ontransfer_books {sender receiver : Name} {quantity : Asset} {out : List Flow}
    (hb : Books s out) (hok : ontransfer env s sender receiver quantity = .ok (s', flows)) :
    Books s' (out ++ flows) := by
  rcases ontransfer_ok hb.ledger hok with ⟨-, rfl, rfl⟩ | ⟨-, -, rfl, p', hd, rfl⟩
  · rwa [List.append_nil]
  · refine ⟨hd.ledger hb.ledger, ?_, ?_⟩
    · rw [received_append, hb.received_eq]
      simp [received]
    · rw [paid_append, hb.paid_eq]
      simp [paid]

/-- No voter and no votes of a producer change. -/
structure KeepsVotes (s s' : State) : Prop where
  votes : ∀ n, (s'.producer n).votes = (s.producer n).votes
  voters : s'.voters = s.voters

private theorem keepsVotes_set {n₀ : Name} {p : Producer} {total : ℤ} (ho : p.owner = n₀)
    (hv : p.votes = (s.producer n₀).votes) :
    KeepsVotes s { s with totalRewards := total, producers := s.producers.set p } := by
  refine ⟨fun n => ?_, rfl⟩
  show (producerRow (s.producers.set p) n).votes = _
  rw [producerRow_set, ho]
  split_ifs with hn
  · rw [hv, hn]
  · rfl

theorem regproducer_keepsVotes {producer : Name}
    (hok : regproducer env s producer = .ok (s', flows)) : KeepsVotes s s' := by
  simp only [regproducer, requireAuth, payRow, Except.bind_ok_iff, check_ok_iff, exists_const,
    Except.pure_ok_iff, Prod.mk.injEq] at hok
  obtain ⟨-, -, -, rfl, rfl⟩ := hok
  exact keepsVotes_set (producerRow_owner _ _) rfl

theorem ontransfer_keepsVotes {sender receiver : Name} {quantity : Asset}
    (hok : ontransfer env s sender receiver quantity = .ok (s', flows)) : KeepsVotes s s' := by
  unfold ontransfer at hok
  split_ifs at hok with hin
  · cases hp : s.producers.find? sender with
    | none => simp [hp, Except.bind_ok_iff] at hok
    | some p =>
      simp only [hp, Except.bind_ok_iff, check_ok_iff, exists_const, addAmount_ok_iff,
        Except.pure_ok_iff, Prod.mk.injEq] at hok
      obtain ⟨_, ⟨-, rfl⟩, -, total, ⟨-, rfl⟩, _, ⟨-, rfl⟩, rate, -, rfl, rfl⟩ := hok
      have hrow : s.producer sender = p := by simp [producerRow, hp]
      exact keepsVotes_set (Table.key_of_find? hp :) (by rw [hrow])
  · simp only [Except.pure_ok_iff, Prod.mk.injEq] at hok
    obtain ⟨rfl, -⟩ := hok
    exact ⟨fun _ => rfl, rfl⟩

end Actions

-- ---------------------------------------------------------------------------
-- Transactions
-- ---------------------------------------------------------------------------

/-- The voter an action settles. -/
def Action.voter : Action → Option Name
  | .addvote voter _ | .subvote voter _ | .voteproducer voter _ | .claimrewards voter
  | .claimfor _ voter => some voter
  | .regproducer _ | .ontransfer _ _ _ => none

/-- The actions of a voter are settlements. -/
theorem transact_voter {tx : Transaction} {s s' : State} {flows : List Flow} {voter : Name}
    (h : Ledger s) (hok : transact tx s = .ok (s', flows)) (hv : tx.action.voter = some voter) :
    ∃ v', VoterAction s voter v' s' flows := by
  simp only [transact, Except.bind_ok_iff, check_ok_iff, exists_const] at hok
  replace hok := hok.2
  cases htx : tx.action with
  | addvote _ votes =>
    rw [htx] at hok hv
    obtain rfl := Option.some.inj hv
    obtain ⟨v', ha, -⟩ := changeVote_ok h hok
    exact ⟨v', ha⟩
  | subvote _ votes =>
    rw [htx] at hok hv
    obtain rfl := Option.some.inj hv
    obtain ⟨v', ha, -⟩ := changeVote_ok h hok
    exact ⟨v', ha⟩
  | voteproducer _ producers =>
    rw [htx] at hok hv
    obtain rfl := Option.some.inj hv
    obtain ⟨v', ha, -⟩ := voteproducer_ok h hok
    exact ⟨v', ha⟩
  | claimrewards _ =>
    rw [htx] at hok hv
    obtain rfl := Option.some.inj hv
    simp only [claimrewards, requireAuth, Except.bind_ok_iff, check_ok_iff, exists_const] at hok
    exact claim_ok h hok.2
  | claimfor submitter _ =>
    rw [htx] at hok hv
    obtain rfl := Option.some.inj hv
    simp only [claimfor, requireAuth, Except.bind_ok_iff, check_ok_iff, exists_const] at hok
    exact claim_ok h hok.2
  | regproducer p =>
    rw [htx] at hv
    cases hv
  | ontransfer sender receiver quantity =>
    rw [htx] at hv
    cases hv

/-- One transaction keeps the books. -/
theorem transact_books {tx : Transaction} {s s' : State} {flows out : List Flow} (h : Books s out)
    (hok : transact tx s = .ok (s', flows)) : Books s' (out ++ flows) := by
  cases hv : tx.action.voter with
  | some voter =>
    obtain ⟨v', ha⟩ := transact_voter h.ledger hok hv
    exact ha.books h
  | none =>
    simp only [transact, Except.bind_ok_iff, check_ok_iff, exists_const] at hok
    replace hok := hok.2
    cases htx : tx.action with
    | regproducer p =>
      rw [htx] at hok
      exact regproducer_books h hok
    | ontransfer sender receiver quantity =>
      rw [htx] at hok
      exact ontransfer_books h hok
    | _ => simp [htx, Action.voter] at hv

/-- No transaction fails a check on rewards. -/
theorem transact_avoids {s : State} (h : Ledger s) (tx : Transaction) :
    Avoids .accrual (transact tx s) := by
  unfold transact
  refine .check_bind (by decide) fun _ => ?_
  cases tx.action with
  | regproducer p =>
    show Avoids .accrual (regproducer tx.env s p)
    unfold regproducer requireAuth payRow
    exact .check_bind (by decide) fun _ => .check_bind (by decide) fun _ =>
      .check_bind (by decide) fun _ => .ok _
  | addvote voter votes => exact changeVote_avoids h voter votes true
  | subvote voter votes => exact changeVote_avoids h voter votes false
  | voteproducer voter producers => exact voteproducer_avoids h voter producers
  | claimrewards voter => exact .check_bind (by decide) fun _ => claim_avoids h voter
  | claimfor submitter voter => exact .check_bind (by decide) fun _ => claim_avoids h voter
  | ontransfer sender receiver quantity => exact ontransfer_avoids h sender receiver quantity

/-- A contract nothing has happened to. -/
def State.fresh (coreSymbol : Symbol) : State := { coreSymbol }

theorem books_fresh (coreSymbol : Symbol) : Books (.fresh coreSymbol) [] := by
  refine ⟨?_, rfl, rfl⟩
  constructor
  case voter_nonneg => exact fun v hv => by simp [State.fresh, Table.empty] at hv
  case last_le => exact fun v hv => by simp [State.fresh, Table.empty] at hv
  case votes_eq => exact fun _ => rfl
  case rate_nonneg => exact fun _ => le_rfl
  case rate_le => exact fun _ => le_rfl
  case total_eq => exact fun _ => rfl
  case allocated_nonneg => exact fun _ => le_rfl
  case total_le => exact fun _ => show (0 : ℤ) ≤ Asset.maxAmount by decide
  case solvent => exact fun _ => le_rfl
  case sum_allocated => rfl
  case sum_allocating => rfl
  case sum_total => rfl

/-- The books are right after every run. -/
theorem books_run (coreSymbol : Symbol) (txs : List Transaction) :
    Books (State.final (.fresh coreSymbol) txs) (State.flows (.fresh coreSymbol) txs) := by
  have hstep : ∀ s l tx s' out, Books s l → True → transact tx s = .ok (s', out) →
      Books s' (l ++ out) := fun s l tx s' out h _ hok => transact_books h hok
  simpa using Run.invariant_outputs (P := fun _ _ => True) hstep (books_fresh coreSymbol)
    (Run.along_true _ txs)

end Amax.Reward
