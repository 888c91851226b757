-- SUMMARY: What allocate_producer_rewards does: each producer of the map pays what it owes the voter and takes over its new votes.
import Amax.Base.Accrual
import Amax.Reward.Contract

/-! # Settlement

`allocate_producer_rewards` settles one voter with every producer of a map. If
each of these producers covers what it owes the voter, none of its checks
fails, and only the range of an amount can stop it. -/

namespace Amax.Reward

theorem highPrecision_pos : 0 < highPrecision := by decide

-- ---------------------------------------------------------------------------
-- One producer
-- ---------------------------------------------------------------------------

namespace Producer

/-- What `p` owes for `votes` last paid at the rate `last`, scaled. -/
def owed (p : Producer) (votes last : ℤ) : ℤ := Accrual.owed votes p.rewardsPerVote last

/-- What `p` pays for `votes` last paid at the rate `last`. -/
def payout (p : Producer) (votes last : ℤ) : ℤ := Accrual.payout highPrecision (p.owed votes last)

/-- The row of `p` once it has paid a voter and taken over the change of its votes. -/
def settle (p : Producer) (votesOld votesDelta last : ℤ) : Producer :=
  { p with
    allocatingRewards := p.allocatingRewards - p.payout votesOld last
    allocatedRewards := p.allocatedRewards + p.payout votesOld last
    votes := p.votes + votesDelta }

/-- `p` can settle a voter: it has what it owes, and its votes include the voter's. -/
structure Covers (p : Producer) (votesOld votesDelta last : ℤ) : Prop where
  last_le : last ≤ p.rewardsPerVote
  votesOld_nonneg : 0 ≤ votesOld
  votesOld_le : votesOld ≤ p.votes
  votes_nonneg : 0 ≤ p.votes + votesDelta
  owed_le : p.owed votesOld last ≤ p.allocatingRewards * highPrecision
  allocating_le : p.allocatingRewards ≤ Asset.maxAmount
  total_eq : p.totalRewards = p.allocatingRewards + p.allocatedRewards

@[simp] theorem settle_owner (p : Producer) (w d l : ℤ) : (p.settle w d l).owner = p.owner := rfl
@[simp] theorem settle_rewardsPerVote (p : Producer) (w d l : ℤ) :
    (p.settle w d l).rewardsPerVote = p.rewardsPerVote := rfl

end Producer

/-- The round of the loop when nothing stops it. -/
def settleOne (votesOld votesDelta : ℤ) (st : Allocation) (votedProd : VotedProducer) :
    Allocation :=
  let p := producerRow st.producers votedProd.name
  { producers := st.producers.set (p.settle votesOld votesDelta votedProd.lastRewardsPerVote)
    voted := st.voted.set { votedProd with lastRewardsPerVote := p.rewardsPerVote }
    unclaimedRewards :=
      st.unclaimedRewards + p.payout votesOld votedProd.lastRewardsPerVote }

theorem addAmount_upToRange (a b : ℤ) : UpToRange (addAmount a b) (a + b) := by
  unfold addAmount Asset.checkSum
  by_cases h₁ : -Asset.maxAmount ≤ a + b
  · by_cases h₂ : a + b ≤ Asset.maxAmount
    · exact .inr (by simp only [check, if_pos h₁, if_pos h₂]; rfl)
    · exact .inl ⟨⟨.asset, "addition overflow"⟩, by simp only [check, if_pos h₁, if_neg h₂]; rfl, rfl⟩
  · exact .inl ⟨⟨.asset, "addition underflow"⟩, by simp only [check, if_neg h₁]; rfl, rfl⟩

theorem addAmount_ok_iff {a b c : ℤ} :
    addAmount a b = .ok c ↔
      (-Asset.maxAmount ≤ a + b ∧ a + b ≤ Asset.maxAmount) ∧ a + b = c := by
  simp only [addAmount, Except.bind_ok_iff, Asset.checkSum_ok_iff, Except.pure_ok_iff,
    exists_const]

/-- A covered claim is paid without any check failing, and its product stays
far inside 128 bits. -/
theorem calcVoterRewards_eq {w d : ℤ} (hw : 0 < w) (hd : 0 < d)
    (hb : w * d ≤ Asset.maxAmount * highPrecision) :
    calcVoterRewards w d = .ok (Accrual.payout highPrecision (w * d)) := by
  have hpos : 0 ≤ w * d := (mul_pos hw hd).le
  have hlt : w * d < 2 ^ 127 := lt_of_le_of_lt hb (by decide)
  have hge : d ≤ w * d := le_mul_of_one_le_left hd.le hw
  have hdiv : (w * d).tdiv highPrecision = Accrual.payout highPrecision (w * d) :=
    Int.tdiv_eq_ediv_of_nonneg hpos
  have hnonneg : 0 ≤ Accrual.payout highPrecision (w * d) :=
    Accrual.payout_nonneg highPrecision_pos hpos
  have hle : Accrual.payout highPrecision (w * d) ≤ Asset.maxAmount :=
    Accrual.payout_le highPrecision_pos hb
  have hmax : Asset.maxAmount ≤ int64Max := by decide
  simp only [calcVoterRewards, toInt128_of_lt hpos hlt, hdiv, Except.bind_ok_iff, check_ok_iff,
    Except.pure_ok_iff, exists_const]
  refine ⟨⟨hw.le, hd.le⟩, hge, ⟨hnonneg, hle.trans hmax⟩, ⟨?_, hle⟩, trivial⟩
  exact le_trans (by decide) hnonneg

theorem payVoter_upToRange {p : Producer} {votesOld votesDelta last unclaimed : ℤ}
    (h : p.Covers votesOld votesDelta last) :
    UpToRange (payVoter p votesOld last unclaimed)
      ({ p with
        allocatingRewards := p.allocatingRewards - p.payout votesOld last
        allocatedRewards := p.allocatedRewards + p.payout votesOld last },
        unclaimed + p.payout votesOld last) := by
  unfold payVoter
  by_cases hd : 0 < p.rewardsPerVote - last ∧ 0 < votesOld
  · have howed : p.owed votesOld last ≤ Asset.maxAmount * highPrecision :=
      h.owed_le.trans (mul_le_mul_of_nonneg_right h.allocating_le highPrecision_pos.le)
    have hpay : p.payout votesOld last ≤ p.allocatingRewards :=
      Accrual.payout_le highPrecision_pos h.owed_le
    have htotal := h.total_eq
    rw [if_pos hd]
    refine .check h.votesOld_le (.bind (.inr (calcVoterRewards_eq hd.2 hd.1 howed)) ?_)
    refine .check hpay (.bind (addAmount_upToRange _ _) (.bind (addAmount_upToRange _ _) ?_))
    refine .check ?_ (.bind (addAmount_upToRange _ _) (.ok _))
    omega
  · rw [if_neg hd]
    have hzero : p.payout votesOld last = 0 := by
      have hlast := h.last_le
      have hvotes := h.votesOld_nonneg
      have : votesOld = 0 ∨ p.rewardsPerVote - last = 0 := by omega
      rcases this with h0 | h0 <;> simp [Producer.payout, Producer.owed, Accrual.owed, h0]
    simp only [hzero, sub_zero, add_zero]
    exact .ok _

theorem allocateOne_upToRange {votesOld votesDelta : ℤ} {st : Allocation} {e : VotedProducer}
    (h : (producerRow st.producers e.name).Covers votesOld votesDelta e.lastRewardsPerVote) :
    UpToRange (allocateOne votesOld votesDelta st e) (settleOne votesOld votesDelta st e) := by
  unfold allocateOne settleOne
  exact .check h.last_le (.bind (payVoter_upToRange h)
    (.bind (addAmount_upToRange _ _) (.check h.votes_nonneg (.ok _))))

-- ---------------------------------------------------------------------------
-- All producers of a map
-- ---------------------------------------------------------------------------

theorem producerRow_owner (producers : Table Producer.owner) (n : Name) :
    (producerRow producers n).owner = n := by
  unfold producerRow
  cases h : producers.find? n with
  | none => rfl
  | some p => exact Table.key_of_find? h

theorem producerRow_set (producers : Table Producer.owner) (p : Producer) (n : Name) :
    producerRow (producers.set p) n = if p.owner = n then p else producerRow producers n := by
  simp only [producerRow, Table.find?_set]
  split_ifs <;> rfl

theorem producerRow_of_mem {producers : Table Producer.owner} {p : Producer}
    (h : p ∈ producers.rows) : producerRow producers p.owner = p := by
  simp [producerRow, Table.find?_of_mem h]

/-- The state of a voter's map and of the producers after `allocate_producer_rewards`. -/
structure Settled (producers : Table Producer.owner) (m : VotedProducerMap)
    (votesOld votesDelta unclaimed : ℤ) (st : Allocation) : Prop where
  row : ∀ n, producerRow st.producers n = match m.find? n with
    | some e => (producerRow producers n).settle votesOld votesDelta e.lastRewardsPerVote
    | none => producerRow producers n
  voted : ∀ n, st.voted.find? n = (m.find? n).map fun e =>
    { e with lastRewardsPerVote := (producerRow producers n).rewardsPerVote }
  unclaimed : st.unclaimedRewards = unclaimed +
    m.sum fun e => (producerRow producers e.name).payout votesOld e.lastRewardsPerVote
  sum : ∀ (f : Producer → ℤ) (c : ℤ), (∀ n, f { owner := n } = 0) →
    (∀ p l, f (p.settle votesOld votesDelta l) = f p + c * p.payout votesOld l) →
    st.producers.sum f = producers.sum f +
      c * m.sum fun e => (producerRow producers e.name).payout votesOld e.lastRewardsPerVote

section Loop

variable {votesOld votesDelta : ℤ}

private theorem row_settleOne (st : Allocation) (e : VotedProducer) (n : Name) :
    producerRow (settleOne votesOld votesDelta st e).producers n =
      if e.name = n then
        (producerRow st.producers n).settle votesOld votesDelta e.lastRewardsPerVote
      else producerRow st.producers n := by
  simp only [settleOne, producerRow_set, Producer.settle_owner, producerRow_owner]
  split_ifs with h
  · rw [h]
  · rfl

private theorem foldlM_upToRange {l : List VotedProducer}
    (hl : l.Pairwise (fun a b => a.name < b.name)) {st : Allocation}
    (h : ∀ e ∈ l, (producerRow st.producers e.name).Covers votesOld votesDelta
      e.lastRewardsPerVote) :
    UpToRange (l.foldlM (allocateOne votesOld votesDelta) st)
      (l.foldl (settleOne votesOld votesDelta) st) := by
  induction l generalizing st with
  | nil => exact .ok _
  | cons e es ih =>
    obtain ⟨he, hes⟩ := List.pairwise_cons.mp hl
    refine .bind (allocateOne_upToRange (h e List.mem_cons_self)) (ih hes fun e' he' => ?_)
    rw [row_settleOne, if_neg (he e' he').ne]
    exact h e' (List.mem_cons_of_mem _ he')

private theorem foldl_settleOne (votesOld votesDelta : ℤ) {l : List VotedProducer}
    (hl : l.Pairwise (fun a b => a.name < b.name)) (st : Allocation) :
    let st' := l.foldl (settleOne votesOld votesDelta) st
    let paid := (l.map fun e =>
      (producerRow st.producers e.name).payout votesOld e.lastRewardsPerVote).sum
    (∀ n, producerRow st'.producers n = match l.find? (fun e => e.name = n) with
      | some e => (producerRow st.producers n).settle votesOld votesDelta e.lastRewardsPerVote
      | none => producerRow st.producers n) ∧
    (∀ n, st'.voted.find? n = match l.find? (fun e => e.name = n) with
      | some e => some { e with lastRewardsPerVote := (producerRow st.producers n).rewardsPerVote }
      | none => st.voted.find? n) ∧
    st'.unclaimedRewards = st.unclaimedRewards + paid ∧
    ∀ (f : Producer → ℤ) (c : ℤ), (∀ n, f { owner := n } = 0) →
      (∀ p l, f (p.settle votesOld votesDelta l) = f p + c * p.payout votesOld l) →
      st'.producers.sum f = st.producers.sum f + c * paid := by
  induction l generalizing st with
  | nil => simp
  | cons e es ih =>
    obtain ⟨he, hes⟩ := List.pairwise_cons.mp hl
    have hfresh : es.find? (fun x => x.name = e.name) = none :=
      List.find?_eq_none.mpr fun x hx => by simpa using (he x hx).ne'
    have hrest : ∀ x ∈ es, producerRow (settleOne votesOld votesDelta st e).producers x.name =
        producerRow st.producers x.name := fun x hx => by
      rw [row_settleOne, if_neg (he x hx).ne]
    obtain ⟨hrow, hvoted, hun, hsum⟩ := ih hes (settleOne votesOld votesDelta st e)
    have hpaid : (es.map fun x => (producerRow (settleOne votesOld votesDelta st e).producers
        x.name).payout votesOld x.lastRewardsPerVote).sum = (es.map fun x =>
          (producerRow st.producers x.name).payout votesOld x.lastRewardsPerVote).sum :=
      congrArg List.sum (List.map_congr_left fun x hx => by rw [hrest x hx])
    rw [hpaid] at hun hsum
    refine ⟨fun n => ?_, fun n => ?_, ?_, fun f c hf hc => ?_⟩
    · rw [List.foldl_cons, hrow n]
      by_cases hn : e.name = n
      · subst hn
        simp [hfresh, row_settleOne]
      · simp [hn, row_settleOne]
    · rw [List.foldl_cons, hvoted n]
      by_cases hn : e.name = n
      · subst hn
        simp [hfresh, settleOne]
      · have hkeep : (settleOne votesOld votesDelta st e).voted.find? n = st.voted.find? n :=
          Table.find?_set_ne _ hn
        simp [hn, row_settleOne, hkeep]
    · rw [List.foldl_cons, hun]
      simp [settleOne]
      ring
    · rw [List.foldl_cons, hsum f c hf hc]
      have hone : (settleOne votesOld votesDelta st e).producers.sum f = st.producers.sum f +
          c * (producerRow st.producers e.name).payout votesOld e.lastRewardsPerVote := by
        simp only [settleOne]
        rw [Table.sum_set_getD (d := { owner := e.name }) _ (hf e.name), hc]
        simp only [Producer.settle_owner, producerRow_owner]
        rw [show (st.producers.find? e.name).getD { owner := e.name } =
          producerRow st.producers e.name from rfl]
        ring
      rw [hone]
      simp
      ring

/-- A voter is settled with every producer of a map when each of them covers its part. -/
theorem allocateProducerRewards_upToRange {producers : Table Producer.owner} {m : VotedProducerMap}
    (unclaimed : ℤ)
    (h : ∀ n e, m.find? n = some e →
      (producerRow producers n).Covers votesOld votesDelta e.lastRewardsPerVote) :
    ∃ st, UpToRange (allocateProducerRewards producers m votesOld votesDelta unclaimed) st ∧
      Settled producers m votesOld votesDelta unclaimed st := by
  refine ⟨_, foldlM_upToRange m.sorted fun e he => h e.name e (Table.find?_of_mem he), ?_⟩
  obtain ⟨hrow, hvoted, hun, hsum⟩ := foldl_settleOne votesOld votesDelta m.sorted
    { producers, voted := m, unclaimedRewards := unclaimed }
  refine ⟨hrow, fun n => ?_, hun, hsum⟩
  rw [hvoted n]
  cases hf : m.find? n with
  | none => rw [show m.rows.find? (fun e => e.name = n) = none from hf]; rfl
  | some e => rw [show m.rows.find? (fun e => e.name = n) = some e from hf]; rfl

end Loop

end Amax.Reward
