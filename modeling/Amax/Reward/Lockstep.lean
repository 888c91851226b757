-- SUMMARY: An action of the reward contract succeeds in both of two states that agree on votes and rates, or in neither, and settles its voter alike.
import Amax.Reward.Withdrawal

/-! # Two states in lockstep

Two states of the reward contract agree when they differ in nothing but what
one voter has been paid so far. The checks of an action do not see this
difference: the balances of the producers cover their voters in both states,
and no amount leaves its range in one of them only. -/

namespace Amax.Reward

-- ---------------------------------------------------------------------------
-- Sound states
-- ---------------------------------------------------------------------------

/-- The ledger is kept, and the amounts are in range. -/
structure Sound (s : State) : Prop where
  ledger : Ledger s
  ranged : Ranged s

theorem sound_run (coreSymbol : Symbol) (txs : List Transaction) :
    Sound (State.final (.fresh coreSymbol) txs) :=
  ⟨(books_run coreSymbol txs).ledger, ranged_run coreSymbol txs⟩

/-- The books of a ledger can be opened at any time. -/
theorem Ledger.transact {s : State} (h : Ledger s) (tx : Transaction) :
    Ensures (transact tx s) fun out => Ledger out.1 := by
  intro out hok
  have hbooks : Books s [.received s.totalRewards, .paid 0 (s.voters.sum (·.claimedRewards))] :=
    ⟨h, by simp [received], by simp [paid]⟩
  exact (transact_books hbooks hok).ledger

theorem Sound.transact {s : State} (h : Sound s) (tx : Transaction) :
    Ensures (transact tx s) fun out => Sound out.1 :=
  fun out hok => ⟨h.ledger.transact tx out hok, h.ranged.transact tx out hok⟩

/-- What a voter has claimed and can claim is in the range of an asset. -/
theorem Sound.claimable_le {s : State} (h : Sound s) (name : Name) :
    (s.voter name).claimedRewards + (s.voter name).claimable s ≤ Asset.maxAmount := by
  rcases voter_mem_or s name with hv | hv
  · obtain ⟨st, -, hst⟩ := claim_allocation h.ledger (Table.find?_of_mem hv)
    exact Reward.claimable_le h.ledger h.ranged hv hst
  · rw [hv]
    exact show (0 : ℤ) + (0 + 0) ≤ Asset.maxAmount by decide

theorem Sound.unclaimed_nonneg {s : State} (h : Sound s) (name : Name) :
    0 ≤ (s.voter name).unclaimedRewards := by
  rcases voter_mem_or s name with hv | hv
  · exact h.ranged.unclaimed_nonneg _ hv
  · rw [hv]

/-- What a voter can claim is in the range of an asset. -/
theorem Sound.unclaimed_add_le {s : State} (h : Sound s) (name : Name) :
    (s.voter name).unclaimedRewards + (s.voter name).accrued s ≤ Asset.maxAmount := by
  have hle := h.claimable_le name
  have hclaimed := h.ranged.voter_claimed_nonneg name
  simp only [Voter.claimable] at hle
  omega

-- ---------------------------------------------------------------------------
-- When a voter can be settled
-- ---------------------------------------------------------------------------

/-- Nothing but the votes of a producer can stop the settlement of a voter with the producers of
a map. -/
structure Payable (producers : Table Producer.owner) (m : VotedProducerMap)
    (votesOld votesDelta unclaimed : ℤ) : Prop where
  covers : ∀ n e, m.find? n = some e →
    (producerRow producers n).Covers votesOld votesDelta e.lastRewardsPerVote
  ranged : Allocation.Ranged ⟨producers, m, unclaimed⟩
  allocated_nonneg : ∀ n, 0 ≤ (producerRow producers n).allocatedRewards
  total_le : ∀ n, (producerRow producers n).totalRewards ≤ Asset.maxAmount
  sum_le : unclaimed + m.sum (fun e =>
    (producerRow producers e.name).payout votesOld e.lastRewardsPerVote) ≤ Asset.maxAmount

namespace Payable

variable {producers : Table Producer.owner} {m m' : VotedProducerMap}
  {votesOld votesDelta unclaimed : ℤ} {st : Allocation}

theorem settled (h : Payable producers m votesOld votesDelta unclaimed) :
    Ensures (allocateProducerRewards producers m votesOld votesDelta unclaimed) fun st =>
      Settled producers m votesOld votesDelta unclaimed st ∧ st.Ranged := by
  intro st hok
  obtain ⟨st', hupto, hsettled⟩ := allocateProducerRewards_upToRange unclaimed h.covers
  obtain rfl := hupto.eq_of_ok hok
  exact ⟨hsettled, h.ranged.foldlM m.rows st hok⟩

/-- The settlement succeeds if and only if every producer has room for the votes. -/
theorem ok_iff (h : Payable producers m votesOld votesDelta unclaimed) :
    (∃ st, allocateProducerRewards producers m votesOld votesDelta unclaimed = .ok st) ↔
      ∀ n e, m.find? n = some e →
        (producerRow producers n).votes + votesDelta ≤ Asset.maxAmount := by
  constructor
  · intro ⟨st, hok⟩ n e he
    obtain ⟨hsettled, hranged⟩ := h.settled st hok
    have hle := hranged.votes_le n
    rwa [hsettled.row_of_some he] at hle
  · intro hroom
    obtain ⟨st, hok, -⟩ := allocateProducerRewards_yields h.covers
      (fun n e he => ⟨hroom n e he, h.allocated_nonneg n, h.total_le n⟩)
      h.ranged.unclaimed_nonneg h.sum_le
    exact ⟨st, hok⟩

/-- Two settlements with the same producers at the same votes succeed together. -/
theorem together {producers' : Table Producer.owner} {votesOld' votesDelta' unclaimed' : ℤ}
    (h : Payable producers m votesOld votesDelta unclaimed)
    (h' : Payable producers' m' votesOld' votesDelta' unclaimed')
    (hkeys : ∀ n, (m'.find? n).isSome = (m.find? n).isSome) (hdelta : votesDelta' = votesDelta)
    (hvotes : ∀ n, (producerRow producers' n).votes = (producerRow producers n).votes) :
    Together (allocateProducerRewards producers m votesOld votesDelta unclaimed)
      (allocateProducerRewards producers' m' votesOld' votesDelta' unclaimed')
      fun st st' => Settled producers m votesOld votesDelta unclaimed st ∧
        Settled producers' m' votesOld' votesDelta' unclaimed' st' := by
  subst hdelta
  refine .of_iff ?_ fun st st' hok hok' => ⟨(h.settled st hok).1, (h'.settled st' hok').1⟩
  rw [h.ok_iff, h'.ok_iff]
  constructor
  · intro hroom n e' he'
    obtain ⟨e, he⟩ := Option.isSome_iff_exists.mp ((hkeys n).symm.trans (by rw [he']; rfl))
    rw [hvotes n]
    exact hroom n e he
  · intro hroom n e he
    obtain ⟨e', he'⟩ := Option.isSome_iff_exists.mp ((hkeys n).trans (by rw [he]; rfl))
    rw [← hvotes n]
    exact hroom n e' he'

/-- A settlement leaves its voter ready for the next one. -/
theorem next (h : Payable producers m votesOld votesDelta unclaimed)
    (hok : allocateProducerRewards producers m votesOld votesDelta unclaimed = .ok st)
    {votesOld' votesDelta' : ℤ}
    (hcovers : ∀ n e, m'.find? n = some e →
      (producerRow st.producers n).Covers votesOld' votesDelta' e.lastRewardsPerVote)
    (hsum : st.unclaimedRewards + m'.sum (fun e =>
      (producerRow st.producers e.name).payout votesOld' e.lastRewardsPerVote) ≤
        Asset.maxAmount) :
    Payable st.producers m' votesOld' votesDelta' st.unclaimedRewards := by
  obtain ⟨hsettled, hranged⟩ := h.settled st hok
  refine ⟨hcovers, ⟨hranged.votes_le, hranged.unclaimed_nonneg⟩, fun n => ?_, fun n => ?_, hsum⟩
  · cases he : m.find? n with
    | none =>
      rw [hsettled.row_of_none he]
      exact h.allocated_nonneg n
    | some e =>
      rw [hsettled.row_of_some he]
      exact add_nonneg (h.allocated_nonneg n) (h.covers n e he).payout_nonneg
  · cases he : m.find? n with
    | none =>
      rw [hsettled.row_of_none he]
      exact h.total_le n
    | some e =>
      rw [hsettled.row_of_some he]
      exact h.total_le n

end Payable

/-- After two settlements with the same producers the votes still agree. -/
theorem Settled.votes_eq {producers producers' : Table Producer.owner} {m m' : VotedProducerMap}
    {votesOld votesOld' votesDelta votesDelta' unclaimed unclaimed' : ℤ} {st st' : Allocation}
    (h : Settled producers m votesOld votesDelta unclaimed st)
    (h' : Settled producers' m' votesOld' votesDelta' unclaimed' st')
    (hkeys : ∀ n, (m'.find? n).isSome = (m.find? n).isSome) (hdelta : votesDelta' = votesDelta)
    (hvotes : ∀ n, (producerRow producers' n).votes = (producerRow producers n).votes) (n : Name) :
    (producerRow st'.producers n).votes = (producerRow st.producers n).votes := by
  have hkey := hkeys n
  cases he : m.find? n with
  | none =>
    have he' : m'.find? n = none := by simpa [he] using hkey
    rw [h.row_of_none he, h'.row_of_none he', hvotes n]
  | some e =>
    obtain ⟨e', he'⟩ := Option.isSome_iff_exists.mp (hkey.trans (by rw [he]; rfl))
    rw [h.row_of_some he, h'.row_of_some he']
    simp only [Producer.settle, hvotes n, hdelta]

section Sound

variable {s : State}

theorem Sound.ranged_of (h : Sound s) (name : Name) (m : VotedProducerMap) :
    Allocation.Ranged ⟨s.producers, m, (s.voter name).unclaimedRewards⟩ :=
  ⟨h.ranged.votes_le, h.unclaimed_nonneg name⟩

/-- A voter can be settled with all of its producers. -/
theorem Sound.payable (h : Sound s) (name : Name) {votesDelta : ℤ}
    (hd : 0 ≤ (s.voter name).votes + votesDelta) :
    Payable s.producers (s.voter name).producers (s.voter name).votes votesDelta
      (s.voter name).unclaimedRewards where
  covers _ _ he := h.ledger.covers he hd
  ranged := h.ranged_of name _
  allocated_nonneg := h.ledger.allocated_nonneg
  total_le := h.ledger.total_le
  sum_le := h.unclaimed_add_le name

/-- What a voter has accrued with the producers it keeps and with those it leaves. -/
theorem accrued_split (v : Voter) {new : List Name} (hnew : new.Pairwise (· < ·)) :
    v.accrued s =
      ((voteGroups v.producers new).kept.sum fun e =>
        (s.producer e.name).payout v.votes e.lastRewardsPerVote) +
      (voteGroups v.producers new).removed.sum fun e =>
        (s.producer e.name).payout v.votes e.lastRewardsPerVote :=
  Table.sum_split (p := (· ∈ new)) (voteGroups_kept v.producers hnew)
    (voteGroups_removed v.producers hnew) _

section Groups

variable {name : Name} {new : List Name} {st₁ st₂ st₃ : Allocation} (h : Sound s)
  (hnew : new.Pairwise (· < ·))

include h hnew

theorem Sound.removed_payable :
    Payable s.producers (voteGroups (s.voter name).producers new).removed (s.voter name).votes
      (-(s.voter name).votes) (s.voter name).unclaimedRewards where
  covers _ _ he := removed_covers h.ledger hnew he
  ranged := h.ranged_of name _
  allocated_nonneg := h.ledger.allocated_nonneg
  total_le := h.ledger.total_le
  sum_le := by
    have hle := h.unclaimed_add_le name
    rw [accrued_split _ hnew] at hle
    have hkept : 0 ≤ (voteGroups (s.voter name).producers new).kept.sum fun e =>
        (s.producer e.name).payout (s.voter name).votes e.lastRewardsPerVote :=
      Table.sum_nonneg fun e he =>
        (kept_covers h.ledger hnew (Table.find?_of_mem he)).payout_nonneg
    refine le_trans ?_ hle
    simp only [State.producer] at hkept ⊢
    omega

omit h in
private theorem kept_sum (hst₁ : Settled s.producers
      (voteGroups (s.voter name).producers new).removed (s.voter name).votes (-(s.voter name).votes)
      (s.voter name).unclaimedRewards st₁) :
    st₁.unclaimedRewards + ((voteGroups (s.voter name).producers new).kept.sum fun e =>
      (producerRow st₁.producers e.name).payout (s.voter name).votes e.lastRewardsPerVote) =
      (s.voter name).claimable s := by
  rw [hst₁.unclaimed, Voter.claimable, accrued_split _ hnew]
  have hrow : ∀ e ∈ (voteGroups (s.voter name).producers new).kept.rows,
      (producerRow st₁.producers e.name).payout (s.voter name).votes e.lastRewardsPerVote =
        (s.producer e.name).payout (s.voter name).votes e.lastRewardsPerVote := fun e he => by
    rw [kept_row hnew hst₁ (Table.find?_of_mem he)]
  rw [Table.sum_congr hrow]
  ring

theorem Sound.kept_payable (hok₁ : allocateProducerRewards s.producers
      (voteGroups (s.voter name).producers new).removed (s.voter name).votes (-(s.voter name).votes)
      (s.voter name).unclaimedRewards = .ok st₁) :
    Payable st₁.producers (voteGroups (s.voter name).producers new).kept (s.voter name).votes 0
      st₁.unclaimedRewards := by
  obtain ⟨hst₁, -⟩ := (h.removed_payable hnew).settled st₁ hok₁
  refine (h.removed_payable hnew).next hok₁ (fun n e he => ?_) ?_
  · rw [kept_row hnew hst₁ he]
    exact kept_covers h.ledger hnew he
  · rw [kept_sum hnew hst₁]
    exact h.unclaimed_add_le name

theorem Sound.added_payable (hok₁ : allocateProducerRewards s.producers
      (voteGroups (s.voter name).producers new).removed (s.voter name).votes (-(s.voter name).votes)
      (s.voter name).unclaimedRewards = .ok st₁)
    (hok₂ : allocateProducerRewards st₁.producers (voteGroups (s.voter name).producers new).kept
      (s.voter name).votes 0 st₁.unclaimedRewards = .ok st₂) :
    Payable st₂.producers (voteGroups (s.voter name).producers new).added 0 (s.voter name).votes
      st₂.unclaimedRewards := by
  obtain ⟨hst₁, -⟩ := (h.removed_payable hnew).settled st₁ hok₁
  obtain ⟨hst₂, -⟩ := (h.kept_payable hnew hok₁).settled st₂ hok₂
  refine (h.kept_payable hnew hok₁).next hok₂ (fun n e he => ?_) ?_
  · rw [added_row hnew hst₁ hst₂ he]
    exact added_covers h.ledger hnew he
  · rw [Table.sum_eq_zero fun e _ => by simp [Producer.payout, Producer.owed], add_zero,
      hst₂.unclaimed, kept_sum hnew hst₁]
    exact h.unclaimed_add_le name

omit h in
/-- The three calls of `voteproducer` pay a voter what it has accrued. -/
private theorem unclaimed_voteproducer (hst₁ : Settled s.producers
      (voteGroups (s.voter name).producers new).removed (s.voter name).votes (-(s.voter name).votes)
      (s.voter name).unclaimedRewards st₁)
    (hst₂ : Settled st₁.producers (voteGroups (s.voter name).producers new).kept
      (s.voter name).votes 0 st₁.unclaimedRewards st₂)
    (hst₃ : Settled st₂.producers (voteGroups (s.voter name).producers new).added 0
      (s.voter name).votes st₂.unclaimedRewards st₃) :
    st₃.unclaimedRewards = (s.voter name).claimable s := by
  rw [hst₃.unclaimed, Table.sum_eq_zero fun e _ => by simp [Producer.payout, Producer.owed],
    add_zero, hst₂.unclaimed, kept_sum hnew hst₁]

end Groups

end Sound

-- ---------------------------------------------------------------------------
-- Settlements of one voter
-- ---------------------------------------------------------------------------

/-- The voter `name` was settled and became `v'`: its votes changed by `votesDelta`, its producers
are `names`, and its rewards were paid out if `paidOut`. -/
structure Settlement (s : State) (name : Name) (votesDelta : ℤ) (names : List Name)
    (paidOut : Bool) (v' : Voter) (s' : State) : Prop where
  step : VoterStep s (s.voter name) v' s'.producers
  state : s' = { s with producers := s'.producers, voters := s.voters.set v' }
  votes : v'.votes = (s.voter name).votes + votesDelta
  names : v'.names = names
  unclaimed : v'.unclaimedRewards = if paidOut then 0 else (s.voter name).claimable s
  claimed : v'.claimedRewards = (s.voter name).claimedRewards +
    if paidOut then (s.voter name).claimable s else 0

namespace Settlement

variable {s s' : State} {name n : Name} {votesDelta : ℤ} {names : List Name} {paidOut : Bool}
  {v' : Voter}

theorem owner (h : Settlement s name votesDelta names paidOut v' s') : v'.owner = name :=
  h.step.owner.trans (voter_owner s name)

/-- A settled voter has recorded the rates of its producers. -/
theorem entry (h : Settlement s name votesDelta names paidOut v' s') (n : Name) :
    v'.producers.find? n =
      if n ∈ names then some ⟨n, (s.producer n).rewardsPerVote⟩ else none := by
  rw [← h.names]
  cases he : v'.producers.find? n with
  | none => rw [if_neg fun hn => by simpa [he] using Voter.mem_names.mp hn]
  | some e =>
    rw [if_pos (Voter.mem_names.mpr (by rw [he]; rfl)), ← h.step.last n e he,
      ← Table.key_of_find? he]

theorem voter (h : Settlement s name votesDelta names paidOut v' s') (n : Name) :
    s'.voter n = if name = n then v' else s.voter n := by
  rw [h.state, State.voter, Table.find?_set, h.owner]
  split_ifs <;> rfl

/-- Everything a voter had accrued is in its record. -/
theorem earned (h : Settlement s name votesDelta names paidOut v' s') :
    v'.earned = (s.voter name).earned + (s.voter name).accrued s := by
  simp only [Voter.earned, h.unclaimed, h.claimed, Voter.claimable]
  cases paidOut with
  | true =>
    simp only [if_true]
    ring
  | false =>
    simp only [Bool.false_eq_true, if_false]
    ring

end Settlement

/-- A call of `allocate_producer_rewards` with all producers of the voter settles it. -/
theorem Settled.settlement {s : State} {name : Name} {votesDelta : ℤ} {st : Allocation} {v' : Voter}
    {paidOut : Bool}
    (h : Settled s.producers (s.voter name).producers (s.voter name).votes votesDelta
      (s.voter name).unclaimedRewards st)
    {names : List Name} (hnames : (s.voter name).names = names)
    (howner : v'.owner = (s.voter name).owner)
    (hvotes : v'.votes = (s.voter name).votes + votesDelta) (hn : 0 ≤ v'.votes)
    (hp : v'.producers = st.voted)
    (hunclaimed : v'.unclaimedRewards = if paidOut then 0 else st.unclaimedRewards)
    (hclaimed : v'.claimedRewards = (s.voter name).claimedRewards +
      if paidOut then st.unclaimedRewards else 0) :
    Settlement s name votesDelta names paidOut v'
      { s with producers := st.producers, voters := s.voters.set v' } where
  step := by
    refine h.voterStep howner hvotes hn hp ?_
    simp only [Voter.earned, hunclaimed, hclaimed]
    cases paidOut with
    | true =>
      simp only [if_true]
      ring
    | false =>
      simp only [Bool.false_eq_true, if_false]
      ring
  state := rfl
  votes := hvotes
  names := by
    rw [← hnames, Voter.names, hp]
    exact names_voted h
  unclaimed := by rw [hunclaimed, h.unclaimed_eq]
  claimed := by rw [hclaimed, h.unclaimed_eq]

/-- The three calls of `voteproducer` settle the voter. -/
theorem Sound.voteproducer_settlement {s : State} (h : Sound s) {name : Name} {new : List Name}
    {st₁ st₂ st₃ : Allocation} (hnew : new.Pairwise (· < ·)) (hst₁ : Settled s.producers
      (voteGroups (s.voter name).producers new).removed (s.voter name).votes (-(s.voter name).votes)
      (s.voter name).unclaimedRewards st₁)
    (hst₂ : Settled st₁.producers (voteGroups (s.voter name).producers new).kept
      (s.voter name).votes 0 st₁.unclaimedRewards st₂)
    (hst₃ : Settled st₂.producers (voteGroups (s.voter name).producers new).added 0
      (s.voter name).votes st₂.unclaimedRewards st₃) {v' : Voter}
    (hv' : v' = { s.voter name with
      producers := st₃.voted.rows.foldl emplaceVoted st₂.voted
      unclaimedRewards := st₃.unclaimedRewards }) :
    Settlement s name 0 new false v'
      { s with producers := st₃.producers, voters := s.voters.set v' } where
  step := by
    rw [hv']
    exact voteproducer_voterStep hnew hst₁ hst₂ hst₃ (h.ledger.voter_votes_nonneg name)
  state := rfl
  votes := by rw [hv', add_zero]
  names := by
    rw [hv']
    refine Table.keys_eq hnew fun n => ?_
    rw [(voteproducer_row hnew hst₁ hst₂ hst₃ n).1, decide_eq_true_iff]
  unclaimed := by
    rw [hv']
    exact unclaimed_voteproducer hnew hst₁ hst₂ hst₃
  claimed := by
    rw [hv']
    exact (add_zero _).symm

-- ---------------------------------------------------------------------------
-- Checks of a transfer
-- ---------------------------------------------------------------------------

/-- A registered producer has a row. -/
private theorem find?_of_registered {producers : Table Producer.owner} {n : Name}
    (h : (producerRow producers n).isRegistered = true) :
    producers.find? n = some (producerRow producers n) := by
  unfold producerRow at h ⊢
  cases hp : producers.find? n with
  | none => simp [hp] at h
  | some p => rfl

/-- A deposit that its producer has room for leaves its balance in range. -/
private theorem allocating_yields {u : State} (hu : Sound u) {n : Name} {q : ℤ} (hq : 0 ≤ q)
    (hmax : (u.producer n).totalRewards + q ≤ Asset.maxAmount) :
    Yields (addAmount (u.producer n).allocatingRewards q)
      (· = (u.producer n).allocatingRewards + q) := by
  have htotal := hu.ledger.total_eq n
  have hallocated := hu.ledger.allocated_nonneg n
  have hallocating := hu.ledger.allocating_nonneg n
  have hpos : 0 ≤ Asset.maxAmount := by decide
  exact ⟨_, addAmount_ok_iff.mpr ⟨⟨by omega, by omega⟩, rfl⟩, rfl⟩

/-- A transfer of a negative quantity into the contract fails. -/
private theorem ontransfer_negative {env : Env} {u : State} (hu : Sound u) {sender receiver : Name}
    {quantity : Asset} (hq : ¬0 ≤ quantity.amount)
    (hin : Credited env u sender receiver quantity) :
    ∃ e, ontransfer env u sender receiver quantity = .error e := by
  cases hr : ontransfer env u sender receiver quantity with
  | error e => exact ⟨e, rfl⟩
  | ok out =>
    rcases ontransfer_ok hu.ledger hr with ⟨hout, -⟩ | ⟨-, h₀, -⟩
    · exact absurd hin hout
    · exact absurd h₀ hq

-- ---------------------------------------------------------------------------
-- States that differ in what one voter was paid
-- ---------------------------------------------------------------------------

/-- `s` and `t` agree on all but the rewards of `v` and the balances these were paid from. -/
structure Alike (v : Name) (s t : State) : Prop where
  coreSymbol : t.coreSymbol = s.coreSymbol
  totalRewards : t.totalRewards = s.totalRewards
  registered : ∀ n, (t.producer n).isRegistered = (s.producer n).isRegistered
  total : ∀ n, (t.producer n).totalRewards = (s.producer n).totalRewards
  votes : ∀ n, (t.producer n).votes = (s.producer n).votes
  rate : ∀ n, (t.producer n).rewardsPerVote = (s.producer n).rewardsPerVote
  others : ∀ n, n ≠ v → t.voters.find? n = s.voters.find? n
  voterVotes : (t.voter v).votes = (s.voter v).votes
  voterNames : (t.voter v).names = (s.voter v).names

/-- The voter `name` was settled in both states, with the same votes and producers. -/
def BothSettle (s t : State) (name : Name) (s' t' : State) : Prop :=
  ∃ votesDelta names paidOut x y, Settlement s name votesDelta names paidOut x s' ∧
    Settlement t name votesDelta names paidOut y t'

theorem BothSettle.intro {s s' t t' : State} {name : Name} {votesDelta : ℤ} {names : List Name}
    {x y : Voter} (paidOut : Bool) (hx : Settlement s name votesDelta names paidOut x s')
    (hy : Settlement t name votesDelta names paidOut y t') : BothSettle s t name s' t' :=
  ⟨votesDelta, names, paidOut, x, y, hx, hy⟩

namespace Alike

variable {v name : Name} {s t : State}

theorem refl (v : Name) (s : State) : Alike v s s :=
  ⟨rfl, rfl, fun _ => rfl, fun _ => rfl, fun _ => rfl, fun _ => rfl, fun _ _ => rfl, rfl, rfl⟩

theorem voter_ne (h : Alike v s t) (hn : name ≠ v) : t.voter name = s.voter name := by
  rw [State.voter, State.voter, h.others name hn]

theorem votes_eq (h : Alike v s t) (name : Name) :
    (t.voter name).votes = (s.voter name).votes := by
  rcases eq_or_ne name v with rfl | hn
  · exact h.voterVotes
  · rw [h.voter_ne hn]

theorem names_eq (h : Alike v s t) (name : Name) :
    (t.voter name).names = (s.voter name).names := by
  rcases eq_or_ne name v with rfl | hn
  · exact h.voterNames
  · rw [h.voter_ne hn]

theorem keys_eq (h : Alike v s t) (name n : Name) :
    ((t.voter name).producers.find? n).isSome = ((s.voter name).producers.find? n).isSome := by
  rw [Bool.eq_iff_iff, ← Voter.mem_names, ← Voter.mem_names, h.names_eq name]

/-- A row of a producer is set in both states. -/
theorem setProducer (ha : Alike v s t) {p q : Producer} (totalRewards : ℤ) (howner : q.owner = p.owner)
    (hregistered : q.isRegistered = p.isRegistered) (htotal : q.totalRewards = p.totalRewards)
    (hvotes : q.votes = p.votes) (hrate : q.rewardsPerVote = p.rewardsPerVote) :
    Alike v { s with totalRewards, producers := s.producers.set p }
      { t with totalRewards, producers := t.producers.set q } := by
  have hrow : ∀ {α : Type} (f : Producer → α), f q = f p →
      (∀ n, f (t.producer n) = f (s.producer n)) → ∀ n,
      f (producerRow (t.producers.set q) n) = f (producerRow (s.producers.set p) n) := by
    intro α f hf hall n
    rw [producerRow_set, producerRow_set, howner]
    split_ifs
    · exact hf
    · exact hall n
  exact ⟨ha.coreSymbol, rfl, hrow _ hregistered ha.registered, hrow _ htotal ha.total,
    hrow _ hvotes ha.votes, hrow _ hrate ha.rate, ha.others, ha.voterVotes, ha.voterNames⟩

variable {env : Env} (ha : Alike v s t) (hs : Sound s) (ht : Sound t)

include ha hs ht

theorem changeVote (name : Name) (votes : Asset) (isAdding : Bool) :
    Together (changeVote env s name votes isAdding) (changeVote env t name votes isAdding)
      fun out out' => BothSettle s t name out.1 out'.1 := by
  have hvotes := ha.votes_eq name
  unfold Reward.changeVote
  refine (Together.refl _).bind fun _ _ _ _ _ => (Together.refl _).bind fun _ _ _ _ _ =>
    .check Iff.rfl fun _ _ => .check Iff.rfl fun hpos _ => (Together.refl _).bind fun _ _ _ _ _ =>
    .check (by rw [hvotes]) fun hsub hsub' => ?_
  have hd := changeVote_delta (hs.ledger.voter_votes_nonneg name) hpos hsub
  have hd' := changeVote_delta (ht.ledger.voter_votes_nonneg name) hpos hsub'
  refine ((hs.payable name hd).together (ht.payable name hd') (ha.keys_eq name) rfl
    ha.votes).bind fun st st' _ _ hst => ?_
  rw [hvotes]
  refine (Together.refl _).bind fun sum _ hsum _ heq => ?_
  subst heq
  obtain ⟨-, rfl⟩ := addAmount_ok_iff.mp hsum
  exact .check Iff.rfl fun hn _ => .ok (.intro false
    (hst.1.settlement rfl rfl rfl hn rfl rfl (add_zero _).symm)
    (hst.2.settlement (ha.names_eq name) rfl (by rw [hvotes]) hn rfl rfl (add_zero _).symm))

theorem voteproducer (name : Name) (producers : List Name) :
    Together (voteproducer env s name producers) (voteproducer env t name producers)
      fun out out' => BothSettle s t name out.1 out'.1 := by
  unfold Reward.voteproducer
  refine (Together.refl _).bind fun _ _ _ _ _ => (Together.refl _).bind fun _ _ _ _ _ =>
    .check Iff.rfl fun hsorted _ => (Together.refl _).bind fun _ _ _ _ _ => ?_
  have hnew := hsorted.pairwise
  have hkeys := ha.keys_eq name
  have hvotes := ha.votes_eq name
  dsimp only
  have hremoved : ∀ n, ((voteGroups (t.voter name).producers producers).removed.find? n).isSome =
      ((voteGroups (s.voter name).producers producers).removed.find? n).isSome := fun n => by
    rw [voteGroups_removed _ hnew, voteGroups_removed _ hnew]
    split_ifs
    · rfl
    · exact hkeys n
  have hkept : ∀ n, ((voteGroups (t.voter name).producers producers).kept.find? n).isSome =
      ((voteGroups (s.voter name).producers producers).kept.find? n).isSome := fun n => by
    rw [voteGroups_kept _ hnew, voteGroups_kept _ hnew]
    split_ifs
    · exact hkeys n
    · rfl
  have hadded : ∀ n, ((voteGroups (t.voter name).producers producers).added.find? n).isSome =
      ((voteGroups (s.voter name).producers producers).added.find? n).isSome := fun n => by
    rw [voteGroups_added _ hnew, voteGroups_added _ hnew]
    simp only [← Option.not_isSome_iff_eq_none, hkeys n]
  refine ((hs.removed_payable hnew).together (ht.removed_payable hnew) hremoved (by rw [hvotes])
    ha.votes).bind fun st₁ st₁' hok₁ hok₁' hst₁ => ?_
  have hvotes₁ := hst₁.1.votes_eq hst₁.2 hremoved (by rw [hvotes]) ha.votes
  refine ((hs.kept_payable hnew hok₁).together (ht.kept_payable hnew hok₁') hkept rfl
    hvotes₁).bind fun st₂ st₂' hok₂ hok₂' hst₂ => ?_
  have hvotes₂ := hst₂.1.votes_eq hst₂.2 hkept rfl hvotes₁
  refine ((hs.added_payable hnew hok₁ hok₂).together (ht.added_payable hnew hok₁' hok₂') hadded
    hvotes hvotes₂).bind fun st₃ st₃' _ _ hst₃ => ?_
  exact .ok (.intro false (hs.voteproducer_settlement hnew hst₁.1 hst₂.1 hst₃.1 rfl)
    (ht.voteproducer_settlement hnew hst₁.2 hst₂.2 hst₃.2 rfl))

theorem claim (hn : name ≠ v) :
    Together (claim env s name) (claim env t name)
      fun out out' => BothSettle s t name out.1 out'.1 := by
  unfold Reward.claim
  rw [ha.others name hn]
  cases hv : s.voters.find? name with
  | none => exact .error _ _
  | some w =>
    obtain rfl : s.voter name = w := by simp [State.voter, hv]
    have hrow := ha.voter_ne hn
    have hd : 0 ≤ (s.voter name).votes + 0 := by
      rw [add_zero]
      exact hs.ledger.voter_votes_nonneg name
    have hpay : Payable t.producers (t.voter name).producers (t.voter name).votes 0
        (t.voter name).unclaimedRewards := ht.payable name (by rw [hrow]; exact hd)
    rw [hrow] at hpay
    refine .check Iff.rfl fun hpos _ => ((hs.payable name hd).together hpay (fun _ => rfl) rfl
      ha.votes).bind fun st st' _ _ hst => ?_
    have hunclaimed : st'.unclaimedRewards = st.unclaimedRewards := by
      rw [hst.1.unclaimed, hst.2.unclaimed]
      simp only [Producer.payout, Producer.owed, ha.rate]
    rw [hunclaimed]
    refine .check Iff.rfl fun _ _ => .check Iff.rfl fun _ _ =>
      (Together.refl _).bind fun claimed _ hclaimed _ heq => ?_
    subst heq
    obtain ⟨-, rfl⟩ := addAmount_ok_iff.mp hclaimed
    have hst' := hst.2
    rw [← hrow] at hst'
    exact .ok (.intro true (hst.1.settlement rfl rfl (add_zero _).symm hpos.le rfl rfl rfl)
      (hst'.settlement (ha.names_eq name) (by rw [hrow]) (by rw [hrow, add_zero]) hpos.le rfl rfl
        (by rw [hrow, hunclaimed]; rfl)))

omit hs ht in
theorem regproducer (producer : Name) :
    Together (regproducer env s producer) (regproducer env t producer) fun out out' =>
      Alike v out.1 out'.1 ∧ out.1.voters = s.voters ∧ out'.1.voters = t.voters := by
  unfold Reward.regproducer
  refine (Together.refl _).bind fun _ _ _ _ _ => .check Iff.rfl fun _ _ =>
    (Together.refl _).bind fun _ _ _ _ _ => .ok ⟨?_, rfl, rfl⟩
  rw [← ha.totalRewards]
  exact ha.setProducer t.totalRewards (by rw [producerRow_owner, producerRow_owner]) rfl
    (ha.total producer) (ha.votes producer) (ha.rate producer)

theorem ontransfer (sender receiver : Name) (quantity : Asset) :
    Together (ontransfer env s sender receiver quantity) (ontransfer env t sender receiver quantity)
      fun out out' =>
        Alike v out.1 out'.1 ∧ out.1.voters = s.voters ∧ out'.1.voters = t.voters := by
  have hcredited : Credited env s sender receiver quantity ↔
      Credited env t sender receiver quantity := by rw [Credited, Credited, ha.coreSymbol]
  by_cases hneg : ¬0 ≤ quantity.amount ∧ Credited env s sender receiver quantity
  · obtain ⟨e, he⟩ := ontransfer_negative hs hneg.1 hneg.2
    obtain ⟨e', he'⟩ := ontransfer_negative ht hneg.1 (hcredited.mp hneg.2)
    exact .inl ⟨e, e', he, he'⟩
  unfold Reward.ontransfer
  refine .ite hcredited (fun hin _ => ?_) fun _ _ => .ok ⟨ha, rfl, rfl⟩
  have hq : 0 ≤ quantity.amount := by
    by_contra hq
    exact hneg ⟨hq, hin⟩
  rw [ha.totalRewards]
  refine (Together.refl _).bind fun total _ _ _ heq => ?_
  subst heq
  have hregistered := ha.registered sender
  by_cases hreg : (s.producer sender).isRegistered = true
  · rw [find?_of_registered hreg, find?_of_registered (hregistered.trans hreg)]
    refine .check (by rw [hregistered]) fun _ _ => ?_
    rw [ha.total]
    refine (Together.refl _).bind fun sum _ hsum _ heq => ?_
    subst heq
    obtain ⟨⟨-, hmax⟩, -⟩ := addAmount_ok_iff.mp hsum
    refine (Together.of_yields (allocating_yields hs hq hmax)
      (allocating_yields ht hq (by rw [ha.total]; exact hmax))).bind fun _ _ _ _ _ => ?_
    rw [ha.rate, ha.votes]
    refine (Together.refl _).bind fun rate _ _ _ heq => ?_
    subst heq
    exact .ok ⟨ha.setProducer total (by rw [producerRow_owner, producerRow_owner]) hregistered rfl
      rfl rfl, rfl, rfl⟩
  · have hreg' := hreg
    rw [← hregistered] at hreg'
    unfold State.producer producerRow at hreg hreg'
    cases hp : s.producers.find? sender with
    | none =>
      cases hp' : t.producers.find? sender with
      | none => exact .error _ _
      | some p' =>
        rw [hp', Option.getD_some] at hreg'
        exact .inl ⟨_, _, rfl, check_bind_of_not hreg'⟩
    | some p =>
      rw [hp, Option.getD_some] at hreg
      cases hp' : t.producers.find? sender with
      | none => exact .inl ⟨_, _, check_bind_of_not hreg, rfl⟩
      | some p' =>
        rw [hp', Option.getD_some] at hreg'
        exact .inl ⟨_, _, check_bind_of_not hreg, check_bind_of_not hreg'⟩

end Alike

/-- A claim of the rewards of `voter`. -/
def Action.claims (voter : Name) : Action → Bool
  | .claimrewards n => n = voter
  | .claimfor _ n => n = voter
  | _ => false

/-- The two states after one action: the same voter was settled, or no voter was touched. -/
def Follows (v : Name) (s t s' t' : State) : Prop :=
  (∃ name, BothSettle s t name s' t') ∨ Alike v s' t' ∧ s'.voters = s.voters ∧ t'.voters = t.voters

/-- An action that is no claim of `v` succeeds in both states or in neither. -/
theorem Alike.transact {v : Name} {s t : State} (ha : Alike v s t) (hs : Sound s) (ht : Sound t)
    {tx : Transaction} (htx : ¬tx.action.claims v) :
    Together (transact tx s) (transact tx t) fun out out' => Follows v s t out.1 out'.1 := by
  unfold Reward.transact
  refine .check (by rw [ha.coreSymbol]) fun _ _ => ?_
  cases hact : tx.action with
  | regproducer p => exact (ha.regproducer p).mono fun _ _ h => .inr h
  | addvote voter votes => exact (ha.changeVote hs ht voter votes true).mono fun _ _ h => .inl ⟨_, h⟩
  | subvote voter votes =>
    exact (ha.changeVote hs ht voter votes false).mono fun _ _ h => .inl ⟨_, h⟩
  | voteproducer voter producers =>
    exact (ha.voteproducer hs ht voter producers).mono fun _ _ h => .inl ⟨_, h⟩
  | claimrewards voter =>
    have hn : voter ≠ v := fun h => htx (by simp [hact, Action.claims, h])
    exact (Together.refl _).bind fun _ _ _ _ _ => (ha.claim hs ht hn).mono fun _ _ h => .inl ⟨_, h⟩
  | claimfor submitter voter =>
    have hn : voter ≠ v := fun h => htx (by simp [hact, Action.claims, h])
    exact (Together.refl _).bind fun _ _ _ _ _ => (ha.claim hs ht hn).mono fun _ _ h => .inl ⟨_, h⟩
  | ontransfer sender receiver quantity =>
    exact (ha.ontransfer hs ht sender receiver quantity).mono fun _ _ h => .inr h

end Amax.Reward
