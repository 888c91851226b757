-- SUMMARY: How often a voter claims changes nothing for the others, and costs the voter at most one unit for each claim and producer.
import Amax.Reward.Lockstep

/-! # How often a voter claims

A claim settles the voter earlier than it would have been, and every settlement
rounds down what each producer pays. Two runs that differ in the claims of one
voter agree on everything the shares of the others are computed from, and the
voter itself has been paid the same, but for the rounding. -/

namespace Amax.Reward

-- ---------------------------------------------------------------------------
-- Paid in parts
-- ---------------------------------------------------------------------------

/-- The rate at which `v` was last settled with the producer `n`. -/
def Voter.lastOn (v : Voter) (n : Name) : ℤ :=
  ((v.producers.find? n).map VotedProducer.lastRewardsPerVote).getD 0

/-- What a voter has claimed, has unclaimed, and has accrued with each of its producers. -/
def Voter.rewards (v : Voter) (s : State) : ℤ :=
  v.claimedRewards + v.unclaimedRewards + v.accrued s

/-- `x` and `y` are one voter with the same votes and producers. Since both were last settled at
the same rates, `y` was paid in `parts` parts what each producer `n` owes it, `paid n` in all, and
`x` was not paid; before that, `lost` units less were credited to `y`. -/
structure Lags (x y : Voter) (paid : Name → ℤ) (lost : ℤ) (parts : ℕ) : Prop where
  votes : y.votes = x.votes
  names : y.names = x.names
  inParts : ∀ n ∈ x.names,
    Accrual.Parts highPrecision (x.votes * (y.lastOn n - x.lastOn n)) (paid n) parts
  earned : y.earned + lost = x.earned + (x.names.map paid).sum
  lost_nonneg : 0 ≤ lost

/-- `y` was settled more often than `x`, at the cost of at most `bound` units. -/
def Behind (x y : Voter) (bound : ℤ) : Prop :=
  ∃ paid lost parts, Lags x y paid lost parts ∧ lost + parts * x.names.length ≤ bound

theorem Voter.rewards_eq (v : Voter) (s : State) : v.rewards s = v.earned + v.accrued s := by
  rw [rewards, earned, add_comm v.claimedRewards]

theorem Voter.accrued_eq (v : Voter) (s : State) :
    v.accrued s = (v.names.map fun n => Accrual.payout highPrecision
      (v.votes * ((s.producer n).rewardsPerVote - v.lastOn n))).sum := by
  rw [accrued, Table.sum, names, List.map_map]
  refine congrArg List.sum (List.map_congr_left fun e he => ?_)
  have hlast : v.lastOn e.name = e.lastRewardsPerVote := by
    rw [lastOn, Table.find?_of_mem he, Option.map_some, Option.getD_some]
  rw [Function.comp_apply, hlast]
  rfl

theorem Behind.refl (x : Voter) : Behind x x 0 :=
  ⟨fun _ => 0, 0, 0, ⟨rfl, rfl, fun n _ => by rw [sub_self, mul_zero]; exact Accrual.Parts.zero _,
    by rw [List.map_const', List.sum_replicate, nsmul_zero], le_rfl⟩, by simp⟩

section Parts

variable {s t s' t' : State} {x y : Voter} {bound : ℤ}

/-- A voter that is settled more often has at most as much, and misses no more than the bound. -/
theorem Behind.rewards_le (h : Behind x y bound)
    (hrate : ∀ n, (t.producer n).rewardsPerVote = (s.producer n).rewardsPerVote) :
    y.rewards t ≤ x.rewards s ∧ x.rewards s ≤ y.rewards t + bound := by
  obtain ⟨paid, lost, parts, hlags, hbound⟩ := h
  have hearned := hlags.earned
  have hlost := hlags.lost_nonneg
  -- what each producer still owes `y`
  let rest n := Accrual.payout highPrecision
    (x.votes * ((s.producer n).rewardsPerVote - y.lastOn n))
  have hx : ∀ n, x.votes * ((s.producer n).rewardsPerVote - x.lastOn n) =
      x.votes * (y.lastOn n - x.lastOn n) +
        x.votes * ((s.producer n).rewardsPerVote - y.lastOn n) := fun n => by ring
  have hy : y.accrued t = (x.names.map rest).sum := by
    simp only [Voter.accrued_eq, hlags.votes, hlags.names, hrate, rest]
  have hle : (x.names.map fun n => paid n + rest n).sum ≤ x.accrued s := by
    rw [Voter.accrued_eq]
    refine List.sum_le_sum fun n hn => ?_
    rw [hx n]
    exact (hlags.inParts n hn).add_payout_le highPrecision_pos _
  have hge : x.accrued s ≤ (x.names.map fun n => paid n + rest n + parts).sum := by
    rw [Voter.accrued_eq]
    refine List.sum_le_sum fun n hn => ?_
    rw [hx n]
    exact (hlags.inParts n hn).payout_le_add highPrecision_pos _
  have hparts : (x.names.map fun _ => (parts : ℤ)).sum = parts * x.names.length := by
    rw [List.map_const', List.sum_replicate, nsmul_eq_mul, mul_comm]
  simp only [List.sum_map_add] at hle hge
  rw [hparts] at hge
  rw [Voter.rewards_eq, Voter.rewards_eq, hy]
  constructor <;> omega

/-- Settled once more in both states, the two are paid in full. -/
theorem Behind.settle {name : Name} {votesDelta : ℤ} {names : List Name} {paidOut : Bool}
    {x' y' : Voter} (h : Behind (s.voter name) (t.voter name) bound)
    (hrate : ∀ n, (t.producer n).rewardsPerVote = (s.producer n).rewardsPerVote)
    (hx : Settlement s name votesDelta names paidOut x' s')
    (hy : Settlement t name votesDelta names paidOut y' t') : Behind x' y' bound := by
  obtain ⟨hle, hge⟩ := h.rewards_le hrate
  have hvotes : (t.voter name).votes = (s.voter name).votes := by
    obtain ⟨paid, lost, parts, hlags, -⟩ := h
    exact hlags.votes
  have hlast : ∀ n, y'.lastOn n = x'.lastOn n := fun n => by
    rw [Voter.lastOn, Voter.lastOn, hx.entry, hy.entry, hrate]
  rw [Voter.rewards_eq, Voter.rewards_eq, ← hx.earned, ← hy.earned] at hle hge
  refine ⟨fun _ => 0, x'.earned - y'.earned, 0, ⟨?_, hy.names.trans hx.names.symm, fun n _ => ?_, ?_,
    sub_nonneg.mpr hle⟩, ?_⟩
  · rw [hx.votes, hy.votes, hvotes]
  · rw [hlast, sub_self, mul_zero]
    exact Accrual.Parts.zero _
  · rw [List.map_const', List.sum_replicate, nsmul_zero]
    ring
  · rw [Nat.cast_zero, zero_mul]
    omega

/-- A claim in the second state only is one more part. -/
theorem Behind.claim {name : Name} {y' : Voter} (h : Behind x (t.voter name) bound)
    (hy : Settlement t name 0 (t.voter name).names true y' t') :
    Behind x y' (bound + (t.voter name).names.length) := by
  obtain ⟨paid, lost, parts, hlags, hbound⟩ := h
  let part n := Accrual.payout highPrecision
    (x.votes * ((t.producer n).rewardsPerVote - (t.voter name).lastOn n))
  refine ⟨fun n => paid n + part n, lost, parts + 1, ⟨?_, hy.names.trans hlags.names, fun n hn => ?_,
    ?_, hlags.lost_nonneg⟩, ?_⟩
  · rw [hy.votes, add_zero, hlags.votes]
  · have hlast : y'.lastOn n = (t.producer n).rewardsPerVote := by
      rw [Voter.lastOn, hy.entry, hlags.names, if_pos hn, Option.map_some, Option.getD_some]
    have hsum : x.votes * (y'.lastOn n - x.lastOn n) =
        x.votes * ((t.voter name).lastOn n - x.lastOn n) +
          x.votes * ((t.producer n).rewardsPerVote - (t.voter name).lastOn n) := by
      rw [hlast]
      ring
    rw [hsum]
    exact (hlags.inParts n hn).pay highPrecision_pos _
  · have hpart : (t.voter name).accrued t = (x.names.map part).sum := by
      simp only [Voter.accrued_eq, hlags.votes, hlags.names, part]
    have hearned := hlags.earned
    rw [hy.earned, hpart, List.sum_map_add]
    omega
  · rw [hlags.names, Nat.cast_add, Nat.cast_one, add_mul, one_mul]
    omega

end Parts

-- ---------------------------------------------------------------------------
-- What a settlement shows to others
-- ---------------------------------------------------------------------------

section Shown

variable {v name : Name} {s t s' t' : State} {votesDelta : ℤ} {names : List Name} {paidOut : Bool}
  {x y : Voter}

/-- A voter that agrees in both states is settled to the same row. -/
theorem Settlement.row_eq (hx : Settlement s name votesDelta names paidOut x s')
    (hy : Settlement t name votesDelta names paidOut y t')
    (hrow : t.voter name = s.voter name)
    (hrate : ∀ n, (t.producer n).rewardsPerVote = (s.producer n).rewardsPerVote) : y = x := by
  have hclaimable : (t.voter name).claimable t = (s.voter name).claimable s := by
    simp only [Voter.claimable, Voter.accrued_eq, hrow, hrate]
  have howner : y.owner = x.owner := hy.owner.trans hx.owner.symm
  have hvotes : y.votes = x.votes := by rw [hx.votes, hy.votes, hrow]
  have hproducers : y.producers = x.producers := Table.ext_find? fun n => by
    rw [hx.entry, hy.entry, hrate]
  have hunclaimed : y.unclaimedRewards = x.unclaimedRewards := by
    rw [hx.unclaimed, hy.unclaimed, hclaimable]
  have hclaimed : y.claimedRewards = x.claimedRewards := by
    rw [hx.claimed, hy.claimed, hclaimable, hrow]
  cases x
  cases y
  simp_all

/-- The votes of a settled voter count for the producers it has now. -/
theorem Settlement.votesOn (hx : Settlement s name votesDelta names paidOut x s') (n : Name) :
    x.votesOn n = if n ∈ names then (s.voter name).votes + votesDelta else 0 := by
  rw [Voter.votesOn, hx.entry, hx.votes]
  split_ifs <;> simp_all

theorem Alike.votesOn (ha : Alike v s t) (name n : Name) :
    (t.voter name).votesOn n = (s.voter name).votesOn n := by
  rw [Voter.votesOn, Voter.votesOn, ha.keys_eq, ha.votes_eq]

/-- States in which one voter is settled stay alike. -/
theorem Alike.settle (ha : Alike v s t) (h : BothSettle s t name s' t') : Alike v s' t' := by
  obtain ⟨votesDelta, names, paidOut, x, y, hx, hy⟩ := h
  have hsymbol : s'.coreSymbol = s.coreSymbol := by rw [hx.state]
  have hsymbol' : t'.coreSymbol = t.coreSymbol := by rw [hy.state]
  have htotal : s'.totalRewards = s.totalRewards := by rw [hx.state]
  have htotal' : t'.totalRewards = t.totalRewards := by rw [hy.state]
  refine ⟨?_, ?_, fun n => ?_, fun n => ?_, fun n => ?_, fun n => ?_, fun n hn => ?_, ?_, ?_⟩
  · rw [hsymbol, hsymbol', ha.coreSymbol]
  · rw [htotal, htotal', ha.totalRewards]
  · rw [State.producer, State.producer, hx.step.row, hy.step.row]
    exact ha.registered n
  · rw [State.producer, State.producer, hx.step.row, hy.step.row]
    exact ha.total n
  · rw [State.producer, State.producer, hx.step.row, hy.step.row]
    simp only [hx.votesOn, hy.votesOn, ha.votes, ha.votesOn, ha.votes_eq]
  · rw [State.producer, State.producer, hx.step.row, hy.step.row]
    exact ha.rate n
  · have hvoters : s'.voters = s.voters.set x := by rw [hx.state]
    have hvoters' : t'.voters = t.voters.set y := by rw [hy.state]
    rw [hvoters, hvoters', Table.find?_set, Table.find?_set, hx.owner, hy.owner]
    split_ifs with hname
    · subst hname
      rw [hx.row_eq hy (ha.voter_ne hn) ha.rate]
    · exact ha.others n hn
  · rw [hx.voter, hy.voter]
    split_ifs with hname
    · rw [hx.votes, hy.votes, ha.votes_eq]
    · exact ha.voterVotes
  · rw [hx.voter, hy.voter]
    split_ifs with hname
    · rw [hx.names, hy.names]
    · exact ha.voterNames

/-- A claim in the second state only is not seen by the others. -/
theorem Alike.claimed (ha : Alike v s t) (hy : Settlement t v 0 (t.voter v).names true y t') :
    Alike v s t' := by
  have hrow := hy.step.row
  have hvotesOn : ∀ n, y.votesOn n = (t.voter v).votesOn n := fun n => by
    rw [hy.votesOn, Voter.votesOn, add_zero]
    simp only [Voter.mem_names]
  have hsymbol : t'.coreSymbol = t.coreSymbol := by rw [hy.state]
  have htotal : t'.totalRewards = t.totalRewards := by rw [hy.state]
  have hvoters : t'.voters = t.voters.set y := by rw [hy.state]
  refine ⟨hsymbol.trans ha.coreSymbol, htotal.trans ha.totalRewards, fun n => ?_, fun n => ?_,
    fun n => ?_, fun n => ?_, fun n hn => ?_, ?_, ?_⟩
  · rw [State.producer, hrow]
    exact ha.registered n
  · rw [State.producer, hrow]
    exact ha.total n
  · rw [State.producer, hrow]
    simp only [hvotesOn, sub_add_cancel]
    exact ha.votes n
  · rw [State.producer, hrow]
    exact ha.rate n
  · rw [hvoters, Table.find?_set_ne _ (by rw [hy.owner]; exact hn.symm)]
    exact ha.others n hn
  · rw [hy.voter, if_pos rfl, hy.votes, add_zero, ha.voterVotes]
  · rw [hy.voter, if_pos rfl, hy.names, ha.voterNames]

/-- A claim settles its voter and pays out its rewards. -/
theorem Sound.claim_settles (h : Sound s) (name : Name) {env : Env} :
    Ensures (claim env s name) fun out =>
      ∃ v', Settlement s name 0 (s.voter name).names true v' out.1 := by
  unfold claim
  cases hv : s.voters.find? name with
  | none => exact .error _
  | some w =>
    obtain rfl : s.voter name = w := by simp [State.voter, hv]
    have hd : 0 ≤ (s.voter name).votes + 0 := by
      rw [add_zero]
      exact h.ledger.voter_votes_nonneg name
    refine .check fun hpos => .bind (h.payable name hd).settled fun st hst => .check fun _ =>
      .check fun _ => .bind_eq fun claimed hclaimed => ?_
    obtain ⟨-, rfl⟩ := addAmount_ok_iff.mp hclaimed
    exact .ok ⟨_, hst.1.settlement rfl rfl (add_zero _).symm hpos.le rfl rfl rfl⟩

end Shown

-- ---------------------------------------------------------------------------
-- Two runs
-- ---------------------------------------------------------------------------

/-- Two states two runs can reach that differ in claims of `v`, which cost it at most `bound`. -/
structure Twins (v : Name) (s t : State) (bound : ℤ) : Prop where
  alike : Alike v s t
  first : Sound s
  second : Sound t
  behind : Behind (s.voter v) (t.voter v) bound

section Steps

variable {v : Name} {s t t' : State} {bound : ℤ} {tx : Transaction}

/-- What an action settles in both states the runs agree on. -/
theorem Twins.follow {s' : State} (h : Twins v s t bound) (hf : Follows v s t s' t')
    (hs : Sound s') (ht : Sound t') : Twins v s' t' bound := by
  rcases hf with ⟨name, hboth⟩ | ⟨halike, hvoters, hvoters'⟩
  · refine ⟨h.alike.settle hboth, hs, ht, ?_⟩
    obtain ⟨votesDelta, names, paidOut, x, y, hx, hy⟩ := hboth
    rw [hx.voter, hy.voter]
    split_ifs with hname
    · subst hname
      exact h.behind.settle h.alike.rate hx hy
    · exact h.behind
  · refine ⟨halike, hs, ht, ?_⟩
    rw [State.voter, State.voter, hvoters, hvoters']
    exact h.behind

/-- An action of both runs. -/
theorem Twins.shared (h : Twins v s t bound) (htx : ¬tx.action.claims v = true) :
    Twins v (Run.next transact s tx).1 (Run.next transact t tx).1 bound := by
  rcases h.alike.transact h.first h.second htx with ⟨e, e', he, he'⟩ | ⟨out, out', ho, ho', hf⟩
  · rw [Run.next_error he, Run.next_error he']
    exact h
  · rw [Run.next_ok ho, Run.next_ok ho']
    exact h.follow hf (h.first.transact tx out ho) (h.second.transact tx out' ho')

/-- A claim of the second run only. -/
theorem Twins.more (h : Twins v s t bound) (htx : tx.action.claims v = true) {out : List Flow}
    (hok : transact tx t = .ok (t', out)) :
    Twins v s t' (bound + (t.voter v).names.length) := by
  have hclaim : ∃ y, Settlement t v 0 (t.voter v).names true y t' := by
    have hbody := hok
    simp only [transact, Except.bind_ok_iff, check_ok_iff, exists_const] at hbody
    cases haction : tx.action <;> simp only [haction, Action.claims, decide_eq_true_eq] at htx hbody
    case claimrewards voter =>
      subst htx
      simp only [claimrewards, requireAuth, Except.bind_ok_iff, check_ok_iff, exists_const] at hbody
      exact h.second.claim_settles _ _ hbody.2.2
    case claimfor submitter voter =>
      subst htx
      simp only [claimfor, requireAuth, Except.bind_ok_iff, check_ok_iff, exists_const] at hbody
      exact h.second.claim_settles _ _ hbody.2.2
    all_goals cases htx
  obtain ⟨y, hy⟩ := hclaim
  refine ⟨h.alike.claimed hy, h.first, h.second.transact tx _ hok, ?_⟩
  rw [hy.voter, if_pos rfl]
  exact h.behind.claim hy

end Steps

/-- The producers a claim of `v` settles it with. -/
def claimCost (v : Name) (s : State) (tx : Transaction) : ℤ :=
  if tx.action.claims v then (s.voter v).producers.rows.length else 0

/-- From every state a run can reach, two runs that differ in the claims of one voter leave every
other voter and every producer with the same votes, rates and rewards, and the voter has at most
one unit less for each claim it made and each producer it had then. -/
theorem claims_leave_others (coreSymbol : Symbol) (txs : List Transaction) (v : Name)
    {as bs : List Transaction} (h : Run.Extends (fun tx => tx.action.claims v = true) as bs) :
    let s := State.final (.fresh coreSymbol) txs
    let s₁ := s.final as
    let s₂ := s.final bs
    (∀ n, n ≠ v → s₂.voters.find? n = s₁.voters.find? n) ∧
    (∀ n, (s₂.producer n).votes = (s₁.producer n).votes ∧
      (s₂.producer n).rewardsPerVote = (s₁.producer n).rewardsPerVote) ∧
    (s₂.voter v).rewards s₂ ≤ (s₁.voter v).rewards s₁ ∧
    (s₁.voter v).rewards s₁ ≤ (s₂.voter v).rewards s₂ + Run.total transact (claimCost v) s bs := by
  intro s s₁ s₂
  have hstart : Twins v s s 0 :=
    ⟨.refl v s, sound_run coreSymbol txs, sound_run coreSymbol txs, .refl _⟩
  have hcost : ∀ (s : State) (tx : Transaction), ¬tx.action.claims v = true →
      claimCost v s tx = 0 := fun s tx htx => if_neg htx
  have hmore : ∀ (s t : State) (n : ℤ) (tx : Transaction) (t' : State) (out : List Flow),
      Twins v s t n → tx.action.claims v = true → transact tx t = .ok (t', out) →
      Twins v s t' (n + claimCost v t tx) := by
    intro s t n tx t' out ht htx hok
    rw [claimCost, if_pos htx]
    simpa only [Voter.names, List.length_map] using ht.more htx hok
  have htwins : Twins v s₁ s₂ (0 + Run.total transact (claimCost v) s bs) :=
    h.invariant hcost (fun _ _ _ _ ht htx => ht.shared htx) hmore hstart
  rw [zero_add] at htwins
  obtain ⟨hle, hge⟩ := htwins.behind.rewards_le htwins.alike.rate
  exact ⟨htwins.alike.others, fun n => ⟨htwins.alike.votes n, htwins.alike.rate n⟩, hle, hge⟩

private def tokens : Symbol := ⟨['A', 'M', 'A', 'X'], 8⟩

private def performed (action : Action) : Transaction := ⟨{ hasAuth := fun _ => true }, action⟩

/-- Producer 1 has two voters with one vote each. -/
private def shareholders : List Transaction :=
  [performed (.regproducer 1), performed (.addvote 2 ⟨1, voteSymbol⟩),
    performed (.addvote 3 ⟨1, voteSymbol⟩), performed (.voteproducer 2 [1]),
    performed (.voteproducer 3 [1])]

private def dividend : Transaction := performed (.ontransfer 1 rewardAccount ⟨3, tokens⟩)

/-- Of two dividends of 3 the voter 2 gets 3 at once, and 2 when it claims in between. -/
theorem claims_leave_others_dividends :
    let s := State.final (.fresh tokens) shareholders
    let s₁ := s.final [dividend, dividend]
    let s₂ := s.final [dividend, performed (.claimrewards 2), dividend]
    (∀ n, n ≠ 2 → s₂.voters.find? n = s₁.voters.find? n) ∧
      (s₁.voter 2).rewards s₁ = 3 ∧ (s₂.voter 2).rewards s₂ = 2 ∧
      (s₁.voter 2).rewards s₁ ≤ (s₂.voter 2).rewards s₂ + 1 := by
  intro s s₁ s₂
  have hextends : Run.Extends (fun tx : Transaction => tx.action.claims 2 = true)
      [dividend, dividend] [dividend, performed (.claimrewards 2), dividend] :=
    .shared (by decide) (.more (by decide) (.shared (by decide) .nil))
  obtain ⟨hothers, -, -, hle⟩ := claims_leave_others tokens shareholders 2 hextends
  have hcost : Run.total transact (claimCost 2) s
      [dividend, performed (.claimrewards 2), dividend] = 1 := by decide +kernel
  rw [hcost] at hle
  exact ⟨hothers, by decide +kernel, by decide +kernel, hle⟩

end Amax.Reward
