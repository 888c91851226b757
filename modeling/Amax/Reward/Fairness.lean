-- SUMMARY: What a voter gets in a whole run against its exact part of every deposit that was made while it voted.
import Amax.Reward.Dust
import Amax.Reward.Frequency

/-! # Fair parts

A deposit belongs to the voters of its producer in proportion to the votes they
have at that moment. The contract rounds every deposit and every settlement
down, so that a voter gets no more than its exact parts, whatever the others do,
and misses no more than what these roundings withhold. -/

namespace Amax.Reward

-- ---------------------------------------------------------------------------
-- Credit
-- ---------------------------------------------------------------------------

/-- What the producers of `v` owe to it, one by one, scaled. -/
def Voter.owings (v : Voter) (s : State) : List ℤ := v.names.map fun n => v.owedBy (s.producer n)

/-- What `v` was credited and what it is owed, scaled and without rounding. -/
def Voter.credit (v : Voter) (s : State) : ℤ := v.earned * highPrecision + (v.owings s).sum

section Credit

variable {s s' : State} {v : Voter}

theorem Voter.accrued_eq_payouts (v : Voter) (s : State) :
    v.accrued s = ((v.owings s).map (Accrual.payout highPrecision)).sum := by
  rw [accrued, Table.sum, owings, names, List.map_map, List.map_map]
  refine congrArg List.sum (List.map_congr_left fun e he => ?_)
  simp only [Function.comp_apply, owedBy, producerRow_owner, Table.find?_of_mem he]
  rfl

/-- The record and the floors of what is accrued fall short of the credit by less than one unit
for each producer. -/
theorem Voter.rewards_bounds (v : Voter) (s : State) :
    v.rewards s * highPrecision ≤ v.credit s ∧
      v.credit s ≤ (v.rewards s + v.names.length) * highPrecision := by
  have hle := Accrual.sum_payout_mul_le highPrecision_pos (v.owings s)
  have hge := Accrual.sum_le_sum_payout highPrecision_pos (v.owings s)
  have hlen : (v.owings s).length = v.names.length := List.length_map _
  rw [hlen] at hge
  simp only [rewards_eq, credit, accrued_eq_payouts, add_mul]
  exact ⟨by omega, by omega⟩

/-- The credit depends on the rates only. -/
theorem Voter.credit_congr (v : Voter)
    (h : ∀ n, (s'.producer n).rewardsPerVote = (s.producer n).rewardsPerVote) :
    v.credit s' = v.credit s := by
  have howings : v.owings s' = v.owings s := List.map_congr_left fun n _ =>
    v.owedBy_congr (by rw [producerRow_owner, producerRow_owner]) (h n)
  rw [credit, credit, howings]

end Credit

-- ---------------------------------------------------------------------------
-- Steps
-- ---------------------------------------------------------------------------

section Steps

variable {s s' : State} {name v : Name} {votesDelta : ℤ} {names : List Name} {paidOut : Bool}
  {v' : Voter} {flows : List Flow} {tx : Transaction}

/-- An action that is performed in lockstep with itself settles its voter. -/
private theorem settles_of_together {out : State × List Flow} {r r' : Outcome}
    (h : Together r r' fun out out' => BothSettle s s name out.1 out'.1) (hok : r = .ok out) :
    ∃ votesDelta names paidOut v', Settlement s name votesDelta names paidOut v' out.1 := by
  rcases h with ⟨e, -, he, -⟩ | ⟨out', _, hout, -, votesDelta, names, paidOut, v', -, hs, -⟩
  · rw [hok] at he
    cases he
  · obtain rfl := Except.ok.inj (hok.symm.trans hout)
    exact ⟨votesDelta, names, paidOut, v', hs⟩

/-- Every action of a voter settles it. -/
theorem Sound.transact_settles (h : Sound s) (hv : tx.action.voter = some name)
    (hok : Reward.transact tx s = .ok (s', flows)) :
    ∃ votesDelta names paidOut v', Settlement s name votesDelta names paidOut v' s' := by
  simp only [Reward.transact, Except.bind_ok_iff, check_ok_iff, exists_const] at hok
  replace hok := hok.2
  have halike := Alike.refl name s
  cases htx : tx.action with
  | addvote n votes | subvote n votes =>
    rw [htx] at hok hv
    obtain rfl := Option.some.inj hv
    exact settles_of_together (halike.changeVote h h n votes _) hok
  | voteproducer n producers =>
    rw [htx] at hok hv
    obtain rfl := Option.some.inj hv
    exact settles_of_together (halike.voteproducer h h n producers) hok
  | claimrewards n =>
    rw [htx] at hok hv
    obtain rfl := Option.some.inj hv
    simp only [claimrewards, requireAuth, Except.bind_ok_iff, check_ok_iff, exists_const] at hok
    exact ⟨_, _, _, h.claim_settles n _ hok.2⟩
  | claimfor submitter n =>
    rw [htx] at hok hv
    obtain rfl := Option.some.inj hv
    simp only [claimfor, requireAuth, Except.bind_ok_iff, check_ok_iff, exists_const] at hok
    exact ⟨_, _, _, h.claim_settles n _ hok.2⟩
  | regproducer n =>
    rw [htx] at hv
    cases hv
  | ontransfer sender receiver quantity =>
    rw [htx] at hv
    cases hv

/-- A settled voter has its rewards as they were, and is owed nothing. -/
theorem Settlement.credit (h : Settlement s name votesDelta names paidOut v' s') :
    v'.credit s' = (s.voter name).rewards s * highPrecision := by
  have hnone : ∀ x ∈ v'.owings s', x = 0 := by
    intro x hx
    obtain ⟨n, -, rfl⟩ := List.mem_map.mp hx
    rw [Voter.owedBy_row, show producerRow s'.producers n = _ from h.step.row n]
    cases he : v'.producers.find? n with
    | none => rfl
    | some e => simp [Producer.owed, h.step.last n e he]
  rw [Voter.credit, List.sum_eq_zero hnone, add_zero, h.earned, Voter.rewards_eq]

/-- A settlement of another voter leaves the credit as it is. -/
theorem Settlement.credit_other (h : Settlement s name votesDelta names paidOut v' s')
    (hne : name ≠ v) : (s'.voter v).credit s' = (s.voter v).credit s := by
  rw [h.voter, if_neg hne]
  refine Voter.credit_congr _ fun n => ?_
  rw [State.producer, h.step.row n]

/-- A deposit raises the credit of a voter by its votes. -/
theorem Deposit.credit {n : Name} {p' : Producer} {q d : ℤ}
    (h : Deposit (s.producer n) p' q d) (total : ℤ) (w : Voter) :
    w.credit { s with totalRewards := total, producers := s.producers.set p' } =
      w.credit s + d * w.votesOn n := by
  have howner : p'.owner = n := h.owner.trans (producerRow_owner _ _)
  have hone : ∀ m, w.owedBy (producerRow (s.producers.set p') m) =
      w.owedBy (s.producer m) + if n = m then d * w.votesOn n else 0 := by
    intro m
    rw [producerRow_set, howner]
    split_ifs with hm
    · subst hm
      rw [h.owedBy, producerRow_owner]
    · rw [add_zero]
  have hmap : w.owings { s with totalRewards := total, producers := s.producers.set p' } =
      w.names.map fun m => w.owedBy (s.producer m) + if n = m then d * w.votesOn n else 0 :=
    List.map_congr_left fun m _ => hone m
  have hsum : (w.names.map fun m => if n = m then d * w.votesOn n else 0).sum = d * w.votesOn n := by
    have hkey := w.producers.sum_ite_key n (d * w.votesOn n)
    rw [Voter.names, List.map_map]
    refine hkey.trans ?_
    unfold Voter.votesOn
    split_ifs
    · rfl
    · rw [mul_zero]
  rw [Voter.credit, Voter.credit, hmap, List.sum_map_add, hsum, Voter.owings]
  ring

end Steps

-- ---------------------------------------------------------------------------
-- Postings
-- ---------------------------------------------------------------------------

/-- What a transaction means for one voter: its exact part of a deposit, and what roundings may
withhold from it. -/
structure Posting where
  share : ℚ := 0
  rounding : ℚ := 0

/-- A deposit brings `v` the part of its votes, up to a scaled unit for each vote, and a settlement
of `v` rounds once for each of its producers. -/
def posting (v : Name) (s : State) (tx : Transaction) : Option Posting :=
  match tx.action with
  | .ontransfer sender receiver quantity =>
    if Credited tx.env s sender receiver quantity then
      let votes := (s.voter v).votesOn sender
      some { share := Accrual.part quantity.amount (s.producer sender).votes votes
             rounding := votes / highPrecision }
    else none
  | a => if a.voter = some v then some { rounding := (s.voter v).names.length } else none

/-- What the postings of a run bring, and what they may withhold. -/
def Posting.shares (l : List Posting) : ℚ := (l.map (·.share)).sum
def Posting.roundings (l : List Posting) : ℚ := (l.map (·.rounding)).sum

/-- The credit of `v` is at most what the postings bring it, and at least that without what they
may withhold. -/
structure Fair (v : Name) (s : State) (l : List Posting) : Prop where
  sound : Sound s
  le : ((s.voter v).credit s : ℚ) ≤ Posting.shares l * highPrecision
  ge : Posting.shares l * highPrecision ≤
    (s.voter v).credit s + Posting.roundings l * highPrecision

section Fair

variable {s s' : State} {v : Name} {l : List Posting} {flows : List Flow} {tx : Transaction}

private theorem Fair.post (h : Fair v s l) (hs : Sound s') {p : Posting} {credit : ℤ}
    (hcredit : (s'.voter v).credit s' = credit)
    (hle : (credit : ℚ) ≤ (s.voter v).credit s + p.share * highPrecision)
    (hge : ((s.voter v).credit s : ℚ) + p.share * highPrecision ≤
      credit + p.rounding * highPrecision) : Fair v s' (l ++ [p]) := by
  subst hcredit
  have h₁ := h.le
  have h₂ := h.ge
  have hshares : Posting.shares (l ++ [p]) = Posting.shares l + p.share := by
    simp [Posting.shares]
  have hroundings : Posting.roundings (l ++ [p]) = Posting.roundings l + p.rounding := by
    simp [Posting.roundings]
  refine ⟨hs, ?_, ?_⟩
  · rw [hshares, add_mul]
    linarith
  · rw [hshares, hroundings, add_mul, add_mul]
    linarith

private theorem Fair.keep (h : Fair v s l) (hs : Sound s')
    (hcredit : (s'.voter v).credit s' = (s.voter v).credit s) : Fair v s' (l ++ []) := by
  rw [List.append_nil]
  exact ⟨hs, by rw [hcredit]; exact h.le, by rw [hcredit]; exact h.ge⟩

/-- What a deposit brings a voter is its part, rounded down. -/
theorem raise_part {p : Producer} {q w : ℤ} (hq : 0 ≤ q) (hw : 0 ≤ w) (hle : w ≤ p.votes) :
    ((p.raise q * w : ℤ) : ℚ) ≤ Accrual.part q p.votes w * highPrecision ∧
      Accrual.part q p.votes w * highPrecision ≤ ((p.raise q * w : ℤ) : ℚ) + w := by
  have hwq : (0 : ℚ) ≤ w := by exact_mod_cast hw
  unfold Producer.raise
  split_ifs with hpos
  · exact ⟨Accrual.raise_mul_le_part hpos.2 hw, Accrual.part_le_raise_mul hpos.2 hw⟩
  · -- nothing is brought, or there is nobody to bring it to
    have hzero : Accrual.part q p.votes w = 0 := by
      rcases hq.lt_or_eq with hq | rfl
      · obtain rfl : w = 0 := by
          have : ¬0 < p.votes := fun hv => hpos ⟨hq, hv⟩
          omega
        simp [Accrual.part]
      · simp [Accrual.part]
    rw [hzero]
    constructor
    · simp
    · simpa using hwq

theorem Fair.transact (h : Fair v s l) (hok : Reward.transact tx s = .ok (s', flows)) :
    Fair v s' (l ++ (posting v s tx).toList) := by
  have hs' : Sound s' := h.sound.transact tx _ hok
  cases hv : tx.action.voter with
  | some name =>
    obtain ⟨d, names, paidOut, v', hsettle⟩ := h.sound.transact_settles hv hok
    have hposting : posting v s tx =
        if name = v then some { rounding := (s.voter v).names.length } else none := by
      unfold posting
      cases htx : tx.action with
      | ontransfer _ _ _ => simp [htx, Action.voter] at hv
      | _ => simp only [← htx, hv, Option.some.injEq]
    rw [hposting]
    split_ifs with hname
    · subst hname
      obtain ⟨hle, hge⟩ := (s.voter name).rewards_bounds s
      have hcredit : (s'.voter name).credit s' = (s.voter name).rewards s * highPrecision := by
        rw [hsettle.voter, if_pos rfl, hsettle.credit]
      refine h.post hs' hcredit ?_ ?_
      · rw [zero_mul, add_zero]
        exact_mod_cast hle
      · rw [zero_mul, add_zero, Int.cast_mul, ← add_mul]
        dsimp only
        exact_mod_cast hge
    · exact h.keep hs' (hsettle.credit_other hname)
  | none =>
    simp only [Reward.transact, Except.bind_ok_iff, check_ok_iff, exists_const] at hok
    replace hok := hok.2
    cases htx : tx.action with
    | regproducer n =>
      rw [htx] at hok
      obtain ⟨-, p', hd, rfl⟩ := regproducer_ok h.sound.ledger hok
      have hposting : posting v s tx = none := by simp [posting, htx, Action.voter]
      rw [hposting]
      have hcredit := hd.credit s.totalRewards (s.voter v)
      rw [zero_mul, add_zero] at hcredit
      exact h.keep hs' hcredit
    | ontransfer sender receiver quantity =>
      rw [htx] at hok
      rcases ontransfer_ok h.sound.ledger hok with ⟨hnot, rfl, -⟩ | ⟨hin, hq, -, p', hd, rfl⟩
      · have hposting : posting v s' tx = none := by
          simp only [posting, htx]
          exact if_neg hnot
        rw [hposting]
        exact h.keep hs' rfl
      · have hposting : posting v s tx = some {
            share := Accrual.part quantity.amount (s.producer sender).votes
              ((s.voter v).votesOn sender)
            rounding := (s.voter v).votesOn sender / highPrecision } := by
          simp only [posting, htx]
          exact if_pos hin
        rw [hposting]
        have hvotes := Voter.votesOn_nonneg (h.sound.ledger.voter_votes_nonneg v) sender
        obtain ⟨hle, hge⟩ := raise_part hq hvotes (h.sound.ledger.votesOn_le v sender)
        have hcredit := hd.credit (s.totalRewards + quantity.amount) (s.voter v)
        have hP : (highPrecision : ℚ) ≠ 0 := by exact_mod_cast highPrecision_pos.ne'
        refine h.post hs' hcredit ?_ ?_
        · rw [Int.cast_add]
          exact add_le_add le_rfl hle
        · rw [Int.cast_add, div_mul_cancel₀ _ hP, add_assoc]
          exact add_le_add le_rfl hge
    | _ => simp [htx, Action.voter] at hv

end Fair

-- ---------------------------------------------------------------------------
-- Runs
-- ---------------------------------------------------------------------------

/-- In every run, what a voter has claimed, has unclaimed and has accrued is at most the sum of its
exact parts of all deposits, each in proportion to its votes for the sender at the time of the
deposit. It is at least that sum without one unit for each producer of the voter, now and at each
of its settlements, and a scaled unit for each of its votes at each deposit. -/
theorem rewards_proportional (coreSymbol : Symbol) (txs : List Transaction) (v : Name) :
    let s := State.final (.fresh coreSymbol) txs
    let postings := Run.found transact (posting v) (.fresh coreSymbol) txs
    ((s.voter v).rewards s : ℚ) ≤ Posting.shares postings ∧
      Posting.shares postings ≤
        (s.voter v).rewards s + (s.voter v).names.length + Posting.roundings postings := by
  intro s postings
  have hzero : ((State.fresh coreSymbol).voter v).credit (.fresh coreSymbol) = 0 := rfl
  have hstart : Fair v (.fresh coreSymbol) [] :=
    ⟨sound_run coreSymbol [], by simp [hzero, Posting.shares],
      by simp [hzero, Posting.shares, Posting.roundings]⟩
  have hfair : Fair v s ([] ++ postings) :=
    Run.invariant_found (P := fun _ _ => True) (fun _ _ _ _ _ h _ hok => h.transact hok) hstart
      (Run.along_true _ txs)
  rw [List.nil_append] at hfair
  have hle := hfair.le
  have hge := hfair.ge
  have hP : (0 : ℚ) < highPrecision := by exact_mod_cast highPrecision_pos
  obtain ⟨hlow, hhigh⟩ := (s.voter v).rewards_bounds s
  have hlow' : ((s.voter v).rewards s : ℚ) * highPrecision ≤ (s.voter v).credit s := by
    exact_mod_cast hlow
  have hhigh' : ((s.voter v).credit s : ℚ) ≤
      ((s.voter v).rewards s + (s.voter v).names.length) * highPrecision := by
    exact_mod_cast hhigh
  constructor
  · exact le_of_mul_le_mul_right (hlow'.trans hle) hP
  · refine le_of_mul_le_mul_right (hge.trans ?_) hP
    rw [add_mul]
    exact add_le_add hhigh' le_rfl

end Amax.Reward
