-- SUMMARY: The two contracts agree on who votes for whom, as long as no list of producers changes behind the reward contract.
import Amax.Chain.Contract
import Amax.System.Tally

/-! # Agreement of the two contracts

The system contract and the reward contract keep the votes of each voter, its
producers, and the votes of each producer, and merge lists of producers in two
different ways. They agree after every transaction that tells the reward
contract of the list it changes; the old `voteproducer` does not. -/

namespace Amax

-- ---------------------------------------------------------------------------
-- Agreement
-- ---------------------------------------------------------------------------

/-- The two contracts agree on who votes for whom. -/
structure Chain.Agrees (c : Chain) : Prop where
  votes : ∀ n, (c.reward.voter n).votes = (c.system.voter n).votes.amount
  producers : ∀ n, 0 < (c.reward.voter n).votes →
    (c.reward.voter n).names = (c.system.voter n).producers.names
  elected : ∀ n, (c.reward.producer n).votes = (c.system.producer n).getElectedVotes

/-- The list of a voter with votes stays as it is in `voteproducer`, and a voter
without votes adds its first ones when both contracts have the same list of it. -/
def Chain.AgreeStep (c : Chain) (tx : ChainTransaction) : Prop :=
  match tx.action with
  | .voteproducer voter _ producers => 0 < (c.system.voter voter).votes.amount →
      producers = (c.system.voter voter).producers.names
  | .addvote voter _ => (c.system.voter voter).votes.amount = 0 →
      (c.reward.voter voter).names = (c.system.voter voter).producers.names
  | _ => True

instance (c : Chain) (tx : ChainTransaction) : Decidable (c.AgreeStep tx) := by
  unfold Chain.AgreeStep
  split <;> infer_instance

/-- What every run keeps: agreement, the books of the reward contract and the
symbol of the votes. -/
structure Chain.Matched (c : Chain) : Prop where
  agrees : c.Agrees
  books : ∃ flows, Reward.Books c.reward flows
  symbol : ∀ n, (c.system.voter n).votes.symbol = voteSymbol

namespace Chain.Matched

variable {c : Chain}

theorem votes_nonneg (h : c.Matched) (n : Name) : 0 ≤ (c.system.voter n).votes.amount := by
  obtain ⟨_, hb⟩ := h.books
  rw [← h.agrees.votes n]
  exact hb.ledger.voter_votes_nonneg n

theorem withVoteSymbol_votes (h : c.Matched) (n : Name) :
    (c.system.voter n).withVoteSymbol = c.system.voter n := by
  unfold VoterInfo.withVoteSymbol
  rw [if_neg (not_not.mpr (h.symbol n))]

/-- Both contracts count a voter for the same producers. -/
theorem votesOn_eq (h : c.Matched) (v n : Name) :
    (c.reward.voter v).votesOn n = (c.system.voter v).votesOn n := by
  rw [Reward.Voter.votesOn_eq, VoterInfo.votesOn, ← h.agrees.votes v]
  have hn := h.votes_nonneg v
  rw [← h.agrees.votes v] at hn
  rcases hn.eq_or_lt with hzero | hpos
  · rw [← hzero, ite_self, ite_self]
  · rw [h.agrees.producers v hpos]

end Chain.Matched

-- ---------------------------------------------------------------------------
-- Steps of one contract
-- ---------------------------------------------------------------------------

theorem System.voter_setVoter (s : System) (v : VoterInfo) (n : Name) :
    ((s.voters.set v).find? n).getD { owner := n } = if v.owner = n then v else s.voter n := by
  rw [Table.find?_set]
  split_ifs <;> rfl

theorem System.voter_congr {s t : System} (h : s.outside = t.outside) (n : Name) :
    s.voter n = t.voter n := (congrArg (fun r : System => r.voter n) h :)

/-- What a system action may change when it tells the reward contract of no votes. -/
structure KeepsVotes (s s' : System) : Prop where
  elected : ∀ n, (s'.producer n).getElectedVotes = (s.producer n).getElectedVotes
  votes : ∀ n, (s'.voter n).votes = (s.voter n).votes
  producers : ∀ n, 0 < (s.voter n).votes.amount → (s'.voter n).producers = (s.voter n).producers

theorem KeepsVotes.of_voters {s s' : System}
    (he : ∀ n, (s'.producer n).getElectedVotes = (s.producer n).getElectedVotes)
    (hv : s'.voters = s.voters) : KeepsVotes s s' := by
  have hrow : ∀ n, s'.voter n = s.voter n := fun n => by rw [System.voter, System.voter, hv]
  exact ⟨he, fun n => by rw [hrow], fun n _ => by rw [hrow]⟩

theorem KeepsVotes.setProducer {s : System} {row : ProducerInfo}
    (h : row.getElectedVotes = (s.producer row.owner).getElectedVotes) :
    KeepsVotes s (s.setProducer row) := by
  refine .of_voters (fun n => ?_) rfl
  rw [System.producer_setProducer]
  split_ifs with hn
  · rw [h, hn]
  · rfl

theorem KeepsVotes.trans {s t u : System} (h : KeepsVotes s t) (h' : KeepsVotes t u) :
    KeepsVotes s u :=
  ⟨fun n => (h'.elected n).trans (h.elected n), fun n => (h'.votes n).trans (h.votes n),
    fun n hn => (h'.producers n (h.votes n ▸ hn)).trans (h.producers n hn)⟩

theorem KeepsVotes.blockStep {s s' : System} (h : BlockStep s s') : KeepsVotes s s' := by
  have hpaid : ∀ {info : ProducerRewardInfo} {prod : ProducerInfo}, Payable s info prod →
      KeepsVotes s (s.setProducer (prod.paid info.rewardsPerBlock)) := by
    intro info prod hp
    refine .setProducer ?_
    rw [show s.producer (prod.paid info.rewardsPerBlock).owner = prod from
      System.producer_of_find? hp.found]
    rfl
  cases h with
  | rates => exact ⟨fun _ => rfl, fun _ => rfl, fun _ _ => rfl⟩
  | main payable =>
    have := hpaid payable
    exact ⟨this.elected, this.votes, this.producers⟩
  | backup payable =>
    have := hpaid payable
    exact ⟨this.elected, this.votes, this.producers⟩

/-- A row of a voter is written with the votes it had, and with the producers it
had if it has votes. -/
theorem KeepsVotes.setVoter {s : System} {gs : GlobalState} {v : VoterInfo}
    (hs : (s.voter v.owner).votes.symbol = voteSymbol) (hv : VoterRevision s v)
    (hp : 0 < (s.voter v.owner).votes.amount → v.producers = (s.voter v.owner).producers) :
    KeepsVotes s { s with gstate := gs, voters := s.voters.set v } := by
  have hvotes : v.votes = (s.voter v.owner).votes := by
    refine hv.elim id fun h => h.trans ?_
    unfold VoterInfo.withVoteSymbol
    rw [if_neg (not_not.mpr hs)]
  have hrow : ∀ n, ({ s with gstate := gs, voters := s.voters.set v } : System).voter n =
      if v.owner = n then v else s.voter n := s.voter_setVoter v
  refine ⟨fun _ => rfl, fun n => ?_, fun n hn => ?_⟩
  · rw [hrow]
    split_ifs with ho
    · rw [hvotes, ho]
    · rfl
  · rw [hrow]
    split_ifs with ho
    · rw [← ho] at hn ⊢
      exact hp hn
    · rfl

-- ---------------------------------------------------------------------------
-- Steps of both contracts
-- ---------------------------------------------------------------------------

section Deliver

variable {env : Reward.Env} {r r' : Reward.State} {flows : List Reward.Flow} {voter : Name}

theorem deliver_rewardAddvote {votes : Asset} (h : Reward.Ledger r)
    (hok : deliver env r (.rewardAddvote voter votes) = .ok (r', flows)) :
    ∃ w, Reward.VoterAction r voter w r' flows ∧ w.votes = (r.voter voter).votes + votes.amount ∧
      ∀ n, (w.producers.find? n).isSome = ((r.voter voter).producers.find? n).isSome := by
  simp only [deliver, Inline.toReward, Reward.transact, Except.bind_ok_iff, check_ok_iff,
    exists_const] at hok
  exact Reward.changeVote_ok h hok.2

theorem deliver_rewardSubvote {votes : Asset} (h : Reward.Ledger r)
    (hok : deliver env r (.rewardSubvote voter votes) = .ok (r', flows)) :
    ∃ w, Reward.VoterAction r voter w r' flows ∧ w.votes = (r.voter voter).votes + -votes.amount ∧
      ∀ n, (w.producers.find? n).isSome = ((r.voter voter).producers.find? n).isSome := by
  simp only [deliver, Inline.toReward, Reward.transact, Except.bind_ok_iff, check_ok_iff,
    exists_const] at hok
  exact Reward.changeVote_ok h hok.2

theorem deliver_rewardVoteproducer {producers : List Name} (h : Reward.Ledger r)
    (hok : deliver env r (.rewardVoteproducer voter producers) = .ok (r', flows)) :
    ∃ w, Reward.VoterAction r voter w r' flows ∧ w.votes = (r.voter voter).votes ∧
      w.names = producers := by
  simp only [deliver, Inline.toReward, Reward.transact, Except.bind_ok_iff, check_ok_iff,
    exists_const] at hok
  exact Reward.voteproducer_ok h hok.2

end Deliver

namespace Chain.Matched

variable {c : Chain} {s : System} {r : Reward.State} {flows : List Reward.Flow}

/-- Nothing about votes happens in either contract. -/
theorem keep (h : c.Matched) (hs : KeepsVotes c.system s) (hr : Reward.KeepsVotes c.reward r)
    (hb : ∃ flows, Reward.Books r flows) : Matched ⟨s, r⟩ := by
  have hvoter : ∀ n, r.voter n = c.reward.voter n := fun n => by
    rw [Reward.State.voter, Reward.State.voter, hr.voters]
  refine ⟨⟨fun n => ?_, fun n hn => ?_, fun n => ?_⟩, hb, fun n => ?_⟩
  · dsimp only
    rw [hvoter, hs.votes]
    exact h.agrees.votes n
  · dsimp only at hn ⊢
    rw [hvoter] at hn ⊢
    rw [hs.producers n (h.agrees.votes n ▸ hn)]
    exact h.agrees.producers n hn
  · dsimp only
    rw [hr.votes, hs.elected]
    exact h.agrees.elected n
  · dsimp only
    rw [hs.votes]
    exact h.symbol n

/-- The votes of one voter move in both contracts. -/
theorem move (h : c.Matched) {v : VoterInfo} {w : Reward.Voter} {out : List Reward.Flow}
    {name : Name} (howner : v.owner = name)
    (hsystem : ∀ n, s.voter n = if v.owner = n then v else c.system.voter n)
    (hreward : Reward.VoterAction c.reward name w r out)
    (hvotes : w.votes = v.votes.amount) (hsymbol : v.votes.symbol = voteSymbol)
    (hnames : w.names = v.producers.names)
    (helected : ∀ n, (s.producer n).getElectedVotes = (c.system.producer n).getElectedVotes -
      (c.system.voter name).votesOn n + v.votesOn n)
    (hb : ∃ flows, Reward.Books r flows) : Matched ⟨s, r⟩ := by
  subst howner
  have hw : ∀ n, r.voter n = if v.owner = n then w else c.reward.voter n := fun n => by
    have howner : w.owner = v.owner := hreward.step.owner.trans (Reward.voter_owner _ _)
    have hvoters : r.voters = c.reward.voters.set w := by rw [hreward.state]
    rw [Reward.State.voter, hvoters, Table.find?_set, howner]
    split_ifs <;> rfl
  refine ⟨⟨fun n => ?_, fun n hn => ?_, fun n => ?_⟩, hb, fun n => ?_⟩
  · dsimp only
    rw [hw, hsystem]
    split_ifs
    · exact hvotes
    · exact h.agrees.votes n
  · dsimp only at hn ⊢
    rw [hw] at hn ⊢
    rw [hsystem]
    split_ifs at hn ⊢
    · exact hnames
    · exact h.agrees.producers n hn
  · show (Reward.producerRow r.producers n).votes = (s.producer n).getElectedVotes
    rw [hreward.step.row n, helected, ← h.agrees.elected n, ← h.votesOn_eq,
      Reward.Voter.votesOn_eq w, hnames, hvotes]
    rfl
  · dsimp only
    rw [hsystem]
    split_ifs
    · exact hsymbol
    · exact h.symbol n

/-- Every effect, with what it sends, keeps the two contracts matched. -/
theorem effect (h : c.Matched) {env : Reward.Env} {tx : ChainTransaction} {sent : List Inline}
    (hc : c.AgreeStep tx) (he : Effect c.system tx.action s sent)
    (hd : deliverAll env c.reward sent = .ok (r, flows)) : Matched ⟨s, r⟩ := by
  obtain ⟨out, hbooks⟩ := h.books
  have hb : ∃ flows, Reward.Books r flows := ⟨_, deliverAll_books hbooks hd⟩
  have hnodup : ∀ l : NameList, l.names.Nodup := fun l => l.sorted.imp fun hlt => hlt.ne
  -- what is not about votes
  have hquiet : (∀ i ∈ sent, i.isVote = false) → KeepsVotes c.system s → Matched ⟨s, r⟩ :=
    fun hs hk => h.keep hk (deliverAll_keepsVotes hs hd) hb
  generalize htx : tx.action = a at he
  cases he with
  | keep => exact hquiet nofun ⟨fun _ => rfl, fun _ => rfl, fun _ _ => rfl⟩
  | register quiet registered revision ext sends =>
    refine hquiet (fun i hi => ?_) (.setProducer revision.votes)
    rcases sends with rfl | rfl
    · cases hi
    · obtain rfl := List.mem_singleton.mp hi
      rfl
  | revise quiet revision ext => exact hquiet nofun (.setProducer revision.votes)
  | settings => exact hquiet nofun ⟨fun _ => rfl, fun _ => rfl, fun _ _ => rfl⟩
  | configure => exact hquiet nofun ⟨fun _ => rfl, fun _ => rfl, fun _ _ => rfl⟩
  | block produced =>
    refine hquiet nofun ?_
    exact produceRewards_preserves (P := KeepsVotes c.system) produced
      ⟨fun _ => rfl, fun _ => rfl, fun _ _ => rfl⟩ fun _ _ hs hstep => hs.trans (.blockStep hstep)
  | voter quiet producers revision =>
    exact hquiet nofun (.setVoter (h.symbol _) revision fun _ => producers)
  | voteproducer notInit revision =>
    refine hquiet nofun (.setVoter (h.symbol _) revision fun hpos => ?_)
    simp only [AgreeStep, htx] at hc
    exact NameList.ext (hc hpos)
  | @addvote voter votes q symbol pos staked ext =>
    -- the transfer comes first, and moves no votes
    simp only [deliverAll, Except.bind_ok_iff, Except.pure_ok_iff, Prod.exists, Prod.mk.injEq,
      Except.ok.injEq] at hd
    obtain ⟨r₁, fl, h₁, r₂, rest, ⟨_, fl₂, h₂, _, _, ⟨rfl, -⟩, rfl, -⟩, rfl, -⟩ := hd
    have hkept := deliver_keepsVotes rfl h₁
    have hb₁ := deliver_books hbooks h₁
    have h' : Matched ⟨c.system, r₁⟩ :=
      h.keep ⟨fun _ => rfl, fun _ => rfl, fun _ _ => rfl⟩ hkept ⟨_, hb₁⟩
    obtain ⟨w, hw, hwvotes, hkeys⟩ := deliver_rewardAddvote hb₁.ledger h₂
    have hsame : w.names = (c.system.voter voter).producers.names := by
      rw [Reward.Voter.names_congr hkeys]
      rcases (h.votes_nonneg voter).eq_or_lt with hzero | hpos
      · simp only [AgreeStep, htx] at hc
        rw [Reward.State.voter, hkept.voters]
        exact hc hzero.symm
      · exact h'.agrees.producers voter (h'.agrees.votes voter ▸ hpos)
    have hrow := h.withVoteSymbol_votes voter
    refine h'.move (v := { (c.system.voter voter).withVoteSymbol with votes := _ }) ?_
      (c.system.voter_setVoter _) hw ?_ rfl ?_ (fun n => ?_) hb
    · rw [VoterInfo.withVoteSymbol_owner, System.voter_owner]
    · rw [hwvotes, hrow, h'.agrees.votes]
    · rw [hsame, hrow]
    · rw [hrow]
      show ((c.system.addVotesList _ _).producer n).getElectedVotes = _
      rw [System.votes_addVotesList _ (hnodup _), VoterInfo.votesOn, VoterInfo.votesOn]
      dsimp only
      split_ifs <;> ring
  | @subvote voter votes slot time symbol pos symbol_eq le fresh ext =>
    obtain ⟨fl, hd⟩ := deliverAll_singleton hd
    obtain ⟨w, hw, hwvotes, hkeys⟩ := deliver_rewardSubvote hbooks.ledger hd
    have hsame : w.names = (c.system.voter voter).producers.names := by
      rw [Reward.Voter.names_congr hkeys]
      refine h.agrees.producers voter ?_
      rw [h.agrees.votes]
      omega
    refine h.move (v := { c.system.voter voter with votes := _, lastUnvotedTime := slot })
      (c.system.voter_owner voter) (c.system.voter_setVoter _) hw ?_ rfl hsame (fun n => ?_) hb
    · rw [hwvotes, h.agrees.votes]
      rfl
    · show ((c.system.addVotesList _ _).producer n).getElectedVotes = _
      rw [System.votes_addVotesList _ (hnodup _), VoterInfo.votesOn, VoterInfo.votesOn]
      dsimp only
      split_ifs <;> ring
  | @vote voter producers slot nonneg ext =>
    obtain ⟨fl, hd⟩ := deliverAll_singleton hd
    obtain ⟨w, hw, hwvotes, hkeys⟩ := deliver_rewardVoteproducer hbooks.ledger hd
    have hrow := h.withVoteSymbol_votes voter
    refine h.move (v := { (c.system.voter voter).withVoteSymbol with
        producers, lastUnvotedTime := slot })
      ?_ (c.system.voter_setVoter _) hw ?_ ?_ hkeys (fun n => ?_) hb
    · rw [VoterInfo.withVoteSymbol_owner, System.voter_owner]
    · rw [hwvotes, h.agrees.votes, hrow]
    · rw [hrow]
      exact h.symbol voter
    · rw [hrow]
      show (((c.system.addVotesList _ _).addVotesList _ _).producer n).getElectedVotes = _
      rw [System.votes_addVotesList _ (hnodup _), System.votes_addVotesList _ (hnodup _),
        VoterInfo.votesOn, VoterInfo.votesOn]
      dsimp only
      split_ifs <;> ring
  | refundvote found staked =>
    refine hquiet (fun i hi => ?_) ⟨fun _ => rfl, fun _ => rfl, fun _ _ => rfl⟩
    obtain rfl := List.mem_singleton.mp hi
    rfl
  | @claimrewards submitter prod sent time found pos issued_eq silent =>
    refine hquiet silent (.setProducer ?_)
    rw [show c.system.producer prod.owner = prod from System.producer_of_find? found]
    rfl
  | @undoreward rewards prod time found pos le =>
    refine hquiet nofun (.setProducer ?_)
    rw [show c.system.producer prod.owner = prod from System.producer_of_find? found]
    rfl

theorem transact (h : c.Matched) {tx : ChainTransaction} {c' : Chain} (hc : c.AgreeStep tx)
    (hok : Chain.transact tx c = .ok (c', flows)) : c'.Matched := by
  obtain ⟨sent, hs, hd⟩ := Chain.transact_ok_iff.mp hok
  obtain ⟨s₁, he, hout⟩ := perform_effect (Amax.transact_ok_iff.mp hs).1
  have h₁ := h.effect hc he hd
  refine ⟨⟨fun n => ?_, fun n hn => ?_, fun n => ?_⟩, h₁.books, fun n => ?_⟩
  · rw [System.voter_congr hout]
    exact h₁.agrees.votes n
  · rw [System.voter_congr hout]
    exact h₁.agrees.producers n hn
  · rw [System.producer_congr hout]
    exact h₁.agrees.elected n
  · rw [System.voter_congr hout]
    exact h₁.symbol n

end Chain.Matched

-- ---------------------------------------------------------------------------
-- Runs
-- ---------------------------------------------------------------------------

/-- Two contracts without voters and producers. -/
structure Chain.Fresh (c : Chain) : Prop where
  voters : c.system.voters = .empty
  producers : c.system.producers = .empty
  reward : c.reward = .fresh c.reward.coreSymbol

theorem Chain.Fresh.matched {c : Chain} (h : c.Fresh) : c.Matched := by
  have hvoter : ∀ n, c.system.voter n = { owner := n } := fun n => by
    rw [System.voter, h.voters]
    rfl
  have hproducer : ∀ n, (c.system.producer n).getElectedVotes = 0 := fun n => by
    rw [System.producer, h.producers]
    rfl
  have hbooks : Reward.Books c.reward [] := by
    rw [h.reward]
    exact Reward.books_fresh _
  refine ⟨⟨fun n => ?_, fun n hn => ?_, fun n => ?_⟩, ⟨[], hbooks⟩, fun n => ?_⟩
  · rw [hvoter, h.reward]
    rfl
  · rw [h.reward] at hn
    exact absurd hn (lt_irrefl _)
  · rw [hproducer, h.reward]
    rfl
  · rw [hvoter]

/-- The two contracts agree after every run in which no transaction changes a
list of producers that the reward contract counts votes for, or lets it start
counting with another list than the one the system contract has. -/
theorem contracts_agree {c : Chain} (h : c.Fresh) {txs : List ChainTransaction}
    (hc : Run.Along Chain.transact Chain.AgreeStep c txs) : (c.final txs).Agrees :=
  (Run.invariant (fun _ _ _ _ hs hp hok => Chain.Matched.transact hs hp hok) h.matched hc).agrees

/-- A chain on which nothing has happened. -/
private def genesis : Chain where
  system := { gstate := { coreSymbol := ⟨['A', 'M', 'A', 'X'], 8⟩ } }
  reward := .fresh ⟨['A', 'M', 'A', 'X'], 8⟩

private def evening (a : Action) : ChainTransaction :=
  ⟨{ now := seconds 1800000000, hasAuth := fun _ => true }, { hasAuth := fun _ => true }, a⟩

/-- Votes come before elections are initialised, and are given to producers after. -/
theorem contracts_agree_vote :
    let txs := [evening (.regproducer 1 5 "" none), evening (.regproducer 3 5 "" none),
      evening (.addvote 2 ⟨100, voteSymbol⟩), evening .upgradevote, evening (.vote 2 [1, 3])]
    (genesis.final txs).Agrees ∧ ((genesis.final txs).reward.producer 3).votes = 100 := by
  intro txs
  have hfresh : genesis.Fresh := ⟨rfl, rfl, rfl⟩
  have hc : Run.Along Chain.transact Chain.AgreeStep genesis txs := by decide +kernel
  exact ⟨contracts_agree hfresh hc, by decide +kernel⟩

/-- An old vote with votes leaves the reward contract without the producer, and
its next votes reach the producer in one contract only. -/
theorem contracts_agree_legacy :
    let txs := [evening (.regproducer 1 5 "" none), evening (.addvote 2 ⟨100, voteSymbol⟩),
      evening (.voteproducer 2 0 [1]), evening (.addvote 2 ⟨10, voteSymbol⟩)]
    let c := genesis.final txs
    genesis.Fresh ∧ ¬c.Agrees ∧ (c.reward.voter 2).votes = 110 ∧ (c.reward.voter 2).names = [] ∧
      (c.system.voter 2).producers.names = [1] ∧ (c.reward.producer 1).votes = 0 ∧
      (c.system.producer 1).getElectedVotes = 10 := by
  refine ⟨⟨rfl, rfl, rfl⟩, fun h => ?_, ?_⟩
  · have := h.elected 1
    revert this
    decide +kernel
  · decide +kernel

end Amax
