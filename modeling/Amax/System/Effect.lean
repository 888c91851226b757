-- SUMMARY: What each action can do outside of the elections, said once: one constructor for each kind of effect.
import Amax.System.Frame
import Mathlib.Logic.Relation

/-! # Effects

Every successful action has one of a few effects on the state outside of what
the election code caches. Whatever holds of all effects holds of every run. -/

namespace Amax

/-- The producer an action registers. -/
def Action.registered : Action → Option Name
  | .regproducer p _ _ _ => some p
  | .regproducer2 p _ _ _ => some p
  | _ => none

/-- The rewards an action removes. -/
def Action.undone : Action → ℤ
  | .undoreward _ rewards => rewards.amount
  | _ => 0

/-- The action tells the reward contract of votes. -/
def Inline.isVote : Inline → Bool
  | .rewardAddvote _ _ => true
  | .rewardSubvote _ _ => true
  | .rewardVoteproducer _ _ => true
  | _ => false

/-- The rewards the actions `sent` issue. -/
def issued (sent : List Inline) : ℤ :=
  (sent.map fun
    | .issue _ quantity _ => quantity.amount
    | _ => 0).sum

namespace System

/-- The row of a voter, or the row it gets when it is first touched. -/
def voter (s : System) (n : Name) : VoterInfo := (s.voters.find? n).getD { owner := n }

theorem voter_of_find? {s : System} {n : Name} {v : VoterInfo} (h : s.voters.find? n = some v) :
    s.voter n = v := by
  rw [voter, h, Option.getD_some]

theorem voter_of_none {s : System} {n : Name} (h : s.voters.find? n = none) :
    s.voter n = { owner := n } := by
  rw [voter, h, Option.getD_none]

@[simp] theorem voter_owner (s : System) (n : Name) : (s.voter n).owner = n := by
  unfold voter
  cases h : s.voters.find? n with
  | none => rfl
  | some v => exact Table.key_of_find? h

/-- A sum over the voters when one row is written. -/
theorem sum_setVoter (s : System) (v : VoterInfo) {f : VoterInfo → ℤ}
    (hf : f { owner := v.owner } = 0) :
    (s.voters.set v).sum f = s.voters.sum f - f (s.voter v.owner) + f v :=
  Table.sum_set_getD _ hf

end System

@[simp] theorem VoterInfo.withVoteSymbol_owner (v : VoterInfo) : v.withVoteSymbol.owner = v.owner := by
  unfold withVoteSymbol
  split_ifs <;> rfl

@[simp] theorem VoterInfo.withVoteSymbol_producers (v : VoterInfo) :
    v.withVoteSymbol.producers = v.producers := by
  unfold withVoteSymbol
  split_ifs <;> rfl

/-- A voter without the vote symbol has no votes to lose. -/
theorem VoterInfo.withVoteSymbol_amount {v : VoterInfo}
    (h : v.votes.symbol = voteSymbol ∨ v.votes.amount = 0) :
    v.withVoteSymbol.votes.amount = v.votes.amount := by
  unfold withVoteSymbol
  split_ifs with hs
  · exact (h.resolve_left hs).symm
  · rfl

theorem VoterInfo.withVoteSymbol_symbol (v : VoterInfo) :
    v.withVoteSymbol.votes.symbol = voteSymbol := by
  unfold withVoteSymbol
  split_ifs with h
  · rfl
  · exact not_not.mp h

-- ---------------------------------------------------------------------------
-- Effects
-- ---------------------------------------------------------------------------

/-- The row `row` is written, with the votes and the rewards its producer had. -/
structure Revision (s : System) (row : ProducerInfo) : Prop where
  votes : row.getElectedVotes = (s.producer row.owner).getElectedVotes
  unclaimed : row.unclaimedRewards.amount = (s.producer row.owner).unclaimedRewards.amount

/-- The row `v` is written, with the votes its voter had. -/
def VoterRevision (s : System) (v : VoterInfo) : Prop :=
  v.votes = (s.voter v.owner).votes ∨ v.votes = (s.voter v.owner).withVoteSymbol.votes

/-- A stream of rewards is given a new rate. -/
structure Reconfigured (total : ℤ) (old new : ProducerRewardInfo) : Prop where
  kept : old.producedRewards.isValid → new.producedRewards = old.producedRewards
  started : ¬old.producedRewards.isValid → new.producedRewards.amount = 0
  symbol : new.producedRewards.symbol.isValid
  produced_le : new.producedRewards.amount ≤ new.totalRewards.amount
  total : new.totalRewards = old.totalRewards ∨ new.totalRewards.amount = total

/-- What an action does outside of the elections. -/
inductive Effect (s : System) : Action → System → List Inline → Prop
  | keep {a : Action} (quiet : a.undone = 0) : Effect s a s []
  | register {a : Action} {row : ProducerInfo} {sent : List Inline} (quiet : a.undone = 0)
      (registered : a.registered = some row.owner) (revision : Revision s row)
      (ext : row.ext.isSome) (sends : sent = [] ∨ sent = [.rewardRegproducer row.owner]) :
      Effect s a (s.setProducer row) sent
  | revise {a : Action} {row : ProducerInfo} (quiet : a.undone = 0) (revision : Revision s row)
      (ext : row.ext.isSome = (s.producer row.owner).ext.isSome) :
      Effect s a (s.setProducer row) []
  | settings {a : Action} {gs : GlobalState} {g : ElectGlobalState} (quiet : a.undone = 0)
      (total : g.totalProducerElectedVotes = s.electGstate.totalProducerElectedVotes)
      (main : g.mainRewardInfo = s.electGstate.mainRewardInfo)
      (backup : g.backupRewardInfo = s.electGstate.backupRewardInfo)
      (init : s.electGstate.isInit → g.isInit) :
      Effect s a { s with gstate := gs, electGstate := g } []
  | configure {a : Action} {gs : GlobalState} {main backup : ProducerRewardInfo}
      (quiet : a.undone = 0)
      (main_ok : main = s.electGstate.mainRewardInfo ∨
        Reconfigured totalMainProducerRewards s.electGstate.mainRewardInfo main)
      (backup_ok : Reconfigured totalBackupProducerRewards s.electGstate.backupRewardInfo backup) :
      Effect s a { s with
        gstate := gs
        electGstate := { s.electGstate with
          mainRewardInfo := main, backupRewardInfo := backup } } []
  | block {env : Env} {bh : BlockHeader} {s' : System} (produced : produceRewards env s bh = .ok s') :
      Effect s (.onblock bh) s' []
  | voter {a : Action} {gs : GlobalState} {v : VoterInfo} (quiet : a.undone = 0)
      (producers : v.producers = (s.voter v.owner).producers) (revision : VoterRevision s v) :
      Effect s a { s with gstate := gs, voters := s.voters.set v } []
  | voteproducer {gs : GlobalState} {v : VoterInfo} {proxy : Name}
      (notInit : s.electGstate.isInit = false) (revision : VoterRevision s v) :
      Effect s (.voteproducer v.owner proxy v.producers.names)
        { s with gstate := gs, voters := s.voters.set v } []
  | addvote {voter : Name} {votes q : Asset} (symbol : votes.symbol = voteSymbol)
      (pos : 0 < votes.amount) (staked : voteToCoreAsset s votes = .ok q)
      (ext : ∀ n ∈ (s.voter voter).producers.names, (s.producer n).ext.isSome) :
      Effect s (.addvote voter votes)
        { s.addVotesList (s.voter voter).producers.names votes.amount with
          voters := s.voters.set { (s.voter voter).withVoteSymbol with
            votes := ⟨(s.voter voter).withVoteSymbol.votes.amount + votes.amount, voteSymbol⟩ } }
        [.transfer voter voteAccount q "addvote", .rewardAddvote voter votes]
  | subvote {voter : Name} {votes : Asset} (slot : Slot) (time : ℕ)
      (symbol : votes.symbol = voteSymbol) (pos : 0 < votes.amount)
      (symbol_eq : (s.voter voter).votes.symbol = voteSymbol)
      (le : votes.amount ≤ (s.voter voter).votes.amount)
      (fresh : s.voteRefunds.find? voter = none)
      (ext : ∀ n ∈ (s.voter voter).producers.names, (s.producer n).ext.isSome) :
      Effect s (.subvote voter votes)
        { s.addVotesList (s.voter voter).producers.names (-votes.amount) with
          voters := s.voters.set { s.voter voter with
            votes := ⟨(s.voter voter).votes.amount - votes.amount, voteSymbol⟩
            lastUnvotedTime := slot }
          voteRefunds := s.voteRefunds.set { owner := voter, requestTime := time, votes } }
        [.rewardSubvote voter votes]
  | vote {voter : Name} {producers : NameList} (slot : Slot)
      (nonneg : 0 ≤ (s.voter voter).votes.amount)
      (ext : ∀ n ∈ (s.voter voter).producers.names ++ producers.names, (s.producer n).ext.isSome) :
      Effect s (.vote voter producers.names)
        { (s.addVotesList (s.voter voter).producers.names (-(s.voter voter).votes.amount)).addVotesList
            producers.names (s.voter voter).votes.amount with
          voters := s.voters.set { (s.voter voter).withVoteSymbol with
            producers, lastUnvotedTime := slot } }
        [.rewardVoteproducer voter producers.names]
  | refundvote {refund : VoteRefund} {q : Asset}
      (found : s.voteRefunds.find? refund.owner = some refund)
      (staked : voteToCoreAsset s refund.votes = .ok q) :
      Effect s (.refundvote refund.owner)
        { s with voteRefunds := s.voteRefunds.erase refund.owner }
        [.transfer voteAccount refund.owner q "refundvote"]
  | claimrewards {submitter : Name} {prod : ProducerInfo} {sent : List Inline} (time : TimePoint)
      (found : s.producers.find? prod.owner = some prod)
      (pos : 0 < prod.unclaimedRewards.amount)
      (issued_eq : issued sent = prod.unclaimedRewards.amount)
      (silent : ∀ i ∈ sent, i.isVote = false) :
      Effect s (.claimrewards submitter prod.owner)
        (s.setProducer { prod with
          unclaimedRewards := { prod.unclaimedRewards with amount := 0 }
          lastClaimedTime := time }) sent
  | undoreward {rewards : Asset} {prod : ProducerInfo} (time : TimePoint)
      (found : s.producers.find? prod.owner = some prod) (pos : 0 < rewards.amount)
      (le : rewards.amount ≤ prod.unclaimedRewards.amount) :
      Effect s (.undoreward prod.owner rewards)
        (s.setProducer { prod with
          unclaimedRewards :=
            ⟨prod.unclaimedRewards.amount - rewards.amount, prod.unclaimedRewards.symbol⟩
          lastClaimedTime := time }) []

/-- An action that leads from `s` to `s'` has one of the effects. -/
def HasEffect (s : System) (a : Action) (s' : System) (sent : List Inline) : Prop :=
  ∃ s₁, Effect s a s₁ sent ∧ s'.outside = s₁.outside

-- ---------------------------------------------------------------------------
-- Producers
-- ---------------------------------------------------------------------------

section Actions

variable {env : Env} {s s' : System} {sent : List Inline} {a : Action}

theorem registerProducer_effect {producer : Name} {authority : BlockSigningAuthority}
    {ratio : Option ℕ} (ha : a.registered = some producer) (quiet : a.undone = 0)
    (h : registerProducer env s producer authority ratio = .ok (s', sent)) :
    HasEffect s a s' sent := by
  simp only [registerProducer, Except.bind_ok_iff, check_ok_iff, exists_const] at h
  obtain ⟨-, coreSym, -, h⟩ := h
  have hsends : ∀ row : ProducerInfo, row.owner = producer →
      (if env.rewardRegistered producer then [] else [Inline.rewardRegproducer producer]) = [] ∨
      (if env.rewardRegistered producer then [] else [Inline.rewardRegproducer producer]) =
        [.rewardRegproducer row.owner] := by
    rintro row rfl
    split_ifs <;> simp
  cases hp : s.producers.find? producer with
  | some prod =>
    have howner : prod.owner = producer := Table.key_of_find? hp
    have hrow : s.producer prod.owner = prod := by rw [howner]; exact System.producer_of_find? hp
    simp only [hp] at h
    have heffect : Effect s a (s.setProducer (prod.reregister env.now authority ratio))
        (if env.rewardRegistered producer then [] else [.rewardRegproducer producer]) := by
      refine .register quiet (ha.trans (congrArg some howner.symm)) ⟨?_, ?_⟩ rfl (hsends _ howner)
      · rw [show (prod.reregister env.now authority ratio).owner = prod.owner from rfl, hrow]
        cases he : prod.ext <;> simp [ProducerInfo.getElectedVotes, ProducerInfo.reregister, he]
      · rw [show (prod.reregister env.now authority ratio).owner = prod.owner from rfl, hrow]
        rfl
    by_cases hbbp : s.electGstate.isBbpEnabled
    · simp only [hbbp, if_true, Except.bind_ok_iff, Except.pure_ok_iff, Prod.mk.injEq,
        Prod.exists] at h
      obtain ⟨g, changes, hg, s₁, hs, rfl, rfl⟩ := h
      refine ⟨_, heffect, ?_⟩
      rw [saveProducerChanges_outside hs]
      simp only [System.outside, processElectedProducer_outside hg]
      rfl
    · simp only [hbbp, Bool.false_eq_true, if_false, Except.pure_ok_iff, Prod.mk.injEq] at h
      obtain ⟨rfl, rfl⟩ := h
      exact ⟨_, heffect, rfl⟩
  | none =>
    simp only [hp, payRow, Except.bind_ok_iff, check_ok_iff, exists_const, Asset.make_ok_iff,
      Except.pure_ok_iff, Prod.mk.injEq] at h
    obtain ⟨-, _, ⟨-, -, rfl⟩, rfl, rfl⟩ := h
    refine ⟨s.setProducer _, .register quiet ha ⟨?_, ?_⟩ rfl (hsends _ rfl), rfl⟩
    · rw [System.producer_of_none hp]
      rfl
    · rw [System.producer_of_none hp]
      rfl

theorem regproducer_effect {producer : Name} {key : PublicKey} {url : String} {ratio : Option ℕ}
    (h : regproducer env s producer key url ratio = .ok (s', sent)) :
    HasEffect s (.regproducer producer key url ratio) s' sent := by
  simp only [regproducer, Except.bind_ok_iff, check_ok_iff, exists_const] at h
  exact registerProducer_effect rfl rfl h.2.2

theorem regproducer2_effect {producer : Name} {authority : BlockSigningAuthority} {url : String}
    {ratio : Option ℕ} (h : regproducer2 env s producer authority url ratio = .ok (s', sent)) :
    HasEffect s (.regproducer2 producer authority url ratio) s' sent := by
  simp only [regproducer2, Except.bind_ok_iff, check_ok_iff, exists_const] at h
  exact registerProducer_effect rfl rfl h.2.2.2

theorem setvoteshare_effect {producer : Name} {ratio : ℕ} (quiet : a.undone = 0)
    (h : setvoteshare env s producer ratio = .ok (s', sent)) : HasEffect s a s' sent := by
  simp only [setvoteshare, Except.bind_ok_iff, check_ok_iff, exists_const] at h
  replace h := h.2.2
  cases hp : s.producers.find? producer with
  | none => simp [hp] at h
  | some prod =>
    cases hext : prod.ext with
    | none => simp [hp, hext] at h
    | some ext =>
      simp only [hp, hext, Except.pure_ok_iff, Prod.mk.injEq] at h
      obtain ⟨rfl, rfl⟩ := h
      have hrow : s.producer prod.owner = prod := by
        rw [Table.key_of_find? hp]
        exact System.producer_of_find? hp
      refine ⟨_, .revise quiet ⟨?_, ?_⟩ ?_, rfl⟩ <;>
        simp [ProducerInfo.getElectedVotes, hrow, hext]

theorem deactivateProducer_effect {producer : Name} (quiet : a.undone = 0)
    (h : deactivateProducer s producer = .ok (s', sent)) : HasEffect s a s' sent := by
  unfold deactivateProducer at h
  cases hp : s.producers.find? producer with
  | none => simp [hp] at h
  | some prod =>
    simp only [hp, Except.ok.injEq, Prod.mk.injEq] at h
    obtain ⟨rfl, rfl⟩ := h
    have hrow : s.producer prod.owner = prod := by
      rw [Table.key_of_find? hp]
      exact System.producer_of_find? hp
    refine ⟨s.setProducer prod.deactivate, .revise quiet ⟨?_, ?_⟩ ?_, rfl⟩ <;>
      simp [ProducerInfo.deactivate, ProducerInfo.getElectedVotes, hrow]

-- ---------------------------------------------------------------------------
-- Settings
-- ---------------------------------------------------------------------------

theorem upgradevote_effect (h : upgradevote env s = .ok (s', sent)) :
    HasEffect s .upgradevote s' sent := by
  simp only [upgradevote, requireAdmin, Except.bind_ok_iff, check_ok_iff, exists_const,
    Except.pure_ok_iff, Prod.mk.injEq] at h
  obtain ⟨-, rfl, rfl⟩ := h
  refine ⟨{ s with
    gstate := s.gstate, electGstate := { s.electGstate with electedVersion := 1 } },
    .settings rfl rfl rfl rfl (fun _ => rfl), ?_⟩
  exact (updateElectedProducers_outside env { s with
    electGstate := { s.electGstate with electedVersion := 1 } } :)

theorem setmprodvote_effect {votes : Asset} (h : setmprodvote env s votes = .ok (s', sent)) :
    HasEffect s (.setmprodvote votes) s' sent := by
  simp only [setmprodvote, requireAdmin, Except.bind_ok_iff, check_ok_iff, exists_const,
    Except.pure_ok_iff, Prod.mk.injEq] at h
  obtain ⟨-, -, -, -, rfl, rfl⟩ := h
  exact ⟨{ s with
    gstate := s.gstate
    electGstate := { s.electGstate with minProducerVotes := votes.amount } },
    .settings rfl rfl rfl rfl id, rfl⟩

theorem initbbpelect_effect {count : ℕ} (h : initbbpelect env s count = .ok (s', sent)) :
    HasEffect s (.initbbpelect count) s' sent := by
  simp only [initbbpelect, requireAdmin, Except.bind_ok_iff, check_ok_iff, exists_const] at h
  obtain ⟨-, -, s₁, h₁, h⟩ := h
  have hout : s₁.outside = ({ s with electGstate := { s.electGstate with
      electedVersion := electedVersionBbpEnabled, maxBackupProducerCount := count } } :
      System).outside := by
    split_ifs at h₁ with hre
    · exact startElection_outside h₁
    · rw [← Except.ok.inj h₁]
  have heffect : ∀ gs, Effect s (.initbbpelect count) { s with
      gstate := gs
      electGstate := { s.electGstate with
        electedVersion := electedVersionBbpEnabled, maxBackupProducerCount := count } } [] :=
    fun gs => .settings rfl rfl rfl rfl (fun _ => rfl)
  split_ifs at h with hthresh
  · simp only [Except.pure_ok_iff, Prod.mk.injEq] at h
    obtain ⟨rfl, rfl⟩ := h
    refine ⟨_, heffect { s.gstate with threshActivatedStakeTime := env.now }, ?_⟩
    exact (congrArg (fun r : System => { r with
      gstate := { r.gstate with threshActivatedStakeTime := env.now } }) hout :)
  · simp only [Except.pure_ok_iff, Prod.mk.injEq] at h
    obtain ⟨rfl, rfl⟩ := h
    exact ⟨_, heffect s.gstate, hout⟩

theorem cfgcontrib_effect {contribution : ℕ} (h : cfgcontrib env s contribution = .ok (s', sent)) :
    HasEffect s (.cfgcontrib contribution) s' sent := by
  simp only [cfgcontrib, requireAuth, Except.bind_ok_iff, check_ok_iff, exists_const,
    Except.pure_ok_iff, Prod.mk.injEq] at h
  obtain ⟨-, -, rfl, rfl⟩ := h
  exact ⟨{ s with
    gstate := s.gstate
    electGstate := { s.electGstate with minBackupRewardContribution := contribution } },
    .settings rfl rfl rfl rfl id, rfl⟩

theorem startedRewards_ok {info : ProducerRewardInfo} {symbol : Symbol} {produced : Asset}
    (h : info.startedRewards symbol = .ok produced) :
    (info.producedRewards.isValid → produced = info.producedRewards) ∧
      (¬info.producedRewards.isValid → produced.amount = 0) ∧ produced.symbol.isValid := by
  unfold ProducerRewardInfo.startedRewards at h
  split_ifs at h with hvalid
  · obtain rfl := Except.ok.inj h
    refine ⟨fun _ => rfl, fun hn => absurd hvalid hn, ?_⟩
    simp only [Asset.isValid, Bool.and_eq_true] at hvalid
    exact hvalid.2
  · obtain ⟨-, hs, rfl⟩ := Asset.make_ok_iff.mp h
    exact ⟨fun hv => absurd hv hvalid, fun _ => rfl, hs⟩

/-- `update_reward_info` starts the stream, or goes on with it. -/
theorem updateRewardInfo_ok {old new : ProducerRewardInfo} {total : Asset} {perBlock : Asset}
    (h : updateRewardInfo old total perBlock = .ok new) : Reconfigured total.amount old new := by
  simp only [updateRewardInfo, Except.bind_ok_iff, check_ok_iff, Asset.le_ok_iff,
    Except.pure_ok_iff] at h
  obtain ⟨produced, hp, le, ⟨_, hle⟩, -, hcheck, rfl⟩ := h
  obtain ⟨hkept, hstarted, hsymbol⟩ := startedRewards_ok hp
  refine ⟨hkept, hstarted, hsymbol, ?_, .inr rfl⟩
  rw [hcheck, decide_eq_true_eq] at hle
  exact hle

theorem cfgreward_effect {start stop : TimePoint} {main backup : Asset}
    (h : cfgreward env s start stop main backup = .ok (s', sent)) :
    HasEffect s (.cfgreward start stop main backup) s' sent := by
  simp only [cfgreward, requireAuth, Except.bind_ok_iff, check_ok_iff, exists_const,
    Asset.make_ok_iff, Except.pure_ok_iff, Prod.mk.injEq] at h
  obtain ⟨-, -, core, -, -, -, -, -, -, -, total, ⟨-, -, rfl⟩, mainInfo, hmain, total', ⟨-, -, rfl⟩,
    backupInfo, hbackup, rfl, rfl⟩ := h
  exact ⟨_, .configure rfl (.inr (updateRewardInfo_ok hmain)) (updateRewardInfo_ok hbackup), rfl⟩

theorem cfgbbpreward_effect {backup : Asset} (h : cfgbbpreward env s backup = .ok (s', sent)) :
    HasEffect s (.cfgbbpreward backup) s' sent := by
  simp only [cfgbbpreward, requireAdmin, Except.bind_ok_iff, check_ok_iff, exists_const,
    Asset.sub_ok_iff, Except.pure_ok_iff, Prod.mk.injEq] at h
  obtain ⟨-, core, -, -, -, produced, hp, remaining, ⟨-, -, rfl⟩, hpos, lt, -, -, rfl, rfl⟩ := h
  obtain ⟨hkept, hstarted, hsymbol⟩ := startedRewards_ok hp
  have hle : produced.amount ≤ s.electGstate.backupRewardInfo.totalRewards.amount := by
    simp only at hpos
    omega
  refine ⟨{ s with
    gstate := s.gstate
    electGstate := { s.electGstate with
      mainRewardInfo := s.electGstate.mainRewardInfo
      backupRewardInfo := { s.electGstate.backupRewardInfo with
        rewardsPerBlock := backup, producedRewards := produced } } }, ?_, rfl⟩
  exact .configure rfl (.inl rfl) ⟨hkept, hstarted, hsymbol, hle, .inl rfl⟩

theorem onblock_effect {bh : BlockHeader} (h : onblock env s bh = .ok (s', sent)) :
    HasEffect s (.onblock bh) s' sent := by
  simp only [onblock, requireAuth, Except.bind_ok_iff, check_ok_iff, exists_const] at h
  replace h := h.2
  split_ifs at h with hidle
  · simp only [Except.pure_ok_iff, Prod.mk.injEq] at h
    obtain ⟨rfl, rfl⟩ := h
    exact ⟨_, .keep rfl, rfl⟩
  · simp only [Except.bind_ok_iff, Except.pure_ok_iff, Prod.mk.injEq] at h
    obtain ⟨s₁, h₁, s₂, h₂, rfl, rfl⟩ := h
    exact ⟨s₁, .block h₁, updateSchedule_outside h₂⟩

-- ---------------------------------------------------------------------------
-- Blocks
-- ---------------------------------------------------------------------------

/-- A stream gets the rate of a new halving period, or keeps its own. -/
def NewRate (old new : ProducerRewardInfo) : Prop :=
  new = old ∨ old.producedRewards.symbol.isValid ∧ ∃ rate, new = { old with rewardsPerBlock := rate }

/-- One block is paid to `prod` out of a stream that still holds it. -/
structure Payable (s : System) (info : ProducerRewardInfo) (prod : ProducerInfo) : Prop where
  found : s.producers.find? prod.owner = some prod
  pos : 0 < info.rewardsPerBlock.amount
  le : info.producedRewards.amount + info.rewardsPerBlock.amount ≤ info.totalRewards.amount

/-- The stream after one block. -/
def ProducerRewardInfo.paid (info : ProducerRewardInfo) : ProducerRewardInfo :=
  { info with producedRewards :=
      ⟨info.producedRewards.amount + info.rewardsPerBlock.amount, info.producedRewards.symbol⟩ }

/-- The producer after one block. -/
def ProducerInfo.paid (prod : ProducerInfo) (rate : Asset) : ProducerInfo :=
  { prod with unclaimedRewards :=
      ⟨prod.unclaimedRewards.amount + rate.amount, prod.unclaimedRewards.symbol⟩ }

/-- One step of the production of rewards. -/
inductive BlockStep (s : System) : System → Prop
  | rates {period : ℤ} {main backup : ProducerRewardInfo}
      (main_ok : NewRate s.electGstate.mainRewardInfo main)
      (backup_ok : NewRate s.electGstate.backupRewardInfo backup) :
      BlockStep s { s with electGstate := { s.electGstate with
        halvingPeriodNum := period, mainRewardInfo := main, backupRewardInfo := backup } }
  | main {prod : ProducerInfo} (payable : Payable s s.electGstate.mainRewardInfo prod) :
      BlockStep s { s.setProducer (prod.paid s.electGstate.mainRewardInfo.rewardsPerBlock) with
        electGstate := { s.electGstate with mainRewardInfo := s.electGstate.mainRewardInfo.paid } }
  | backup {prod : ProducerInfo} (payable : Payable s s.electGstate.backupRewardInfo prod) :
      BlockStep s { s.setProducer (prod.paid s.electGstate.backupRewardInfo.rewardsPerBlock) with
        electGstate := { s.electGstate with
          backupRewardInfo := s.electGstate.backupRewardInfo.paid } }

theorem calcHalvingRewardsPerBlock_ok {info : ProducerRewardInfo} {rate : Asset}
    (h : calcHalvingRewardsPerBlock info = .ok rate) :
    NewRate info { info with rewardsPerBlock := rate } := by
  simp only [calcHalvingRewardsPerBlock, Except.bind_ok_iff, check_ok_iff, Asset.le_ok_iff,
    Asset.make_ok_iff] at h
  obtain ⟨le, ⟨hsym, -⟩, -, -, -, hvalid, -⟩ := h
  exact .inr ⟨hsym ▸ hvalid, rate, rfl⟩

theorem halve_ok {g : ElectGlobalState} (h : halve env s = .ok g) :
    BlockStep s { s with electGstate := g } := by
  have hkeep : BlockStep s { s with electGstate := s.electGstate } := .rates (.inl rfl) (.inl rfl)
  unfold halve at h
  dsimp only at h
  split_ifs at h with hphase hperiod hbbp
  · simp only [Except.bind_ok_iff, check_ok_iff, exists_const, Except.pure_ok_iff] at h
    obtain ⟨-, mainRate, hmain, backupRate, hbackup, rfl⟩ := h
    exact .rates (calcHalvingRewardsPerBlock_ok hmain) (calcHalvingRewardsPerBlock_ok hbackup)
  · simp only [Except.bind_ok_iff, check_ok_iff, exists_const, Except.pure_ok_iff,
      Except.ok.injEq] at h
    obtain ⟨-, mainRate, hmain, _, rfl, rfl⟩ := h
    exact .rates (calcHalvingRewardsPerBlock_ok hmain) (.inl rfl)
  · simp only [Except.bind_ok_iff, check_ok_iff, exists_const, Except.pure_ok_iff] at h
    obtain ⟨-, rfl⟩ := h
    exact hkeep
  · obtain rfl := Except.pure_ok_iff.mp h
    exact hkeep

theorem incProducerRewards_ok {producers : Table ProducerInfo.owner} {info info' : ProducerRewardInfo}
    {n : Name} (h : incProducerRewards s.producers info n = .ok (producers, info')) :
    (producers = s.producers ∧ info' = info) ∨ ∃ prod, Payable s info prod ∧
      producers = s.producers.set (prod.paid info.rewardsPerBlock) ∧ info' = info.paid := by
  unfold incProducerRewards at h
  split_ifs at h with hrate
  · obtain ⟨rfl, rfl⟩ := Prod.mk.inj (Except.pure_ok_iff.mp h)
    exact .inl ⟨rfl, rfl⟩
  · cases hp : s.producers.find? n with
    | none =>
      simp only [hp, Except.pure_ok_iff, Prod.mk.injEq] at h
      exact .inl ⟨h.1.symm, h.2.symm⟩
    | some prod =>
      simp only [hp, Except.bind_ok_iff, Asset.add_ok_iff, Asset.lt_ok_iff] at h
      obtain ⟨_, ⟨-, -, rfl⟩, lt, ⟨-, hlt⟩, h⟩ := h
      split_ifs at h with hover
      · obtain ⟨rfl, rfl⟩ := Prod.mk.inj (Except.pure_ok_iff.mp h)
        exact .inl ⟨rfl, rfl⟩
      · simp only [Except.bind_ok_iff, Except.pure_ok_iff, Prod.mk.injEq, Asset.add_ok_iff] at h
        obtain ⟨_, ⟨-, -, rfl⟩, rfl, rfl⟩ := h
        refine .inr ⟨prod, ⟨?_, not_le.mp hrate, ?_⟩, rfl, rfl⟩
        · rw [Table.key_of_find? hp]
          exact hp
        · rw [← hlt, decide_eq_true_eq, not_lt] at hover
          exact hover

/-- The rewards of a block are produced in steps. -/
theorem produceRewards_steps {bh : BlockHeader} (h : produceRewards env s bh = .ok s') :
    Relation.ReflTransGen BlockStep s s' := by
  unfold produceRewards at h
  split_ifs at h with hphase
  · simp only [Except.bind_ok_iff, Prod.exists] at h
    obtain ⟨g, hg, producers, main, hmain, h⟩ := h
    have hhalved := Relation.ReflTransGen.single (halve_ok hg)
    have hpaid : Relation.ReflTransGen BlockStep s { s with
        producers, electGstate := { g with mainRewardInfo := main } } := by
      rcases incProducerRewards_ok (s := { s with electGstate := g }) hmain with
        ⟨rfl, rfl⟩ | ⟨prod, hprod, rfl, rfl⟩
      · exact hhalved
      · exact hhalved.tail (.main hprod)
    split_ifs at h with hbbp
    · cases hprev : bh.backupExtension.previousBackup with
      | none =>
        simp only [hprev, Except.pure_ok_iff] at h
        exact h ▸ hpaid
      | some previous =>
        simp only [hprev] at h
        split_ifs at h with hcontrib
        · simp only [Except.bind_ok_iff, Except.pure_ok_iff, Prod.exists] at h
          obtain ⟨producers', backup, hbackup, rfl⟩ := h
          rcases incProducerRewards_ok (s := { s with
              producers, electGstate := { g with mainRewardInfo := main } }) hbackup with
            ⟨rfl, rfl⟩ | ⟨prod, hprod, rfl, rfl⟩
          · exact hpaid
          · exact hpaid.tail (.backup hprod)
        · obtain rfl := Except.pure_ok_iff.mp h
          exact hpaid
    · obtain rfl := Except.pure_ok_iff.mp h
      exact hpaid
  · obtain rfl := Except.pure_ok_iff.mp h
    exact .refl

/-- What every step keeps, the production of rewards keeps. -/
theorem produceRewards_preserves {P : System → Prop} {bh : BlockHeader}
    (h : produceRewards env s bh = .ok s') (hs : P s)
    (hstep : ∀ s₁ s₂, P s₁ → BlockStep s₁ s₂ → P s₂) : P s' := by
  have hsteps := produceRewards_steps h
  clear h
  induction hsteps with
  | refl => exact hs
  | tail _ hlast ih => exact hstep _ _ ih hlast

-- ---------------------------------------------------------------------------
-- Voters
-- ---------------------------------------------------------------------------

/-- `update_vote_weight_old` writes the row of the voter with the new producers. -/
theorem updateVoteWeightOld_ok {voterName : Name} {producers : List Name} {voting : Bool}
    (h : updateVoteWeightOld env s voterName producers voting = .ok s') :
    ∃ gs v, s' = { s with gstate := gs, voters := s.voters.set v } ∧ v.owner = voterName ∧
      v.producers.names = producers ∧ VoterRevision s v := by
  simp only [updateVoteWeightOld, Except.bind_ok_iff, check_ok_iff, exists_const] at h
  obtain ⟨-, list, hlist, h⟩ := h
  have hnames : list.names = producers := by
    unfold sortedNames at hlist
    split_ifs at hlist with hsorted
    rw [← Except.ok.inj hlist]
  cases hv : s.voters.find? voterName with
  | none => simp [hv] at h
  | some voter =>
    simp only [hv, Except.bind_ok_iff, Except.pure_ok_iff] at h
    obtain ⟨-, -, rfl⟩ := h
    have howner : voter.owner = voterName := Table.key_of_find? hv
    refine ⟨_, _, rfl, ?_, ?_, ?_⟩
    · rw [VoterInfo.withVoteSymbol_owner]
      exact howner
    · rw [VoterInfo.withVoteSymbol_producers]
      exact hnames
    · refine .inr ?_
      have hrow : s.voter voter.owner = voter := by rw [howner]; exact System.voter_of_find? hv
      simp only [VoterInfo.withVoteSymbol_owner, hrow]
      unfold VoterInfo.withVoteSymbol
      split_ifs <;> rfl

theorem voteproducer_effect {voter proxy : Name} {producers : List Name}
    (h : voteproducer env s voter proxy producers = .ok (s', sent)) :
    HasEffect s (.voteproducer voter proxy producers) s' sent := by
  simp only [voteproducer, requireAuth, Except.bind_ok_iff, check_ok_iff, exists_const,
    Except.pure_ok_iff, Prod.mk.injEq] at h
  obtain ⟨-, hinit, -, s₁, h₁, rfl, rfl⟩ := h
  obtain ⟨gs, v, rfl, rfl, rfl, hv⟩ := updateVoteWeightOld_ok h₁
  exact ⟨_, .voteproducer (by simpa using hinit) hv, rfl⟩

/-- `update_voting_power` keeps the votes and the producers of the voter. -/
theorem updateVotingPower_effect {voter : Name} {totalUpdate : ℤ} (quiet : a.undone = 0)
    (h : updateVotingPower env s voter totalUpdate = .ok s') : HasEffect s a s' [] := by
  simp only [updateVotingPower, Except.bind_ok_iff, check_ok_iff, exists_const] at h
  obtain ⟨v, hv, -, h⟩ := h
  have hrow : v.owner = voter ∧ v.producers = (s.voter voter).producers ∧
      v.votes = (s.voter voter).votes := by
    unfold stakedVoter at hv
    cases hf : s.voters.find? voter with
    | none =>
      simp only [hf, payRow, Except.bind_ok_iff, check_ok_iff, exists_const,
        Except.pure_ok_iff] at hv
      obtain ⟨-, rfl⟩ := hv
      rw [System.voter_of_none hf]
      exact ⟨rfl, rfl, rfl⟩
    | some w =>
      simp only [hf, Except.ok.injEq] at hv
      subst hv
      rw [System.voter_of_find? hf]
      exact ⟨(Table.key_of_find? hf :), rfl, rfl⟩
  obtain ⟨rfl, hproducers, hvotes⟩ := hrow
  split_ifs at h with hnames
  · obtain ⟨gs, w, rfl, howner, hlist, hrev⟩ := updateVoteWeightOld_ok h
    have hself : ({ s with voters := s.voters.set v } : System).voter v.owner = v := by
      simp [System.voter]
    refine ⟨{ s with gstate := gs, voters := s.voters.set w }, .voter quiet ?_ ?_, ?_⟩
    · rw [howner, ← hproducers]
      exact NameList.ext hlist
    · unfold VoterRevision at hrev ⊢
      rw [howner, hself, hvotes] at hrev
      rw [howner]
      refine hrev.imp id fun hw => hw.trans ?_
      unfold VoterInfo.withVoteSymbol
      rw [hvotes]
      split_ifs <;> simp [hvotes]
    · simp only [System.outside, Table.set_set _ howner.symm]
  · simp only [Except.pure_ok_iff] at h
    subst h
    exact ⟨{ s with gstate := s.gstate, voters := s.voters.set v },
      .voter quiet hproducers (.inl hvotes), rfl⟩

theorem changebw_effect {sender receiver : Name} {net cpu : Asset} {transfer : Bool}
    (quiet : a.undone = 0)
    (h : changebw env s sender receiver net cpu transfer = .ok (s', sent)) :
    HasEffect s a s' sent := by
  simp only [changebw, Except.bind_ok_iff, check_ok_iff, exists_const, Except.pure_ok_iff,
    Prod.mk.injEq] at h
  obtain ⟨-, -, total, -, -, -, s₁, h₁, rfl, rfl⟩ := h
  exact updateVotingPower_effect quiet h₁

theorem delegatebw_effect {sender receiver : Name} {net cpu : Asset} {transfer : Bool}
    (h : delegatebw env s sender receiver net cpu transfer = .ok (s', sent)) :
    HasEffect s (.delegatebw sender receiver net cpu transfer) s' sent := by
  simp only [delegatebw, Except.bind_ok_iff, check_ok_iff, exists_const] at h
  obtain ⟨core, -, zero, -, b₁, -, -, b₂, -, -, -, -, h⟩ := h
  exact changebw_effect rfl h

theorem undelegatebw_effect {sender receiver : Name} {net cpu : Asset}
    (h : undelegatebw env s sender receiver net cpu = .ok (s', sent)) :
    HasEffect s (.undelegatebw sender receiver net cpu) s' sent := by
  simp only [undelegatebw, Except.bind_ok_iff, check_ok_iff, exists_const] at h
  obtain ⟨-, core, -, zero, -, b₁, -, -, b₂, -, -, -, -, h⟩ := h
  exact changebw_effect rfl h

private theorem setManaged_rows (r : ManagedResource) (v : VoterInfo) (b : Bool) :
    (r.setManaged v b).owner = v.owner ∧ (r.setManaged v b).producers = v.producers ∧
      (r.setManaged v b).votes = v.votes := by
  cases r <;> exact ⟨rfl, rfl, rfl⟩

theorem setAccountResource_effect {r : ManagedResource} {account : Name} {limit : Option ℤ}
    (quiet : a.undone = 0) (h : setAccountResource r env s account limit = .ok (s', sent)) :
    HasEffect s a s' sent := by
  simp only [setAccountResource, requireAuth, Except.bind_ok_iff, check_ok_iff, exists_const] at h
  replace h := h.2
  have heffect : ∀ v b, v = s.voter account →
      HasEffect s a { s with voters := s.voters.set (r.setManaged v b) } [] := by
    rintro v b rfl
    obtain ⟨ho, hp, hv⟩ := setManaged_rows r (s.voter account) b
    rw [System.voter_owner] at ho
    refine ⟨{ s with gstate := s.gstate, voters := s.voters.set _ },
      .voter quiet ?_ (.inl ?_), rfl⟩
    · rw [ho, hp]
    · rw [ho, hv]
  cases hf : s.voters.find? account with
  | none =>
    have hrow := (System.voter_of_none hf).symm
    cases limit with
    | none => simp [hf] at h
    | some x =>
      simp only [hf, payRow, Except.bind_ok_iff, check_ok_iff, exists_const, Except.pure_ok_iff,
        Prod.mk.injEq] at h
      obtain ⟨-, -, rfl, rfl⟩ := h
      exact heffect _ _ hrow
  | some v =>
    have hrow := (System.voter_of_find? hf).symm
    cases limit with
    | none =>
      simp only [hf, Except.bind_ok_iff, check_ok_iff, exists_const, Except.pure_ok_iff,
        Prod.mk.injEq] at h
      obtain ⟨-, rfl, rfl⟩ := h
      exact heffect _ _ hrow
    | some x =>
      simp only [hf, Except.bind_ok_iff, check_ok_iff, exists_const, Except.pure_ok_iff,
        Prod.mk.injEq] at h
      obtain ⟨-, rfl, rfl⟩ := h
      exact heffect _ _ hrow

-- ---------------------------------------------------------------------------
-- Votes
-- ---------------------------------------------------------------------------

/-- A voter's row written after its votes were moved. -/
private theorem setVoter_outside {s₁ t : System} {v : VoterInfo} (h : s₁.outside = t.outside)
    (ht : t.voters = s.voters) :
    ({ s₁ with voters := s₁.voters.set v } : System).outside =
      ({ t with voters := s.voters.set v } : System).outside := by
  rw [← ht]
  exact (congrArg (fun r : System => { r with voters := r.voters.set v }) h :)

theorem addvote_effect {voter : Name} {votes : Asset}
    (h : addvote env s voter votes = .ok (s', sent)) :
    HasEffect s (.addvote voter votes) s' sent := by
  simp only [addvote, requireAuth, Except.bind_ok_iff, check_ok_iff, exists_const] at h
  obtain ⟨-, hsym, hpos, q, hq, h⟩ := h
  cases hv : s.voters.find? voter with
  | none =>
    simp only [hv, payRow, Except.bind_ok_iff, check_ok_iff, exists_const, Except.pure_ok_iff,
      Prod.mk.injEq] at h
    obtain ⟨-, rfl, rfl⟩ := h
    have hrow := System.voter_of_none hv
    refine ⟨_, .addvote hsym hpos hq ?_, ?_⟩
    · rw [hrow]
      exact fun n hn => absurd hn List.not_mem_nil
    · rw [hrow, show ({ owner := voter } : VoterInfo).withVoteSymbol = { owner := voter } from rfl]
      have hvotes : (⟨0 + votes.amount, voteSymbol⟩ : Asset) = votes := by rw [zero_add, ← hsym]
      simp only [hvotes]
      rfl
  | some v =>
    simp only [hv, Except.bind_ok_iff, Asset.add_ok_iff, Except.pure_ok_iff, Prod.mk.injEq] at h
    obtain ⟨s₁, h₁, _, ⟨-, -, rfl⟩, rfl, rfl⟩ := h
    have hrow := System.voter_of_find? hv
    have hmove : (∀ n ∈ v.producers.names, (s.producer n).ext.isSome) ∧
        s₁.outside = (s.addVotesList v.producers.names votes.amount).outside := by
      split_ifs at h₁ with hnames
      · obtain ⟨hext, hout⟩ := moveElectedVotes_ok h₁
        exact ⟨hext _ List.mem_cons_self, hout⟩
      · rw [not_not.mp hnames, ← Except.ok.inj h₁]
        exact ⟨fun n hn => absurd hn List.not_mem_nil, rfl⟩
    refine ⟨_, .addvote hsym hpos hq (hrow ▸ hmove.1), ?_⟩
    rw [hrow, VoterInfo.withVoteSymbol_symbol]
    exact setVoter_outside hmove.2 (System.addVotesList_voters _ _ _)

theorem subvote_effect {voter : Name} {votes : Asset}
    (h : subvote env s voter votes = .ok (s', sent)) :
    HasEffect s (.subvote voter votes) s' sent := by
  simp only [subvote, requireAuth, Except.bind_ok_iff, check_ok_iff, exists_const] at h
  obtain ⟨-, -, hsym, hpos, h⟩ := h
  cases hv : s.voters.find? voter with
  | none => simp [hv] at h
  | some v =>
    simp only [hv, payRow, Except.bind_ok_iff, check_ok_iff, exists_const, Asset.le_ok_iff,
      Asset.add_ok_iff, Except.pure_ok_iff, Prod.mk.injEq] at h
    obtain ⟨le, ⟨hvsym, hle⟩, hcheck, -, hnone, s₁, h₁, _, ⟨-, -, rfl⟩, -, rfl, rfl⟩ := h
    have hrow := System.voter_of_find? hv
    rw [hcheck, decide_eq_true_eq] at hle
    have hv' : v.withVoteSymbol = v := by
      unfold VoterInfo.withVoteSymbol
      rw [if_neg (not_not.mpr (hvsym.symm.trans hsym))]
    obtain ⟨hext, hout⟩ := moveElectedVotes_ok h₁
    refine ⟨_, .subvote (TimePoint.toSlot env.now) (TimePoint.secSinceEpoch env.now) hsym hpos
      ?_ ?_ (by simpa using hnone) ?_, ?_⟩
    · rw [hrow, ← hvsym, hsym]
    · rw [hrow]
      exact hle
    · rw [hrow]
      exact hext _ List.mem_cons_self
    · rw [hrow, hv', ← hvsym, hsym]
      have hrest := (congrArg (fun r : System => { r with
        voters := r.voters.set { v with
          votes := ⟨v.votes.amount - votes.amount, voteSymbol⟩
          lastUnvotedTime := TimePoint.toSlot env.now }
        voteRefunds := r.voteRefunds.set
          { owner := voter, requestTime := TimePoint.secSinceEpoch env.now, votes } }) hout :)
      refine hrest.trans ?_
      have hvoters := s.addVotesList_voters v.producers.names (-votes.amount)
      have hrefunds := s.addVotesList_voteRefunds v.producers.names (-votes.amount)
      rw [← hvoters, ← hrefunds]
      rfl

theorem vote_effect {voter : Name} {producers : List Name}
    (h : vote env s voter producers = .ok (s', sent)) :
    HasEffect s (.vote voter producers) s' sent := by
  simp only [vote, requireAuth, Except.bind_ok_iff, check_ok_iff, exists_const] at h
  obtain ⟨-, -, list, hlist, h⟩ := h
  have hnames : list.names = producers := by
    unfold sortedNames at hlist
    split_ifs at hlist with hsorted
    rw [← Except.ok.inj hlist]
  subst hnames
  cases hv : s.voters.find? voter with
  | none => simp [hv] at h
  | some v =>
    simp only [hv, Except.bind_ok_iff, check_ok_iff, exists_const] at h
    obtain ⟨hnonneg, h⟩ := h
    have hrow := System.voter_of_find? hv
    split_ifs at h with hsame
    · simp only [Except.pure_ok_iff, Prod.mk.injEq] at h
      obtain ⟨rfl, rfl⟩ := h
      exact ⟨_, .keep rfl, rfl⟩
    · simp only [Except.bind_ok_iff, check_ok_iff, exists_const, Except.pure_ok_iff,
        Prod.mk.injEq, voteDiff_eq] at h
      obtain ⟨-, s₁, h₁, rfl, rfl⟩ := h
      obtain ⟨hext, hout⟩ := moveElectedVotes_ok h₁
      refine ⟨_, .vote (TimePoint.toSlot env.now) ?_ ?_, ?_⟩
      · rw [hrow]
        exact hnonneg
      · intro n hn
        rw [hrow] at hn
        rcases List.mem_append.mp hn with hn | hn
        · exact hext _ List.mem_cons_self n hn
        · exact hext (list.names, v.votes) (by simp) n hn
      · rw [hrow]
        refine setVoter_outside (hout.trans rfl) ?_
        rw [System.addVotesList_voters, System.addVotesList_voters]

/-- A refund of votes that is due is erased and sent, and nothing else happens. -/
theorem refundvote_ok {owner : Name} (h : refundvote env s owner = .ok (s', sent)) :
    ∃ refund q, s.voteRefunds.find? owner = some refund ∧ refund.owner = owner ∧
      seconds refund.requestTime + seconds refundDelaySec ≤ env.now ∧
      voteToCoreAsset s refund.votes = .ok q ∧
      s' = { s with voteRefunds := s.voteRefunds.erase owner } ∧
      sent = [.transfer voteAccount owner q "refundvote"] := by
  unfold refundvote at h
  cases hr : s.voteRefunds.find? owner with
  | none => simp [hr] at h
  | some refund =>
    simp only [hr, Except.bind_ok_iff, check_ok_iff, exists_const, Except.pure_ok_iff,
      Prod.mk.injEq] at h
    obtain ⟨hdue, q, hq, rfl, rfl⟩ := h
    obtain rfl : refund.owner = owner := Table.key_of_find? hr
    exact ⟨refund, q, rfl, rfl, hdue, hq, rfl, rfl⟩

theorem refundvote_effect {owner : Name} (h : refundvote env s owner = .ok (s', sent)) :
    HasEffect s (.refundvote owner) s' sent := by
  obtain ⟨refund, q, hr, rfl, -, hq, rfl, rfl⟩ := refundvote_ok h
  exact ⟨_, .refundvote hr hq, rfl⟩

-- ---------------------------------------------------------------------------
-- Claims
-- ---------------------------------------------------------------------------

/-- What is sent to share a claim issues nothing and moves no votes. -/
theorem sendShared_ok {prod : ProducerInfo} {amount : ℤ} {shared : List Inline}
    (h : sendShared env prod amount = .ok shared) :
    issued shared = 0 ∧ ∀ i ∈ shared, i.isVote = false := by
  unfold sendShared at h
  split_ifs at h with hshare hreg
  · simp only [Except.bind_ok_iff, Except.pure_ok_iff] at h
    obtain ⟨quant, -, rfl⟩ := h
    exact ⟨rfl, by simp [Inline.isVote]⟩
  · simp only [Except.bind_ok_iff, Except.pure_ok_iff] at h
    obtain ⟨quant, -, rfl⟩ := h
    exact ⟨rfl, by simp [Inline.isVote]⟩
  · obtain rfl := Except.ok.inj h
    exact ⟨rfl, nofun⟩

theorem claimrewards_effect {submitter owner : Name}
    (h : claimrewards env s submitter owner = .ok (s', sent)) :
    HasEffect s (.claimrewards submitter owner) s' sent := by
  simp only [claimrewards, requireAuth, Except.bind_ok_iff, check_ok_iff, exists_const] at h
  replace h := h.2
  cases hp : s.producers.find? owner with
  | none => simp [hp] at h
  | some prod =>
    cases hext : prod.ext with
    | none => simp [hp, hext, Except.bind_ok_iff] at h
    | some ext =>
      simp only [hp, hext, Except.bind_ok_iff, check_ok_iff, exists_const, Except.pure_ok_iff,
        Prod.mk.injEq] at h
      obtain ⟨-, -, hpos, -, -, share, -, -, shared, hshared, rfl, rfl⟩ := h
      obtain rfl : prod.owner = owner := Table.key_of_find? hp
      refine ⟨_, .claimrewards env.now hp hpos ?_ ?_, by rw [hext]; rfl⟩
      · have hzero := (sendShared_ok hshared).1
        simp only [issued, List.map_append, List.sum_append] at hzero ⊢
        simp [hzero]
      · intro i hi
        rcases List.mem_append.mp hi with hi | hi
        · simp only [List.mem_cons, List.not_mem_nil, or_false] at hi
          rcases hi with rfl | rfl <;> rfl
        · exact (sendShared_ok hshared).2 i hi

theorem undoreward_effect {owner : Name} {rewards : Asset}
    (h : undoreward env s owner rewards = .ok (s', sent)) :
    HasEffect s (.undoreward owner rewards) s' sent := by
  simp only [undoreward, requireAuth, Except.bind_ok_iff, check_ok_iff, exists_const] at h
  replace h := h.2
  cases hp : s.producers.find? owner with
  | none => simp [hp] at h
  | some prod =>
    simp only [hp, Except.bind_ok_iff, check_ok_iff, exists_const, Asset.le_ok_iff,
      Asset.sub_ok_iff, Except.pure_ok_iff, Prod.mk.injEq] at h
    obtain ⟨-, -, -, hpos, le, ⟨-, hle⟩, hcheck, _, ⟨-, -, rfl⟩, rfl, rfl⟩ := h
    rw [hcheck, decide_eq_true_eq] at hle
    obtain rfl : prod.owner = owner := Table.key_of_find? hp
    exact ⟨_, .undoreward env.now hp hpos hle, rfl⟩

-- ---------------------------------------------------------------------------
-- All actions
-- ---------------------------------------------------------------------------

/-- Every successful action has one of the effects. -/
theorem perform_effect (h : perform env s a = .ok (s', sent)) : HasEffect s a s' sent := by
  cases a with
  | regproducer p key url ratio => exact regproducer_effect h
  | regproducer2 p authority url ratio => exact regproducer2_effect h
  | setvoteshare p ratio => exact setvoteshare_effect rfl h
  | unregprod p =>
    simp only [perform, unregprod, requireAuth, Except.bind_ok_iff, check_ok_iff,
      exists_const] at h
    exact deactivateProducer_effect rfl h.2
  | rmvproducer p =>
    simp only [perform, rmvproducer, requireAdmin, Except.bind_ok_iff, check_ok_iff,
      exists_const] at h
    exact deactivateProducer_effect rfl h.2
  | upgradevote => exact upgradevote_effect h
  | setmprodvote votes => exact setmprodvote_effect h
  | initbbpelect count => exact initbbpelect_effect h
  | voteproducer voter proxy producers => exact voteproducer_effect h
  | delegatebw sender receiver net cpu transfer => exact delegatebw_effect h
  | undelegatebw sender receiver net cpu => exact undelegatebw_effect h
  | setacctram account limit => exact setAccountResource_effect rfl h
  | setacctnet account limit => exact setAccountResource_effect rfl h
  | setacctcpu account limit => exact setAccountResource_effect rfl h
  | addvote voter votes => exact addvote_effect h
  | subvote voter votes => exact subvote_effect h
  | vote voter producers => exact vote_effect h
  | refundvote owner => exact refundvote_effect h
  | onblock header => exact onblock_effect h
  | cfgreward start stop main backup => exact cfgreward_effect h
  | cfgbbpreward backup => exact cfgbbpreward_effect h
  | cfgcontrib contribution => exact cfgcontrib_effect h
  | claimrewards submitter owner => exact claimrewards_effect h
  | undoreward owner rewards => exact undoreward_effect h

end Actions

end Amax
