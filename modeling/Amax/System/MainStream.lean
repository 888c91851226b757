-- SUMMARY: What each action does to the stream of main rewards: blocks and cfgreward change it.
import Amax.System.Effect

/-! # The main stream

A block may begin a new halving period, which gets a new rate, and then pays one
block. `cfgreward` sets the rate by hand. Nothing else touches the stream. -/

namespace Amax

-- ---------------------------------------------------------------------------
-- What leaves the main stream alone
-- ---------------------------------------------------------------------------

/-- The stream of main rewards and the number of its halving period. -/
def System.mainStream (s : System) : ProducerRewardInfo × ℤ :=
  (s.electGstate.mainRewardInfo, s.electGstate.halvingPeriodNum)

/-- The action can change the main stream. -/
def Action.setsMain : Action → Bool
  | .onblock _ => true
  | .cfgreward .. => true
  | _ => false

/-- The computation leaves the main stream alone. -/
def KeepsMain (s : System) (r : Outcome) : Prop :=
  Ensures r fun out => out.1.mainStream = s.mainStream

section Frame

variable {env : Env} {s s' t : System}

theorem mainStream_outside (h : s'.outside = t.outside) : s'.mainStream = t.mainStream := by
  have hstream := congrArg System.mainStream h
  exact hstream

theorem System.mainStream_addVotesList (s : System) (ns : List Name) (d : ℤ) :
    (s.addVotesList ns d).mainStream = s.mainStream := by
  induction ns generalizing s with
  | nil => rfl
  | cons n ns ih => exact ih (s.addVotes n d)

theorem System.mainStream_addVotesGroups (s : System) (groups : List (List Name × Asset)) :
    (s.addVotesGroups groups).mainStream = s.mainStream := by
  induction groups generalizing s with
  | nil => rfl
  | cons group groups ih =>
    exact (ih (s.addVotesList group.1 group.2.amount)).trans (s.mainStream_addVotesList _ _)

theorem moveElectedVotes_mainStream {groups : List (List Name × Asset)} :
    Ensures (moveElectedVotes env s groups) fun s' => s'.mainStream = s.mainStream := by
  intro s' h
  rw [mainStream_outside (moveElectedVotes_ok h).2]
  exact s.mainStream_addVotesGroups groups

theorem registerProducer_keepsMain (producer : Name) (authority : BlockSigningAuthority)
    (ratio : Option ℕ) : KeepsMain s (registerProducer env s producer authority ratio) := by
  unfold registerProducer
  refine .check fun _ => .bind_eq fun _ _ => ?_
  cases s.producers.find? producer with
  | some prod =>
    refine .ite (fun _ => .bind_eq fun out hg => .bind_eq fun s₁ hs => .ok ?_) fun _ => .ok rfl
    rw [mainStream_outside (saveProducerChanges_outside hs)]
    have hstream := congrArg (fun g : ElectGlobalState => (g.mainRewardInfo, g.halvingPeriodNum))
      (processElectedProducer_outside hg)
    exact hstream
  | none => exact .check fun _ => .bind_eq fun _ _ => .ok rfl

theorem setvoteshare_keepsMain (producer : Name) (ratio : ℕ) :
    KeepsMain s (setvoteshare env s producer ratio) := by
  unfold setvoteshare
  refine .check fun _ => .check fun _ => ?_
  cases s.producers.find? producer with
  | none => exact .error _
  | some prod =>
    dsimp only
    cases prod.ext with
    | none => exact .error _
    | some ext => exact .ok rfl

theorem deactivateProducer_keepsMain (producer : Name) :
    KeepsMain s (deactivateProducer s producer) := by
  unfold deactivateProducer
  cases s.producers.find? producer with
  | none => exact .error _
  | some prod => exact .ok rfl

theorem startElection_keepsMain :
    Ensures (startElection env s) fun s' => s'.mainStream = s.mainStream :=
  fun _ h => mainStream_outside (startElection_outside h)

theorem initbbpelect_keepsMain (count : ℕ) : KeepsMain s (initbbpelect env s count) := by
  refine .check fun _ => .check fun _ => .bind (P := fun s' => s'.mainStream = s.mainStream)
    (.ite (fun _ => ?_) fun _ => .ok rfl) fun s₁ hs₁ => ?_
  · exact startElection_keepsMain
  · exact .ite (fun _ => .ok hs₁) fun _ => .ok hs₁

theorem updateVoteWeightOld_keepsMain (voter : Name) (producers : List Name) (voting : Bool) :
    Ensures (updateVoteWeightOld env s voter producers voting)
      fun s' => s'.mainStream = s.mainStream := by
  intro s' h
  obtain ⟨gs, v, rfl, -⟩ := updateVoteWeightOld_ok h
  rfl

theorem changebw_keepsMain (sender receiver : Name) (net cpu : Asset) (transfer : Bool) :
    KeepsMain s (changebw env s sender receiver net cpu transfer) := by
  refine .check fun _ => .check fun _ => .bind_eq fun _ _ => .check fun _ => .check fun _ =>
    .bind (P := fun s' => s'.mainStream = s.mainStream) ?_ fun s₁ hs₁ => .ok hs₁
  refine .bind_eq fun v _ => .check fun _ => .ite (fun _ => ?_) fun _ => .ok rfl
  exact updateVoteWeightOld_keepsMain _ _ _

theorem setAccountResource_keepsMain (r : ManagedResource) (account : Name) (limit : Option ℤ) :
    KeepsMain s (setAccountResource r env s account limit) := by
  unfold setAccountResource
  refine .check fun _ => ?_
  cases limit with
  | none =>
    cases s.voters.find? account with
    | none => exact .error _
    | some v => exact .check fun _ => .ok rfl
  | some x =>
    cases s.voters.find? account with
    | none => exact .check fun _ => .check fun _ => .ok rfl
    | some v => exact .check fun _ => .ok rfl

theorem addvote_keepsMain (voter : Name) (votes : Asset) :
    KeepsMain s (addvote env s voter votes) := by
  refine .check fun _ => .check fun _ => .check fun _ => .bind_eq fun staked _ => ?_
  cases s.voters.find? voter with
  | none => exact .check fun _ => .ok rfl
  | some v =>
    refine .bind (P := fun s' => s'.mainStream = s.mainStream)
      (.ite (fun _ => moveElectedVotes_mainStream) fun _ => .ok rfl) fun s₁ hs₁ => ?_
    exact .bind_eq fun _ _ => .ok hs₁

theorem subvote_keepsMain (voter : Name) (votes : Asset) :
    KeepsMain s (subvote env s voter votes) := by
  refine .check fun _ => .check fun _ => .check fun _ => .check fun _ => ?_
  cases s.voters.find? voter with
  | none => exact .error _
  | some v =>
    refine .bind_eq fun _ _ => .check fun _ => .check fun _ => .check fun _ =>
      .bind moveElectedVotes_mainStream fun s₁ hs₁ => ?_
    exact .bind_eq fun _ _ => .check fun _ => .ok hs₁

theorem vote_keepsMain (voter : Name) (producers : List Name) :
    KeepsMain s (vote env s voter producers) := by
  refine .check fun _ => .check fun _ => .bind_eq fun list _ => ?_
  cases s.voters.find? voter with
  | none => exact .error _
  | some v =>
    refine .check fun _ => .ite (fun _ => .ok rfl) fun _ => .check fun _ => ?_
    exact .bind moveElectedVotes_mainStream fun s₁ hs₁ => .ok hs₁

theorem refundvote_keepsMain (owner : Name) : KeepsMain s (refundvote env s owner) := by
  unfold refundvote
  cases s.voteRefunds.find? owner with
  | none => exact .error _
  | some refund => exact .check fun _ => .bind_eq fun _ _ => .ok rfl

theorem claimrewards_keepsMain (submitter owner : Name) :
    KeepsMain s (claimrewards env s submitter owner) := by
  unfold claimrewards
  refine .check fun _ => ?_
  cases s.producers.find? owner with
  | none => exact .error _
  | some prod =>
    refine .check fun _ => ?_
    cases prod.ext with
    | none => exact .error _
    | some ext =>
      refine .check fun _ => .check fun _ => .check fun _ => .check fun _ => .bind_eq fun _ _ =>
        .check fun _ => ?_
      exact .bind_eq fun _ _ => .ok rfl

theorem undoreward_keepsMain (owner : Name) (rewards : Asset) :
    KeepsMain s (undoreward env s owner rewards) := by
  unfold undoreward
  refine .check fun _ => ?_
  cases s.producers.find? owner with
  | none => exact .error _
  | some prod =>
    refine .check fun _ => .check fun _ => .check fun _ => .check fun _ => .bind_eq fun _ _ => ?_
    exact .check fun _ => .bind_eq fun _ _ => .ok rfl

theorem cfgbbpreward_keepsMain (backup : Asset) : KeepsMain s (cfgbbpreward env s backup) := by
  refine .check fun _ => .bind_eq fun _ _ => .check fun _ => .check fun _ => .bind_eq fun _ _ =>
    .bind_eq fun _ _ => .check fun _ => .bind_eq fun _ _ => ?_
  exact .check fun _ => .ok rfl

/-- Only blocks and `cfgreward` change the main stream. -/
theorem perform_keepsMain {a : Action} (ha : a.setsMain = false) :
    KeepsMain s (perform env s a) := by
  cases a with
  | regproducer => exact .check fun _ => .check fun _ => registerProducer_keepsMain _ _ _
  | regproducer2 =>
    exact .check fun _ => .check fun _ => .check fun _ => registerProducer_keepsMain _ _ _
  | setvoteshare => exact setvoteshare_keepsMain _ _
  | unregprod => exact .check fun _ => deactivateProducer_keepsMain _
  | rmvproducer => exact .check fun _ => deactivateProducer_keepsMain _
  | upgradevote =>
    have hstream := mainStream_outside (updateElectedProducers_outside env
      { s with electGstate := { s.electGstate with electedVersion := 1 } })
    exact .check fun _ => .ok hstream
  | setmprodvote => exact .check fun _ => .check fun _ => .check fun _ => .check fun _ => .ok rfl
  | initbbpelect => exact initbbpelect_keepsMain _
  | voteproducer =>
    refine .check fun _ => .check fun _ => .check fun _ =>
      .bind (updateVoteWeightOld_keepsMain _ _ _) fun s₁ hs₁ => .ok hs₁
  | delegatebw =>
    refine .bind_eq fun _ _ => .bind_eq fun _ _ => .bind_eq fun _ _ => .check fun _ =>
      .bind_eq fun _ _ => .check fun _ => .check fun _ => .check fun _ => ?_
    exact changebw_keepsMain _ _ _ _ _
  | undelegatebw =>
    refine .check fun _ => .bind_eq fun _ _ => .bind_eq fun _ _ => .bind_eq fun _ _ =>
      .check fun _ => .bind_eq fun _ _ => .check fun _ => .check fun _ => .check fun _ => ?_
    exact changebw_keepsMain _ _ _ _ _
  | setacctram => exact setAccountResource_keepsMain _ _ _
  | setacctnet => exact setAccountResource_keepsMain _ _ _
  | setacctcpu => exact setAccountResource_keepsMain _ _ _
  | addvote => exact addvote_keepsMain _ _
  | subvote => exact subvote_keepsMain _ _
  | vote => exact vote_keepsMain _ _
  | refundvote => exact refundvote_keepsMain _
  | cfgbbpreward => exact cfgbbpreward_keepsMain _
  | cfgcontrib => exact .check fun _ => .check fun _ => .ok rfl
  | claimrewards => exact claimrewards_keepsMain _ _
  | undoreward => exact undoreward_keepsMain _ _
  | onblock | cfgreward => cases ha

end Frame

-- ---------------------------------------------------------------------------
-- Steps of the main stream
-- ---------------------------------------------------------------------------

/-- The start of a block leaves the stream `info` in the period `num`: a new one or the current. -/
inductive Halves (s : System) (info : ProducerRewardInfo) (num : ℤ) : Prop
  | same (info_eq : info = s.electGstate.mainRewardInfo)
      (num_eq : num = s.electGstate.halvingPeriodNum)
  | new (num_lt : s.electGstate.halvingPeriodNum < num) (num_pos : 0 < num)
      (symbol : s.electGstate.mainRewardInfo.totalRewards.symbol.isValid)
      (info_eq : info = { s.electGstate.mainRewardInfo with
        rewardsPerBlock := ⟨halvingRewardsPerBlock
          (s.electGstate.mainRewardInfo.totalRewards.amount -
            s.electGstate.mainRewardInfo.producedRewards.amount),
          s.electGstate.mainRewardInfo.totalRewards.symbol⟩ })

/-- What an action does to the main stream. -/
inductive MainStep (s : System) : Action → System → Prop
  | rest {a : Action} {s' : System} (same : s'.mainStream = s.mainStream) : MainStep s a s'
  | configure {start stop : TimePoint} {main backup : Asset} {s' : System}
      (rate_nonneg : 0 ≤ main.amount)
      (rate_le : main.amount ≤ halvingRewardsPerBlock totalMainProducerRewards)
      (rate : s'.electGstate.mainRewardInfo.rewardsPerBlock = main)
      (total : s'.electGstate.mainRewardInfo.totalRewards.amount = totalMainProducerRewards)
      (valid : s'.electGstate.mainRewardInfo.producedRewards.isValid)
      (kept : s.electGstate.mainRewardInfo.producedRewards.isValid →
        s'.electGstate.mainRewardInfo.producedRewards =
          s.electGstate.mainRewardInfo.producedRewards)
      (started : ¬s.electGstate.mainRewardInfo.producedRewards.isValid →
        s'.electGstate.mainRewardInfo.producedRewards.amount = 0)
      (num : s'.electGstate.halvingPeriodNum = s.electGstate.halvingPeriodNum) :
      MainStep s (.cfgreward start stop main backup) s'
  | block {bh : BlockHeader} {s' : System} {info : ProducerRewardInfo} {num : ℤ}
      (halves : Halves s info num)
      (pays : s'.mainStream = (info, num) ∨ 0 < info.rewardsPerBlock.amount ∧
        info.producedRewards.amount + info.rewardsPerBlock.amount ≤ info.totalRewards.amount ∧
        s'.mainStream = (info.paid, num)) :
      MainStep s (.onblock bh) s'

section Steps

variable {env : Env} {s s' : System} {sent : List Inline}

theorem calcHalvingRewardsPerBlock_eq {info : ProducerRewardInfo} {rate : Asset}
    (h : calcHalvingRewardsPerBlock info = .ok rate) :
    info.totalRewards.symbol.isValid ∧
      rate = ⟨halvingRewardsPerBlock (info.totalRewards.amount - info.producedRewards.amount),
        info.totalRewards.symbol⟩ := by
  simp only [calcHalvingRewardsPerBlock, Except.bind_ok_iff, check_ok_iff, Asset.le_ok_iff,
    Asset.make_ok_iff] at h
  obtain ⟨le, ⟨-, hle⟩, -, hcheck, -, hvalid, rfl⟩ := h
  rw [hcheck, decide_eq_true_eq] at hle
  rw [if_pos (sub_nonneg.mpr hle)]
  exact ⟨hvalid, rfl⟩

theorem halve_main : Ensures (halve env s) fun g =>
    Halves s g.mainRewardInfo g.halvingPeriodNum := by
  unfold halve
  refine .ite (fun _ => .check fun _ => .ite (fun hlt => ?_) fun _ => .ok (.same rfl rfl))
    fun _ => .ok (.same rfl rfl)
  refine .bind_eq fun rate hrate => .bind_eq fun _ _ => .ok ?_
  obtain ⟨hvalid, rfl⟩ := calcHalvingRewardsPerBlock_eq hrate
  refine .new hlt ?_ hvalid rfl
  have hseconds : (0 : ℤ) ≤ (((env.now - s.gstate.initRewardEndTime) / 1000000 : ℕ) : ℤ) :=
    Int.natCast_nonneg _
  have hperiods := Int.tdiv_nonneg hseconds (by decide : 0 ≤ rewardHalvingPeriodSeconds)
  show 0 < 1 + _
  omega

theorem produceRewards_main (bh : BlockHeader) : Ensures (produceRewards env s bh) fun s' =>
    MainStep s (.onblock bh) s' := by
  unfold produceRewards
  refine .ite (fun _ => .bind halve_main fun g hg => .bind_eq fun out hout => ?_)
    fun _ => .ok (.rest rfl)
  have hpays : ∀ s' : System, s'.mainStream = (out.2, g.halvingPeriodNum) →
      MainStep s (.onblock bh) s' := by
    intro s' hs'
    rcases incProducerRewards_ok (s := { s with electGstate := g }) hout with
      ⟨-, hinfo⟩ | ⟨prod, hprod, -, hinfo⟩
    · exact .block hg (.inl (hinfo ▸ hs'))
    · exact .block hg (.inr ⟨hprod.pos, hprod.le, hinfo ▸ hs'⟩)
  refine .ite (fun _ => ?_) fun _ => .ok (hpays _ rfl)
  dsimp only
  cases bh.backupExtension.previousBackup with
  | none => exact .ok (hpays _ rfl)
  | some previous =>
    refine .ite (fun _ => ?_) fun _ => .ok (hpays _ rfl)
    exact .bind_eq fun _ _ => .ok (hpays _ rfl)

theorem onblock_main (bh : BlockHeader) : Ensures (onblock env s bh) fun out =>
    MainStep s (.onblock bh) out.1 := by
  refine .check fun _ => .ite (fun _ => .ok (.rest rfl)) fun _ =>
    .bind (produceRewards_main bh) fun s₁ hs₁ => .bind_eq fun s₂ h₂ => .ok ?_
  have hsame : s₂.mainStream = s₁.mainStream := mainStream_outside (updateSchedule_outside h₂)
  cases hs₁ with
  | rest same => exact .rest (hsame.trans same)
  | block halves pays => exact .block halves (by rwa [hsame])

theorem startedRewards_valid {info : ProducerRewardInfo} {symbol : Symbol} {produced : Asset}
    (h : info.startedRewards symbol = .ok produced) : produced.isValid := by
  unfold ProducerRewardInfo.startedRewards at h
  split_ifs at h with hvalid
  · rw [← Except.ok.inj h]
    exact hvalid
  · obtain ⟨-, hsymbol, rfl⟩ := Asset.make_ok_iff.mp h
    simp only [Asset.isValid, hsymbol, Bool.and_true]
    rfl

theorem cfgreward_main (start stop : TimePoint) (main backup : Asset) :
    Ensures (cfgreward env s start stop main backup) fun out =>
      MainStep s (.cfgreward start stop main backup) out.1 := by
  refine .check fun _ => .check fun _ => .bind_eq fun core _ => .check fun _ =>
    .check fun hnonneg => .check fun _ => .check fun _ => .check fun hmax => .check fun _ =>
    .bind_eq fun total htotal => .bind_eq fun info hinfo => .bind_eq fun _ _ =>
    .bind_eq fun _ _ => .ok ?_
  obtain ⟨-, -, rfl⟩ := Asset.make_ok_iff.mp htotal
  simp only [updateRewardInfo, Except.bind_ok_iff, check_ok_iff, Except.pure_ok_iff] at hinfo
  obtain ⟨produced, hproduced, -, -, -, -, rfl⟩ := hinfo
  obtain ⟨hkept, hstarted, -⟩ := startedRewards_ok hproduced
  exact .configure hnonneg.1 hmax rfl rfl (startedRewards_valid hproduced) hkept hstarted rfl

theorem transact_main {tx : Transaction} (h : transact tx s = .ok (s', sent)) :
    MainStep s tx.action s' := by
  replace h := (transact_ok_iff.mp h).1
  cases ha : tx.action with
  | onblock bh =>
    rw [ha] at h
    exact onblock_main bh _ h
  | cfgreward start stop main backup =>
    rw [ha] at h
    exact cfgreward_main start stop main backup _ h
  | _ => exact .rest (perform_keepsMain (by rw [ha]; rfl) _ h)

end Steps

end Amax
