-- SUMMARY: The actions that change nothing the elections read.
import Amax.Election.Blocks

/-! # Steady actions

Stakes, resources, refunds, settings of rewards, claims and blocks leave the
queues alone, and the rows of the producers up to what the elections do not read. -/

namespace Amax

-- ---------------------------------------------------------------------------
-- Actions the elections do not notice
-- ---------------------------------------------------------------------------

/-- The action changes nothing the elections read. -/
def Action.steady : Action → Bool
  | .setvoteshare .. | .voteproducer .. | .delegatebw .. | .undelegatebw .. | .setacctram .. => true
  | .setacctnet .. | .setacctcpu .. | .refundvote .. | .cfgreward .. | .cfgbbpreward .. => true
  | .cfgcontrib .. | .claimrewards .. | .undoreward .. | .onblock .. => true
  | _ => false

/-- The computation changes nothing the elections read. -/
def KeepsElections (s : System) (r : Outcome) : Prop :=
  Ensures r fun out => s.elections.Steady out.1.elections

section Steady

variable {env : Env} {s s' : System}

theorem Elections.Steady.refl (e : Elections) : e.Steady e := ⟨.refl _, ⟨_, _, _, _, rfl⟩⟩

/-- One row is written with the standing it had. -/
private theorem steady_setProducer {a r : ProducerInfo} (h : s.producers.find? r.owner = some a)
    (hs : r.standing = a.standing) : s.elections.Steady (s.setProducer r).elections :=
  ⟨.set h hs, ⟨_, _, _, _, rfl⟩⟩

private theorem setvoteshare_steady (producer : Name) (ratio : ℕ) :
    KeepsElections s (setvoteshare env s producer ratio) := by
  unfold setvoteshare
  refine .check fun _ => .check fun _ => ?_
  cases hp : s.producers.find? producer with
  | none => exact .error _
  | some prod =>
    dsimp only
    cases hext : prod.ext with
    | none => exact .error _
    | some ext =>
      have hf := Table.key_of_find? hp ▸ hp
      refine .ok (steady_setProducer (r := { prod with
        ext := some { ext with rewardSharedRatio := ratio } }) hf ?_)
      simp only [ProducerInfo.standing, hext, Option.map_some]

private theorem updateVoteWeightOld_steady (voter : Name) (producers : List Name) (voting : Bool) :
    Ensures (updateVoteWeightOld env s voter producers voting)
      fun s' => s.elections.Steady s'.elections := by
  intro s' h
  obtain ⟨gs, v, rfl, -⟩ := updateVoteWeightOld_ok h
  exact ⟨.refl _, ⟨_, _, _, _, rfl⟩⟩

private theorem changebw_steady (sender receiver : Name) (net cpu : Asset) (transfer : Bool) :
    KeepsElections s (changebw env s sender receiver net cpu transfer) := by
  refine .check fun _ => .check fun _ => .bind_eq fun _ _ => .check fun _ => .check fun _ =>
    .bind (P := fun s' => s.elections.Steady s'.elections) ?_ fun s₁ hs₁ => .ok hs₁
  refine .bind_eq fun v _ => .check fun _ => .ite (fun _ => ?_) fun _ => .ok (.refl _)
  exact updateVoteWeightOld_steady _ _ _

private theorem setAccountResource_steady (r : ManagedResource) (account : Name) (limit : Option ℤ) :
    KeepsElections s (setAccountResource r env s account limit) := by
  unfold setAccountResource
  refine .check fun _ => ?_
  cases limit with
  | none =>
    cases s.voters.find? account with
    | none => exact .error _
    | some v => exact .check fun _ => .ok (.refl _)
  | some x =>
    cases s.voters.find? account with
    | none => exact .check fun _ => .check fun _ => .ok (.refl _)
    | some v => exact .check fun _ => .ok (.refl _)

private theorem refundvote_steady (owner : Name) : KeepsElections s (refundvote env s owner) := by
  unfold refundvote
  cases s.voteRefunds.find? owner with
  | none => exact .error _
  | some refund => exact .check fun _ => .bind_eq fun _ _ => .ok (.refl _)

private theorem cfgreward_steady (start stop : TimePoint) (main backup : Asset) :
    KeepsElections s (cfgreward env s start stop main backup) := by
  refine .check fun _ => .check fun _ => .bind_eq fun _ _ => .check fun _ => .check fun _ =>
    .check fun _ => .check fun _ => .check fun _ => .check fun _ => .bind_eq fun _ _ =>
    .bind_eq fun _ _ => .bind_eq fun _ _ => .bind_eq fun _ _ => .ok ?_
  exact ⟨.refl _, ⟨_, _, _, _, rfl⟩⟩

private theorem cfgbbpreward_steady (backup : Asset) :
    KeepsElections s (cfgbbpreward env s backup) := by
  refine .check fun _ => .bind_eq fun _ _ => .check fun _ => .check fun _ => .bind_eq fun _ _ =>
    .bind_eq fun _ _ => .check fun _ => .bind_eq fun _ _ => .check fun _ => .ok ?_
  exact ⟨.refl _, ⟨_, _, _, _, rfl⟩⟩

private theorem claimrewards_steady (submitter owner : Name) :
    KeepsElections s (claimrewards env s submitter owner) := by
  unfold claimrewards
  refine .check fun _ => ?_
  cases hp : s.producers.find? owner with
  | none => exact .error _
  | some prod =>
    have hf := Table.key_of_find? hp ▸ hp
    refine .check fun _ => ?_
    dsimp only
    cases hext : prod.ext with
    | none => exact .error _
    | some ext =>
      refine .check fun _ => .check fun _ => .check fun _ => .check fun _ => .bind_eq fun _ _ =>
        .check fun _ => .bind_eq fun _ _ => .ok ?_
      refine steady_setProducer (r := { prod with
        unclaimedRewards := { prod.unclaimedRewards with amount := 0 }
        lastClaimedTime := env.now, ext := some ext }) hf ?_
      simp only [ProducerInfo.standing, hext]

private theorem undoreward_steady (owner : Name) (rewards : Asset) :
    KeepsElections s (undoreward env s owner rewards) := by
  unfold undoreward
  refine .check fun _ => ?_
  cases hp : s.producers.find? owner with
  | none => exact .error _
  | some prod =>
    have hf := Table.key_of_find? hp ▸ hp
    refine .check fun _ => .check fun _ => .check fun _ => .check fun _ => .bind_eq fun _ _ =>
      .check fun _ => .bind_eq fun unclaimedRewards _ => .ok ?_
    exact steady_setProducer (r := { prod with unclaimedRewards, lastClaimedTime := env.now }) hf rfl

theorem perform_steady {a : Action} (ha : a.steady = true) : KeepsElections s (perform env s a) := by
  cases a with
  | setvoteshare => exact setvoteshare_steady _ _
  | voteproducer =>
    refine .check fun _ => .check fun _ => .check fun _ =>
      .bind (updateVoteWeightOld_steady _ _ _) fun s₁ hs₁ => .ok hs₁
  | delegatebw =>
    refine .bind_eq fun _ _ => .bind_eq fun _ _ => .bind_eq fun _ _ => .check fun _ =>
      .bind_eq fun _ _ => .check fun _ => .check fun _ => .check fun _ => ?_
    exact changebw_steady _ _ _ _ _
  | undelegatebw =>
    refine .check fun _ => .bind_eq fun _ _ => .bind_eq fun _ _ => .bind_eq fun _ _ =>
      .check fun _ => .bind_eq fun _ _ => .check fun _ => .check fun _ => .check fun _ => ?_
    exact changebw_steady _ _ _ _ _
  | setacctram => exact setAccountResource_steady _ _ _
  | setacctnet => exact setAccountResource_steady _ _ _
  | setacctcpu => exact setAccountResource_steady _ _ _
  | refundvote => exact refundvote_steady _
  | onblock => exact onblock_rests.mono fun out hout => hout.steady
  | cfgreward => exact cfgreward_steady _ _ _ _
  | cfgbbpreward => exact cfgbbpreward_steady _
  | cfgcontrib => exact .check fun _ => .check fun _ => .ok ⟨.refl _, ⟨_, _, _, _, rfl⟩⟩
  | claimrewards => exact claimrewards_steady _ _
  | undoreward => exact undoreward_steady _ _
  | regproducer | regproducer2 | unregprod | rmvproducer | upgradevote => cases ha
  | setmprodvote | initbbpelect | addvote | subvote | vote => cases ha

end Steady

end Amax
