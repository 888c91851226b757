-- SUMMARY: Blocks pay producers and propose saved changes to the chain, and the queues still describe the index after them.
import Amax.Election.Tracking

/-! # Blocks

`onblock` writes rewards into rows of producers and proposes saved changes to
the chain. No producer moves, so the elections rest. -/

namespace Amax

-- ---------------------------------------------------------------------------
-- Rows up to their rewards
-- ---------------------------------------------------------------------------

/-- A row without its rewards. -/
def ProducerInfo.unpaid (p : ProducerInfo) : ProducerInfo :=
  { p with unclaimedRewards := ⟨0, voteSymbol⟩ }

theorem ProducerInfo.eq_of_unpaid {p q : ProducerInfo} (h : q.unpaid = p.unpaid) :
    q.owner = p.owner ∧ q.isActive = p.isActive ∧ q.producerAuthority = p.producerAuthority ∧
      q.ext = p.ext ∧ q.indexed = p.indexed := by
  refine ⟨?_, ?_, ?_, ?_, ?_⟩
  · exact congrArg (·.owner) h
  · exact congrArg (·.isActive) h
  · exact congrArg (·.producerAuthority) h
  · exact congrArg (·.ext) h
  · exact congrArg (·.indexed) h

/-- The tables hold the same producers up to their rewards. -/
def SameRows (t t' : Table ProducerInfo.owner) : Prop :=
  t'.rows.map ProducerInfo.unpaid = t.rows.map ProducerInfo.unpaid

namespace SameRows

variable {t t' t'' : Table ProducerInfo.owner}

theorem refl (t : Table ProducerInfo.owner) : SameRows t t := Eq.refl _

theorem trans (h : SameRows t t') (h' : SameRows t' t'') : SameRows t t'' := Eq.trans h' h

theorem paid {p : ProducerInfo} {rate : Asset} (h : t.find? p.owner = some p) :
    SameRows t (t.set (p.paid rate)) :=
  Table.map_set_of_find? ProducerInfo.unpaid (r := p.paid rate) h rfl

theorem mem (h : SameRows t t') {p' : ProducerInfo} (hp : p' ∈ t'.rows) :
    ∃ p ∈ t.rows, p'.unpaid = p.unpaid := by
  have hmem := List.mem_map_of_mem (f := ProducerInfo.unpaid) hp
  rw [h] at hmem
  obtain ⟨p, hp, heq⟩ := List.mem_map.mp hmem
  exact ⟨p, hp, heq.symm⟩

theorem find? (h : SameRows t t') (n : Name) :
    (t'.find? n).map ProducerInfo.unpaid = (t.find? n).map ProducerInfo.unpaid := by
  have hmap : ∀ t : Table ProducerInfo.owner, (t.find? n).map ProducerInfo.unpaid =
      (t.rows.map ProducerInfo.unpaid).find? (fun p => p.owner = n) := by
    intro t
    rw [List.find?_map]
    rfl
  rw [hmap, hmap, h]

theorem index (h : SameRows t t') :
    (electedProd t').map ProducerInfo.unpaid = (electedProd t).map ProducerInfo.unpaid :=
  Table.map_index ProducerInfo.unpaid (fun _ => rfl) (fun _ => rfl) h

end SameRows

-- ---------------------------------------------------------------------------
-- Rows up to what the elections do not read
-- ---------------------------------------------------------------------------

/-- What the elections read of a row. -/
def ProducerInfo.standing (p : ProducerInfo) : ProducerInfo :=
  { p with
    lastClaimedTime := 0
    unclaimedRewards := ⟨0, voteSymbol⟩
    ext := p.ext.map fun ext => { ext with rewardSharedRatio := 0 } }

theorem ProducerInfo.standing_getElectedVotes (p : ProducerInfo) :
    p.standing.getElectedVotes = p.getElectedVotes := by
  simp only [getElectedVotes, standing]
  cases p.ext <;> rfl

theorem ProducerInfo.standing_byElectedProd (p : ProducerInfo) :
    p.standing.byElectedProd = p.byElectedProd := by
  simp only [byElectedProd, standing_getElectedVotes]
  rfl

/-- The row of a producer with the same standing. -/
structure ProducerInfo.StandsAs (p q : ProducerInfo) : Prop where
  owner : q.owner = p.owner
  active : q.isActive = p.isActive
  authority : q.producerAuthority = p.producerAuthority
  votes : q.getElectedVotes = p.getElectedVotes
  ext : q.ext.isSome = p.ext.isSome
  indexed : q.indexed = p.indexed

theorem ProducerInfo.standsAs_of_standing {p q : ProducerInfo} (h : q.standing = p.standing) :
    p.StandsAs q := by
  have hvotes := congrArg (·.getElectedVotes) h
  have hext := congrArg (·.ext.isSome) h
  simp only [standing_getElectedVotes] at hvotes
  simp only [standing, Option.isSome_map] at hext
  exact ⟨congrArg (·.owner) h, congrArg (·.isActive) h, congrArg (·.producerAuthority) h, hvotes,
    hext, congrArg (·.indexed) h⟩

/-- The tables hold the same producers for the elections. -/
def SameStanding (t t' : Table ProducerInfo.owner) : Prop :=
  t'.rows.map ProducerInfo.standing = t.rows.map ProducerInfo.standing

namespace SameStanding

variable {t t' : Table ProducerInfo.owner}

theorem refl (t : Table ProducerInfo.owner) : SameStanding t t := Eq.refl _

theorem of_sameRows (h : SameRows t t') : SameStanding t t' := by
  have hmap := congrArg (List.map ProducerInfo.standing) h
  simp only [List.map_map, show ProducerInfo.standing ∘ ProducerInfo.unpaid =
    ProducerInfo.standing from rfl] at hmap
  exact hmap

theorem set {a r : ProducerInfo} (h : t.find? r.owner = some a) (hs : r.standing = a.standing) :
    SameStanding t (t.set r) :=
  Table.map_set_of_find? ProducerInfo.standing h hs

theorem electable (h : SameStanding t t') (he : Electable t) : Electable t' := by
  intro p' hp'
  have hmem := List.mem_map_of_mem (f := ProducerInfo.standing) hp'
  rw [h] at hmem
  obtain ⟨p, hp, heq⟩ := List.mem_map.mp hmem
  have hs := ProducerInfo.standsAs_of_standing heq.symm
  have hrow := he p hp
  exact ⟨hs.owner ▸ hrow.owner_ne, hs.votes ▸ hrow.votes_nonneg, hs.votes ▸ hrow.votes_le, by
    rw [hs.indexed, hs.ext]
    exact hrow.indexed_eq⟩

theorem index (h : SameStanding t t') :
    (electedProd t').map ProducerInfo.standing = (electedProd t).map ProducerInfo.standing :=
  Table.map_index ProducerInfo.standing (fun _ => rfl) ProducerInfo.standing_byElectedProd h

end SameStanding

section Index

variable {idx idx' : List ProducerInfo}
  (h : idx'.map ProducerInfo.standing = idx.map ProducerInfo.standing)

include h

theorem Stands.standing {c : ProducerElectedInfo} {k : ℕ} (hc : Stands idx c k) :
    Stands idx' c k := by
  obtain ⟨p, hp, ha, hn, hv⟩ := hc.row
  have hk := congrArg (·[k]?) h
  simp only [List.getElem?_map, hp, Option.map_some, Option.map_eq_some_iff] at hk
  obtain ⟨p', hp', heq⟩ := hk
  have hs := ProducerInfo.standsAs_of_standing heq
  exact ⟨⟨p', hp', hs.active.trans ha, hn.trans hs.owner.symm, hv.trans hs.votes.symm⟩, hc.active⟩

theorem electedSets_standing (N K : ℕ) : electedSets idx' N K = electedSets idx N K := by
  have howner : idx'.map (·.owner) = idx.map (·.owner) := by
    have := congrArg (List.map ProducerInfo.owner) h
    simpa only [List.map_map, show ProducerInfo.owner ∘ ProducerInfo.standing = ProducerInfo.owner
      from rfl] using this
  simp only [electedSets, List.map_take, List.map_drop, howner]

end Index

-- ---------------------------------------------------------------------------
-- Elections at rest
-- ---------------------------------------------------------------------------

namespace Elections

/-- From `e` to `e'` nothing the elections read changes. -/
structure Steady (e e' : Elections) : Prop where
  rows : SameStanding e.producers e'.producers
  electGstate : ∃ period main backup contribution, e'.electGstate = { e.electGstate with
    halvingPeriodNum := period, mainRewardInfo := main, backupRewardInfo := backup
    minBackupRewardContribution := contribution }

/-- From `e` to `e'` no producer moves: rewards are written, and changes are proposed. -/
structure Rests (e e' : Elections) : Prop where
  rows : SameRows e.producers e'.producers
  electGstate : ∃ period main backup, e'.electGstate = { e.electGstate with
    halvingPeriodNum := period, mainRewardInfo := main, backupRewardInfo := backup }
  electedSequence : e'.electedSequence = e.electedSequence

variable {e e' e'' : Elections}

theorem Rests.refl (e : Elections) : e.Rests e := ⟨.refl _, ⟨_, _, _, rfl⟩, rfl⟩

theorem Rests.trans (h : e.Rests e') (h' : e'.Rests e'') : e.Rests e'' := by
  obtain ⟨period, main, backup, hg⟩ := h.electGstate
  obtain ⟨period', main', backup', hg'⟩ := h'.electGstate
  refine ⟨h.rows.trans h'.rows, ⟨period', main', backup', ?_⟩,
    h'.electedSequence.trans h.electedSequence⟩
  rw [hg', hg]

theorem Rests.steady (h : e.Rests e') : e.Steady e' := by
  obtain ⟨period, main, backup, hg⟩ := h.electGstate
  exact ⟨.of_sameRows h.rows, ⟨period, main, backup, _, hg⟩⟩

theorem Steady.sets (h : e.Steady e') : e'.sets = e.sets := by
  obtain ⟨period, main, backup, contribution, hg⟩ := h.electGstate
  simp only [Elections.sets, ElectGlobalState.sets, ElectGlobalState.backupCount, hg, index]
  exact electedSets_standing h.rows.index _ _

theorem Rests.sets (h : e.Rests e') : e'.sets = e.sets := h.steady.sets

theorem Tracks.steady (h : e.Tracks) (hr : e.Steady e') : e'.Tracks := by
  obtain ⟨period, main, backup, contribution, hg⟩ := hr.electGstate
  have hs := h.synced
  have hindex := hr.rows.index
  refine ⟨by rw [hg]; exact h.enabled, hr.rows.electable h.electable, ?_⟩
  refine Synced.congr (g := e.electGstate) ⟨hs.two_le, hs.mainCount, hs.backup_ge, hs.backup_le,
    hs.mainTailPrev.standing hindex, hs.mainTail.standing hindex, hs.mainTailNext.standing hindex,
    hs.backupTailPrev.standing hindex, hs.backupTail.standing hindex,
    hs.backupTailNext.standing hindex⟩ ?_ ?_ ?_ ?_
  · rw [hg]
  · rw [hg]
  · rw [hg]
  · rw [hg]

theorem Tracks.rests (h : e.Tracks) (hr : e.Rests e') : e'.Tracks := h.steady hr.steady

end Elections

section Onblock

variable {env : Env} {s s' : System} {bh : BlockHeader} {sent : List Inline}

theorem BlockStep.rests (h : BlockStep s s') : s.elections.Rests s'.elections := by
  cases h with
  | rates _ _ => exact ⟨.refl _, ⟨_, _, _, rfl⟩, rfl⟩
  | main hp => exact ⟨.paid hp.found, ⟨_, _, _, rfl⟩, rfl⟩
  | backup hp => exact ⟨.paid hp.found, ⟨_, _, _, rfl⟩, rfl⟩

theorem updateElectedProducerChanges_rests :
    Ensures (updateElectedProducerChanges env s) fun s' => s.elections.Rests s'.elections := by
  unfold updateElectedProducerChanges
  refine .ite (fun _ => .ok (.refl _)) fun _ => .bind_eq fun out _ =>
    .ite (fun _ => .ite (fun _ => .ite (fun _ => .ok ?_) fun _ => .ok ?_) fun _ =>
      .ite (fun _ => .ok ?_) fun _ => .ok ?_) fun _ => .ok ?_
  all_goals exact ⟨.refl _, ⟨_, _, _, rfl⟩, rfl⟩

theorem updateElectedProducers_rests : s.elections.Rests (updateElectedProducers env s).elections := by
  unfold updateElectedProducers
  dsimp only
  split_ifs <;> exact ⟨.refl _, ⟨_, _, _, rfl⟩, rfl⟩

theorem updateSchedule_rests :
    Ensures (updateSchedule env s bh) fun s' => s.elections.Rests s'.elections := by
  unfold updateSchedule
  refine .ite (fun _ => .bind (P := fun s' => s.elections.Rests s'.elections) ?_
    fun s' hs' => .ok ?_) fun _ => .ok (.refl _)
  · exact .ite (fun _ => updateElectedProducerChanges_rests) fun _ => .ok updateElectedProducers_rests
  · exact ⟨hs'.rows, hs'.electGstate, hs'.electedSequence⟩

theorem produceRewards_rests (h : produceRewards env s bh = .ok s') :
    s.elections.Rests s'.elections :=
  produceRewards_preserves (P := fun t => s.elections.Rests t.elections) h (.refl _)
    fun _ _ hs hstep => hs.trans hstep.rests

/-- The elections rest while a block is handled. -/
theorem onblock_rests :
    Ensures (onblock env s bh) fun out => s.elections.Rests out.1.elections := by
  unfold onblock requireAuth
  refine .check fun _ => .ite (fun _ => .ok (.refl _)) fun _ => .bind_eq fun s₁ h₁ => ?_
  exact .bind updateSchedule_rests fun s₂ h₂ => .ok ((produceRewards_rests h₁).trans h₂)

end Onblock

end Amax
