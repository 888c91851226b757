-- SUMMARY: process_elected_producer succeeds on synchronised queues, keeps them synchronised, and records how the sets changed.
import Amax.Election.Branches

/-! # process_elected_producer

The refreshes find the records the branches ask for, the assertions hold of
synchronised queues, and the branch taken is the one of the positions. -/

namespace Amax

-- ---------------------------------------------------------------------------
-- Refreshes
-- ---------------------------------------------------------------------------

section Refresh

variable {idx : List ProducerInfo} {tail c : ProducerElectedInfo} {k : ℕ} {refresh : Bool}

private theorem refreshPrev_yields (hr : Ranked idx) (ht : Stands idx tail (k + 1))
    (hc : Awaits idx refresh c k) (title : String) :
    Yields (if refresh then QueueHelper.fetchPrev idx tail c true title else .ok c)
      fun prev => Stands idx prev k := by
  cases refresh with
  | false => exact .ok hc
  | true => exact ht.fetchPrev_ok hr hc.1 true title

private theorem refreshNext_yields (hr : Ranked idx) (ht : Stands idx tail k)
    (hc : Awaits idx refresh c (k + 1)) (title : String) :
    Yields (if refresh then QueueHelper.fetchNext idx tail c true title else .ok c)
      fun next => Stands idx next (k + 1) := by
  cases refresh with
  | false => exact .ok hc
  | true =>
    obtain ⟨hactive, p, hp, ha⟩ := hc
    exact ht.fetchNext_ok hr hp ha hactive true title

end Refresh

/-- The queues in `g` are replaced. -/
def ElectGlobalState.withQueues (g : ElectGlobalState) (meq beq : ProducerElectedQueue) :
    ElectGlobalState :=
  { g with mainElectedQueue := meq, backupElectedQueue := beq }

section Process

variable {g : ElectGlobalState} {idx idx' : List ProducerInfo} {old new : ProducerElectedInfo}
  {i j above below K : ℕ} {st : QueueStep}

/-- The refreshes complete the queues of a branch. -/
theorem QueueStep.Lands.refresh (h2 : 2 ≤ g.maxMainProducerCount) (hr : Ranked idx')
    (h : st.Lands g idx idx' K) :
    Yields (st.refresh idx') fun r =>
      Synced (g.withQueues r.1 r.2) idx' ∧ (g.withQueues r.1 r.2).backupCount = K := by
  have hK := h.backup.ge
  simp only [minBackupProducerCount] at hK
  obtain ⟨n, hn⟩ : ∃ n, g.maxMainProducerCount = n + 2 := ⟨g.maxMainProducerCount - 2, by omega⟩
  obtain ⟨k, rfl⟩ : ∃ k, K = k + 2 := ⟨K - 2, by omega⟩
  have hmain := h.main
  have hbackup := h.backup
  refine .bind (refreshPrev_yields hr (k := n) (by simpa [hn] using hmain.tail)
    (by simpa [hn] using hmain.tailPrev) _) fun mainTailPrev hmp => ?_
  refine .bind (refreshNext_yields hr (k := n + 1) (by simpa [hn] using hmain.tail)
    (by simpa [hn] using hmain.tailNext) _) fun mainTailNext hmn => ?_
  refine .bind (refreshPrev_yields hr (k := g.maxMainProducerCount + k) hbackup.tail
    hbackup.tailPrev _) fun backupTailPrev hbp => ?_
  refine .bind (refreshNext_yields hr (k := g.maxMainProducerCount + (k + 1)) hbackup.tail
    hbackup.tailNext _) fun backupTailNext hbn => ?_
  have hcount : (g.withQueues { st.meq with tailPrev := mainTailPrev, tailNext := mainTailNext }
      { st.beq with tailPrev := backupTailPrev, tailNext := backupTailNext }).backupCount = k + 2 :=
    hbackup.count
  refine .ok ⟨?_, hcount⟩
  refine ⟨h2, hmain.count, hcount ▸ hbackup.ge, hcount ▸ hbackup.le, ?_, hmain.tail, ?_, ?_, ?_, ?_⟩
  · simpa [ElectGlobalState.withQueues, hn] using hmp
  · simpa [ElectGlobalState.withQueues, hn] using hmn
  all_goals rw [hcount]
  · exact hbp
  · exact hbackup.tail
  · exact hbn

/-- The assertions at the start hold. -/
theorem Synced.checkQueues (hs : Synced g idx) (hr : Ranked idx) (hname : old.name = new.name) :
    checkQueues g old new = .ok () := by
  have hK := hs.backup_ge
  have h2 := hs.two_le
  have hlt := hs.backupTailPrev.lt_eq hr hs.mainTailNext
  simp only [minBackupProducerCount] at hK
  simp only [Amax.checkQueues, g.lastProducerCount_eq, hs.mainCount, Except.bind_ok_iff,
    check_ok_iff, exists_const, hs.mainTail.name_ne hr, hs.mainTailPrev.name_ne hr,
    hs.backupTailNext.name_ne hr, hs.backupTail.name_ne hr, hs.backupTailPrev.name_ne hr, hlt,
    Bool.not_false, decide_eq_true_eq, and_true, true_and]
  refine ⟨hname, ?_, ?_, ?_⟩
  · simp only [minBackupProducerCount]
    omega
  · omega
  · omega

/-- Whatever a step reads behind the backup queue is active. -/
def ReadsActive (g : ElectGlobalState) (idx' : List ProducerInfo) (old new : ProducerElectedInfo) :
    Prop :=
  g.backupCount < g.maxBackupProducerCount →
  (old.eq g.backupElectedQueue.tailNext = true ∧ new.gt g.mainElectedQueue.tail = true ∨
    old.ge g.backupElectedQueue.tail = false ∧ old.eq g.backupElectedQueue.tailNext = false ∧
      new.lt g.backupElectedQueue.tailNext = true ∧
      g.isProdVotesValid g.backupElectedQueue.tailNext.electedVotes = true) →
  ∀ p, idx'[g.maxMainProducerCount + g.backupCount + 1]? = some p → p.isActive = true

/-- Every branch succeeds, and leaves queues that its refreshes complete. -/
theorem processBranch_lands (hs : Synced g idx)
    (hm : Moves idx idx' (g.maxMainProducerCount + g.backupCount) old new i j above below)
    (hread : ReadsActive g idx' old new) :
    Yields (processBranch g idx' old new) fun st => ∃ K, st.Lands g idx idx' K := by
  have h2 := hs.two_le
  have hK := hs.backup_ge
  have hord := hm.order
  simp only [minBackupProducerCount] at hK
  simp only [ReadsActive, hm.old_ge hs.backupTail (show _ < _ by omega),
    hm.old_eq hs.backupTailNext le_rfl, hm.new_lt hs.backupTailNext le_rfl,
    hm.new_gt hs.mainTail (show _ ≤ _ by omega), decide_eq_true_eq, decide_eq_false_iff_not]
    at hread
  unfold processBranch
  simp only [hm.old_ge hs.mainTail (show _ < _ by omega), hm.new_gt hs.mainTail (show _ ≤ _ by omega),
    hm.old_ge hs.backupTail (show _ < _ by omega), decide_eq_true_eq]
  refine .ite (fun h₁ => processMainProducer_lands hs hm (by omega)) fun h₁ => ?_
  refine .ite (fun h₂ => ?_) fun h₂ => ?_
  · refine processMainEntry_lands hs hm (by omega) h₂ fun hi hlt p hp => ?_
    exact hread hlt (.inl ⟨hi, h₂⟩) p (hi ▸ hp)
  · refine .ite (fun h₃ => ?_) fun h₃ => ?_
    · exact processBackupProducer_lands hs hm (by omega) (by omega) h₂
    · refine processCandidate_lands hs hm (by omega) h₂ fun hi hj hlt hvalid => ?_
      exact hread hlt (.inr ⟨h₃, by omega, by omega, hvalid⟩)

/-- `process_elected_producer` follows a move. -/
theorem processElectedProducer_synced (hs : Synced g idx)
    (hm : Moves idx idx' (g.maxMainProducerCount + g.backupCount) old new i j above below)
    (hread : ReadsActive g idx' old new) (hinit : g.isInit = true)
    {changes : ProposedProducerChanges} {n : Native} (hl : changes.Leads n (g.sets idx)) :
    Yields (processElectedProducer g idx' old new changes) fun r =>
      (∃ meq beq, r.1 = g.withQueues meq beq) ∧ Synced r.1 idx' ∧ r.2.Leads n (r.1.sets idx') := by
  unfold processElectedProducer
  rw [hinit, if_neg (by simp)]
  refine .bind (P := fun _ => True) ⟨(), hs.checkQueues hm.ranked hm.name_eq, trivial⟩ fun _ _ => ?_
  refine .bind (processBranch_lands hs hm hread) fun st ⟨K, hst⟩ => ?_
  refine .bind (hl.turn hst.turns) fun changes' hl' => ?_
  refine .bind (hst.refresh hs.two_le hm.ranked') fun r hsync => ?_
  obtain ⟨hsync, hcount⟩ := hsync
  refine .ok ⟨⟨r.1, r.2, rfl⟩, hsync, ?_⟩
  rw [show (_ : ElectGlobalState).sets idx' = electedSets idx' g.maxMainProducerCount K from by
    rw [ElectGlobalState.sets]; exact congrArg _ hcount]
  exact hl'

end Process

end Amax
