-- SUMMARY: Every branch of process_elected_producer leaves queues that its refreshes complete, and operations that turn the elected sets.
import Amax.Election.Turns

/-! # The branches of process_elected_producer

The cached records stand at six positions of the index. A branch decides from
comparisons with them where the producer went, shifts the records it knows and
asks for the ones it does not; the operations follow the elected sets. -/

namespace Amax

-- ---------------------------------------------------------------------------
-- Synchronised queues
-- ---------------------------------------------------------------------------

/-- The number of backup producers. -/
def ElectGlobalState.backupCount (g : ElectGlobalState) : ℕ :=
  g.backupElectedQueue.lastProducerCount

theorem ElectGlobalState.lastProducerCount_eq (g : ElectGlobalState) :
    g.backupElectedQueue.lastProducerCount = g.backupCount := rfl

/-- The cached records stand around the ends of the two queues. -/
structure Synced (g : ElectGlobalState) (idx : List ProducerInfo) : Prop where
  two_le : 2 ≤ g.maxMainProducerCount
  mainCount : g.mainElectedQueue.lastProducerCount = g.maxMainProducerCount
  backup_ge : minBackupProducerCount ≤ g.backupCount
  backup_le : g.backupCount ≤ g.maxBackupProducerCount
  mainTailPrev : Stands idx g.mainElectedQueue.tailPrev (g.maxMainProducerCount - 2)
  mainTail : Stands idx g.mainElectedQueue.tail (g.maxMainProducerCount - 1)
  mainTailNext : Stands idx g.mainElectedQueue.tailNext g.maxMainProducerCount
  backupTailPrev : Stands idx g.backupElectedQueue.tailPrev
    (g.maxMainProducerCount + g.backupCount - 2)
  backupTail : Stands idx g.backupElectedQueue.tail
    (g.maxMainProducerCount + g.backupCount - 1)
  backupTailNext : Stands idx g.backupElectedQueue.tailNext
    (g.maxMainProducerCount + g.backupCount)

/-- The elected sets that the queues stand for. -/
def ElectGlobalState.sets (g : ElectGlobalState) (idx : List ProducerInfo) : Native :=
  electedSets idx g.maxMainProducerCount g.backupCount

/-- A record stands at its position, or can be read there by a refresh. -/
def Awaits (idx : List ProducerInfo) (refresh : Bool) (c : ProducerElectedInfo) (k : ℕ) : Prop :=
  if refresh then c.isActive = true ∧ ∃ p, idx[k]? = some p ∧ p.isActive = true
  else Stands idx c k

theorem Awaits.of_occupied {idx : List ProducerInfo} {c : ProducerElectedInfo} {k : ℕ}
    (hc : c.isActive = true) (h : ∃ p, idx[k]? = some p ∧ p.isActive = true) :
    Awaits idx true c k := ⟨hc, h⟩

/-- The main queue a branch leaves behind, with what it asks to refresh. -/
structure MainLands (g : ElectGlobalState) (idx : List ProducerInfo) (meq : ProducerElectedQueue)
    (refreshTailPrev refreshTailNext : Bool) : Prop where
  count : meq.lastProducerCount = g.maxMainProducerCount
  tailPrev : Awaits idx refreshTailPrev meq.tailPrev (g.maxMainProducerCount - 2)
  tail : Stands idx meq.tail (g.maxMainProducerCount - 1)
  tailNext : Awaits idx refreshTailNext meq.tailNext g.maxMainProducerCount

/-- The backup queue of `K` producers a branch leaves behind, with what it asks to refresh. -/
structure BackupLands (g : ElectGlobalState) (idx : List ProducerInfo) (beq : ProducerElectedQueue)
    (refreshTailPrev refreshTailNext : Bool) (K : ℕ) : Prop where
  count : beq.lastProducerCount = K
  ge : minBackupProducerCount ≤ K
  le : K ≤ g.maxBackupProducerCount
  tailPrev : Awaits idx refreshTailPrev beq.tailPrev (g.maxMainProducerCount + K - 2)
  tail : Stands idx beq.tail (g.maxMainProducerCount + K - 1)
  tailNext : Awaits idx refreshTailNext beq.tailNext (g.maxMainProducerCount + K)

/-- What a branch leaves behind fits the index `idx'` after the move. -/
structure QueueStep.Lands (g : ElectGlobalState) (idx idx' : List ProducerInfo) (st : QueueStep)
    (K : ℕ) : Prop where
  main : MainLands g idx' st.meq st.refreshMainTailPrev st.refreshMainTailNext
  backup : BackupLands g idx' st.beq st.refreshBackupTailPrev st.refreshBackupTailNext K
  turns : turn st.ops (g.sets idx) = some (electedSets idx' g.maxMainProducerCount K)

section Branches

variable {g : ElectGlobalState} {idx idx' : List ProducerInfo} {old new : ProducerElectedInfo}
  {i j above below : ℕ} (hs : Synced g idx)
  (hm : Moves idx idx' (g.maxMainProducerCount + g.backupCount) old new
    i j above below)

include hs hm

/-- The main queue when the producer moves behind it. -/
private theorem main_still (hi : g.maxMainProducerCount < i) (hj : g.maxMainProducerCount < j) :
    MainLands g idx' g.mainElectedQueue false false where
  count := hs.mainCount
  tailPrev := hm.still hs.mainTailPrev (by omega)
  tail := hm.still hs.mainTail (by omega)
  tailNext := hm.still hs.mainTailNext (by omega)

/-- The main queue when the producer moves behind it, or comes to stand right behind it. -/
private theorem main_arrived (hi : g.maxMainProducerCount ≤ i) (hj : j = g.maxMainProducerCount) :
    MainLands g idx' { g.mainElectedQueue with tailNext := new } false false where
  count := hs.mainCount
  tailPrev := hm.still hs.mainTailPrev (by have := hs.two_le; omega)
  tail := hm.still hs.mainTail (by have := hs.two_le; omega)
  tailNext := hm.arrived (by omega)

/-- The backup queue when the producer moves before its end. -/
private theorem backup_still
    (hi : i + 2 < g.maxMainProducerCount + g.backupCount)
    (hj : j + 2 < g.maxMainProducerCount + g.backupCount) :
    BackupLands g idx' g.backupElectedQueue false false g.backupCount where
  count := rfl
  ge := hs.backup_ge
  le := hs.backup_le
  tailPrev := hm.still hs.backupTailPrev (by omega)
  tail := hm.still hs.backupTail (by omega)
  tailNext := hm.still hs.backupTailNext (by omega)

/-- A main producer moves. -/
theorem processMainProducer_lands (hi : i < g.maxMainProducerCount) :
    Yields (processMainProducer g old new) fun st => ∃ K, st.Lands g idx idx' K := by
  have h2 := hs.two_le
  have hK := hs.backup_ge
  have hlen := hs.backupTailNext.lt_length
  have hmn := hs.mainTailNext.namedAt hm.ranked
  have hbn := hs.backupTailNext.namedAt hm.ranked
  have hord := hm.order
  simp only [minBackupProducerCount] at hK
  unfold processMainProducer
  simp only [g.lastProducerCount_eq, hm.new_ge hs.mainTailPrev (by omega), hm.new_ge hs.mainTail (by omega),
    hm.new_gt hs.mainTailNext (by omega), hm.new_gt hs.backupTail (by omega),
    hm.new_lt hs.backupTailPrev (by omega), hm.new_gt hs.backupTailNext le_rfl,
    hm.named hs.mainTailPrev, hm.named hs.mainTail, ne_eq, decide_eq_true_eq]
  refine .ite (fun h₁ => ?_) fun h₁ => .ite (fun h₂ => ?_) fun h₂ => .ite (fun h₃ => ?_) fun h₃ => ?_
  · -- it stays before the tail
    have hback := backup_still hs hm (show i + 2 < _ by omega) (by omega)
    have hturn := hm.turn_modifyMain hlen hi (show j < _ by omega) (b := ¬new.authority = old.authority)
    have hnext := hm.still hs.mainTailNext (l := g.maxMainProducerCount) (by omega)
    refine .ite (fun h₃ => .ok ⟨_, ⟨hs.mainCount, ?_, ?_, hnext⟩, hback, hturn⟩) fun h₃ =>
      .ite (fun h₄ => .ok ⟨_, ⟨hs.mainCount, ?_, ?_, hnext⟩, hback, hturn⟩) fun h₄ =>
      .ok ⟨_, ⟨hs.mainCount, ?_, ?_, hnext⟩, hback, hturn⟩
    · exact .of_occupied rfl (hm.occupied hlen (by omega))
    · exact hm.still hs.mainTail (by omega)
    · exact .of_occupied rfl (hm.occupied hlen (by omega))
    · exact hm.pushed hs.mainTailPrev (by omega)
    · exact hm.still hs.mainTailPrev (by omega)
    · exact hm.still hs.mainTail (by omega)
  · -- it comes to stand around the tail
    have hback := backup_still hs hm (show i + 2 < _ by omega) (by omega)
    have hturn := hm.turn_modifyMain hlen hi (show j < _ by omega) (b := ¬new.authority = old.authority)
    have hnext := hm.still hs.mainTailNext (l := g.maxMainProducerCount) (by omega)
    refine .ite (fun h₃ => .ok ⟨_, ⟨hs.mainCount, ?_, ?_, hnext⟩, hback, hturn⟩) fun h₃ =>
      .ite (fun h₄ => .ok ⟨_, ⟨hs.mainCount, ?_, ?_, hnext⟩, hback, hturn⟩) fun h₄ =>
      .ok ⟨_, ⟨hs.mainCount, ?_, ?_, hnext⟩, hback, hturn⟩
    · exact hm.still hs.mainTailPrev (by omega)
    · exact hm.arrived (by omega)
    · exact hm.arrived (by omega)
    · exact hm.still hs.mainTail (by omega)
    · exact .of_occupied rfl (hm.occupied hlen (by omega))
    · exact hm.still hs.mainTail (by omega)
  · -- it becomes the tail
    have hback := backup_still hs hm (show i + 2 < _ by omega) (by omega)
    have hturn := hm.turn_modifyMain hlen hi (show j < _ by omega) (b := ¬new.authority = old.authority)
    refine .ok ⟨_, ⟨hs.mainCount, ?_, hm.arrived (by omega), hm.still hs.mainTailNext (by omega)⟩,
      hback, hturn⟩
    dsimp only
    split_ifs with h₄
    · exact hm.still hs.mainTailPrev (by omega)
    · exact hm.pulled hs.mainTail (by omega)
  · -- it leaves the main producers, and the first backup producer is the new tail
    have hmain : MainLands g idx'
        { g.mainElectedQueue with
          tailPrev := if ¬i = g.maxMainProducerCount - 1 then g.mainElectedQueue.tail
            else g.mainElectedQueue.tailPrev
          tail := g.mainElectedQueue.tailNext
          tailNext := .clear } false true := by
      refine ⟨hs.mainCount, ?_, hm.pulled hs.mainTailNext (by omega),
        .of_occupied rfl (hm.occupied hlen (by omega))⟩
      dsimp only
      split_ifs with h₄
      · exact hm.still hs.mainTailPrev (by omega)
      · exact hm.pulled hs.mainTail (by omega)
    refine .check ⟨by omega, by rw [hs.backupTail.name_ne hm.ranked]; rfl⟩ ?_
    refine .ite (fun h₄ => ?_) fun h₄ => .ite (fun h₅ => ?_) fun h₅ => ?_
    · refine .ok ⟨_, hmain, ⟨?_, hs.backup_ge, hs.backup_le, ?_, ?_, ?_⟩,
        hm.turn_main_to_backup hlen hmn hi (by omega)⟩
      all_goals dsimp only
      · split_ifs <;> rfl
      · split_ifs with h₅
        · exact hm.arrived (by omega)
        · exact hm.still hs.backupTailPrev (by omega)
      · split_ifs <;> exact hm.still hs.backupTail (by omega)
      · split_ifs <;> exact hm.still hs.backupTailNext (by omega)
    · refine .ite (fun h₆ => .ok ⟨g.backupCount, hmain, ⟨rfl, hs.backup_ge, hs.backup_le, ?_, ?_, ?_⟩, ?_⟩)
        fun h₆ => .ok ⟨g.backupCount - 1, hmain, ⟨rfl, ?_, ?_, ?_, ?_, ?_⟩, ?_⟩
      · exact hm.pulled hs.backupTail (by omega)
      · exact hm.arrived (by omega)
      · exact hm.still hs.backupTailNext (by omega)
      · exact hm.turn_main_to_backup hlen hmn hi (by omega)
      · simp only [minBackupProducerCount] at h₆ ⊢
        omega
      · have := hs.backup_le
        omega
      · exact hm.pulled hs.backupTailPrev (by omega)
      · exact hm.pulled hs.backupTail (by omega)
      · exact hm.arrived (by omega)
      · exact hm.turn_main_out_shrink hlen hmn (by omega) hi (by omega)
    · refine .ite (fun h₆ => .ok ⟨g.backupCount, hmain, ⟨rfl, hs.backup_ge, hs.backup_le, ?_, ?_, ?_⟩, ?_⟩)
        fun h₆ => .ok ⟨g.backupCount - 1, hmain, ⟨rfl, ?_, ?_, ?_, ?_, ?_⟩, ?_⟩
      · exact hm.pulled hs.backupTail (by omega)
      · exact hm.pulled hs.backupTailNext (by omega)
      · exact .of_occupied rfl (hm.occupied hlen le_rfl)
      · exact hm.turn_main_out_refill hlen hmn hbn (by omega) hi (by omega)
      · simp only [minBackupProducerCount] at h₆ ⊢
        omega
      · have := hs.backup_le
        omega
      · exact hm.pulled hs.backupTailPrev (by omega)
      · exact hm.pulled hs.backupTail (by omega)
      · exact hm.pulled hs.backupTailNext (by omega)
      · exact hm.turn_main_out_shrink hlen hmn (by omega) hi (by omega)

/-- The main queue when a producer joins it. -/
private theorem main_entered (hi : g.maxMainProducerCount ≤ i) (hj : j + 1 ≤ g.maxMainProducerCount)
    {b : Bool} (hb : b = decide (j + 2 ≤ g.maxMainProducerCount)) :
    MainLands g idx'
      (if b then
        { g.mainElectedQueue with
          tailNext := g.mainElectedQueue.tail, tail := g.mainElectedQueue.tailPrev
          tailPrev := .clear }
      else { g.mainElectedQueue with tailNext := g.mainElectedQueue.tail, tail := new })
      b false := by
  have h2 := hs.two_le
  have hlen := hs.backupTailNext.lt_length
  cases b with
  | true =>
    have hj' := of_decide_eq_true hb.symm
    exact ⟨hs.mainCount, .of_occupied rfl (hm.occupied hlen (by omega)),
      hm.pushed hs.mainTailPrev (by omega), hm.pushed hs.mainTail (by omega)⟩
  | false =>
    have hj' := of_decide_eq_false hb.symm
    exact ⟨hs.mainCount, hm.still hs.mainTailPrev (by omega), hm.arrived (by omega),
      hm.pushed hs.mainTail (by omega)⟩

/-- What `pop_backup_tail` answers when a candidate joins the main producers. -/
private theorem popBackupTail_yields
    (hi : g.maxMainProducerCount + g.backupCount ≤ i)
    (hj : j < g.maxMainProducerCount)
    (hbehind : i = g.maxMainProducerCount + g.backupCount →
      g.backupCount < g.maxBackupProducerCount →
      ∀ p, idx'[i + 1]? = some p → p.isActive = true) :
    Yields (popBackupTail g idx' old) fun r => r.2 = true ∨
      r.2 = false ∧ g.backupCount < g.maxBackupProducerCount ∧
        Stands idx' r.1
          (g.maxMainProducerCount + g.backupCount + 1) := by
  have hK := hs.backup_ge
  have hM := hs.backup_le
  simp only [minBackupProducerCount] at hK
  unfold popBackupTail
  simp only [g.lastProducerCount_eq, hm.old_eq hs.backupTailNext le_rfl, decide_eq_true_eq]
  refine .ite (fun h₁ => .ok (.inl rfl)) fun h₁ => .ite (fun h₂ => ?_) fun h₂ => .ok (.inr ?_)
  · have htail : Stands idx' g.backupElectedQueue.tail i := hm.pushed hs.backupTail (by omega)
    cases hp : idx'[i + 1]? with
    | none =>
      rw [htail.fetchNext_none hm.ranked' (List.getElem?_eq_none_iff.mp hp)]
      exact .ok (.inl rfl)
    | some p =>
      obtain ⟨next, hnext, hstands⟩ := htail.fetchNext_ok hm.ranked' hp
        (hbehind h₂ (by omega) p hp) hs.backupTailNext.active false "backup queue tail next"
      rw [hnext]
      refine .ok (.inr ⟨hstands.name_ne hm.ranked', by omega, ?_⟩)
      rw [← h₂]
      exact hstands
  · exact ⟨rfl, by omega, hm.pushed hs.backupTailNext (by omega)⟩

/-- A producer joins the main producers. -/
theorem processMainEntry_lands (hi : g.maxMainProducerCount ≤ i)
    (hj : above ≤ g.maxMainProducerCount - 1)
    (hbehind : i = g.maxMainProducerCount + g.backupCount →
      g.backupCount < g.maxBackupProducerCount →
      ∀ p, idx'[i + 1]? = some p → p.isActive = true) :
    Yields (processMainEntry g idx' old new) fun st => ∃ K, st.Lands g idx idx' K := by
  have h2 := hs.two_le
  have hK := hs.backup_ge
  have hM := hs.backup_le
  have hlen := hs.backupTailNext.lt_length
  have hmt := hs.mainTail.namedAt hm.ranked
  have hbt := hs.backupTail.namedAt hm.ranked
  have hord := hm.order
  simp only [minBackupProducerCount] at hK
  have hmain := main_entered hs hm hi (by omega) (b := new.gt g.mainElectedQueue.tailPrev) (by
    rw [hm.new_gt hs.mainTailPrev (by omega), decide_eq_decide]
    omega)
  unfold processMainEntry
  simp only [g.lastProducerCount_eq, hm.old_ge hs.backupTail (by omega), hm.old_eq hs.backupTailPrev (by omega),
    hm.old_eq hs.backupTail (by omega), decide_eq_true_eq]
  refine .ite (fun h₁ => ?_) fun h₁ => .bind
    (popBackupTail_yields hs hm (by omega) (by omega) hbehind) fun r hr => ?_
  · -- it was a backup producer
    have hturn := hm.turn_backup_to_main hlen hmt (by omega) (show j < _ by omega)
    refine .ite (fun h₂ => .ok ⟨g.backupCount, hmain, ⟨rfl, hs.backup_ge, hM, ?_, ?_, ?_⟩, hturn⟩) fun h₂ =>
      .ite (fun h₃ => .ok ⟨g.backupCount, hmain, ⟨rfl, hs.backup_ge, hM, ?_, ?_, ?_⟩, hturn⟩) fun h₃ =>
      .ok ⟨_, hmain, backup_still hs hm (by omega) (by omega), hturn⟩
    · exact .of_occupied rfl (hm.occupied hlen (by omega))
    · exact hm.still hs.backupTail (by omega)
    · exact hm.still hs.backupTailNext (by omega)
    · exact .of_occupied rfl (hm.occupied hlen (by omega))
    · exact hm.pushed hs.backupTailPrev (by omega)
    · exact hm.still hs.backupTailNext (by omega)
  · obtain ⟨tailNext, isPopTail⟩ := r
    rcases hr with rfl | ⟨rfl, hlt, hnext⟩
    · -- the last backup producer makes room
      rw [if_pos rfl]
      refine .ok ⟨g.backupCount, hmain, ⟨rfl, hs.backup_ge, hM, ?_, ?_, ?_⟩,
        hm.turn_enter_main_pop hlen hmt hbt (by omega) (by omega) (by omega)⟩
      · exact .of_occupied rfl (hm.occupied hlen (by omega))
      · exact hm.pushed hs.backupTailPrev (by omega)
      · exact hm.pushed hs.backupTail (by omega)
    · -- the backup queue gets longer
      rw [if_neg (by simp)]
      refine .ok ⟨g.backupCount + 1, hmain, ⟨rfl, ?_, hlt, ?_, ?_, hnext⟩,
        hm.turn_enter_main_grow hlen hmt (by omega) (by omega)⟩
      · simp only [minBackupProducerCount]
        omega
      · exact hm.pushed hs.backupTailPrev (by omega)
      · exact hm.pushed hs.backupTail (by omega)

/-- The main queue when a backup producer falls back. -/
private theorem main_left
    (hlen : g.maxMainProducerCount + g.backupCount < idx.length)
    (hi : g.maxMainProducerCount ≤ i) (hj : g.maxMainProducerCount < j) :
    MainLands g idx' g.mainElectedQueue false (decide (i = g.maxMainProducerCount)) := by
  have h2 := hs.two_le
  refine ⟨hs.mainCount, hm.still hs.mainTailPrev (by omega), hm.still hs.mainTail (by omega), ?_⟩
  by_cases hin : i = g.maxMainProducerCount
  · rw [decide_eq_true hin]
    exact .of_occupied hs.mainTailNext.active (hm.occupied hlen (by omega))
  · rw [decide_eq_false hin]
    exact hm.still hs.mainTailNext (by omega)

omit hs in
/-- The record of the producer itself, when its new record is equal to it. -/
private theorem stands_of_eq {c : ProducerElectedInfo} (hc : Stands idx c i)
    (hi : i ≤ g.maxMainProducerCount + g.backupCount)
    (he : ¬above ≤ i ∧ below ≤ i) : Stands idx' c i := by
  have hord := hm.order
  have hnew := hm.arrived (l := i) (by omega)
  have heq := (hm.new_eq hc hi).trans (decide_eq_true he)
  rw [ProducerElectedInfo.eq_eq hm.regular (hc.regular hm.ranked), decide_eq_true_iff] at heq
  obtain ⟨hv, hn⟩ := ProducerElectedInfo.key_inj hm.regular (hc.regular hm.ranked) heq
  obtain ⟨p, hp, hpa, hpn, hpv⟩ := hnew.row
  exact ⟨⟨p, hp, hpa, hn ▸ hpn, hv ▸ hpv⟩, hc.active⟩

/-- A backup producer moves, but not to the main producers. -/
theorem processBackupProducer_lands (hi : g.maxMainProducerCount ≤ i)
    (hi' : i < g.maxMainProducerCount + g.backupCount)
    (hj : ¬above ≤ g.maxMainProducerCount - 1) :
    Yields (processBackupProducer g old new) fun st => ∃ K, st.Lands g idx idx' K := by
  have h2 := hs.two_le
  have hK := hs.backup_ge
  have hM := hs.backup_le
  have hlen := hs.backupTailNext.lt_length
  have hbn := hs.backupTailNext.namedAt hm.ranked
  have hord := hm.order
  simp only [minBackupProducerCount] at hK
  unfold processBackupProducer
  simp only [g.lastProducerCount_eq, hm.new_ge hs.mainTailNext (by omega), hm.new_ge hs.backupTailPrev (by omega),
    hm.new_ge hs.backupTail (by omega), hm.new_gt hs.backupTailNext le_rfl,
    hm.new_eq hs.backupTailPrev (by omega), hm.old_eq hs.mainTailNext (by omega),
    hm.old_eq hs.backupTailPrev (by omega), hm.old_eq hs.backupTail (by omega), decide_eq_true_eq]
  refine .ite (fun h₁ => ?_) fun h₁ => .ite (fun h₂ => ?_) fun h₂ => .ite (fun h₃ => ?_) fun h₃ =>
    .ite (fun h₄ => ?_) fun h₄ => ?_
  · -- it is the first backup producer
    have hmain := main_arrived hs hm hi (by omega)
    have hturn := hm.turn_modifyBackup hlen ⟨hi, hi'⟩ (by omega)
      (b := ¬new.authority = old.authority)
    refine .ite (fun h₂ => .ok ⟨g.backupCount, hmain, ⟨rfl, hs.backup_ge, hM, ?_, ?_, ?_⟩, hturn⟩) fun h₂ =>
      .ite (fun h₃ => .ok ⟨g.backupCount, hmain, ⟨rfl, hs.backup_ge, hM, ?_, ?_, ?_⟩, hturn⟩) fun h₃ =>
      .ok ⟨_, hmain, backup_still hs hm (by omega) (by omega), hturn⟩
    · exact .of_occupied hs.backupTailPrev.active (hm.occupied hlen (by omega))
    · exact hm.still hs.backupTail (by omega)
    · exact hm.still hs.backupTailNext (by omega)
    · exact .of_occupied hs.backupTailPrev.active (hm.occupied hlen (by omega))
    · exact hm.pushed hs.backupTailPrev (by omega)
    · exact hm.still hs.backupTailNext (by omega)
  · -- it stays inside the backup queue
    have hturn := hm.turn_modifyBackup hlen ⟨hi, hi'⟩ (by omega)
      (b := ¬new.authority = old.authority)
    refine .ite (fun h₃ => ?_) fun h₃ => .ite (fun h₄ => ?_) fun h₄ => .ite (fun h₅ => ?_) fun h₅ => ?_
    · exact .ok ⟨_, ⟨hs.mainCount, hm.still hs.mainTailPrev (by omega),
        hm.still hs.mainTail (by omega),
        .of_occupied hs.mainTailNext.active (hm.occupied hlen (by omega))⟩,
        backup_still hs hm (by omega) (by omega), hturn⟩
    · refine .ok ⟨g.backupCount, main_still hs hm (by omega) (by omega),
        ⟨rfl, hs.backup_ge, hM, ?_, hm.still hs.backupTail (by omega),
          hm.still hs.backupTailNext (by omega)⟩, hturn⟩
      have hprev := hs.backupTailPrev
      rw [← h₄] at hprev h₂ ⊢
      by_cases h₅ : ¬above ≤ i ∧ below ≤ i
      · simp only [decide_eq_true h₅, Bool.not_true]
        exact stands_of_eq hm hprev (by omega) h₅
      · simp only [decide_eq_false h₅, Bool.not_false]
        exact .of_occupied hprev.active (hm.occupied hlen (by omega))
    · refine .ok ⟨g.backupCount, main_still hs hm (by omega) (by omega),
        ⟨rfl, hs.backup_ge, hM, ?_, hm.pushed hs.backupTailPrev (by omega),
          hm.still hs.backupTailNext (by omega)⟩, hturn⟩
      exact .of_occupied hs.backupTailPrev.active (hm.occupied hlen (by omega))
    · exact .ok ⟨_, main_still hs hm (by omega) (by omega),
        backup_still hs hm (by omega) (by omega), hturn⟩
  · -- it comes to stand around the tail
    have hturn := hm.turn_modifyBackup hlen ⟨hi, hi'⟩ (by omega)
      (b := ¬new.authority = old.authority)
    have hnext := hm.still hs.backupTailNext
      (l := g.maxMainProducerCount + g.backupCount) (by omega)
    refine .ite (fun h₄ => ?_) fun h₄ => .ite (fun h₅ => ?_) fun h₅ => ?_
    · exact .ok ⟨g.backupCount, main_still hs hm (by omega) (by omega), ⟨rfl, hs.backup_ge, hM,
        hm.still hs.backupTailPrev (by omega), hm.arrived (by omega),
        hnext⟩, hturn⟩
    · exact .ok ⟨g.backupCount, ⟨hs.mainCount, hm.still hs.mainTailPrev (by omega),
        hm.still hs.mainTail (by omega), .of_occupied rfl (hm.occupied hlen (by omega))⟩,
        ⟨rfl, hs.backup_ge, hM, hm.arrived (by omega),
          hm.still hs.backupTail (by omega), hnext⟩, hturn⟩
    · exact .ok ⟨g.backupCount, main_still hs hm (by omega) (by omega), ⟨rfl, hs.backup_ge, hM,
        hm.arrived (by omega), hm.still hs.backupTail (by omega),
        hnext⟩, hturn⟩
  · -- it comes to stand between the tail and the next record
    refine .ite (fun h₅ => ?_) fun h₅ => ?_
    · have hturn := hm.turn_modifyBackup hlen ⟨hi, hi'⟩ (by omega)
        (b := ¬new.authority = old.authority)
      have hnext := hm.still hs.backupTailNext
        (l := g.maxMainProducerCount + g.backupCount) (by omega)
      refine .ite (fun h₆ => ?_) fun h₆ => ?_
      · exact .ok ⟨g.backupCount, main_still hs hm (by omega) (by omega), ⟨rfl, hs.backup_ge, hM,
          hm.still hs.backupTailPrev (by omega), hm.arrived (by omega),
          hnext⟩, hturn⟩
      · exact .ok ⟨g.backupCount, main_left hs hm hlen hi (by omega), ⟨rfl, hs.backup_ge, hM,
          hm.pulled hs.backupTail (by omega), hm.arrived (by omega),
          hnext⟩, hturn⟩
    · have hge : minBackupProducerCount ≤ g.backupCount - 1 := by
        simp only [minBackupProducerCount] at h₅ ⊢
        omega
      have hturn := hm.turn_backup_out_shrink hlen ⟨hi, hi'⟩ (by omega)
      refine .ite (fun h₆ => ?_) fun h₆ => .ite (fun h₇ => ?_) fun h₇ => ?_
      · exact .ok ⟨g.backupCount - 1, main_still hs hm (by omega) (by omega), ⟨rfl, hge, by omega,
          .of_occupied hs.backupTailPrev.active (hm.occupied hlen (by omega)),
          hm.still hs.backupTailPrev (by omega), hm.arrived (by omega)⟩, hturn⟩
      · exact .ok ⟨g.backupCount - 1, main_still hs hm (by omega) (by omega), ⟨rfl, hge, by omega,
          .of_occupied hs.backupTailPrev.active (hm.occupied hlen (by omega)),
          hm.pulled hs.backupTail (by omega), hm.arrived (by omega)⟩, hturn⟩
      · exact .ok ⟨g.backupCount - 1, main_left hs hm hlen hi (by omega), ⟨rfl, hge, by omega,
          hm.pulled hs.backupTailPrev (by omega), hm.pulled hs.backupTail (by omega),
          hm.arrived (by omega)⟩, hturn⟩
  · -- it goes behind the next record
    refine .ite (fun h₅ => ?_) fun h₅ => ?_
    · refine .ok ⟨g.backupCount, ?_, ⟨rfl, hs.backup_ge, hM, ?_, hm.pulled hs.backupTailNext (by omega),
        .of_occupied hs.backupTailNext.active (hm.occupied hlen le_rfl)⟩,
        hm.turn_backup_out_refill hlen hbn ⟨hi, hi'⟩ (by omega)⟩
      · have hleft := main_left hs hm hlen hi (by omega)
        by_cases h₆ : i = g.maxMainProducerCount
        · simp only [h₆, decide_true, if_true] at hleft ⊢
          exact ⟨hleft.count, hleft.tailPrev, hleft.tail, .of_occupied rfl hleft.tailNext.2⟩
        · simpa only [h₆, decide_false, if_false] using hleft
      · dsimp only
        split_ifs with h₆
        · exact hm.still hs.backupTailPrev (by omega)
        · exact hm.pulled hs.backupTail (by omega)
    · have hge : minBackupProducerCount ≤ g.backupCount - 1 := by
        simp only [minBackupProducerCount] at h₅ ⊢
        omega
      have hturn := hm.turn_backup_out_shrink hlen ⟨hi, hi'⟩ (by omega)
      have hnext := hm.pulled hs.backupTailNext
        (l := g.maxMainProducerCount + (g.backupCount - 1)) (by omega)
      refine .ite (fun h₆ => ?_) fun h₆ => .ite (fun h₇ => ?_) fun h₇ => ?_
      · exact .ok ⟨g.backupCount - 1, main_still hs hm (by omega) (by omega), ⟨rfl, hge, by omega,
          .of_occupied hs.backupTailPrev.active (hm.occupied hlen (by omega)),
          hm.still hs.backupTailPrev (by omega), hnext⟩, hturn⟩
      · exact .ok ⟨g.backupCount - 1, main_still hs hm (by omega) (by omega), ⟨rfl, hge, by omega,
          .of_occupied hs.backupTailPrev.active (hm.occupied hlen (by omega)),
          hm.pulled hs.backupTail (by omega), hnext⟩, hturn⟩
      · exact .ok ⟨g.backupCount - 1, main_left hs hm hlen hi (by omega), ⟨rfl, hge, by omega,
          hm.pulled hs.backupTailPrev (by omega), hm.pulled hs.backupTail (by omega), hnext⟩, hturn⟩

/-- A candidate moves, but not to the main producers. -/
theorem processCandidate_lands (hi : g.maxMainProducerCount + g.backupCount ≤ i)
    (hj : ¬above ≤ g.maxMainProducerCount - 1)
    (hbehind : g.maxMainProducerCount + g.backupCount < i →
      g.maxMainProducerCount + g.backupCount < j → g.backupCount < g.maxBackupProducerCount →
      g.isProdVotesValid g.backupElectedQueue.tailNext.electedVotes = true →
      ∀ p, idx'[g.maxMainProducerCount + g.backupCount + 1]? = some p → p.isActive = true) :
    Yields (processCandidate g old new) fun st => ∃ K, st.Lands g idx idx' K := by
  have h2 := hs.two_le
  have hK := hs.backup_ge
  have hM := hs.backup_le
  have hlen := hs.backupTailNext.lt_length
  have hbt := hs.backupTail.namedAt hm.ranked
  have hbn := hs.backupTailNext.namedAt hm.ranked
  have hord := hm.order
  have hgrow : minBackupProducerCount ≤ g.backupCount + 1 := by omega
  simp only [minBackupProducerCount] at hK
  unfold processCandidate
  simp only [g.lastProducerCount_eq, hm.new_ge hs.backupTail (by omega), hm.new_eq hs.backupTail (by omega),
    hm.new_lt hs.backupTailPrev (by omega), hm.new_gt hs.mainTailNext (by omega),
    hm.new_ge hs.backupTailNext le_rfl, hm.old_eq hs.backupTailNext le_rfl]
  simp only [Bool.and_eq_true, Bool.not_eq_true', decide_eq_false_iff_not, decide_eq_true_eq]
  refine .ite (fun h₁ => .check (by omega) ?_) fun h₁ => .ite (fun h₂ => ?_) fun h₂ => ?_
  · -- it joins the backup producers
    refine .ite (fun h₂ => ?_) fun h₂ => ?_
    · have hlt := of_decide_eq_true h₂.1.1
      have hturn := hm.turn_enter_backup_grow hlen hi (by omega)
      have htail := hm.pushed hs.backupTail (l := g.maxMainProducerCount + (g.backupCount + 1) - 1)
        (by omega)
      have hnext := hm.pushed hs.backupTailNext (l := g.maxMainProducerCount + (g.backupCount + 1))
        (by omega)
      refine .ite (fun h₃ => ?_) fun h₃ => .ite (fun h₄ => ?_) fun h₄ => ?_
      · exact .ok ⟨g.backupCount + 1, main_still hs hm (by omega) (by omega), ⟨rfl, hgrow, hlt,
          hm.arrived (by omega), htail, hnext⟩, hturn⟩
      · exact .ok ⟨g.backupCount + 1, main_arrived hs hm (by omega) (by omega), ⟨rfl, hgrow, hlt,
          hm.pushed hs.backupTailPrev (by omega), htail, hnext⟩, hturn⟩
      · exact .ok ⟨g.backupCount + 1, main_still hs hm (by omega) (by omega), ⟨rfl, hgrow, hlt,
          hm.pushed hs.backupTailPrev (by omega), htail, hnext⟩, hturn⟩
    · have hturn := hm.turn_enter_backup_pop hlen hbt (by omega) hi (by omega)
      have hnext := hm.pushed hs.backupTail (l := g.maxMainProducerCount + g.backupCount) (by omega)
      refine .ite (fun h₃ => ?_) fun h₃ => ?_
      · exact .ok ⟨g.backupCount, main_still hs hm (by omega) (by omega), ⟨rfl, hs.backup_ge, hM,
          hm.still hs.backupTailPrev (by omega), hm.arrived (by omega), hnext⟩, hturn⟩
      · refine .ok ⟨g.backupCount, ?_, ⟨rfl, hs.backup_ge, hM,
          .of_occupied hs.backupTailPrev.active (hm.occupied hlen (by omega)),
          hm.pushed hs.backupTailPrev (by omega), hnext⟩, hturn⟩
        dsimp only
        split_ifs with h₄
        · exact main_arrived hs hm (by omega) (by omega)
        · exact main_still hs hm (by omega) (by omega)
  · -- it becomes the tail, or the record behind it
    refine .ite (fun h₃ => ?_) fun h₃ => ?_
    · have hlt := of_decide_eq_true h₃.1.1
      exact .ok ⟨g.backupCount + 1, main_still hs hm (by omega) (by omega), ⟨rfl, hgrow, hlt,
        hm.still hs.backupTail (by omega), hm.arrived (by omega),
        hm.pushed hs.backupTailNext (by omega)⟩, hm.turn_enter_backup_grow hlen hi (by omega)⟩
    · exact .ok ⟨g.backupCount, main_still hs hm (by omega) (by omega), ⟨rfl, hs.backup_ge, hM,
        hm.still hs.backupTailPrev (by omega), hm.still hs.backupTail (by omega),
        hm.arrived (by omega)⟩, hm.turn_keep hlen (by omega) (by omega)⟩
  · -- it stays behind
    refine .ite (fun h₃ => ?_) fun h₃ => ?_
    · obtain ⟨⟨hlt, hne⟩, hvalid⟩ := h₃
      have hlt := of_decide_eq_true hlt
      have hp := List.getElem?_eq_getElem
        (show g.maxMainProducerCount + g.backupCount + 1 < idx'.length by
          have := hm.left_lt
          rw [hm.length]
          omega)
      exact .ok ⟨g.backupCount + 1, main_still hs hm (by omega) (by omega), ⟨rfl, hgrow, hlt,
        hm.still hs.backupTail (by omega), hm.still hs.backupTailNext (by omega),
        .of_occupied hs.backupTailNext.active
          ⟨_, hp, hbehind (by omega) (by omega) hlt hvalid _ hp⟩⟩,
        hm.turn_grow hlen hbn (by omega) (by omega)⟩
    · refine .ok ⟨g.backupCount, main_still hs hm (by omega) (by omega), ⟨rfl, hs.backup_ge, hM,
        hm.still hs.backupTailPrev (by omega), hm.still hs.backupTail (by omega), ?_⟩,
        hm.turn_keep hlen (by omega) (by omega)⟩
      by_cases h₄ : i = g.maxMainProducerCount + g.backupCount
      · simp only [decide_eq_true h₄]
        exact .of_occupied hs.backupTailNext.active (hm.occupied hlen le_rfl)
      · simp only [decide_eq_false h₄]
        exact hm.still hs.backupTailNext (by omega)

end Branches

end Amax
