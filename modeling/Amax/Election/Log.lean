-- SUMMARY: The log of changes replayed on a layer below the contract, and how saving and flushing change what it leads to.
import Amax.Base.Replay
import Amax.Election.Blocks
import Amax.Election.Flush

/-! # The log of changes

The rows of `electchange` that carry the current number of the elections are the
changes the chain has not taken yet. Replayed one after the other on what the
chain has, they lead to what the contract wants it to have, whether a layer below
keeps names only or also their authorities. -/

namespace Amax

-- ---------------------------------------------------------------------------
-- Layers
-- ---------------------------------------------------------------------------

/-- A layer below the contract: what sets of changes do to its states, and which
states have producers in both sets. -/
structure Layer (σ : Type) where
  apply : ProposedProducerChanges → σ → Option σ
  Filled : σ → Prop
  apply_empty : ∀ x, apply {} x = some x
  apply_merge : ∀ {src dest x y z}, apply dest x = some y → apply src y = some z →
    ∃ out, src.merge dest = .ok out ∧ apply out x = some z
  apply_idle : ∀ {c x y}, c.getChangeSize = 0 → apply c x = some y → Filled y → y = x

/-- The rows of a log lead from `x` to `z`, and every state after a row is filled. -/
def Layer.Replays {σ : Type} (L : Layer σ) : σ → List ElectedChange → σ → Prop :=
  Replay.Passes (fun row => L.apply row.changes) L.Filled

/-- The rows of the log that are to be proposed. -/
def Elections.pending (e : Elections) : List ElectedChange :=
  e.electedChanges.rows.filter (·.electedSequence = e.electedSequence)

/-- The identifiers of the log are given out in order, and the pending rows lead from `x` to `y`
unless the changes are interrupted. -/
structure Logged {σ : Type} (L : Layer σ) (x y : σ) (e : Elections) : Prop where
  ids : ∀ row ∈ e.electedChanges.rows, row.id ≤ e.electGstate.lastProducerChangeId
  replays : e.electGstate.producerChangeInterrupted = false → L.Replays x e.pending y

/-- No row of the log carries the number of the next sequence. -/
def Elections.FreshNext (e : Elections) : Prop :=
  ∀ row ∈ e.electedChanges.rows, row.electedSequence ≠ nextSequence e.electedSequence

instance (e : Elections) : Decidable e.FreshNext := inferInstanceAs (Decidable (∀ _ ∈ _, _))

theorem Elections.FreshNext.pending_eq_nil {e e' : Elections} (h : e.FreshNext)
    (hlog : e'.electedChanges = e.electedChanges)
    (hseq : e'.electedSequence = nextSequence e.electedSequence) : e'.pending = [] := by
  rw [pending, hlog, hseq, List.filter_eq_nil_iff]
  exact fun row hrow => by simpa using h row hrow

-- ---------------------------------------------------------------------------
-- Saving
-- ---------------------------------------------------------------------------

namespace Logged

variable {σ : Type} {L : Layer σ} {x y z : σ} {e e' : Elections} {env : Env} {s : System}
  {changes : ProposedProducerChanges}

/-- The log depends on few fields. -/
theorem congr (h : Logged L x y e) (hlog : e'.electedChanges = e.electedChanges)
    (hid : e'.electGstate.lastProducerChangeId = e.electGstate.lastProducerChangeId)
    (hseq : e'.electedSequence = e.electedSequence)
    (hi : e'.electGstate.producerChangeInterrupted = e.electGstate.producerChangeInterrupted) :
    Logged L x y e' := by
  refine ⟨?_, fun hrun => ?_⟩
  · rw [hlog, hid]
    exact h.ids
  · rw [Elections.pending, hlog, hseq]
    exact h.replays (hi.symm.trans hrun)

/-- While the changes are interrupted nothing is asked of the pending rows. -/
theorem idle (h : Logged L x y e) (hi : e.electGstate.producerChangeInterrupted = true) :
    Logged L z y e ∧ Logged L x z e :=
  ⟨⟨h.ids, fun hrun => by simp [hi] at hrun⟩, ⟨h.ids, fun hrun => by simp [hi] at hrun⟩⟩

private theorem rows_emplaceChange (h : Logged L x y s.elections) :
    (emplaceChange env s changes).electedChanges.rows = s.electedChanges.rows ++
      [{ id := s.electGstate.lastProducerChangeId + 1, electedSequence := s.gstate.electedSequence
         changes, createdAt := TimePoint.toSlot env.now }] :=
  Table.rows_set_append fun row hrow => Nat.lt_succ_of_le (h.ids row hrow)

private theorem ids_emplaceChange (h : Logged L x y s.elections) :
    ∀ row ∈ (emplaceChange env s changes).electedChanges.rows,
      row.id ≤ s.electGstate.lastProducerChangeId + 1 := by
  rw [h.rows_emplaceChange]
  intro row hrow
  rcases List.mem_append.mp hrow with hold | hnew
  · exact (h.ids row hold).trans (Nat.le_succ _)
  · rw [List.mem_singleton.mp hnew]

theorem pending_emplaceChange (h : Logged L x y s.elections) :
    (emplaceChange env s changes).elections.pending = s.elections.pending ++
      [{ id := s.electGstate.lastProducerChangeId + 1, electedSequence := s.gstate.electedSequence
         changes, createdAt := TimePoint.toSlot env.now }] := by
  rw [Elections.pending, Elections.pending, System.elections]
  simp only [h.rows_emplaceChange, List.filter_append]
  congr 1
  simp [emplaceChange]

/-- The changes of an action follow the pending rows. -/
theorem recorded (h : Logged L x y s.elections) (happly : L.apply changes y = some z)
    (hz : L.Filled z) : Logged L x z (emplaceChange env s changes).elections := by
  refine ⟨h.ids_emplaceChange, fun hrun => ?_⟩
  rw [h.pending_emplaceChange]
  exact (h.replays hrun).concat happly hz

/-- An election that restarts has one pending row. -/
theorem restarted (h : Logged L x y s.elections) (hfresh : s.elections.FreshNext)
    {meq beq : ProducerElectedQueue} (happly : L.apply changes x = some z) (hz : L.Filled z) :
    Logged L x z (s.restart env (s.electGstate.withQueues meq beq) changes).elections := by
  -- the restart is an entry in a state that has begun the next sequence
  let t : System := { s with
    gstate := { s.gstate with electedSequence := nextSequence s.gstate.electedSequence }
    electGstate := { s.electGstate.withQueues meq beq with producerChangeInterrupted := false } }
  have hnil : t.elections.pending = [] := hfresh.pending_eq_nil rfl rfl
  have ht : Logged L x x t.elections := ⟨h.ids, fun _ => by rw [hnil]; exact .nil x⟩
  exact ht.recorded happly hz

/-- What is saved is in the log, unless it is nothing. -/
theorem unchanged (h : Logged L x y e) (happly : L.apply changes y = some z) (hz : L.Filled z)
    (hmain : changes.mainChanges.changes.rows = []) (hbackup : changes.backupChanges.changes.rows = []) :
    Logged L x z e := by
  have hsize : changes.getChangeSize = 0 := by
    simp [ProposedProducerChanges.getChangeSize, hmain, hbackup]
  rw [L.apply_idle hsize happly hz]
  exact h

end Logged

-- ---------------------------------------------------------------------------
-- Flushing
-- ---------------------------------------------------------------------------

/-- What a block does with the log: nothing, or the chain takes what the examined rows merge to,
or they merge to nothing and are erased. The changes that the chain takes, if any, are `taken`. -/
inductive Elections.Flushed (e e' : Elections) : (taken : Option ProposedProducerChanges) → Prop
  | kept (log : e'.electedChanges = e.electedChanges) (native : e'.native = e.native) :
      Flushed e e' none
  | taken {k : ℕ} {c : ProposedProducerChanges}
      (examined : Examined e.electedSequence e.electedChanges.rows k c) (size : 0 < c.getChangeSize)
      (log : e'.electedChanges = e.electedChanges.dropFirst k)
      (native : c.apply e.native = some e'.native) : Flushed e e' (some c)
  | erased {k : ℕ} {c : ProposedProducerChanges}
      (examined : Examined e.electedSequence e.electedChanges.rows k c) (size : c.getChangeSize = 0)
      (log : e'.electedChanges = e.electedChanges.dropFirst k) (native : e'.native = e.native) :
      Flushed e e' none

/-- Which changes the chain takes depends on few fields. -/
theorem Elections.Flushed.congr {d d' e e' : Elections} {taken : Option ProposedProducerChanges}
    (h : d.Flushed d' taken) (hlog : d.electedChanges = e.electedChanges)
    (hseq : d.electedSequence = e.electedSequence) (hnative : d.native = e.native)
    (hlog' : d'.electedChanges = e'.electedChanges) (hnative' : d'.native = e'.native) :
    e.Flushed e' taken := by
  cases h with
  | kept log native => exact .kept (by rw [← hlog', log, hlog]) (by rw [← hnative', native, hnative])
  | taken examined size log native =>
    rw [hlog, hseq] at examined
    rw [hlog, hlog'] at log
    rw [hnative, hnative'] at native
    exact .taken examined size log native
  | erased examined size log native =>
    rw [hlog, hseq] at examined
    rw [hlog, hlog'] at log
    rw [hnative, hnative'] at native
    exact .erased examined size log native

namespace System

/-- The changes that the chain takes from `update_elected_producer_changes`. -/
def proposed (env : Env) (s : System) : Option ProposedProducerChanges :=
  if (setProposedProducersEx env.nativeSettable {} s.native).1 < 0 then none
  else
    match flushRows s.gstate.electedSequence s.electedChanges.rows 0 {} with
    | .ok (rows, changes) =>
      if rows > 0 ∧ changes.getChangeSize > 0 ∧
          (setProposedProducersEx env.nativeAccepts changes s.native).1 > 0 then
        some changes
      else none
    | .error _ => none

/-- The changes that the chain takes from `onblock`. -/
def proposedByBlock (env : Env) (s : System) (bh : BlockHeader) : Option ProposedProducerChanges :=
  if s.gstate.threshActivatedStakeTime = 0 ∧ !s.electGstate.isInit then none
  else if s.gstate.lastProducerScheduleUpdate + blocksPerMinute < bh.timestamp ∧
      s.electGstate.isBbpEnabled then s.proposed env
  else none

end System

section Onblock

variable {env : Env} {s s' : System} {bh : BlockHeader}

theorem setProposedProducersEx_of_pos {accepts : Bool} {c : ProposedProducerChanges} {n : Native}
    (h : 0 < (setProposedProducersEx accepts c n).1) :
    c.apply n = some (setProposedProducersEx accepts c n).2 := by
  rcases setProposedProducersEx_cases accepts c n with heq | ⟨n', hleads, heq⟩
  · rw [heq] at h
    simp at h
  · rw [heq]
    exact ProposedProducerChanges.apply_eq_some_iff.mpr hleads

theorem setProposedProducersEx_of_not_pos {accepts : Bool} {c : ProposedProducerChanges}
    {n : Native} (h : ¬0 < (setProposedProducersEx accepts c n).1) :
    (setProposedProducersEx accepts c n).2 = n := by
  rcases setProposedProducersEx_cases accepts c n with heq | ⟨n', -, heq⟩
  · rw [heq]
  · rw [heq] at h
    exact absurd one_pos h

theorem updateElectedProducerChanges_flushed :
    Ensures (updateElectedProducerChanges env s) fun s' =>
      s.elections.Flushed s'.elections (s.proposed env) := by
  unfold updateElectedProducerChanges System.proposed
  refine .ite (fun hunset => ?_) fun hset => .bind_eq fun out hflush => ?_
  · rw [if_pos hunset]
    exact .ok (.kept rfl rfl)
  · obtain ⟨k, c⟩ := out
    have hex : Examined s.gstate.electedSequence s.electedChanges.rows k c :=
      flushRows_iff_examined.mp hflush
    rw [if_neg hset, hflush]
    dsimp only
    refine .ite (fun hrows => .ite (fun hsize => .ite (fun hpos => .ok ?_) fun hneg => .ok ?_)
      fun hsize => .ite (fun _ => .ok ?_) fun _ => .ok ?_) fun hrows => .ok ?_
    · rw [if_pos ⟨hrows, hsize, hpos⟩]
      exact .taken hex hsize rfl (setProposedProducersEx_of_pos hpos)
    · rw [if_neg fun h => hneg h.2.2]
      exact .kept rfl (setProposedProducersEx_of_not_pos hneg)
    · rw [if_neg fun h => hsize h.2.1]
      exact .erased hex (Nat.eq_zero_of_not_pos hsize) rfl rfl
    · rw [if_neg fun h => hsize h.2.1]
      exact .kept rfl rfl
    · rw [if_neg fun h => hrows h.1]
      exact .kept rfl rfl

private theorem updateElectedProducers_kept :
    s.elections.Flushed (updateElectedProducers env s).elections none := by
  unfold updateElectedProducers
  dsimp only
  split_ifs <;> exact .kept rfl rfl

private theorem updateSchedule_flushed : Ensures (updateSchedule env s bh) fun s' =>
    s.elections.Flushed s'.elections
      (if s.gstate.lastProducerScheduleUpdate + blocksPerMinute < bh.timestamp ∧
        s.electGstate.isBbpEnabled then s.proposed env else none) := by
  unfold updateSchedule
  by_cases hdue : s.gstate.lastProducerScheduleUpdate + blocksPerMinute < bh.timestamp
  · cases henabled : s.electGstate.isBbpEnabled with
    | true =>
      simp only [hdue, and_self, if_true]
      exact .bind updateElectedProducerChanges_flushed fun _ hs' =>
        .ok (hs'.congr rfl rfl rfl rfl rfl)
    | false =>
      simp only [hdue, Bool.false_eq_true, and_false, if_true, if_false]
      exact .ok (updateElectedProducers_kept.congr rfl rfl rfl rfl rfl)
  · simp only [hdue, false_and, if_false]
    exact .ok (.kept rfl rfl)

theorem produceRewards_log (h : produceRewards env s bh = .ok s') :
    s'.electedChanges = s.electedChanges ∧ s'.gstate = s.gstate ∧ s'.native = s.native ∧
      s'.electGstate.isBbpEnabled = s.electGstate.isBbpEnabled := by
  refine produceRewards_preserves (P := fun t => t.electedChanges = s.electedChanges ∧
    t.gstate = s.gstate ∧ t.native = s.native ∧
      t.electGstate.isBbpEnabled = s.electGstate.isBbpEnabled) h ⟨rfl, rfl, rfl, rfl⟩ ?_
  intro s₁ s₂ hs hstep
  cases hstep with
  | rates _ _ => exact hs
  | main _ => exact hs
  | backup _ => exact hs

/-- A block flushes the log. -/
theorem onblock_flushed : Ensures (onblock env s bh) fun out =>
    s.elections.Flushed out.1.elections (s.proposedByBlock env bh) := by
  unfold onblock requireAuth System.proposedByBlock
  refine .check fun _ => .ite (fun hoff => ?_) fun hon => .bind_eq fun s₁ h₁ => ?_
  · rw [if_pos hoff]
    exact .ok (.kept rfl rfl)
  · obtain ⟨hlog, hgstate, hnative, henabled⟩ := produceRewards_log h₁
    have hproposed : s₁.proposed env = s.proposed env := by
      simp only [System.proposed, hlog, hgstate, hnative]
    rw [if_neg hon]
    refine .bind updateSchedule_flushed fun s₂ h₂ => .ok ?_
    rw [hgstate, henabled, hproposed] at h₂
    exact h₂.congr hlog (congrArg GlobalState.electedSequence hgstate) hnative rfl rfl

end Onblock

section Flush

variable {σ : Type} {L : Layer σ} {x y z : σ} {e e' : Elections} {k : ℕ}
  {c d : ProposedProducerChanges} {l : List ElectedChange} {seq : ℕ}

/-- Rows that lead from one state to another merge into changes that do. -/
theorem Layer.Replays.merge (h : L.Replays y (l.filter (·.electedSequence = seq)) z)
    (hd : L.apply d x = some y) : ∃ out, mergeRows seq l d = .ok out ∧ L.apply out x = some z := by
  unfold mergeRows
  generalize l.filter (·.electedSequence = seq) = rows at h
  induction h generalizing d with
  | nil y => exact ⟨d, rfl, hd⟩
  | cons applies _ _ ih =>
    obtain ⟨out, hmerge, hout⟩ := L.apply_merge hd applies
    rw [List.map_cons, List.foldlM_cons, hmerge]
    exact ih hout

/-- What a call examines leads to where the rows it has not read begin. -/
theorem Logged.examined (h : Logged L x y e) (hrun : e.electGstate.producerChangeInterrupted = false)
    (hex : Examined e.electedSequence e.electedChanges.rows k c) : ∃ z, L.apply c x = some z ∧
      (x = z ∨ L.Filled z) ∧
      L.Replays z ((e.electedChanges.rows.drop k).filter (·.electedSequence = e.electedSequence)) y := by
  have hpending := h.replays hrun
  rw [Elections.pending, ← List.take_append_drop k e.electedChanges.rows, List.filter_append] at hpending
  obtain ⟨z, hread, hrest⟩ := Replay.Passes.append_iff.mp hpending
  obtain ⟨out, hmerge, hout⟩ := Layer.Replays.merge hread (L.apply_empty x)
  obtain rfl : c = out := Except.ok.inj (hex.merged.symm.trans hmerge)
  exact ⟨z, hout, hread.last, hrest⟩

private theorem Logged.dropFirst (h : Logged L x y e)
    (hlog : e'.electedChanges = e.electedChanges.dropFirst k)
    (hid : e'.electGstate.lastProducerChangeId = e.electGstate.lastProducerChangeId)
    (hrest : e'.electGstate.producerChangeInterrupted = false → L.Replays z e'.pending y) :
    Logged L z y e' := by
  refine ⟨fun row hrow => ?_, hrest⟩
  rw [hlog] at hrow
  rw [hid]
  exact h.ids row (List.mem_of_mem_drop hrow)

/-- The rows that are left follow what the chain has taken. -/
theorem Logged.taken (h : Logged L x y e)
    (hex : Examined e.electedSequence e.electedChanges.rows k c)
    (hlog : e'.electedChanges = e.electedChanges.dropFirst k)
    (hid : e'.electGstate.lastProducerChangeId = e.electGstate.lastProducerChangeId)
    (hseq : e'.electedSequence = e.electedSequence)
    (hi : e'.electGstate.producerChangeInterrupted = e.electGstate.producerChangeInterrupted)
    (hz : e.electGstate.producerChangeInterrupted = false → L.apply c x = some z) :
    Logged L z y e' := by
  refine h.dropFirst hlog hid fun hrun => ?_
  obtain ⟨z', hz', -, hrest⟩ := h.examined (hi.symm.trans hrun) hex
  obtain rfl : z = z' := Option.some.inj ((hz (hi.symm.trans hrun)).symm.trans hz')
  rw [Elections.pending, hlog, hseq]
  exact hrest

/-- Rows that merge to nothing are not missed. -/
theorem Logged.erased (h : Logged L x y e)
    (hex : Examined e.electedSequence e.electedChanges.rows k c) (hsize : c.getChangeSize = 0)
    (hlog : e'.electedChanges = e.electedChanges.dropFirst k)
    (hid : e'.electGstate.lastProducerChangeId = e.electGstate.lastProducerChangeId)
    (hseq : e'.electedSequence = e.electedSequence)
    (hi : e'.electGstate.producerChangeInterrupted = e.electGstate.producerChangeInterrupted) :
    Logged L x y e' := by
  refine h.dropFirst hlog hid fun hrun => ?_
  obtain ⟨z, hz, hlast, hrest⟩ := h.examined (hi.symm.trans hrun) hex
  obtain rfl : x = z := hlast.elim id fun hfilled => (L.apply_idle hsize hz hfilled).symm
  rw [Elections.pending, hlog, hseq]
  exact hrest

end Flush

end Amax
