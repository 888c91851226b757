-- SUMMARY: The changes the chain takes, and in every run whose key changes spare one cached record they carry the current authorities.
import Amax.Election.Replay
import Amax.Election.Restart
import Amax.Election.Signing

/-! # Renewed authorities

A producer that registers again may bring another authority. Every branch of
`process_elected_producer` writes it into the cached record of the producer and
into the changes, but one: the record before the backup tail is compared with its
votes and its name only, and keeps the old authority. In every other case the
changes that the chain has taken and those it is to take lead to the current
authorities. -/

namespace Amax

-- ---------------------------------------------------------------------------
-- The authorities of the chain
-- ---------------------------------------------------------------------------

private theorem ProducerChangeMap.applyTo_idle {c : ProducerChangeMap} {S S' : Authorities}
    (hrows : c.changes.rows = []) (h : c.applyTo S = some S') {n : Name} (hn : (S' n).isSome) :
    S' = S := by
  rw [applyTo, MapPatch.run, hrows, List.foldlM_nil] at h
  have heq : (if c.clearExisted then fun _ => none else S) = S' := Option.some.inj h
  split_ifs at heq with hclear
  · rw [← heq] at hn
    cases hn
  · exact heq.symm

/-- The layer that keeps the producers with their authorities. -/
def signersLayer : Layer Signers where
  apply := ProposedProducerChanges.applyTo
  Filled σ := (∃ n, (σ.main n).isSome) ∧ ∃ n, (σ.backup n).isSome
  apply_empty := ProposedProducerChanges.applyTo_empty
  apply_merge {src dest σ σ' σ''} hd hs := by
    rw [ProposedProducerChanges.applyTo_eq_some_iff] at hd hs
    obtain ⟨main, hmain, happlyMain, -⟩ := ProducerChangeMap.merge_applyTo hd.1 hs.1
    obtain ⟨backup, hbackup, happlyBackup, -⟩ := ProducerChangeMap.merge_applyTo hd.2 hs.2
    refine ⟨⟨main, backup⟩, ?_, ProposedProducerChanges.applyTo_eq_some_iff.mpr
      ⟨happlyMain, happlyBackup⟩⟩
    simp only [ProposedProducerChanges.merge, Except.bind_ok_iff]
    exact ⟨main, hmain, backup, hbackup, rfl⟩
  apply_idle {c σ σ'} hsize h hfilled := by
    rw [ProposedProducerChanges.applyTo_eq_some_iff] at h
    obtain ⟨hmain, hbackup⟩ := Nat.add_eq_zero_iff.mp hsize
    obtain ⟨⟨m, hm⟩, ⟨b, hb⟩⟩ := hfilled
    exact Signers.ext
      (ProducerChangeMap.applyTo_idle (List.length_eq_zero_iff.mp hmain) h.1 hm)
      (ProducerChangeMap.applyTo_idle (List.length_eq_zero_iff.mp hbackup) h.2 hb)

/-- The producers that sign are those of `n`. -/
structure Signers.Names (σ : Signers) (n : Native) : Prop where
  main : ∀ m, m ∈ n.main ↔ (σ.main m).isSome
  backup : ∀ m, m ∈ n.backup ↔ (σ.backup m).isSome

private theorem ProducerChangeMap.applyTo_of_leads {c : ProducerChangeMap} {S S' : Finset Name}
    {T : Authorities} (h : c.Leads S S') (hT : ∀ m, m ∈ S ↔ (T m).isSome) :
    ∃ T', c.applyTo T = some T' ∧ ∀ m, m ∈ S' ↔ (T' m).isSome := by
  have hkind : ProducerChange.kind = fun r => r.edit.kind := by
    funext ⟨n, record⟩
    cases record <;> rfl
  have hbase : ∀ m, m ∈ c.base S ↔ ((if c.clearExisted then fun _ => none else T) m).isSome := by
    intro m
    rw [base]
    split_ifs
    · simp
    · exact hT m
  have hturns : Patch.Turns c.changes (fun r => r.edit.kind) (c.base S) S' := hkind ▸ h
  obtain ⟨T', hT', hS'⟩ := MapPatch.Turns.lift hturns hbase
  exact ⟨T', MapPatch.run_eq_some_iff.mpr hT', hS'⟩

/-- What a list of changes makes of the producers that sign. -/
def Signers.takeAll (σ : Signers) (l : List ProposedProducerChanges) : Option Signers :=
  l.foldlM (fun σ c => c.applyTo σ) σ

theorem Signers.takeAll_append {σ σ' : Signers} {l : List ProposedProducerChanges}
    (h : σ.takeAll l = some σ') (l' : List ProposedProducerChanges) :
    σ.takeAll (l ++ l') = σ'.takeAll l' := by
  rw [takeAll] at h
  rw [takeAll, List.foldlM_append, h]
  rfl

theorem Signers.takeAll_single {σ σ' : Signers} {c : ProposedProducerChanges}
    (h : c.applyTo σ = some σ') : σ.takeAll [c] = some σ' := by
  rw [takeAll, List.foldlM_cons, h]
  rfl

/-- Changes that are valid on the producers are valid on their authorities. -/
theorem ProposedProducerChanges.applyTo_of_apply {c : ProposedProducerChanges} {n n' : Native}
    {σ : Signers} (h : c.apply n = some n') (hσ : σ.Names n) :
    ∃ σ', c.applyTo σ = some σ' ∧ σ'.Names n' := by
  obtain ⟨hmain, hbackup⟩ := apply_eq_some_iff.mp h
  obtain ⟨main, happlyMain, hm⟩ := ProducerChangeMap.applyTo_of_leads hmain hσ.main
  obtain ⟨backup, happlyBackup, hb⟩ := ProducerChangeMap.applyTo_of_leads hbackup hσ.backup
  exact ⟨⟨main, backup⟩, applyTo_eq_some_iff.mpr ⟨happlyMain, happlyBackup⟩, ⟨hm, hb⟩⟩

-- ---------------------------------------------------------------------------
-- Restarts
-- ---------------------------------------------------------------------------

section Reinit

variable {A : Authorities} {g g' : ElectGlobalState} {idx : List ProducerInfo}

/-- The changes clear a set and add producers with their current authorities. -/
structure ProducerChangeMap.Installs (A : Authorities) (c : ProducerChangeMap) : Prop where
  clear : c.clearExisted = true
  adds : ∀ r ∈ c.changes.rows, ∃ authority, r.record = .add authority ∧ A r.name = some authority

/-- The record is empty or carries the current authority. -/
def Authorities.Filled (A : Authorities) (c : ProducerElectedInfo) : Prop :=
  c.empty = false → A.Current c

/-- What `reinit_elected_producers` copies has current authorities only. -/
structure Reinit.Copies (A : Authorities) (st : Reinit) : Prop where
  mainChanges : st.mainChanges.Installs A
  backupChanges : st.backupChanges.Installs A
  mainTailPrev : A.Filled st.meq.tailPrev
  mainTail : A.Filled st.meq.tail
  mainTailNext : A.Filled st.meq.tailNext
  backupTailPrev : A.Filled st.beq.tailPrev
  backupTail : A.Filled st.beq.tail
  backupTailNext : A.Filled st.beq.tailNext

private theorem filled_empty : A.Filled {} := fun h => by simp [ProducerElectedInfo.empty] at h

private theorem filled_ite {p : Prop} [Decidable p] {c d : ProducerElectedInfo} (hc : A.Filled c)
    (hd : A.Filled d) : A.Filled (if p then c else d) := by
  split_ifs
  · exact hc
  · exact hd

theorem ProducerChangeMap.Installs.emplace {c : ProducerChangeMap} (h : c.Installs A) {n : Name}
    {authority : BlockSigningAuthority} (hA : A n = some authority) :
    ({ c with changes := c.changes.emplace ⟨n, .add authority⟩ } : ProducerChangeMap).Installs A := by
  refine ⟨h.clear, fun r hr => ?_⟩
  simp only [ChangeMap.emplace] at hr
  split at hr
  · rcases Table.mem_set.mp hr with rfl | ⟨hmem, -⟩
    · exact ⟨authority, rfl, hA⟩
    · exact h.adds r hmem
  · exact h.adds r hr

theorem reinitLoop_copies (hidx : ∀ p ∈ idx, A p.owner = some p.producerAuthority) {st : Reinit}
    (h : st.Copies A) : Ensures (reinitLoop g idx st) (Reinit.Copies A) := by
  induction idx generalizing st with
  | nil => exact .ok h
  | cons it rest ih =>
    obtain ⟨hit, hrest⟩ := List.forall_mem_cons.mp hidx
    have hnew : A.Filled it.getElectedInfo := fun _ => hit
    unfold reinitLoop
    refine .ite (fun _ => .ok h) fun _ => .ite (fun _ => .check fun _ => ih hrest ?_) fun _ =>
      .ite (fun _ => .check fun _ => ih hrest ?_) fun _ => .ok { h with backupTailNext := hnew }
    · exact { h with
        mainChanges := h.mainChanges.emplace hit
        mainTailPrev := filled_ite h.mainTailPrev h.mainTail
        mainTail := hnew }
    · exact { h with
        backupChanges := h.backupChanges.emplace hit
        mainTailNext := filled_ite hnew h.mainTailNext
        backupTailPrev := filled_ite h.backupTailPrev h.backupTail
        backupTail := hnew }

/-- Whatever a set held before, the changes lead to the current authorities. -/
theorem ProducerChangeMap.Installs.applyTo {c : ProducerChangeMap} {S S' : Finset Name}
    (h : c.Installs A) (hl : c.Leads S S') (T : Authorities) : c.applyTo T = some (A.on S') := by
  rw [ProducerChangeMap.applyTo, if_pos h.clear, MapPatch.run_eq_some_iff]
  rw [Leads, base, if_pos h.clear] at hl
  intro n
  have hn := hl n
  rw [Patch.kindAt] at hn
  rw [MapPatch.editAt]
  cases hf : c.changes.find? n with
  | none =>
    rw [hf] at hn
    exact Authorities.on_of_notMem fun hmem => Finset.notMem_empty n (hn.mpr hmem)
  | some r =>
    obtain ⟨authority, hrecord, hA⟩ := h.adds r (Table.mem_of_find? hf)
    rw [Table.key_of_find? hf] at hA
    rw [hf, Option.map_some, ProducerChange.kind, hrecord] at hn
    rw [Option.map_some, ProducerChange.edit, hrecord]
    exact ⟨rfl, (Authorities.on_of_mem hn.2).trans hA⟩

/-- A restart leaves current authorities in the cached records, and puts them into the sets. -/
theorem reinitElectedProducers_signs {changes : ProposedProducerChanges} (hr : Ranked idx)
    (h2 : 2 ≤ g.maxMainProducerCount) (hM : minBackupProducerCount ≤ g.maxBackupProducerCount)
    (hidx : ∀ p ∈ idx, A p.owner = some p.producerAuthority)
    (h : reinitElectedProducers g idx = .ok (some (g', changes))) :
    g'.Carries A ∧ ∀ σ, changes.applyTo σ = some (A.signers (g'.sets idx)) := by
  obtain ⟨⟨meq, beq, rfl⟩, hs, hleads⟩ := reinitElectedProducers_ok hr h2 hM h
  simp only [reinitElectedProducers, Except.bind_ok_iff] at h
  obtain ⟨st, hst, h⟩ := h
  split_ifs at h with hempty
  · simp [Except.pure_ok_iff] at h
  · simp only [Except.pure_ok_iff, Option.some.injEq, Prod.mk.injEq] at h
    obtain ⟨hg, rfl⟩ := h
    obtain ⟨rfl, rfl⟩ : st.meq = meq ∧ st.beq = beq :=
      ⟨congrArg ElectGlobalState.mainElectedQueue hg, congrArg ElectGlobalState.backupElectedQueue hg⟩
    have hnone : ∀ {c : ProducerChangeMap}, c.clearExisted = true → c.changes = .empty →
        c.Installs A := fun hclear hrows => ⟨hclear, fun r hmem => by simp [hrows, Table.empty] at hmem⟩
    have hcopies := reinitLoop_copies hidx ⟨hnone rfl rfl, hnone rfl rfl, filled_empty,
      filled_empty, filled_empty, filled_empty, filled_empty, filled_empty⟩ st hst
    refine ⟨⟨⟨fun _ => hcopies.mainTailPrev ?_, hcopies.mainTail ?_, fun _ => hcopies.mainTailNext ?_⟩,
      ⟨fun _ => hcopies.backupTailPrev ?_, hcopies.backupTail ?_, fun _ => hcopies.backupTailNext ?_⟩⟩,
      fun σ => ?_⟩
    · exact hs.mainTailPrev.name_ne hr
    · exact hs.mainTail.name_ne hr
    · exact hs.mainTailNext.name_ne hr
    · exact hs.backupTailPrev.name_ne hr
    · exact hs.backupTail.name_ne hr
    · exact hs.backupTailNext.name_ne hr
    · have hl := hleads ⟨∅, ∅⟩
      exact ProposedProducerChanges.applyTo_eq_some_iff.mpr
        ⟨hcopies.mainChanges.applyTo hl.1 _, hcopies.backupChanges.applyTo hl.2 _⟩

end Reinit

-- ---------------------------------------------------------------------------
-- One action
-- ---------------------------------------------------------------------------

namespace Elections

/-- The cached records are current unless the changes are interrupted, and the pending changes turn
what the chain has into the elected producers with their authorities. -/
structure Signed (σ : Signers) (e : Elections) : Prop where
  tracks : e.Tracks
  logged : Logged signersLayer σ e.signers e
  carries : e.electGstate.producerChangeInterrupted = false → e.Carries

/-- Inside of an action that began in `e₀`, whose changes hand on current authorities. -/
structure Renewing (e₀ e : Elections) (changes : ProposedProducerChanges) : Prop extends
    e₀.Turning e changes where
  signs : e.electGstate.producerChangeInterrupted = false →
    e.Carries ∧ changes.Keeps ∧ changes.applyTo e₀.signers = some e.signers

/-- The queues can follow a producer, and the changes can carry its authority. -/
def Renewable (e : Elections) (a r : ProducerInfo) : Prop :=
  Tame e a r ∧ (e.electGstate.producerChangeInterrupted = false → Renews e a r)

instance (e : Elections) (a r : ProducerInfo) : Decidable (Renewable e a r) :=
  inferInstanceAs (Decidable (_ ∧ (_ → _)))

variable {e e' e₀ : Elections} {a r : ProducerInfo} {changes : ProposedProducerChanges} {env : Env}
  {s s' : System} {σ : Signers}

/-- Every elected producer has an authority. -/
theorem signers_names (e : Elections) : e.signers.Names e.sets := by
  have hon : ∀ {S : Finset Name}, (∀ n ∈ S, n ∈ e.index.map (·.owner)) →
      ∀ n, n ∈ S ↔ ((authorities e.producers).on S n).isSome := by
    intro S hS n
    by_cases hn : n ∈ S
    · obtain ⟨p, hp, rfl⟩ := List.mem_map.mp (hS n hn)
      rw [Authorities.on_of_mem hn, authorities_index hp]
      exact iff_of_true hn rfl
    · rw [Authorities.on_of_notMem hn]
      exact iff_of_false hn (by simp)
  refine ⟨hon fun n hn => ?_, hon fun n hn => ?_⟩
  · exact ((List.take_sublist _ _).map _).subset (List.mem_toFinset.mp hn)
  · have hsub := (List.take_sublist e.electGstate.backupCount _).trans
      (List.drop_sublist e.electGstate.maxMainProducerCount e.index)
    exact (hsub.map _).subset (List.mem_toFinset.mp hn)

/-- Both elected sets have producers that sign. -/
theorem Tracks.signers_filled (h : e.Tracks) : signersLayer.Filled e.signers := by
  obtain ⟨⟨m, hm⟩, ⟨b, hb⟩⟩ := h.filled
  exact ⟨⟨m, (e.signers_names.main m).mp hm⟩, ⟨b, (e.signers_names.backup b).mp hb⟩⟩

/-- A producer that takes its place keeps its authority. -/
theorem authorities_seat (hf : e.producers.find? a.owner = some a) :
    authorities (e.seat a).producers = authorities e.producers := by
  cases hi : a.indexed with
  | true => rw [show e.seat a = e from by simp [Elections.seat, hi]]
  | false =>
    rw [show (e.seat a).producers = e.producers.set a.seat from by simp [Elections.seat, hi]]
    refine authorities_set_same (a.seat_owner.symm ▸ hf) ?_
    rw [ProducerInfo.seat, if_neg (by simp [hi])]

theorem Tracks.signers_seat (h : e.Tracks) (hf : e.producers.find? a.owner = some a) :
    (e.seat a).signers = e.signers := by
  rw [signers, signers, authorities_seat hf, h.sets_seat hf]

theorem Carries.seat (h : e.Carries) (hf : e.producers.find? a.owner = some a) :
    (e.seat a).Carries := by
  rw [Carries, authorities_seat hf]
  exact h

theorem Renewing.row (h : e₀.Renewing e changes) (hr : Replaced e.producers a r)
    (hc : RowChange a r) (hP : Renewable e a r) :
    Yields (processElectedProducer e.electGstate (electedProd (e.producers.set r)) a.getElectedInfo
      r.getElectedInfo changes) fun out => e₀.Renewing (e.write r out.1) out.2 := by
  have hturning := h.toTurning.row hr hc hP.1
  cases hi : e.electGstate.producerChangeInterrupted with
  | true =>
    refine hturning.mono fun out hout => ⟨hout, fun hrun => ?_⟩
    have hbegan := h.since.interrupted.symm.trans hi
    simp [hout.since.interrupted, hbegan] at hrun
  | false =>
    obtain ⟨hcarries, hk, hl⟩ := h.signs hi
    refine (Ensures.and_yields (.of_yields hturning)
      (h.tracks.sign hr hc hP.1 (hP.2 hi) hcarries hk hl)).mono fun out hout => ?_
    exact ⟨hout.1, fun _ => hout.2⟩

private theorem Saved.native (hs : Saved env s changes s') : s'.native = s.native := by
  cases hs <;> rfl

theorem Renewing.save (h : e₀.Renewing s.elections changes) (h₀ : e₀.Signed σ)
    (hfresh : e₀.electGstate.producerChangeInterrupted = true → e₀.FreshNext)
    (hs : Saved env s changes s') : s'.elections.Signed σ := by
  have htracks := hs.tracks h.tracks
  have hlog : Logged signersLayer σ e₀.signers s.elections :=
    h₀.logged.congr h.since.electedChanges h.since.lastId h.since.electedSequence h.since.interrupted
  have hM := h.tracks.synced.backup_ge.trans h.tracks.synced.backup_le
  cases hs with
  | waiting hi => exact ⟨htracks, (hlog.idle hi).2, fun hrun => absurd (hi.symm.trans hrun) nofun⟩
  | restarted hi hreinit =>
    have hnext : s.elections.FreshNext := by
      have := hfresh (h.since.interrupted.symm.trans hi)
      rwa [FreshNext, ← h.since.electedChanges, ← h.since.electedSequence] at this
    obtain ⟨hcarries, happly⟩ := reinitElectedProducers_signs (A := authorities s.producers)
      h.tracks.ranked h.tracks.synced.two_le hM (fun p hp => authorities_index hp) hreinit
    obtain ⟨⟨meq, beq, rfl⟩, -⟩ :=
      reinitElectedProducers_ok h.tracks.ranked h.tracks.synced.two_le hM hreinit
    exact ⟨htracks, hlog.restarted hnext (happly σ) htracks.signers_filled,
      fun _ => ⟨hcarries.main, hcarries.backup⟩⟩
  | failed _ _ => exact ⟨htracks, ⟨hlog.ids, fun hrun => by cases hrun⟩, fun hrun => by cases hrun⟩
  | recorded hi _ =>
    obtain ⟨hcarries, -, hl⟩ := h.signs hi
    exact ⟨htracks, hlog.recorded hl h.tracks.signers_filled,
      fun _ => ⟨hcarries.main, hcarries.backup⟩⟩
  | unchanged hi _ hmain hbackup =>
    obtain ⟨hcarries, -, hl⟩ := h.signs hi
    exact ⟨htracks, hlog.unchanged hl h.tracks.signers_filled hmain hbackup, fun _ => hcarries⟩

theorem upkept_signed (h₀ : e₀.Signed σ)
    (hfresh : e₀.electGstate.producerChangeInterrupted = true → e₀.FreshNext) :
    Upkept Renewable e₀.Renewing (· = e₀) fun e => e.Signed σ ∧ e.native = e₀.native where
  start {e} h := by
    subst h
    exact ⟨⟨h₀.tracks, ProposedProducerChanges.leads_empty _, ⟨rfl, rfl, rfl, rfl⟩, rfl⟩,
      fun hrun => ⟨h₀.carries hrun, ⟨rfl, rfl⟩, ProposedProducerChanges.applyTo_empty _⟩⟩
  seat {e a} h hf := by
    subst h
    refine ⟨⟨h₀.tracks.seat hf, ?_, ⟨rfl, rfl, rfl, rfl⟩, rfl⟩, fun hrun =>
      ⟨(h₀.carries hrun).seat hf, ⟨rfl, rfl⟩, ?_⟩⟩
    · rw [h₀.tracks.sets_seat hf]
      exact ProposedProducerChanges.leads_empty _
    · rw [h₀.tracks.signers_seat hf]
      exact ProposedProducerChanges.applyTo_empty _
  tracks h := h.tracks
  setTotal total h := ⟨⟨h.tracks.setTotal total, h.leads, ⟨h.since.interrupted, h.since.lastId,
    h.since.electedChanges, h.since.electedSequence⟩, h.native⟩, fun hrun => by
      obtain ⟨hcarries, hsigns⟩ := h.signs hrun
      exact ⟨⟨hcarries.main, hcarries.backup⟩, hsigns⟩⟩
  row h hr hc hP := .of_yields (h.row hr hc hP)
  save env _ changes h := .of_yields ((h.tracks.save env changes).mono fun _ hs =>
    ⟨h.save h₀ hfresh hs, (Saved.native hs).trans h.native⟩)
  idle {e} h := by
    subst h
    exact ⟨h₀, rfl⟩

-- ---------------------------------------------------------------------------
-- The other actions
-- ---------------------------------------------------------------------------

theorem Signed.setmprodvote (h : s.elections.Signed σ) (votes : Asset) :
    Ensures (setmprodvote env s votes) fun out =>
      out.1.elections.Signed σ ∧ out.1.elections.native = s.native := by
  unfold Amax.setmprodvote
  refine .bind_eq fun _ _ => .check fun _ => .check fun _ => .check fun _ =>
    .ok ⟨⟨?_, ?_, fun hrun => ?_⟩, rfl⟩
  · exact ⟨h.tracks.enabled, h.tracks.electable, h.tracks.synced.congr rfl rfl rfl le_rfl⟩
  · exact h.logged.congr rfl rfl rfl rfl
  · exact ⟨(h.carries hrun).main, (h.carries hrun).backup⟩

/-- Whatever the chain takes of the log, the rows that are left follow it. -/
theorem Signed.flushed {taken : Option ProposedProducerChanges} (h : e.Signed σ)
    (hσ : σ.Names e.native) (hr : e.Rests e') (hf : e.Flushed e' taken) :
    ∃ σ', σ.takeAll taken.toList = some σ' ∧ e'.Signed σ' ∧ σ'.Names e'.native := by
  have hA : authorities e'.producers = authorities e.producers := by
    funext n
    have hn := congrArg (Option.map ProducerInfo.producerAuthority) (hr.rows.find? n)
    simp only [Option.map_map] at hn
    exact hn
  have hsigners : e'.signers = e.signers := by rw [signers, signers, hA, hr.sets]
  have htracks := h.tracks.rests hr
  obtain ⟨period, main, backup, hg⟩ := hr.electGstate
  have hid : e'.electGstate.lastProducerChangeId = e.electGstate.lastProducerChangeId := by rw [hg]
  have hi : e'.electGstate.producerChangeInterrupted = e.electGstate.producerChangeInterrupted := by
    rw [hg]
  have hcarries : e'.electGstate.producerChangeInterrupted = false → e'.Carries := by
    intro hrun
    have hbefore := h.carries (hi.symm.trans hrun)
    rw [Carries, hA, hg]
    exact ⟨hbefore.main, hbefore.backup⟩
  have hlog : Logged signersLayer σ e'.signers e := hsigners.symm ▸ h.logged
  cases hf with
  | kept log native =>
    exact ⟨σ, rfl, ⟨htracks, hlog.congr log hid hr.electedSequence hi, hcarries⟩, native ▸ hσ⟩
  | taken examined size log native =>
    obtain ⟨σ', happly, hσ'⟩ := ProposedProducerChanges.applyTo_of_apply native hσ
    refine ⟨σ', Signers.takeAll_single happly, ⟨htracks, ?_, hcarries⟩, hσ'⟩
    exact hlog.taken examined log hid hr.electedSequence hi fun _ => happly
  | erased examined size log native =>
    refine ⟨σ, rfl, ⟨htracks, ?_, hcarries⟩, native ▸ hσ⟩
    exact hlog.erased examined size log hid hr.electedSequence hi

end Elections

/-- A new round of elections has the chain take the elected producers with their authorities. -/
theorem StartsElection.signed {count : ℕ} {env : Env} {s : System}
    {changes : ProposedProducerChanges} {e' : Elections} (h : StartsElection env s count changes e')
    (he : Electable s.producers) (h2 : 2 ≤ s.electGstate.maxMainProducerCount)
    (hcount : minBackupProducerCount ≤ count)
    (hids : ∀ row ∈ s.electedChanges.rows, row.id ≤ s.electGstate.lastProducerChangeId)
    (hfresh : s.elections.FreshNext) :
    (∀ σ, changes.applyTo σ = some e'.signers) ∧ e'.Signed e'.signers ∧
      e'.signers.Names e'.native := by
  have hreplayed := h.replayed he h2 hcount hids hfresh
  obtain ⟨hcarries, happly⟩ := reinitElectedProducers_signs (A := authorities s.producers)
    (ranked_electedProd he) (g := s.electGstate.enable count) h2 hcount
    (fun p hp => authorities_index hp) h.reinit
  have hsigners : e'.signers = (authorities s.producers).signers
      (e'.electGstate.sets (electedProd s.producers)) := by
    rw [Elections.signers, Elections.sets, Elections.index, h.producers]
  have hnil := hfresh.pending_eq_nil h.electedChanges h.sequence
  refine ⟨fun σ => hsigners ▸ happly σ, ⟨hreplayed.tracks, ⟨hreplayed.logged.ids, fun _ => ?_⟩,
    fun _ => ?_⟩, ?_⟩
  · rw [hnil]
    exact .nil _
  · rw [Elections.Carries, h.producers]
    exact hcarries
  · rw [h.native he h2 hcount]
    exact e'.signers_names

-- ---------------------------------------------------------------------------
-- Runs
-- ---------------------------------------------------------------------------

/-- The changes that the chain takes from a transaction that succeeds. -/
def System.taken (s : System) (tx : Transaction) : Option ProposedProducerChanges :=
  match tx.action with
  | .initbbpelect count =>
    if s.electGstate.NeedsReinit count then
      match reinitElectedProducers (s.electGstate.enable count) (electedProd s.producers) with
      | .ok (some (_, changes)) => some changes
      | _ => none
    else none
  | .onblock bh => s.proposedByBlock tx.env bh
  | _ => none

/-- All changes that the chain takes in a run, in order. -/
def System.accepted (s : System) (txs : List Transaction) : List ProposedProducerChanges :=
  Run.found transact System.taken s txs

/-- Producers that have a row move as their records say and carry their authority on, or none
moves. -/
def Resigns (s : System) (tx : Transaction) : Prop :=
  Rewrites Elections.Renewable s tx ∨ tx.action.settles = true

instance (s : System) (tx : Transaction) : Decidable (Resigns s tx) :=
  inferInstanceAs (Decidable (_ ∨ _))

/-- The chain has the producers of `σ`, and what is to come is signed with current authorities. -/
structure System.Attested (s : System) (σ : Signers) : Prop where
  signed : s.elections.Signed σ
  names : σ.Names s.elections.native

namespace System.Attested

variable {env : Env} {s s' : System} {σ : Signers} {tx : Transaction} {sent : List Inline}

theorem initbbpelect (h : s.Attested σ) {count : ℕ}
    (hfresh : s.electGstate.NeedsReinit count → s.elections.FreshNext) :
    Ensures (initbbpelect env s count) fun out =>
      ∃ σ', σ.takeAll (s.taken ⟨env, .initbbpelect count⟩).toList = some σ' ∧ out.1.Attested σ' := by
  intro out hok
  have htracks := h.signed.tracks
  obtain ⟨hcount, ⟨henabled, hle, hsame⟩ | ⟨hnew, changes, hstart⟩⟩ := initbbpelect_ok hok
  · have hkeep : ¬s.electGstate.NeedsReinit count := by
      rw [ElectGlobalState.NeedsReinit]
      omega
    refine ⟨σ, ?_, ?_, hsame ▸ h.names⟩
    · simp only [taken, if_neg hkeep]
      rfl
    · rw [hsame]
      refine ⟨⟨by rfl, htracks.electable, htracks.synced.congr rfl rfl rfl hle⟩, ?_, fun hrun => ?_⟩
      · exact h.signed.logged.congr rfl rfl rfl rfl
      · exact ⟨(h.signed.carries hrun).main, (h.signed.carries hrun).backup⟩
  · obtain ⟨happly, hsigned, hnames⟩ := hstart.signed htracks.electable htracks.synced.two_le hcount
      h.signed.logged.ids (hfresh hnew)
    refine ⟨out.1.elections.signers, ?_, hsigned, hnames⟩
    simp only [taken, if_pos hnew, hstart.reinit]
    exact Signers.takeAll_single (happly σ)

private theorem taken_of_rewrites {P : Elections → ProducerInfo → ProducerInfo → Prop}
    (h : Rewrites P s tx) : s.taken tx = none := by
  obtain ⟨env, action⟩ := tx
  cases action with
  | initbbpelect _ => exact h.elim
  | onblock _ => exact h.elim
  | _ => rfl

theorem perform (h : s.Attested σ) (hP : Resigns s tx) (hfresh : NumbersFresh s tx)
    (hok : transact tx s = .ok (s', sent)) :
    ∃ σ', σ.takeAll (s.taken tx).toList = some σ' ∧ s'.Attested σ' := by
  replace hok := (transact_ok_iff.mp hok).1
  rcases hP with hmove | hsettles
  · rw [taken_of_rewrites hmove]
    refine ⟨σ, rfl, ?_⟩
    by_cases hsaves : s.Saves tx.action
    · obtain ⟨hsigned, hnative⟩ := ((Elections.upkept_signed h.signed
        fun hi => hfresh.next hsaves hi).perform rfl hmove).of_ok hok
      exact ⟨hsigned, hnative ▸ h.names⟩
    · have hsame : s'.elections = s.elections := elections_of_not_saves hmove hsaves _ hok
      exact ⟨hsame ▸ h.signed, hsame ▸ h.names⟩
  · cases haction : tx.action with
    | setmprodvote votes =>
      rw [haction] at hok
      obtain ⟨hsigned, hnative⟩ := h.signed.setmprodvote votes _ hok
      exact ⟨σ, by simp only [taken, haction]; rfl, hsigned, hnative ▸ h.names⟩
    | initbbpelect count =>
      rw [haction] at hok
      have hinit := h.initbbpelect (fun hnew => hfresh (by rw [haction]; exact hnew)) _ hok
      simp only [taken, haction] at hinit ⊢
      exact hinit
    | onblock bh =>
      rw [haction] at hok
      obtain ⟨σ', htake, hsigned, hnames⟩ :=
        h.signed.flushed h.names (onblock_rests _ hok) (onblock_flushed _ hok)
      exact ⟨σ', by simp only [taken, haction]; exact htake, hsigned, hnames⟩
    | _ => simp [haction, Action.settles] at hsettles

end System.Attested

/-- The first round of elections makes the chain take the elected producers. -/
theorem Unstarted.attested {env : Env} {s s₁ : System} {count : ℕ} {sent : List Inline}
    (hs : Unstarted s)
    (hids : ∀ row ∈ s.electedChanges.rows, row.id ≤ s.electGstate.lastProducerChangeId)
    (hinit : transact ⟨env, .initbbpelect count⟩ s = .ok (s₁, sent))
    (hfresh : NumbersFresh s ⟨env, .initbbpelect count⟩) (σ : Signers) :
    ∃ σ', σ.takeAll (s.taken ⟨env, .initbbpelect count⟩).toList = some σ' ∧ s₁.Attested σ' := by
  have hok := (transact_ok_iff.mp hinit).1
  obtain ⟨hcount, -⟩ := initbbpelect_ok hok
  obtain ⟨changes, hstart, -⟩ := hs.start hok
  have hnew : s.electGstate.NeedsReinit count :=
    .inl (by simpa [ElectGlobalState.isBbpEnabled] using hs.disabled)
  obtain ⟨happly, hsigned, hnames⟩ :=
    hstart.signed hs.electable hs.two_le hcount hids (hfresh hnew)
  refine ⟨_, ?_, hsigned, hnames⟩
  simp only [System.taken, if_pos hnew, hstart.reinit]
  exact Signers.takeAll_single (happly σ)

/-- In every run after the elections start in which the record before the backup tail gets no other
authority, and whose sequences begin with numbers that no row of the log carries, the cached records
carry the current authorities, and all changes that the chain has taken and is to take lead to the
elected producers with their current authorities, whatever the chain had before. -/
theorem authorities_current {env : Env} {s s₁ : System} {count : ℕ} {sent : List Inline}
    (hs : Unstarted s)
    (hids : ∀ row ∈ s.electedChanges.rows, row.id ≤ s.electGstate.lastProducerChangeId)
    (hinit : transact ⟨env, .initbbpelect count⟩ s = .ok (s₁, sent)) {txs : List Transaction}
    (hP : Run.Along transact Resigns s₁ txs)
    (hfresh : Run.Along transact NumbersFresh s (⟨env, .initbbpelect count⟩ :: txs))
    (hi : (s₁.final txs).electGstate.producerChangeInterrupted = false) (σ : Signers) :
    (s₁.final txs).electGstate.isBbpEnabled = true ∧ (s₁.final txs).elections.Carries ∧
      σ.takeAll (s.accepted (⟨env, .initbbpelect count⟩ :: txs) ++
        (s₁.final txs).elections.pending.map (·.changes)) = some (s₁.final txs).elections.signers := by
  obtain ⟨hfirst, hfresh⟩ := hfresh
  rw [Run.next_ok hinit] at hfresh
  obtain ⟨σ₁, htaken, hattested⟩ := hs.attested hids hinit hfirst σ
  obtain ⟨σ', htake, hend⟩ := Run.invariant_found (f := System.taken)
    (I := fun s l => ∃ σ', σ.takeAll l = some σ' ∧ s.Attested σ')
    (fun s l tx s' out ⟨σ', hl, h⟩ hp hok => by
      obtain ⟨σ'', htx, h'⟩ := h.perform hp.1 hp.2 hok
      exact ⟨σ'', (Signers.takeAll_append hl _).trans htx, h'⟩)
    ⟨σ₁, htaken, hattested⟩ (Run.along_and.mpr ⟨hP, hfresh⟩)
  have haccepted : s.accepted (⟨env, .initbbpelect count⟩ :: txs) =
      (s.taken ⟨env, .initbbpelect count⟩).toList ++ Run.found transact System.taken s₁ txs := by
    rw [System.accepted, Run.found, hinit, Run.next_ok hinit]
  refine ⟨hend.signed.tracks.enabled, hend.signed.carries hi, ?_⟩
  rw [haccepted, Signers.takeAll_append htake, Signers.takeAll, List.foldlM_map]
  exact (hend.signed.logged.replays hi).foldlM_eq

/-- 26 producers have votes, and the last three backup producers are close to each other. -/
private def candidates : System := electionChain 26 [
  supporter 101 (firstProducers 21) 200000000,
  supporter 102 (.single 22) 190000000, supporter 103 (.single 23) 180000000,
  supporter 104 (.single 24) 170000000, supporter 105 (.single 25) 100000000,
  supporter 106 (.single 26) 90000000]

/-- A key that no producer has from the start. -/
private def renewed : BlockSigningAuthority := ⟨1, [⟨900, 1⟩]⟩

/-- The last backup producer brings another key, the chain takes it, and then the producer leaves
the set. -/
theorem authorities_current_renewed :
    let s₁ := candidates.final [⟨electionDay, .initbbpelect 3⟩]
    let txs : List Transaction := [⟨electionDay, .regproducer2 24 renewed "" none⟩,
      ⟨electionDay, .onblock { timestamp := 1000000000, producer := 1 }⟩,
      ⟨electionDay, .addvote 105 ⟨95000000, voteSymbol⟩⟩]
    let s := s₁.final txs
    s.electGstate.isBbpEnabled = true ∧ s.elections.Carries ∧
      (⟨fun _ => none, fun _ => none⟩ : Signers).takeAll
        (candidates.accepted (⟨electionDay, .initbbpelect 3⟩ :: txs) ++
          s.elections.pending.map (·.changes)) = some s.elections.signers := by
  intro s₁ txs s
  obtain ⟨sent, hinit⟩ : ∃ sent, transact ⟨electionDay, .initbbpelect 3⟩ candidates = .ok (s₁, sent) :=
    System.final_single (by decide +kernel)
  exact authorities_current ⟨by decide +kernel, by decide +kernel, by decide +kernel⟩
    (by decide +kernel) hinit (by decide +kernel) (by decide +kernel) (by decide +kernel) _

/-- The second but last backup producer brings another key. Two producers pass it, one of them
leaves again, and the producer comes back with its old key from the cached record. -/
theorem authorities_outdated_tail :
    let s₁ := candidates.final [⟨electionDay, .initbbpelect 3⟩]
    let txs : List Transaction := [⟨electionDay, .regproducer2 23 renewed "" none⟩,
      ⟨electionDay, .addvote 105 ⟨95000000, voteSymbol⟩⟩,
      ⟨electionDay, .addvote 106 ⟨105000000, voteSymbol⟩⟩,
      ⟨electionDay, .subvote 105 ⟨150000000, voteSymbol⟩⟩]
    let s := s₁.final txs
    let signed := (⟨fun _ => none, fun _ => none⟩ : Signers).takeAll
      (candidates.accepted (⟨electionDay, .initbbpelect 3⟩ :: txs) ++
        s.elections.pending.map (·.changes))
    Unstarted candidates ∧ AllActive candidates.producers ∧ candidates.electedChanges.rows = [] ∧
      abortOf (transact ⟨electionDay, .initbbpelect 3⟩ candidates) = none ∧
      Run.Along transact (fun s tx => abortOf (transact tx s) = none) s₁ txs ∧
      s.electGstate.isBbpEnabled = true ∧ s.electGstate.producerChangeInterrupted = false ∧
      s.electGstate.backupElectedQueue.tail.name = 23 ∧
      s.electGstate.backupElectedQueue.tail.authority = ⟨1, [⟨23, 1⟩]⟩ ∧
      signed.map (·.backup 23) = some (some ⟨1, [⟨23, 1⟩]⟩) ∧
      authorities s.producers 23 = some renewed := by
  intro s₁ txs s signed
  exact ⟨⟨by decide +kernel, by decide +kernel, by decide +kernel⟩, by decide +kernel, rfl,
    by decide +kernel, by decide +kernel, by decide +kernel, by decide +kernel, by decide +kernel,
    by decide +kernel, by decide +kernel, by decide +kernel⟩

end Amax
