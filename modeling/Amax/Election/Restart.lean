-- SUMMARY: The changes of a restart clear both sets and add exactly the first producers of the index.
import Amax.Election.Tracking

/-! # Restarts

`reinit_elected_producers` stops early at a producer that is inactive or has too
few votes. If the first producers of the index have enough, it does not stop, and
the changes it leaves are known in full. -/

namespace Amax

-- ---------------------------------------------------------------------------
-- The changes of a restart
-- ---------------------------------------------------------------------------

/-- The changes that add the producers `l`. -/
def additions (l : List ProducerInfo) : ChangeMap :=
  l.foldl (fun c p => c.set ⟨p.owner, .add p.producerAuthority⟩) .empty

/-- The changes that clear both sets and fill them with the first producers of the index. -/
def ElectGlobalState.restartChanges (g : ElectGlobalState) (idx : List ProducerInfo) :
    ProposedProducerChanges where
  mainChanges :=
    { clearExisted := true
      producerCount := g.maxMainProducerCount
      changes := additions (idx.take g.maxMainProducerCount) }
  backupChanges :=
    { clearExisted := true
      producerCount := minBackupProducerCount
      changes := additions ((idx.drop g.maxMainProducerCount).take minBackupProducerCount) }

/-- The first `n` rows of the index are of active producers with enough votes. -/
def ElectGlobalState.Fills (g : ElectGlobalState) (idx : List ProducerInfo) (n : ℕ) : Prop :=
  ∀ k < n, ∃ p, idx[k]? = some p ∧ p.isActive = true ∧ g.isProdVotesValid p.getElectedVotes = true

section Restart

variable {g : ElectGlobalState} {idx l : List ProducerInfo} {p : ProducerInfo} {n : Name}

theorem additions_concat (l : List ProducerInfo) (p : ProducerInfo) :
    additions (l ++ [p]) = (additions l).set ⟨p.owner, .add p.producerAuthority⟩ := by
  simp [additions]

theorem find?_additions (h : n ∉ l.map (·.owner)) : (additions l).find? n = none := by
  induction l using List.reverseRecOn with
  | nil => rfl
  | append_singleton l p ih =>
    rw [List.map_append, List.mem_append, not_or] at h
    have hne : p.owner ≠ n := fun he => h.2 (by simp [he])
    rw [additions_concat, Table.find?_set_ne _ (by exact hne)]
    exact ih h.1

theorem emplace_additions (h : p.owner ∉ l.map (·.owner)) :
    (additions l).emplace ⟨p.owner, .add p.producerAuthority⟩ = additions (l ++ [p]) := by
  rw [additions_concat, ChangeMap.emplace]
  simp only [find?_additions h]

theorem length_additions (h : (l.map (·.owner)).Nodup) : (additions l).rows.length = l.length := by
  induction l using List.reverseRecOn with
  | nil => rfl
  | append_singleton l p ih =>
    rw [List.map_append, List.nodup_append'] at h
    obtain ⟨hl, -, hdisj⟩ := h
    have hnew : p.owner ∉ l.map (·.owner) := fun hmem => hdisj hmem (by simp)
    have hcount := Table.count_set_of_none (t := additions l)
      (r := ⟨p.owner, .add p.producerAuthority⟩) (find?_additions hnew) fun _ => true
    simp only [Table.count, List.countP_true, Bool.toNat_true] at hcount
    rw [additions_concat, hcount, ih hl, List.length_append, List.length_singleton]

variable {rest : List ProducerInfo} {st : Reinit} {k : ℕ}

/-- What the loop ends with when it is not stopped early. -/
private structure Restarted (g : ElectGlobalState) (idx : List ProducerInfo) (st : Reinit) :
    Prop where
  main : st.mainChanges = (g.restartChanges idx).mainChanges
  backup : st.backupChanges = (g.restartChanges idx).backupChanges
  tailNext : st.beq.tailNext.empty = false

private theorem owner_notMem_take (hr : Ranked idx) {lo : ℕ} (hp : idx[lo + k]? = some p) :
    p.owner ∉ ((idx.drop lo).take k).map (·.owner) := by
  intro hmem
  obtain ⟨q, hq, ho⟩ := List.mem_map.mp hmem
  obtain ⟨j, hj⟩ := List.mem_iff_getElem?.mp hq
  rw [List.getElem?_take] at hj
  split_ifs at hj with hlt
  rw [List.getElem?_drop] at hj
  have := hr.owner_inj hj hp ho
  omega

private theorem length_additions_take (hr : Ranked idx) (lo k : ℕ) (hk : lo + k ≤ idx.length) :
    (additions ((idx.drop lo).take k)).rows.length = k := by
  have hsub := (List.take_sublist k (idx.drop lo)).trans (List.drop_sublist lo idx)
  rw [length_additions (hr.nodup.sublist (hsub.map (·.owner))), List.length_take, List.length_drop]
  omega

private theorem emplace_take (hr : Ranked idx) (lo k : ℕ) (hp : idx[lo + k]? = some p) :
    (additions ((idx.drop lo).take k)).emplace ⟨p.owner, .add p.producerAuthority⟩ =
      additions ((idx.drop lo).take (k + 1)) := by
  rw [emplace_additions (owner_notMem_take hr hp), List.take_add_one, List.getElem?_drop, hp]
  rfl

/-- The loop goes on with the next row. -/
private theorem ElectGlobalState.Fills.next {m : ℕ} (h : g.Fills idx m) (hk : k < m)
    (hrest : idx.drop k = rest) :
    ∃ p rest', rest = p :: rest' ∧ idx[k]? = some p ∧ idx.drop (k + 1) = rest' ∧
      ¬(!p.isActive || !g.isProdVotesValid p.getElectedInfo.electedVotes) = true := by
  obtain ⟨p, hp, ha, hv⟩ := h k hk
  obtain ⟨hlen, rfl⟩ := List.getElem?_eq_some_iff.mp hp
  refine ⟨idx[k], idx.drop (k + 1), ?_, hp, rfl, ?_⟩
  · rw [← hrest, List.drop_eq_getElem_cons hlen]
  · have hvotes : g.isProdVotesValid idx[k].getElectedInfo.electedVotes = true := hv
    rw [ha, hvotes]
    decide

private theorem reinitLoop_restart_backup (hr : Ranked idx)
    (hf : g.Fills idx (g.maxMainProducerCount + minBackupProducerCount + 1))
    (hmain : st.mainChanges = (g.restartChanges idx).mainChanges)
    (hbackup : st.backupChanges = ⟨true, minBackupProducerCount,
      additions ((idx.drop g.maxMainProducerCount).take k)⟩)
    (hk : k ≤ minBackupProducerCount) (hrest : idx.drop (g.maxMainProducerCount + k) = rest) :
    Ensures (reinitLoop g rest st) (Restarted g idx) := by
  induction rest generalizing st k with
  | nil =>
    obtain ⟨p, rest', hcons, -⟩ := hf.next (by omega) hrest
    cases hcons
  | cons it rest ih =>
    obtain ⟨p, rest', hcons, hit, hrest', hgood⟩ := hf.next (by omega) hrest
    obtain ⟨rfl, rfl⟩ := List.cons.inj hcons
    have hlen := (List.getElem?_eq_some_iff.mp hit).1
    have hfull : ¬ st.mainChanges.changes.rows.length < st.mainChanges.producerCount := by
      rw [hmain]
      have := length_additions_take hr 0 g.maxMainProducerCount (by omega)
      simp only [List.drop_zero] at this
      simp [ElectGlobalState.restartChanges, this]
    have hsize : st.backupChanges.changes.rows.length = k := by
      rw [hbackup]
      exact length_additions_take hr _ _ hlen.le
    unfold reinitLoop
    refine .ite (fun hbad => absurd hbad hgood) fun _ => .ite (fun hlt => absurd hlt hfull)
      fun _ => .ite (fun hlt => ?_) fun hge => ?_
    · rw [hsize, hbackup] at hlt
      refine .check fun _ => ih hmain ?_ hlt hrest'
      rw [hbackup]
      simp only [emplace_take hr _ _ hit]
    · rw [hsize, hbackup, not_lt] at hge
      obtain rfl : k = minBackupProducerCount := le_antisymm hk hge
      obtain ⟨ha, -⟩ : it.isActive = true ∧
          g.isProdVotesValid it.getElectedInfo.electedVotes = true := by simpa using hgood
      exact .ok ⟨hmain, hbackup, (Stands.of_row hit ha).name_ne hr⟩

private theorem reinitLoop_restart (hr : Ranked idx)
    (hf : g.Fills idx (g.maxMainProducerCount + minBackupProducerCount + 1))
    (hmain : st.mainChanges = ⟨true, g.maxMainProducerCount, additions (idx.take k)⟩)
    (hbackup : st.backupChanges = ⟨true, minBackupProducerCount, .empty⟩)
    (hk : k ≤ g.maxMainProducerCount) (hrest : idx.drop k = rest) :
    Ensures (reinitLoop g rest st) (Restarted g idx) := by
  induction rest generalizing st k with
  | nil =>
    obtain ⟨p, rest', hcons, -⟩ := hf.next (by omega) hrest
    cases hcons
  | cons it rest ih =>
    rcases hk.eq_or_lt with rfl | hlt
    · refine reinitLoop_restart_backup hr hf hmain (k := 0) ?_ (Nat.zero_le _) hrest
      rw [hbackup, List.take_zero]
      rfl
    · obtain ⟨p, rest', hcons, hit, hrest', hgood⟩ := hf.next (by omega) hrest
      obtain ⟨rfl, rfl⟩ := List.cons.inj hcons
      have hlen := (List.getElem?_eq_some_iff.mp hit).1
      have hsize : st.mainChanges.changes.rows.length < st.mainChanges.producerCount := by
        rw [hmain]
        have := length_additions_take hr 0 k (by omega)
        simp only [List.drop_zero] at this
        exact this.trans_lt hlt
      unfold reinitLoop
      refine .ite (fun hbad => absurd hbad hgood) fun _ => .ite (fun _ => .check fun _ => ?_)
        fun hge => absurd hsize hge
      refine ih ?_ hbackup hlt hrest'
      have hnext := emplace_take hr 0 k (by simpa using hit)
      simp only [List.drop_zero] at hnext
      rw [hmain]
      simp only [hnext]

/-- With enough producers that have votes the election restarts with the first of them. -/
theorem reinitElectedProducers_restarts (hr : Ranked idx)
    (hf : g.Fills idx (g.maxMainProducerCount + minBackupProducerCount + 1)) :
    Ensures (reinitElectedProducers g idx) fun r =>
      ∃ meq beq, r = some (g.withQueues meq beq, g.restartChanges idx) := by
  unfold reinitElectedProducers
  refine .bind (P := Restarted g idx) (reinitLoop_restart hr hf rfl rfl (Nat.zero_le _) rfl)
    fun st hst => ?_
  rw [hst.tailNext, if_neg (by decide)]
  refine .ok ⟨st.meq, st.beq, ?_⟩
  rw [hst.main, hst.backup]
  rfl

end Restart

end Amax
