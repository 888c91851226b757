-- SUMMARY: reinit_elected_producers reads the queues off the index, and its changes lead from any sets to the elected ones.
import Amax.Election.Process

/-! # reinit_elected_producers

The loop fills the main producers, then the backup producers, and ends with the
record behind them. It stops early at a producer that is inactive or has too few
votes, and then leaves that record empty. -/

namespace Amax

-- ---------------------------------------------------------------------------
-- Filling a set
-- ---------------------------------------------------------------------------

section Sets

variable {idx : List ProducerInfo} {it : ProducerInfo} {k K N : ℕ}

theorem electedSets_main_succ (hit : idx[k]? = some it) :
    (electedSets idx (k + 1) K).main = insert it.owner (electedSets idx k K).main := by
  simp [electedSets, List.take_add_one, hit, Finset.union_comm]

theorem electedSets_backup_succ (hit : idx[N + k]? = some it) :
    (electedSets idx N (k + 1)).backup = insert it.owner (electedSets idx N k).backup := by
  simp [electedSets, List.take_add_one, hit, Finset.union_comm]

theorem electedSets_main_zero : (electedSets idx 0 K).main = ∅ := by simp [electedSets]

theorem electedSets_backup_zero : (electedSets idx N 0).backup = ∅ := by simp [electedSets]

theorem electedSets_main_card (hr : Ranked idx) (hk : k ≤ idx.length) :
    (electedSets idx k K).main.card = k := by
  have hnodup := hr.nodup.sublist ((List.take_sublist k idx).map (·.owner))
  rw [electedSets, List.toFinset_card_of_nodup hnodup, List.length_map, List.length_take,
    min_eq_left hk]

theorem electedSets_backup_card (hr : Ranked idx) (hk : N + k ≤ idx.length) :
    (electedSets idx N k).backup.card = k := by
  have hsub := (List.take_sublist k (idx.drop N)).trans (List.drop_sublist N idx)
  have hnodup := hr.nodup.sublist (hsub.map (·.owner))
  rw [electedSets, List.toFinset_card_of_nodup hnodup, List.length_map, List.length_take,
    List.length_drop, min_eq_left (by omega)]

/-- The changes that make up the set `S` from nothing. -/
structure ProducerChangeMap.Fills (c : ProducerChangeMap) (count : ℕ) (S : Finset Name) : Prop where
  clear : c.clearExisted = true
  count_eq : c.producerCount = count
  adds : Patch.Adds c.changes ProducerChange.kind S

namespace ProducerChangeMap.Fills

variable {c : ProducerChangeMap} {S : Finset Name} {n : Name}

theorem leads (h : c.Fills N S) (T : Finset Name) : c.Leads T S := by
  rw [Leads, base, if_pos h.clear]
  exact h.adds.turns

theorem emplace (h : c.Fills N S) (hn : n ∉ S) (authority : BlockSigningAuthority) :
    (⟨c.clearExisted, N, c.changes.emplace ⟨n, .add authority⟩⟩ : ProducerChangeMap).Fills N
      (insert n S) := by
  refine ⟨h.clear, rfl, ?_⟩
  simp only [ChangeMap.emplace, h.adds.find?_eq_none hn]
  exact h.adds.set rfl

end ProducerChangeMap.Fills

end Sets

-- ---------------------------------------------------------------------------
-- The records behind the loop
-- ---------------------------------------------------------------------------

/-- The record `d` places before position `k`, as soon as there is one from `lo` on. -/
def Trails (idx : List ProducerInfo) (lo k d : ℕ) (c : ProducerElectedInfo) : Prop :=
  if lo + d ≤ k then Stands idx c (k - d) else c = {}

section Trails

variable {idx : List ProducerInfo} {it : ProducerInfo} {lo k : ℕ}
  {tail tailPrev : ProducerElectedInfo}

theorem trails_start {d : ℕ} (hd : 0 < d) : Trails idx lo lo d {} := by
  rw [Trails, if_neg (by omega)]

/-- The loop reads one more record. -/
theorem Trails.next (hr : Ranked idx) (hit : idx[k]? = some it) (ha : it.isActive = true)
    (hlo : lo ≤ k) (ht : Trails idx lo k 1 tail) (hp : Trails idx lo k 2 tailPrev) :
    Trails idx lo (k + 1) 1 it.getElectedInfo ∧
      Trails idx lo (k + 1) 2 (if tail.empty then tailPrev else tail) ∧
      ((if tail.empty then tailPrev else tail).empty = true ∨
        (if tail.empty then tailPrev else tail).gt it.getElectedInfo = true) := by
  have hnew := Stands.of_row hit ha
  refine ⟨?_, ?_⟩
  · rw [Trails, if_pos (by omega), Nat.add_sub_cancel]
    exact hnew
  · by_cases hk : lo + 1 ≤ k
    · rw [Trails, if_pos hk] at ht
      rw [ht.name_ne hr, if_neg (by simp), Trails, if_pos (by omega)]
      refine ⟨ht, .inr ?_⟩
      rw [ht.gt_eq hr hnew, decide_eq_true_eq]
      omega
    · rw [Trails, if_neg hk] at ht
      rw [Trails, if_neg (by omega)] at hp
      rw [ht, hp, Trails, if_neg (by omega)]
      exact ⟨rfl, .inl rfl⟩

end Trails

-- ---------------------------------------------------------------------------
-- The loop
-- ---------------------------------------------------------------------------

/-- The first `k` main producers are read. -/
structure MainFilled (g : ElectGlobalState) (idx : List ProducerInfo) (k : ℕ)
    (changes : ProducerChangeMap) (meq : ProducerElectedQueue) : Prop where
  fills : changes.Fills g.maxMainProducerCount (electedSets idx k 0).main
  count : meq.lastProducerCount = g.maxMainProducerCount
  tail : Trails idx 0 k 1 meq.tail
  tailPrev : Trails idx 0 k 2 meq.tailPrev

/-- The first `k` backup producers are read. -/
structure BackupFilled (g : ElectGlobalState) (idx : List ProducerInfo) (k : ℕ)
    (changes : ProducerChangeMap) (mainTailNext : ProducerElectedInfo) (beq : ProducerElectedQueue) :
    Prop where
  fills : changes.Fills minBackupProducerCount (electedSets idx g.maxMainProducerCount k).backup
  count : beq.lastProducerCount = minBackupProducerCount
  tail : Trails idx g.maxMainProducerCount (g.maxMainProducerCount + k) 1 beq.tail
  tailPrev : Trails idx g.maxMainProducerCount (g.maxMainProducerCount + k) 2 beq.tailPrev
  mainTailNext : if 0 < k then Stands idx mainTailNext g.maxMainProducerCount else mainTailNext = {}

/-- What the loop ends with, unless the last record is empty. -/
structure Refilled (g : ElectGlobalState) (idx : List ProducerInfo) (st : Reinit) : Prop where
  main : MainFilled g idx g.maxMainProducerCount st.mainChanges st.meq
  backup : BackupFilled g idx minBackupProducerCount st.backupChanges st.meq.tailNext st.beq
  tailNext : Stands idx st.beq.tailNext (g.maxMainProducerCount + minBackupProducerCount)

private theorem drop_cons {α : Type} {l rest : List α} {n : ℕ} {a : α} (h : l.drop n = a :: rest) :
    l[n]? = some a ∧ l.drop (n + 1) = rest :=
  ⟨by rw [← List.head?_drop, h]; rfl, by rw [← List.tail_drop, h]; rfl⟩

section Loop

variable {g : ElectGlobalState} {idx rest : List ProducerInfo} {st : Reinit} {k : ℕ}

private theorem reinitLoop_backup (hr : Ranked idx)
    (hm : MainFilled g idx g.maxMainProducerCount st.mainChanges st.meq)
    (hb : BackupFilled g idx k st.backupChanges st.meq.tailNext st.beq)
    (hk : k ≤ minBackupProducerCount) (hnext : st.beq.tailNext = {})
    (hrest : idx.drop (g.maxMainProducerCount + k) = rest) :
    Yields (reinitLoop g rest st) fun st' => st'.beq.tailNext = {} ∨ Refilled g idx st' := by
  induction rest generalizing st k with
  | nil => exact .ok (.inl hnext)
  | cons it rest ih =>
    obtain ⟨hit, hrest⟩ := drop_cons hrest
    have hlen := (List.getElem?_eq_some_iff.mp hit).1
    have hmain := hm.fills.adds.length_eq.trans (electedSets_main_card hr (by omega))
    have hbackup := hb.fills.adds.length_eq.trans (electedSets_backup_card hr (by omega))
    unfold reinitLoop
    simp only [hmain, hbackup, hm.fills.count_eq, hb.fills.count_eq, lt_irrefl, if_false]
    refine .ite (fun _ => .ok (.inl hnext)) fun hgood => ?_
    have ha : it.isActive = true := by
      by_contra hi
      simp [hi] at hgood
    refine .ite (fun hlt => ?_) fun hge => ?_
    · obtain ⟨htail, hprev, hgt⟩ := hb.tail.next hr hit ha (by omega) hb.tailPrev
      have hnot : it.owner ∉ (electedSets idx g.maxMainProducerCount k).backup := by
        rw [mem_backup hr (by omega), (position_eq_iff hr hit).mpr rfl]
        omega
      refine .check hgt (ih ⟨hm.fills, hm.count, hm.tail, hm.tailPrev⟩ ⟨?_, hb.count, htail, hprev, ?_⟩
        hlt hnext hrest)
      · rw [electedSets_backup_succ hit]
        exact hb.fills.emplace hnot _
      · rw [if_pos (Nat.succ_pos k)]
        have hfirst := hb.mainTailNext
        dsimp only
        split_ifs at hfirst with hpos
        · rwa [hfirst.name_ne hr, if_neg (by simp)]
        · obtain rfl : k = 0 := by omega
          rw [hfirst]
          exact .of_row hit ha
    · obtain rfl : k = minBackupProducerCount := by omega
      exact .ok (.inr ⟨hm, ⟨hb.fills, hb.count, hb.tail, hb.tailPrev, hb.mainTailNext⟩,
        .of_row hit ha⟩)

private theorem reinitLoop_main (hr : Ranked idx)
    (hm : MainFilled g idx k st.mainChanges st.meq)
    (hb : BackupFilled g idx 0 st.backupChanges st.meq.tailNext st.beq)
    (hk : k ≤ g.maxMainProducerCount) (hnext : st.beq.tailNext = {}) (hrest : idx.drop k = rest) :
    Yields (reinitLoop g rest st) fun st' => st'.beq.tailNext = {} ∨ Refilled g idx st' := by
  induction rest generalizing st k with
  | nil => exact .ok (.inl hnext)
  | cons it rest ih =>
    rcases hk.eq_or_lt with rfl | hlt
    · exact reinitLoop_backup hr hm hb (Nat.zero_le _) hnext hrest
    · obtain ⟨hit, hrest⟩ := drop_cons hrest
      have hlen := (List.getElem?_eq_some_iff.mp hit).1
      have hmain := hm.fills.adds.length_eq.trans (electedSets_main_card hr hlen.le)
      unfold reinitLoop
      simp only [hmain, hm.fills.count_eq, hlt, if_true]
      refine .ite (fun _ => .ok (.inl hnext)) fun hgood => ?_
      have ha : it.isActive = true := by
        by_contra hi
        simp [hi] at hgood
      obtain ⟨htail, hprev, hgt⟩ := hm.tail.next hr hit ha (Nat.zero_le k) hm.tailPrev
      have hnot : it.owner ∉ (electedSets idx k 0).main := by
        rw [mem_main hr hlen.le, (position_eq_iff hr hit).mpr rfl]
        omega
      refine .check hgt (ih ⟨?_, hm.count, htail, hprev⟩ hb hlt hnext hrest)
      rw [electedSets_main_succ hit]
      exact hm.fills.emplace hnot _

private theorem reinitLoop_start (hr : Ranked idx) :
    Yields (reinitLoop g idx {
        mainChanges := { clearExisted := true, producerCount := g.maxMainProducerCount }
        backupChanges := { clearExisted := true, producerCount := minBackupProducerCount }
        meq := { lastProducerCount := g.maxMainProducerCount }
        beq := { lastProducerCount := minBackupProducerCount } })
      fun st' => st'.beq.tailNext = {} ∨ Refilled g idx st' := by
  apply reinitLoop_main hr (k := 0)
  · refine ⟨⟨rfl, rfl, ?_⟩, rfl, trails_start Nat.one_pos, trails_start Nat.two_pos⟩
    rw [electedSets_main_zero]
    exact Patch.adds_empty
  · refine ⟨⟨rfl, rfl, ?_⟩, rfl, trails_start Nat.one_pos, trails_start Nat.two_pos, rfl⟩
    rw [electedSets_backup_zero]
    exact Patch.adds_empty
  · exact Nat.zero_le _
  · rfl
  · rfl

/-- `reinit_elected_producers` never aborts, and what it answers is synchronised. -/
theorem reinitElectedProducers_synced (hr : Ranked idx) (h2 : 2 ≤ g.maxMainProducerCount)
    (hM : minBackupProducerCount ≤ g.maxBackupProducerCount) :
    Yields (reinitElectedProducers g idx) fun r => ∀ g' changes, r = some (g', changes) →
      (∃ meq beq, g' = g.withQueues meq beq) ∧ Synced g' idx ∧
        ∀ n, changes.Leads n (g'.sets idx) := by
  refine .bind (reinitLoop_start hr) fun st hst => ?_
  · rcases hst with hnone | hst
    · rw [hnone, if_pos (by simp [ProducerElectedInfo.empty])]
      exact .ok fun _ _ h => by cases h
    · rw [hst.tailNext.name_ne hr, if_neg (by simp)]
      refine .ok ?_
      rintro g' changes hg'
      obtain ⟨rfl, rfl⟩ := Prod.mk.inj (Option.some.inj hg')
      have hmain := hst.main
      have hbackup := hst.backup
      have htail := hmain.tail
      have htailPrev := hmain.tailPrev
      have hbtail := hbackup.tail
      have hbtailPrev := hbackup.tailPrev
      have hnext := hbackup.mainTailNext
      simp only [Trails] at htail htailPrev hbtail hbtailPrev
      rw [if_pos (by omega)] at htail htailPrev
      rw [if_pos (by simp [minBackupProducerCount])] at hbtail hbtailPrev hnext
      have hcount : (g.withQueues st.meq st.beq).backupCount = minBackupProducerCount :=
        hbackup.count
      refine ⟨⟨st.meq, st.beq, rfl⟩, ⟨h2, hmain.count, hcount.ge, hcount.trans_le hM, htailPrev,
        htail, hnext, ?_, ?_, ?_⟩, fun n => ?_⟩
      · exact hcount.symm ▸ hbtailPrev
      · exact hcount.symm ▸ hbtail
      · exact hcount.symm ▸ hst.tailNext
      · change _ ∧ _
        rw [show (_ : ElectGlobalState).sets idx =
          electedSets idx g.maxMainProducerCount minBackupProducerCount from by
            rw [ElectGlobalState.sets]; exact congrArg _ hcount]
        exact ⟨hmain.fills.leads _, hbackup.fills.leads _⟩

end Loop

end Amax
