-- SUMMARY: The elected sets as ranges of positions, and what the operations on the change maps do to them.
import Amax.Election.Standing
import Amax.System.Election

/-! # The elected sets

The main producers are the first ones of the index and the backup producers are
the next ones. Membership is a question about the position of a name, and so is
what an operation on the change maps does. -/

namespace Amax

-- ---------------------------------------------------------------------------
-- Positions of names
-- ---------------------------------------------------------------------------

/-- The position of a producer in the index, or the length of the index. -/
def position (idx : List ProducerInfo) (n : Name) : ℕ := idx.findIdx fun p => p.owner = n

section Position

variable {idx : List ProducerInfo} {p : ProducerInfo} {c : ProducerElectedInfo} {n : Name} {k : ℕ}

theorem owner_of_position (h : idx[position idx n]? = some p) : p.owner = n := by
  obtain ⟨hk, rfl⟩ := List.getElem?_eq_some_iff.mp h
  exact of_decide_eq_true (List.findIdx_getElem (w := hk))

theorem position_eq_iff (hr : Ranked idx) (hp : idx[k]? = some p) :
    position idx n = k ↔ n = p.owner := by
  constructor
  · rintro rfl
    exact (owner_of_position hp).symm
  · rintro rfl
    have hk := (List.getElem?_eq_some_iff.mp hp).1
    have hlt : position idx p.owner < idx.length := by
      refine List.findIdx_lt_length_of_exists ⟨p, List.mem_of_getElem? hp, by simp⟩
    have hq := List.getElem?_eq_getElem hlt
    exact hr.owner_inj hq hp (owner_of_position hq)

theorem Stands.name_iff (hr : Ranked idx) (h : Stands idx c k) : n = c.name ↔ position idx n = k := by
  obtain ⟨p, hp, -, hn, -⟩ := h.row
  rw [hn, position_eq_iff hr hp]

theorem Stands.position_eq (hr : Ranked idx) (h : Stands idx c k) : position idx c.name = k :=
  (h.name_iff hr).mp rfl

/-- A name that is not in the index is at its end. -/
theorem position_eq_length (h : ∀ p ∈ idx, p.owner ≠ n) : position idx n = idx.length :=
  List.findIdx_eq_length_of_false (by simpa using h)

end Position

-- ---------------------------------------------------------------------------
-- The elected sets
-- ---------------------------------------------------------------------------

/-- The first `main` producers of the index, and the `backup` producers after them. -/
def electedSets (idx : List ProducerInfo) (main backup : ℕ) : Native where
  main := ((idx.take main).map (·.owner)).toFinset
  backup := (((idx.drop main).take backup).map (·.owner)).toFinset

section Sets

variable {idx : List ProducerInfo} {n : Name} {N K : ℕ}

private theorem exists_owner_iff (hr : Ranked idx) {P : ℕ → Prop} (hP : ∀ k, P k → k < idx.length) :
    (∃ k p, P k ∧ idx[k]? = some p ∧ p.owner = n) ↔ P (position idx n) := by
  constructor
  · rintro ⟨k, p, hk, hp, rfl⟩
    rwa [(position_eq_iff hr hp).mpr rfl]
  · intro h
    have hp := List.getElem?_eq_getElem (hP _ h)
    exact ⟨_, _, h, hp, owner_of_position hp⟩

theorem mem_main (hr : Ranked idx) (hN : N ≤ idx.length) :
    n ∈ (electedSets idx N K).main ↔ position idx n < N := by
  rw [← exists_owner_iff hr (P := (· < N)) fun k hk => by omega]
  simp only [electedSets, List.mem_toFinset, List.mem_map]
  constructor
  · rintro ⟨p, hp, rfl⟩
    obtain ⟨k, hk⟩ := List.mem_iff_getElem?.mp hp
    rw [List.getElem?_take] at hk
    split_ifs at hk with hlt
    exact ⟨k, p, hlt, hk, rfl⟩
  · rintro ⟨k, p, hlt, hk, rfl⟩
    refine ⟨p, List.mem_iff_getElem?.mpr ⟨k, ?_⟩, rfl⟩
    rw [List.getElem?_take, if_pos hlt, hk]

theorem mem_backup (hr : Ranked idx) (hN : N + K ≤ idx.length) :
    n ∈ (electedSets idx N K).backup ↔ N ≤ position idx n ∧ position idx n < N + K := by
  rw [← exists_owner_iff hr (P := fun k => N ≤ k ∧ k < N + K) fun k hk => by omega]
  simp only [electedSets, List.mem_toFinset, List.mem_map]
  constructor
  · rintro ⟨p, hp, rfl⟩
    obtain ⟨k, hk⟩ := List.mem_iff_getElem?.mp hp
    rw [List.getElem?_take, List.getElem?_drop] at hk
    split_ifs at hk with hlt
    exact ⟨N + k, p, ⟨by omega, by omega⟩, hk, rfl⟩
  · rintro ⟨k, p, ⟨hk, hlt⟩, hp, rfl⟩
    refine ⟨p, List.mem_iff_getElem?.mpr ⟨k - N, ?_⟩, rfl⟩
    rw [List.getElem?_take, if_pos (by omega), List.getElem?_drop, Nat.add_sub_cancel' hk, hp]

end Sets

-- ---------------------------------------------------------------------------
-- Operations
-- ---------------------------------------------------------------------------

/-- What an operation does to the elected sets. -/
def QueueOp.step (op : QueueOp) (n : Native) : Option Native :=
  match op.side with
  | .main => (Patch.step op.record.kind op.name n.main).map fun main => { n with main }
  | .backup => (Patch.step op.record.kind op.name n.backup).map fun backup => { n with backup }

/-- What a list of operations does to the elected sets. -/
def turn (ops : List QueueOp) (n : Native) : Option Native := ops.foldlM (fun n op => op.step n) n

theorem turn_cons {op : QueueOp} {ops : List QueueOp} {n n' n'' : Native}
    (h : op.step n = some n') (h' : turn ops n' = some n'') : turn (op :: ops) n = some n'' := by
  simp only [turn, List.foldlM_cons, h]
  exact h'

section Step

variable {c : ProducerElectedInfo} {n : Native}

theorem step_add_main (h : c.name ∉ n.main) :
    (QueueOp.add .main c).step n = some { n with main := insert c.name n.main } := by
  simp [QueueOp.step, QueueOp.add, Patch.step, ProducerChangeRecord.kind, h]

theorem step_del_main (h : c.name ∈ n.main) :
    (QueueOp.del .main c).step n = some { n with main := n.main.erase c.name } := by
  simp [QueueOp.step, QueueOp.del, Patch.step, ProducerChangeRecord.kind, h]

theorem step_modify_main (h : c.name ∈ n.main) : (QueueOp.modify .main c).step n = some n := by
  simp [QueueOp.step, QueueOp.modify, Patch.step, ProducerChangeRecord.kind, h]

theorem step_add_backup (h : c.name ∉ n.backup) :
    (QueueOp.add .backup c).step n = some { n with backup := insert c.name n.backup } := by
  simp [QueueOp.step, QueueOp.add, Patch.step, ProducerChangeRecord.kind, h]

theorem step_del_backup (h : c.name ∈ n.backup) :
    (QueueOp.del .backup c).step n = some { n with backup := n.backup.erase c.name } := by
  simp [QueueOp.step, QueueOp.del, Patch.step, ProducerChangeRecord.kind, h]

theorem step_modify_backup (h : c.name ∈ n.backup) : (QueueOp.modify .backup c).step n = some n := by
  simp [QueueOp.step, QueueOp.modify, Patch.step, ProducerChangeRecord.kind, h]

end Step

/-- An operation that is valid on the sets the changes lead to is recorded. -/
theorem ProposedProducerChanges.Leads.record_ok {c : ProposedProducerChanges} {op : QueueOp}
    {n n' n'' : Native} (h : c.Leads n n') (hs : op.step n' = some n'') :
    ∃ c', c.record op = .ok c' ∧ c'.Leads n n'' := by
  obtain ⟨side, name, change⟩ := op
  cases side with
  | main =>
    simp only [QueueOp.step, Option.map_eq_some_iff] at hs
    obtain ⟨S, hS, rfl⟩ := hs
    obtain ⟨changes, hok, hturns⟩ := ChangeMap.Turns.edit h.1 hS
    refine ⟨{ c with mainChanges := { c.mainChanges with changes } }, ?_, hturns, h.2⟩
    simp only [ProposedProducerChanges.record, Except.bind_ok_iff]
    exact ⟨changes, hok, rfl⟩
  | backup =>
    simp only [QueueOp.step, Option.map_eq_some_iff] at hs
    obtain ⟨S, hS, rfl⟩ := hs
    obtain ⟨changes, hok, hturns⟩ := ChangeMap.Turns.edit h.2 hS
    refine ⟨{ c with backupChanges := { c.backupChanges with changes } }, ?_, h.1, hturns⟩
    simp only [ProposedProducerChanges.record, Except.bind_ok_iff]
    exact ⟨changes, hok, rfl⟩

theorem ProposedProducerChanges.Leads.turn {c : ProposedProducerChanges} {ops : List QueueOp}
    {n n' n'' : Native} (h : c.Leads n n') (hs : turn ops n' = some n'') :
    ∃ c', ops.foldlM ProposedProducerChanges.record c = .ok c' ∧ c'.Leads n n'' := by
  induction ops generalizing c n' with
  | nil =>
    obtain rfl : n' = n'' := by simpa [Amax.turn] using hs
    exact ⟨c, rfl, h⟩
  | cons op ops ih =>
    simp only [Amax.turn, List.foldlM_cons, Option.bind_eq_bind, Option.bind_eq_some_iff] at hs
    obtain ⟨m, hm, hs⟩ := hs
    obtain ⟨c₁, hc₁, hleads⟩ := h.record_ok hm
    obtain ⟨c₂, hc₂, hleads₂⟩ := ih hleads hs
    exact ⟨c₂, by simp only [List.foldlM_cons, Except.bind_ok_iff]; exact ⟨c₁, hc₁, hc₂⟩, hleads₂⟩

end Amax
