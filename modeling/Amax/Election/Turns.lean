-- SUMMARY: Which operations turn the elected sets before a move into the elected sets after it.
import Amax.Election.Moves

/-! # Turns of the elected sets

When a producer moves, at most one producer enters and one leaves each elected
set. Each result below is one list of operations of `process_elected_producer`
with the moves for which it is right. -/

namespace Amax

open Table (shift shift_cases)

theorem Native.ext_mem {a b : Native} (hm : ∀ n, n ∈ a.main ↔ n ∈ b.main)
    (hb : ∀ n, n ∈ a.backup ↔ n ∈ b.backup) : a = b := by
  obtain ⟨am, ab⟩ := a
  obtain ⟨bm, bb⟩ := b
  rw [Native.mk.injEq]
  exact ⟨Finset.ext hm, Finset.ext hb⟩

-- ---------------------------------------------------------------------------
-- Sets as ranges of positions
-- ---------------------------------------------------------------------------

/-- The sets of the names at the positions that satisfy `P` and `Q`. -/
structure Ranges (idx : List ProducerInfo) (n : Native) (P Q : ℕ → Prop) : Prop where
  main : ∀ m, m ∈ n.main ↔ P (position idx m)
  backup : ∀ m, m ∈ n.backup ↔ Q (position idx m)

/-- `c` is the record of the name at position `k`. -/
def NamedAt (idx : List ProducerInfo) (c : ProducerElectedInfo) (k : ℕ) : Prop :=
  ∀ m, m = c.name ↔ position idx m = k

theorem Stands.namedAt {idx : List ProducerInfo} {c : ProducerElectedInfo} {k : ℕ}
    (hr : Ranked idx) (h : Stands idx c k) : NamedAt idx c k := fun _ => h.name_iff hr

theorem ranges_electedSets {idx : List ProducerInfo} {N K : ℕ} (hr : Ranked idx)
    (h : N + K ≤ idx.length) :
    Ranges idx (electedSets idx N K) (fun x => x < N) (fun x => N ≤ x ∧ x < N + K) :=
  ⟨fun _ => mem_main hr (by omega), fun _ => mem_backup hr h⟩

section Turn

variable {idx : List ProducerInfo} {n n' : Native} {P Q : ℕ → Prop} {c : ProducerElectedInfo}
  {k : ℕ} {ops : List QueueOp}

theorem turn_add_main (hc : NamedAt idx c k) (h : Ranges idx n P Q) (hk : ¬P k)
    (rest : ∀ m, Ranges idx m (fun x => P x ∨ x = k) Q → turn ops m = some n') :
    turn (.add .main c :: ops) n = some n' := by
  refine turn_cons (step_add_main ?_) (rest _ ⟨fun m => ?_, h.backup⟩)
  · rw [h.main, (hc c.name).mp rfl]
    exact hk
  · rw [Finset.mem_insert, h.main, hc m, or_comm]

theorem turn_del_main (hc : NamedAt idx c k) (h : Ranges idx n P Q) (hk : P k)
    (rest : ∀ m, Ranges idx m (fun x => P x ∧ x ≠ k) Q → turn ops m = some n') :
    turn (.del .main c :: ops) n = some n' := by
  refine turn_cons (step_del_main ?_) (rest _ ⟨fun m => ?_, h.backup⟩)
  · rw [h.main, (hc c.name).mp rfl]
    exact hk
  · rw [Finset.mem_erase, h.main, ne_eq, hc m, and_comm]

theorem turn_add_backup (hc : NamedAt idx c k) (h : Ranges idx n P Q) (hk : ¬Q k)
    (rest : ∀ m, Ranges idx m P (fun x => Q x ∨ x = k) → turn ops m = some n') :
    turn (.add .backup c :: ops) n = some n' := by
  refine turn_cons (step_add_backup ?_) (rest _ ⟨h.main, fun m => ?_⟩)
  · rw [h.backup, (hc c.name).mp rfl]
    exact hk
  · rw [Finset.mem_insert, h.backup, hc m, or_comm]

theorem turn_del_backup (hc : NamedAt idx c k) (h : Ranges idx n P Q) (hk : Q k)
    (rest : ∀ m, Ranges idx m P (fun x => Q x ∧ x ≠ k) → turn ops m = some n') :
    turn (.del .backup c :: ops) n = some n' := by
  refine turn_cons (step_del_backup ?_) (rest _ ⟨h.main, fun m => ?_⟩)
  · rw [h.backup, (hc c.name).mp rfl]
    exact hk
  · rw [Finset.mem_erase, h.backup, ne_eq, hc m, and_comm]

end Turn

-- ---------------------------------------------------------------------------
-- Moves
-- ---------------------------------------------------------------------------

/-- Position `x` goes to position `y` when position `i` goes to position `j`. -/
def Goes (i j x y : ℕ) : Prop :=
  x = i ∧ y = j ∨ x < i ∧ x < j ∧ y = x ∨ x < i ∧ j ≤ x ∧ y = x + 1 ∨
    i < x ∧ x ≤ j ∧ y = x - 1 ∨ i < x ∧ j < x ∧ y = x

section Moves

variable {idx idx' : List ProducerInfo} {new mt mn bt bn : ProducerElectedInfo}
  {i j N K K' : ℕ} {n : Native} {P Q : ℕ → Prop}

theorem Shifts.goes (h : Shifts idx idx' new.name i j) (m : Name) :
    Goes i j (position idx m) (position idx' m) := by
  rw [h.position_eq m]
  by_cases hm : position idx m = i
  · exact .inl ⟨hm, if_pos hm⟩
  · rw [if_neg hm]
    exact .inr (shift_cases j hm)

/-- The sets are the elected sets after the move. -/
theorem Shifts.finish (h : Shifts idx idx' new.name i j) (hlen : N + K' ≤ idx.length)
    (hn : Ranges idx n P Q)
    (hPQ : ∀ x y, Goes i j x y → (P x ↔ y < N) ∧ (Q x ↔ N ≤ y ∧ y < N + K')) :
    turn [] n = some (electedSets idx' N K') := by
  have hlen' : N + K' ≤ idx'.length := h.length ▸ hlen
  refine congrArg some (Native.ext_mem (fun m => ?_) fun m => ?_)
  · rw [hn.main m, mem_main h.ranked' (by omega)]
    exact (hPQ _ _ (h.goes m)).1
  · rw [hn.backup m, mem_backup h.ranked' hlen']
    exact (hPQ _ _ (h.goes m)).2

variable (h : Shifts idx idx' new.name i j)

include h

theorem Shifts.namedAt : NamedAt idx new i := fun m => (h.name_iff m).symm

variable (hlen : N + K < idx.length)

include hlen

/-- A move that crosses no border changes no set. -/
theorem Shifts.turn_keep (hm : i < N ↔ j < N) (hb : i < N + K ↔ j < N + K) :
    turn [] (electedSets idx N K) = some (electedSets idx' N K) := by
  refine h.finish hlen.le (ranges_electedSets h.ranked hlen.le) fun x y hxy => ?_
  simp only [Goes] at hxy
  omega

/-- A main producer is modified. -/
theorem Shifts.turn_modifyMain (hi : i < N) (hj : j < N) {b : Prop} [Decidable b] :
    turn (if b then [.modify .main new] else []) (electedSets idx N K) =
      some (electedSets idx' N K) := by
  have hkeep := h.turn_keep hlen (iff_of_true hi hj) (by omega)
  split_ifs
  · refine turn_cons (step_modify_main ?_) hkeep
    rw [mem_main h.ranked (by omega), (h.name_iff _).mpr rfl]
    exact hi
  · exact hkeep

/-- A backup producer is modified. -/
theorem Shifts.turn_modifyBackup (hi : N ≤ i ∧ i < N + K) (hj : N ≤ j ∧ j < N + K) {b : Prop}
    [Decidable b] :
    turn (if b then [.modify .backup new] else []) (electedSets idx N K) =
      some (electedSets idx' N K) := by
  have hkeep := h.turn_keep hlen (by omega) (iff_of_true hi.2 hj.2)
  split_ifs
  · refine turn_cons (step_modify_backup ?_) hkeep
    rw [mem_backup h.ranked hlen.le, (h.name_iff _).mpr rfl]
    exact hi
  · exact hkeep

/-- A main producer becomes a backup producer. -/
theorem Shifts.turn_main_to_backup (hmn : NamedAt idx mn N) (hi : i < N)
    (hj : N ≤ j ∧ j < N + K) :
    turn [.del .main new, .del .backup mn, .add .main mn, .add .backup new]
      (electedSets idx N K) = some (electedSets idx' N K) := by
  refine turn_del_main h.namedAt (ranges_electedSets h.ranked hlen.le) hi fun _ r₁ =>
    turn_del_backup hmn r₁ (by omega) fun _ r₂ => turn_add_main hmn r₂ (by omega) fun _ r₃ =>
    turn_add_backup h.namedAt r₃ (by omega) fun _ r₄ => h.finish hlen.le r₄ fun x y hxy => ?_
  simp only [Goes] at hxy
  omega

/-- A main producer leaves, and the backup queue gets shorter. -/
theorem Shifts.turn_main_out_shrink (hmn : NamedAt idx mn N) (hK : 1 < K) (hi : i < N)
    (hj : N + K ≤ j + 1) :
    turn [.del .main new, .del .backup mn, .add .main mn] (electedSets idx N K) =
      some (electedSets idx' N (K - 1)) := by
  refine turn_del_main h.namedAt (ranges_electedSets h.ranked hlen.le) hi fun _ r₁ =>
    turn_del_backup hmn r₁ (by omega) fun _ r₂ => turn_add_main hmn r₂ (by omega) fun _ r₃ =>
    h.finish (by omega) r₃ fun x y hxy => ?_
  simp only [Goes] at hxy
  omega

/-- A main producer leaves, and the record behind the backup queue joins it. -/
theorem Shifts.turn_main_out_refill (hmn : NamedAt idx mn N) (hbn : NamedAt idx bn (N + K))
    (hK : 1 < K) (hi : i < N) (hj : N + K ≤ j) :
    turn [.del .main new, .del .backup mn, .add .main mn, .add .backup bn]
      (electedSets idx N K) = some (electedSets idx' N K) := by
  refine turn_del_main h.namedAt (ranges_electedSets h.ranked hlen.le) hi fun _ r₁ =>
    turn_del_backup hmn r₁ (by omega) fun _ r₂ => turn_add_main hmn r₂ (by omega) fun _ r₃ =>
    turn_add_backup hbn r₃ (by omega) fun _ r₄ => h.finish hlen.le r₄ fun x y hxy => ?_
  simp only [Goes] at hxy
  omega

/-- A backup producer becomes a main producer. -/
theorem Shifts.turn_backup_to_main (hmt : NamedAt idx mt (N - 1)) (hi : N ≤ i ∧ i < N + K)
    (hj : j < N) :
    turn [.del .main mt, .add .main new, .add .backup mt, .del .backup new]
      (electedSets idx N K) = some (electedSets idx' N K) := by
  refine turn_del_main hmt (ranges_electedSets h.ranked hlen.le) (by omega) fun _ r₁ =>
    turn_add_main h.namedAt r₁ (by omega) fun _ r₂ => turn_add_backup hmt r₂ (by omega) fun _ r₃ =>
    turn_del_backup h.namedAt r₃ (by omega) fun _ r₄ => h.finish hlen.le r₄ fun x y hxy => ?_
  simp only [Goes] at hxy
  omega

/-- A candidate becomes a main producer, and the last backup producer leaves. -/
theorem Shifts.turn_enter_main_pop (hmt : NamedAt idx mt (N - 1)) (hbt : NamedAt idx bt (N + K - 1))
    (hK : 0 < K) (hi : N + K ≤ i) (hj : j < N) :
    turn [.del .main mt, .add .main new, .add .backup mt, .del .backup bt]
      (electedSets idx N K) = some (electedSets idx' N K) := by
  refine turn_del_main hmt (ranges_electedSets h.ranked hlen.le) (by omega) fun _ r₁ =>
    turn_add_main h.namedAt r₁ (by omega) fun _ r₂ => turn_add_backup hmt r₂ (by omega) fun _ r₃ =>
    turn_del_backup hbt r₃ (by omega) fun _ r₄ => h.finish hlen.le r₄ fun x y hxy => ?_
  simp only [Goes] at hxy
  omega

/-- A candidate becomes a main producer, and the backup queue gets longer. -/
theorem Shifts.turn_enter_main_grow (hmt : NamedAt idx mt (N - 1)) (hi : N + K ≤ i) (hj : j < N) :
    turn [.del .main mt, .add .main new, .add .backup mt] (electedSets idx N K) =
      some (electedSets idx' N (K + 1)) := by
  refine turn_del_main hmt (ranges_electedSets h.ranked hlen.le) (by omega) fun _ r₁ =>
    turn_add_main h.namedAt r₁ (by omega) fun _ r₂ => turn_add_backup hmt r₂ (by omega) fun _ r₃ =>
    h.finish (by omega) r₃ fun x y hxy => ?_
  simp only [Goes] at hxy
  omega

/-- A backup producer leaves, and the backup queue gets shorter. -/
theorem Shifts.turn_backup_out_shrink (hi : N ≤ i ∧ i < N + K) (hj : N + K ≤ j + 1) :
    turn [.del .backup new] (electedSets idx N K) = some (electedSets idx' N (K - 1)) := by
  refine turn_del_backup h.namedAt (ranges_electedSets h.ranked hlen.le) hi fun _ r₁ =>
    h.finish (by omega) r₁ fun x y hxy => ?_
  simp only [Goes] at hxy
  omega

/-- A backup producer leaves, and the record behind the backup queue joins it. -/
theorem Shifts.turn_backup_out_refill (hbn : NamedAt idx bn (N + K)) (hi : N ≤ i ∧ i < N + K)
    (hj : N + K ≤ j) :
    turn [.del .backup new, .add .backup bn] (electedSets idx N K) =
      some (electedSets idx' N K) := by
  refine turn_del_backup h.namedAt (ranges_electedSets h.ranked hlen.le) hi fun _ r₁ =>
    turn_add_backup hbn r₁ (by omega) fun _ r₂ => h.finish hlen.le r₂ fun x y hxy => ?_
  simp only [Goes] at hxy
  omega

/-- A candidate becomes a backup producer, and the backup queue gets longer. -/
theorem Shifts.turn_enter_backup_grow (hi : N + K ≤ i) (hj : N ≤ j ∧ j ≤ N + K) :
    turn [.add .backup new] (electedSets idx N K) = some (electedSets idx' N (K + 1)) := by
  refine turn_add_backup h.namedAt (ranges_electedSets h.ranked hlen.le) (by omega) fun _ r₁ =>
    h.finish (by omega) r₁ fun x y hxy => ?_
  simp only [Goes] at hxy
  omega

/-- A candidate becomes a backup producer, and the last backup producer leaves. -/
theorem Shifts.turn_enter_backup_pop (hbt : NamedAt idx bt (N + K - 1)) (hK : 0 < K)
    (hi : N + K ≤ i) (hj : N ≤ j ∧ j < N + K) :
    turn [.add .backup new, .del .backup bt] (electedSets idx N K) =
      some (electedSets idx' N K) := by
  refine turn_add_backup h.namedAt (ranges_electedSets h.ranked hlen.le) (by omega) fun _ r₁ =>
    turn_del_backup hbt r₁ (by omega) fun _ r₂ => h.finish hlen.le r₂ fun x y hxy => ?_
  simp only [Goes] at hxy
  omega

/-- The record behind the backup queue joins it. -/
theorem Shifts.turn_grow (hbn : NamedAt idx bn (N + K)) (hi : N + K < i) (hj : N + K < j) :
    turn [.add .backup bn] (electedSets idx N K) = some (electedSets idx' N (K + 1)) := by
  refine turn_add_backup hbn (ranges_electedSets h.ranked hlen.le) (by omega) fun _ r₁ =>
    h.finish (by omega) r₁ fun x y hxy => ?_
  simp only [Goes] at hxy
  omega

end Moves

end Amax
