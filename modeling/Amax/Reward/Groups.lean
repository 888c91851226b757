-- SUMMARY: The groups voteproducer sorts a voter's producers into, and the map it puts together again.
import Amax.Reward.Contract

/-! # The groups of voteproducer

The loop of `voteproducer` walks two sorted lists at once. What it keeps,
removes and adds is determined by membership in the two lists alone. -/

namespace Amax.Reward

-- ---------------------------------------------------------------------------
-- Sorting the producers
-- ---------------------------------------------------------------------------

/-- What the loop does with the old entries `os` and the new names `ns`. -/
private structure Grouped (os : List VotedProducer) (ns : List Name) (g g' : VoteGroups) :
    Prop where
  kept : ∀ k, g'.kept.find? k =
    if (os.find? (fun o => o.name = k)).isSome ∧ k ∉ ns then none else g.kept.find? k
  removed : ∀ k, g'.removed.find? k =
    if k ∈ ns then g.removed.find? k
    else (os.find? (fun o => o.name = k)).or (g.removed.find? k)
  added : ∀ k, g'.added.find? k =
    if k ∈ ns ∧ os.find? (fun o => o.name = k) = none then some { name := k }
    else g.added.find? k

private theorem grouped_remove {o : VotedProducer} {os : List VotedProducer} {ns : List Name}
    {g g' : VoteGroups} (hfresh : os.find? (fun x => x.name = o.name) = none) (hn : o.name ∉ ns)
    (h : Grouped os ns { g with removed := g.removed.set o, kept := g.kept.erase o.name } g') :
    Grouped (o :: os) ns g g' := by
  refine ⟨fun k => ?_, fun k => ?_, fun k => ?_⟩
  · rw [h.kept k]
    by_cases hk : o.name = k
    · subst hk
      simp [hfresh, hn, Table.find?_erase]
    · simp [hk, Table.find?_erase, Ne.symm hk]
  · rw [h.removed k]
    by_cases hk : o.name = k
    · subst hk
      simp [hfresh, hn]
    · simp [hk, Table.find?_set]
  · rw [h.added k]
    by_cases hk : o.name = k
    · subst hk
      simp [hn]
    · simp [hk]

private theorem grouped_add {n : Name} {os : List VotedProducer} {ns : List Name}
    {g g' : VoteGroups} (hn : os.find? (fun o => o.name = n) = none) (hns : n ∉ ns)
    (h : Grouped os ns { g with added := g.added.set { name := n } } g') :
    Grouped os (n :: ns) g g' := by
  refine ⟨fun k => ?_, fun k => ?_, fun k => ?_⟩
  · rw [h.kept k]
    by_cases hk : k = n
    · subst hk
      simp [hn]
    · simp [hk]
  · rw [h.removed k]
    by_cases hk : k = n
    · subst hk
      simp [hn, hns]
    · simp [hk]
  · rw [h.added k]
    by_cases hk : k = n
    · subst hk
      simp [hn, hns]
    · simp [hk, Table.find?_set, Ne.symm hk]

private theorem grouped_keep {o : VotedProducer} {os : List VotedProducer} {ns : List Name}
    {g g' : VoteGroups} (hfresh : os.find? (fun x => x.name = o.name) = none) (hns : o.name ∉ ns)
    (h : Grouped os ns g g') : Grouped (o :: os) (o.name :: ns) g g' := by
  refine ⟨fun k => ?_, fun k => ?_, fun k => ?_⟩
  · rw [h.kept k]
    by_cases hk : o.name = k
    · subst hk
      simp [hfresh]
    · simp [hk, Ne.symm hk]
  · rw [h.removed k]
    by_cases hk : o.name = k
    · subst hk
      simp [hfresh, hns]
    · simp [hk, Ne.symm hk]
  · rw [h.added k]
    by_cases hk : o.name = k
    · subst hk
      simp [hns]
    · simp [hk, Ne.symm hk]

private theorem groupLoop_grouped {fuel : ℕ} {os : List VotedProducer} {ns : List Name}
    {g : VoteGroups} (hf : os.length + ns.length ≤ fuel)
    (ho : os.Pairwise (fun a b => a.name < b.name)) (hn : ns.Pairwise (· < ·)) :
    Grouped os ns g (groupLoop fuel os ns g) := by
  induction fuel generalizing os ns g with
  | zero =>
    obtain rfl : os = [] := List.length_eq_zero_iff.mp (by omega)
    obtain rfl : ns = [] := List.length_eq_zero_iff.mp (by omega)
    exact ⟨by simp [groupLoop], by simp [groupLoop], by simp [groupLoop]⟩
  | succ fuel ih =>
    cases os with
    | nil =>
      cases ns with
      | nil => exact ⟨by simp [groupLoop], by simp [groupLoop], by simp [groupLoop]⟩
      | cons n ns =>
        obtain ⟨hn₁, hns⟩ := List.pairwise_cons.mp hn
        refine grouped_add (by simp) (fun h => lt_irrefl n (hn₁ n h)) ?_
        exact ih (by simp at hf ⊢; omega) ho hns
    | cons o os =>
      obtain ⟨ho₁, hos⟩ := List.pairwise_cons.mp ho
      have hfresh : os.find? (fun x => x.name = o.name) = none :=
        List.find?_eq_none.mpr fun x hx => by simpa using (ho₁ x hx).ne'
      cases ns with
      | nil =>
        refine grouped_remove hfresh (by simp) ?_
        exact ih (by simp at hf ⊢; omega) hos hn
      | cons n ns =>
        obtain ⟨hn₁, hns⟩ := List.pairwise_cons.mp hn
        rw [groupLoop]
        split_ifs with hlt hgt
        · refine grouped_remove hfresh ?_ (ih (by simp at hf ⊢; omega) hos hn)
          rintro hmem
          rcases List.mem_cons.mp hmem with rfl | hmem
          · exact lt_irrefl _ hlt
          · exact lt_irrefl _ (hlt.trans (hn₁ _ hmem))
        · refine grouped_add ?_ (fun h => lt_irrefl n (hn₁ n h))
            (ih (by simp at hf ⊢; omega) ho hns)
          refine List.find?_eq_none.mpr fun x hx => ?_
          rcases List.mem_cons.mp hx with rfl | hx
          · simpa using hgt.ne'
          · simpa using (hgt.trans (ho₁ x hx)).ne'
        · obtain rfl : o.name = n := le_antisymm (not_lt.mp hgt) (not_lt.mp hlt)
          exact grouped_keep hfresh (fun h => lt_irrefl _ (hn₁ _ h))
            (ih (by simp at hf ⊢; omega) hos hns)

section Spec

variable (old : VotedProducerMap) {new : List Name} (hnew : new.Pairwise (· < ·)) (k : Name)

include hnew

private theorem grouped_voteGroups : Grouped old.rows new { kept := old } (voteGroups old new) :=
  groupLoop_grouped le_rfl old.sorted hnew

theorem voteGroups_kept :
    (voteGroups old new).kept.find? k = if k ∈ new then old.find? k else none := by
  rw [(grouped_voteGroups old hnew).kept k]
  by_cases hk : k ∈ new
  · rw [if_neg fun h => h.2 hk, if_pos hk]
  · rw [if_neg hk]
    by_cases hs : (old.rows.find? (fun o => o.name = k)).isSome
    · rw [if_pos ⟨hs, hk⟩]
    · rw [if_neg fun h => hs h.1]
      exact Option.not_isSome_iff_eq_none.mp hs

theorem voteGroups_removed :
    (voteGroups old new).removed.find? k = if k ∈ new then none else old.find? k := by
  rw [(grouped_voteGroups old hnew).removed k, Table.find?_empty, Option.or_none]
  rfl

theorem voteGroups_added :
    (voteGroups old new).added.find? k =
      if k ∈ new ∧ old.find? k = none then some { name := k } else none := by
  rw [(grouped_voteGroups old hnew).added k, Table.find?_empty]
  rfl

end Spec

-- ---------------------------------------------------------------------------
-- Putting the map together
-- ---------------------------------------------------------------------------

private theorem find?_emplaceVoted (m : VotedProducerMap) (e : VotedProducer) (k : Name) :
    (emplaceVoted m e).find? k = (m.find? k).or (if e.name = k then some e else none) := by
  unfold emplaceVoted
  by_cases hk : e.name = k
  · subst hk
    cases h : m.find? e.name <;> simp [h]
  · cases h : m.find? e.name <;> simp [hk, Table.find?_set]

/-- Entries that are already in the map stay, and the others come from the added ones. -/
theorem find?_foldl_emplaceVoted (m added : VotedProducerMap) (k : Name) :
    (added.rows.foldl emplaceVoted m).find? k = (m.find? k).or (added.find? k) := by
  have h : ∀ (l : List VotedProducer) (m : VotedProducerMap),
      (l.foldl emplaceVoted m).find? k = (m.find? k).or (l.find? (fun e => e.name = k)) := by
    intro l
    induction l with
    | nil => simp
    | cons e es ih =>
      intro m
      rw [List.foldl_cons, ih, find?_emplaceVoted]
      by_cases hk : e.name = k <;> cases m.find? k <;> simp [hk]
  exact h added.rows m

end Amax.Reward
