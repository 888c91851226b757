-- SUMMARY: What vote makes of the old and the new producers of a voter, and which of them it checks.
import Amax.System.Contract

/-! # The difference of two votes

`vote` sorts the old and the new producers of a voter into removed, kept and
added ones. It compares where the names lie and not the names, so it sees a kept
producer as one that is removed and added again, and it asks of no producer
whether it is active. -/

namespace Amax

-- ---------------------------------------------------------------------------
-- The three lists
-- ---------------------------------------------------------------------------

/-- The lists are the differences of `old` and `new` and their intersection. -/
structure VoteDiff.Correct (d : VoteDiff) (old new : List Name) : Prop where
  nodup : d.removed.Nodup ∧ d.modified.Nodup ∧ d.added.Nodup
  removed : ∀ n, n ∈ d.removed ↔ n ∈ old ∧ n ∉ new
  modified : ∀ n, n ∈ d.modified ↔ n ∈ old ∧ n ∈ new
  added : ∀ n, n ∈ d.added ↔ n ∈ new ∧ n ∉ old

theorem NameList.nodup (l : NameList) : l.names.Nodup := l.sorted.imp fun h => h.ne

/-- The lists are right exactly when no producer is kept. -/
theorem voteDiff_correct_iff (place : (m n : ℕ) → Placement m n) (old new : NameList) :
    (voteDiff place old.names new.names).Correct old.names new.names ↔
      ∀ n ∈ old.names, n ∉ new.names := by
  rw [voteDiff_eq]
  constructor
  · exact fun h n hn => ((h.removed n).mp hn).2
  · intro h
    refine ⟨⟨old.nodup, .nil, new.nodup⟩, fun n => ?_, fun n => ?_, fun n => ?_⟩
    · exact ⟨fun hn => ⟨hn, h n hn⟩, And.left⟩
    · exact ⟨nofun, fun hn => absurd hn.2 (h n hn.1)⟩
    · exact ⟨fun hn => ⟨hn, fun ho => h n ho hn⟩, And.left⟩

-- ---------------------------------------------------------------------------
-- Checks
-- ---------------------------------------------------------------------------

/-- Whoever goes from the producers `old` to `new`: the added ones are registered and active. -/
def ChecksAdded (old new : NameList) : Prop :=
  ∀ (env : Env) (s s' : System) (voter : Name) (sent : List Inline),
    (s.voters.find? voter).map (·.producers) = some old →
    vote env s voter new.names = .ok (s', sent) →
    ∀ n ∈ new.names, n ∉ old.names → ∃ p, s.producers.find? n = some p ∧ p.isActive = true

section Idle

/-- The row of a producer that was registered and left. -/
private def left (n : Name) : ProducerInfo where
  owner := n
  isActive := false
  lastClaimedTime := 0
  unclaimedRewards := ⟨0, voteSymbol⟩
  producerAuthority := .none
  ext := some {}
  indexed := true

private def leftAll (ns : List Name) : Table ProducerInfo.owner :=
  ns.foldr (fun n t => t.set (left n)) .empty

private theorem find?_leftAll {ns : List Name} {n : Name} (h : n ∈ ns) :
    (leftAll ns).find? n = some (left n) := by
  induction ns with
  | nil => cases h
  | cons m ns ih =>
    simp only [leftAll, List.foldr_cons, Table.find?_set]
    split_ifs with hm
    · rw [show m = n from hm]
    · exact ih ((List.mem_cons.mp h).resolve_left (Ne.symm hm))

/-- A voter without votes who voted for `old`; every producer of `ns` has left. -/
private def idle (ns : List Name) (old : NameList) : System where
  producers := leftAll ns
  voters := Table.empty.set { owner := 1, producers := old }

private theorem addElectedVotes_idle {ns : List Name} {n : Name} (h : n ∈ ns) (old : NameList)
    (changes : ProposedProducerChanges) :
    addElectedVotes ⟨0, voteSymbol⟩ false (idle ns old) changes n =
      .ok (idle ns old, changes) := by
  have hrow := find?_leftAll h
  have hset : (leftAll ns).set (left n) = leftAll ns := by
    refine Table.ext_find? fun m => ?_
    rw [Table.find?_set]
    split_ifs with hm
    · rw [← show n = m from hm, hrow]
    · rfl
  have hsum : (Asset.mk 0 voteSymbol).add ⟨0, voteSymbol⟩ = .ok ⟨0, voteSymbol⟩ :=
    Asset.add_ok_iff.mpr ⟨rfl, by decide, rfl⟩
  have hext : (left n).ext = some {} := rfl
  simp only [addElectedVotes, idle, hrow, Except.bind_ok_iff, check_ok_iff, exists_const]
  refine ⟨nofun, ?_⟩
  simp only [hext, hsum, Except.bind_ok_iff, check_ok_iff, exists_const, Except.ok.injEq,
    exists_eq_left']
  refine ⟨le_rfl, (), check_of le_rfl, ?_⟩
  refine (if_neg Bool.false_ne_true).trans ?_
  exact congrArg (fun t : Table ProducerInfo.owner => Except.ok
    (({ producers := t, voters := Table.empty.set { owner := 1, producers := old } } : System),
      changes)) hset

private theorem updateVotes_idle (ns : List Name) {l : List Name} (h : ∀ n ∈ l, n ∈ ns) (old : NameList)
    (changes : ProposedProducerChanges) :
    updateProducerElectedVotes l ⟨0, voteSymbol⟩ false (idle ns old) changes =
      .ok (idle ns old, changes) := by
  unfold updateProducerElectedVotes
  induction l with
  | nil => rfl
  | cons n l ih =>
    rw [List.foldlM_cons, addElectedVotes_idle (h n List.mem_cons_self)]
    exact ih fun m hm => h m (List.mem_cons_of_mem n hm)

/-- Such a voter can vote for producers that have left. -/
private theorem vote_idle {old new : NameList} (hne : old ≠ new)
    (hlen : new.names.length ≤ maxVoteProducerCount) :
    ∃ s' sent, vote { now := 10 ^ 15, hasAuth := fun _ => true }
      (idle (old.names ++ new.names) old) 1 new.names = .ok (s', sent) := by
  have hsorted : sortedNames new.names = .ok new := by
    rw [sortedNames, dif_pos (List.isChain_iff_pairwise.mpr new.sorted)]
  have hmove : moveElectedVotes { now := 10 ^ 15, hasAuth := fun _ => true }
      (idle (old.names ++ new.names) old)
      [(old.names, ⟨0, voteSymbol⟩), ([], ⟨0, voteSymbol⟩), (new.names, ⟨0, voteSymbol⟩)] =
        .ok (idle (old.names ++ new.names) old) := by
    have h₁ := updateVotes_idle (old.names ++ new.names) (l := old.names)
      (fun n hn => List.mem_append_left _ hn) old {}
    have h₂ := updateVotes_idle (old.names ++ new.names) (l := new.names)
      (fun n hn => List.mem_append_right _ hn) old {}
    simp only [moveElectedVotes, List.foldlM_cons, List.foldlM_nil, h₁, bind, Except.bind]
    simp only [updateProducerElectedVotes, List.foldlM_nil] at h₂ ⊢
    simp only [pure, Except.pure, h₂]
    rfl
  have hvoter : (idle (old.names ++ new.names) old).voters.find? 1 =
      some { owner := 1, producers := old } := rfl
  refine ⟨{ idle (old.names ++ new.names) old with
      voters := (idle (old.names ++ new.names) old).voters.set
        { owner := 1, producers := new, votes := ⟨0, voteSymbol⟩,
          lastUnvotedTime := TimePoint.toSlot (10 ^ 15) } },
    [.rewardVoteproducer 1 new.names], ?_⟩
  simp only [vote, requireAuth, Except.bind_ok_iff, check_ok_iff, exists_const, hsorted,
    Except.ok.injEq, exists_eq_left', hvoter]
  refine ⟨trivial, hlen, le_rfl, ?_⟩
  rw [if_neg hne]
  simp only [Except.bind_ok_iff, check_ok_iff, exists_const, voteDiff_eq]
  refine ⟨by decide, _, hmove, rfl⟩

end Idle

theorem checksAdded_iff {old new : NameList} (hnew : new.names.length ≤ maxVoteProducerCount) :
    ChecksAdded old new ↔ ∀ n ∈ new.names, n ∈ old.names := by
  constructor
  · intro h n hn
    by_contra hold
    have hne : old ≠ new := fun e => hold (e ▸ hn)
    obtain ⟨s', sent, hvote⟩ := vote_idle hne hnew
    obtain ⟨p, hrow, hactive⟩ := h _ _ s' 1 sent rfl hvote n hn hold
    have hleft := find?_leftAll (List.mem_append_right old.names hn)
    rw [show p = left n from Option.some.inj (hrow.symm.trans hleft)] at hactive
    exact Bool.false_ne_true hactive
  · exact fun h _ _ _ _ _ _ _ n hn hold => absurd (h n hn) hold

/-- A vote that changes nothing builds no lists. The others are built right, with every added
producer checked, exactly when nobody is voted for. -/
theorem vote_diff_exact (old new : NameList) (hnew : new.names.length ≤ maxVoteProducerCount) :
    ((∀ place, old ≠ new → (voteDiff place old.names new.names).Correct old.names new.names) ↔
      old = new ∨ ∀ n ∈ old.names, n ∉ new.names) ∧
    ((∀ place, old ≠ new → (voteDiff place old.names new.names).Correct old.names new.names) ∧
        ChecksAdded old new ↔
      old = new ∨ new.names = []) := by
  have hdiff : (∀ place, old ≠ new →
      (voteDiff place old.names new.names).Correct old.names new.names) ↔
      old = new ∨ ∀ n ∈ old.names, n ∉ new.names := by
    simp only [voteDiff_correct_iff, or_iff_not_imp_left]
    exact ⟨fun h => h fun m _ => ⟨0, 8 * m, .inl (by omega)⟩, fun h _ => h⟩
  refine ⟨hdiff, ?_⟩
  rw [hdiff, checksAdded_iff hnew]
  constructor
  · rintro ⟨rfl | hdisjoint, hsub⟩
    · exact .inl rfl
    · refine .inr (List.eq_nil_iff_forall_not_mem.mpr fun n hn => ?_)
      exact hdisjoint n (hsub n hn) hn
  · rintro (rfl | hnil)
    · exact ⟨.inl rfl, fun _ hn => hn⟩
    · rw [hnil]
      exact ⟨.inr fun _ _ => List.not_mem_nil, nofun⟩

theorem vote_diff_exact_nil :
    (voteDiff (fun m _ => ⟨0, 8 * m, .inl (Nat.zero_add _).le⟩) [2, 3] []).Correct [2, 3] [] :=
  ((vote_diff_exact ⟨[2, 3], by decide⟩ .nil (by decide)).2.mpr (.inr rfl)).1 _ (by decide)

/-- Producer 2 is kept: it is removed and added again. Producer 3 is added and need not be
active. -/
theorem vote_diff_kept :
    (∀ place, voteDiff place [1, 2] [2, 3] = { removed := [1, 2], modified := [], added := [2, 3] } ∧
      ¬(voteDiff place [1, 2] [2, 3]).Correct [1, 2] [2, 3]) ∧
    ¬ChecksAdded ⟨[1, 2], by decide⟩ ⟨[2, 3], by decide⟩ := by
  refine ⟨fun place => ⟨voteDiff_eq place _ _, fun h => ?_⟩, fun h => ?_⟩
  · exact (((h.removed 2).mp (by rw [voteDiff_eq]; decide)).2 (by decide))
  · exact absurd ((checksAdded_iff (by decide)).mp h 3 (by decide)) (by decide)

end Amax
