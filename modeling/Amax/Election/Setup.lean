-- SUMMARY: What starts the elections, and the actions beside the votes that leave the queues synchronised.
import Amax.Election.Tracking

/-! # The start of the elections

A successful `initbbpelect` reads the queues off the index and proposes the
elected sets to the chain. -/

namespace Amax

section Start

variable {env : Env} {s s' : System} {sent : List Inline} {count : ℕ}

/-- The global record with which `initbbpelect` fills the queues. -/
def ElectGlobalState.enable (g : ElectGlobalState) (count : ℕ) : ElectGlobalState :=
  { g with electedVersion := electedVersionBbpEnabled, maxBackupProducerCount := count }

/-- `initbbpelect` starts a round of elections. -/
structure StartsElection (env : Env) (s : System) (count : ℕ) (changes : ProposedProducerChanges)
    (e' : Elections) : Prop where
  reinit : reinitElectedProducers (s.electGstate.enable count) (electedProd s.producers) =
    .ok (some (e'.electGstate, changes))
  accepted : setProposedProducersEx env.nativeAccepts changes s.native = (1, e'.native)
  sequence : e'.electedSequence = nextSequence s.gstate.electedSequence
  producers : e'.producers = s.producers
  electedChanges : e'.electedChanges = s.electedChanges

/-- `initbbpelect` starts a round unless the elections go on with no lower a limit. -/
def ElectGlobalState.NeedsReinit (g : ElectGlobalState) (count : ℕ) : Prop :=
  g.electedVersion < electedVersionBbpEnabled ∨ count < g.maxBackupProducerCount

instance (g : ElectGlobalState) (count : ℕ) : Decidable (g.NeedsReinit count) :=
  inferInstanceAs (Decidable (_ ∨ _))

theorem initbbpelect_ok (h : initbbpelect env s count = .ok (s', sent)) :
    minBackupProducerCount ≤ count ∧
      (electedVersionBbpEnabled ≤ s.electGstate.electedVersion ∧
          s.electGstate.maxBackupProducerCount ≤ count ∧
          s'.elections = { s.elections with electGstate := s.electGstate.enable count } ∨
        s.electGstate.NeedsReinit count ∧
          ∃ changes, StartsElection env s count changes s'.elections) := by
  simp only [initbbpelect, requireAdmin, Except.bind_ok_iff, check_ok_iff, exists_const] at h
  obtain ⟨-, hcount, s₁, h₁, h⟩ := h
  have hs' : s'.elections = s₁.elections := by
    split_ifs at h
    · exact (congrArg System.elections (Prod.mk.inj (Except.pure_ok_iff.mp h)).1.symm :)
    · exact congrArg System.elections (Prod.mk.inj (Except.pure_ok_iff.mp h)).1.symm
  refine ⟨hcount, ?_⟩
  rw [hs']
  split_ifs at h₁ with hre
  · right
    simp only [startElection, Except.bind_ok_iff] at h₁
    obtain ⟨r, hr, h₁⟩ := h₁
    cases r with
    | none => cases h₁
    | some r =>
      obtain ⟨g, changes⟩ := r
      rcases setProposedProducersEx_cases env.nativeAccepts changes s.native with
        hset | ⟨native, -, hset⟩
      · simp only [hset, Except.bind_ok_iff, check_ok_iff, exists_const] at h₁
        exact absurd h₁.1 (by decide)
      · simp only [hset, Except.bind_ok_iff, check_ok_iff, exists_const, Except.pure_ok_iff] at h₁
        obtain ⟨-, rfl⟩ := h₁
        exact ⟨hre, changes, hr, hset, rfl, rfl, rfl⟩
  · rw [← Except.ok.inj h₁]
    rw [not_or, not_lt, not_lt] at hre
    exact .inl ⟨hre.1, hre.2, rfl⟩

/-- A state in which elections of backup producers have not started. -/
structure Unstarted (s : System) : Prop where
  disabled : s.electGstate.isBbpEnabled = false
  electable : Electable s.producers
  two_le : 2 ≤ s.electGstate.maxMainProducerCount

theorem StartsElection.tracks {changes : ProposedProducerChanges} {e' : Elections}
    (h : StartsElection env s count changes e') (he : Electable s.producers)
    (h2 : 2 ≤ s.electGstate.maxMainProducerCount) (hcount : minBackupProducerCount ≤ count) :
    e'.Tracks ∧ ∀ n, changes.Leads n e'.sets := by
  obtain ⟨⟨meq, beq, hg⟩, hsynced, hleads⟩ :=
    reinitElectedProducers_ok (ranked_electedProd he) (g := s.electGstate.enable count) h2 hcount
      h.reinit
  have hindex : e'.index = electedProd s.producers := congrArg electedProd h.producers
  refine ⟨⟨by rw [hg]; rfl, by rw [h.producers]; exact he, by rw [hindex]; exact hsynced⟩, ?_⟩
  rw [Elections.sets, hindex]
  exact hleads

/-- The first `initbbpelect` that succeeds starts the elections. -/
theorem Unstarted.start (hs : Unstarted s) (h : initbbpelect env s count = .ok (s', sent)) :
    ∃ changes, StartsElection env s count changes s'.elections ∧ s'.elections.Tracks := by
  obtain ⟨hcount, ⟨henabled, -⟩ | ⟨-, changes, hstart⟩⟩ := initbbpelect_ok h
  · have := hs.disabled
    simp [ElectGlobalState.isBbpEnabled, henabled] at this
  · exact ⟨changes, hstart, (hstart.tracks hs.electable hs.two_le hcount).1⟩

end Start

-- ---------------------------------------------------------------------------
-- Chains to start from
-- ---------------------------------------------------------------------------

/-- A voter with votes for the producers of a list. -/
def supporter (voter : Name) (producers : NameList) (votes : ℤ) : VoterInfo :=
  { owner := voter, producers, votes := ⟨votes, voteSymbol⟩ }

/-- The producers from 1 to `count`, and at most 25 of them. -/
def firstProducers (count : ℕ) : NameList where
  names := [1, 2, 3, 4, 5, 6, 7, 8, 9, 10, 11, 12, 13, 14, 15, 16, 17, 18, 19, 20, 21, 22, 23, 24,
    25].take count
  sorted := .sublist (List.take_sublist _ _) (by decide)

/-- A chain on which the producers from 1 to `count` are registered and have the
votes of the voters. -/
def electionChain (count : ℕ) (voters : List VoterInfo) : System :=
  let votesOf (n : Name) : ℤ :=
    (voters.map fun v => if n ∈ v.producers.names then v.votes.amount else 0).sum
  let producers : List ProducerInfo := (List.range count).map fun i =>
    let owner : Name := Fin.ofNat _ (i + 1)
    { owner
      isActive := true
      lastClaimedTime := 1
      unclaimedRewards := ⟨0, voteSymbol⟩
      producerAuthority := ⟨1, [⟨i + 1, 1⟩]⟩
      ext := some { electedVotes := votesOf owner }
      indexed := true }
  { gstate := { coreSymbol := ⟨['A', 'M', 'A', 'X'], 8⟩ }
    electGstate := { totalProducerElectedVotes := (producers.map (·.getElectedVotes)).sum }
    producers := producers.foldl Table.set .empty
    voters := voters.foldl Table.set .empty }

/-- Some time after the upgrade of the votes. -/
def electionDay : Env := { now := seconds 1800000000, hasAuth := fun _ => true }

theorem System.final_single {s : System} {tx : Transaction}
    (h : abortOf (transact tx s) = none) : ∃ sent, transact tx s = .ok (s.final [tx], sent) := by
  obtain ⟨r, hr⟩ := abortOf_eq_none_iff.mp h
  refine ⟨r.2, ?_⟩
  rw [System.final, Run.final, Run.final, Run.next_ok hr]
  exact hr

end Amax
