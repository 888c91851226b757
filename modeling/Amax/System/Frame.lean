-- SUMMARY: What the election code leaves alone, and what each action does to the rest of the state.
import Amax.System.Contract

/-! # Frames

The election code caches its work in a few fields: the two queues, the log of
changes and the sets the chain runs with. Everything outside of these fields
only changes in the few ways the actions themselves describe. -/

namespace Amax

-- ---------------------------------------------------------------------------
-- Outside of the elections
-- ---------------------------------------------------------------------------

/-- `g` without what the election code caches in it. -/
def ElectGlobalState.outside (g : ElectGlobalState) : ElectGlobalState :=
  { g with
    mainElectedQueue := {}, backupElectedQueue := {}
    lastProducerChangeId := 0, producerChangeInterrupted := false }

/-- `s` without what the election code caches in it. -/
def System.outside (s : System) : System :=
  { s with
    gstate := { s.gstate with
      electedSequence := 0, lastProducerScheduleUpdate := 0, lastProducerScheduleSize := 0 }
    electGstate := s.electGstate.outside
    electedChanges := .empty
    native := {} }

theorem processElectedProducer_outside {g g' : ElectGlobalState} {idx : List ProducerInfo}
    {old new : ProducerElectedInfo} {changes changes' : ProposedProducerChanges}
    (h : processElectedProducer g idx old new changes = .ok (g', changes')) :
    g'.outside = g.outside := by
  unfold processElectedProducer at h
  split_ifs at h with hinit
  · simp only [Except.pure_ok_iff, Prod.mk.injEq] at h
    rw [h.1]
  · simp only [Except.bind_ok_iff, Except.pure_ok_iff, Prod.mk.injEq] at h
    obtain ⟨-, -, st, -, changes₁, -, ⟨meq, beq⟩, -, rfl, -⟩ := h
    rfl

theorem reinitElectedProducers_outside {g g' : ElectGlobalState} {idx : List ProducerInfo}
    {changes : ProposedProducerChanges}
    (h : reinitElectedProducers g idx = .ok (some (g', changes))) : g'.outside = g.outside := by
  simp only [reinitElectedProducers, Except.bind_ok_iff] at h
  obtain ⟨st, -, h⟩ := h
  split_ifs at h with hempty
  · simp [Except.pure_ok_iff] at h
  · simp only [Except.pure_ok_iff, Option.some.injEq, Prod.mk.injEq] at h
    rw [← h.1]
    rfl

theorem saveProducerChanges_outside {env : Env} {s s' : System} {changes : ProposedProducerChanges}
    (h : saveProducerChanges env s changes = .ok s') : s'.outside = s.outside := by
  unfold saveProducerChanges at h
  dsimp only at h
  split_ifs at h
  · rw [Except.ok.inj h]
  · simp only [Except.bind_ok_iff] at h
    obtain ⟨r, hr, h⟩ := h
    cases r with
    | none => rw [Except.pure_ok_iff.mp h]
    | some r =>
      obtain ⟨g, initChanges⟩ := r
      rw [← Except.pure_ok_iff.mp h]
      have hg := reinitElectedProducers_outside hr
      simp only [System.outside, emplaceChange, ElectGlobalState.outside] at hg ⊢
      rw [← hg]
  all_goals
    obtain rfl := Except.ok.inj h
    rfl

theorem startElection_outside {env : Env} {s s' : System} (h : startElection env s = .ok s') :
    s'.outside = s.outside := by
  simp only [startElection, Except.bind_ok_iff] at h
  obtain ⟨r, hr, h⟩ := h
  cases r with
  | none => cases h
  | some r =>
    obtain ⟨g, changes⟩ := r
    simp only [Except.bind_ok_iff, check_ok_iff, exists_const, Except.pure_ok_iff] at h
    have hg := reinitElectedProducers_outside hr
    rw [← h.2]
    simp only [System.outside, hg]

theorem updateElectedProducerChanges_outside {env : Env} {s s' : System}
    (h : updateElectedProducerChanges env s = .ok s') : s'.outside = s.outside := by
  unfold updateElectedProducerChanges at h
  by_cases hset : (setProposedProducersEx env.nativeSettable {} s.native).1 < 0
  · rw [if_pos hset, Except.pure_ok_iff] at h
    rw [h]
  · rw [if_neg hset, Except.bind_ok_iff] at h
    obtain ⟨⟨rows, changes⟩, -, h⟩ := h
    dsimp only at h
    split_ifs at h <;> obtain rfl := Except.pure_ok_iff.mp h <;> rfl

theorem updateElectedProducers_outside (env : Env) (s : System) :
    (updateElectedProducers env s).outside = s.outside := by
  unfold updateElectedProducers
  dsimp only
  split_ifs <;> rfl

theorem updateSchedule_outside {env : Env} {s s' : System} {bh : BlockHeader}
    (h : updateSchedule env s bh = .ok s') : s'.outside = s.outside := by
  unfold updateSchedule at h
  split_ifs at h with hdue hbbp
  · simp only [Except.bind_ok_iff, Except.pure_ok_iff] at h
    obtain ⟨s₁, h₁, rfl⟩ := h
    exact (updateElectedProducerChanges_outside h₁ :)
  · simp only [Except.bind_ok_iff, Except.pure_ok_iff, Except.ok.injEq] at h
    obtain ⟨s₁, rfl, rfl⟩ := h
    exact (updateElectedProducers_outside env s :)
  · rw [Except.pure_ok_iff.mp h]

-- ---------------------------------------------------------------------------
-- Rows of producers
-- ---------------------------------------------------------------------------

/-- The row of a producer that has none. -/
def ProducerInfo.missing (n : Name) : ProducerInfo where
  owner := n
  isActive := false
  lastClaimedTime := 0
  unclaimedRewards := .none
  producerAuthority := .none
  ext := none
  indexed := false

/-- The row of a producer with `d` more elected votes. -/
def ProducerInfo.addVotes (p : ProducerInfo) (d : ℤ) : ProducerInfo :=
  let ext := p.ext.getD {}
  { p with ext := some { ext with electedVotes := ext.electedVotes + d } }

theorem ProducerInfo.addVotes_getElectedVotes (p : ProducerInfo) (d : ℤ) :
    (p.addVotes d).getElectedVotes = p.getElectedVotes + d := by
  simp only [getElectedVotes, addVotes]
  cases p.ext <;> rfl

namespace System

/-- The row of a producer, or the row that stands for it. -/
def producer (s : System) (n : Name) : ProducerInfo := (s.producers.find? n).getD (.missing n)

theorem producer_of_find? {s : System} {n : Name} {p : ProducerInfo}
    (h : s.producers.find? n = some p) : s.producer n = p := by
  rw [producer, h, Option.getD_some]

theorem producer_of_none {s : System} {n : Name} (h : s.producers.find? n = none) :
    s.producer n = .missing n := by
  rw [producer, h, Option.getD_none]

@[simp] theorem producer_owner (s : System) (n : Name) : (s.producer n).owner = n := by
  unfold producer
  cases h : s.producers.find? n with
  | none => rfl
  | some p => exact Table.key_of_find? h

/-- `s` with one row of a producer written. -/
def setProducer (s : System) (row : ProducerInfo) : System :=
  { s with producers := s.producers.set row }

theorem producer_setProducer (s : System) (row : ProducerInfo) (n : Name) :
    (s.setProducer row).producer n = if row.owner = n then row else s.producer n := by
  simp only [producer, setProducer, Table.find?_set]
  split_ifs <;> rfl

/-- A sum over the producers when one row is written. -/
theorem sum_setProducer (s : System) (row : ProducerInfo) {f : ProducerInfo → ℤ}
    (hf : ∀ n, f (.missing n) = 0) :
    (s.setProducer row).producers.sum f =
      s.producers.sum f - f (s.producer row.owner) + f row :=
  Table.sum_set_getD _ (hf _)

/-- `s` with `d` more elected votes for the producer `n`, and in the total. -/
def addVotes (s : System) (n : Name) (d : ℤ) : System :=
  { s.setProducer ((s.producer n).addVotes d) with
    electGstate := { s.electGstate with
      totalProducerElectedVotes := s.electGstate.totalProducerElectedVotes + d } }

/-- `addVotes` for a list of producers. -/
def addVotesList (s : System) (ns : List Name) (d : ℤ) : System :=
  ns.foldl (fun s n => s.addVotes n d) s

end System

-- ---------------------------------------------------------------------------
-- Elected votes
-- ---------------------------------------------------------------------------

/-- One round of `update_producer_elected_votes`: outside of the caches it only adds the votes. -/
theorem addElectedVotes_ok {votesDelta : Asset} {isAdding : Bool} {s s' : System}
    {changes changes' : ProposedProducerChanges} {n : Name}
    (h : addElectedVotes votesDelta isAdding s changes n = .ok (s', changes')) :
    (s.producer n).ext.isSome ∧ s'.outside = (s.addVotes n votesDelta.amount).outside := by
  unfold addElectedVotes at h
  cases hp : s.producers.find? n with
  | none => simp [hp] at h
  | some p =>
    cases hext : p.ext with
    | none => simp [hp, hext, Except.bind_ok_iff] at h
    | some ext =>
      simp only [hp, hext, Except.bind_ok_iff, check_ok_iff, exists_const, Asset.add_ok_iff] at h
      obtain ⟨-, _, ⟨-, -, rfl⟩, -, -, h⟩ := h
      have hrow := System.producer_of_find? hp
      refine ⟨by rw [hrow, hext]; rfl, ?_⟩
      simp only [System.addVotes, System.setProducer, ProducerInfo.addVotes, hrow, hext,
        Option.getD_some]
      split_ifs at h with hbbp
      · simp only [Except.bind_ok_iff, Except.pure_ok_iff, Prod.mk.injEq, Prod.exists] at h
        obtain ⟨g, c, hg, rfl, -⟩ := h
        simp only [System.outside, processElectedProducer_outside hg]
      · simp only [Except.pure_ok_iff, Prod.mk.injEq] at h
        rw [← h.1]

theorem System.addVotesList_outside (s : System) (ns : List Name) (d : ℤ) :
    (s.addVotesList ns d).outside = s.outside.addVotesList ns d := by
  induction ns generalizing s with
  | nil => rfl
  | cons n ns ih => exact ih (s.addVotes n d)

@[simp] theorem System.addVotesList_voters (s : System) (ns : List Name) (d : ℤ) :
    (s.addVotesList ns d).voters = s.voters := by
  induction ns generalizing s with
  | nil => rfl
  | cons n ns ih => exact ih (s.addVotes n d)

@[simp] theorem System.addVotesList_voteRefunds (s : System) (ns : List Name) (d : ℤ) :
    (s.addVotesList ns d).voteRefunds = s.voteRefunds := by
  induction ns generalizing s with
  | nil => rfl
  | cons n ns ih => exact ih (s.addVotes n d)

@[simp] theorem System.addVotesList_isInit (s : System) (ns : List Name) (d : ℤ) :
    (s.addVotesList ns d).electGstate.isInit = s.electGstate.isInit := by
  induction ns generalizing s with
  | nil => rfl
  | cons n ns ih => exact ih (s.addVotes n d)

theorem System.producer_addVotes (s : System) (n m : Name) (d : ℤ) :
    (s.addVotes n d).producer m = if n = m then (s.producer n).addVotes d else s.producer m := by
  have h := s.producer_setProducer ((s.producer n).addVotes d) m
  rwa [show ((s.producer n).addVotes d).owner = n from s.producer_owner n] at h

theorem System.ext_addVotes (s : System) (n m : Name) (d : ℤ) :
    ((s.addVotes n d).producer m).ext.isSome = (decide (n = m) || (s.producer m).ext.isSome) := by
  rw [producer_addVotes]
  by_cases hn : n = m <;> simp [hn, ProducerInfo.addVotes]

theorem System.ext_addVotesList (s : System) (ns : List Name) (m : Name) (d : ℤ) :
    ((s.addVotesList ns d).producer m).ext.isSome =
      (decide (m ∈ ns) || (s.producer m).ext.isSome) := by
  induction ns generalizing s with
  | nil => simp [addVotesList]
  | cons n ns ih =>
    rw [show s.addVotesList (n :: ns) d = (s.addVotes n d).addVotesList ns d from rfl, ih,
      ext_addVotes]
    by_cases hn : n = m <;> simp [hn, eq_comm (a := m)]

/-- A list without repetitions adds the votes once to each of its producers. -/
theorem System.votes_addVotesList (s : System) {ns : List Name} (hns : ns.Nodup) (m : Name) (d : ℤ) :
    ((s.addVotesList ns d).producer m).getElectedVotes =
      (s.producer m).getElectedVotes + if m ∈ ns then d else 0 := by
  induction ns generalizing s with
  | nil => simp [addVotesList]
  | cons n ns ih =>
    obtain ⟨hn, hns⟩ := List.nodup_cons.mp hns
    rw [show s.addVotesList (n :: ns) d = (s.addVotes n d).addVotesList ns d from rfl, ih _ hns,
      producer_addVotes]
    by_cases hm : n = m
    · subst hm
      simp [hn, ProducerInfo.addVotes_getElectedVotes]
    · simp [hm, eq_comm (a := m)]

/-- The total moves with the sum. -/
theorem System.total_addVotesList (s : System) (ns : List Name) (d : ℤ) :
    (s.addVotesList ns d).electGstate.totalProducerElectedVotes -
        (s.addVotesList ns d).producers.sum (·.getElectedVotes) =
      s.electGstate.totalProducerElectedVotes - s.producers.sum (·.getElectedVotes) := by
  induction ns generalizing s with
  | nil => rfl
  | cons n ns ih =>
    rw [show s.addVotesList (n :: ns) d = (s.addVotes n d).addVotesList ns d from rfl, ih]
    have hsum := s.sum_setProducer ((s.producer n).addVotes d) (f := (·.getElectedVotes))
      fun _ => rfl
    rw [show ((s.producer n).addVotes d).owner = n from s.producer_owner n,
      ProducerInfo.addVotes_getElectedVotes] at hsum
    show s.electGstate.totalProducerElectedVotes + d -
      (s.setProducer ((s.producer n).addVotes d)).producers.sum (·.getElectedVotes) = _
    omega

theorem System.producer_congr {s t : System} (h : s.outside = t.outside) (n : Name) :
    s.producer n = t.producer n := by
  have hrow := congrArg (fun r : System => r.producer n) h
  exact hrow

/-- `update_producer_elected_votes`: every producer of the list has votes to add to. -/
theorem updateProducerElectedVotes_ok {ns : List Name} {votesDelta : Asset} {isAdding : Bool}
    {s s' : System} {changes changes' : ProposedProducerChanges}
    (h : updateProducerElectedVotes ns votesDelta isAdding s changes = .ok (s', changes')) :
    (∀ n ∈ ns, (s.producer n).ext.isSome) ∧
      s'.outside = (s.addVotesList ns votesDelta.amount).outside := by
  induction ns generalizing s changes with
  | nil =>
    obtain ⟨rfl, -⟩ := Prod.mk.inj (Except.pure_ok_iff.mp h)
    exact ⟨nofun, rfl⟩
  | cons n ns ih =>
    simp only [updateProducerElectedVotes, List.foldlM_cons, Except.bind_ok_iff] at h
    obtain ⟨⟨s₁, changes₁⟩, h₁, h₂⟩ := h
    obtain ⟨hext, hout⟩ := addElectedVotes_ok h₁
    obtain ⟨hexts, hout'⟩ := ih h₂
    refine ⟨fun m hm => ?_, ?_⟩
    · rcases List.mem_cons.mp hm with rfl | hm
      · exact hext
      · have hm' := hexts m hm
        rw [System.producer_congr hout, System.ext_addVotes, Bool.or_eq_true,
          decide_eq_true_eq] at hm'
        rcases hm' with rfl | hm'
        · exact hext
        · exact hm'
    · rw [hout', System.addVotesList_outside, hout, ← System.addVotesList_outside]
      rfl

/-- Change the votes of groups of producers, outside of the caches. -/
def System.addVotesGroups (s : System) (groups : List (List Name × Asset)) : System :=
  groups.foldl (fun s group => s.addVotesList group.1 group.2.amount) s

theorem System.addVotesGroups_outside (s : System) (groups : List (List Name × Asset)) :
    (s.addVotesGroups groups).outside = s.outside.addVotesGroups groups := by
  induction groups generalizing s with
  | nil => rfl
  | cons group groups ih =>
    show ((s.addVotesList group.1 group.2.amount).addVotesGroups groups).outside =
      (s.outside.addVotesList group.1 group.2.amount).addVotesGroups groups
    rw [ih, addVotesList_outside]

private theorem foldlM_groups_ok {groups : List (List Name × Asset)} {s s' : System}
    {changes changes' : ProposedProducerChanges}
    (h : groups.foldlM (fun (r : System × ProposedProducerChanges) group =>
      updateProducerElectedVotes group.1 group.2 false r.1 r.2) (s, changes) =
        .ok (s', changes')) :
    (∀ group ∈ groups, ∀ n ∈ group.1, (s.producer n).ext.isSome) ∧
      s'.outside = (s.addVotesGroups groups).outside := by
  induction groups generalizing s changes with
  | nil =>
    obtain ⟨rfl, -⟩ := Prod.mk.inj (Except.pure_ok_iff.mp h)
    exact ⟨nofun, rfl⟩
  | cons group groups ih =>
    simp only [List.foldlM_cons, Except.bind_ok_iff] at h
    obtain ⟨⟨s₁, changes₁⟩, h₁, h₂⟩ := h
    obtain ⟨hext, hout⟩ := updateProducerElectedVotes_ok h₁
    obtain ⟨hexts, hout'⟩ := ih h₂
    refine ⟨fun other hother n hn => ?_, ?_⟩
    · rcases List.mem_cons.mp hother with rfl | hother
      · exact hext n hn
      · have hn' := hexts other hother n hn
        rw [System.producer_congr hout, System.ext_addVotesList, Bool.or_eq_true,
          decide_eq_true_eq] at hn'
        exact hn'.elim (hext n) id
    · rw [hout', System.addVotesGroups_outside, hout, ← System.addVotesGroups_outside]
      rfl

theorem moveElectedVotes_ok {env : Env} {s s' : System} {groups : List (List Name × Asset)}
    (h : moveElectedVotes env s groups = .ok s') :
    (∀ group ∈ groups, ∀ n ∈ group.1, (s.producer n).ext.isSome) ∧
      s'.outside = (s.addVotesGroups groups).outside := by
  simp only [moveElectedVotes, Except.bind_ok_iff, Prod.exists] at h
  obtain ⟨s₁, changes, h₁, h₂⟩ := h
  rw [saveProducerChanges_outside h₂]
  exact foldlM_groups_ok h₁

-- ---------------------------------------------------------------------------
-- Where the election code can fail
-- ---------------------------------------------------------------------------

section Sites

variable {site : Site} (hq : Site.queue ≠ site) (hc : Site.change ≠ site)

include hq in
theorem getPosItr_avoids (idx : List ProducerInfo) (prod : ProducerElectedInfo) :
    Avoids site (QueueHelper.getPosItr idx prod) := by
  unfold QueueHelper.getPosItr
  refine .check_bind hq fun _ => ?_
  dsimp only
  split
  · exact .error hq
  · exact .check_bind hq fun _ => .check_bind hq fun _ => .ok _

include hq in
theorem fetchPrev_avoids (idx : List ProducerInfo) (tail prev : ProducerElectedInfo)
    (checking : Bool) (title : String) :
    Avoids site (QueueHelper.fetchPrev idx tail prev checking title) := by
  unfold QueueHelper.fetchPrev
  refine .bind (getPosItr_avoids hq idx tail) fun pos _ => .check_bind hq fun _ => ?_
  split
  · exact .check_bind hq fun _ => .ok _
  · cases checking
    · exact .ok _
    · exact .error hq

include hq in
theorem fetchNext_avoids (idx : List ProducerInfo) (tail next : ProducerElectedInfo)
    (checkFound : Bool) (title : String) :
    Avoids site (QueueHelper.fetchNext idx tail next checkFound title) := by
  unfold QueueHelper.fetchNext
  refine .bind (getPosItr_avoids hq idx tail) fun pos _ => ?_
  split
  · exact .check_bind hq fun _ => .ok _
  · cases checkFound
    · exact .ok _
    · exact .error hq

include hc in
theorem edit_avoids (changes : ChangeMap) (n : Name) (r : ProducerChangeRecord) :
    Avoids site (changes.edit n r) := by
  cases r with
  | add a =>
    show Avoids site (changes.add n a)
    unfold ChangeMap.add
    repeat' split
    all_goals first | exact .ok _ | exact .error hc
  | modify a =>
    show Avoids site (changes.modify n a)
    unfold ChangeMap.modify
    repeat' split
    all_goals first | exact .ok _ | exact .error hc
  | del =>
    show Avoids site (changes.del n)
    unfold ChangeMap.del
    repeat' split
    all_goals first | exact .ok _ | exact .error hc

include hq in
theorem processMainEntry_avoids (g : ElectGlobalState) (idx : List ProducerInfo)
    (old new : ProducerElectedInfo) : Avoids site (processMainEntry g idx old new) := by
  have hpop : Avoids site (popBackupTail g idx old) := by
    unfold popBackupTail
    dsimp only
    split_ifs
    · exact .ok _
    · exact .bind (fetchNext_avoids hq _ _ _ _ _) fun _ _ => .ok _
    · exact .ok _
  unfold processMainEntry
  dsimp only
  refine .ite ?_ (.bind hpop fun r _ => ?_)
  all_goals repeat' first | exact .ok _ | refine .ite ?_ ?_

include hq in
theorem processBranch_avoids (g : ElectGlobalState) (idx : List ProducerInfo)
    (old new : ProducerElectedInfo) : Avoids site (processBranch g idx old new) := by
  unfold processBranch
  refine .ite ?_ (.ite (processMainEntry_avoids hq g idx old new) (.ite ?_ ?_))
  · unfold processMainProducer
    dsimp only
    repeat' first | exact .ok _ | refine .ite ?_ ?_ | refine .check_bind hq fun _ => ?_
  · unfold processBackupProducer
    dsimp only
    repeat' first | exact .ok _ | refine .ite ?_ ?_
  · unfold processCandidate
    dsimp only
    repeat' first | exact .ok _ | refine .ite ?_ ?_ | refine .check_bind hq fun _ => ?_

include hq hc in
/-- The update of the queues only fails in its own checks. -/
theorem processElectedProducer_avoids (g : ElectGlobalState) (idx : List ProducerInfo)
    (old new : ProducerElectedInfo) (changes : ProposedProducerChanges) :
    Avoids site (processElectedProducer g idx old new changes) := by
  have hrecord : ∀ (ops : List QueueOp) (changes : ProposedProducerChanges),
      Avoids site (ops.foldlM ProposedProducerChanges.record changes) := by
    intro ops
    induction ops with
    | nil => exact fun changes => .ok _
    | cons op ops ih =>
      intro changes
      refine .bind ?_ fun changes _ => ih changes
      unfold ProposedProducerChanges.record
      cases op.side <;> exact .bind (edit_avoids hc _ _ _) fun _ _ => .ok _
  have hrefresh : ∀ st : QueueStep, Avoids site (st.refresh idx) := by
    intro st
    unfold QueueStep.refresh
    refine .bind ?_ fun _ _ => .bind ?_ fun _ _ => .bind ?_ fun _ _ => .bind ?_ fun _ _ => .ok _
    · split_ifs
      · exact fetchPrev_avoids hq _ _ _ _ _
      · exact .ok _
    · split_ifs
      · exact fetchNext_avoids hq _ _ _ _ _
      · exact .ok _
    · split_ifs
      · exact fetchPrev_avoids hq _ _ _ _ _
      · exact .ok _
    · split_ifs
      · exact fetchNext_avoids hq _ _ _ _ _
      · exact .ok _
  unfold processElectedProducer
  by_cases hinit : g.isInit
  · simp only [hinit, Bool.not_true, Bool.false_eq_true, if_false]
    unfold checkQueues
    refine .bind ?_ fun _ _ => .bind (processBranch_avoids hq g idx old new) fun st _ =>
      .bind (hrecord _ _) fun _ _ => .bind (hrefresh st) fun _ _ => .ok _
    exact .check_bind hq fun _ => .check_bind hq fun _ => .check_bind hq fun _ => .check hq
  · simp only [hinit, Bool.not_false, if_true]
    exact .ok _

include hq in
theorem reinitLoop_avoids (g : ElectGlobalState) (idx : List ProducerInfo) (st : Reinit) :
    Avoids site (reinitLoop g idx st) := by
  induction idx generalizing st with
  | nil => exact .ok _
  | cons it rest ih =>
    unfold reinitLoop
    dsimp only
    split_ifs <;>
      first
        | exact .ok _
        | exact .check_bind hq fun _ => ih _

include hq in
theorem reinitElectedProducers_avoids (g : ElectGlobalState) (idx : List ProducerInfo) :
    Avoids site (reinitElectedProducers g idx) := by
  unfold reinitElectedProducers
  refine .bind (reinitLoop_avoids hq g idx _) fun st _ => ?_
  split_ifs <;> exact .ok _

include hq in
theorem saveProducerChanges_avoids (env : Env) (s : System) (changes : ProposedProducerChanges) :
    Avoids site (saveProducerChanges env s changes) := by
  unfold saveProducerChanges
  dsimp only
  split_ifs
  · exact .ok _
  · refine .bind (reinitElectedProducers_avoids hq _ _) fun r _ => ?_
    cases r <;> exact .ok _
  all_goals exact .ok _

end Sites

end Amax
