-- SUMMARY: Which moves keep the votes of the elected producers over the threshold of min_producer_votes.
import Amax.Election.Setup

/-! # The threshold of votes

The last backup producer has the fewest votes of all elected producers. Nearly
every branch of `process_elected_producer` checks its votes before it lets the
backup queue grow over it, so that it has enough votes or the queue is at its
smallest, and then `save_producer_changes` interrupts the changes. -/

namespace Amax

-- ---------------------------------------------------------------------------
-- One move
-- ---------------------------------------------------------------------------

/-- The last of the backup producers has enough votes, or there are as few as there can be. -/
def TailHolds (g : ElectGlobalState) (beq : ProducerElectedQueue) : Prop :=
  g.isProdVotesValid beq.tail.electedVotes = true ∨
    beq.lastProducerCount = minBackupProducerCount

/-- The backup queue grows when a candidate joins the main producers. -/
def growsBehind (g : ElectGlobalState) (idx' : List ProducerInfo) (old : ProducerElectedInfo) :
    Bool :=
  match popBackupTail g idx' old with
  | .ok (_, isPopTail) => !isPopTail
  | .error _ => false

/-- When a candidate joins the main producers and the backup queue grows, its tail has
enough votes. -/
def GrowsOverVotes (g : ElectGlobalState) (idx' : List ProducerInfo)
    (old new : ProducerElectedInfo) : Prop :=
  old.lt g.backupElectedQueue.tail = true → new.gt g.mainElectedQueue.tail = true →
    growsBehind g idx' old = true →
    g.isProdVotesValid g.backupElectedQueue.tail.electedVotes = true

instance (g : ElectGlobalState) (idx' : List ProducerInfo) (old new : ProducerElectedInfo) :
    Decidable (GrowsOverVotes g idx' old new) :=
  inferInstanceAs (Decidable (_ → _ → _ → _))

section Branches

variable {g : ElectGlobalState} {idx idx' : List ProducerInfo} {old new : ProducerElectedInfo}

theorem ElectGlobalState.isProdVotesValid_mono {v w : ℤ} (h : g.isProdVotesValid v = true)
    (hvw : v ≤ w) : g.isProdVotesValid w = true := by
  simp only [isProdVotesValid, Bool.and_eq_true, decide_eq_true_eq] at h ⊢
  omega

/-- A better record of an active producer has as many votes. -/
theorem ProducerElectedInfo.votes_le_of_ge {a b : ProducerElectedInfo} (ha : a.isActive = true)
    (hb : b.isActive = true) (h : a.ge b = true) : b.electedVotes ≤ a.electedVotes := by
  simp only [ge, lt, ha, hb, lt_irrefl, gt_iff_lt, if_false] at h
  by_contra hlt
  rw [if_pos (not_le.mp hlt)] at h
  cases h

/-- The record at an earlier position has as many votes. -/
theorem Stands.votes_le {c d : ProducerElectedInfo} {k l : ℕ} (hr : Ranked idx)
    (hc : Stands idx c k) (hd : Stands idx d l) (hkl : k ≤ l) :
    d.electedVotes ≤ c.electedVotes := by
  refine ProducerElectedInfo.votes_le_of_ge hc.active hd.active ?_
  rw [ProducerElectedInfo.ge, hc.lt_eq hr hd]
  simpa using hkl

variable (hh : TailHolds g g.backupElectedQueue)

include hh

private theorem processMainProducer_tailHolds :
    Ensures (processMainProducer g old new) fun st => TailHolds g st.beq := by
  unfold processMainProducer
  refine .ite (fun _ => .ite (fun _ => .ok hh) fun _ => .ite (fun _ => .ok hh) fun _ => .ok hh)
    fun _ => .ite (fun _ => .ite (fun _ => .ok hh) fun _ => .ite (fun _ => .ok hh) fun _ => .ok hh)
    fun _ => .ite (fun _ => .ok hh) fun _ => .check fun _ => ?_
  refine .ite (fun _ => .ok ?_) fun _ => .ite (fun _ => ?_) fun _ => ?_
  · dsimp only
    split_ifs <;> exact hh
  · exact .ite (fun hv => .ok hv) fun hv => .ok (.inl (hh.resolve_right fun hK => hv (.inr hK)))
  · exact .ite (fun hv => .ok hv) fun hv => .ok (.inl (hh.resolve_right fun hK => hv (.inr hK)))

variable (hprev : g.backupElectedQueue.tail.electedVotes ≤
  g.backupElectedQueue.tailPrev.electedVotes)

include hprev

/-- The record before the tail has enough votes when the tail has. -/
private theorem tailPrev_holds {tailPrev tailNext : ProducerElectedInfo} :
    TailHolds g { g.backupElectedQueue with
      tail := g.backupElectedQueue.tailPrev, tailPrev, tailNext } :=
  hh.imp (fun hv => ElectGlobalState.isProdVotesValid_mono hv hprev) id

private theorem processMainEntry_tailHolds (hgrow : GrowsOverVotes g idx' old new)
    (hnew : new.gt g.mainElectedQueue.tail = true) :
    Ensures (processMainEntry g idx' old new) fun st => TailHolds g st.beq := by
  unfold processMainEntry
  refine .ite (fun _ => ?_) fun hold => .bind_eq fun r hr => .ite (fun _ => ?_) fun hpop => ?_
  · exact .ite (fun _ => .ok hh) fun _ => .ite (fun _ => .ok (tailPrev_holds hh hprev)) fun _ => .ok hh
  · exact .ok (tailPrev_holds hh hprev)
  · refine .ok (.inl (hgrow ?_ hnew ?_))
    · simpa [ProducerElectedInfo.ge] using hold
    · simpa [growsBehind, hr] using hpop

variable (hn : new.isActive = true) (ht : g.backupElectedQueue.tail.isActive = true)

include hn ht

omit hprev in
/-- A record that is no worse than the tail can take its place. -/
private theorem new_holds (hge : new.ge g.backupElectedQueue.tail = true)
    {tailPrev tailNext : ProducerElectedInfo} :
    TailHolds g { g.backupElectedQueue with tail := new, tailPrev, tailNext } :=
  hh.imp (fun hv => ElectGlobalState.isProdVotesValid_mono hv
    (ProducerElectedInfo.votes_le_of_ge hn ht hge)) id

private theorem processBackupProducer_tailHolds :
    Ensures (processBackupProducer g old new) fun st => TailHolds g st.beq := by
  have hprev' := @tailPrev_holds g hh hprev
  unfold processBackupProducer
  refine .ite (fun _ => ?_) fun _ => .ite (fun _ => ?_) fun _ => .ite (fun hge => ?_) fun _ =>
    .ite (fun _ => ?_) fun _ => ?_
  · exact .ite (fun _ => .ok hh) fun _ => .ite (fun _ => .ok hprev') fun _ => .ok hh
  · exact .ite (fun _ => .ok hh) fun _ => .ite (fun _ => .ok hh) fun _ =>
      .ite (fun _ => .ok hprev') fun _ => .ok hh
  · exact .ite (fun _ => .ok (new_holds hh hn ht hge)) fun _ =>
      .ite (fun _ => .ok hh) fun _ => .ok hh
  · refine .ite (fun hv => .ite (fun _ => .ok hv) fun _ => .ok hv) fun hv => ?_
    have hvalid := hh.resolve_right fun hK => hv (.inr hK)
    refine .ite (fun _ => .ok (.inl ?_)) fun _ => .ite (fun _ => .ok (.inl hvalid)) fun _ =>
      .ok (.inl hvalid)
    exact ElectGlobalState.isProdVotesValid_mono hvalid hprev
  · refine .ite (fun hv => .ok hv) fun hv => ?_
    have hvalid := hh.resolve_right fun hK => hv (.inr hK)
    refine .ite (fun _ => .ok (.inl ?_)) fun _ => .ite (fun _ => .ok (.inl hvalid)) fun _ =>
      .ok (.inl hvalid)
    exact ElectGlobalState.isProdVotesValid_mono hvalid hprev

private theorem processCandidate_tailHolds :
    Ensures (processCandidate g old new) fun st => TailHolds g st.beq := by
  have hprev' := @tailPrev_holds g hh hprev
  unfold processCandidate
  refine .ite (fun hge => .check fun _ => .ite (fun hv => ?_) fun _ => ?_) fun _ =>
    .ite (fun _ => .ite (fun hv => .ok (.inl ?_)) fun _ => .ok hh) fun _ =>
    .ite (fun hv => .ok (.inl ?_)) fun _ => .ok hh
  · rw [Bool.and_eq_true] at hv
    exact .ite (fun _ => .ok (.inl hv.2)) fun _ => .ite (fun _ => .ok (.inl hv.2)) fun _ =>
      .ok (.inl hv.2)
  · exact .ite (fun _ => .ok (new_holds hh hn ht hge)) fun _ => .ok hprev'
  · rw [Bool.and_eq_true] at hv
    exact hv.2
  · rw [Bool.and_eq_true] at hv
    exact hv.2

/-- Every branch keeps the votes of the tail, the growing one where it grows over votes. -/
theorem processElectedProducer_tailHolds (hgrow : GrowsOverVotes g idx' old new)
    {changes : ProposedProducerChanges} :
    Ensures (processElectedProducer g idx' old new changes) fun out =>
      TailHolds g out.1.backupElectedQueue := by
  unfold processElectedProducer
  refine .ite (fun _ => .ok hh) fun _ => .bind (P := fun _ => True) (fun _ _ => trivial) fun _ _ =>
    .bind (P := fun st => TailHolds g st.beq) ?_ fun st hst => ?_
  · unfold processBranch
    exact .ite (fun _ => processMainProducer_tailHolds hh) fun _ =>
      .ite (fun hnew => processMainEntry_tailHolds hh hprev hgrow hnew) fun _ =>
      .ite (fun _ => processBackupProducer_tailHolds hh hprev hn ht) fun _ =>
      processCandidate_tailHolds hh hprev hn ht
  · refine .bind (P := fun _ => True) (fun _ _ => trivial) fun changes' _ => .bind_eq fun r hr => ?_
    -- the refreshes leave the tail and the count
    simp only [QueueStep.refresh, Except.bind_ok_iff, Except.pure_ok_iff] at hr
    obtain ⟨-, -, -, -, -, -, -, -, rfl⟩ := hr
    exact .ok hst

end Branches

-- ---------------------------------------------------------------------------
-- Whole actions
-- ---------------------------------------------------------------------------

/-- A producer moves behind the queues as its records say, and the backup queue
grows over votes only, as long as the changes are not interrupted. -/
def KeepsThreshold (e : Elections) (a r : ProducerInfo) : Prop :=
  Tame e a r ∧ (e.electGstate.producerChangeInterrupted = false →
    GrowsOverVotes e.electGstate (electedProd (e.producers.set r)) a.getElectedInfo
      r.getElectedInfo)

instance (e : Elections) (a r : ProducerInfo) : Decidable (KeepsThreshold e a r) :=
  inferInstanceAs (Decidable (_ ∧ (_ → _)))

namespace Elections

/-- Inside of an action the queues are synchronised, and the tail of the backup
queue holds unless the changes are interrupted. -/
structure Holding (e : Elections) (changes : ProposedProducerChanges) : Prop where
  tracks : e.Tracks
  leads : ∃ n, changes.Leads n e.sets
  tail : e.electGstate.producerChangeInterrupted = false →
    TailHolds e.electGstate e.electGstate.backupElectedQueue

/-- Between two actions the tail of the backup queue has enough votes unless the
changes are interrupted. -/
structure Voted (e : Elections) : Prop where
  tracks : e.Tracks
  tail : e.electGstate.producerChangeInterrupted = false →
    e.electGstate.isProdVotesValid e.electGstate.backupElectedQueue.tail.electedVotes = true

variable {e : Elections} {changes : ProposedProducerChanges} {a r : ProducerInfo}

theorem Tracks.tail_le (h : e.Tracks) : e.electGstate.backupElectedQueue.tail.electedVotes ≤
    e.electGstate.backupElectedQueue.tailPrev.electedVotes :=
  h.synced.backupTailPrev.votes_le h.ranked h.synced.backupTail (by omega)

theorem Holding.row (h : e.Holding changes) (hr : Replaced e.producers a r) (hc : RowChange a r)
    (ht : Tame e a r) (hgrow : e.electGstate.producerChangeInterrupted = false →
      GrowsOverVotes e.electGstate (electedProd (e.producers.set r)) a.getElectedInfo
        r.getElectedInfo) :
    Yields (processElectedProducer e.electGstate (electedProd (e.producers.set r)) a.getElectedInfo
      r.getElectedInfo changes) fun out => (e.write r out.1).Holding out.2 := by
  obtain ⟨n, hn⟩ := h.leads
  have hfollow := h.tracks.follow hr hc ht hn
  cases hi : e.electGstate.producerChangeInterrupted with
  | true =>
    refine hfollow.mono fun out hout => ?_
    obtain ⟨⟨meq, beq, hg⟩, htracks, hleads⟩ := hout
    refine ⟨htracks, ⟨n, hleads⟩, fun hrun => ?_⟩
    rw [write, hg] at hrun
    exact absurd (hi.symm.trans hrun) (by simp)
  | false =>
    refine ((processElectedProducer_tailHolds (h.tail hi) h.tracks.tail_le rfl
      h.tracks.synced.backupTail.active (hgrow hi)).and_yields hfollow).mono fun out hout => ?_
    obtain ⟨hholds, ⟨meq, beq, hg⟩, htracks, hleads⟩ := hout
    refine ⟨htracks, ⟨n, hleads⟩, fun _ => ?_⟩
    rw [hg] at hholds
    rw [write, hg]
    exact hholds

end Elections

-- ---------------------------------------------------------------------------
-- Saving
-- ---------------------------------------------------------------------------

section Saving

variable {g g' : ElectGlobalState} {idx : List ProducerInfo} {changes : ProposedProducerChanges}

private theorem reinitLoop_valid (st : Reinit) :
    Ensures (reinitLoop g idx st) fun st' => st'.beq.tailNext = st.beq.tailNext ∨
      g.isProdVotesValid st'.beq.tailNext.electedVotes = true := by
  induction idx generalizing st with
  | nil => exact .ok (.inl rfl)
  | cons it rest ih =>
    unfold reinitLoop
    refine .ite (fun _ => .ok (.inl rfl)) fun hgood => .ite (fun _ => .check fun _ => ?_) fun _ =>
      .ite (fun _ => .check fun _ => ?_) fun _ => .ok (.inr ?_)
    · exact ih { st with mainChanges := _, meq := _ }
    · exact ih { st with backupChanges := _, meq := _, beq := _ }
    · simp only [Bool.or_eq_true, Bool.not_eq_true', not_or, Bool.not_eq_false] at hgood
      exact hgood.2

/-- Only producers with enough votes are elected from the start. -/
theorem reinitElectedProducers_valid (hr : Ranked idx) (h2 : 2 ≤ g.maxMainProducerCount)
    (hM : minBackupProducerCount ≤ g.maxBackupProducerCount)
    (h : reinitElectedProducers g idx = .ok (some (g', changes))) :
    g'.isProdVotesValid g'.backupElectedQueue.tail.electedVotes = true := by
  obtain ⟨⟨meq, beq, rfl⟩, hsynced, -⟩ := reinitElectedProducers_ok hr h2 hM h
  refine ElectGlobalState.isProdVotesValid_mono ?_
    (hsynced.backupTail.votes_le hr hsynced.backupTailNext (by omega))
  simp only [reinitElectedProducers, Except.bind_ok_iff] at h
  obtain ⟨st, hst, h⟩ := h
  split_ifs at h with hempty
  · simp [Except.pure_ok_iff] at h
  · simp only [Except.pure_ok_iff, Option.some.injEq, Prod.mk.injEq] at h
    rw [← h.1]
    refine (reinitLoop_valid _ st hst).resolve_left fun hnone => hempty ?_
    rw [hnone]
    rfl

namespace Elections

variable {e e' : Elections} {env : Env} {s s' : System} {count : ℕ}

theorem Holding.save (h : s.elections.Holding changes) (hs : Saved env s changes s') :
    s'.elections.Voted := by
  have htracks := hs.tracks h.tracks
  refine ⟨htracks, fun hi => ?_⟩
  have hvoted : s.electGstate.producerChangeInterrupted = false → ¬s.electGstate.Fails →
      s.electGstate.isProdVotesValid s.electGstate.backupElectedQueue.tail.electedVotes = true := by
    intro hrun hholds
    by_contra hinvalid
    have hK := (h.tail hrun).resolve_left hinvalid
    exact hholds ⟨hK.le, Bool.eq_false_iff.mpr hinvalid⟩
  cases hs with
  | waiting hinterrupted => exact absurd (hinterrupted.symm.trans hi) (by simp)
  | restarted _ hreinit =>
    have hM := h.tracks.synced.backup_ge.trans h.tracks.synced.backup_le
    exact (reinitElectedProducers_valid h.tracks.ranked h.tracks.synced.two_le hM hreinit :)
  | failed _ _ => exact absurd hi (by simp [System.elections])
  | recorded hrun hholds => exact hvoted hrun hholds
  | unchanged hrun hholds _ _ => exact hvoted hrun hholds

theorem upkept_voted : Upkept KeepsThreshold Holding Voted Voted where
  start h := ⟨h.tracks, ⟨_, ProposedProducerChanges.leads_empty _⟩, fun hi => .inl (h.tail hi)⟩
  seat h hf := ⟨h.tracks.seat hf, ⟨_, ProposedProducerChanges.leads_empty _⟩, fun hi => .inl (h.tail hi)⟩
  tracks h := h.tracks
  setTotal total h := ⟨h.tracks.setTotal total, h.leads, h.tail⟩
  row h hr hc hP := .of_yields (h.row hr hc hP.1 hP.2)
  save env _ changes h := .of_yields ((h.tracks.save env changes).mono fun _ hs => h.save hs)
  idle h := h

/-- The producers that are elected have enough votes. -/
theorem Voted.votes_valid (h : e.Voted) (hi : e.electGstate.producerChangeInterrupted = false)
    {p : ProducerInfo}
    (hp : p ∈ e.index.take (e.electGstate.maxMainProducerCount + e.electGstate.backupCount)) :
    e.electGstate.isProdVotesValid p.getElectedVotes = true := by
  obtain ⟨k, hk⟩ := List.mem_iff_getElem?.mp hp
  rw [List.getElem?_take] at hk
  split_ifs at hk with hlt
  obtain ⟨q, hq, hqa, -⟩ := h.tracks.synced.backupTailNext.row
  have hstands := Stands.of_row hk (h.tracks.ranked.active_of_lt hk hq hlt.le hqa)
  exact ElectGlobalState.isProdVotesValid_mono (h.tail hi)
    (hstands.votes_le h.tracks.ranked h.tracks.synced.backupTail (by omega))

end Elections

end Saving

-- ---------------------------------------------------------------------------
-- Runs
-- ---------------------------------------------------------------------------

/-- What the steps of a run keep, the run keeps. -/
theorem Upkept.final {P : Elections → ProducerInfo → ProducerInfo → Prop}
    {I : Elections → ProposedProducerChanges → Prop} {J : Elections → Prop} (u : Upkept P I J J)
    {s : System} (h : J s.elections) {txs : List Transaction}
    (hP : Run.Along transact (Rewrites P) s txs) : J (s.final txs).elections :=
  Run.invariant (I := fun s => J s.elections)
    (fun _ _ _ _ hs hp hok => (u.perform hs hp).of_ok (transact_ok_iff.mp hok).1) h hP

/-- In every run after the elections start whose moves keep the threshold, the
elected producers have votes and reach the threshold, unless the changes are interrupted. -/
theorem schedule_voted {env : Env} {s s₁ : System} {count : ℕ} {sent : List Inline}
    (hs : Unstarted s) (hinit : transact ⟨env, .initbbpelect count⟩ s = .ok (s₁, sent))
    {txs : List Transaction} (hP : Run.Along transact (Rewrites KeepsThreshold) s₁ txs) :
    let e := (s₁.final txs).elections
    e.electGstate.producerChangeInterrupted = false →
      ∀ p ∈ e.index.take (e.electGstate.maxMainProducerCount + e.electGstate.backupCount),
        0 < p.getElectedVotes ∧ e.electGstate.minProducerVotes ≤ p.getElectedVotes := by
  intro e hi p hp
  obtain ⟨changes, hstart, htracks⟩ := hs.start (transact_ok_iff.mp hinit).1
  have hvoted : s₁.elections.Voted := by
    refine ⟨htracks, fun _ => ?_⟩
    have hcount := (initbbpelect_ok (transact_ok_iff.mp hinit).1).1
    exact reinitElectedProducers_valid (ranked_electedProd hs.electable)
      (g := s.electGstate.enable count) hs.two_le hcount hstart.reinit
  have hvalid := (Elections.upkept_voted.final hvoted hP).votes_valid hi hp
  simpa [ElectGlobalState.isProdVotesValid] using hvalid

/-- Candidate 26 has no votes of its own, and producer 25 is the record behind the queues. -/
private def contested : System := electionChain 26 [
  supporter 101 (firstProducers 20) 200000000,
  supporter 102 (.single 21) 100000000, supporter 103 (.single 22) 50000000,
  supporter 104 (.single 23) 40000000, supporter 105 (.single 24) 30000000,
  supporter 106 (.single 25) 10000000, supporter 107 ⟨[21, 25], by decide⟩ 2,
  supporter 108 ⟨[21, 26], by decide⟩ 1]

private def begin : Transaction := ⟨electionDay, .initbbpelect 10000⟩

/-- A vote takes a main producer below the threshold, and new votes bring a candidate in. -/
theorem schedule_voted_candidate :
    let e := ((contested.final [begin]).final [⟨electionDay, .subvote 102 ⟨99000000, voteSymbol⟩⟩,
      ⟨electionDay, .vote 108 [25]⟩, ⟨electionDay, .addvote 106 ⟨60000000, voteSymbol⟩⟩]).elections
    e.electGstate.producerChangeInterrupted = false ∧
      ∀ p ∈ e.index.take (e.electGstate.maxMainProducerCount + e.electGstate.backupCount),
        0 < p.getElectedVotes ∧ e.electGstate.minProducerVotes ≤ p.getElectedVotes := by
  intro e
  obtain ⟨sent, hinit⟩ : ∃ sent, transact begin contested = .ok (contested.final [begin], sent) :=
    System.final_single (by decide +kernel)
  have hi : e.electGstate.producerChangeInterrupted = false := by decide +kernel
  exact ⟨hi, schedule_voted ⟨by decide +kernel, by decide +kernel, by decide +kernel⟩ hinit
    (by decide +kernel) hi⟩

/-- One vote takes a main producer down to the tail of the backup queue, below
the threshold, and a candidate up to the main producers: the backup queue grows
over the tail, and the changes are not interrupted. -/
theorem schedule_voted_growth :
    let s := contested.final [begin, ⟨electionDay, .subvote 106 ⟨10000000, voteSymbol⟩⟩]
    let e := (s.final [⟨electionDay, .vote 102 [26]⟩]).elections
    Unstarted contested ∧ abortOf (transact begin contested) = none ∧
      abortOf (transact ⟨electionDay, .vote 102 [26]⟩ s) = none ∧
      e.electGstate.isBbpEnabled = true ∧ e.electGstate.producerChangeInterrupted = false ∧
      ∃ p ∈ e.index.take (e.electGstate.maxMainProducerCount + e.electGstate.backupCount),
        p.owner = 21 ∧ p.getElectedVotes = 3 ∧ e.electGstate.minProducerVotes = 10000000 := by
  refine ⟨⟨?_, ?_, ?_⟩, ?_⟩
  all_goals decide +kernel

end Amax
