-- SUMMARY: Interrupted elections resume as soon as enough producers have votes, if the backup queue grows over votes only.
import Amax.Election.Threshold
import Amax.Election.Restart
import Amax.Election.Steady

/-! # Recovery

While the changes are interrupted the queues keep following the votes, and
`save_producer_changes` looks at the last backup producer to decide whether to
resume. That is the right producer to look at as long as the backup queue is at
its smallest or its last producer has enough votes. -/

namespace Amax

-- ---------------------------------------------------------------------------
-- Enough producers
-- ---------------------------------------------------------------------------

/-- So many producers are active and have enough votes that elections can resume. -/
def Elections.Recoverable (e : Elections) : Prop :=
  e.electGstate.maxMainProducerCount + minBackupProducerCount + 1 ≤
    e.producers.count fun p => p.isActive && e.electGstate.isProdVotesValid p.getElectedVotes

instance (e : Elections) : Decidable e.Recoverable := inferInstanceAs (Decidable (_ ≤ _))

section Enough

variable {g : ElectGlobalState} {producers : Table ProducerInfo.owner} {n : ℕ}

/-- The active producers with the most votes come first in the index. -/
theorem fills_of_count (he : Electable producers)
    (h : n ≤ producers.count fun p => p.isActive && g.isProdVotesValid p.getElectedVotes) :
    g.Fills (electedProd producers) n := by
  have hr := ranked_electedProd he
  have hindexed : ∀ p ∈ producers.rows, (p.isActive && g.isProdVotesValid p.getElectedVotes) →
      p.indexed = true := by
    intro p hp hv
    rw [(he p hp).indexed_eq]
    by_contra hext
    have hzero : p.getElectedVotes = 0 := by
      rw [ProducerInfo.getElectedVotes, Option.not_isSome_iff_eq_none.mp hext]
    simp [hzero, ElectGlobalState.isProdVotesValid] at hv
  rw [Table.count_eq_countP_index producers hindexed (f := ProducerInfo.byElectedProd)] at h
  change n ≤ (electedProd producers).countP _ at h
  intro k hk
  by_contra hnone
  -- no row from position `k` on counts, so at most `k` rows do
  have htail : ((electedProd producers).drop k).countP
      (fun p => p.isActive && g.isProdVotesValid p.getElectedVotes) = 0 := by
    refine List.countP_eq_zero.mpr fun p hp hv => hnone ?_
    obtain ⟨j, hj⟩ := List.mem_iff_getElem?.mp hp
    rw [List.getElem?_drop] at hj
    obtain ⟨ha, hvotes⟩ := Bool.and_eq_true_iff.mp hv
    have hlen := (List.getElem?_eq_some_iff.mp hj).1
    have hq := List.getElem?_eq_getElem (l := electedProd producers) (i := k) (by omega)
    have hqa := hr.active_of_lt hq hj (by omega) ha
    refine ⟨_, hq, hqa, ElectGlobalState.isProdVotesValid_mono hvotes ?_⟩
    exact (Stands.of_row hq hqa).votes_le hr (Stands.of_row hj ha) (by omega)
  rw [← List.take_append_drop k (electedProd producers), List.countP_append, htail] at h
  have hle := List.countP_le_length
    (p := fun p : ProducerInfo => p.isActive && g.isProdVotesValid p.getElectedVotes)
    (l := (electedProd producers).take k)
  have hlen := List.length_take_le k (electedProd producers)
  omega

end Enough

-- ---------------------------------------------------------------------------
-- What an action keeps
-- ---------------------------------------------------------------------------

/-- A producer moves behind the queues as its records say, and the backup queue grows over
votes only. -/
def GrowsOverValid (e : Elections) (a r : ProducerInfo) : Prop :=
  Tame e a r ∧ GrowsOverVotes e.electGstate (electedProd (e.producers.set r)) a.getElectedInfo
    r.getElectedInfo

instance (e : Elections) (a r : ProducerInfo) : Decidable (GrowsOverValid e a r) :=
  inferInstanceAs (Decidable (_ ∧ _))

namespace Elections

/-- The queues describe the index, and the last backup producer has enough votes unless there
are as few as there can be. -/
structure Held (e : Elections) : Prop where
  tracks : e.Tracks
  tail : TailHolds e.electGstate e.electGstate.backupElectedQueue

/-- Nothing was saved since `e₀`. -/
structure Since (e₀ e : Elections) : Prop where
  interrupted : e.electGstate.producerChangeInterrupted = e₀.electGstate.producerChangeInterrupted
  lastId : e.electGstate.lastProducerChangeId = e₀.electGstate.lastProducerChangeId
  electedChanges : e.electedChanges = e₀.electedChanges
  electedSequence : e.electedSequence = e₀.electedSequence

/-- Inside of an action that began in `e₀`. -/
structure Within (e₀ e : Elections) (changes : ProposedProducerChanges) : Prop where
  held : e.Held
  leads : ∃ n, changes.Leads n e.sets
  since : e₀.Since e

variable {e e₀ : Elections} {changes : ProposedProducerChanges} {a r : ProducerInfo} {env : Env}
  {s s' : System}

theorem Within.row (h : e₀.Within e changes) (hr : Replaced e.producers a r) (hc : RowChange a r)
    (hP : GrowsOverValid e a r) :
    Yields (processElectedProducer e.electGstate (electedProd (e.producers.set r)) a.getElectedInfo
      r.getElectedInfo changes) fun out => e₀.Within (e.write r out.1) out.2 := by
  obtain ⟨n, hn⟩ := h.leads
  have ht := h.held.tracks
  have hholds : Ensures (processElectedProducer e.electGstate (electedProd (e.producers.set r))
      a.getElectedInfo r.getElectedInfo changes) fun out =>
        TailHolds e.electGstate out.1.backupElectedQueue :=
    processElectedProducer_tailHolds h.held.tail ht.tail_le rfl ht.synced.backupTail.active hP.2
  refine (hholds.and_yields (ht.follow hr hc hP.1 hn)).mono fun out hout => ?_
  obtain ⟨hholds, ⟨meq, beq, hg⟩, htracks, hleads⟩ := hout
  refine ⟨⟨htracks, ?_⟩, ⟨n, hleads⟩, ?_⟩
  · rw [hg] at hholds
    rw [write, hg]
    exact hholds
  · rw [write, hg]
    exact ⟨h.since.interrupted, h.since.lastId, h.since.electedChanges, h.since.electedSequence⟩

theorem Held.save (h : s.elections.Held) {changes : ProposedProducerChanges}
    (hs : Saved env s changes s') : s'.elections.Held := by
  refine ⟨hs.tracks h.tracks, ?_⟩
  cases hs with
  | waiting _ => exact h.tail
  | restarted _ hreinit =>
    have hM := h.tracks.synced.backup_ge.trans h.tracks.synced.backup_le
    exact .inl (reinitElectedProducers_valid h.tracks.ranked h.tracks.synced.two_le hM hreinit :)
  | failed _ _ => exact h.tail
  | recorded _ _ => exact h.tail
  | unchanged _ _ _ _ => exact h.tail

theorem upkept_held (e₀ : Elections) :
    Upkept GrowsOverValid e₀.Within (fun e => e.Held ∧ e = e₀) Held where
  start h := by
    obtain ⟨h, rfl⟩ := h
    exact ⟨h, ⟨_, ProposedProducerChanges.leads_empty _⟩, rfl, rfl, rfl, rfl⟩
  seat h hf := by
    obtain ⟨h, rfl⟩ := h
    exact ⟨⟨h.tracks.seat hf, h.tail⟩, ⟨_, ProposedProducerChanges.leads_empty _⟩, rfl, rfl, rfl,
      rfl⟩
  tracks h := h.held.tracks
  setTotal total h := ⟨⟨h.held.tracks.setTotal total, h.held.tail⟩, h.leads,
    h.since.interrupted, h.since.lastId, h.since.electedChanges, h.since.electedSequence⟩
  row h hr hc hP := .of_yields (h.row hr hc hP)
  save env _ changes h :=
    .of_yields ((h.held.tracks.save env changes).mono fun _ hs => h.held.save hs)
  idle h := h.1

theorem Held.steady (h : e.Held) {e' : Elections} (hs : e.Steady e') : e'.Held := by
  obtain ⟨period, main, backup, contribution, hg⟩ := hs.electGstate
  refine ⟨h.tracks.steady hs, ?_⟩
  rw [hg]
  exact h.tail

theorem StartsElection.held {count : ℕ} {changes : ProposedProducerChanges} {e' : Elections}
    (h : StartsElection env s count changes e') (he : Electable s.producers)
    (h2 : 2 ≤ s.electGstate.maxMainProducerCount) (hcount : minBackupProducerCount ≤ count) :
    e'.Held := by
  refine ⟨(h.tracks he h2 hcount).1, .inl ?_⟩
  exact reinitElectedProducers_valid (ranked_electedProd he) (g := s.electGstate.enable count) h2
    hcount h.reinit

theorem Held.initbbpelect (h : s.elections.Held) (count : ℕ) :
    Ensures (initbbpelect env s count) fun out => out.1.elections.Held := by
  intro out hok
  obtain ⟨hcount, ⟨-, hle, hsame⟩ | ⟨-, changes, hstart⟩⟩ := initbbpelect_ok hok
  · rw [hsame]
    exact ⟨⟨by rfl, h.tracks.electable, h.tracks.synced.congr rfl rfl rfl hle⟩, h.tail⟩
  · exact StartsElection.held hstart h.tracks.electable h.tracks.synced.two_le hcount

end Elections

-- ---------------------------------------------------------------------------
-- What an action saves
-- ---------------------------------------------------------------------------

/-- The action moves votes or registers a producer again, and calls `save_producer_changes`. -/
def System.Saves (s : System) : Action → Prop
  | .addvote voter _ => (s.voter voter).producers.names ≠ []
  | .subvote .. => True
  | .vote voter producers => (s.voter voter).producers.names ≠ producers
  | .regproducer producer .. | .regproducer2 producer .. => (s.producers.find? producer).isSome
  | _ => False

instance (s : System) (a : Action) : Decidable (s.Saves a) :=
  decidable_of_bool (match a with
    | .addvote voter _ => decide ((s.voter voter).producers.names ≠ [])
    | .subvote .. => true
    | .vote voter producers => decide ((s.voter voter).producers.names ≠ producers)
    | .regproducer producer .. | .regproducer2 producer .. => (s.producers.find? producer).isSome
    | _ => false) (by cases a <;> simp [System.Saves])

/-- An action that saves what it has done in the state before. -/
def SavesFrom (env : Env) (I : Elections → ProposedProducerChanges → Prop) (e' : Elections) : Prop :=
  ∃ t changes t', I t.elections changes ∧ saveProducerChanges env t changes = .ok t' ∧
    e' = t'.elections

namespace Upkept

variable {P : Elections → ProducerInfo → ProducerInfo → Prop}
  {I : Elections → ProposedProducerChanges → Prop} {J J' : Elections → Prop}
  {env : Env} {s : System}

private theorem moves_saved (u : Upkept P I J J') (h : J s.elections)
    {groups : List (List Name × Asset)}
    (hP : MovesAlong P s (groups.flatMap fun group => group.1.map (·, group.2))) :
    Ensures (Amax.moveElectedVotes env s groups) fun t' => SavesFrom env I t'.elections :=
  .bind (P := fun out => I out.1.elections out.2) (fun _ hok => (u.moves h hP).of_ok hok)
    fun out hout t' ht' => ⟨out.1, out.2, t', hout, ht', rfl⟩

private theorem addvote_saved (u : Upkept P I J J') (h : J s.elections) {voter : Name}
    {votes : Asset} (hP : MovesAlong P s (s.moves (.addvote voter votes)))
    (hs : s.Saves (.addvote voter votes)) :
    Ensures (Amax.addvote env s voter votes) fun out => SavesFrom env I out.1.elections := by
  refine .check fun _ => .check fun _ => .check fun _ => .bind_eq fun staked _ => ?_
  cases hv : s.voters.find? voter with
  | none => exact absurd (by rw [System.voter_of_none hv]; rfl) hs
  | some v =>
    rw [System.moves, System.voter_of_find? hv] at hP
    rw [System.Saves, System.voter_of_find? hv] at hs
    refine .bind (P := fun t' => SavesFrom env I t'.elections) (.ite (fun _ => ?_)
      fun hno => absurd hs hno) fun t' ht' => .bind_eq fun _ _ => .ok ht'
    exact u.moves_saved h (by simpa using hP)

private theorem subvote_saved (u : Upkept P I J J') (h : J s.elections) {voter : Name}
    {votes : Asset} (hP : MovesAlong P s (s.moves (.subvote voter votes))) :
    Ensures (Amax.subvote env s voter votes) fun out => SavesFrom env I out.1.elections := by
  refine .check fun _ => .check fun _ => .check fun _ => .check fun _ => ?_
  cases hv : s.voters.find? voter with
  | none => exact .error _
  | some v =>
    rw [System.moves, System.voter_of_find? hv] at hP
    refine .bind_eq fun _ _ => .check fun _ => .check fun _ => .check fun _ =>
      .bind (u.moves_saved h (by simpa using hP)) fun t' ht' => ?_
    exact .bind_eq fun _ _ => .check fun _ => .ok ht'

private theorem vote_saved (u : Upkept P I J J') (h : J s.elections) {voter : Name}
    {producers : List Name} (hP : MovesAlong P s (s.moves (.vote voter producers)))
    (hs : s.Saves (.vote voter producers)) :
    Ensures (Amax.vote env s voter producers) fun out => SavesFrom env I out.1.elections := by
  refine .check fun _ => .check fun _ => .bind (P := fun list => list.names = producers) ?_
    fun list hlist => ?_
  · unfold sortedNames
    split_ifs
    · exact .ok rfl
    · exact .error _
  · cases hv : s.voters.find? voter with
    | none => exact .error _
    | some v =>
      rw [System.Saves, System.voter_of_find? hv] at hs
      rw [System.moves, System.voter_of_find? hv, if_neg hs] at hP
      refine .check fun _ => .ite (fun heq => absurd (heq ▸ hlist) hs) fun _ => .check fun _ => ?_
      rw [voteDiff_eq]
      refine .bind (u.moves_saved h ?_) fun t' ht' => .ok ht'
      simpa [hlist] using hP

private theorem registerProducer_saved (u : Upkept P I J J') (h : J s.elections) {producer : Name}
    {authority : BlockSigningAuthority} {ratio : Option ℕ}
    (hP : RegistersWith P env s producer authority ratio) :
    Ensures (Amax.registerProducer env s producer authority ratio)
      fun out => SavesFrom env I out.1.elections := by
  have henabled := (u.tracks (u.start h)).enabled
  unfold RegistersWith at hP
  refine .check fun _ => .bind_eq fun _ _ => ?_
  cases hp : s.producers.find? producer with
  | none =>
    rw [hp] at hP
    exact hP.elim
  | some a =>
    rw [hp] at hP
    obtain rfl : a.owner = producer := Table.key_of_find? hp
    refine .ite (fun _ => .bind_eq fun out hout => .bind_eq fun t' ht' => .ok ?_)
      fun hoff => absurd henabled hoff
    exact ⟨{ s with
      producers := s.producers.set (a.reregister env.now authority ratio)
      electGstate := out.1 }, out.2, t', (u.reregisters h hp hP).of_ok hout, ht', rfl⟩

/-- What an action that saves has done before it saves. -/
theorem saved (u : Upkept P I J J') (h : J s.elections) {tx : Transaction} (hP : Rewrites P s tx)
    (hs : s.Saves tx.action) :
    Ensures (Amax.perform tx.env s tx.action) fun out => SavesFrom tx.env I out.1.elections := by
  obtain ⟨env, action⟩ := tx
  cases action with
  | addvote voter votes => exact u.addvote_saved h hP hs
  | subvote voter votes => exact u.subvote_saved h hP
  | vote voter producers => exact u.vote_saved h hP hs
  | regproducer producer key url ratio =>
    exact .check fun _ => .check fun _ => u.registerProducer_saved h hP
  | regproducer2 producer authority url ratio =>
    exact .check fun _ => .check fun _ => .check fun _ => u.registerProducer_saved h hP
  | _ => exact hP.elim

end Upkept

-- ---------------------------------------------------------------------------
-- Resuming
-- ---------------------------------------------------------------------------

/-- From `e` to `e'` the elections resume: a new sequence begins with one record that clears both
sets and adds the first producers of the index. -/
structure Elections.Resumes (now : TimePoint) (e e' : Elections) : Prop where
  interrupted : e'.electGstate.producerChangeInterrupted = false
  electedSequence : e'.electedSequence = nextSequence e.electedSequence
  electedChanges : e'.electedChanges = e.electedChanges.set
    { id := e.electGstate.lastProducerChangeId + 1
      electedSequence := nextSequence e.electedSequence
      changes := e'.electGstate.restartChanges e'.index
      createdAt := TimePoint.toSlot now }

namespace Elections

variable {env : Env} {s s' : System} {changes : ProposedProducerChanges} {e e₀ : Elections}

/-- Once enough producers have votes, the last backup producer has. -/
theorem Held.tail_valid (h : e.Held) (hf : e.electGstate.Fills e.index
      (e.electGstate.maxMainProducerCount + minBackupProducerCount + 1)) :
    e.electGstate.isProdVotesValid e.electGstate.backupElectedQueue.tail.electedVotes = true := by
  rcases h.tail with hv | hcount
  · exact hv
  · obtain ⟨p, hp, -, -, hvotes⟩ := h.tracks.synced.backupTail.row
    have hK : e.electGstate.backupCount = minBackupProducerCount := hcount
    obtain ⟨q, hq, -, hv⟩ := hf _ (show e.electGstate.maxMainProducerCount +
      e.electGstate.backupCount - 1 < _ by omega)
    obtain rfl := Option.some.inj (hp.symm.trans hq)
    rw [hvotes]
    exact hv

theorem Held.restarts (h : s.elections.Held) (hi : s.electGstate.producerChangeInterrupted = true)
    (hf : s.electGstate.Fills (electedProd s.producers)
      (s.electGstate.maxMainProducerCount + minBackupProducerCount + 1)) :
    Ensures (saveProducerChanges env s changes) fun s' => ∃ meq beq,
      s' = s.restart env (s.electGstate.withQueues meq beq)
        (s.electGstate.restartChanges (electedProd s.producers)) := by
  have hinit : s.electGstate.isInit = true := h.tracks.isInit
  have htail := h.tail_valid hf
  have hK : minBackupProducerCount ≤ s.electGstate.backupElectedQueue.lastProducerCount :=
    h.tracks.synced.backup_ge
  unfold saveProducerChanges
  refine .ite (fun hoff => by simp [hinit] at hoff) fun _ => .ite (fun _ => .ite (fun _ => ?_)
    fun hno => absurd ⟨hK, htail⟩ hno) fun hrun => absurd hi hrun
  refine .bind (reinitElectedProducers_restarts h.tracks.ranked hf) fun r hr => ?_
  obtain ⟨meq, beq, rfl⟩ := hr
  exact .ok ⟨meq, beq, rfl⟩

/-- What is saved of an interrupted election, once enough producers have votes, resumes it. -/
theorem Within.resumes (h : e₀.Within s.elections changes)
    (hi : e₀.electGstate.producerChangeInterrupted = true)
    (hok : saveProducerChanges env s changes = .ok s') (hrec : s'.elections.Recoverable) :
    e₀.Resumes env.now s'.elections := by
  have hout := saveProducerChanges_outside hok
  have hproducers : s'.producers = s.producers := by
    have := congrArg (fun r : System => r.producers) hout
    exact this
  have hmax : s'.electGstate.maxMainProducerCount = s.electGstate.maxMainProducerCount := by
    have := congrArg (fun r : System => r.electGstate.maxMainProducerCount) hout
    exact this
  have hmin : s'.electGstate.minProducerVotes = s.electGstate.minProducerVotes := by
    have := congrArg (fun r : System => r.electGstate.minProducerVotes) hout
    exact this
  have hfills : s.electGstate.Fills (electedProd s.producers)
      (s.electGstate.maxMainProducerCount + minBackupProducerCount + 1) := by
    refine fills_of_count h.held.tracks.electable ?_
    simp only [Recoverable, System.elections, hproducers, hmax, ElectGlobalState.isProdVotesValid,
      hmin] at hrec
    simpa only [ElectGlobalState.isProdVotesValid] using hrec
  obtain ⟨meq, beq, rfl⟩ := h.held.restarts (h.since.interrupted.trans hi) hfills s' hok
  have hid : s.electGstate.lastProducerChangeId = _ := h.since.lastId
  have hseq : s.gstate.electedSequence = _ := h.since.electedSequence
  have hlog : s.electedChanges = _ := h.since.electedChanges
  refine ⟨rfl, ?_, ?_⟩
  · show nextSequence s.gstate.electedSequence = _
    rw [hseq]
  · show s.electedChanges.set _ = _
    rw [hlog, ← hid, ← hseq]
    rfl

end Elections

-- ---------------------------------------------------------------------------
-- Runs
-- ---------------------------------------------------------------------------

/-- The action starts a round of elections. -/
def Action.starts : Action → Bool
  | .initbbpelect .. => true
  | _ => false

/-- No producer is created or deactivated, the votes a producer needs stay fixed, the version of
the elections is kept, and the backup queue grows over votes only. -/
def Continues (s : System) (tx : Transaction) : Prop :=
  Rewrites GrowsOverValid s tx ∨ tx.action.steady = true ∨ tx.action.starts = true

instance (s : System) (tx : Transaction) : Decidable (Continues s tx) :=
  inferInstanceAs (Decidable (_ ∨ _ ∨ _))

theorem Elections.Held.perform {s s' : System} {tx : Transaction} {sent : List Inline}
    (h : s.elections.Held) (hP : Continues s tx) (hok : transact tx s = .ok (s', sent)) :
    s'.elections.Held := by
  replace hok := (transact_ok_iff.mp hok).1
  rcases hP with hmove | hsteady | hstarts
  · exact ((upkept_held s.elections).perform ⟨h, rfl⟩ hmove).of_ok hok
  · exact h.steady (perform_steady hsteady _ hok)
  · cases haction : tx.action with
    | initbbpelect count =>
      rw [haction] at hok
      exact h.initbbpelect count _ hok
    | _ => simp [haction, Action.starts] at hstarts

/-- In every run after the elections start in which the backup queue grows over votes only, an
interrupted election resumes with the first action that moves votes or registers a producer
again, and after which enough producers have votes. -/
theorem interrupted_resumes {env : Env} {s s₁ : System} {count : ℕ} {sent : List Inline}
    (hs : Unstarted s) (hinit : transact ⟨env, .initbbpelect count⟩ s = .ok (s₁, sent))
    {txs : List Transaction} {tx : Transaction}
    (hP : Run.Along transact Continues s₁ (txs ++ [tx])) {s' : System} {sent' : List Inline}
    (hok : transact tx (s₁.final txs) = .ok (s', sent'))
    (hi : (s₁.final txs).electGstate.producerChangeInterrupted = true)
    (hsaves : (s₁.final txs).Saves tx.action) (hrec : s'.elections.Recoverable) :
    (s₁.final txs).elections.Resumes tx.env.now s'.elections := by
  obtain ⟨hcount, -⟩ := initbbpelect_ok (transact_ok_iff.mp hinit).1
  obtain ⟨changes, hstart, -⟩ := hs.start (transact_ok_iff.mp hinit).1
  obtain ⟨hrun, hlast, -⟩ := Run.along_append.mp hP
  have hheld : (s₁.final txs).elections.Held :=
    Run.invariant (I := fun s => s.elections.Held) (fun _ _ _ _ h hc hok => h.perform hc hok)
      (Elections.StartsElection.held hstart hs.electable hs.two_le hcount) hrun
  have hmove : Rewrites GrowsOverValid (s₁.final txs) tx := by
    rcases hlast with hmove | hsteady | hstarts
    · exact hmove
    · cases haction : tx.action <;> simp_all [Action.steady, System.Saves]
    · cases haction : tx.action <;> simp_all [Action.starts, System.Saves]
  obtain ⟨t, changes', t', hwithin, hsave, helections⟩ :=
    (Elections.upkept_held _).saved ⟨hheld, rfl⟩ hmove hsaves _ (transact_ok_iff.mp hok).1
  simp only at helections
  rw [helections] at hrec ⊢
  exact hwithin.resumes hi hsave hrec

/-- 25 producers have enough votes, and two voters have votes for no producer yet. -/
private def recovering : System := electionChain 27 [
  supporter 101 (firstProducers 20) 200000000,
  supporter 102 (.single 21) 100000000, supporter 103 (.single 22) 50000000,
  supporter 104 (.single 23) 40000000, supporter 105 (.single 24) 30000000,
  supporter 106 (.single 25) 20000000, supporter 107 .nil 150000000,
  supporter 108 .nil 160000000]

private def onElectionDay (a : Action) : Transaction := ⟨electionDay, a⟩

/-- Elections start, and two producers lose their votes: the changes are interrupted. -/
private def interruption : List Transaction :=
  [onElectionDay (.subvote 106 ⟨20000000, voteSymbol⟩),
    onElectionDay (.subvote 105 ⟨30000000, voteSymbol⟩)]

theorem interrupted_resumes_votes :
    let s₁ := recovering.final [onElectionDay (.initbbpelect 10000)]
    let s := s₁.final (interruption ++ [onElectionDay (.vote 107 [24]),
      onElectionDay (.onblock { timestamp := 1000000000, producer := 1 })])
    s.elections.Resumes electionDay.now (s.final [onElectionDay (.vote 108 [25])]).elections := by
  intro s₁ s
  obtain ⟨sent, hinit⟩ : ∃ sent, transact (onElectionDay (.initbbpelect 10000)) recovering =
      .ok (s₁, sent) := System.final_single (by decide +kernel)
  obtain ⟨sent', hok⟩ : ∃ sent', transact (onElectionDay (.vote 108 [25])) s =
      .ok (s.final [onElectionDay (.vote 108 [25])], sent') := System.final_single (by decide +kernel)
  exact interrupted_resumes ⟨by decide +kernel, by decide +kernel, by decide +kernel⟩ hinit
    (by decide +kernel) hok (by decide +kernel) (by decide +kernel) (by decide +kernel)

/-- Two candidates become main producers while the changes are interrupted, and the backup queue
grows twice over a tail without votes: with 25 producers that have votes the election stays
interrupted. -/
theorem interrupted_stays_growth :
    let s₁ := recovering.final [onElectionDay (.initbbpelect 10000)]
    let s := s₁.final (interruption ++ [onElectionDay (.vote 107 [26])])
    let s' := s.final [onElectionDay (.vote 108 [27])]
    Run.Along transact (fun s tx => abortOf (transact tx s) = none) recovering
        ([onElectionDay (.initbbpelect 10000)] ++ interruption ++
          [onElectionDay (.vote 107 [26]), onElectionDay (.vote 108 [27])]) ∧
      s.electGstate.isBbpEnabled = true ∧ s.electGstate.producerChangeInterrupted = true ∧
      s.Saves (.vote 108 [27]) ∧ s'.elections.Recoverable ∧
      s'.electGstate.producerChangeInterrupted = true ∧
      s'.gstate.electedSequence = s.gstate.electedSequence ∧
      s'.electedChanges.rows.map (·.id) = s.electedChanges.rows.map (·.id) := by
  decide +kernel

end Amax
