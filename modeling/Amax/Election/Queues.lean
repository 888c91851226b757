-- SUMMARY: While every producer is active the cached queues describe the election index in every state, and no assertion of theirs fails.
import Amax.Election.Blocks
import Amax.Election.Setup

/-! # The queues describe the ranking

The records of an inactive producer do not say that it is inactive. While every
row is of an active producer all records compare as their rows stand, and the
queues follow every action of the elections. -/

namespace Amax

/-- Every producer is active and in the index. -/
def AllActive (producers : Table ProducerInfo.owner) : Prop :=
  ∀ p ∈ producers.rows, p.isActive = true ∧ p.indexed = true

instance (producers : Table ProducerInfo.owner) : Decidable (AllActive producers) :=
  inferInstanceAs (Decidable (∀ _ ∈ _, _))

theorem AllActive.set {producers : Table ProducerInfo.owner} (h : AllActive producers)
    {r : ProducerInfo} (ha : r.isActive = true) (hi : r.indexed = true) :
    AllActive (producers.set r) := by
  intro q hq
  rcases Table.mem_set.mp hq with rfl | ⟨hq, -⟩
  · exact ⟨ha, hi⟩
  · exact h q hq

theorem SameRows.allActive {t t' : Table ProducerInfo.owner} (h : SameRows t t')
    (ht : AllActive t) : AllActive t' := by
  intro p' hp'
  obtain ⟨p, hp, heq⟩ := h.mem hp'
  obtain ⟨-, ha, -, -, hi⟩ := ProducerInfo.eq_of_unpaid heq
  exact ⟨ha.trans (ht p hp).1, hi.trans (ht p hp).2⟩

-- ---------------------------------------------------------------------------
-- One action
-- ---------------------------------------------------------------------------

namespace Elections

/-- The queues describe the index of active producers. -/
structure Live (e : Elections) : Prop where
  tracks : e.Tracks
  active : AllActive e.producers

variable {e e' : Elections} {a r : ProducerInfo}

/-- The records of active producers compare as their rows stand. -/
theorem Live.tame (h : e.Live) (hr : Replaced e.producers a r) (hc : RowChange a r) : Tame e a r := by
  have ha := (h.active a (Table.mem_of_find? hr.found)).1
  refine ⟨.inl ha, fun _ _ p hp => ?_⟩
  have hset := h.active.set (hc.active ha) hr.row.indexed
  exact (hset p (mem_electedProd.mp (List.mem_of_getElem? hp)).1).1

theorem Live.row (h : e.Live) (hr : Replaced e.producers a r) (hc : RowChange a r)
    {changes : ProposedProducerChanges} {n : Native} (hn : changes.Leads n e.sets) :
    Yields (processElectedProducer e.electGstate (electedProd (e.producers.set r)) a.getElectedInfo
      r.getElectedInfo changes) fun out =>
        (e.write r out.1).Live ∧ ∃ n, out.2.Leads n (e.write r out.1).sets := by
  have ha := (h.active a (Table.mem_of_find? hr.found)).1
  refine (h.tracks.follow hr hc (h.tame hr hc) hn).mono fun out hout => ?_
  obtain ⟨-, htracks, hleads⟩ := hout
  exact ⟨⟨htracks, h.active.set (hc.active ha) hr.row.indexed⟩, n, hleads⟩

theorem Live.rests (h : e.Live) (hr : e.Rests e') : e'.Live :=
  ⟨h.tracks.rests hr, hr.rows.allActive h.active⟩

end Elections

section Saved

variable {env : Env} {s s' : System} {changes : ProposedProducerChanges}

theorem Saved.producers (h : Saved env s changes s') : s'.producers = s.producers := by
  cases h <;> rfl

theorem Saved.live (hs : Saved env s changes s') (h : s.elections.Live) : s'.elections.Live := by
  refine ⟨hs.tracks h.tracks, ?_⟩
  rw [System.elections, hs.producers]
  exact h.active

end Saved

open Elections in
theorem upkept_live : Upkept (fun _ _ _ => True)
    (fun e changes => e.Live ∧ ∃ n, changes.Leads n e.sets) Live Live where
  start h := ⟨h, _, ProposedProducerChanges.leads_empty _⟩
  seat {e a} h hf := by
    rw [show e.seat a = e from by simp [seat, (h.active a (Table.mem_of_find? hf)).2]]
    exact ⟨h, _, ProposedProducerChanges.leads_empty _⟩
  tracks h := h.1.tracks
  setTotal total h := ⟨⟨h.1.tracks.setTotal total, h.1.active⟩, h.2⟩
  row h hr hc _ := by
    obtain ⟨hlive, n, hn⟩ := h
    exact .of_yields (hlive.row hr hc hn)
  save env _ changes h := .of_yields ((h.1.tracks.save env changes).mono fun _ hs => hs.live h.1)
  idle h := h

-- ---------------------------------------------------------------------------
-- The other actions
-- ---------------------------------------------------------------------------

/-- The actions of the elections that create no producer and deactivate none. -/
def Reranks (s : System) (tx : Transaction) : Prop :=
  match tx.action with
  | .addvote .. | .subvote .. | .vote .. | .setmprodvote .. | .initbbpelect .. | .onblock .. => True
  | .regproducer producer .. | .regproducer2 producer .. => (s.producers.find? producer).isSome
  | _ => False

instance (s : System) (tx : Transaction) : Decidable (Reranks s tx) :=
  decidable_of_bool (match tx.action with
    | .addvote .. | .subvote .. | .vote .. | .setmprodvote .. | .initbbpelect .. | .onblock .. => true
    | .regproducer producer .. | .regproducer2 producer .. => (s.producers.find? producer).isSome
    | _ => false) (by obtain ⟨env, action⟩ := tx; cases action <;> simp [Reranks])

section Actions

variable {env : Env} {s : System}

private theorem movesAlong_true (s : System) (moves : List (Name × Asset)) :
    MovesAlong (fun _ _ _ => True) s moves :=
  Fold.along_of_invariant (I := fun _ => True) (fun _ _ _ _ _ => trivial) (fun _ _ _ _ _ => trivial)
    trivial moves

private theorem registersWith_true (env : Env) {producer : Name}
    (h : (s.producers.find? producer).isSome) (authority : BlockSigningAuthority) (ratio : Option ℕ) :
    RegistersWith (fun _ _ _ => True) env s producer authority ratio := by
  unfold RegistersWith
  obtain ⟨a, ha⟩ := Option.isSome_iff_exists.mp h
  rw [ha]
  trivial

theorem Elections.Live.setmprodvote (h : s.elections.Live) (votes : Asset) :
    Safe (setmprodvote env s votes) fun out => out.1.elections.Live := by
  unfold Amax.setmprodvote requireAdmin
  refine .check (by decide) fun _ => .check (by decide) fun _ => .check (by decide) fun _ =>
    .check (by decide) fun _ => .ok ⟨⟨h.tracks.enabled, h.tracks.electable, ?_⟩, h.active⟩
  exact h.tracks.synced.congr rfl rfl rfl le_rfl

private theorem initbbpelect_safe (h : s.elections.Live) (count : ℕ) :
    Safe (initbbpelect env s count) fun _ => True := by
  unfold Amax.initbbpelect requireAdmin
  refine .check (by decide) fun _ => .check (by decide) fun hcount => .bind (P := fun _ => True)
    (.ite (fun _ => ?_) fun _ => .ok trivial) fun s' _ => .ite (fun _ => .ok trivial) fun _ =>
    .ok trivial
  have hreinit := reinitElectedProducers_synced (g := s.electGstate.enable count) h.tracks.ranked
    h.tracks.synced.two_le hcount
  refine .bind (.of_yields hreinit) fun out _ => ?_
  cases out with
  | none => exact .error nofun nofun
  | some out => exact .check (by decide) fun _ => .ok trivial

theorem Elections.Live.initbbpelect (h : s.elections.Live) (count : ℕ) :
    Safe (initbbpelect env s count) fun out => out.1.elections.Live := by
  refine (initbbpelect_safe h count).mono fun out hok _ => ?_
  obtain ⟨hcount, ⟨-, hle, hsame⟩ | ⟨-, changes, hstart⟩⟩ := initbbpelect_ok hok
  · rw [hsame]
    exact ⟨⟨by rfl, h.tracks.electable, h.tracks.synced.congr rfl rfl rfl hle⟩, h.active⟩
  · refine ⟨(hstart.tracks h.tracks.electable h.tracks.synced.two_le hcount).1, ?_⟩
    rw [hstart.producers]
    exact h.active

private theorem incProducerRewards_avoids (producers : Table ProducerInfo.owner)
    (info : ProducerRewardInfo) (producer : Name) :
    Avoids .queue (incProducerRewards producers info producer) := by
  unfold incProducerRewards
  refine .ite (.ok _) ?_
  cases producers.find? producer with
  | none => exact .ok _
  | some prod =>
    exact .bind (Asset.add_avoids (by decide) _ _) fun _ _ =>
      .bind (Asset.lt_avoids (by decide) _ _) fun _ _ => .ite (.ok _)
        (.bind (Asset.add_avoids (by decide) _ _) fun _ _ => .ok _)

private theorem calcHalvingRewardsPerBlock_avoids (info : ProducerRewardInfo) :
    Avoids .queue (calcHalvingRewardsPerBlock info) := by
  unfold calcHalvingRewardsPerBlock Asset.le Asset.make
  exact .bind (.check_bind (by decide) fun _ => .ok _) fun _ _ => .check_bind (by decide) fun _ =>
    .check_bind (by decide) fun _ => .check_bind (by decide) fun _ => .ok _

private theorem halve_avoids : Avoids .queue (halve env s) := by
  unfold halve
  refine .ite (.check_bind (by decide) fun _ => .ite (.bind (calcHalvingRewardsPerBlock_avoids _)
    fun _ _ => .bind ?_ fun _ _ => .ok _) (.ok _)) (.ok _)
  exact .ite (calcHalvingRewardsPerBlock_avoids _) (.ok _)

private theorem produceRewards_avoids (bh : BlockHeader) : Avoids .queue (produceRewards env s bh) := by
  unfold produceRewards
  refine .ite (.bind halve_avoids fun g _ => .bind (incProducerRewards_avoids _ _ _) fun paid _ =>
    .ite ?_ (.ok _)) (.ok _)
  dsimp only
  split
  · exact .ite (.bind (incProducerRewards_avoids _ _ _) fun _ _ => .ok _) (.ok _)
  · exact .ok _

private theorem merge_avoids (src dest : ProducerChangeMap) : Avoids .queue (src.merge dest) := by
  unfold ProducerChangeMap.merge
  refine .ite (.ok _) (.bind ?_ fun _ _ => .ok _)
  generalize dest.changes = d
  induction src.changes.rows generalizing d with
  | nil => exact .ok _
  | cons c cs ih => exact .bind (edit_avoids (by decide) _ _ _) fun d' _ => ih d'

private theorem flushRows_avoids (electedSequence : ℕ) (l : List ElectedChange) (rows : ℕ)
    (changes : ProposedProducerChanges) :
    Avoids .queue (flushRows electedSequence l rows changes) := by
  induction l generalizing rows changes with
  | nil => exact .ok _
  | cons itr rest ih =>
    unfold flushRows ProposedProducerChanges.merge
    refine .bind (.ite (.bind (merge_avoids _ _) fun _ _ => .bind (merge_avoids _ _) fun _ _ =>
      .ok _) (.ok _)) fun changes _ => .ite (.ok _) (ih _ _)

/-- No assertion of the queues is reached from `onblock`. -/
theorem onblock_avoids (bh : BlockHeader) : Avoids .queue (onblock env s bh) := by
  unfold onblock requireAuth updateSchedule updateElectedProducerChanges
  refine .check_bind (by decide) fun _ => .ite (.ok _) (.bind (produceRewards_avoids bh) fun s₁ _ =>
    .bind (.ite (.bind (.ite ?_ (.ok _)) fun _ _ => .ok _) (.ok _)) fun _ _ => .ok _)
  exact .ite (.ok _) (.bind (flushRows_avoids _ _ _ _) fun _ _ => .ite (.ite (.ite (.ok _) (.ok _))
    (.ite (.ok _) (.ok _))) (.ok _))

variable {tx : Transaction}

/-- Producers move, or one of the other actions of the elections is performed. -/
theorem Reranks.cases (hP : Reranks s tx) : Rewrites (fun _ _ _ => True) s tx ∨
    (∃ votes, tx.action = .setmprodvote votes) ∨ (∃ count, tx.action = .initbbpelect count) ∨
      ∃ bh, tx.action = .onblock bh := by
  obtain ⟨env, action⟩ := tx
  cases action with
  | addvote _ _ => exact .inl (movesAlong_true s _)
  | subvote _ _ => exact .inl (movesAlong_true s _)
  | vote _ _ => exact .inl (movesAlong_true s _)
  | regproducer _ key _ ratio => exact .inl (registersWith_true env hP ⟨1, [⟨key, 1⟩]⟩ ratio)
  | regproducer2 _ authority _ ratio => exact .inl (registersWith_true env hP authority ratio)
  | setmprodvote votes => exact .inr (.inl ⟨votes, rfl⟩)
  | initbbpelect count => exact .inr (.inr (.inl ⟨count, rfl⟩))
  | onblock bh => exact .inr (.inr (.inr ⟨bh, rfl⟩))
  | _ => exact hP.elim

/-- An action of the elections keeps the queues on active producers. -/
theorem Elections.Live.perform (h : s.elections.Live) (hP : Reranks s tx) :
    Ensures (perform tx.env s tx.action) fun out => out.1.elections.Live := by
  intro out hok
  rcases hP.cases with hmove | ⟨votes, hact⟩ | ⟨count, hact⟩ | ⟨bh, hact⟩
  · exact (upkept_live.perform h hmove).of_ok hok
  · rw [hact] at hok
    exact (h.setmprodvote votes).of_ok hok
  · rw [hact] at hok
    exact (h.initbbpelect count).of_ok hok
  · rw [hact] at hok
    exact h.rests (onblock_rests out hok)

/-- No action of the elections is stopped by an assertion of the queues. -/
theorem Elections.Live.perform_avoids (h : s.elections.Live) (hP : Reranks s tx) :
    Avoids .queue (Amax.perform tx.env s tx.action) ∧
      ((∀ bh, tx.action ≠ .onblock bh) → Avoids .change (Amax.perform tx.env s tx.action)) := by
  rcases hP.cases with hmove | ⟨votes, hact⟩ | ⟨count, hact⟩ | ⟨bh, hact⟩
  · obtain ⟨hq, hc⟩ := (upkept_live.perform h hmove).avoids
    exact ⟨hq, fun _ => hc⟩
  · rw [hact]
    obtain ⟨hq, hc⟩ := (h.setmprodvote votes).avoids
    exact ⟨hq, fun _ => hc⟩
  · rw [hact]
    obtain ⟨hq, hc⟩ := (h.initbbpelect count).avoids
    exact ⟨hq, fun _ => hc⟩
  · rw [hact]
    exact ⟨onblock_avoids bh, fun hno => absurd rfl (hno bh)⟩

end Actions

-- ---------------------------------------------------------------------------
-- Runs
-- ---------------------------------------------------------------------------

/-- `c` has the name and the votes of the producer at position `k`. -/
def Describes (idx : List ProducerInfo) (c : ProducerElectedInfo) (k : ℕ) : Prop :=
  ∃ p, idx[k]? = some p ∧ c.name = p.owner ∧ c.electedVotes = p.getElectedVotes

theorem Stands.describes {idx : List ProducerInfo} {c : ProducerElectedInfo} {k : ℕ}
    (h : Stands idx c k) : Describes idx c k := by
  obtain ⟨p, hp, -, hn, hv⟩ := h.row
  exact ⟨p, hp, hn, hv⟩

/-- The index ranks all producers, and the cached queues describe its first ones. -/
structure Elections.Ranking (e : Elections) : Prop where
  enabled : e.electGstate.isBbpEnabled = true
  mem : ∀ p, p ∈ e.index ↔ p ∈ e.producers.rows
  ranked : e.index.Pairwise fun p q => q.getElectedVotes < p.getElectedVotes ∨
    p.getElectedVotes = q.getElectedVotes ∧ p.owner < q.owner
  mainCount : e.electGstate.mainElectedQueue.lastProducerCount = e.electGstate.maxMainProducerCount
  backup_ge : minBackupProducerCount ≤ e.electGstate.backupCount
  backup_le : e.electGstate.backupCount ≤ e.electGstate.maxBackupProducerCount
  mainTailPrev : Describes e.index e.electGstate.mainElectedQueue.tailPrev
    (e.electGstate.maxMainProducerCount - 2)
  mainTail : Describes e.index e.electGstate.mainElectedQueue.tail
    (e.electGstate.maxMainProducerCount - 1)
  mainTailNext : Describes e.index e.electGstate.mainElectedQueue.tailNext
    e.electGstate.maxMainProducerCount
  backupTailPrev : Describes e.index e.electGstate.backupElectedQueue.tailPrev
    (e.electGstate.maxMainProducerCount + e.electGstate.backupCount - 2)
  backupTail : Describes e.index e.electGstate.backupElectedQueue.tail
    (e.electGstate.maxMainProducerCount + e.electGstate.backupCount - 1)
  backupTailNext : Describes e.index e.electGstate.backupElectedQueue.tailNext
    (e.electGstate.maxMainProducerCount + e.electGstate.backupCount)

theorem Elections.Live.ranking {e : Elections} (h : e.Live) : e.Ranking := by
  have hs := h.tracks.synced
  have hr := h.tracks.ranked
  have hactive : ∀ p ∈ e.index, p.isActive = true := fun p hp =>
    (h.active p (mem_electedProd.mp hp).1).1
  refine ⟨h.tracks.enabled, fun p => ?_, ?_, hs.mainCount, hs.backup_ge, hs.backup_le,
    hs.mainTailPrev.describes, hs.mainTail.describes, hs.mainTailNext.describes,
    hs.backupTailPrev.describes, hs.backupTail.describes, hs.backupTailNext.describes⟩
  · rw [index, mem_electedProd, and_iff_left_iff_imp]
    exact fun hp => (h.active p hp).2
  · refine hr.sorted.imp_of_mem fun {p q} hp hq hlt => ?_
    rw [← ProducerInfo.key_getElectedInfo (hactive p hp),
      ← ProducerInfo.key_getElectedInfo (hactive q hq),
      ProducerElectedInfo.key_lt_iff (hr.electable p hp).regular (hr.electable q hq).regular] at hlt
    exact hlt

/-- In every run after the elections start that creates no producer and
deactivates none, the cached queues describe the ranking, and no assertion of
theirs stops an action. -/
theorem queues_describe_ranking {env : Env} {s s₁ : System} {count : ℕ} {sent : List Inline}
    (hs : Unstarted s) (hactive : AllActive s.producers)
    (hinit : transact ⟨env, .initbbpelect count⟩ s = .ok (s₁, sent)) {txs : List Transaction}
    (hP : Run.Along transact Reranks s₁ txs) :
    (s₁.final txs).elections.Ranking ∧ ∀ tx, Reranks (s₁.final txs) tx →
      Avoids .queue (transact tx (s₁.final txs)) ∧
        ((∀ bh, tx.action ≠ .onblock bh) → Avoids .change (transact tx (s₁.final txs))) := by
  have hstart : s₁.elections.Live := by
    obtain ⟨changes, hstart, htracks⟩ := hs.start (transact_ok_iff.mp hinit).1
    refine ⟨htracks, ?_⟩
    rw [hstart.producers]
    exact hactive
  have hlive : (s₁.final txs).elections.Live :=
    Run.invariant (I := fun s => s.elections.Live)
      (fun _ _ _ _ hlive hp hok => hlive.perform hp _ (transact_ok_iff.mp hok).1) hstart hP
  refine ⟨hlive.ranking, fun tx htx => ?_⟩
  obtain ⟨hq, hc⟩ := hlive.perform_avoids htx
  have hsent : ∀ {site : Site} (out : System × List Inline), Site.sent ≠ site →
      Avoids site (do
        check .sent (∀ i ∈ out.2, tx.env.inlineOk i) "a sent action failed"
        return out) := fun out hsite => .check_bind hsite fun _ => .ok _
  exact ⟨.bind hq fun out _ => hsent out (by decide), fun hno => .bind (hc hno) fun out _ =>
    hsent out (by decide)⟩

/-- Votes move, limits change, and a producer gets a new key. -/
theorem queues_describe_ranking_reordered :
    let s := electionChain 26 [
      supporter 101 (firstProducers 20) 200000000,
      supporter 102 (.single 21) 100000000, supporter 103 (.single 22) 50000000,
      supporter 104 ⟨[23, 24], by decide⟩ 40000000, supporter 105 (.single 25) 30000000]
    let s₁ := s.final [⟨electionDay, .initbbpelect 4⟩]
    let s₂ := s₁.final [⟨electionDay, .addvote 105 ⟨90000000, voteSymbol⟩⟩,
      ⟨electionDay, .vote 104 [23, 26]⟩, ⟨electionDay, .setmprodvote ⟨20000000, voteSymbol⟩⟩,
      ⟨electionDay, .onblock { timestamp := 1000000000, producer := 1 }⟩,
      ⟨electionDay, .initbbpelect 3⟩,
      ⟨electionDay, .regproducer2 23 ⟨1, [⟨900, 1⟩]⟩ "" none⟩,
      ⟨electionDay, .subvote 105 ⟨110000000, voteSymbol⟩⟩]
    s₂.elections.Ranking ∧ Avoids .queue (transact ⟨electionDay, .vote 102 [22, 25]⟩ s₂) := by
  intro s s₁ s₂
  obtain ⟨sent, hinit⟩ : ∃ sent, transact ⟨electionDay, .initbbpelect 4⟩ s = .ok (s₁, sent) :=
    System.final_single (by decide +kernel)
  have hrun : s₂.elections.Ranking ∧ ∀ tx, Reranks s₂ tx → Avoids .queue (transact tx s₂) ∧
      ((∀ bh, tx.action ≠ .onblock bh) → Avoids .change (transact tx s₂)) :=
    queues_describe_ranking ⟨by decide +kernel, by decide +kernel, by decide +kernel⟩
      (by decide +kernel) hinit (by decide +kernel)
  exact ⟨hrun.1, (hrun.2 _ (by decide +kernel)).1⟩

end Amax
