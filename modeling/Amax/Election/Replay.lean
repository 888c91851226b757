-- SUMMARY: Replaying the pending changes on the producers the chain has gives the elected sets, in every run that reuses no number of a pending row.
import Amax.Election.Log
import Amax.Election.Queues
import Amax.Election.Recovery

/-! # Replaying the log

The changes of an action are the difference between the elected sets before and
after it. A row of the log counts as pending by its sequence number alone, so the
log leads to the elected sets as long as no sequence begins with a number that
a row of an older one still carries. -/

namespace Amax

-- ---------------------------------------------------------------------------
-- The producers of the chain
-- ---------------------------------------------------------------------------

private theorem ProducerChangeMap.leads_idle {c : ProducerChangeMap} {S S' : Finset Name}
    (hrows : c.changes.rows = []) (h : c.Leads S S') (hne : S'.Nonempty) : S' = S := by
  have hempty : c.changes = .empty := by
    cases hc : c.changes
    simp_all [Table.empty]
  have heq : S' = c.base S := by
    rw [Leads, hempty] at h
    exact Patch.Turns.unique h (Patch.turns_empty _)
  rw [base] at heq
  split_ifs at heq with hclear
  · rw [heq] at hne
    exact absurd hne Finset.not_nonempty_empty
  · exact heq

/-- The layer that keeps the names of the producers. -/
def nativeLayer : Layer Native where
  apply := ProposedProducerChanges.apply
  Filled n := n.main.Nonempty ∧ n.backup.Nonempty
  apply_empty n := ProposedProducerChanges.apply_eq_some_iff.mpr (ProposedProducerChanges.leads_empty n)
  apply_merge hd hs := by
    simp only [ProposedProducerChanges.apply_eq_some_iff] at hd hs ⊢
    exact ProposedProducerChanges.merge_leads hd hs
  apply_idle {c n n'} hsize h hne := by
    rw [ProposedProducerChanges.apply_eq_some_iff] at h
    obtain ⟨hmain, hbackup⟩ := Nat.add_eq_zero_iff.mp hsize
    have hm := ProducerChangeMap.leads_idle (List.length_eq_zero_iff.mp hmain) h.1 hne.1
    have hb := ProducerChangeMap.leads_idle (List.length_eq_zero_iff.mp hbackup) h.2 hne.2
    obtain ⟨main, backup⟩ := n
    obtain ⟨main', backup'⟩ := n'
    obtain rfl : main' = main := hm
    obtain rfl : backup' = backup := hb
    rfl

namespace Elections

/-- The sets that the pending changes lead to, one row after the other. -/
def replay (e : Elections) : Option Native :=
  e.pending.foldlM (fun n row => row.changes.apply n) e.native

variable {e e' : Elections} {a : ProducerInfo}

/-- Both elected sets have producers. -/
theorem Tracks.filled (h : e.Tracks) : nativeLayer.Filled e.sets := by
  have hlen := h.synced.backupTailNext.lt_length
  have h2 := h.synced.two_le
  have h3 := h.synced.backup_ge
  simp only [minBackupProducerCount] at h3
  refine ⟨Finset.card_pos.mp ?_, Finset.card_pos.mp ?_⟩
  · rw [sets, ElectGlobalState.sets, electedSets_main_card h.ranked (by omega)]
    omega
  · rw [sets, ElectGlobalState.sets, electedSets_backup_card h.ranked (by omega)]
    omega

end Elections

/-- The elected sets are those of the first rows of the index. -/
theorem electedSets_congr {idx idx' : List ProducerInfo} {N K : ℕ}
    (h : ∀ k < N + K, idx'[k]?.map (·.owner) = idx[k]?.map (·.owner)) :
    electedSets idx' N K = electedSets idx N K := by
  have hnames : (idx'.map (·.owner)).take (N + K) = (idx.map (·.owner)).take (N + K) := by
    refine List.ext_getElem? fun k => ?_
    rw [List.getElem?_take, List.getElem?_take]
    split_ifs with hk
    · rw [List.getElem?_map, List.getElem?_map, h k hk]
    · rfl
  have hmain := congrArg (List.take N) hnames
  have hbackup := congrArg (List.drop N) hnames
  simp only [List.take_take, Nat.min_eq_left (Nat.le_add_right N K)] at hmain
  simp only [List.drop_take, Nat.add_sub_cancel_left] at hbackup
  simp only [electedSets, List.map_take, List.map_drop, hmain, hbackup]

namespace Elections

variable {e e' : Elections} {a : ProducerInfo}

/-- The elected sets stay when every record of the first rows stays where it stands. -/
theorem Tracks.sets_congr (h : e.Tracks) (hg : e'.electGstate = e.electGstate)
    (hstands : ∀ {c k}, Stands e.index c k → k <
      e.electGstate.maxMainProducerCount + e.electGstate.backupCount → Stands e'.index c k) :
    e'.sets = e.sets := by
  rw [sets, sets, ElectGlobalState.sets, ElectGlobalState.sets, hg]
  refine electedSets_congr fun k hk => ?_
  obtain ⟨q, hq, hqa, -⟩ := h.synced.backupTailNext.row
  have hlen := h.synced.backupTailNext.lt_length
  have hp := List.getElem?_eq_getElem (l := e.index) (i := k) (by omega)
  have hrow := Stands.of_row hp (h.ranked.active_of_lt hp hq hk.le hqa)
  obtain ⟨p', hp', -, hname, -⟩ := (hstands hrow hk).row
  rw [hp, hp']
  exact congrArg some hname.symm

/-- A producer that takes its place behind the others is not elected by it. -/
theorem Tracks.sets_seat (h : e.Tracks) (hf : e.producers.find? a.owner = some a) :
    (e.seat a).sets = e.sets := by
  cases hi : a.indexed with
  | true => rw [show e.seat a = e from by simp [Elections.seat, hi]]
  | false =>
    have hrow := (h.electable a (Table.mem_of_find? hf)).seat
    have hinactive : a.seat.isActive = false := by rw [ProducerInfo.seat, if_neg (by simp [hi])]
    refine h.sets_congr rfl fun {c k} hc _ => ?_
    rw [index, show (e.seat a).producers = e.producers.set a.seat from by simp [Elections.seat, hi]]
    exact .entry h.electable (a.seat_owner.symm ▸ hf) hi hrow hinactive hc

-- ---------------------------------------------------------------------------
-- One action
-- ---------------------------------------------------------------------------

/-- The queues describe the index, and the pending changes turn the producers of the chain into
the elected sets. -/
structure Replayed (e : Elections) : Prop where
  tracks : e.Tracks
  logged : Logged nativeLayer e.native e.sets e

/-- Inside of an action that began in `e₀`, whose changes are the difference of the sets. -/
structure Turning (e₀ e : Elections) (changes : ProposedProducerChanges) : Prop where
  tracks : e.Tracks
  leads : changes.Leads e₀.sets e.sets
  since : e₀.Since e
  native : e.native = e₀.native

variable {e₀ : Elections} {r : ProducerInfo} {changes : ProposedProducerChanges} {env : Env}
  {s s' : System}

theorem Turning.row (h : e₀.Turning e changes) (hr : Replaced e.producers a r) (hc : RowChange a r)
    (hP : Tame e a r) :
    Yields (processElectedProducer e.electGstate (electedProd (e.producers.set r)) a.getElectedInfo
      r.getElectedInfo changes) fun out => e₀.Turning (e.write r out.1) out.2 := by
  refine (h.tracks.follow hr hc hP h.leads).mono fun out hout => ?_
  obtain ⟨⟨meq, beq, hg⟩, htracks, hleads⟩ := hout
  refine ⟨htracks, hleads, ?_, h.native⟩
  rw [write, hg]
  exact ⟨h.since.interrupted, h.since.lastId, h.since.electedChanges, h.since.electedSequence⟩

theorem Turning.save (h : e₀.Turning s.elections changes) (h₀ : e₀.Replayed)
    (hfresh : e₀.electGstate.producerChangeInterrupted = true → e₀.FreshNext)
    (hs : Saved env s changes s') : s'.elections.Replayed := by
  have htracks := hs.tracks h.tracks
  refine ⟨htracks, ?_⟩
  have hlog : Logged nativeLayer s.native e₀.sets s.elections := by
    have := h₀.logged.congr h.since.electedChanges h.since.lastId h.since.electedSequence
      h.since.interrupted
    rwa [← h.native] at this
  have happly : nativeLayer.apply changes e₀.sets = some s.elections.sets :=
    ProposedProducerChanges.apply_eq_some_iff.mpr h.leads
  have hM := h.tracks.synced.backup_ge.trans h.tracks.synced.backup_le
  cases hs with
  | waiting hi => exact (hlog.idle hi).2
  | restarted hi hreinit =>
    have hnext : s.elections.FreshNext := by
      have := hfresh (h.since.interrupted.symm.trans hi)
      rwa [FreshNext, ← h.since.electedChanges, ← h.since.electedSequence] at this
    obtain ⟨⟨meq, beq, rfl⟩, -, hleads⟩ :=
      reinitElectedProducers_ok h.tracks.ranked h.tracks.synced.two_le hM hreinit
    exact hlog.restarted hnext (ProposedProducerChanges.apply_eq_some_iff.mpr (hleads s.native))
      htracks.filled
  | failed _ _ => exact ⟨hlog.ids, fun hrun => by cases hrun⟩
  | recorded _ _ => exact hlog.recorded happly h.tracks.filled
  | unchanged _ _ hmain hbackup => exact hlog.unchanged happly h.tracks.filled hmain hbackup

theorem upkept_replayed (h₀ : e₀.Replayed)
    (hfresh : e₀.electGstate.producerChangeInterrupted = true → e₀.FreshNext) :
    Upkept Tame e₀.Turning (· = e₀) Replayed where
  start h := by
    rw [h]
    exact ⟨h₀.tracks, ProposedProducerChanges.leads_empty _, ⟨rfl, rfl, rfl, rfl⟩, rfl⟩
  seat {e a} h hf := by
    subst h
    refine ⟨h₀.tracks.seat hf, ?_, ⟨rfl, rfl, rfl, rfl⟩, rfl⟩
    rw [h₀.tracks.sets_seat hf]
    exact ProposedProducerChanges.leads_empty _
  tracks h := h.tracks
  setTotal total h := ⟨h.tracks.setTotal total, h.leads, ⟨h.since.interrupted, h.since.lastId,
    h.since.electedChanges, h.since.electedSequence⟩, h.native⟩
  row h hr hc hP := .of_yields (h.row hr hc hP)
  save env _ changes h := .of_yields ((h.tracks.save env changes).mono fun _ hs => h.save h₀ hfresh hs)
  idle h := h ▸ h₀

-- ---------------------------------------------------------------------------
-- The other actions
-- ---------------------------------------------------------------------------

theorem Replayed.setmprodvote (h : s.elections.Replayed) (votes : Asset) :
    Ensures (setmprodvote env s votes) fun out => out.1.elections.Replayed := by
  unfold Amax.setmprodvote
  refine .bind_eq fun _ _ => .check fun _ => .check fun _ => .check fun _ => .ok ⟨?_, ?_⟩
  · exact ⟨h.tracks.enabled, h.tracks.electable, h.tracks.synced.congr rfl rfl rfl le_rfl⟩
  · exact h.logged.congr rfl rfl rfl rfl

end Elections

variable {env : Env} {s : System}

/-- A new round of elections has the chain take the elected sets. -/
theorem StartsElection.native {count : ℕ} {changes : ProposedProducerChanges} {e' : Elections}
    (h : StartsElection env s count changes e') (he : Electable s.producers)
    (h2 : 2 ≤ s.electGstate.maxMainProducerCount) (hcount : minBackupProducerCount ≤ count) :
    e'.native = e'.sets := by
  obtain ⟨-, hleads⟩ := h.tracks he h2 hcount
  have hpos : 0 < (setProposedProducersEx env.nativeAccepts changes s.native).1 := by
    rw [h.accepted]
    exact one_pos
  have happly := setProposedProducersEx_of_pos hpos
  rw [h.accepted, ProposedProducerChanges.apply_eq_some_iff.mpr (hleads s.native)] at happly
  exact (Option.some.inj happly).symm

/-- The rows that an older sequence has left do not count in a new round. -/
theorem StartsElection.replayed {count : ℕ} {changes : ProposedProducerChanges} {e' : Elections}
    (h : StartsElection env s count changes e') (he : Electable s.producers)
    (h2 : 2 ≤ s.electGstate.maxMainProducerCount) (hcount : minBackupProducerCount ≤ count)
    (hids : ∀ row ∈ s.electedChanges.rows, row.id ≤ s.electGstate.lastProducerChangeId)
    (hfresh : s.elections.FreshNext) : e'.Replayed := by
  obtain ⟨htracks, -⟩ := h.tracks he h2 hcount
  obtain ⟨⟨meq, beq, hg⟩, -⟩ := reinitElectedProducers_ok (ranked_electedProd he)
    (g := s.electGstate.enable count) h2 hcount h.reinit
  refine ⟨htracks, ?_, fun _ => ?_⟩
  · rw [h.electedChanges, hg]
    exact hids
  · rw [hfresh.pending_eq_nil h.electedChanges h.sequence, h.native he h2 hcount]
    exact .nil _

namespace Elections

theorem Replayed.initbbpelect (h : s.elections.Replayed) {count : ℕ}
    (hfresh : s.electGstate.NeedsReinit count → s.elections.FreshNext) :
    Ensures (initbbpelect env s count) fun out => out.1.elections.Replayed := by
  intro out hok
  obtain ⟨hcount, ⟨-, hle, hsame⟩ | ⟨hnew, changes, hstart⟩⟩ := initbbpelect_ok hok
  · rw [hsame]
    refine ⟨⟨by rfl, h.tracks.electable, h.tracks.synced.congr rfl rfl rfl hle⟩, ?_⟩
    exact h.logged.congr rfl rfl rfl rfl
  · exact hstart.replayed h.tracks.electable h.tracks.synced.two_le hcount h.logged.ids
      (hfresh hnew)

/-- Whatever the chain takes of the log, the rows that are left follow it. -/
theorem Replayed.flushed {e e' : Elections} {taken : Option ProposedProducerChanges}
    (h : e.Replayed) (hr : e.Rests e') (hf : e.Flushed e' taken) : e'.Replayed := by
  have hsets := hr.sets
  obtain ⟨period, main, backup, hg⟩ := hr.electGstate
  have hid : e'.electGstate.lastProducerChangeId = e.electGstate.lastProducerChangeId := by rw [hg]
  have hi : e'.electGstate.producerChangeInterrupted = e.electGstate.producerChangeInterrupted := by
    rw [hg]
  refine ⟨h.tracks.rests hr, ?_⟩
  rw [hsets]
  cases hf with
  | kept log native =>
    rw [native]
    exact h.logged.congr log hid hr.electedSequence hi
  | taken examined _ log native =>
    exact h.logged.taken examined log hid hr.electedSequence hi fun _ => native
  | erased examined size log native =>
    rw [native]
    exact h.logged.erased examined size log hid hr.electedSequence hi

end Elections

-- ---------------------------------------------------------------------------
-- Runs
-- ---------------------------------------------------------------------------

/-- The action may begin a new sequence of changes. -/
def System.Begins (s : System) : Action → Prop
  | .initbbpelect count => s.electGstate.NeedsReinit count
  | a => s.electGstate.producerChangeInterrupted = true ∧ s.Saves a

instance (s : System) (a : Action) : Decidable (s.Begins a) :=
  decidable_of_bool (match a with
    | .initbbpelect count => decide (s.electGstate.NeedsReinit count)
    | a => decide (s.electGstate.producerChangeInterrupted = true ∧ s.Saves a))
    (by cases a <;> simp [System.Begins])

/-- A sequence of changes begins with a number that no row of the log carries. -/
def NumbersFresh (s : System) (tx : Transaction) : Prop :=
  s.Begins tx.action → s.elections.FreshNext

instance (s : System) (tx : Transaction) : Decidable (NumbersFresh s tx) :=
  inferInstanceAs (Decidable (_ → _))

/-- An action that saves while the changes are interrupted finds the next number unused. -/
theorem NumbersFresh.next {s : System} {tx : Transaction} (h : NumbersFresh s tx)
    (hs : s.Saves tx.action) (hi : s.electGstate.producerChangeInterrupted = true) :
    s.elections.FreshNext := by
  refine h ?_
  cases haction : tx.action with
  | initbbpelect =>
    rw [haction] at hs
    exact hs.elim
  | _ =>
    rw [haction] at hs
    exact ⟨hi, hs⟩

/-- An action of the elections that moves no producer. -/
def Action.settles : Action → Bool
  | .setmprodvote .. | .initbbpelect .. | .onblock .. => true
  | _ => false

/-- Producers that have a row move as their records say, or none moves. -/
def Proceeds (s : System) (tx : Transaction) : Prop :=
  Rewrites Tame s tx ∨ tx.action.settles = true

instance (s : System) (tx : Transaction) : Decidable (Proceeds s tx) :=
  inferInstanceAs (Decidable (_ ∨ _))

/-- An action that saves nothing leaves the elections alone. -/
theorem elections_of_not_saves {P : Elections → ProducerInfo → ProducerInfo → Prop} {s : System}
    {tx : Transaction} (hP : Rewrites P s tx) (hs : ¬s.Saves tx.action) :
    Ensures (perform tx.env s tx.action) fun out => out.1.elections = s.elections := by
  obtain ⟨env, action⟩ := tx
  cases action with
  | addvote voter votes =>
    refine .check fun _ => .check fun _ => .check fun _ => .bind_eq fun _ _ => ?_
    simp only [System.Saves, ne_eq, not_not] at hs
    cases hv : s.voters.find? voter with
    | none => exact .check fun _ => .ok rfl
    | some v =>
      rw [System.voter_of_find? hv] at hs
      exact .bind (P := fun s' => s'.elections = s.elections) (.ite (fun hne => absurd hs hne)
        fun _ => .ok rfl) fun s' hs' => .bind_eq fun _ _ => .ok hs'
  | subvote voter votes => exact absurd trivial hs
  | vote voter producers =>
    refine .check fun _ => .check fun _ => .bind_eq fun list hlist => ?_
    simp only [System.Saves, ne_eq, not_not] at hs
    cases hv : s.voters.find? voter with
    | none => exact .error _
    | some v =>
      rw [System.voter_of_find? hv] at hs
      have hnames : list.names = producers := by
        unfold sortedNames at hlist
        split_ifs at hlist
        exact congrArg NameList.names (Except.ok.inj hlist).symm
      exact .check fun _ => .ite (fun _ => .ok rfl)
        fun hne => absurd (NameList.ext (hs.trans hnames.symm)) hne
  | regproducer producer key url ratio =>
    have hrow : RegistersWith P env s producer ⟨1, [⟨key, 1⟩]⟩ ratio := hP
    unfold RegistersWith at hrow
    cases hf : s.producers.find? producer <;> simp_all [System.Saves]
  | regproducer2 producer authority url ratio =>
    have hrow : RegistersWith P env s producer authority ratio := hP
    unfold RegistersWith at hrow
    cases hf : s.producers.find? producer <;> simp_all [System.Saves]
  | _ => exact hP.elim

theorem Elections.Replayed.perform {s s' : System} {tx : Transaction} {sent : List Inline}
    (h : s.elections.Replayed) (hP : Proceeds s tx) (hfresh : NumbersFresh s tx)
    (hok : transact tx s = .ok (s', sent)) : s'.elections.Replayed := by
  replace hok := (transact_ok_iff.mp hok).1
  rcases hP with hmove | hsettles
  · by_cases hsaves : s.Saves tx.action
    · exact ((Elections.upkept_replayed h fun hi => hfresh.next hsaves hi).perform rfl hmove).of_ok hok
    · have hsame : s'.elections = s.elections := elections_of_not_saves hmove hsaves _ hok
      rw [hsame]
      exact h
  · cases haction : tx.action with
    | setmprodvote votes =>
      rw [haction] at hok
      exact h.setmprodvote votes _ hok
    | initbbpelect count =>
      rw [haction] at hok
      refine h.initbbpelect (fun hnew => hfresh ?_) _ hok
      rw [haction]
      exact hnew
    | onblock bh =>
      rw [haction] at hok
      exact h.flushed (onblock_rests _ hok) (onblock_flushed _ hok)
    | _ => simp [haction, Action.settles] at hsettles

/-- The first round of elections has no pending changes. -/
theorem Unstarted.replayed {env : Env} {s s₁ : System} {count : ℕ} {sent : List Inline}
    (hs : Unstarted s)
    (hids : ∀ row ∈ s.electedChanges.rows, row.id ≤ s.electGstate.lastProducerChangeId)
    (hinit : transact ⟨env, .initbbpelect count⟩ s = .ok (s₁, sent))
    (hfresh : NumbersFresh s ⟨env, .initbbpelect count⟩) : s₁.elections.Replayed := by
  replace hinit := (transact_ok_iff.mp hinit).1
  obtain ⟨hcount, -⟩ := initbbpelect_ok hinit
  obtain ⟨changes, hstart, -⟩ := hs.start hinit
  refine hstart.replayed hs.electable hs.two_le hcount hids (hfresh (.inl ?_))
  simpa [ElectGlobalState.isBbpEnabled] using hs.disabled

/-- In every run after the elections start whose sequences begin with numbers that no row of the
log carries, replaying the pending changes on the producers of the chain gives the elected sets. -/
theorem replay_gives_elected {env : Env} {s s₁ : System} {count : ℕ} {sent : List Inline}
    (hs : Unstarted s)
    (hids : ∀ row ∈ s.electedChanges.rows, row.id ≤ s.electGstate.lastProducerChangeId)
    (hinit : transact ⟨env, .initbbpelect count⟩ s = .ok (s₁, sent)) {txs : List Transaction}
    (hP : Run.Along transact Proceeds s₁ txs)
    (hfresh : Run.Along transact NumbersFresh s (⟨env, .initbbpelect count⟩ :: txs))
    (hi : (s₁.final txs).electGstate.producerChangeInterrupted = false) :
    (s₁.final txs).electGstate.isBbpEnabled = true ∧
      (s₁.final txs).elections.replay = some (s₁.final txs).elections.sets := by
  obtain ⟨hfirst, hfresh⟩ := hfresh
  rw [Run.next_ok hinit] at hfresh
  have hreplayed : (s₁.final txs).elections.Replayed :=
    Run.invariant (I := fun s => s.elections.Replayed)
      (fun _ _ _ _ h hp hok => h.perform hp.1 hp.2 hok) (hs.replayed hids hinit hfirst)
      (Run.along_and.mpr ⟨hP, hfresh⟩)
  exact ⟨hreplayed.tracks.enabled, (hreplayed.logged.replays hi).foldlM_eq⟩

/-- 25 producers have enough votes, and 22 is the first backup producer. -/
private def rivals : System := electionChain 26 [
  supporter 101 (firstProducers 20) 200000000,
  supporter 102 (.single 21) 100000000, supporter 103 (.single 22) 50000000,
  supporter 104 (.single 23) 40000000, supporter 105 (.single 24) 30000000,
  supporter 106 (.single 25) 20000000]

/-- Producers 21 and 22 change places, the chain takes the changes, and then they change back. -/
theorem replay_gives_elected_votes :
    let s₁ := rivals.final [⟨electionDay, .initbbpelect 3⟩]
    let s := s₁.final [⟨electionDay, .addvote 103 ⟨60000000, voteSymbol⟩⟩,
      ⟨electionDay, .onblock { timestamp := 1000000000, producer := 1 }⟩,
      ⟨electionDay, .setmprodvote ⟨20000000, voteSymbol⟩⟩,
      ⟨electionDay, .addvote 102 ⟨20000000, voteSymbol⟩⟩]
    s.electGstate.isBbpEnabled = true ∧ s.elections.replay = some s.elections.sets := by
  intro s₁ s
  obtain ⟨sent, hinit⟩ : ∃ sent, transact ⟨electionDay, .initbbpelect 3⟩ rivals = .ok (s₁, sent) :=
    System.final_single (by decide +kernel)
  exact replay_gives_elected ⟨by decide +kernel, by decide +kernel, by decide +kernel⟩
    (by decide +kernel) hinit (by decide +kernel) (by decide +kernel) (by decide +kernel)

-- ---------------------------------------------------------------------------
-- Sequence numbers come round
-- ---------------------------------------------------------------------------

section Circle

/-- The limit of backup producers is raised and lowered again, which starts a new round. -/
private def circle : List Transaction :=
  [⟨electionDay, .initbbpelect 4⟩, ⟨electionDay, .initbbpelect 3⟩]

/-- `n` rounds one after the other. -/
private def circles (n : ℕ) : List Transaction := (List.replicate n circle).flatten

private def System.numbered (s : System) (seq : ℕ) : System :=
  { s with gstate := { s.gstate with electedSequence := seq } }

/-- A new round changes nothing but the sequence number. -/
private def System.Circles (s : System) : Prop :=
  s.electGstate.electedVersion = electedVersionBbpEnabled ∧ s.electGstate.maxBackupProducerCount = 3 ∧
    s.gstate.threshActivatedStakeTime ≠ 0 ∧
    s.gstate.lastProducerScheduleUpdate = TimePoint.toSlot electionDay.now ∧
    match reinitElectedProducers s.electGstate (electedProd s.producers) with
    | .ok (some (g, changes)) =>
      g = s.electGstate ∧ setProposedProducersEx electionDay.nativeAccepts changes s.native = (1, s.native)
    | _ => False

private instance (s : System) : Decidable s.Circles := by
  unfold System.Circles
  have : Decidable (match reinitElectedProducers s.electGstate (electedProd s.producers) with
      | .ok (some (g, changes)) => g = s.electGstate ∧
        setProposedProducersEx electionDay.nativeAccepts changes s.native = (1, s.native)
      | _ => False) := by
    split <;> infer_instance
  infer_instance

variable {s : System}

private theorem initbbpelect_raise (h : s.Circles) (seq : ℕ) :
    transact ⟨electionDay, .initbbpelect 4⟩ (s.numbered seq) =
      .ok ({ s.numbered seq with electGstate := s.electGstate.enable 4 }, []) := by
  obtain ⟨hversion, hmax, hactive, -, -⟩ := h
  have hkeep : ¬((s.numbered seq).electGstate.electedVersion < electedVersionBbpEnabled ∨
      4 < (s.numbered seq).electGstate.maxBackupProducerCount) := by
    have h2 : (s.numbered seq).electGstate.electedVersion = electedVersionBbpEnabled := hversion
    have h3 : (s.numbered seq).electGstate.maxBackupProducerCount = 3 := hmax
    omega
  have hstarted : ¬(s.numbered seq).gstate.threshActivatedStakeTime = 0 := hactive
  refine transact_ok_iff.mpr ⟨?_, nofun⟩
  simp only [perform, initbbpelect, requireAdmin, Except.bind_ok_iff, check_ok_iff, exists_const]
  refine ⟨.inl rfl, by decide, { s.numbered seq with electGstate := s.electGstate.enable 4 }, ?_, ?_⟩
  · rw [if_neg hkeep]
    rfl
  · rw [if_neg hstarted]
    rfl

private theorem initbbpelect_lower (h : s.Circles) (seq : ℕ) :
    transact ⟨electionDay, .initbbpelect 3⟩
        { s.numbered seq with electGstate := s.electGstate.enable 4 } =
      .ok (s.numbered (nextSequence seq), []) := by
  obtain ⟨hversion, hmax, hactive, hslot, hround⟩ := h
  have hback : (s.electGstate.enable 4).enable 3 = s.electGstate := by
    cases hg : s.electGstate
    simp_all [ElectGlobalState.enable]
  cases hre : reinitElectedProducers s.electGstate (electedProd s.producers) with
  | error e => simp [hre] at hround
  | ok r =>
    cases r with
    | none => simp [hre] at hround
    | some out =>
      obtain ⟨g, changes⟩ := out
      simp only [hre] at hround
      obtain ⟨rfl, hset⟩ := hround
      have hstarted : ¬(s.numbered (nextSequence seq)).gstate.threshActivatedStakeTime = 0 := hactive
      refine transact_ok_iff.mpr ⟨?_, nofun⟩
      simp only [perform, initbbpelect, requireAdmin, Except.bind_ok_iff, check_ok_iff, exists_const]
      refine ⟨.inl rfl, by decide, s.numbered (nextSequence seq), ?_, ?_⟩
      · have hlower : 3 < (s.electGstate.enable 4).maxBackupProducerCount := Nat.lt_succ_self 3
        rw [if_pos (.inr hlower)]
        change startElection electionDay
          { s.numbered seq with electGstate := (s.electGstate.enable 4).enable 3 } = _
        rw [hback]
        simp only [startElection, Except.bind_ok_iff]
        refine ⟨some (s.electGstate, changes), hre, ?_⟩
        have hset' : setProposedProducersEx electionDay.nativeAccepts changes (s.numbered seq).native =
          (1, s.native) := hset
        simp only [hset', check_ok_iff, Except.bind_ok_iff, exists_const, Except.pure_ok_iff]
        refine ⟨by decide, ?_⟩
        rw [← hslot]
        rfl
      · rw [if_neg hstarted]
        rfl

private theorem circles_ok (h : s.Circles) (seq n : ℕ) :
    (s.numbered seq).final (circles n) = s.numbered ((nextSequence^[n]) seq) ∧
      Run.Along transact (fun s tx => abortOf (transact tx s) = none ∧ Reranks s tx)
        (s.numbered seq) (circles n) := by
  induction n generalizing seq with
  | zero => exact ⟨rfl, trivial⟩
  | succ n ih =>
    obtain ⟨hfinal, halong⟩ := ih (nextSequence seq)
    have hraise := initbbpelect_raise h seq
    have hlower := initbbpelect_lower h seq
    have hcons : circles (n + 1) = ⟨electionDay, .initbbpelect 4⟩ ::
        ⟨electionDay, .initbbpelect 3⟩ :: circles n := by
      simp only [circles, List.replicate_succ, List.flatten_cons]
      rfl
    rw [hcons]
    refine ⟨?_, ⟨abortOf_eq_none_iff.mpr ⟨_, hraise⟩, trivial⟩, ?_⟩
    · rw [System.final, Run.final, Run.next_ok hraise, Run.final, Run.next_ok hlower]
      exact hfinal
    · rw [Run.next_ok hraise]
      refine ⟨⟨abortOf_eq_none_iff.mpr ⟨_, hlower⟩, trivial⟩, ?_⟩
      rw [Run.next_ok hlower]
      exact halong

end Circle

private theorem nextSequence_iterate (n seq : ℕ) (h : seq < 2 ^ 32) :
    nextSequence^[n] seq = (seq + n) % 2 ^ 32 := by
  induction n with
  | zero => rw [Function.iterate_zero, id, Nat.add_zero, Nat.mod_eq_of_lt h]
  | succ n ih => rw [Function.iterate_succ_apply', ih, nextSequence, Nat.mod_add_mod, Nat.add_assoc]

/-- The vote after which the rounds begin. -/
private def swap : Transaction := ⟨electionDay, .addvote 103 ⟨60000000, voteSymbol⟩⟩

private theorem circles_replay {m n : ℕ} (hm : m = n + 1) (hn : (2 + n) % 2 ^ 32 = 1) :
    let s₁ := rivals.final [⟨electionDay, .initbbpelect 3⟩]
    Run.Along transact (fun s tx => abortOf (transact tx s) = none ∧ Reranks s tx) s₁
        (swap :: circles m) ∧
      (s₁.final (swap :: circles m)).electGstate.isBbpEnabled = true ∧
      (s₁.final (swap :: circles m)).electGstate.producerChangeInterrupted = false ∧
      (s₁.final (swap :: circles m)).elections.replay = none := by
  intro s₁
  subst hm
  have hsplit : swap :: circles (n + 1) = (swap :: circle) ++ circles n := by
    simp only [circles, List.replicate_succ, List.flatten_cons, List.cons_append]
  have hfirst : Run.Along transact (fun s tx => abortOf (transact tx s) = none ∧ Reranks s tx) s₁
      (swap :: circle) := by decide +kernel
  rw [hsplit, System.final, Run.final_append, Run.along_append]
  generalize hs : Run.final transact s₁ (swap :: circle) = s
  have hcircles : s.Circles := by subst hs; decide +kernel
  have hseq : s.gstate.electedSequence = 2 := by subst hs; decide +kernel
  have hnumbered : s.numbered 2 = s := by
    rw [← hseq]
    rfl
  obtain ⟨hfinal, halong⟩ := circles_ok hcircles 2 n
  rw [nextSequence_iterate _ _ (by decide), hnumbered, hn] at hfinal
  rw [hnumbered] at halong
  refine ⟨⟨hfirst, halong⟩, ?_⟩
  rw [show Run.final transact s (circles n) = s.numbered 1 from hfinal]
  subst hs
  decide +kernel

/-- After one vote, rounds of elections are started until their numbers come round. The row of the
vote has the current number again, and cannot be replayed on the sets the chain has by then. -/
theorem replay_stale_row :
    let s₁ := rivals.final [⟨electionDay, .initbbpelect 3⟩]
    let txs := swap :: circles (2 ^ 32)
    Unstarted rivals ∧ AllActive rivals.producers ∧ rivals.electedChanges.rows = [] ∧
      abortOf (transact ⟨electionDay, .initbbpelect 3⟩ rivals) = none ∧
      Run.Along transact (fun s tx => abortOf (transact tx s) = none ∧ Reranks s tx) s₁ txs ∧
      (s₁.final txs).electGstate.isBbpEnabled = true ∧
      (s₁.final txs).electGstate.producerChangeInterrupted = false ∧
      (s₁.final txs).elections.replay = none := by
  have hm : 2 ^ 32 = 2 ^ 32 - 1 + 1 := by norm_num
  have hn : (2 + (2 ^ 32 - 1)) % 2 ^ 32 = 1 := by decide
  have hreplay := circles_replay hm hn
  exact ⟨⟨by decide +kernel, by decide +kernel, by decide +kernel⟩, by decide +kernel, rfl,
    by decide +kernel, hreplay⟩

end Amax
