-- SUMMARY: Producers that are deactivated behind the queues: no elected producer is inactive, in runs that deactivate no producer of the queues.
import Amax.Election.Entry
import Amax.Election.Replay

/-! # Deactivated producers

`unregprod` and `rmvproducer` write the row of a producer and leave the queues
alone, as the registration of a new producer does. Nothing happens to the elected
sets as long as the rows stand behind the last record of the queues. -/

namespace Amax

-- ---------------------------------------------------------------------------
-- Rows behind the queues
-- ---------------------------------------------------------------------------

namespace Elections

/-- A row of the producers is written without a step of the queues. -/
def setRow (e : Elections) (r : ProducerInfo) : Elections := { e with producers := e.producers.set r }

/-- The row is not in the index, or it is in it behind the last record of the queues. -/
def Behind (e : Elections) (p : ProducerInfo) : Prop :=
  p.indexed = true → ∀ y, e.index[e.electGstate.queuesEnd]? = some y → y.byElectedProd < p.byElectedProd

variable {e : Elections} {a p r y : ProducerInfo}

theorem Tracks.stands_setRow (h : e.Tracks)
    (hold : ∀ a, e.producers.find? r.owner = some a → e.Behind a) (hnew : e.Behind r)
    {c : ProducerElectedInfo} {k : ℕ} (hc : Stands e.index c k) (hk : k ≤ e.electGstate.queuesEnd) :
    Stands (e.setRow r).index c k := by
  have hlast := h.synced.backupTailNext
  obtain ⟨y, hy, -⟩ := hlast.row
  have hle : c.key ≤ y.byElectedProd := by
    rw [← hlast.key_eq hy]
    exact not_lt.mp fun hlt => absurd ((hlast.key_lt_iff h.ranked hc).mp hlt) (not_lt.mpr hk)
  exact hc.behind (fun a ha hi => hle.trans_lt (hold a ha hi y hy)) fun hi => hle.trans_lt (hnew hi y hy)

/-- A row that is written behind the queues changes neither them nor the elected sets. -/
theorem Tracks.setRow (h : e.Tracks) (hr : r.WellFormed)
    (hold : ∀ a, e.producers.find? r.owner = some a → e.Behind a) (hnew : e.Behind r) :
    (e.setRow r).Tracks ∧ (e.setRow r).sets = e.sets := by
  have hstands : ∀ {c k}, Stands e.index c k → k ≤ e.electGstate.queuesEnd →
      Stands (e.setRow r).index c k := fun hc hk => h.stands_setRow hold hnew hc hk
  have hs := h.synced
  have h3 := hs.backup_ge
  simp only [minBackupProducerCount] at h3
  have hend : e.electGstate.queuesEnd =
    e.electGstate.maxMainProducerCount + e.electGstate.backupCount := rfl
  have hsynced : Synced e.electGstate (e.setRow r).index := ⟨hs.two_le, hs.mainCount, hs.backup_ge,
    hs.backup_le, hstands hs.mainTailPrev (by omega), hstands hs.mainTail (by omega),
    hstands hs.mainTailNext (by omega), hstands hs.backupTailPrev (by omega),
    hstands hs.backupTail (by omega), hstands hs.backupTailNext (by omega)⟩
  refine ⟨⟨h.enabled, fun q hq => ?_, hsynced⟩, h.sets_congr rfl fun hc hk => hstands hc hk.le⟩
  rcases Table.mem_set.mp hq with rfl | ⟨hq, -⟩
  · exact hr
  · exact h.electable q hq

theorem Replayed.setRow (h : e.Replayed) (hr : r.WellFormed)
    (hold : ∀ a, e.producers.find? r.owner = some a → e.Behind a) (hnew : e.Behind r) :
    (e.setRow r).Replayed := by
  obtain ⟨htracks, hsets⟩ := h.tracks.setRow hr hold hnew
  refine ⟨htracks, ?_⟩
  rw [hsets]
  exact h.logged.congr rfl rfl rfl rfl

/-- The row at the end of the queues is of an active producer. -/
theorem Tracks.last (h : e.Tracks) (hy : e.index[e.electGstate.queuesEnd]? = some y) :
    y.Electable ∧ y.isActive = true ∧ e.electGstate.backupElectedQueue.tailNext.name = y.owner ∧
      e.electGstate.backupElectedQueue.tailNext.electedVotes = y.getElectedVotes := by
  obtain ⟨q, hq, hactive, hname, hvotes⟩ := h.synced.backupTailNext.row
  obtain rfl : q = y := Option.some.inj (hq.symm.trans hy)
  exact ⟨h.ranked.electable q (List.mem_of_getElem? hq), hactive, hname, hvotes⟩

/-- Inactive rows are behind the queues. -/
theorem Tracks.behind_inactive (h : e.Tracks) (hp : p.WellFormed) (ha : p.isActive = false) :
    e.Behind p := by
  intro hi y hy
  obtain ⟨hey, hya, -⟩ := h.last hy
  exact ProducerInfo.byElectedProd_lt hey (hp.electable hi) hya ha

/-- The record of an active producer tells whether its row is behind the queues. -/
theorem Tracks.behind_active (h : e.Tracks) (hp : p.WellFormed) (ha : p.isActive = true)
    (hlt : p.getElectedInfo.lt e.electGstate.backupElectedQueue.tailNext = true) : e.Behind p := by
  intro hi y hy
  have hlast := h.synced.backupTailNext
  rw [ProducerElectedInfo.lt_eq (hp.electable hi).regular (hlast.regular h.ranked),
    decide_eq_true_eq, hlast.key_eq hy, ProducerInfo.key_getElectedInfo ha] at hlt
  exact hlt

/-- The row of a new producer is behind the queues if it is behind the last of their records. -/
theorem Tracks.behind_new (h : e.Tracks) (ha : r.isActive = true) (hv : r.getElectedVotes = 0)
    (hlast : 0 < e.electGstate.backupElectedQueue.tailNext.electedVotes ∨
      e.electGstate.backupElectedQueue.tailNext.electedVotes = 0 ∧
        e.electGstate.backupElectedQueue.tailNext.name < r.owner) : e.Behind r := by
  intro _ y hy
  obtain ⟨hey, hya, hname, hvotes⟩ := h.last hy
  have hrange : y.InRange := ⟨hey.votes_nonneg, hey.votes_le.trans_lt (by decide)⟩
  rw [hname, hvotes] at hlast
  exact (ProducerInfo.byElectedProd_lt_unvoted_iff hrange ha hv).mpr ⟨hya, hlast⟩

end Elections

-- ---------------------------------------------------------------------------
-- Actions that write such rows
-- ---------------------------------------------------------------------------

/-- The producer an action deactivates. -/
def Action.deactivated : Action → Option Name
  | .unregprod producer | .rmvproducer producer => some producer
  | _ => none

/-- The producer stands behind the queues, or is inactive or in no index. -/
def System.LeavesBehind (s : System) (n : Name) : Prop :=
  let p := s.producer n
  p.isActive = true → p.indexed = true →
    p.getElectedInfo.lt s.electGstate.backupElectedQueue.tailNext = true

instance (s : System) (n : Name) : Decidable (s.LeavesBehind n) :=
  inferInstanceAs (Decidable (_ → _ → _))

section Actions

variable {env : Env} {s s' : System} {n : Name} {sent : List Inline} {tx : Transaction}

/-- What a deactivation writes. -/
theorem transact_deactivated (hd : tx.action.deactivated = some n)
    (hok : transact tx s = .ok (s', sent)) : ∃ a, s.producers.find? n = some a ∧
      s' = { s with producers := s.producers.set a.deactivate } := by
  have hrow : Ensures (deactivateProducer s n) fun out => ∃ a, s.producers.find? n = some a ∧
      out.1 = { s with producers := s.producers.set a.deactivate } := by
    unfold deactivateProducer
    cases hf : s.producers.find? n with
    | none => exact .error _
    | some a => exact .ok ⟨a, rfl, rfl⟩
  have hperform := (transact_ok_iff.mp hok).1
  cases haction : tx.action with
  | unregprod producer =>
    rw [haction] at hd hperform
    obtain rfl := Option.some.inj hd
    have : Ensures (unregprod tx.env s producer) _ := .check fun _ => hrow
    exact this _ hperform
  | rmvproducer producer =>
    rw [haction] at hd hperform
    obtain rfl := Option.some.inj hd
    have : Ensures (rmvproducer tx.env s producer) _ := .check fun _ => hrow
    exact this _ hperform
  | _ => simp [haction, Action.deactivated] at hd

/-- The row of a producer that registers for the first time. -/
structure ProducerInfo.Fresh (r : ProducerInfo) (n : Name) : Prop where
  owner : r.owner = n
  owner_ne : n ≠ 0
  active : r.isActive = true
  indexed : r.indexed = true
  ext : r.ext.isSome = true
  votes : r.getElectedVotes = 0

/-- What the registration of a new producer writes. -/
theorem transact_entered (hreg : tx.action.registered = some n)
    (hnew : s.producers.find? n = none) (hok : transact tx s = .ok (s', sent)) :
    ∃ r : ProducerInfo, r.Fresh n ∧ s' = { s with producers := s.producers.set r } := by
  have hrow : ∀ authority ratio, Ensures (registerProducer tx.env s n authority ratio) fun out =>
      ∃ r : ProducerInfo, r.Fresh n ∧ out.1 = { s with producers := s.producers.set r } := by
    intro authority ratio
    unfold registerProducer
    refine .check fun _ => .bind_eq fun _ _ => ?_
    rw [hnew]
    exact .check fun hne => .bind_eq fun _ _ => .ok ⟨_, ⟨rfl, hne, rfl, rfl, rfl, rfl⟩, rfl⟩
  have hperform := (transact_ok_iff.mp hok).1
  cases haction : tx.action with
  | regproducer producer key url ratio =>
    rw [haction] at hreg hperform
    obtain rfl := Option.some.inj hreg
    have : Ensures (regproducer tx.env s producer key url ratio) _ :=
      .check fun _ => .check fun _ => hrow _ ratio
    exact this _ hperform
  | regproducer2 producer authority url ratio =>
    rw [haction] at hreg hperform
    obtain rfl := Option.some.inj hreg
    have : Ensures (regproducer2 tx.env s producer authority url ratio) _ :=
      .check fun _ => .check fun _ => .check fun _ => hrow authority ratio
    exact this _ hperform
  | _ => simp [haction, Action.registered] at hreg

theorem Elections.Replayed.deactivate (h : s.elections.Replayed)
    (hd : tx.action.deactivated = some n) (hbehind : s.LeavesBehind n)
    (hok : transact tx s = .ok (s', sent)) : s'.elections.Replayed := by
  obtain ⟨a, hf, rfl⟩ := transact_deactivated hd hok
  have hwell := h.tracks.electable a (Table.mem_of_find? hf)
  have hwell' : a.deactivate.WellFormed :=
    ⟨hwell.owner_ne, hwell.votes_nonneg, hwell.votes_le, hwell.indexed_eq⟩
  have hleft : s.elections.Behind a := by
    cases ha : a.isActive with
    | false => exact h.tracks.behind_inactive hwell ha
    | true =>
      intro hi
      rw [System.LeavesBehind, System.producer_of_find? hf] at hbehind
      exact h.tracks.behind_active hwell ha (hbehind ha hi) hi
  refine h.setRow (r := a.deactivate) hwell' (fun b hb => ?_) (h.tracks.behind_inactive hwell' rfl)
  have howner : a.owner = n := Table.key_of_find? hf
  obtain rfl : b = a := by
    rw [show a.deactivate.owner = n from howner] at hb
    exact Option.some.inj (hb.symm.trans hf)
  exact hleft

theorem Elections.Replayed.enter (h : s.elections.Replayed)
    (hreg : tx.action.registered = some n) (hnew : s.producers.find? n = none)
    (hbehind : s.EntersBehind n) (hok : transact tx s = .ok (s', sent)) :
    s'.elections.Replayed := by
  obtain ⟨r, hr, rfl⟩ := transact_entered hreg hnew hok
  obtain rfl := hr.owner
  have hwell : r.WellFormed := by
    refine ⟨hr.owner_ne, hr.votes.ge, ?_, hr.indexed.trans hr.ext.symm⟩
    rw [hr.votes]
    decide
  refine h.setRow (r := r) hwell (fun b hb => ?_) (h.tracks.behind_new hr.active hr.votes hbehind.2)
  rw [show s.elections.producers.find? r.owner = none from hnew] at hb
  cases hb

end Actions

-- ---------------------------------------------------------------------------
-- Authorities of active producers
-- ---------------------------------------------------------------------------

/-- An active producer has an authority to sign with. -/
def ProducerInfo.Signs (p : ProducerInfo) : Prop :=
  p.isActive = true → p.producerAuthority ≠ .none

instance (p : ProducerInfo) : Decidable p.Signs := inferInstanceAs (Decidable (_ → _))

section Signs

variable {env : Env} {s s' : System} {n : Name} {sent : List Inline} {tx : Transaction}

private theorem signs_set {producers : Table ProducerInfo.owner} (h : ∀ p ∈ producers.rows, p.Signs)
    {r : ProducerInfo} (hr : r.Signs) : ∀ p ∈ (producers.set r).rows, p.Signs := by
  intro p hp
  rcases Table.mem_set.mp hp with rfl | ⟨hp, -⟩
  · exact hr
  · exact h p hp

private theorem registerProducer_signs {authority : BlockSigningAuthority} {ratio : Option ℕ}
    (h : ∀ p ∈ s.producers.rows, p.Signs) (ha : authority ≠ .none) :
    Ensures (registerProducer env s n authority ratio) fun out =>
      ∀ p ∈ out.1.producers.rows, p.Signs := by
  unfold registerProducer
  refine .check fun _ => .bind_eq fun _ _ => ?_
  cases s.producers.find? n with
  | none => exact .check fun _ => .bind_eq fun _ _ => .ok (signs_set h fun _ => ha)
  | some a =>
    have hset := signs_set h (r := a.reregister env.now authority ratio) fun _ => ha
    refine .ite (fun _ => .bind_eq fun out _ => .bind_eq fun s' hs' => .ok ?_) fun _ => .ok hset
    have hsame := congrArg (fun r : System => r.producers) (saveProducerChanges_outside hs')
    exact (show s'.producers = _ from hsame) ▸ hset

end Signs

-- ---------------------------------------------------------------------------
-- Runs
-- ---------------------------------------------------------------------------

/-- Producers move as their records say, and others enter or are deactivated behind the queues. -/
def KeepsElected (s : System) (tx : Transaction) : Prop :=
  Proceeds s tx ∨
    (∃ n ∈ tx.action.registered, s.producers.find? n = none ∧ s.EntersBehind n) ∨
    ∃ n ∈ tx.action.deactivated, s.LeavesBehind n

instance (s : System) (tx : Transaction) : Decidable (KeepsElected s tx) :=
  -- without these two the names would be searched one by one
  have : Decidable (∃ n ∈ tx.action.registered, s.producers.find? n = none ∧ s.EntersBehind n) :=
    Option.decidableExistsMem _
  have : Decidable (∃ n ∈ tx.action.deactivated, s.LeavesBehind n) := Option.decidableExistsMem _
  inferInstanceAs (Decidable (_ ∨ _ ∨ _))

section Runs

variable {s s' : System} {tx : Transaction} {sent : List Inline}

theorem Elections.Replayed.transact (h : s.elections.Replayed) (hP : KeepsElected s tx)
    (hfresh : NumbersFresh s tx) (hok : Amax.transact tx s = .ok (s', sent)) :
    s'.elections.Replayed := by
  rcases hP with hmove | ⟨n, hreg, hnew, hbehind⟩ | ⟨n, hd, hbehind⟩
  · exact h.perform hmove hfresh hok
  · exact h.enter hreg hnew hbehind hok
  · exact h.deactivate hd hbehind hok

/-- Active producers keep authorities to sign with. -/
theorem signs_transact (h : ∀ p ∈ s.producers.rows, p.Signs) (hP : KeepsElected s tx)
    (hok : Amax.transact tx s = .ok (s', sent)) : ∀ p ∈ s'.producers.rows, p.Signs := by
  have hperform := (transact_ok_iff.mp hok).1
  cases haction : tx.action with
  | addvote voter votes =>
    rw [haction] at hperform
    exact addvote_rows (fun hp _ _ => hp) h _ hperform
  | subvote voter votes =>
    rw [haction] at hperform
    exact subvote_rows (fun hp _ _ => hp) h _ hperform
  | vote voter producers =>
    rw [haction] at hperform
    exact vote_rows (fun hp _ _ => hp) h _ hperform
  | regproducer producer key url ratio =>
    rw [haction] at hperform
    have : Ensures (regproducer tx.env s producer key url ratio) _ :=
      .check fun _ => .check fun _ => registerProducer_signs h (by simp [BlockSigningAuthority.none])
    exact this _ hperform
  | regproducer2 producer authority url ratio =>
    rw [haction] at hperform
    have : Ensures (regproducer2 tx.env s producer authority url ratio) _ :=
      .check fun _ => .check fun _ => .check fun hvalid => registerProducer_signs h fun hnone => by
        simp [hnone, BlockSigningAuthority.none, BlockSigningAuthority.isValid] at hvalid
    exact this _ hperform
  | unregprod producer | rmvproducer producer =>
    obtain ⟨a, -, rfl⟩ := transact_deactivated (n := producer) (by rw [haction]; rfl) hok
    exact signs_set h (r := a.deactivate) nofun
  | setmprodvote votes =>
    rw [haction] at hperform
    have : Ensures (setmprodvote tx.env s votes) fun out => ∀ p ∈ out.1.producers.rows, p.Signs :=
      .bind_eq fun _ _ => .check fun _ => .check fun _ => .check fun _ => .ok h
    exact this _ hperform
  | initbbpelect count =>
    rw [haction] at hperform
    have hsame : s'.elections.producers = s.producers := by
      obtain ⟨-, ⟨-, -, hsame⟩ | ⟨-, changes, hstart⟩⟩ := initbbpelect_ok hperform
      · rw [hsame]
        rfl
      · exact hstart.producers
    exact (show s'.producers = s.producers from hsame) ▸ h
  | onblock bh =>
    rw [haction] at hperform
    intro p hp ha
    obtain ⟨q, hq, heq⟩ := (onblock_rests _ hperform).rows.mem hp
    obtain ⟨-, hactive, hauthority, -⟩ := ProducerInfo.eq_of_unpaid heq
    rw [hauthority]
    exact h q hq (hactive.symm.trans ha)
  | _ =>
    simp [KeepsElected, Proceeds, Rewrites, Action.settles, Action.registered, Action.deactivated,
      haction] at hP

/-- The producers of the elected sets are active, and have authorities to sign with. -/
def Elections.ActivelyElected (e : Elections) : Prop :=
  ∃ n, e.replay = some n ∧ ∀ name ∈ n.main ∪ n.backup, ∃ p, e.producers.find? name = some p ∧
    p.isActive = true ∧ p.producerAuthority ≠ .none

theorem Elections.Replayed.activelyElected {e : Elections} (h : e.Replayed)
    (hsigns : ∀ p ∈ e.producers.rows, p.Signs)
    (hi : e.electGstate.producerChangeInterrupted = false) : e.ActivelyElected := by
  refine ⟨e.sets, (h.logged.replays hi).foldlM_eq, fun name hname => ?_⟩
  have hlast := h.tracks.synced.backupTailNext
  have hlen := hlast.lt_length
  obtain ⟨y, hy, hya, -⟩ := hlast.row
  have hposition : position e.index name < e.electGstate.maxMainProducerCount + e.electGstate.backupCount := by
    rcases Finset.mem_union.mp hname with hmain | hbackup
    · have := (mem_main h.tracks.ranked (by omega)).mp hmain
      omega
    · exact ((mem_backup h.tracks.ranked hlen.le).mp hbackup).2
  obtain ⟨p, hp⟩ : ∃ p, e.index[position e.index name]? = some p :=
    ⟨_, List.getElem?_eq_getElem (by omega)⟩
  have hmem := (mem_electedProd.mp (List.mem_of_getElem? hp)).1
  have hactive := h.tracks.ranked.active_of_lt hp hy hposition.le hya
  refine ⟨p, ?_, hactive, hsigns p hmem hactive⟩
  rw [← owner_of_position hp]
  exact Table.find?_of_mem hmem

/-- In every run after the elections start that deactivates no producer of the queues, whose other
rows compare as their records say, and whose sequences begin with fresh numbers, no inactive
producer is in the sets that the pending changes lead to. -/
theorem elected_active {env : Env} {s s₁ : System} {count : ℕ} {sent : List Inline}
    (hs : Unstarted s) (hsigns : ∀ p ∈ s.producers.rows, p.Signs)
    (hids : ∀ row ∈ s.electedChanges.rows, row.id ≤ s.electGstate.lastProducerChangeId)
    (hinit : Amax.transact ⟨env, .initbbpelect count⟩ s = .ok (s₁, sent)) {txs : List Transaction}
    (hP : Run.Along Amax.transact KeepsElected s₁ txs)
    (hfresh : Run.Along Amax.transact NumbersFresh s (⟨env, .initbbpelect count⟩ :: txs))
    (hi : (s₁.final txs).electGstate.producerChangeInterrupted = false) :
    (s₁.final txs).elections.ActivelyElected := by
  obtain ⟨hfirst, hfresh⟩ := hfresh
  rw [Run.next_ok hinit] at hfresh
  have hstart : s₁.elections.Replayed := hs.replayed hids hinit hfirst
  have hsigns₁ := signs_transact hsigns (.inl (.inr rfl)) hinit
  obtain ⟨hreplayed, hsigned⟩ : (s₁.final txs).elections.Replayed ∧
      ∀ p ∈ (s₁.final txs).producers.rows, p.Signs :=
    Run.invariant (I := fun s => s.elections.Replayed ∧ ∀ p ∈ s.producers.rows, p.Signs)
      (fun _ _ _ _ h hp hok => ⟨h.1.transact hp.1 hp.2 hok, signs_transact h.2 hp.1 hok⟩)
      ⟨hstart, hsigns₁⟩ (Run.along_and.mpr ⟨hP, hfresh⟩)
  exact hreplayed.activelyElected hsigned hi

end Runs

/-- 25 producers have enough votes for the elections, 26 has some and 27 none. -/
private def reserve : System := electionChain 27 [
  supporter 101 (firstProducers 20) 200000000,
  supporter 102 (.single 21) 100000000, supporter 103 (.single 22) 50000000,
  supporter 104 (.single 23) 40000000, supporter 105 (.single 24) 30000000,
  supporter 106 (.single 25) 20000000, supporter 107 (.single 26) 1000000]

/-- Producer 26 is deactivated behind the queues, loses votes and registers again, and a new
producer enters. -/
theorem elected_active_reserve :
    let s₁ := reserve.final [⟨electionDay, .initbbpelect 3⟩]
    let s := s₁.final [⟨electionDay, .unregprod 26⟩, registration electionDay 28,
      ⟨electionDay, .addvote 103 ⟨60000000, voteSymbol⟩⟩,
      ⟨electionDay, .subvote 107 ⟨500000, voteSymbol⟩⟩, registration electionDay 26,
      ⟨electionDay, .onblock { timestamp := 1000000000, producer := 1 }⟩,
      ⟨electionDay, .vote 104 [23, 26]⟩, ⟨electionDay, .rmvproducer 27⟩]
    s.elections.ActivelyElected := by
  intro s₁ s
  obtain ⟨sent, hinit⟩ : ∃ sent, Amax.transact ⟨electionDay, .initbbpelect 3⟩ reserve =
      .ok (s₁, sent) := System.final_single (by decide +kernel)
  exact elected_active ⟨by decide +kernel, by decide +kernel, by decide +kernel⟩ (by decide +kernel)
    (by decide +kernel) hinit (by decide +kernel) (by decide +kernel) (by decide +kernel)

/-- The first main producer is deactivated, and stays in the main set. -/
theorem elected_inactive_main :
    let s := reserve.final [⟨electionDay, .initbbpelect 3⟩, ⟨electionDay, .unregprod 1⟩]
    Run.Along transact (fun s tx => abortOf (transact tx s) = none) reserve
        [⟨electionDay, .initbbpelect 3⟩, ⟨electionDay, .unregprod 1⟩] ∧
      Unstarted reserve ∧ AllActive reserve.producers ∧ reserve.electedChanges.rows = [] ∧
      s.electGstate.isBbpEnabled = true ∧ s.electGstate.producerChangeInterrupted = false ∧
      ¬ s.elections.ActivelyElected := by
  intro s
  refine ⟨by decide +kernel, ⟨by decide +kernel, by decide +kernel, by decide +kernel⟩,
    by decide +kernel, rfl, by decide +kernel, by decide +kernel, fun ⟨n, hn, hall⟩ => ?_⟩
  have hmain : s.elections.replay.map (fun n => decide (1 ∈ n.main)) = some true := by decide +kernel
  rw [hn, Option.map_some, Option.some.injEq, decide_eq_true_eq] at hmain
  obtain ⟨p, hp, hactive, -⟩ := hall 1 (Finset.mem_union_left _ hmain)
  have hinactive : (s.elections.producers.find? 1).map (·.isActive) = some false := by decide +kernel
  rw [hp, Option.map_some, Option.some.injEq, hactive] at hinactive
  cases hinactive

end Amax
