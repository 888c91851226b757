-- SUMMARY: The issuance of block rewards is capped, and every reward ever produced is unclaimed, issued or undone.
import Amax.System.Effect

/-! # Issuance

Two streams of rewards credit one balance of each producer. A stream produces
no more than its total, and nothing but a claim or an undo takes rewards from a
balance. -/

namespace Amax

-- ---------------------------------------------------------------------------
-- The invariant
-- ---------------------------------------------------------------------------

/-- A stream of rewards that has produced no more than its total, which is at most `cap`. -/
structure ProducerRewardInfo.Capped (cap : ℤ) (info : ProducerRewardInfo) : Prop where
  produced_nonneg : 0 ≤ info.producedRewards.amount
  produced_le : info.producedRewards.amount ≤ info.totalRewards.amount
  total_le : info.totalRewards.amount ≤ cap
  /-- A stream that runs, or has run, has a symbol. -/
  symbol : 0 < info.rewardsPerBlock.amount ∨ 0 < info.producedRewards.amount →
    info.producedRewards.symbol.isValid

/-- The rewards `out` have left the balances of the producers. -/
structure Issuance (s : System) (out : ℤ) : Prop where
  main : s.electGstate.mainRewardInfo.Capped totalMainProducerRewards
  backup : s.electGstate.backupRewardInfo.Capped totalBackupProducerRewards
  unclaimed_nonneg : ∀ p ∈ s.producers.rows, 0 ≤ p.unclaimedRewards.amount
  sum_eq : s.producers.sum (·.unclaimedRewards.amount) + out =
    s.electGstate.mainRewardInfo.producedRewards.amount +
      s.electGstate.backupRewardInfo.producedRewards.amount

theorem issuance_outside {s : System} {out : ℤ} : Issuance s.outside out ↔ Issuance s out :=
  ⟨fun h => ⟨h.main, h.backup, h.unclaimed_nonneg, h.sum_eq⟩,
    fun h => ⟨h.main, h.backup, h.unclaimed_nonneg, h.sum_eq⟩⟩

namespace ProducerRewardInfo.Capped

variable {cap : ℤ} {info info' : ProducerRewardInfo}

theorem newRate (h : info.Capped cap) (hn : NewRate info info') :
    info'.Capped cap ∧ info'.producedRewards = info.producedRewards := by
  rcases hn with rfl | ⟨hs, rate, rfl⟩
  · exact ⟨h, rfl⟩
  · exact ⟨⟨h.produced_nonneg, h.produced_le, h.total_le, fun _ => hs⟩, rfl⟩

theorem paid (h : info.Capped cap) (hpos : 0 < info.rewardsPerBlock.amount)
    (hle : info.producedRewards.amount + info.rewardsPerBlock.amount ≤ info.totalRewards.amount) :
    info.paid.Capped cap where
  produced_nonneg := add_nonneg h.produced_nonneg hpos.le
  produced_le := hle
  total_le := h.total_le
  symbol _ := h.symbol (.inl hpos)

/-- A stream that has produced anything goes on where it stands. -/
theorem reconfigured (h : info.Capped cap) (hcap : cap ≤ Asset.maxAmount)
    (hr : Reconfigured cap info info') :
    info'.Capped cap ∧ info'.producedRewards.amount = info.producedRewards.amount := by
  have hkept : info'.producedRewards.amount = info.producedRewards.amount := by
    by_cases hvalid : info.producedRewards.isValid
    · rw [hr.kept hvalid]
    · rw [hr.started hvalid]
      refine (le_antisymm (not_lt.mp fun hpos => hvalid ?_) h.produced_nonneg).symm
      have hle := h.produced_le.trans h.total_le
      have hnonneg := h.produced_nonneg
      simp only [Asset.isValid, Asset.isAmountWithinRange, Bool.and_eq_true, decide_eq_true_eq]
      exact ⟨⟨by unfold Asset.maxAmount at hcap ⊢; omega, by omega⟩, h.symbol (.inr hpos)⟩
  refine ⟨⟨?_, hr.produced_le, ?_, fun _ => hr.symbol⟩, hkept⟩
  · rw [hkept]
    exact h.produced_nonneg
  · rcases hr.total with ht | ht
    · rw [ht]
      exact h.total_le
    · exact ht.le

end ProducerRewardInfo.Capped

-- ---------------------------------------------------------------------------
-- Steps
-- ---------------------------------------------------------------------------

namespace Issuance

variable {s s' : System} {out : ℤ}

/-- A row of a producer written with another balance. -/
private theorem setProducer (h : Issuance s out) {row : ProducerInfo} {d : ℤ}
    (hrow : row.unclaimedRewards.amount = (s.producer row.owner).unclaimedRewards.amount - d)
    (hnonneg : 0 ≤ row.unclaimedRewards.amount) :
    (∀ p ∈ (s.setProducer row).producers.rows, 0 ≤ p.unclaimedRewards.amount) ∧
      (s.setProducer row).producers.sum (·.unclaimedRewards.amount) =
        s.producers.sum (·.unclaimedRewards.amount) - d := by
  refine ⟨fun p hp => ?_, ?_⟩
  · rcases Table.mem_set.mp hp with rfl | ⟨hp, -⟩
    · exact hnonneg
    · exact h.unclaimed_nonneg p hp
  · rw [s.sum_setProducer row fun _ => rfl, hrow]
    ring

theorem producer_nonneg (h : Issuance s out) (n : Name) :
    0 ≤ (s.producer n).unclaimedRewards.amount := by
  cases hp : s.producers.find? n with
  | none =>
    rw [System.producer_of_none hp]
    exact le_rfl
  | some p =>
    rw [System.producer_of_find? hp]
    exact h.unclaimed_nonneg p (Table.mem_of_find? hp)

private theorem payable_row {info : ProducerRewardInfo} {prod : ProducerInfo} (h : Issuance s out)
    (hp : Payable s info prod) :
    (∀ p ∈ (s.setProducer (prod.paid info.rewardsPerBlock)).producers.rows,
      0 ≤ p.unclaimedRewards.amount) ∧
    (s.setProducer (prod.paid info.rewardsPerBlock)).producers.sum (·.unclaimedRewards.amount) =
      s.producers.sum (·.unclaimedRewards.amount) - -info.rewardsPerBlock.amount := by
  have hnonneg := h.unclaimed_nonneg prod (Table.mem_of_find? hp.found)
  refine h.setProducer ?_ (add_nonneg hnonneg hp.pos.le)
  rw [show (prod.paid info.rewardsPerBlock).owner = prod.owner from rfl,
    System.producer_of_find? hp.found]
  exact (sub_neg_eq_add _ _).symm

theorem blockStep (h : Issuance s out) (hs : BlockStep s s') : Issuance s' out := by
  have hsum := h.sum_eq
  cases hs with
  | rates main_ok backup_ok =>
    obtain ⟨hm, hm'⟩ := h.main.newRate main_ok
    obtain ⟨hb, hb'⟩ := h.backup.newRate backup_ok
    exact ⟨hm, hb, h.unclaimed_nonneg, by simpa only [hm', hb'] using hsum⟩
  | main payable =>
    obtain ⟨hrows, hsum'⟩ := h.payable_row payable
    refine ⟨h.main.paid payable.pos payable.le, h.backup, hrows, ?_⟩
    show Table.sum _ _ + out = _
    rw [hsum']
    simp only [ProducerRewardInfo.paid]
    omega
  | backup payable =>
    obtain ⟨hrows, hsum'⟩ := h.payable_row payable
    refine ⟨h.main, h.backup.paid payable.pos payable.le, hrows, ?_⟩
    show Table.sum _ _ + out = _
    rw [hsum']
    simp only [ProducerRewardInfo.paid]
    omega

/-- Votes are counted in the rows of the producers and leave their balances alone. -/
theorem addVotesList (h : Issuance s out) (ns : List Name) (d : ℤ) :
    Issuance (s.addVotesList ns d) out := by
  induction ns generalizing s with
  | nil => exact h
  | cons n ns ih =>
    refine ih ?_
    have hrow : ((s.producer n).addVotes d).unclaimedRewards.amount =
        (s.producer ((s.producer n).addVotes d).owner).unclaimedRewards.amount - 0 := by
      rw [sub_zero, show ((s.producer n).addVotes d).owner = n from s.producer_owner n]
      rfl
    obtain ⟨hrows, hsum⟩ := h.setProducer hrow (h.producer_nonneg n)
    have := h.sum_eq
    rw [sub_zero] at hsum
    exact ⟨h.main, h.backup, hrows, hsum ▸ this⟩

private theorem revision (h : Issuance s out) {row : ProducerInfo} (hr : Revision s row) :
    Issuance (s.setProducer row) out := by
  have hrow : row.unclaimedRewards.amount =
      (s.producer row.owner).unclaimedRewards.amount - 0 := by rw [sub_zero, hr.unclaimed]
  obtain ⟨hrows, hsum⟩ := h.setProducer hrow (hr.unclaimed ▸ h.producer_nonneg row.owner)
  have := h.sum_eq
  rw [sub_zero] at hsum
  exact ⟨h.main, h.backup, hrows, hsum ▸ this⟩

/-- `d` rewards leave the balance of a producer that has them. -/
private theorem withdraw (h : Issuance s out) {row : ProducerInfo} {d : ℤ}
    (hrow : row.unclaimedRewards.amount = (s.producer row.owner).unclaimedRewards.amount - d)
    (hle : d ≤ (s.producer row.owner).unclaimedRewards.amount) :
    Issuance (s.setProducer row) (out + d) := by
  obtain ⟨hrows, hsum⟩ := h.setProducer hrow (by omega)
  have := h.sum_eq
  refine ⟨h.main, h.backup, hrows, ?_⟩
  rw [hsum]
  show _ = s.electGstate.mainRewardInfo.producedRewards.amount +
    s.electGstate.backupRewardInfo.producedRewards.amount
  omega

/-- An effect takes from the balances what it issues and what it undoes. -/
theorem effect (h : Issuance s out) {a : Action} {sent : List Inline} (he : Effect s a s' sent) :
    Issuance s' (out + (issued sent + a.undone)) := by
  have hcap : totalMainProducerRewards ≤ Asset.maxAmount ∧
      totalBackupProducerRewards ≤ Asset.maxAmount := by decide
  cases he with
  | keep quiet => simpa [issued, quiet] using h
  | register quiet registered revision ext sends =>
    have hzero : issued sent = 0 := by rcases sends with rfl | rfl <;> rfl
    rw [hzero, quiet, add_zero, add_zero]
    exact h.revision revision
  | revise quiet revision ext =>
    rw [quiet, show issued [] = 0 from rfl, add_zero, add_zero]
    exact h.revision revision
  | settings quiet total main backup init =>
    rw [quiet, show issued [] = 0 from rfl, add_zero, add_zero]
    have hsum := h.sum_eq
    rw [← main, ← backup] at hsum
    exact ⟨main ▸ h.main, backup ▸ h.backup, h.unclaimed_nonneg, hsum⟩
  | @configure a gs main backup quiet main_ok backup_ok =>
    rw [quiet, show issued [] = 0 from rfl, add_zero, add_zero]
    have hmain : main.Capped totalMainProducerRewards ∧ main.producedRewards.amount =
        s.electGstate.mainRewardInfo.producedRewards.amount := by
      rcases main_ok with rfl | main_ok
      · exact ⟨h.main, rfl⟩
      · exact h.main.reconfigured hcap.1 main_ok
    obtain ⟨hb, hb'⟩ := h.backup.reconfigured hcap.2 backup_ok
    have hsum := h.sum_eq
    rw [← hmain.2, ← hb'] at hsum
    exact ⟨hmain.1, hb, h.unclaimed_nonneg, hsum⟩
  | block produced =>
    rw [show issued [] = 0 from rfl, show (Action.onblock _).undone = 0 from rfl, add_zero, add_zero]
    exact produceRewards_preserves (P := (Issuance · out)) produced h
      fun _ _ hs hstep => hs.blockStep hstep
  | voter quiet producers revision =>
    rw [quiet, show issued [] = 0 from rfl, add_zero, add_zero]
    exact ⟨h.main, h.backup, h.unclaimed_nonneg, h.sum_eq⟩
  | voteproducer notInit revision =>
    exact ⟨h.main, h.backup, h.unclaimed_nonneg, (add_zero out).symm ▸ h.sum_eq⟩
  | @addvote voter votes q symbol pos staked ext =>
    have hv := h.addVotesList (s.voter voter).producers.names votes.amount
    exact ⟨hv.main, hv.backup, hv.unclaimed_nonneg, (add_zero out).symm ▸ hv.sum_eq⟩
  | @subvote voter votes slot time symbol pos symbol_eq le fresh ext =>
    have hv := h.addVotesList (s.voter voter).producers.names (-votes.amount)
    exact ⟨hv.main, hv.backup, hv.unclaimed_nonneg, (add_zero out).symm ▸ hv.sum_eq⟩
  | @vote voter producers slot nonneg ext =>
    have hv := (h.addVotesList (s.voter voter).producers.names
      (-(s.voter voter).votes.amount)).addVotesList producers.names (s.voter voter).votes.amount
    exact ⟨hv.main, hv.backup, hv.unclaimed_nonneg, (add_zero out).symm ▸ hv.sum_eq⟩
  | refundvote found staked =>
    exact ⟨h.main, h.backup, h.unclaimed_nonneg, (add_zero out).symm ▸ h.sum_eq⟩
  | claimrewards time found pos issued_eq =>
    rw [issued_eq, show (Action.claimrewards _ _).undone = 0 from rfl, add_zero]
    refine h.withdraw ?_ ?_
    · rw [System.producer_of_find? found, sub_self]
    · rw [System.producer_of_find? found]
  | undoreward time found pos le =>
    rw [show issued [] = 0 from rfl, Action.undone, zero_add]
    refine h.withdraw ?_ ?_
    · rw [System.producer_of_find? found]
    · rw [System.producer_of_find? found]
      exact le

theorem perform (h : Issuance s out) {env : Env} {a : Action} {sent : List Inline}
    (hok : Amax.perform env s a = .ok (s', sent)) :
    Issuance s' (out + (issued sent + a.undone)) := by
  obtain ⟨s₁, he, hout⟩ := perform_effect hok
  have := issuance_outside.mpr (h.effect he)
  rw [← hout] at this
  exact issuance_outside.mp this

theorem transact (h : Issuance s out) {tx : Transaction} {sent : List Inline}
    (hok : Amax.transact tx s = .ok (s', sent)) :
    Issuance s' (out + (issued sent + tx.action.undone)) :=
  h.perform (transact_ok_iff.mp hok).1

/-- No balance holds more than the two streams have produced. -/
theorem unclaimed_le (h : Issuance s out) (hout : 0 ≤ out) {p : ProducerInfo}
    (hp : p ∈ s.producers.rows) :
    p.unclaimedRewards.amount ≤ totalMainProducerRewards + totalBackupProducerRewards := by
  have hle : p.unclaimedRewards.amount ≤ s.producers.sum (·.unclaimedRewards.amount) :=
    Table.le_sum_of_mem h.unclaimed_nonneg hp
  have hsum := h.sum_eq
  have hmain := h.main.produced_le.trans h.main.total_le
  have hbackup := h.backup.produced_le.trans h.backup.total_le
  omega

end Issuance

-- ---------------------------------------------------------------------------
-- The share of the voters
-- ---------------------------------------------------------------------------

/-- A share of at most everything is between nothing and everything. -/
theorem multiplyDecimal64_share {amount : ℤ} {ratio : ℕ} (h₀ : 0 ≤ amount)
    (h : amount ≤ totalMainProducerRewards + totalBackupProducerRewards) (hr : ratio ≤ ratioBoost) :
    ∃ share, multiplyDecimal64 amount ratio ratioBoost = .ok share ∧ 0 ≤ share ∧ share ≤ amount := by
  have hratio : (ratio : ℤ) ≤ 10000 := by exact_mod_cast hr
  have hprod₀ : 0 ≤ 10 * amount * ratio := mul_nonneg (by omega) (Int.natCast_nonneg ratio)
  have hprod : 10 * amount * ratio ≤ 10 * amount * 10000 :=
    mul_le_mul_of_nonneg_left hratio (by omega)
  have htmp : (10 * amount * ratio).tdiv ratioBoost = 10 * amount * ratio / 10000 :=
    Int.tdiv_eq_ediv_of_nonneg hprod₀
  have hround : (10 * amount * ratio / 10000 + 5).tdiv 10 = (10 * amount * ratio / 10000 + 5) / 10 :=
    Int.tdiv_eq_ediv_of_nonneg (by omega)
  refine ⟨(10 * amount * ratio / 10000 + 5) / 10, ?_, by omega, by omega⟩
  simp only [multiplyDecimal64, Except.bind_ok_iff, check_ok_iff, exists_const,
    Except.pure_ok_iff, htmp, hround, and_true]
  unfold totalMainProducerRewards totalBackupProducerRewards at h
  unfold int64Max
  constructor <;> omega

theorem claimrewards_avoids_share {s : System} {out : ℤ} (h : Issuance s out) (hout : 0 ≤ out)
    (env : Env) (submitter owner : Name) : Avoids .share (claimrewards env s submitter owner) := by
  unfold claimrewards requireAuth
  refine .check_bind (by decide) fun _ => ?_
  cases hp : s.producers.find? owner with
  | none => exact .error (by decide)
  | some prod =>
    have hmem := Table.mem_of_find? hp
    refine .check_bind (by decide) fun _ => ?_
    cases prod.ext with
    | none => exact .error (by decide)
    | some ext =>
      refine .check_bind (by decide) fun _ => .check_bind (by decide) fun _ =>
        .check_bind (by decide) fun _ => .check_bind (by decide) fun hratio => ?_
      obtain ⟨share, hshare, h₀, hle⟩ := multiplyDecimal64_share (h.unclaimed_nonneg prod hmem)
        (h.unclaimed_le hout hmem) hratio
      rw [hshare]
      refine .bind (.ok share) fun share' hshare' => ?_
      obtain rfl := Except.ok.inj hshare'
      refine .checked_bind ⟨h₀, hle⟩ (.bind ?_ fun _ _ => .ok _)
      unfold sendShared
      by_cases hpos : 0 < share
      · rw [if_pos hpos]
        unfold Asset.make
        exact .bind (.check_bind (by decide) fun _ => .check_bind (by decide) fun _ => .ok _)
          fun _ _ => .ok _
      · rw [if_neg hpos]
        exact .ok _

-- ---------------------------------------------------------------------------
-- Runs
-- ---------------------------------------------------------------------------

/-- A stream that has produced nothing: not configured, or as it is first configured. -/
def ProducerRewardInfo.Unstarted (total : ℤ) (info : ProducerRewardInfo) : Prop :=
  info = {} ∨ ∃ symbol rate, symbol.isValid = true ∧ info = ⟨⟨total, symbol⟩, rate, ⟨0, symbol⟩⟩

/-- Nothing was produced yet, and no producer has rewards to claim. -/
structure RewardsUnstarted (s : System) : Prop where
  main : s.electGstate.mainRewardInfo.Unstarted totalMainProducerRewards
  backup : s.electGstate.backupRewardInfo.Unstarted totalBackupProducerRewards
  unclaimed : ∀ p ∈ s.producers.rows, p.unclaimedRewards.amount = 0

theorem ProducerRewardInfo.Unstarted.capped {total : ℤ} {info : ProducerRewardInfo} (ht : 0 ≤ total)
    (h : info.Unstarted total) : info.Capped total ∧ info.producedRewards.amount = 0 := by
  rcases h with rfl | ⟨symbol, rate, hs, rfl⟩
  · exact ⟨⟨le_rfl, le_rfl, ht, fun h => by simp [Asset.none] at h⟩, rfl⟩
  · exact ⟨⟨le_rfl, ht, le_rfl, fun _ => hs⟩, rfl⟩

theorem RewardsUnstarted.issuance {s : System} (h : RewardsUnstarted s) : Issuance s 0 := by
  obtain ⟨hm, hm'⟩ := h.main.capped (by decide)
  obtain ⟨hb, hb'⟩ := h.backup.capped (by decide)
  refine ⟨hm, hb, fun p hp => (h.unclaimed p hp).ge, ?_⟩
  rw [hm', hb', Table.sum_eq_zero h.unclaimed]

/-- Everything the claims of a run issue. -/
def System.issuedRewards (s : System) (txs : List Transaction) : ℤ :=
  Run.tally transact (fun _ sent => issued sent) s txs

/-- Everything the undos of a run remove. -/
def System.undoneRewards (s : System) (txs : List Transaction) : ℤ :=
  Run.tally transact (fun tx _ => tx.action.undone) s txs

theorem issuance_run {s : System} (h : RewardsUnstarted s) (txs : List Transaction) :
    Issuance (s.final txs) (s.issuedRewards txs + s.undoneRewards txs) := by
  have hstep : ∀ s out (tx : Transaction) s' sent, Issuance s out → True →
      transact tx s = .ok (s', sent) → Issuance s' (out + (issued sent + tx.action.undone)) :=
    fun s out tx s' sent h _ hok => h.transact hok
  have hrun := Run.invariant_tally (P := fun _ _ => True) hstep h.issuance (Run.along_true s txs)
  rwa [zero_add, Run.tally_add] at hrun

theorem Effect.nonneg {s s' : System} {a : Action} {sent : List Inline} (h : Effect s a s' sent) :
    0 ≤ issued sent ∧ 0 ≤ a.undone := by
  cases h with
  | register quiet registered revision ext sends =>
    rcases sends with rfl | rfl <;> exact ⟨le_rfl, quiet.ge⟩
  | claimrewards time found pos issued_eq => exact ⟨issued_eq ▸ pos.le, le_rfl⟩
  | undoreward time found pos le => exact ⟨le_rfl, pos.le⟩
  | keep quiet => exact ⟨le_rfl, quiet.ge⟩
  | revise quiet => exact ⟨le_rfl, quiet.ge⟩
  | settings quiet => exact ⟨le_rfl, quiet.ge⟩
  | configure quiet => exact ⟨le_rfl, quiet.ge⟩
  | voter quiet => exact ⟨le_rfl, quiet.ge⟩
  | block => exact ⟨le_rfl, le_rfl⟩
  | voteproducer => exact ⟨le_rfl, le_rfl⟩
  | addvote => exact ⟨le_rfl, le_rfl⟩
  | subvote => exact ⟨le_rfl, le_rfl⟩
  | vote => exact ⟨le_rfl, le_rfl⟩
  | refundvote => exact ⟨le_rfl, le_rfl⟩

theorem transact_nonneg {tx : Transaction} {s s' : System} {sent : List Inline}
    (h : transact tx s = .ok (s', sent)) : 0 ≤ issued sent ∧ 0 ≤ tx.action.undone := by
  obtain ⟨s₁, he, -⟩ := perform_effect (transact_ok_iff.mp h).1
  exact he.nonneg

/-- In every run each stream stays under its total, and the rewards produced are
those that are unclaimed, issued or undone; so claims never issue more than the
two totals, and the share of the voters in a claim is never out of range. -/
theorem issuance_capped {s : System} (h : RewardsUnstarted s) (txs : List Transaction) :
    let s' := s.final txs
    let main := s'.electGstate.mainRewardInfo
    let backup := s'.electGstate.backupRewardInfo
    main.producedRewards.amount ≤ main.totalRewards.amount ∧
    backup.producedRewards.amount ≤ backup.totalRewards.amount ∧
    s'.producers.sum (·.unclaimedRewards.amount) + s.issuedRewards txs + s.undoneRewards txs =
      main.producedRewards.amount + backup.producedRewards.amount ∧
    s.issuedRewards txs ≤ totalMainProducerRewards + totalBackupProducerRewards ∧
    (∀ env submitter owner, Avoids .share (claimrewards env s' submitter owner)) ∧
    ∀ p ∈ s'.producers.rows, ∀ ratio ≤ ratioBoost, ∃ share,
      multiplyDecimal64 p.unclaimedRewards.amount ratio ratioBoost = .ok share ∧
      0 ≤ share ∧ share ≤ p.unclaimedRewards.amount := by
  intro s' main backup
  have hrun : Issuance s' (s.issuedRewards txs + s.undoneRewards txs) := issuance_run h txs
  have hissued : 0 ≤ s.issuedRewards txs := by
    refine Run.tally_nonneg ?_ s txs
    exact fun s tx s' sent hok => (transact_nonneg hok).1
  have hundone : 0 ≤ s.undoneRewards txs := by
    refine Run.tally_nonneg ?_ s txs
    exact fun s tx s' sent hok => (transact_nonneg hok).2
  have hunclaimed : 0 ≤ s'.producers.sum (·.unclaimedRewards.amount) :=
    Table.sum_nonneg hrun.unclaimed_nonneg
  have hsum := hrun.sum_eq
  have hmain := hrun.main.produced_le.trans hrun.main.total_le
  have hbackup := hrun.backup.produced_le.trans hrun.backup.total_le
  have hout : 0 ≤ s.issuedRewards txs + s.undoneRewards txs := add_nonneg hissued hundone
  refine ⟨hrun.main.produced_le, hrun.backup.produced_le, ?_, ?_,
    fun env submitter owner => claimrewards_avoids_share hrun hout env submitter owner,
    fun p hp ratio hr => multiplyDecimal64_share (hrun.unclaimed_nonneg p hp)
      (hrun.unclaimed_le hout hp) hr⟩
  · rw [add_assoc]
    exact hsum
  · omega

/-- One producer, configured rewards, one block and a claim a day later. -/
theorem issuance_capped_claim :
    let s : System := {
      gstate := { coreSymbol := ⟨['A', 'M', 'A', 'X'], 8⟩, threshActivatedStakeTime := 1 }
      electGstate := { electedVersion := 1 }
      producers := Table.empty.set
        ⟨1, true, 1, ⟨0, ⟨['A', 'M', 'A', 'X'], 8⟩⟩, .none, some {}, true⟩ }
    let at_ (t : TimePoint) : Env := { now := t, hasAuth := fun _ => true }
    let txs : List Transaction := [
      ⟨at_ 1, .cfgreward 1 (seconds 1000000) ⟨7, ⟨['A', 'M', 'A', 'X'], 8⟩⟩
        ⟨0, ⟨['A', 'M', 'A', 'X'], 8⟩⟩⟩,
      ⟨at_ 2, .onblock { timestamp := 0, producer := 1 }⟩,
      ⟨at_ (seconds 90000), .claimrewards 1 1⟩]
    s.issuedRewards txs = 7 ∧
      s.issuedRewards txs ≤ totalMainProducerRewards + totalBackupProducerRewards := by
  intro s at_ txs
  have hstart : RewardsUnstarted s :=
    ⟨.inl rfl, .inl rfl, fun p hp => by rw [List.mem_singleton.mp hp]⟩
  exact ⟨by decide +kernel, (issuance_capped hstart txs).2.2.2.1⟩

end Amax
