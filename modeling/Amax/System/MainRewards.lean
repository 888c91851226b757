-- SUMMARY: Main rewards never dry up: a period pays out at most half of what is left when it begins.
import Amax.System.MainStream
import Mathlib.Data.List.Infix

/-! # Main rewards

The rate of the initial phase is capped, and every later halving period gets the
rate that would pay out half of what is left if the period had all of its blocks.
With no more blocks than that, no block finds the stream empty. -/

namespace Amax

-- ---------------------------------------------------------------------------
-- Rates
-- ---------------------------------------------------------------------------

theorem rewardHalvingPeriodBlocks_pos : 0 < rewardHalvingPeriodBlocks := by decide

section Rate

variable {x y : ℤ}

theorem halvingRewardsPerBlock_eq (hx : 0 ≤ x) :
    halvingRewardsPerBlock x = x / 2 / rewardHalvingPeriodBlocks := by
  have hhalf : 0 ≤ x / 2 := by omega
  rw [halvingRewardsPerBlock, Int.tdiv_eq_ediv_of_nonneg hx, Int.tdiv_eq_ediv_of_nonneg hhalf]

theorem halvingRewardsPerBlock_nonneg (hx : 0 ≤ x) : 0 ≤ halvingRewardsPerBlock x := by
  rw [halvingRewardsPerBlock_eq hx]
  exact Int.ediv_nonneg (by omega) rewardHalvingPeriodBlocks_pos.le

theorem halvingRewardsPerBlock_mono (hx : 0 ≤ x) (hxy : x ≤ y) :
    halvingRewardsPerBlock x ≤ halvingRewardsPerBlock y := by
  rw [halvingRewardsPerBlock_eq hx, halvingRewardsPerBlock_eq (hx.trans hxy)]
  exact Int.ediv_le_ediv rewardHalvingPeriodBlocks_pos (by omega)

/-- The blocks of a period pay out at most half of what its rate was computed from. -/
theorem mul_halvingRewardsPerBlock_le (hx : 0 ≤ x) (blocks : ℤ)
    (hb : blocks ≤ rewardHalvingPeriodBlocks) : 2 * (blocks * halvingRewardsPerBlock x) ≤ x := by
  have hrate := halvingRewardsPerBlock_nonneg hx
  have hfull : rewardHalvingPeriodBlocks * halvingRewardsPerBlock x ≤ x / 2 := by
    rw [halvingRewardsPerBlock_eq hx]
    exact Int.mul_ediv_self_le rewardHalvingPeriodBlocks_pos.ne'
  have hsome : blocks * halvingRewardsPerBlock x ≤
      rewardHalvingPeriodBlocks * halvingRewardsPerBlock x :=
    mul_le_mul_of_nonneg_right hb hrate
  omega

/-- One more block than a period has is still covered. -/
theorem rate_le_of_half (hx : 0 ≤ x) : 2 * halvingRewardsPerBlock x ≤ x := by
  simpa using mul_halvingRewardsPerBlock_le hx 1 (by decide)

end Rate

-- ---------------------------------------------------------------------------
-- Periods
-- ---------------------------------------------------------------------------

/-- The halving period a run is in. -/
structure HalvingPeriod where
  /-- The main rewards produced before the period. -/
  produced : ℤ := 0
  /-- The blocks of the period that were rewarded. -/
  blocks : ℕ := 0
  /-- The periods with blocks since the initial phase, this one included. -/
  number : ℕ := 0

/-- The period after an action that led from `s` to `s'`. -/
def HalvingPeriod.next (p : HalvingPeriod) (s s' : System) : HalvingPeriod :=
  let before := s.electGstate.mainRewardInfo.producedRewards.amount
  let rewarded := if s'.electGstate.mainRewardInfo.producedRewards.amount = before then 0 else 1
  if s'.electGstate.halvingPeriodNum = s.electGstate.halvingPeriodNum then
    { p with blocks := p.blocks + rewarded }
  else { produced := before, blocks := rewarded, number := p.number + 1 }

/-- The period a run from `s` has come to. -/
def System.halvingPeriod (s : System) (txs : List Transaction) : HalvingPeriod :=
  Run.observed transact HalvingPeriod.next {} s txs

/-- The main rewards not produced before the period. -/
def HalvingPeriod.budget (p : HalvingPeriod) : ℤ := totalMainProducerRewards - p.produced

theorem HalvingPeriod.next_self (p : HalvingPeriod) (s : System) : p.next s s = p := by
  simp [HalvingPeriod.next]

/-- The stream `info` in the period `p` with the number `num`. -/
structure Lasts (info : ProducerRewardInfo) (num : ℤ) (p : HalvingPeriod) : Prop where
  configured : info = {} ∧ num = 0 ∨
    info.totalRewards.amount = totalMainProducerRewards ∧ info.producedRewards.isValid
  num_nonneg : 0 ≤ num
  initial : num = 0 → p.number = 0 ∧ p.produced = 0
  rate_nonneg : 0 ≤ info.rewardsPerBlock.amount
  rate_le : info.rewardsPerBlock.amount ≤ halvingRewardsPerBlock p.budget
  /-- The rate of a period after the initial phase. -/
  rate_eq : num ≠ 0 → info.rewardsPerBlock.amount = halvingRewardsPerBlock p.budget
  produced_ge : p.produced ≤ info.producedRewards.amount
  produced_le : info.producedRewards.amount ≤
    p.produced + p.blocks * halvingRewardsPerBlock p.budget
  remains : totalMainProducerRewards ≤ p.budget * 2 ^ p.number

namespace Lasts

variable {info info' : ProducerRewardInfo} {num num' : ℤ} {p : HalvingPeriod} {s s' : System}

theorem budget_pos (h : Lasts info num p) : 0 < p.budget := by
  have htotal : 0 < totalMainProducerRewards := by decide
  exact pos_of_mul_pos_left (htotal.trans_le h.remains) (by positivity)

/-- The period has paid out at most half of its budget. -/
theorem half (h : Lasts info num p) (hb : (p.blocks : ℤ) ≤ rewardHalvingPeriodBlocks) :
    2 * (info.producedRewards.amount - p.produced) ≤ p.budget := by
  have hspent := mul_halvingRewardsPerBlock_le h.budget_pos.le _ hb
  have := h.produced_le
  omega

/-- What is left after the period. -/
theorem left (h : Lasts info num p) (hb : (p.blocks : ℤ) ≤ rewardHalvingPeriodBlocks) :
    totalMainProducerRewards ≤
      (totalMainProducerRewards - info.producedRewards.amount) * 2 ^ (p.number + 1) := by
  have hhalf := h.half hb
  have hle : p.budget ≤ (totalMainProducerRewards - info.producedRewards.amount) * 2 := by
    unfold HalvingPeriod.budget at hhalf ⊢
    omega
  calc totalMainProducerRewards ≤ p.budget * 2 ^ p.number := h.remains
    _ ≤ (totalMainProducerRewards - info.producedRewards.amount) * 2 * 2 ^ p.number :=
      mul_le_mul_of_nonneg_right hle (by positivity)
    _ = _ := by rw [pow_succ, mul_assoc, mul_comm 2]

/-- The stream still holds the reward of one more block. -/
theorem covers (h : Lasts info num p) (hb : (p.blocks : ℤ) ≤ rewardHalvingPeriodBlocks) :
    info.producedRewards.amount + info.rewardsPerBlock.amount ≤ totalMainProducerRewards := by
  have hhalf := h.half hb
  have hrate := rate_le_of_half h.budget_pos.le
  have hle := h.rate_le
  unfold HalvingPeriod.budget at *
  omega

theorem empty : Lasts {} 0 {} where
  configured := .inl ⟨rfl, rfl⟩
  num_nonneg := le_rfl
  initial _ := ⟨rfl, rfl⟩
  rate_nonneg := le_rfl
  rate_le := halvingRewardsPerBlock_nonneg (by decide)
  rate_eq h := absurd rfl h
  produced_ge := le_rfl
  produced_le := by simp [Asset.none]
  remains := by decide

/-- A new period begins with what is left. -/
theorem halves (h : Lasts s.electGstate.mainRewardInfo s.electGstate.halvingPeriodNum p)
    (hb : (p.blocks : ℤ) ≤ rewardHalvingPeriodBlocks) (hh : Halves s info num) :
    Lasts info num (if num = s.electGstate.halvingPeriodNum then p else
      ⟨s.electGstate.mainRewardInfo.producedRewards.amount, 0, p.number + 1⟩) := by
  cases hh with
  | same info_eq num_eq =>
    subst info_eq num_eq
    rwa [if_pos rfl]
  | new num_lt num_pos symbol info_eq =>
    rw [if_neg num_lt.ne']
    have hconfigured := h.configured.resolve_left fun ⟨hempty, _⟩ => by
      rw [hempty] at symbol
      exact absurd symbol (by decide)
    have hleft := h.left hb
    have hnonneg : 0 ≤ totalMainProducerRewards -
        s.electGstate.mainRewardInfo.producedRewards.amount := by
      have hhalf := h.half hb
      have hbudget := h.budget_pos
      unfold HalvingPeriod.budget at hhalf hbudget
      omega
    subst info_eq
    refine ⟨.inr hconfigured, num_pos.le, fun hzero => absurd hzero num_pos.ne', ?_, ?_,
      fun _ => ?_, le_rfl, ?_, hleft⟩
    · rw [hconfigured.1]
      exact halvingRewardsPerBlock_nonneg hnonneg
    · rw [hconfigured.1]
      exact le_rfl
    · rw [hconfigured.1]
      rfl
    · simp

/-- A block is rewarded. -/
theorem paid (h : Lasts info num p) (hpos : 0 < info.rewardsPerBlock.amount)
    (hle : info.producedRewards.amount + info.rewardsPerBlock.amount ≤ info.totalRewards.amount) :
    Lasts info.paid num { p with blocks := p.blocks + 1 } := by
  have hconfigured := h.configured.resolve_left fun ⟨hempty, _⟩ => by
    rw [hempty] at hpos
    exact absurd hpos (lt_irrefl 0)
  obtain ⟨htotal, hvalid⟩ := hconfigured
  have hproduced := h.produced_ge
  have hspent := h.produced_le
  refine ⟨.inr ⟨htotal, ?_⟩, h.num_nonneg, h.initial, h.rate_nonneg, h.rate_le, h.rate_eq, ?_, ?_,
    h.remains⟩
  · have hcap : totalMainProducerRewards ≤ Asset.maxAmount := by decide
    simp only [Asset.isValid, Asset.isAmountWithinRange, Bool.and_eq_true,
      decide_eq_true_eq] at hvalid ⊢
    obtain ⟨hrange, hsymbol⟩ := hvalid
    refine ⟨?_, hsymbol⟩
    simp only [ProducerRewardInfo.paid]
    omega
  · simp only [ProducerRewardInfo.paid]
    omega
  · have hrate := h.rate_le
    simp only [ProducerRewardInfo.paid, HalvingPeriod.budget, Nat.cast_add, Nat.cast_one, add_mul,
      one_mul] at hspent hrate ⊢
    omega

/-- `cfgreward` in the initial phase changes the rate only. -/
theorem configure (h : Lasts info 0 p) (hnonneg : 0 ≤ info'.rewardsPerBlock.amount)
    (hle : info'.rewardsPerBlock.amount ≤ halvingRewardsPerBlock totalMainProducerRewards)
    (htotal : info'.totalRewards.amount = totalMainProducerRewards)
    (hvalid : info'.producedRewards.isValid)
    (hsame : info'.producedRewards.amount = info.producedRewards.amount) : Lasts info' 0 p := by
  have hbudget : p.budget = totalMainProducerRewards := by
    rw [HalvingPeriod.budget, (h.initial rfl).2, sub_zero]
  refine ⟨.inr ⟨htotal, hvalid⟩, le_rfl, h.initial, hnonneg, hbudget ▸ hle,
    fun hzero => absurd rfl hzero, ?_, ?_, h.remains⟩
  · rw [hsame]
    exact h.produced_ge
  · rw [hsame]
    exact h.produced_le

/-- A stream that is configured again has produced what it had. -/
theorem produced_kept (h : Lasts info num p)
    (hkept : info.producedRewards.isValid → info'.producedRewards = info.producedRewards)
    (hstarted : ¬info.producedRewards.isValid → info'.producedRewards.amount = 0) :
    info'.producedRewards.amount = info.producedRewards.amount := by
  rcases h.configured with ⟨rfl, -⟩ | ⟨-, hvalid⟩
  · exact hstarted (by decide)
  · rw [hkept hvalid]

end Lasts

-- ---------------------------------------------------------------------------
-- Runs
-- ---------------------------------------------------------------------------

/-- `cfgreward` is called in the initial phase only. -/
def ConfiguresEarly (s : System) (tx : Transaction) : Prop :=
  match tx.action with
  | .cfgreward .. => s.electGstate.halvingPeriodNum = 0
  | _ => True

instance (s : System) (tx : Transaction) : Decidable (ConfiguresEarly s tx) :=
  decidable_of_bool (match tx.action with
    | .cfgreward .. => decide (s.electGstate.halvingPeriodNum = 0)
    | _ => true) (by obtain ⟨env, action⟩ := tx; cases action <;> simp [ConfiguresEarly])

/-- The period has no more blocks than it can reward. -/
def HalvingPeriod.Within (p : HalvingPeriod) : Prop := (p.blocks : ℤ) ≤ rewardHalvingPeriodBlocks

instance (p : HalvingPeriod) : Decidable p.Within := inferInstanceAs (Decidable (_ ≤ _))

/-- The main stream of `s` lasts in the period `p`. -/
def System.Lasts (s : System) (p : HalvingPeriod) : Prop :=
  Amax.Lasts s.electGstate.mainRewardInfo s.electGstate.halvingPeriodNum p

section Runs

variable {s s' : System} {p : HalvingPeriod} {tx : Transaction} {sent : List Inline}
  {txs : List Transaction}

private theorem HalvingPeriod.next_rewarded {info : ProducerRewardInfo} {num : ℤ}
    (hs : s'.mainStream = (info.paid, num)) (hpos : 0 < info.rewardsPerBlock.amount)
    (hinfo : info.producedRewards = s.electGstate.mainRewardInfo.producedRewards) :
    p.next s s' =
      if num = s.electGstate.halvingPeriodNum then { p with blocks := p.blocks + 1 }
      else ⟨s.electGstate.mainRewardInfo.producedRewards.amount, 1, p.number + 1⟩ := by
  obtain ⟨hmain, hnum⟩ := Prod.mk.inj hs
  have hne : ¬ info.producedRewards.amount + info.rewardsPerBlock.amount =
      info.producedRewards.amount := by omega
  simp only [HalvingPeriod.next, hmain, hnum, ProducerRewardInfo.paid, ← hinfo, if_neg hne]

private theorem HalvingPeriod.next_unrewarded {info : ProducerRewardInfo} {num : ℤ}
    (hs : s'.mainStream = (info, num))
    (hinfo : info.producedRewards.amount = s.electGstate.mainRewardInfo.producedRewards.amount) :
    p.next s s' = if num = s.electGstate.halvingPeriodNum then p else
      ⟨s.electGstate.mainRewardInfo.producedRewards.amount, 0, p.number + 1⟩ := by
  obtain ⟨hmain, hnum⟩ := Prod.mk.inj hs
  simp only [HalvingPeriod.next, hmain, hnum, hinfo, if_true, add_zero]

theorem Halves.produced {info : ProducerRewardInfo} {num : ℤ} (h : Halves s info num) :
    info.producedRewards = s.electGstate.mainRewardInfo.producedRewards := by
  cases h with
  | same info_eq => rw [info_eq]
  | new _ _ _ info_eq => rw [info_eq]

theorem System.Lasts.step (h : s.Lasts p) (hb : p.Within) (hc : ConfiguresEarly s tx)
    (hok : transact tx s = .ok (s', sent)) : s'.Lasts (p.next s s') := by
  have hstep := transact_main hok
  unfold ConfiguresEarly at hc
  generalize tx.action = a at hstep hc
  cases hstep with
  | rest same =>
    rw [HalvingPeriod.next_unrewarded same rfl, if_pos rfl]
    obtain ⟨hmain, hnum⟩ := Prod.mk.inj same
    rwa [System.Lasts, hmain, hnum]
  | configure rate_nonneg rate_le rate total valid kept started num =>
    have hsame := Amax.Lasts.produced_kept h kept started
    rw [HalvingPeriod.next_unrewarded rfl hsame, if_pos num]
    rw [System.Lasts, hc] at h
    rw [System.Lasts, num, hc]
    exact h.configure (rate ▸ rate_nonneg) (rate ▸ rate_le) total valid hsame
  | block halves pays =>
    have hhalves := Amax.Lasts.halves h hb halves
    rcases pays with hstream | ⟨hpos, hle, hstream⟩
    · rw [HalvingPeriod.next_unrewarded hstream (congrArg Asset.amount halves.produced)]
      obtain ⟨hmain, hnum⟩ := Prod.mk.inj hstream
      rwa [System.Lasts, hmain, hnum]
    · rw [HalvingPeriod.next_rewarded hstream hpos halves.produced]
      obtain ⟨hmain, hnum⟩ := Prod.mk.inj hstream
      rw [System.Lasts, hmain, hnum]
      split_ifs at hhalves ⊢ with hsame
      · exact hhalves.paid hpos hle
      · exact hhalves.paid hpos hle

/-- After the initial phase no action raises the rate. -/
theorem System.Lasts.rate_le (h : s.Lasts p) (hb : p.Within)
    (hnum : s.electGstate.halvingPeriodNum ≠ 0) (hc : ConfiguresEarly s tx)
    (hok : transact tx s = .ok (s', sent)) :
    s'.electGstate.halvingPeriodNum ≠ 0 ∧ s'.electGstate.mainRewardInfo.rewardsPerBlock.amount ≤
      s.electGstate.mainRewardInfo.rewardsPerBlock.amount := by
  have hstep := transact_main hok
  unfold ConfiguresEarly at hc
  generalize tx.action = a at hstep hc
  cases hstep with
  | rest same =>
    obtain ⟨hmain, hnum'⟩ := Prod.mk.inj same
    rw [hmain, hnum']
    exact ⟨hnum, le_rfl⟩
  | configure => exact absurd hc hnum
  | @block bh s' info num halves pays =>
    have hrate : num ≠ 0 ∧ info.rewardsPerBlock.amount ≤
        s.electGstate.mainRewardInfo.rewardsPerBlock.amount := by
      have hhalves := Amax.Lasts.halves h hb halves
      cases halves with
      | same info_eq num_eq =>
        rw [info_eq, num_eq]
        exact ⟨hnum, le_rfl⟩
      | new num_lt num_pos symbol info_eq =>
        rw [if_neg num_lt.ne'] at hhalves
        refine ⟨num_pos.ne', ?_⟩
        rw [hhalves.rate_eq num_pos.ne', Amax.Lasts.rate_eq h hnum]
        refine halvingRewardsPerBlock_mono hhalves.budget_pos.le ?_
        exact sub_le_sub_left (Amax.Lasts.produced_ge h) _
    rcases pays with hstream | ⟨-, -, hstream⟩
    · obtain ⟨hmain, hnum'⟩ := Prod.mk.inj hstream
      rw [hmain, hnum']
      exact hrate
    · obtain ⟨hmain, hnum'⟩ := Prod.mk.inj hstream
      rw [hmain, hnum']
      exact hrate

theorem lasts_run (hempty : s.electGstate.mainRewardInfo = {})
    (hnum : s.electGstate.halvingPeriodNum = 0) (hearly : Run.Along transact ConfiguresEarly s txs)
    (hblocks : ∀ pre, pre <+: txs → (s.halvingPeriod pre).Within) :
    (s.final txs).Lasts (s.halvingPeriod txs) := by
  have hstart : s.Lasts {} := by
    rw [System.Lasts, hempty, hnum]
    exact .empty
  exact Run.invariant_observed (I := System.Lasts) (Q := HalvingPeriod.Within)
    HalvingPeriod.next_self (fun s p tx s' sent h hb hc hok => h.step hb hc hok) hstart hearly
    hblocks

/-- From a state after the initial phase on, no run raises the rate. -/
theorem rate_run (h : s.Lasts p) (hnum : s.electGstate.halvingPeriodNum ≠ 0)
    (hearly : Run.Along transact ConfiguresEarly s txs)
    (hblocks : ∀ pre, pre <+: txs →
      (Run.observed transact HalvingPeriod.next p s pre).Within) :
    (s.final txs).electGstate.mainRewardInfo.rewardsPerBlock.amount ≤
      s.electGstate.mainRewardInfo.rewardsPerBlock.amount := by
  have hrun := Run.invariant_observed (Q := HalvingPeriod.Within) (I := fun t q => t.Lasts q ∧
      t.electGstate.halvingPeriodNum ≠ 0 ∧ t.electGstate.mainRewardInfo.rewardsPerBlock.amount ≤
        s.electGstate.mainRewardInfo.rewardsPerBlock.amount)
    HalvingPeriod.next_self (fun t q tx t' sent ⟨hl, hn, hle⟩ hb hc hok => by
      obtain ⟨hn', hle'⟩ := hl.rate_le hb hn hc hok
      exact ⟨hl.step hb hc hok, hn', hle'.trans hle⟩)
    ⟨h, hnum, le_rfl⟩ hearly hblocks
  exact hrun.2.2

/-- A stream that lasts has the reward of the block a halving period may begin with. -/
theorem System.Lasts.covers (h : s.Lasts p) (hb : p.Within) {info : ProducerRewardInfo} {num : ℤ}
    (hh : Halves s info num) : info.producedRewards.amount + info.rewardsPerBlock.amount ≤
      info.totalRewards.amount := by
  have hhalves := Amax.Lasts.halves h hb hh
  rcases hhalves.configured with ⟨rfl, -⟩ | ⟨htotal, -⟩
  · exact le_rfl
  · rw [htotal]
    refine Amax.Lasts.covers hhalves ?_
    split_ifs
    · exact hb
    · exact rewardHalvingPeriodBlocks_pos.le

end Runs

/-- If no period rewards more blocks than it has, each pays out at most half of what was left
when it began. After `n` periods with blocks a share of `1 / 2 ^ (n + 1)` is left, the rates of
later periods never grow, and no block finds less than its reward. -/
theorem main_rewards_last {s : System} (hempty : s.electGstate.mainRewardInfo = {})
    (hnum : s.electGstate.halvingPeriodNum = 0) {txs : List Transaction}
    (hearly : Run.Along transact ConfiguresEarly s txs)
    (hblocks : ∀ pre, pre <+: txs → (s.halvingPeriod pre).Within) :
    let s' := s.final txs
    let main := s'.electGstate.mainRewardInfo
    let p := s.halvingPeriod txs
    2 * (main.producedRewards.amount - p.produced) ≤ main.totalRewards.amount - p.produced ∧
    main.totalRewards.amount ≤
      (main.totalRewards.amount - main.producedRewards.amount) * 2 ^ (p.number + 1) ∧
    (∀ pre, pre <+: txs → (s.final pre).electGstate.halvingPeriodNum ≠ 0 →
      main.rewardsPerBlock.amount ≤
        (s.final pre).electGstate.mainRewardInfo.rewardsPerBlock.amount) ∧
    ∀ env, Ensures (halve env s') fun g =>
      g.mainRewardInfo.producedRewards.amount + g.mainRewardInfo.rewardsPerBlock.amount ≤
        g.mainRewardInfo.totalRewards.amount := by
  intro s' main p
  have hlasts : s'.Lasts p := lasts_run hempty hnum hearly hblocks
  have hwithin : p.Within := hblocks txs (List.prefix_refl txs)
  refine ⟨?_, ?_, ?_, fun env g hg => hlasts.covers hwithin (halve_main g hg)⟩
  · rcases hlasts.configured with ⟨hmain, hzero⟩ | ⟨htotal, -⟩
    · have hproduced := (hlasts.initial hzero).2
      rw [show main = {} from hmain, hproduced]
      exact le_rfl
    · rw [show main.totalRewards.amount = totalMainProducerRewards from htotal]
      exact Amax.Lasts.half hlasts hwithin
  · rcases hlasts.configured with ⟨hmain, -⟩ | ⟨htotal, -⟩
    · rw [show main = {} from hmain]
      simp [Asset.none]
    · rw [show main.totalRewards.amount = totalMainProducerRewards from htotal]
      exact Amax.Lasts.left hlasts hwithin
  · rintro pre ⟨post, rfl⟩ hpre
    obtain ⟨hearly₁, hearly₂⟩ := Run.along_append.mp hearly
    have hlasts₁ : (s.final pre).Lasts (s.halvingPeriod pre) :=
      lasts_run hempty hnum hearly₁ fun l hl => hblocks l (hl.trans (List.prefix_append pre post))
    have hrate := rate_run hlasts₁ hpre hearly₂ fun l hl => by
      have hwithin := hblocks (pre ++ l) ((List.prefix_append_right_inj pre).mpr hl)
      rwa [System.halvingPeriod, Run.observed_append] at hwithin
    have hfinal : s' = (s.final pre).final post := Run.final_append _ _ _
    rwa [← hfinal] at hrate

/-- A chain with one producer and no rewards yet. -/
def unpaidChain : System where
  gstate := { coreSymbol := ⟨['A', 'M', 'A', 'X'], 8⟩, threshActivatedStakeTime := 1 }
  electGstate := { electedVersion := 1 }
  producers := Table.empty.set
    ⟨1, true, 1, ⟨0, ⟨['A', 'M', 'A', 'X'], 8⟩⟩, .none, some {}, true⟩

/-- A rate for the initial phase and another, a block in it, one in the first period and two in
the fourth. -/
def fourPeriods : List Transaction :=
  let rewards (amount : ℤ) : Asset := ⟨amount, ⟨['A', 'M', 'A', 'X'], 8⟩⟩
  let at_ (time : ℕ) (a : Action) : Transaction :=
    ⟨{ now := seconds time, hasAuth := fun _ => true }, a⟩
  [at_ 1 (.cfgreward (seconds 10) (seconds 20) (rewards 7) (rewards 0)),
    at_ 10 (.onblock { timestamp := 0, producer := 1 }),
    at_ 15 (.cfgreward (seconds 10) (seconds 30) (rewards 7000000) (rewards 0)),
    at_ 40 (.onblock { timestamp := 0, producer := 1 }),
    at_ 480000000 (.onblock { timestamp := 0, producer := 1 }),
    at_ 480000001 (.onblock { timestamp := 0, producer := 1 })]

theorem main_rewards_last_fourth :
    let main := (unpaidChain.final fourPeriods).electGstate.mainRewardInfo
    (unpaidChain.halvingPeriod fourPeriods).number = 2 ∧
      (unpaidChain.halvingPeriod fourPeriods).blocks = 2 ∧
      main.totalRewards.amount ≤
        (main.totalRewards.amount - main.producedRewards.amount) * 2 ^ (2 + 1) := by
  intro main
  have hwithin : ∀ pre ∈ fourPeriods.inits, (unpaidChain.halvingPeriod pre).Within := by
    decide +kernel
  have hearly : Run.Along transact ConfiguresEarly unpaidChain fourPeriods := by decide +kernel
  have hlast := main_rewards_last rfl rfl hearly
    fun pre hpre => hwithin pre ((List.mem_inits pre fourPeriods).mpr hpre)
  have hnumber : (unpaidChain.halvingPeriod fourPeriods).number = 2 := by decide +kernel
  exact ⟨hnumber, by decide +kernel, hnumber ▸ hlast.2.1⟩

end Amax
