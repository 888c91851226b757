-- SUMMARY: What the contracts owe is paid: no payout fails because the account that pays it has too few tokens.
import Amax.Chain.Custody
import Amax.Reward.Solvency
import Amax.Reward.Withdrawal

/-! # Payouts

A payout is an action of one contract and a transfer by another, which undoes
the action when it fails. The transfer finds the tokens because nothing that is
owed to others is negative, so that what one account is owed is no more than
all that is owed. -/

namespace Amax

-- ---------------------------------------------------------------------------
-- Nothing negative
-- ---------------------------------------------------------------------------

/-- Nothing that is owed is negative, and no refund is empty. -/
structure World.NonNegative (w : World) : Prop where
  votes : ∀ v ∈ w.system.voters.rows, 0 ≤ v.votes.amount
  delbands : ∀ d ∈ w.bandwidth.delbands.rows, 0 ≤ d.netWeight.amount ∧ 0 ≤ d.cpuWeight.amount
  refunds : ∀ r ∈ w.bandwidth.refunds.rows, 0 < r.owed
  ram : 0 ≤ w.ram.totalRamStake
  rewards : Reward.Ranged w.reward

section System

variable {env : Env} {s s' : System} {a : Action} {sent : List Inline}

private theorem voter_votes_nonneg (h : ∀ v ∈ s.voters.rows, 0 ≤ v.votes.amount) (n : Name) :
    0 ≤ (s.voter n).votes.amount ∧ 0 ≤ (s.voter n).withVoteSymbol.votes.amount := by
  have hrow : 0 ≤ (s.voter n).votes.amount := by
    cases hv : s.voters.find? n with
    | none => rw [System.voter_of_none hv]
    | some v =>
      rw [System.voter_of_find? hv]
      exact h v (Table.mem_of_find? hv)
  refine ⟨hrow, ?_⟩
  unfold VoterInfo.withVoteSymbol
  split_ifs
  · exact le_rfl
  · exact hrow

private theorem setVoter_votes_nonneg (h : ∀ v ∈ s.voters.rows, 0 ≤ v.votes.amount) {v : VoterInfo}
    (hv : 0 ≤ v.votes.amount) : ∀ w ∈ (s.voters.set v).rows, 0 ≤ w.votes.amount := by
  intro w hw
  rcases Table.mem_set.mp hw with rfl | ⟨hw, -⟩
  · exact hv
  · exact h w hw

theorem Effect.votes_nonneg (h : Effect s a s' sent)
    (hs : ∀ v ∈ s.voters.rows, 0 ≤ v.votes.amount) : ∀ v ∈ s'.voters.rows, 0 ≤ v.votes.amount := by
  have hrevision : ∀ v : VoterInfo, VoterRevision s v → 0 ≤ v.votes.amount := by
    intro v hv
    obtain ⟨hrow, hsymbol⟩ := voter_votes_nonneg hs v.owner
    rcases hv with hv | hv
    · rw [hv]
      exact hrow
    · rw [hv]
      exact hsymbol
  cases h with
  | keep | register | revise | settings | configure | refundvote | claimrewards | undoreward =>
    exact hs
  | block produced =>
    refine produceRewards_preserves (P := fun t => ∀ v ∈ t.voters.rows, 0 ≤ v.votes.amount)
      produced hs fun _ _ hs hstep => ?_
    cases hstep <;> exact hs
  | voter quiet producers revision => exact setVoter_votes_nonneg hs (hrevision _ revision)
  | voteproducer notInit revision => exact setVoter_votes_nonneg hs (hrevision _ revision)
  | @addvote voter votes q symbol pos =>
    have hrow := (voter_votes_nonneg hs voter).2
    exact setVoter_votes_nonneg hs (add_nonneg hrow pos.le)
  | subvote slot time symbol pos symbol_eq le => exact setVoter_votes_nonneg hs (sub_nonneg.mpr le)
  | vote => exact setVoter_votes_nonneg hs (voter_votes_nonneg hs _).2

theorem perform_votes_nonneg (hs : ∀ v ∈ s.voters.rows, 0 ≤ v.votes.amount)
    (hok : perform env s a = .ok (s', sent)) : ∀ v ∈ s'.voters.rows, 0 ≤ v.votes.amount := by
  obtain ⟨s₁, heffect, hout⟩ := perform_effect hok
  have hvoters : s'.voters = s₁.voters := (congrArg System.voters hout :)
  rw [hvoters]
  exact heffect.votes_nonneg hs

end System

namespace Bandwidth

variable {env : Env} {b b' : Bandwidth} {sender receiver : Name} {net cpu : Asset}
  {sent : List Sent}

/-- A refund that is created or changed is not empty. -/
theorem updateRefund_pos {now : TimePoint} {core : Symbol} {t t' : Refunds} {net' cpu' : Asset}
    {pending : Bool} (ht : ∀ r ∈ t.rows, 0 < r.owed)
    (h : updateRefund now core t sender net cpu = .ok (t', net', cpu', pending)) :
    ∀ r ∈ t'.rows, 0 < r.owed := by
  unfold updateRefund at h
  cases hfind : t.find? sender with
  | some req =>
    simp only [hfind, Except.bind_ok_iff, check_ok_iff, exists_const, Prod.exists] at h
    obtain ⟨netAmount, _, -, cpuAmount, _, -, hn, hc, h⟩ := h
    by_cases hempty : netAmount.amount = 0 ∧ cpuAmount.amount = 0
    · simp only [if_pos hempty, Except.pure_ok_iff, Prod.mk.injEq] at h
      rw [← h.1]
      exact fun r hr => ht r (Table.mem_erase.mp hr).1
    · simp only [if_neg hempty, Except.pure_ok_iff, Prod.mk.injEq] at h
      rw [← h.1]
      intro r hr
      rcases Table.mem_set.mp hr with rfl | ⟨hr, -⟩
      · simp only [RefundRequest.owed]
        omega
      · exact ht r hr
  | none =>
    simp only [hfind] at h
    split_ifs at h with hneg
    · simp only [Except.bind_ok_iff, Except.pure_ok_iff, Prod.exists, Prod.mk.injEq] at h
      obtain ⟨-, -, netAmount, _, hn, cpuAmount, _, hc, rfl, -⟩ := h
      have hnew : ∀ {balance amount rest : Asset}, newRefund balance core = .ok (amount, rest) →
          amount.amount = if balance.amount < 0 then -balance.amount else 0 := by
        intro balance amount rest h
        unfold newRefund at h
        split_ifs at h ⊢
        · rw [← (Prod.mk.inj (Except.pure_ok_iff.mp h)).1]
          rfl
        · simp only [Except.bind_ok_iff, Asset.make_ok_iff, Except.pure_ok_iff,
            Prod.mk.injEq] at h
          obtain ⟨_, ⟨-, -, rfl⟩, rfl, -⟩ := h
          rfl
      intro r hr
      rcases Table.mem_set.mp hr with rfl | ⟨hr, -⟩
      · simp only [RefundRequest.owed, hnew hn, hnew hc]
        split_ifs <;> omega
      · exact ht r hr
    · rw [← (Prod.mk.inj (Except.pure_ok_iff.mp h)).1]
      exact ht

theorem moveStake_pos {source : Name} {transfer : Bool} {t' : Refunds}
    (ht : ∀ r ∈ b.refunds.rows, 0 < r.owed)
    (h : moveStake env b source sender receiver net cpu transfer = .ok (t', sent)) :
    ∀ r ∈ t'.rows, 0 < r.owed := by
  unfold moveStake at h
  split_ifs at h
  · simp only [Except.bind_ok_iff, Except.pure_ok_iff, Prod.mk.injEq] at h
    obtain ⟨_, -, rfl, -⟩ := h
    exact ht
  · simp only [moveByRefund, Except.bind_ok_iff, Prod.exists] at h
    obtain ⟨core, -, t, _, _, _, hupdate, _, -, h⟩ := h
    have hpos : ∀ r ∈ t.rows, 0 < r.owed := by
      split_ifs at hupdate
      · exact updateRefund_pos ht hupdate
      · rw [← (Prod.mk.inj (Except.ok.inj hupdate)).1]
        exact ht
    split_ifs at h
    all_goals
      rw [← (Prod.mk.inj (Except.pure_ok_iff.mp h)).1]
      exact hpos
  · rw [← (Prod.mk.inj (Except.ok.inj h)).1]
    exact ht

/-- The rows that `changebw` writes. -/
theorem changebw_pos {transfer : Bool}
    (hd : ∀ d ∈ b.delbands.rows, 0 ≤ d.netWeight.amount ∧ 0 ≤ d.cpuWeight.amount)
    (ht : ∀ r ∈ b.refunds.rows, 0 < r.owed)
    (hok : changebw env b sender receiver net cpu transfer = .ok (b', sent)) :
    (∀ d ∈ b'.delbands.rows, 0 ≤ d.netWeight.amount ∧ 0 ≤ d.cpuWeight.amount) ∧
      ∀ r ∈ b'.refunds.rows, 0 < r.owed := by
  simp only [changebw, Except.bind_ok_iff, check_ok_iff, exists_const, Prod.exists,
    Except.pure_ok_iff, Prod.mk.injEq] at hok
  obtain ⟨-, -, total, -, -, delbands, hdelbands, totals, -, -, refunds, sent', hmove,
    system, -, rfl, rfl⟩ := hok
  exact ⟨fun d hmem => (updateDelband_mem hdelbands hmem).elim (hd d) id, moveStake_pos ht hmove⟩

end Bandwidth

namespace Ram

variable {d : Doubles} {env : Env} {s s' : State} {a : Action} {sent : List Sent}

theorem ramFee_le {amount : ℤ} (hpos : 0 < amount) : ramFee amount ≤ amount := by
  unfold ramFee
  omega

/-- The stake of the market grows by what is paid, and `sellram` checks that it does not fall below
nothing. -/
theorem perform_stake_nonneg (hs : 0 ≤ s.totalRamStake) (hok : perform d env s a = .ok (s', sent)) :
    0 ≤ s'.totalRamStake := by
  have hbuy : ∀ payer receiver quant, buyram d env s payer receiver quant = .ok (s', sent) →
      0 ≤ s'.totalRamStake := by
    intro payer receiver quant hok
    simp only [buyram, requireAuth, Except.bind_ok_iff, check_ok_iff, exists_const,
      Except.pure_ok_iff, Prod.exists, Prod.mk.injEq] at hok
    obtain ⟨-, -, s₁, hs₁, core, -, -, hpos, es, -, es', out, -, -, row, -, -, rfl, -⟩ := hok
    have hstake := (updateRamSupply_stake hs₁).1
    have hfee := ramFee_le hpos
    dsimp only
    omega
  cases a with
  | buyram payer receiver quant => exact hbuy payer receiver quant hok
  | buyrambytes payer receiver bytes =>
    simp only [perform, buyrambytes, Except.bind_ok_iff] at hok
    obtain ⟨es, -, core, -, quant, -, hok⟩ := hok
    exact hbuy payer receiver quant hok
  | sellram account bytes =>
    simp only [perform, sellram, Except.bind_ok_iff, check_ok_iff, exists_const] at hok
    obtain ⟨-, s₁, -, -, hok⟩ := hok
    cases hrow : s₁.totals.find? account with
    | none => simp [hrow] at hok
    | some row =>
      simp only [hrow, Except.bind_ok_iff, check_ok_iff, exists_const, Except.pure_ok_iff,
        Prod.exists, Prod.mk.injEq] at hok
      obtain ⟨-, es, -, core, -, payment, -, es', out, -, -, hstake, -, fee, -, rfl, -⟩ := hok
      exact hstake
  | setram size =>
    simp only [perform, setram, Except.bind_ok_iff, Except.pure_ok_iff, Prod.mk.injEq] at hok
    obtain ⟨-, -, -, -, -, -, -, -, es, -, rfl, -⟩ := hok
    exact hs
  | setramrate rate =>
    simp only [perform, setramrate, Except.bind_ok_iff, Except.pure_ok_iff, Prod.mk.injEq] at hok
    obtain ⟨-, -, s₁, hs₁, rfl, -⟩ := hok
    exact hs.trans_eq (updateRamSupply_stake hs₁).1.symm

end Ram

namespace World.NonNegative

variable {d : Ram.Doubles} {w w' : World} {env : World.Env} {sent : List Message}

theorem deliver {m : Message} (h : w.NonNegative) (hok : World.deliver env w m = .ok (w', sent)) :
    w'.NonNegative := by
  cases m with
  | token auths a =>
    obtain ⟨token, notified, reward, -, hnotify, rfl, -⟩ := World.deliver_token_ok hok
    refine ⟨h.votes, h.delbands, h.refunds, h.ram, ?_⟩
    cases a with
    | transfer sender receiver quantity memo =>
      simp only [World.notify] at hnotify
      split_ifs at hnotify
      · simp only [Except.bind_ok_iff, Except.pure_ok_iff, Prod.exists] at hnotify
        obtain ⟨_, out, hreward, rfl⟩ := hnotify
        exact (h.rewards.transact _) _ hreward
      · exact Except.ok.inj hnotify ▸ h.rewards
    | _ => exact Except.ok.inj hnotify ▸ h.rewards
  | reward auths a =>
    obtain ⟨reward, flows, hreward, rfl, -⟩ := World.deliver_reward_ok hok
    exact ⟨h.votes, h.delbands, h.refunds, h.ram, (h.rewards.transact _) _ hreward⟩

theorem deliverAll {depth : ℕ} (h : w.NonNegative)
    (hok : sent.foldlM (World.deliverFrom env depth) w = .ok w') : w'.NonNegative :=
  World.deliverFrom_preserves (fun _ _ _ _ h hok => h.deliver hok) depth h hok

theorem perform {call : World.Call} (h : w.NonNegative)
    (hok : World.perform d env w call = .ok (w', sent)) : w'.NonNegative := by
  cases call with
  | system a =>
    obtain ⟨b, out, hstep, rfl, -⟩ := World.perform_system_ok hok
    have hother : Bandwidth.onSystem w.bandwidth (Amax.perform (w.systemEnv env) w.system a) =
        .ok (b, out) → World.NonNegative { w with bandwidth := b } := by
      intro hstep
      obtain ⟨s, sent', hperform, rfl, -⟩ := Bandwidth.onSystem_ok hstep
      exact ⟨perform_votes_nonneg h.votes hperform, h.delbands, h.refunds, h.ram, h.rewards⟩
    cases a with
    | delegatebw sender receiver net cpu transfer =>
      have hvotes := perform_votes_nonneg
        (a := .delegatebw sender receiver net cpu transfer) h.votes (Bandwidth.delegatebw_system hstep)
      obtain ⟨-, -, -, hstep⟩ := Bandwidth.delegatebw_ok hstep
      obtain ⟨hdelbands, hrefunds⟩ := Bandwidth.changebw_pos h.delbands h.refunds hstep
      exact ⟨hvotes, hdelbands, hrefunds, h.ram, h.rewards⟩
    | undelegatebw sender receiver net cpu =>
      have hvotes := perform_votes_nonneg (a := .undelegatebw sender receiver net cpu) h.votes
        (Bandwidth.undelegatebw_system hstep)
      obtain ⟨-, -, hstep⟩ := Bandwidth.undelegatebw_ok hstep
      obtain ⟨hdelbands, hrefunds⟩ := Bandwidth.changebw_pos h.delbands h.refunds hstep
      exact ⟨hvotes, hdelbands, hrefunds, h.ram, h.rewards⟩
    | _ => exact hother hstep
  | refund owner =>
    obtain ⟨b, out, hstep, rfl, -⟩ := World.perform_refund_ok hok
    obtain ⟨req, quantity, -, -, -, -, rfl, -⟩ := Bandwidth.refund_ok hstep
    exact ⟨h.votes, h.delbands, fun r hr => h.refunds r (Table.mem_erase.mp hr).1, h.ram,
      h.rewards⟩
  | ram a =>
    obtain ⟨ram, out, hstep, rfl, -⟩ := World.perform_ram_ok hok
    have hram : 0 ≤ w.ramState.totalRamStake := h.ram
    exact ⟨h.votes, h.delbands, h.refunds, Ram.perform_stake_nonneg hram hstep, h.rewards⟩
  | reward a => exact h.deliver (m := .reward _ a) hok
  | token a => exact h.deliver (m := .token _ a) hok

theorem transact {tx : World.Transaction} (h : w.NonNegative)
    (hok : World.transact d tx w = .ok (w', sent)) : w'.NonNegative := by
  obtain ⟨w₁, hperform, hsent⟩ := World.transact_ok hok
  exact (h.perform hperform).deliverAll hsent

end World.NonNegative

-- ---------------------------------------------------------------------------
-- A payout
-- ---------------------------------------------------------------------------

/-- Nothing but the tokens of `c` stands in the way of a payout to `n`, and nobody signs for a
custodian. -/
structure World.Pays (env : World.Env) (w : World) (c : Custodian) (n : Name) : Prop where
  unsigned : ∀ c : Custodian, env.hasAuth c.account = false
  ne : n ≠ c.account
  outside : n ≠ rewardAccount
  isAccount : env.isAccount n = true
  clean : w.isBlacklisted env c.account = false
  notified : env.notifiedOk c.account = true ∧ env.notifiedOk n = true
  depth : 0 < env.maxInlineActionDepth

namespace Custody

variable {core : Symbol} {w : World} {env : World.Env} {pending : List Message}

theorem owed_nonneg (h : Custody core w pending) (hn : w.NonNegative) (c : Custodian) :
    0 ≤ w.owed c := by
  cases c with
  | votes =>
    have hvoters := Table.sum_nonneg hn.votes
    have hrefunds := Table.sum_nonneg fun r hr => (h.votes.refund_pos r hr).le
    simp only [World.owed]
    omega
  | stakes =>
    refine add_nonneg (Table.sum_nonneg fun b hb => ?_)
      (Table.sum_nonneg fun r hr => (hn.refunds r hr).le)
    exact add_nonneg (hn.delbands b hb).1 (hn.delbands b hb).2
  | ram => exact hn.ram
  | rewards =>
    obtain ⟨flows, hbooks⟩ := h.books
    refine add_nonneg (Table.sum_nonneg fun p hp => ?_)
      (Table.sum_nonneg hn.rewards.unclaimed_nonneg)
    rw [← Reward.producer_of_mem hp]
    exact hbooks.ledger.allocating_nonneg p.owner

theorem balance_le (h : Custody core w pending) (n : Name) :
    w.token.accounts.amount n core.code ≤ Asset.maxAmount := by
  obtain ⟨st, hst, rfl⟩ := h.currency
  have hheld := h.liquid.circulates.held st hst
  rw [Pi.zero_apply, add_zero] at hheld
  calc w.token.accounts.amount n st.supply.symbol.code
    _ ≤ w.token.accounts.held st.supply.symbol.code :=
      Holdings.amount_le_held h.liquid.circulates.nonneg n _
    _ = st.supply.amount := hheld
    _ ≤ st.maxSupply.amount := h.liquid.capped st hst
    _ ≤ Asset.maxAmount := (h.liquid.usable st hst).max_le

/-- A transfer out of the account of a custodian that is all that is to be delivered succeeds. -/
theorem payout {c : Custodian} {n : Name} {q : ℤ} {memo : String} {auths : Name → Bool}
    (h : Custody core w [.token auths (.transfer c.account n ⟨q, core⟩ memo)]) (hn : w.NonNegative)
    (hpays : w.Pays env c n) (hauth : auths c.account = true) (hpos : 0 < q)
    (hmemo : memo.utf8ByteSize ≤ 256) :
    ∃ token, World.deliver env w (.token auths (.transfer c.account n ⟨q, core⟩ memo)) =
        .ok ({ w with token }, []) ∧
      token.accounts.amount n core.code = w.token.accounts.amount n core.code + q := by
  obtain ⟨st, hst, hsym⟩ := h.currency
  have hcovered := h.covered c
  have howed := h.owed_nonneg hn c
  have hne : c.account ≠ n := fun e => hpays.ne e.symm
  have hle : q ≤ w.token.accounts.amount c.account core.code := by
    simp only [credits_cons, credits_nil, Message.credit, hne, hpays.ne, false_or, ne_eq,
      not_true_eq_false, if_false, false_and, if_true] at hcovered
    omega
  have hpermitted : Token.Permitted (env.token auths) w.token c.account n memo :=
    ⟨hauth, hne, hpays.isAccount, by cases c <;> decide, hpays.clean, hmemo⟩
  have hsymbol : st.supply.symbol = (⟨q, core⟩ : Asset).symbol := hsym
  obtain ⟨token, htoken⟩ := h.liquid.transfer_ok hpermitted hst hsymbol hpos hle
  have hnotify : World.notify env auths w.reward (.transfer c.account n ⟨q, core⟩ memo) =
      .ok w.reward := by
    simp only [World.notify]
    split_ifs with hparty
    · -- the reward contract takes no notice of what it pays itself
      have hreward : c.account = rewardAccount := hparty.resolve_right hpays.outside
      have hsymbol : w.reward.coreSymbol.isValid = true := by
        rw [h.rewardSymbol, ← hsym]
        exact (h.liquid.usable st hst).symbol
      simp [Reward.transact, Reward.ontransfer, check, hsymbol, hreward, bind, Except.bind, pure,
        Except.pure]
    · rfl
  refine ⟨token, ?_, ?_⟩
  · have hnotified : [c.account, n].all env.notifiedOk = true := by
      simp [hpays.notified.1, hpays.notified.2]
    have htransact :
        Token.transact ⟨env.token auths, .transfer c.account n ⟨q, core⟩ memo⟩ w.token = .ok (token, [c.account, n]) := htoken
    simp only [World.deliver, Except.bind_ok_iff, check_ok_iff, exists_const, Except.pure_ok_iff,
      Prod.exists, Prod.mk.injEq]
    exact ⟨token, _, htransact, hnotified, _, hnotify, rfl, trivial⟩
  · rw [Token.transfer_amount htoken]
    simp [Token.Action.movement, hne]

/-- A transaction that sends nothing but a payout succeeds. -/
theorem transact_payout {d : Ram.Doubles} {call : World.Call} {w₁ : World} {c : Custodian}
    {n : Name} {q : ℤ} {memo : String} {auths : Name → Bool}
    (hperform : World.perform d env w call =
      .ok (w₁, [.token auths (.transfer c.account n ⟨q, core⟩ memo)]))
    (h : Custody core w₁ [.token auths (.transfer c.account n ⟨q, core⟩ memo)])
    (hn : w₁.NonNegative) (hpays : w₁.Pays env c n) (hauth : auths c.account = true) (hpos : 0 < q)
    (hmemo : memo.utf8ByteSize ≤ 256) :
    ∃ token sent, World.transact d ⟨env, call⟩ w = .ok ({ w₁ with token }, sent) ∧
      token.accounts.amount n core.code = w₁.token.accounts.amount n core.code + q := by
  obtain ⟨token, hdeliver, hamount⟩ := h.payout hn hpays hauth hpos hmemo
  obtain ⟨depth, hdepth⟩ := Nat.exists_eq_add_one.mpr hpays.depth
  refine ⟨token, [.token auths (.transfer c.account n ⟨q, core⟩ memo)], ?_, hamount⟩
  have hsent : [Message.token auths (.transfer c.account n ⟨q, core⟩ memo)].foldlM
      (World.deliverFrom env env.maxInlineActionDepth) w₁ = .ok { w₁ with token } := by
    simp only [List.foldlM_cons, List.foldlM_nil, Except.bind_ok_iff, Except.pure_ok_iff, hdepth,
      World.deliverFrom, Prod.exists]
    exact ⟨_, ⟨_, [], hdeliver, rfl⟩, rfl⟩
  simp only [World.transact, Except.bind_ok_iff, Except.pure_ok_iff, Prod.exists, Prod.mk.injEq]
  exact ⟨w₁, _, hperform, _, hsent, rfl, rfl⟩

theorem symbol_valid (h : Custody core w pending) : core.isValid = true := by
  obtain ⟨st, hst, rfl⟩ := h.currency
  exact (h.liquid.usable st hst).symbol

-- ---------------------------------------------------------------------------
-- The payouts
-- ---------------------------------------------------------------------------

/-- A refund of votes is converted without wrapping, because its tokens are there. -/
theorem refund_exact (h : Custody core w []) (hn : w.NonNegative) {r : VoteRefund}
    (hr : r ∈ w.system.voteRefunds.rows) :
    0 < r.votes.amount ∧ ExactVotes r.votes.amount ∧
      voteToCoreAsset w.system r.votes = .ok ⟨10000 * r.votes.amount, core⟩ := by
  have hpos := h.votes.refund_pos r hr
  have hsum := Table.le_sum_of_mem (fun x hx => (h.votes.refund_pos x hx).le) hr
  have hvoters := Table.sum_nonneg hn.votes
  have hcovered := h.covered .votes
  have hbalance := h.balance_le (Custodian.account .votes)
  have hvalid := h.symbol_valid
  have hmax : Asset.maxAmount = 2 ^ 62 - 1 := rfl
  have hfactor : voteToCoreAssetFactor = 10000 := rfl
  rw [credits_nil, add_zero, World.owed] at hcovered
  have hwrap := toInt64_cases (r.votes.amount * voteToCoreAssetFactor)
  rw [hfactor] at hwrap
  have hamount : toInt64 (r.votes.amount * 10000) = 10000 * r.votes.amount := by omega
  refine ⟨hpos, .inl (by rw [hfactor]; omega), voteToCoreAsset_ok_iff.mpr ?_⟩
  rw [hfactor, hamount, h.symbol]
  refine ⟨by omega, by omega, ?_, hvalid, rfl⟩
  rintro rfl
  exact absurd hvalid (by decide)

/-- A refund of votes that is due is paid. -/
theorem refundvote_paid {d : Ram.Doubles} (h : Custody core w []) (hn : w.NonNegative)
    {r : VoteRefund} (hr : r ∈ w.system.voteRefunds.rows)
    (hdue : seconds r.requestTime + seconds refundDelaySec ≤ env.now)
    (hpays : w.Pays env .votes r.owner) :
    ∃ w' sent, World.transact d ⟨env, .system (.refundvote r.owner)⟩ w = .ok (w', sent) ∧
      w'.token.accounts.amount r.owner core.code =
        w.token.accounts.amount r.owner core.code + 10000 * r.votes.amount ∧
      w'.system.voteRefunds.find? r.owner = none := by
  obtain ⟨hpos, hexact, hconvert⟩ := h.refund_exact hn hr
  have hfind := Table.find?_of_mem hr
  have hperform : World.perform d env w (.system (.refundvote r.owner)) =
      .ok ({ w with bandwidth := { w.bandwidth with system := { w.system with
          voteRefunds := w.system.voteRefunds.erase r.owner } } },
        [.token (· = voteAccount)
          (.transfer voteAccount r.owner ⟨10000 * r.votes.amount, core⟩ "refundvote")]) := by
    have hmatch : Amax.perform (w.systemEnv env) w.system (.refundvote r.owner) =
        .ok ({ w.system with voteRefunds := w.system.voteRefunds.erase r.owner },
          [.transfer voteAccount r.owner ⟨10000 * r.votes.amount, core⟩ "refundvote"]) := by
      simp only [Amax.perform, refundvote, hfind, Except.bind_ok_iff, check_ok_iff, exists_const,
        Except.pure_ok_iff]
      exact ⟨hdue, _, hconvert, rfl⟩
    simp only [World.perform, World.performSystem, Bandwidth.onSystem, hmatch]
    rfl
  have hcareful : World.Careful w ⟨env, .system (.refundvote r.owner)⟩ := by
    refine .of_quiet hpays.unsigned rfl rfl fun votes hvotes => ?_
    simp only [System.convertedVotes, hfind, Option.map_some, Option.mem_def,
      Option.some.injEq] at hvotes
    exact hvotes ▸ hexact
  have hcustody := h.perform hcareful hperform
  rw [List.append_nil] at hcustody
  obtain ⟨token, sent, htransact, hamount⟩ := transact_payout (c := .votes) hperform hcustody
    (hn.perform hperform) ⟨hpays.unsigned, hpays.ne, hpays.outside, hpays.isAccount, hpays.clean,
      hpays.notified, hpays.depth⟩ (by decide) (by omega) (by decide)
  exact ⟨_, sent, htransact, hamount, by rw [Table.find?_erase, if_pos rfl]⟩

/-- A refund of stakes that is due is paid. -/
theorem refund_paid {d : Ram.Doubles} (h : Custody core w []) (hn : w.NonNegative)
    {r : RefundRequest} (hr : r ∈ w.bandwidth.refunds.rows) (hauth : env.hasAuth r.owner = true)
    (hdue : seconds (r.requestTime + refundDelaySec) ≤ env.now)
    (hpays : w.Pays env .stakes r.owner) :
    ∃ w' sent, World.transact d ⟨env, .refund r.owner⟩ w = .ok (w', sent) ∧
      w'.token.accounts.amount r.owner core.code = w.token.accounts.amount r.owner core.code +
        (r.netAmount.amount + r.cpuAmount.amount) ∧
      w'.bandwidth.refunds.find? r.owner = none := by
  have hpos := hn.refunds r hr
  have hok := h.refunds r hr
  have hfind := Table.find?_of_mem hr
  have hquantity : r.netAmount.add r.cpuAmount = .ok ⟨r.owed, core⟩ := by
    have hsum := Table.le_sum_of_mem (fun x hx => (hn.refunds x hx).le) hr
    have hdelbands : 0 ≤ w.bandwidth.delbands.sum DelegatedBandwidth.stake :=
      Table.sum_nonneg fun b hb => add_nonneg (hn.delbands b hb).1 (hn.delbands b hb).2
    have hcovered := h.covered .stakes
    have hbalance := h.balance_le (Custodian.account .stakes)
    have hmax : (0 : ℤ) ≤ Asset.maxAmount := by decide
    rw [credits_nil, add_zero, World.owed] at hcovered
    refine Asset.add_ok_iff.mpr ⟨hok.cpu_symbol.trans hok.net_symbol.symm, ?_, ?_⟩
    · simp only [RefundRequest.owed] at hpos hsum hcovered
      omega
    · rw [hok.net_symbol]
      rfl
  have hperform : World.perform d env w (.refund r.owner) =
      .ok ({ w with
          bandwidth := { w.bandwidth with refunds := w.bandwidth.refunds.erase r.owner } },
        [.token (· = stakeAccount) (.transfer stakeAccount r.owner ⟨r.owed, core⟩ "unstake")]) := by
    have hmatch : Bandwidth.refund (w.bandwidthEnv env) w.bandwidth r.owner =
        .ok ({ w.bandwidth with refunds := w.bandwidth.refunds.erase r.owner },
          [.inline (.transfer stakeAccount r.owner ⟨r.owed, core⟩ "unstake")]) := by
      simp only [Bandwidth.refund, requireAuth, hfind, Except.bind_ok_iff, check_ok_iff,
        exists_const, Except.pure_ok_iff]
      exact ⟨hauth, hdue, _, hquantity, rfl⟩
    simp only [World.perform, hmatch]
    rfl
  have hcareful : World.Careful w ⟨env, .refund r.owner⟩ := .of_quiet hpays.unsigned rfl rfl trivial
  have hcustody := h.perform hcareful hperform
  rw [List.append_nil] at hcustody
  obtain ⟨token, sent, htransact, hamount⟩ := transact_payout (c := .stakes) hperform hcustody
    (hn.perform hperform) ⟨hpays.unsigned, hpays.ne, hpays.outside, hpays.isAccount, hpays.clean,
      hpays.notified, hpays.depth⟩ (by decide) hpos (by decide)
  exact ⟨_, sent, htransact, hamount, by rw [Table.find?_erase, if_pos rfl]⟩

/-- A voter that votes is paid the rewards it can claim, to the last unit. -/
theorem claim_paid {d : Ram.Doubles} (h : Custody core w []) (hn : w.NonNegative) {v : Reward.Voter}
    (hv : v ∈ w.reward.voters.rows) (hvotes : 0 < v.votes) (hpos : 0 < v.claimable w.reward)
    (hauth : env.hasAuth v.owner = true) (hpays : w.Pays env .rewards v.owner) :
    ∃ w' sent, World.transact d ⟨env, .reward (.claimrewards v.owner)⟩ w = .ok (w', sent) ∧
      w'.token.accounts.amount v.owner core.code =
        w.token.accounts.amount v.owner core.code + v.claimable w.reward ∧
      (w'.reward.voter v.owner).claimable w'.reward = 0 := by
  obtain ⟨flows, hbooks⟩ := h.books
  have hopen : (env.reward env.hasAuth rewardAccount).transferOk = true := rfl
  obtain ⟨⟨r', out⟩, hclaim, hpaid⟩ :=
    Reward.claim_paidOut hbooks.ledger hn.rewards hv hvotes hpos hopen
  obtain ⟨rfl, v', hfind, -, -, -, hunclaimed, haccrued⟩ := hpaid
  have hperform : World.perform d env w (.reward (.claimrewards v.owner)) =
      .ok ({ w with reward := r' }, [.token (· = rewardAccount)
        (.transfer rewardAccount v.owner ⟨v.claimable w.reward, core⟩ "voted rewards")]) := by
    have hmatch : Reward.transact ⟨env.reward env.hasAuth rewardAccount, .claimrewards v.owner⟩
        w.reward = .ok (r', [.paid v.owner (v.claimable w.reward)]) := by
      have hsymbol := hn.rewards.symbol (List.ne_nil_of_mem hv)
      simp only [Reward.transact, Reward.claimrewards, Reward.requireAuth, Except.bind_ok_iff,
        check_ok_iff, exists_const]
      exact ⟨hsymbol, hauth, hclaim⟩
    simp only [World.perform, World.deliver, hmatch]
    rw [← h.rewardSymbol]
    rfl
  have hcareful : World.Careful w ⟨env, .reward (.claimrewards v.owner)⟩ :=
    .of_quiet hpays.unsigned rfl rfl trivial
  have hcustody := h.perform hcareful hperform
  rw [List.append_nil] at hcustody
  obtain ⟨token, sent, htransact, hamount⟩ := transact_payout (c := .rewards) hperform hcustody
    (hn.perform hperform) ⟨hpays.unsigned, hpays.ne, hpays.outside, hpays.isAccount, hpays.clean,
      hpays.notified, hpays.depth⟩ (by decide) hpos (by decide)
  refine ⟨_, sent, htransact, hamount, ?_⟩
  have hrow : r'.voter v.owner = v' := by simp [Reward.State.voter, hfind]
  simp only [hrow, Reward.Voter.claimable, hunclaimed, haccrued, add_zero]

end Custody

-- ---------------------------------------------------------------------------
-- Runs
-- ---------------------------------------------------------------------------

namespace World

variable {env : Env} {created : List Token.Transaction} {version : ℕ} {core : Symbol} {w₀ : World}

theorem init_nonNegative
    (hinit : init env { token := Token.State.final {} created } version core = .ok w₀) :
    w₀.NonNegative := by
  simp only [init, Except.bind_ok_iff, Prod.exists] at hinit
  obtain ⟨ram, sent, hram, hsent⟩ := hinit
  obtain ⟨-, -, hstake, rfl⟩ := Ram.init_ok hram
  have hstart : NonNegative
      { bandwidth := { system := { gstate := { coreSymbol := core } } }
        ram
        reward := .fresh core
        token := Token.State.final {} created } :=
    ⟨fun _ hv => absurd hv List.not_mem_nil, fun _ hd => absurd hd List.not_mem_nil,
      fun _ hr => absurd hr List.not_mem_nil, hstake.ge, Reward.ranged_fresh core⟩
  rw [← List.foldlM_map] at hsent
  exact hstart.deliverAll hsent

theorem run_nonNegative {d : Ram.Doubles} {txs : List Transaction}
    (hinit : init env { token := Token.State.final {} created } version core = .ok w₀) :
    (final d w₀ txs).NonNegative := by
  have hstep : ∀ (w : World) (tx : Transaction) w' out, w.NonNegative → True →
      transact d tx w = .ok (w', out) → w'.NonNegative := fun w tx w' out h _ hok => h.transact hok
  exact Run.invariant hstep (init_nonNegative hinit) (Run.along_true _ txs)

/-- After every run of careful transactions, whoever is owed a refund of votes or of stakes that is
due, and whoever votes and has rewards, is paid in full, unless the token contract or the contract
of a notified account refuses the transfer for other reasons than a lack of tokens. -/
theorem payouts {d : Ram.Doubles} {txs : List Transaction}
    (hinit : init env { token := Token.State.final {} created } version core = .ok w₀)
    (hcareful : Run.Along (transact d) Careful w₀ txs) :
    let w := final d w₀ txs
    let paid := fun (env : Env) (call : Call) (n : Name) (q : ℤ) (settled : World → Prop) =>
      ∃ w' sent, transact d ⟨env, call⟩ w = .ok (w', sent) ∧
        w'.token.accounts.amount n core.code = w.token.accounts.amount n core.code + q ∧ settled w'
    (∀ r ∈ w.system.voteRefunds.rows, ∀ env : Env,
      seconds r.requestTime + seconds refundDelaySec ≤ env.now → w.Pays env .votes r.owner →
      paid env (.system (.refundvote r.owner)) r.owner (10000 * r.votes.amount)
        fun w' => w'.system.voteRefunds.find? r.owner = none) ∧
    (∀ r ∈ w.bandwidth.refunds.rows, ∀ env : Env, env.hasAuth r.owner = true →
      seconds (r.requestTime + refundDelaySec) ≤ env.now → w.Pays env .stakes r.owner →
      paid env (.refund r.owner) r.owner (r.netAmount.amount + r.cpuAmount.amount)
        fun w' => w'.bandwidth.refunds.find? r.owner = none) ∧
    (∀ v ∈ w.reward.voters.rows, 0 < v.votes → 0 < v.claimable w.reward → ∀ env : Env,
      env.hasAuth v.owner = true → w.Pays env .rewards v.owner →
      paid env (.reward (.claimrewards v.owner)) v.owner (v.claimable w.reward)
        fun w' => (w'.reward.voter v.owner).claimable w'.reward = 0) := by
  have hcustody := run_custody hinit hcareful
  have hnonneg : (final d w₀ txs).NonNegative := run_nonNegative hinit
  refine ⟨fun r hr env hdue hpays => ?_, fun r hr env hauth hdue hpays => ?_,
    fun v hv hvotes hpos env hauth hpays => ?_⟩
  · exact hcustody.refundvote_paid hnonneg hr hdue hpays
  · exact hcustody.refund_paid hnonneg hr hauth hdue hpays
  · exact hcustody.claim_paid hnonneg hv hvotes hpos hauth hpays

/-- A voter votes for a producer that shares its rewards, and takes some of its votes back. -/
def voted : List Transaction := [
  ⟨day 0, .token (.transfer self 1 ⟨5000000, amax⟩ "")⟩,
  ⟨day 0, .token (.transfer self 2 ⟨5000000, amax⟩ "")⟩,
  ⟨day 0, .system (.regproducer 2 5 "" none)⟩,
  ⟨day 0, .system .upgradevote⟩,
  ⟨day 0, .system (.addvote 1 ⟨100, voteSymbol⟩)⟩,
  ⟨day 2, .system (.vote 1 [2])⟩,
  ⟨day 2, .token (.transfer 2 rewardAccount ⟨1000, amax⟩ "")⟩,
  ⟨day 4, .system (.subvote 1 ⟨40, voteSymbol⟩)⟩]

/-- The voter is later paid for these votes. -/
theorem payouts_week : ∃ w' sent,
    transact integers ⟨day 8, .system (.refundvote 1)⟩
      (final integers (genesis { token := Token.State.final {} created₀ }) voted) =
      .ok (w', sent) ∧
    w'.token.accounts.amount 1 amax.code =
      (final integers (genesis { token := Token.State.final {} created₀ })
        voted).token.accounts.amount 1 amax.code + 10000 * 40 ∧
    w'.system.voteRefunds.find? 1 = none := by
  have hcareful : Run.Along (transact integers) Careful
      (genesis { token := Token.State.final {} created₀ }) voted := by decide +kernel
  have hunsigned : ∀ c : Custodian, (day 8).hasAuth c.account = false := by decide +kernel
  have hclean : (final integers (genesis { token := Token.State.final {} created₀ })
      voted).isBlacklisted (day 8) voteAccount = false := by
    decide +kernel
  have hrow : (⟨1, 1800345600, ⟨40, voteSymbol⟩⟩ : VoteRefund) ∈
      (final integers (genesis { token := Token.State.final {} created₀ })
        voted).system.voteRefunds.rows := by decide +kernel
  have hdue : seconds 1800345600 + seconds refundDelaySec ≤ (day 8).now := by decide
  exact (payouts init_genesis hcareful).1 _ hrow (day 8) hdue
    ⟨hunsigned, by decide, by decide, rfl, hclean, ⟨rfl, rfl⟩, by decide⟩

end World

end Amax
