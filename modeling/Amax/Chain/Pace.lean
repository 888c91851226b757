-- SUMMARY: How fast accounts can move: one change of vote a day, and tokens come back three days after they are asked back.
import Amax.Base.Lock
import Amax.Chain.Consent

/-! # Pace

Votes and stakes are slow on purpose. A voter changes its vote or takes votes
back once a day. What it takes back waits as a refund for three days, so that in
a window of three days nobody is paid more than what was waiting already, in
whatever order everybody acts. -/

namespace Amax

-- ---------------------------------------------------------------------------
-- Time
-- ---------------------------------------------------------------------------

theorem TimePoint.le_toSlot {slot t : ℕ} (h : Slot.toTimePoint slot ≤ t) :
    slot ≤ TimePoint.toSlot t := by
  have hle : (slot * 500 + 946684800000) * 1000 ≤ t := h
  have hslot : TimePoint.toSlot t = ((((t / 1000 : ℕ) : ℤ) - 946684800000) / 500).toNat := rfl
  rw [hslot]
  omega

theorem seconds_le_iff {n : ℕ} {t : TimePoint} : seconds n ≤ t ↔ n ≤ t.secSinceEpoch := by
  unfold seconds TimePoint.secSinceEpoch
  omega

-- ---------------------------------------------------------------------------
-- Payments and moves
-- ---------------------------------------------------------------------------

/-- What a message pays `n` out of the account of a custodian. -/
def Message.payment (c : Custodian) (n : Name) : Message → ℤ
  | .token _ (.transfer sender receiver quantity _) =>
    if sender = c.account ∧ receiver = n then quantity.amount else 0
  | _ => 0

def payments (c : Custodian) (n : Name) (l : List Message) : ℤ := (l.map (·.payment c n)).sum

/-- The reward contract is told that `n` changed its vote or took votes back. -/
def Message.isMove (n : Name) : Message → Bool
  | .reward _ (.subvote voter _) => voter = n
  | .reward _ (.voteproducer voter _) => voter = n
  | _ => false

def moves (n : Name) (l : List Message) : ℤ := l.countP (·.isMove n)

section Messages

variable {c : Custodian} {n : Name}

@[simp] theorem payments_nil : payments c n [] = 0 := rfl

@[simp] theorem payments_cons (m : Message) (l : List Message) :
    payments c n (m :: l) = m.payment c n + payments c n l := by
  simp [payments]

theorem payments_append (l l' : List Message) :
    payments c n (l ++ l') = payments c n l + payments c n l' := by
  simp [payments]

theorem payments_eq_zero {l : List Message} (h : ∀ m ∈ l, m.payment c n = 0) :
    payments c n l = 0 := by
  refine List.sum_eq_zero fun x hx => ?_
  obtain ⟨m, hm, rfl⟩ := List.mem_map.mp hx
  exact h m hm

theorem moves_eq_zero {l : List Message} (h : ∀ m ∈ l, m.isMove n = false) : moves n l = 0 := by
  have hcount := List.countP_eq_zero.mpr fun m hm => Bool.not_eq_true _ ▸ h m hm
  rw [moves, hcount]
  rfl

/-- A transfer that another account sends, or that another account gets. -/
theorem Message.payment_transfer (auths : Name → Bool) {sender receiver : Name} (quantity : Asset)
    (memo : String) (h : sender ≠ c.account ∨ receiver ≠ n) :
    (Message.token auths (.transfer sender receiver quantity memo)).payment c n = 0 :=
  if_neg fun hboth => h.elim (absurd hboth.1) (absurd hboth.2)

theorem Bandwidth.Sent.not_isMove {m : Bandwidth.Sent} {message : Message} {source : Name}
    (hm : m.Between source) (h : message ∈ m.toMessages) : message.isMove n = false := by
  cases m with
  | inline i =>
    obtain rfl := List.mem_singleton.mp h
    cases i with
    | transfer => rfl
    | _ => exact absurd hm id
  | _ => cases h

theorem Ram.Sent.not_isMove (m : Ram.Sent) : m.toMessage.isMove n = false := by
  cases m <;> rfl

end Messages

-- ---------------------------------------------------------------------------
-- Actions of the system contract
-- ---------------------------------------------------------------------------

section Actions

variable {env : Env} {s s' : System} {a : Action} {sent : List Inline} {n : Name}

/-- Only a refund of votes pays out of the account of a custodian. -/
theorem perform_payments (hn : ∀ c : Custodian, n ≠ c.account)
    (hok : perform env s a = .ok (s', sent)) (c : Custodian) :
    payments c n (sent.map (·.toMessage)) = 0 ∨ c = .votes ∧ a = .refundvote n := by
  have hquiet : (∀ i ∈ sent, ∀ sender receiver quantity memo,
      i = .transfer sender receiver quantity memo → sender ≠ c.account ∨ receiver ≠ n) →
      payments c n (sent.map (·.toMessage)) = 0 := by
    intro h
    refine payments_eq_zero fun m hm => ?_
    obtain ⟨i, hi, rfl⟩ := List.mem_map.mp hm
    cases i with
    | transfer sender receiver quantity memo =>
      exact Message.payment_transfer _ _ _ (h _ hi _ _ _ _ rfl)
    | _ => rfl
  obtain ⟨s₁, heffect, -⟩ := perform_effect hok
  cases heffect with
  | keep | revise | settings | configure | block | voter | voteproducer | undoreward =>
    exact .inl rfl
  | register quiet registered revision ext sends =>
    rcases sends with rfl | rfl <;> exact .inl rfl
  | subvote | vote => exact .inl rfl
  | addvote =>
    refine .inl (hquiet fun i hi sender receiver quantity memo hi' => .inr fun hreceiver => ?_)
    subst hi'
    simp only [List.mem_cons, List.not_mem_nil, or_false, reduceCtorEq, Inline.transfer.injEq] at hi
    exact hn .votes (hreceiver.symm.trans hi.2.1)
  | @refundvote refund q found stakes =>
    by_cases howner : c = .votes ∧ refund.owner = n
    · obtain ⟨rfl, rfl⟩ := howner
      exact .inr ⟨rfl, rfl⟩
    · refine .inl (hquiet fun i hi sender receiver quantity memo hi' => ?_)
      subst hi'
      simp only [List.mem_singleton, Inline.transfer.injEq] at hi
      obtain ⟨rfl, rfl, -⟩ := hi
      by_contra hboth
      push Not at hboth
      exact howner ⟨Custodian.account_injective hboth.1.symm, hboth.2⟩
  | claimrewards =>
    obtain ⟨q, share, shared, -, -, -, -, hshared, rfl⟩ := claimrewards_sent hok
    refine .inl (hquiet fun i hi sender receiver quantity memo hi' => ?_)
    subst hi'
    have hends : sender = self ∨ receiver = rewardAccount := by
      rcases hshared with rfl | rfl | rfl <;>
        simp only [List.cons_append, List.nil_append, List.append_nil, List.mem_cons,
          List.not_mem_nil, reduceCtorEq, Inline.transfer.injEq, false_or, or_false] at hi
      · exact .inl hi.1
      · exact hi.imp And.left fun h => h.2.1
      · exact hi.imp And.left fun h => h.2.1
    rcases hends with rfl | rfl
    · exact .inl (self_ne_account c)
    · exact .inr fun e => hn .rewards e.symm

/-- A voter moves once its last move is a day ago, by its own action alone. -/
theorem perform_moves (hne : n ≠ armoniaadmin) (hok : perform env s a = .ok (s', sent)) :
    (moves n (sent.map (·.toMessage)) = 0 ∧
        (s'.voter n).lastUnvotedTime = (s.voter n).lastUnvotedTime) ∨
      (moves n (sent.map (·.toMessage)) = 1 ∧
        Slot.toTimePoint (s.voter n).lastUnvotedTime + seconds voteIntervalSec < env.now ∧
        (s'.voter n).lastUnvotedTime = TimePoint.toSlot env.now) := by
  have hclock := (perform_keeps hok).clock n
  have hquiet : a.mover ≠ some n → moves n (sent.map (·.toMessage)) = 0 := by
    intro hmover
    refine moves_eq_zero fun m hm => ?_
    obtain ⟨i, hi, rfl⟩ := List.mem_map.mp hm
    obtain ⟨s₁, heffect, -⟩ := perform_effect hok
    cases heffect with
    | keep | revise | settings | configure | block | voter | voteproducer | undoreward =>
      exact absurd hi List.not_mem_nil
    | register quiet registered revision ext sends =>
      rcases sends with rfl | rfl
      · exact absurd hi List.not_mem_nil
      · obtain rfl := List.mem_singleton.mp hi
        rfl
    | subvote =>
      obtain rfl := List.mem_singleton.mp hi
      exact decide_eq_false fun e => hmover (congrArg some e)
    | vote =>
      obtain rfl := List.mem_singleton.mp hi
      exact decide_eq_false fun e => hmover (congrArg some e)
    | addvote =>
      simp only [List.mem_cons, List.not_mem_nil, or_false] at hi
      rcases hi with rfl | rfl <;> rfl
    | refundvote =>
      obtain rfl := List.mem_singleton.mp hi
      rfl
    | claimrewards time found pos issued_eq silent =>
      have hsilent := silent i hi
      cases i with
      | rewardSubvote | rewardVoteproducer => cases hsilent
      | _ => rfl
  by_cases hmover : a.mover = some n
  · cases a with
    | subvote voter votes =>
      obtain rfl := Option.some.inj hmover
      obtain ⟨rfl, -, -, -, hdue, v, hvoters, howner, hlast, -⟩ := subvote_ok hok
      refine .inr ⟨by simp [moves, Inline.toMessage, Message.isMove], hdue hne, ?_⟩
      rw [System.voter_of_set hvoters, if_pos howner, hlast]
    | vote voter producers =>
      obtain rfl := Option.some.inj hmover
      rcases vote_ok hok with ⟨rfl, rfl⟩ | ⟨rfl, -, hdue, v, hvoters, howner, hlast, -⟩
      · exact .inl ⟨rfl, rfl⟩
      · refine .inr ⟨by simp [moves, Inline.toMessage, Message.isMove], hdue, ?_⟩
        rw [System.voter_of_set hvoters, if_pos howner, hlast]
    | _ => cases hmover
  · exact .inl ⟨hquiet hmover, hclock hmover⟩

/-- What `n` is owed for the votes it took back, and since when. -/
def System.pendingVotes (s : System) (n : Name) : Option (ℕ × ℤ) :=
  (s.voteRefunds.find? n).map fun r => (r.requestTime, 10000 * r.votes.amount)

private theorem toInt64_le {x : ℤ} (hx : 0 ≤ x) : toInt64 x ≤ x := by
  have hwrap := toInt64_cases x
  omega

/-- Only the owner of a refund of votes changes it, by `subvote` and `refundvote`. -/
theorem perform_voteRefunds (hok : perform env s a = .ok (s', sent))
    (hsub : ∀ votes, a ≠ .subvote n votes) (hrefund : a ≠ .refundvote n) :
    s'.voteRefunds.find? n = s.voteRefunds.find? n := by
  obtain ⟨s₁, heffect, hout⟩ := perform_effect hok
  have hrefunds : s'.voteRefunds = s₁.voteRefunds := (congrArg System.voteRefunds hout :)
  rw [hrefunds]
  cases heffect with
  | keep | revise | settings | configure | voter | voteproducer | undoreward | register |
    claimrewards => rfl
  | block produced =>
    refine produceRewards_preserves (P := fun t => t.voteRefunds.find? n = s.voteRefunds.find? n)
      produced rfl fun _ _ hs hstep => ?_
    cases hstep <;> exact hs
  | addvote =>
    dsimp only
    rw [System.addVotesList_voteRefunds]
  | vote =>
    dsimp only
    rw [System.addVotesList_voteRefunds, System.addVotesList_voteRefunds]
  | subvote =>
    exact Table.find?_set_ne _ fun e => hsub _ (by rw [← e])
  | refundvote =>
    dsimp only
    rw [Table.find?_erase, if_neg fun e => hrefund (by rw [e])]

theorem perform_pendingVotes (hn : ∀ c : Custodian, n ≠ c.account)
    (hok : perform env s a = .ok (s', sent)) :
    Run.LockStep refundDelaySec env.now.secSinceEpoch (s.pendingVotes n)
      (payments .votes n (sent.map (·.toMessage))) (s'.pendingVotes n) := by
  by_cases hrefund : a = .refundvote n
  · subst hrefund
    obtain ⟨r, q, hfind, -, hdue, hq, rfl, rfl⟩ := refundvote_ok hok
    obtain ⟨-, -, -, -, rfl⟩ := voteToCoreAsset_ok_iff.mp hq
    have hpaid : payments .votes n [(Inline.transfer voteAccount n
        ⟨toInt64 (r.votes.amount * voteToCoreAssetFactor), s.gstate.coreSymbol⟩
          "refundvote").toMessage] = toInt64 (r.votes.amount * voteToCoreAssetFactor) := by
      simp [Inline.toMessage, Message.payment, Custodian.account]
    have hnow : r.requestTime + refundDelaySec ≤ env.now.secSinceEpoch := by
      rw [← seconds_le_iff, seconds, Nat.add_mul]
      exact hdue
    have hbefore : s.pendingVotes n = some (r.requestTime, 10000 * r.votes.amount) := by
      rw [System.pendingVotes, hfind, Option.map_some]
    have hafter : System.pendingVotes
        { s with voteRefunds := s.voteRefunds.erase n } n = none := by
      rw [System.pendingVotes, Table.find?_erase, if_pos rfl, Option.map_none]
    rw [List.map_singleton, hpaid, hbefore, hafter]
    refine .pay hnow fun hnonneg => ?_
    rw [show voteToCoreAssetFactor = 10000 from rfl, mul_comm]
    exact toInt64_le hnonneg
  · rw [(perform_payments hn hok .votes).resolve_right fun h => hrefund h.2]
    by_cases hsub : ∃ votes, a = .subvote n votes
    · obtain ⟨votes, rfl⟩ := hsub
      obtain ⟨-, -, -, hrow, -⟩ := subvote_ok hok
      rw [System.pendingVotes, System.pendingVotes, hrow]
      exact .renew _ _
    · rw [System.pendingVotes, System.pendingVotes,
        perform_voteRefunds hok (fun votes e => hsub ⟨votes, e⟩) hrefund]
      exact .keep _

/-- Elections stay initialised. -/
theorem perform_isInit (hok : perform env s a = .ok (s', sent)) (h : s.electGstate.isInit = true) :
    s'.electGstate.isInit = true := by
  obtain ⟨s₁, heffect, hout⟩ := perform_effect hok
  have hsame : s'.electGstate.isInit = s₁.electGstate.isInit :=
    (congrArg (fun t : System => t.electGstate.isInit) hout :)
  rw [hsame]
  cases heffect with
  | settings quiet total main backup init => exact init h
  | block produced =>
    refine produceRewards_preserves (P := fun t => t.electGstate.isInit = true) produced h
      fun _ _ hs hstep => ?_
    cases hstep <;> exact hs
  | addvote => simpa using h
  | subvote => simpa using h
  | vote => simpa using h
  | _ => exact h

end Actions

-- ---------------------------------------------------------------------------
-- Refunds of stakes
-- ---------------------------------------------------------------------------

namespace Bandwidth

variable {env : Env} {b b' : Bandwidth} {source sender receiver : Name} {net cpu : Asset}
  {sent : List Sent} {n : Name}

/-- What `n` is owed for the stakes it took back, and since when. -/
def pendingStakes (t : Refunds) (n : Name) : Option (ℕ × ℤ) :=
  (t.find? n).map fun r => (r.requestTime, max 0 r.netAmount.amount + max 0 r.cpuAmount.amount)

theorem pendingStakes_some {t : Refunds} {r : RefundRequest} (h : t.find? n = some r) :
    pendingStakes t n =
      some (r.requestTime, max 0 r.netAmount.amount + max 0 r.cpuAmount.amount) := by
  rw [pendingStakes, h, Option.map_some]

theorem pendingStakes_none {t : Refunds} (h : t.find? n = none) : pendingStakes t n = none := by
  rw [pendingStakes, h, Option.map_none]

theorem pendingStakes_set {t : Refunds} {r : RefundRequest} (h : r.owner = n) :
    pendingStakes (t.set r) n =
      some (r.requestTime, max 0 r.netAmount.amount + max 0 r.cpuAmount.amount) := by
  subst h
  exact pendingStakes_some (Table.find?_set_self t r)

theorem pendingStakes_nonneg {t : Refunds} {claim : ℕ × ℤ} (h : claim ∈ pendingStakes t n) :
    0 ≤ claim.2 := by
  obtain ⟨r, -, rfl⟩ := Option.map_eq_some_iff.mp h
  exact add_nonneg (le_max_left _ _) (le_max_left _ _)

/-- What is pending is what the refund owes, when neither part of it is negative. -/
theorem pendingStakes_owed {core : Symbol} {t : Refunds} (h : ∀ r ∈ t.rows, RefundOk core r)
    (n : Name) : (pendingStakes t n).map Prod.snd = (t.find? n).map RefundRequest.owed := by
  cases hfind : t.find? n with
  | none => rw [pendingStakes_none hfind, Option.map_none, Option.map_none]
  | some r =>
    have hr := h r (Table.mem_of_find? hfind)
    rw [pendingStakes_some hfind, Option.map_some, Option.map_some, max_eq_right hr.net_nonneg,
      max_eq_right hr.cpu_nonneg, RefundRequest.owed]

theorem netAgainst_amount {amount balance amount' balance' : Asset}
    (h : netAgainst amount balance = .ok (amount', balance')) :
    amount'.amount = max 0 (amount.amount - balance.amount) := by
  simp only [netAgainst, Except.bind_ok_iff, Asset.sub_ok_iff] at h
  obtain ⟨rest, ⟨-, -, rfl⟩, h⟩ := h
  split_ifs at h with hneg
  · rw [← (Prod.mk.inj (Except.pure_ok_iff.mp h)).1]
    exact (max_eq_left hneg.le).symm
  · rw [← (Prod.mk.inj (Except.pure_ok_iff.mp h)).1]
    exact (max_eq_right (not_lt.mp hneg)).symm

theorem updateRefund_pending {now : TimePoint} {core : Symbol} {t t' : Refunds} {net' cpu' : Asset}
    {pending : Bool} (h : updateRefund now core t sender net cpu = .ok (t', net', cpu', pending))
    (n : Name) :
    Run.LockStep refundDelaySec now.secSinceEpoch (pendingStakes t n) 0 (pendingStakes t' n) := by
  have hother : ∀ t'' : Refunds, t''.find? n = t.find? n →
      Run.LockStep refundDelaySec now.secSinceEpoch (pendingStakes t n) 0 (pendingStakes t'' n) := by
    intro t'' hrow
    rw [pendingStakes, pendingStakes, hrow]
    exact .keep _
  unfold updateRefund at h
  cases hfind : t.find? sender with
  | some req =>
    have howner : req.owner = sender := Table.key_of_find? hfind
    simp only [hfind, Except.bind_ok_iff, check_ok_iff, exists_const, Prod.exists] at h
    obtain ⟨netAmount, netRest, hnet, cpuAmount, cpuRest, hcpu, hnet₀, hcpu₀, h⟩ := h
    have hnet := netAgainst_amount hnet
    have hcpu := netAgainst_amount hcpu
    by_cases hempty : netAmount.amount = 0 ∧ cpuAmount.amount = 0
    · simp only [if_pos hempty, Except.pure_ok_iff, Prod.mk.injEq] at h
      obtain ⟨rfl, -⟩ := h
      by_cases hsender : sender = n
      · rw [pendingStakes_none (t := t.erase sender) (by rw [Table.find?_erase, if_pos hsender.symm])]
        exact .settle _
      · exact hother _ (by rw [Table.find?_erase, if_neg (Ne.symm hsender)])
    · simp only [if_neg hempty, Except.pure_ok_iff, Prod.mk.injEq] at h
      obtain ⟨rfl, -⟩ := h
      by_cases hsender : sender = n
      · subst hsender
        rw [pendingStakes_some hfind, pendingStakes_set (by exact howner)]
        dsimp only
        split_ifs with hneg
        · exact .renew _ _
        · exact .shrink (by omega) (by omega)
      · exact hother _ (Table.find?_set_ne t fun e => hsender (howner.symm.trans e))
  | none =>
    simp only [hfind] at h
    split_ifs at h with hneg
    · simp only [Except.bind_ok_iff, Except.pure_ok_iff, Prod.exists, Prod.mk.injEq] at h
      obtain ⟨-, -, netAmount, _, hnet, cpuAmount, _, hcpu, rfl, -⟩ := h
      by_cases hsender : sender = n
      · subst hsender
        rw [pendingStakes_set rfl]
        exact .renew _ _
      · exact hother _ (Table.find?_set_ne t hsender)
    · obtain ⟨rfl, -⟩ := Prod.mk.inj (Except.pure_ok_iff.mp h)
      exact hother _ rfl

/-- Moving a stake leaves the lock of refunds only once elections are initialised, to unstake at
once. -/
theorem moveStake_pending {transfer : Bool} {t' : Refunds} (hn : n ≠ stakeAccount)
    (h : moveStake env b source sender receiver net cpu transfer = .ok (t', sent)) :
    Run.LockStep refundDelaySec env.now.secSinceEpoch (pendingStakes b.refunds n)
        (payments .stakes n (sent.flatMap (·.toMessages))) (pendingStakes t' n) ∨
      (b.system.electGstate.isInit = true ∧ source = n ∧ net.amount + cpu.amount < 0) := by
  have hstake : ∀ (quantity : Asset) (memo : String),
      (Inline.transfer source stakeAccount quantity memo).toMessage.payment .stakes n = 0 :=
    fun quantity memo => Message.payment_transfer _ _ _ (.inr hn.symm)
  unfold moveStake at h
  split_ifs at h with hsource hinit
  · simp only [moveAtOnce, Except.bind_ok_iff, check_ok_iff, exists_const, Except.pure_ok_iff,
      Prod.mk.injEq, Asset.add_ok_iff] at h
    obtain ⟨_, ⟨-, _, ⟨-, -, rfl⟩, h⟩, rfl, rfl⟩ := h
    by_cases hout : source = n ∧ net.amount + cpu.amount < 0
    · exact .inr ⟨hinit, hout.1, hout.2⟩
    · split_ifs at h with hpos hneg <;> obtain rfl := Except.pure_ok_iff.mp h <;> left
      · simp only [List.flatMap_cons, List.flatMap_nil, List.append_nil, Sent.toMessages,
          payments_cons, payments_nil, hstake, add_zero]
        exact .keep _
      · have hunstake : ∀ (quantity : Asset) (memo : String),
            (Inline.transfer stakeAccount source quantity memo).toMessage.payment .stakes n = 0 :=
          fun quantity memo => Message.payment_transfer _ _ _ (.inr fun e => hout ⟨e, hneg⟩)
        simp only [List.flatMap_cons, List.flatMap_nil, List.append_nil, Sent.toMessages,
          payments_cons, payments_nil, hunstake, add_zero]
        exact .keep _
      · exact .keep _
  · left
    simp only [moveByRefund, Except.bind_ok_iff, Prod.exists] at h
    obtain ⟨core, -, t, net', cpu', pending, hupdate, _, -, h⟩ := h
    have hlock : Run.LockStep refundDelaySec env.now.secSinceEpoch (pendingStakes b.refunds n) 0
        (pendingStakes t n) := by
      split_ifs at hupdate
      · exact updateRefund_pending hupdate n
      · obtain ⟨rfl, -⟩ := Prod.mk.inj (Except.ok.inj hupdate)
        exact .keep _
    have hpaid : t' = t ∧ payments .stakes n (sent.flatMap (·.toMessages)) = 0 := by
      split_ifs at h <;> obtain ⟨rfl, rfl⟩ := Prod.mk.inj (Except.pure_ok_iff.mp h) <;>
        simp [Sent.toMessages, hstake]
    rw [hpaid.1, hpaid.2]
    exact hlock
  · obtain ⟨rfl, rfl⟩ := Prod.mk.inj (Except.ok.inj h)
    exact .inl (.keep _)

/-- Staking pays nothing out of another account than its own. -/
theorem payments_between {c : Custodian} (hc : c ≠ .stakes) (hn : n ≠ stakeAccount)
    (h : ∀ m ∈ sent, m.Between source) : payments c n (sent.flatMap (·.toMessages)) = 0 := by
  refine payments_eq_zero fun m hm => ?_
  obtain ⟨o, ho, hm⟩ := List.mem_flatMap.mp hm
  have hbetween := h o ho
  cases o with
  | inline i =>
    obtain rfl := List.mem_singleton.mp hm
    cases i with
    | transfer sender receiver quantity memo =>
      refine Message.payment_transfer _ _ _ ?_
      rcases hbetween with ⟨-, rfl⟩ | ⟨rfl, -⟩
      · exact .inr hn.symm
      · exact .inl fun e => hc (Custodian.account_injective (c := .stakes) e).symm
    | _ => exact absurd hbetween id
  | _ => cases hm

theorem moves_between (h : ∀ m ∈ sent, m.Between source) :
    moves n (sent.flatMap (·.toMessages)) = 0 := by
  refine moves_eq_zero fun m hm => ?_
  obtain ⟨o, ho, hm⟩ := List.mem_flatMap.mp hm
  exact Sent.not_isMove (h o ho) hm

theorem changebw_pending {transfer : Bool} (hn : n ≠ stakeAccount)
    (hok : changebw env b sender receiver net cpu transfer = .ok (b', sent)) :
    Run.LockStep refundDelaySec env.now.secSinceEpoch (pendingStakes b.refunds n)
        (payments .stakes n (sent.flatMap (·.toMessages))) (pendingStakes b'.refunds n) ∨
      (b.system.electGstate.isInit = true ∧ sender = n ∧ net.amount + cpu.amount < 0) := by
  simp only [changebw, Except.bind_ok_iff, Prod.exists, Except.pure_ok_iff, Prod.mk.injEq] at hok
  obtain ⟨-, -, -, -, total, -, -, -, delbands, -, totals, -, -, -, refunds, sent', hmove,
    system, -, rfl, rfl⟩ := hok
  exact moveStake_pending hn hmove

theorem delegatebw_pending {transfer : Bool} (hn : n ≠ stakeAccount)
    (hok : delegatebw env b sender receiver net cpu transfer = .ok (b', sent)) :
    Run.LockStep refundDelaySec env.now.secSinceEpoch (pendingStakes b.refunds n)
      (payments .stakes n (sent.flatMap (·.toMessages))) (pendingStakes b'.refunds n) := by
  obtain ⟨-, -, hpos, hok⟩ := delegatebw_ok hok
  exact (changebw_pending hn hok).resolve_right fun h => absurd h.2.2 (not_lt.mpr hpos.le)

theorem undelegatebw_pending (hn : n ≠ stakeAccount)
    (hok : undelegatebw env b sender receiver net cpu = .ok (b', sent)) :
    Run.LockStep refundDelaySec env.now.secSinceEpoch (pendingStakes b.refunds n)
        (payments .stakes n (sent.flatMap (·.toMessages))) (pendingStakes b'.refunds n) ∨
      (b.system.electGstate.isInit = true ∧ sender = n) := by
  obtain ⟨-, -, hok⟩ := undelegatebw_ok hok
  exact (changebw_pending hn hok).imp id fun h => ⟨h.1, h.2.1⟩

theorem refund_pending {owner : Name} (hok : refund env b owner = .ok (b', sent)) :
    Run.LockStep refundDelaySec env.now.secSinceEpoch (pendingStakes b.refunds n)
      (payments .stakes n (sent.flatMap (·.toMessages))) (pendingStakes b'.refunds n) := by
  obtain ⟨req, quantity, hfind, -, hdue, hquantity, rfl, rfl⟩ := refund_ok hok
  obtain ⟨-, -, rfl⟩ := Asset.add_ok_iff.mp hquantity
  by_cases howner : owner = n
  · subst howner
    have hpaid : payments .stakes owner ([Sent.inline (.transfer stakeAccount owner
        ⟨req.netAmount.amount + req.cpuAmount.amount, req.netAmount.symbol⟩ "unstake")].flatMap
          (·.toMessages)) = req.netAmount.amount + req.cpuAmount.amount := by
      simp [Sent.toMessages, Inline.toMessage, Message.payment, Custodian.account]
    rw [hpaid, pendingStakes_some hfind,
      pendingStakes_none (t := b.refunds.erase owner) (by rw [Table.find?_erase, if_pos rfl])]
    exact .pay (seconds_le_iff.mp hdue) fun _ => by omega
  · have hpaid : payments .stakes n ([Sent.inline (.transfer stakeAccount owner
        ⟨req.netAmount.amount + req.cpuAmount.amount, req.netAmount.symbol⟩ "unstake")].flatMap
          (·.toMessages)) = 0 := by
      simp [Sent.toMessages, Inline.toMessage, Message.payment, howner]
    have hrow : pendingStakes (b.refunds.erase owner) n = pendingStakes b.refunds n := by
      rw [pendingStakes, Table.find?_erase, if_neg (Ne.symm howner), pendingStakes]
    rw [hpaid, hrow]
    exact .keep _

end Bandwidth

namespace Ram

variable {d : Doubles} {env : Env} {s s' : State} {a : Action} {sent : List Sent}

/-- Who trades RAM pays the market, is paid by it, or pays the fee. -/
theorem perform_ends (hok : perform d env s a = .ok (s', sent)) {sender receiver : Name}
    {quantity : Asset} {memo : String} (hm : .transfer sender receiver quantity memo ∈ sent) :
    sender = ramAccount ∨ receiver = ramAccount ∨ receiver = ramfeeAccount := by
  have hbuy : ∀ payer account quant, buyram d env s payer account quant = .ok (s', sent) →
      receiver = ramAccount ∨ receiver = ramfeeAccount := by
    intro payer account quant hok
    simp only [buyram, requireAuth, Except.bind_ok_iff, check_ok_iff, exists_const,
      Except.pure_ok_iff, Prod.exists, Prod.mk.injEq] at hok
    obtain ⟨-, -, s₁, -, core, -, -, -, es, -, es', out, -, -, row, -, -, -, rfl⟩ := hok
    rcases List.mem_cons.mp hm with hm | hm
    · exact .inl (Sent.transfer.inj hm).2.1
    · split_ifs at hm
      · exact .inr (Sent.transfer.inj (List.mem_singleton.mp hm)).2.1
      · exact absurd hm List.not_mem_nil
  cases a with
  | buyram payer account quant => exact .inr (hbuy payer account quant hok)
  | buyrambytes payer account bytes =>
    simp only [perform, buyrambytes, Except.bind_ok_iff] at hok
    obtain ⟨es, -, core, -, quant, -, hok⟩ := hok
    exact .inr (hbuy payer account quant hok)
  | sellram account bytes =>
    simp only [perform, sellram, Except.bind_ok_iff, check_ok_iff, exists_const] at hok
    obtain ⟨-, s₁, hs₁, -, hok⟩ := hok
    cases hrow : s₁.totals.find? account with
    | none => simp [hrow] at hok
    | some row =>
      simp only [hrow, State.getCoreSymbol, Except.bind_ok_iff, check_ok_iff, exists_const,
        Except.pure_ok_iff, Prod.exists, Prod.mk.injEq] at hok
      obtain ⟨-, es, -, _, ⟨-, rfl⟩, payment, -, es', out, -, -, -, -, fee, -, -, rfl⟩ := hok
      rcases List.mem_cons.mp hm with hm | hm
      · exact .inl (Sent.transfer.inj hm).1
      · split_ifs at hm
        · exact .inr (.inr (Sent.transfer.inj (List.mem_singleton.mp hm)).2.1)
        · exact absurd hm List.not_mem_nil
  | setram size =>
    simp only [perform, setram, Except.bind_ok_iff, Except.pure_ok_iff, Prod.mk.injEq] at hok
    obtain ⟨-, -, -, -, -, -, -, -, es, -, -, rfl⟩ := hok
    exact absurd hm List.not_mem_nil
  | setramrate rate =>
    simp only [perform, setramrate, Except.bind_ok_iff, Except.pure_ok_iff, Prod.mk.injEq] at hok
    obtain ⟨-, -, s₁, -, -, rfl⟩ := hok
    exact absurd hm List.not_mem_nil

theorem perform_payments {c : Custodian} {n : Name} (hc : c ≠ .ram) (hram : n ≠ ramAccount)
    (hfee : n ≠ ramfeeAccount) (hok : perform d env s a = .ok (s', sent)) :
    payments c n (sent.map (·.toMessage)) = 0 := by
  refine payments_eq_zero fun m hm => ?_
  obtain ⟨o, ho, rfl⟩ := List.mem_map.mp hm
  cases o with
  | transfer sender receiver quantity memo =>
    refine Message.payment_transfer _ _ _ ?_
    rcases perform_ends hok ho with rfl | rfl | rfl
    · exact .inl fun e => hc (ramAccount_eq.mp e)
    · exact .inr hram.symm
    · exact .inr hfee.symm
  | openBalance => rfl

end Ram

-- ---------------------------------------------------------------------------
-- Transactions
-- ---------------------------------------------------------------------------

namespace World

variable {d : Ram.Doubles} {w w' : World} {tx : Transaction} {sent : List Message} {n : Name}

/-- The call unstakes tokens of `n`. -/
def Call.unstakes (n : Name) : Call → Prop
  | .system (.undelegatebw sender _ _ _) => sender = n
  | _ => False

/-- `n` is none of the accounts that keep what is staked, sold or paid as a fee. -/
structure Outside (n : Name) : Prop where
  custodian : ∀ c : Custodian, n ≠ c.account
  fee : n ≠ Ram.ramfeeAccount

/-- What a transaction does to the pace of `n`. -/
structure Paced (n : Name) (tx : Transaction) (w w' : World) (sent : List Message) : Prop where
  moves : n ≠ armoniaadmin →
    (moves n sent = 0 ∧
        (w'.system.voter n).lastUnvotedTime = (w.system.voter n).lastUnvotedTime) ∨
      (moves n sent = 1 ∧
        Slot.toTimePoint (w.system.voter n).lastUnvotedTime + seconds voteIntervalSec < tx.env.now ∧
        (w'.system.voter n).lastUnvotedTime = TimePoint.toSlot tx.env.now)
  votes : Outside n → Run.LockStep refundDelaySec tx.env.now.secSinceEpoch
    (w.system.pendingVotes n) (payments .votes n sent) (w'.system.pendingVotes n)
  stakes : Outside n → Run.LockStep refundDelaySec tx.env.now.secSinceEpoch
      (Bandwidth.pendingStakes w.bandwidth.refunds n) (payments .stakes n sent)
      (Bandwidth.pendingStakes w'.bandwidth.refunds n) ∨
    (w.system.electGstate.isInit = true ∧ tx.call.unstakes n)
  init : w.system.electGstate.isInit = true → w'.system.electGstate.isInit = true

/-- A step that leaves votes and stakes alone. -/
theorem Paced.of_quiet (hsystem : w'.system = w.system)
    (hrefunds : w'.bandwidth.refunds = w.bandwidth.refunds) (hmoves : Amax.moves n sent = 0)
    (hpaid : Outside n → ∀ c : Custodian, c = .votes ∨ c = .stakes → payments c n sent = 0) :
    Paced n tx w w' sent := by
  refine ⟨fun _ => .inl ⟨hmoves, by rw [hsystem]⟩, fun hn => ?_, fun hn => .inl ?_, fun h => ?_⟩
  · rw [hpaid hn .votes (.inl rfl), hsystem]
    exact .keep _
  · rw [hpaid hn .stakes (.inr rfl), hrefunds]
    exact .keep _
  · rw [hsystem]
    exact h

section Delivery

variable {env : Env} {m : Message}

/-- The token contract sends nothing, and the reward contract what it pays. -/
theorem deliver_sent (hok : deliver env w m = .ok (w', sent)) : ∀ m' ∈ sent,
    ∃ auths voter quantity,
      m' = .token auths (.transfer rewardAccount voter quantity "voted rewards") := by
  intro m' hm'
  cases m with
  | token auths a =>
    obtain ⟨token, notified, reward, -, -, rfl, rfl⟩ := deliver_token_ok hok
    exact absurd hm' List.not_mem_nil
  | reward auths a =>
    obtain ⟨reward, flows, -, rfl, rfl⟩ := deliver_reward_ok hok
    obtain ⟨flow, -, hm'⟩ := List.mem_flatMap.mp hm'
    cases flow with
    | received => cases hm'
    | paid voter quantity => exact ⟨_, _, _, List.mem_singleton.mp hm'⟩

theorem deliver_payments {c : Custodian} (hc : c ≠ .rewards)
    (hok : deliver env w m = .ok (w', sent)) : payments c n sent = 0 := by
  refine payments_eq_zero fun m' hm' => ?_
  obtain ⟨auths, voter, quantity, rfl⟩ := deliver_sent hok m' hm'
  exact Message.payment_transfer _ _ _ (.inl fun e => hc (rewardAccount_eq.mp e))

theorem deliver_moves (hok : deliver env w m = .ok (w', sent)) : moves n sent = 0 := by
  refine moves_eq_zero fun m' hm' => ?_
  obtain ⟨auths, voter, quantity, rfl⟩ := deliver_sent hok m' hm'
  rfl

theorem deliver_bandwidth (hok : deliver env w m = .ok (w', sent)) :
    w'.bandwidth = w.bandwidth := by
  cases m with
  | token auths a =>
    obtain ⟨token, notified, reward, -, -, rfl, -⟩ := deliver_token_ok hok
    rfl
  | reward auths a =>
    obtain ⟨reward, flows, -, rfl, -⟩ := deliver_reward_ok hok
    rfl

/-- The token contract and the reward contract leave votes and stakes alone. -/
theorem deliver_paced (hok : deliver env w m = .ok (w', sent)) : Paced n tx w w' sent := by
  have hbandwidth := deliver_bandwidth hok
  refine .of_quiet (congrArg Bandwidth.system hbandwidth) (congrArg Bandwidth.refunds hbandwidth)
    (deliver_moves hok) fun _ c hc => deliver_payments ?_ hok
  rcases hc with rfl | rfl <;> decide

/-- Messages pay what they pay with all that is sent in turn, when each of them does. -/
private theorem gathered_payments {c : Custodian} {depth : ℕ}
    (hstep : ∀ w m w', deliverFrom env depth w m = .ok w' →
      payments c n (deliveredFrom env depth w m) = m.payment c n)
    (hok : sent.foldlM (deliverFrom env depth) w = .ok w') :
    payments c n (Fold.gathered (deliverFrom env depth) (deliveredFrom env depth) w sent) =
      payments c n sent :=
  Fold.sum_gathered hstep hok

/-- Of all that is delivered with a message, the message alone may pay out of the accounts of votes,
stakes and RAM. -/
theorem deliveredFrom_payments {c : Custodian} (hc : c ≠ .rewards) (depth : ℕ)
    (hok : deliverFrom env depth w m = .ok w') :
    payments c n (deliveredFrom env depth w m) = m.payment c n := by
  induction depth generalizing w m w' with
  | zero => cases hok
  | succ depth ih =>
    simp only [deliverFrom, Except.bind_ok_iff, Prod.exists] at hok
    obtain ⟨w₁, sent, hfirst, hsent⟩ := hok
    rw [deliveredFrom, hfirst, payments_cons]
    dsimp only
    rw [gathered_payments (fun _ _ _ hok => ih hok) hsent, deliver_payments hc hfirst, add_zero]

end Delivery

section Actions

variable {env : Env} {call : Call} {a : Action} {b : Bandwidth} {out : List Bandwidth.Sent}

/-- An action that does not touch the tables of bandwidth. -/
theorem onSystem_paced
    (hok : Bandwidth.onSystem w.bandwidth (Amax.perform (w.systemEnv env) w.system a) =
      .ok (b, out)) :
    Paced n ⟨env, call⟩ w { w with bandwidth := b } (out.flatMap (·.toMessages)) := by
  obtain ⟨s, sent, hperform, rfl, rfl⟩ := Bandwidth.onSystem_ok hok
  rw [Bandwidth.toMessages_inline]
  have hmoves := fun hne => perform_moves (n := n) hne hperform
  have hvotes := fun hn : Outside n => perform_pendingVotes hn.custodian hperform
  refine ⟨hmoves, hvotes, fun hn => .inl ?_, perform_isInit hperform⟩
  have hpaid := perform_payments hn.custodian hperform .stakes
  rw [hpaid.resolve_right fun h => absurd h.1 (by decide)]
  exact .keep _

/-- An action that moves stakes sends nothing about votes. -/
theorem changebw_paced {source : Name}
    (hperform : Amax.perform (w.systemEnv env) w.system a = .ok (b.system, []))
    (hbetween : ∀ m ∈ out, m.Between source)
    (hstakes : Outside n → Run.LockStep refundDelaySec env.now.secSinceEpoch
        (Bandwidth.pendingStakes w.bandwidth.refunds n)
        (payments .stakes n (out.flatMap (·.toMessages)))
        (Bandwidth.pendingStakes b.refunds n) ∨
      (w.system.electGstate.isInit = true ∧ call.unstakes n)) :
    Paced n ⟨env, call⟩ w { w with bandwidth := b } (out.flatMap (·.toMessages)) := by
  have hmoves := fun hne => perform_moves (n := n) hne hperform
  refine ⟨fun hne => ?_, fun hn => ?_, hstakes, perform_isInit hperform⟩
  · rw [Bandwidth.moves_between hbetween]
    exact (hmoves hne).imp (fun h => ⟨rfl, h.2⟩) fun h => absurd h.1 (by simp [moves])
  · have hvotes := perform_pendingVotes hn.custodian hperform
    rw [List.map_nil, payments_nil] at hvotes
    rw [Bandwidth.payments_between (c := .votes) (by decide) (hn.custodian .stakes) hbetween]
    exact hvotes

theorem performSystem_paced (hok : performSystem env w a = .ok (b, out)) :
    Paced n ⟨env, .system a⟩ w { w with bandwidth := b } (out.flatMap (·.toMessages)) := by
  cases a with
  | delegatebw sender receiver net cpu transfer =>
    have hbetween := Bandwidth.changebw_between (Bandwidth.delegatebw_ok hok).2.2.2
    have hperform := Bandwidth.delegatebw_system hok
    exact changebw_paced (a := .delegatebw sender receiver net cpu transfer) hperform hbetween
      fun hn => .inl (Bandwidth.delegatebw_pending (hn.custodian .stakes) hok)
  | undelegatebw sender receiver net cpu =>
    have hbetween := Bandwidth.changebw_between (Bandwidth.undelegatebw_ok hok).2.2
    have hperform := Bandwidth.undelegatebw_system hok
    exact changebw_paced (a := .undelegatebw sender receiver net cpu) hperform hbetween
      fun hn => Bandwidth.undelegatebw_pending (hn.custodian .stakes) hok
  | _ => exact onSystem_paced hok

theorem refund_paced {owner : Name}
    (hok : Bandwidth.refund (w.bandwidthEnv env) w.bandwidth owner = .ok (b, out)) :
    Paced n ⟨env, call⟩ w { w with bandwidth := b } (out.flatMap (·.toMessages)) := by
  have hbetween := (Bandwidth.refund_between hok).2
  have hstakes := Bandwidth.refund_pending (n := n) hok
  obtain ⟨req, quantity, -, -, -, -, rfl, -⟩ := Bandwidth.refund_ok hok
  refine ⟨fun _ => .inl ⟨Bandwidth.moves_between hbetween, rfl⟩, fun hn => ?_,
    fun _ => .inl hstakes, id⟩
  rw [Bandwidth.payments_between (c := .votes) (by decide) (hn.custodian .stakes) hbetween]
  exact .keep _

end Actions

theorem perform_paced (hok : perform d tx.env w tx.call = .ok (w', sent)) :
    Paced n tx w w' sent := by
  obtain ⟨env, call⟩ := tx
  cases call with
  | system a =>
    obtain ⟨b, out, hstep, rfl, rfl⟩ := perform_system_ok hok
    exact performSystem_paced hstep
  | refund owner =>
    obtain ⟨b, out, hstep, rfl, rfl⟩ := perform_refund_ok hok
    exact refund_paced hstep
  | ram a =>
    obtain ⟨ram, out, hstep, rfl, rfl⟩ := perform_ram_ok hok
    refine .of_quiet rfl rfl (moves_eq_zero fun m hm => ?_) fun hn c hc => ?_
    · obtain ⟨o, -, rfl⟩ := List.mem_map.mp hm
      exact o.not_isMove
    · refine Ram.perform_payments ?_ (hn.custodian .ram) hn.fee hstep
      rcases hc with rfl | rfl <;> decide
  | reward a => exact deliver_paced (m := .reward _ a) hok
  | token a => exact deliver_paced (m := .token _ a) hok

/-- What is sent concerns neither votes nor stakes. -/
theorem deliverAll_bandwidth {env : Env} {depth : ℕ}
    (hok : sent.foldlM (deliverFrom env depth) w = .ok w') : w'.bandwidth = w.bandwidth :=
  deliverFrom_preserves (P := fun w₁ => w₁.bandwidth = w.bandwidth)
    (fun _ _ _ _ h hok => (deliver_bandwidth hok).trans h) depth rfl hok

theorem transact_paced (hok : transact d tx w = .ok (w', sent)) : Paced n tx w w' sent := by
  obtain ⟨w₁, hperform, hsent⟩ := transact_ok hok
  have hbandwidth := deliverAll_bandwidth hsent
  obtain ⟨hmoves, hvotes, hstakes, hinit⟩ := perform_paced (n := n) hperform
  have hsystem : w'.system = w₁.system := congrArg Bandwidth.system hbandwidth
  exact ⟨by rwa [hsystem], by rwa [hsystem], by rwa [hbandwidth], by rwa [hsystem]⟩

/-- A call pays nothing itself out of an account that does not sign. -/
theorem call_payments {c : Custodian} (hauth : tx.env.hasAuth c.account = false)
    (hok : perform d tx.env w tx.call = .ok (w', sent)) :
    payments c n (tx.call.toMessages tx.env.hasAuth) = 0 := by
  refine payments_eq_zero fun m hm => ?_
  obtain ⟨env, call⟩ := tx
  cases call with
  | system | refund | ram => cases hm
  | reward a =>
    obtain rfl := List.mem_singleton.mp hm
    rfl
  | token a =>
    obtain rfl := List.mem_singleton.mp hm
    cases a with
    | transfer sender receiver quantity memo =>
      obtain ⟨token, notified, reward, htoken, -⟩ := deliver_token_ok hok
      obtain ⟨hsigned, -⟩ := Token.transfer_ok htoken
      refine Message.payment_transfer _ _ _ (.inl ?_)
      rintro rfl
      exact Bool.false_ne_true (hauth.symm.trans hsigned)
    | _ => rfl

/-- Nothing is paid out of an account that does not sign but by what the contracts send. -/
theorem delivered_payments {c : Custodian} (hc : c ≠ .rewards)
    (hauth : tx.env.hasAuth c.account = false) (hok : transact d tx w = .ok (w', sent)) :
    payments c n (tx.delivered d w) = payments c n sent := by
  obtain ⟨w₁, hperform, hsent⟩ := transact_ok hok
  rw [Transaction.delivered, hperform, payments_append, call_payments hauth hperform, zero_add]
  exact gathered_payments (fun _ _ _ hok => deliveredFrom_payments hc _ hok) hsent

-- ---------------------------------------------------------------------------
-- Runs
-- ---------------------------------------------------------------------------

/-- When `n` last changed its vote or took votes back. -/
def clock (n : Name) (w : World) : Slot := (w.system.voter n).lastUnvotedTime

/-- A day has passed since the last move. -/
def Ready (last : Slot) (tx : Transaction) : Prop :=
  Slot.toTimePoint last + seconds voteIntervalSec < tx.env.now

variable {txs : List Transaction}

/-- In a window of one day, from any state and in any order, a voter that is not the administrator
changes its vote or takes votes back at most once. -/
theorem moves_once (hne : n ≠ armoniaadmin) {opened : Slot}
    (hwindow : ∀ tx ∈ txs, Slot.toTimePoint opened ≤ tx.env.now ∧
      tx.env.now ≤ Slot.toTimePoint opened + seconds voteIntervalSec) :
    Run.tally (transact d) (fun _ sent => moves n sent) w txs ≤ 1 := by
  have hstep : ∀ (w : World) (tx : Transaction) w' sent,
      (Slot.toTimePoint opened ≤ tx.env.now ∧
        tx.env.now ≤ Slot.toTimePoint opened + seconds voteIntervalSec) →
      transact d tx w = .ok (w', sent) →
      (moves n sent = 0 ∧ clock n w' = clock n w) ∨
        (moves n sent = 1 ∧ Ready (clock n w) tx ∧ opened ≤ clock n w') := by
    intro w tx w' sent hwindow hok
    refine ((transact_paced hok).moves hne).imp id fun ⟨hmoves, hready, hclock⟩ => ?_
    refine ⟨hmoves, hready, ?_⟩
    rw [clock, hclock]
    exact TimePoint.le_toSlot hwindow.1
  have hpause : ∀ (w : World) (tx : Transaction) last,
      (Slot.toTimePoint opened ≤ tx.env.now ∧
        tx.env.now ≤ Slot.toTimePoint opened + seconds voteIntervalSec) →
      opened ≤ last → ¬Ready last tx := by
    intro w tx last hwindow hlast
    have hle : Slot.toTimePoint opened ≤ Slot.toTimePoint last :=
      Nat.mul_le_mul_right _ (Nat.add_le_add_right (Nat.mul_le_mul_right _ hlast) _)
    exact not_lt.mpr (hwindow.2.trans (Nat.add_le_add_right hle _))
  exact Run.paced hstep hpause (Run.along_of_forall hwindow w)

/-- A voter takes votes back, and its vote for others on the next day comes too early. -/
theorem moves_once_voted :
    Run.tally (transact integers) (fun _ sent => moves 1 sent)
      (final integers (genesis { token := Token.State.final {} created₀ }) voted) [
        ⟨day 8, .system (.refundvote 1)⟩, ⟨day 8, .system (.subvote 1 ⟨20, voteSymbol⟩)⟩,
        ⟨day 9, .system (.vote 1 [])⟩] ≤ 1 := by
  have hwindow : ∀ tx ∈ ([⟨day 8, .system (.refundvote 1)⟩,
      ⟨day 8, .system (.subvote 1 ⟨20, voteSymbol⟩)⟩,
      ⟨day 9, .system (.vote 1 [])⟩] : List Transaction),
      Slot.toTimePoint 1708012800 ≤ tx.env.now ∧
        tx.env.now ≤ Slot.toTimePoint 1708012800 + seconds voteIntervalSec := by
    intro tx htx
    simp only [List.mem_cons, List.not_mem_nil, or_false] at htx
    rcases htx with rfl | rfl | rfl <;> decide
  exact moves_once (by decide) hwindow

/-- In a window of three days after any run of careful transactions, whatever happens in it and in
whatever order, `n` is paid no more out of the account of the votes, which signs nothing, than the
refund of votes it waited for when the window opened. The same holds of the stakes until elections
are initialised, and after that while no administrator unstakes tokens of `n`. -/
theorem unbonding {env : Env} {created : List Token.Transaction} {version : ℕ} {core : Symbol}
    {w₀ : World} {pre : List Transaction} {opened : ℕ}
    (hinit : init env { token := Token.State.final {} created } version core = .ok w₀)
    (hcareful : Run.Along (transact d) Careful w₀ pre) (hn : Outside n)
    (hwindow : ∀ tx ∈ txs, seconds opened ≤ tx.env.now ∧
      tx.env.now < seconds (opened + refundDelaySec)) :
    let w := final d w₀ pre
    let paid := fun c => Run.total (transact d) (fun w tx => payments c n (tx.delivered d w)) w txs
    ((∀ tx ∈ txs, tx.env.hasAuth voteAccount = false) →
      paid .votes ≤ ((w.system.voteRefunds.find? n).map fun r => 10000 * r.votes.amount).getD 0) ∧
    ((∀ tx ∈ txs, tx.env.hasAuth stakeAccount = false) →
      (final d w txs).system.electGstate.isInit = false ∨ (∀ tx ∈ txs, ¬tx.call.unstakes n) →
      paid .stakes ≤ ((w.bandwidth.refunds.find? n).map RefundRequest.owed).getD 0) := by
  have hcustody := run_custody hinit hcareful
  generalize final d w₀ pre = w at hcustody ⊢
  have hseconds : ∀ tx ∈ txs, opened ≤ tx.env.now.secSinceEpoch ∧
      tx.env.now.secSinceEpoch < opened + refundDelaySec := fun tx htx =>
    ⟨seconds_le_iff.mp (hwindow tx htx).1, not_le.mp fun h =>
      absurd (seconds_le_iff.mpr h) (not_le.mpr (hwindow tx htx).2)⟩
  refine ⟨fun hunsigned => ?_, fun hunsigned hregime => ?_⟩
  · have hpending : ∀ claim ∈ w.system.pendingVotes n, 0 ≤ claim.2 := by
      intro claim hclaim
      obtain ⟨r, hr, rfl⟩ := Option.map_eq_some_iff.mp hclaim
      have hpos := hcustody.votes.refund_pos r (Table.mem_of_find? hr)
      exact mul_nonneg (by decide) hpos.le
    have hlocked := @Run.locked World Transaction Abort Message (transact d)
      (fun w => w.system.pendingVotes n) (fun _ => False) (fun tx => tx.env.now.secSinceEpoch)
      (fun w tx => payments .votes n (tx.delivered d w)) (fun _ tx => tx ∈ txs) refundDelaySec opened
      (fun w tx w' sent htx hok => by
        refine .inr ⟨id, ?_⟩
        rw [delivered_payments (by decide) (hunsigned tx htx) hok]
        exact (transact_paced hok).votes hn)
      (fun _ _ _ _ _ h => h) w txs hpending (Run.along_of_forall (fun tx htx => htx) w) hseconds
    rw [System.pendingVotes, Option.map_map] at hlocked
    exact hlocked.resolve_left id
  · -- the lock is left when an administrator unstakes after the elections are initialised
    have hfree : ∀ (w : World) (tx : Transaction) w' sent, transact d tx w = .ok (w', sent) →
        w.system.electGstate.isInit = true ∧ (∃ tx ∈ txs, tx.call.unstakes n) →
        w'.system.electGstate.isInit = true ∧ ∃ tx ∈ txs, tx.call.unstakes n :=
      fun w tx w' sent hok h => ⟨(transact_paced (n := n) hok).init h.1, h.2⟩
    have hlocked := @Run.locked World Transaction Abort Message (transact d)
      (fun w => Bandwidth.pendingStakes w.bandwidth.refunds n)
      (fun w => w.system.electGstate.isInit = true ∧ ∃ tx ∈ txs, tx.call.unstakes n)
      (fun tx => tx.env.now.secSinceEpoch) (fun w tx => payments .stakes n (tx.delivered d w))
      (fun _ tx => tx ∈ txs) refundDelaySec opened
      (fun w tx w' sent htx hok => by
        by_cases hinit : w.system.electGstate.isInit = true ∧ ∃ tx ∈ txs, tx.call.unstakes n
        · exact .inl (hfree w tx w' sent hok hinit)
        · refine .inr ⟨hinit, ?_⟩
          rw [delivered_payments (by decide) (hunsigned tx htx) hok]
          exact ((transact_paced hok).stakes hn).resolve_right fun h => hinit ⟨h.1, tx, htx, h.2⟩)
      hfree w txs (fun _ => Bandwidth.pendingStakes_nonneg)
      (Run.along_of_forall (fun tx htx => htx) w) hseconds
    rw [Bandwidth.pendingStakes_owed hcustody.refunds] at hlocked
    refine hlocked.resolve_left fun hleft => ?_
    obtain ⟨hinit, tx, htx, hunstakes⟩ := hleft
    rcases hregime with hnot | hnone
    · exact Bool.false_ne_true (hnot.symm.trans hinit)
    · exact hnone tx htx hunstakes

/-- A voter asks votes back again on the day its refund is due, and is sent tokens by another
account. It is paid the refund alone. -/
theorem unbonding_voted :
    Run.total (transact integers) (fun w tx => payments .votes 1 (tx.delivered integers w))
      (final integers (genesis { token := Token.State.final {} created₀ }) voted) [
        ⟨day 8, .system (.refundvote 1)⟩, ⟨day 8, .system (.subvote 1 ⟨20, voteSymbol⟩)⟩,
        ⟨day 9, .token (.transfer 2 1 ⟨1000, amax⟩ "")⟩,
        ⟨day 10, .system (.refundvote 1)⟩] ≤ 400000 := by
  have hcareful : Run.Along (transact integers) Careful
      (genesis { token := Token.State.final {} created₀ }) voted := by decide +kernel
  have hn : Outside 1 := ⟨fun c => by cases c <;> decide, by decide⟩
  have hrow : ((final integers (genesis { token := Token.State.final {} created₀ })
      voted).system.voteRefunds.find? 1).map (fun r => 10000 * r.votes.amount) = some 400000 := by
    decide +kernel
  have hwindow : ∀ tx ∈ ([⟨day 8, .system (.refundvote 1)⟩,
      ⟨day 8, .system (.subvote 1 ⟨20, voteSymbol⟩)⟩,
      ⟨day 9, .token (.transfer 2 1 ⟨1000, amax⟩ "")⟩,
      ⟨day 10, .system (.refundvote 1)⟩] : List Transaction),
      (seconds 1800691200 ≤ tx.env.now ∧ tx.env.now < seconds (1800691200 + refundDelaySec)) ∧
        tx.env.hasAuth voteAccount = false := by
    intro tx htx
    simp only [List.mem_cons, List.not_mem_nil, or_false] at htx
    rcases htx with rfl | rfl | rfl | rfl <;> decide +kernel
  have hbound := (unbonding init_genesis hcareful hn fun tx htx => (hwindow tx htx).1).1
    fun tx htx => (hwindow tx htx).2
  rw [hrow] at hbound
  exact hbound

end World

end Amax
