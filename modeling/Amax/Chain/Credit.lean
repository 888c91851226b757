-- SUMMARY: What every action sends, counted as what it adds to the accounts that hold core tokens for others, against what it changes in what is owed.
import Amax.Chain.World
import Amax.Ram.Reserve
import Amax.System.Backing
import Amax.System.Staking
import Amax.Token.Movement
import Mathlib.Data.Fintype.Basic

/-! # Credits

Votes, stakes, the RAM market and the rewards of voters are each kept in tokens
of an account of their own. What an action adds to what one of these accounts
owes, it sends to it; and it sends nothing out of it that it did not owe. -/

namespace Amax

-- ---------------------------------------------------------------------------
-- Custodians
-- ---------------------------------------------------------------------------

/-- The accounts that hold core tokens for others. -/
inductive Custodian where
  | votes
  | stakes
  | ram
  | rewards
  deriving DecidableEq

instance : Fintype Custodian where
  elems := {.votes, .stakes, .ram, .rewards}
  complete c := by cases c <;> decide

def Custodian.account : Custodian → Name
  | .votes => voteAccount
  | .stakes => stakeAccount
  | .ram => Ram.ramAccount
  | .rewards => rewardAccount

/-- The core tokens that the contracts owe to others out of the account of a custodian. -/
def World.owed (w : World) : Custodian → ℤ
  | .votes => 10000 *
      (w.system.voters.sum (·.votes.amount) + w.system.voteRefunds.sum (·.votes.amount))
  | .stakes => w.bandwidth.delbands.sum DelegatedBandwidth.stake +
      w.bandwidth.refunds.sum RefundRequest.owed
  | .ram => w.ram.totalRamStake
  | .rewards => w.reward.producers.sum (·.allocatingRewards) +
      w.reward.voters.sum (·.unclaimedRewards)

/-- What the delivery of a message adds to what a custodian has and does not owe. Rewards that come
in are owed at once. -/
def Message.credit (core : Symbol) (c : Custodian) : Message → ℤ
  | .token _ (.transfer sender receiver quantity _) =>
    if sender = receiver ∨ quantity.symbol ≠ core then 0
    else (if receiver = c.account ∧ c ≠ .rewards then quantity.amount else 0) -
      if sender = c.account then quantity.amount else 0
  | _ => 0

def credits (core : Symbol) (c : Custodian) (l : List Message) : ℤ := (l.map (·.credit core c)).sum

/-- A message that takes tokens of a custodian by a transfer only. -/
def Message.Safe : Message → Prop
  | .token auths (.retire _ _) => ∀ c : Custodian, auths c.account = false
  | .token _ (.slashblack target _ _) => ∀ c : Custodian, target ≠ c.account
  | _ => True

theorem Inline.safe (i : Inline) : i.toMessage.Safe := by
  cases i <;> exact trivial

theorem Ram.Sent.safe (m : Ram.Sent) : m.toMessage.Safe := by
  cases m <;> exact trivial

theorem Bandwidth.Sent.safe {m : Bandwidth.Sent} {message : Message}
    (h : message ∈ m.toMessages) : message.Safe := by
  cases m with
  | inline i =>
    obtain rfl := List.mem_singleton.mp h
    exact i.safe
  | _ => cases h

@[simp] theorem credits_nil (core : Symbol) (c : Custodian) : credits core c [] = 0 := rfl

@[simp] theorem credits_cons (core : Symbol) (c : Custodian) (m : Message) (l : List Message) :
    credits core c (m :: l) = m.credit core c + credits core c l := by
  simp [credits]

@[simp] theorem credits_append (core : Symbol) (c : Custodian) (l l' : List Message) :
    credits core c (l ++ l') = credits core c l + credits core c l' := by
  simp [credits]

theorem Custodian.account_injective {c c' : Custodian} (h : c.account = c'.account) : c = c' := by
  revert h
  cases c <;> cases c' <;> decide

theorem rewardAccount_eq {c : Custodian} : rewardAccount = c.account ↔ c = .rewards :=
  ⟨fun h => (Custodian.account_injective (c := .rewards) h).symm, fun h => h ▸ rfl⟩

theorem self_ne_account (c : Custodian) : self ≠ c.account := by
  cases c <;> decide

-- ---------------------------------------------------------------------------
-- Rewards
-- ---------------------------------------------------------------------------

namespace Reward

variable {r r' : State} {flows out : List Flow} {tx : Transaction}

/-- What is owed is what came in and was not paid. -/
theorem Books.owed_eq (h : Books r flows) :
    r.producers.sum (·.allocatingRewards) + r.voters.sum (·.unclaimedRewards) =
      received flows - paid flows := by
  have hallocating := h.ledger.sum_allocating
  have hallocated := h.ledger.sum_allocated
  have hearned : r.voters.sum (·.earned) =
      r.voters.sum (·.unclaimedRewards) + r.voters.sum (·.claimedRewards) :=
    r.voters.sum_add _ _
  rw [h.received_eq, h.paid_eq]
  omega

theorem transact_coreSymbol (h : Ledger r) (hok : transact tx r = .ok (r', flows)) :
    r'.coreSymbol = r.coreSymbol := by
  cases hv : tx.action.voter with
  | some voter =>
    obtain ⟨v', ha⟩ := transact_voter h hok hv
    rw [ha.state]
  | none =>
    simp only [transact, Except.bind_ok_iff, check_ok_iff, exists_const] at hok
    replace hok := hok.2
    cases htx : tx.action with
    | regproducer p =>
      rw [htx] at hok
      simp only [regproducer, Except.bind_ok_iff, Except.pure_ok_iff, Prod.mk.injEq] at hok
      obtain ⟨-, -, -, -, -, -, rfl, -⟩ := hok
      rfl
    | ontransfer sender receiver quantity =>
      rw [htx] at hok
      rcases ontransfer_ok h hok with ⟨-, rfl, -⟩ | ⟨-, -, -, _, -, rfl⟩
      · rfl
      · rfl
    | _ => simp [htx, Action.voter] at hv

/-- What an action pays out is the claim of one voter. -/
theorem transact_flows (hreceiver : tx.env.firstReceiver ≠ coreToken)
    (hok : transact tx r = .ok (r', flows)) :
    flows = [] ∨ ∃ voter quantity, 0 < quantity ∧ flows = [.paid voter quantity] := by
  simp only [transact, Except.bind_ok_iff, check_ok_iff, exists_const] at hok
  replace hok := hok.2
  have hclaim : ∀ voter, claim tx.env r voter = .ok (r', flows) →
      ∃ voter quantity, 0 < quantity ∧ flows = [.paid voter quantity] := by
    intro voter hok
    unfold claim at hok
    cases hv : r.voters.find? voter with
    | none => simp [hv] at hok
    | some v =>
      simp only [hv, Except.bind_ok_iff, check_ok_iff, exists_const, Except.pure_ok_iff,
        Prod.mk.injEq] at hok
      obtain ⟨-, st, -, hpos, -, _, -, -, rfl⟩ := hok
      exact ⟨voter, _, hpos, rfl⟩
  cases htx : tx.action with
  | claimrewards voter =>
    rw [htx] at hok
    simp only [claimrewards, requireAuth, Except.bind_ok_iff, check_ok_iff, exists_const] at hok
    exact .inr (hclaim voter hok.2)
  | claimfor submitter voter =>
    rw [htx] at hok
    simp only [claimfor, requireAuth, Except.bind_ok_iff, check_ok_iff, exists_const] at hok
    exact .inr (hclaim voter hok.2)
  | ontransfer sender receiver quantity =>
    rw [htx] at hok
    simp only [ontransfer, if_neg fun h : tx.env.firstReceiver = coreToken ∧ _ => hreceiver h.1,
      Except.pure_ok_iff, Prod.mk.injEq] at hok
    exact .inl hok.2.symm
  | regproducer p =>
    rw [htx] at hok
    simp only [regproducer, Except.bind_ok_iff, Except.pure_ok_iff, Prod.mk.injEq] at hok
    obtain ⟨-, -, -, -, -, -, -, rfl⟩ := hok
    exact .inl rfl
  | addvote voter votes | subvote voter votes =>
    rw [htx] at hok
    simp only [addvote, subvote, changeVote, Except.bind_ok_iff, Except.pure_ok_iff,
      Prod.mk.injEq] at hok
    obtain ⟨-, -, -, -, -, -, -, -, -, -, -, -, _, -, _, -, -, -, -, rfl⟩ := hok
    exact .inl rfl
  | voteproducer voter producers =>
    rw [htx] at hok
    simp only [voteproducer, Except.bind_ok_iff, Except.pure_ok_iff, Prod.mk.injEq] at hok
    obtain ⟨-, -, -, -, -, -, -, -, _, -, _, -, _, -, -, rfl⟩ := hok
    exact .inl rfl

end Reward

-- ---------------------------------------------------------------------------
-- The system contract
-- ---------------------------------------------------------------------------

section System

variable {core : Symbol} {env : Env} {s s' : System} {a : Action} {sent : List Inline}
  {c : Custodian}

theorem addvote_auth {voter : Name} {votes : Asset}
    (hok : addvote env s voter votes = .ok (s', sent)) : env.hasAuth voter = true := by
  simp only [addvote, requireAuth, Except.bind_ok_iff, check_ok_iff, exists_const] at hok
  exact hok.1

/-- What a claim sends: the rewards are issued and go to the producer, which shares a part of
them. -/
theorem claimrewards_sent {submitter owner : Name}
    (hok : claimrewards env s submitter owner = .ok (s', sent)) :
    ∃ q share : Asset, ∃ shared : List Inline, 0 < q.amount ∧ share.symbol = q.symbol ∧
      0 ≤ share.amount ∧ share.amount ≤ q.amount ∧
      (shared = [] ∨ shared = [.transfer owner rewardAccount share "reward"] ∨
        shared = [.rewardRegproducer owner, .transfer owner rewardAccount share "reward"]) ∧
      sent = [.issue self q "issue block rewards for producer",
        .transfer self owner q "producer block rewards"] ++ shared := by
  simp only [claimrewards, Except.bind_ok_iff] at hok
  obtain ⟨-, -, hok⟩ := hok
  cases hprod : s.producers.find? owner with
  | none => simp [hprod] at hok
  | some prod =>
    simp only [hprod, Except.bind_ok_iff, check_ok_iff, exists_const] at hok
    obtain ⟨-, hok⟩ := hok
    obtain rfl : prod.owner = owner := Table.key_of_find? hprod
    cases hext : prod.ext with
    | none => simp [hext] at hok
    | some ext =>
      simp only [hext, Except.bind_ok_iff, check_ok_iff, exists_const, Except.pure_ok_iff,
        Prod.mk.injEq] at hok
      obtain ⟨-, hpos, -, -, amount, -, ⟨hnonneg, hle⟩, shared, hshared, -, rfl⟩ := hok
      refine ⟨prod.unclaimedRewards, ⟨amount, prod.unclaimedRewards.symbol⟩, shared, hpos, rfl,
        hnonneg, hle, ?_, rfl⟩
      unfold sendShared at hshared
      by_cases hzero : 0 < amount
      · simp only [if_pos hzero, Except.bind_ok_iff, Asset.make_ok_iff,
          Except.pure_ok_iff] at hshared
        obtain ⟨_, ⟨-, -, rfl⟩, rfl⟩ := hshared
        by_cases hreg : env.rewardRegistered prod.owner = true <;> simp [hreg]
      · rw [if_neg hzero] at hshared
        exact .inl (Except.ok.inj hshared).symm

/-- A custodian that is a producer shares no more than it gets. -/
theorem share_credits (core : Symbol) (c : Custodian) (owner : Name) {q share : Asset}
    (memo memo' : String) (hpos : 0 < q.amount) (hsym : share.symbol = q.symbol)
    (hnonneg : 0 ≤ share.amount) (hle : share.amount ≤ q.amount) :
    0 ≤ (Inline.transfer self owner q memo).toMessage.credit core c ∧
      0 ≤ (Inline.transfer self owner q memo).toMessage.credit core c +
        (Inline.transfer owner rewardAccount share memo').toMessage.credit core c := by
  have hself := self_ne_account c
  simp only [Inline.toMessage, Message.credit, if_neg hself, sub_zero, hsym]
  by_cases howner : owner = c.account
  · by_cases hc : c = .rewards
    · -- what it shares it would send to itself
      have hreward : owner = rewardAccount := by rw [howner, hc]; rfl
      simp [hreward, hc]
    · simp only [hself, howner, hc, false_or, ne_eq, not_false_eq_true, and_true, if_true]
      by_cases hcore : q.symbol = core
      · simp only [hcore, not_true_eq_false, or_false, if_false]
        split_ifs <;> omega
      · simp [hcore]
  · simp only [howner, false_and, if_false, ite_self, sub_zero, zero_add]
    split_ifs <;> omega

theorem claimrewards_credits {submitter owner : Name}
    (hok : claimrewards env s submitter owner = .ok (s', sent)) :
    0 ≤ credits core c (sent.map (·.toMessage)) := by
  obtain ⟨q, share, shared, hpos, hsym, hnonneg, hle, hshared, rfl⟩ := claimrewards_sent hok
  obtain ⟨hfirst, hboth⟩ := share_credits core c owner "producer block rewards" "reward" hpos hsym
    hnonneg hle
  have hissue :
      (Inline.issue self q "issue block rewards for producer").toMessage.credit core c = 0 := rfl
  have hreg : (Inline.rewardRegproducer owner).toMessage.credit core c = 0 := rfl
  rcases hshared with rfl | rfl | rfl
  · simpa [hissue] using hfirst
  · simpa [hissue] using hboth
  · simpa [hissue, hreg] using hboth

/-- An action of the system contract that no custodian signs sends no tokens of a custodian, except
the refunds of votes; and every vote it adds is paid for. -/
theorem perform_credits (hauth : env.hasAuth c.account = false)
    (hok : perform env s a = .ok (s', sent)) (hcore : s.gstate.coreSymbol = core) :
    (if c = .votes then staked ⟨env, a⟩ sent - refunded ⟨env, a⟩ sent else 0) ≤
      credits core c (sent.map (·.toMessage)) := by
  obtain ⟨s₁, heffect, -⟩ := perform_effect hok
  have hquiet : ∀ (a : Action) (sent : List Inline),
      (sent = [] ∨ ∃ n, sent = [.rewardRegproducer n]) →
      (if c = .votes then staked ⟨env, a⟩ sent - refunded ⟨env, a⟩ sent else 0) ≤
        credits core c (sent.map (·.toMessage)) := by
    rintro a sent (rfl | ⟨n, rfl⟩) <;> cases a <;> simp [staked, refunded, Inline.toMessage,
      Message.credit]
  cases heffect with
  | keep | revise | settings | configure | block | voter | voteproducer | undoreward =>
    exact hquiet _ [] (.inl rfl)
  | register quiet registered revision ext sends =>
    exact hquiet _ sent (sends.imp id fun hs => ⟨_, hs⟩)
  | @addvote voter votes q symbol pos stakes ext =>
    have hvoter : voter ≠ c.account := by
      rintro rfl
      exact Bool.false_ne_true (hauth.symm.trans (addvote_auth hok))
    obtain ⟨-, -, -, -, rfl⟩ := voteToCoreAsset_ok_iff.mp stakes
    have haccount : voteAccount = c.account ↔ c = .votes :=
      ⟨fun e => (Custodian.account_injective (c := .votes) e).symm, fun e => e ▸ rfl⟩
    simp only [staked, refunded, List.map_cons, List.map_nil, Inline.toMessage, credits_cons,
      credits_nil, Message.credit, hcore, haccount, hvoter]
    by_cases hc : c = .votes
    · have hne : voter ≠ voteAccount := fun e => hvoter (e.trans (haccount.mpr hc))
      simp [hc, hne]
    · simp [hc]
  | subvote | vote =>
    simp [staked, refunded, Inline.toMessage, Message.credit]
  | @refundvote refund q found stakes =>
    obtain ⟨hnonneg, -, -, -, rfl⟩ := voteToCoreAsset_ok_iff.mp stakes
    have haccount : voteAccount = c.account ↔ c = .votes :=
      ⟨fun e => (Custodian.account_injective (c := .votes) e).symm, fun e => e ▸ rfl⟩
    simp only [staked, refunded, List.map_cons, List.map_nil, Inline.toMessage, credits_cons,
      credits_nil, Message.credit, hcore, haccount]
    by_cases hc : c = .votes
    · simp only [hc, List.sum_cons, List.sum_nil, if_true]
      split_ifs <;> omega
    · simp only [hc, if_false]
      split_ifs <;> omega
  | claimrewards time found pos issued_eq =>
    rw [show staked ⟨env, .claimrewards _ _⟩ sent = 0 from rfl,
      show refunded ⟨env, .claimrewards _ _⟩ sent = 0 from rfl, sub_zero, ite_self]
    exact claimrewards_credits hok

end System

-- ---------------------------------------------------------------------------
-- Staked bandwidth
-- ---------------------------------------------------------------------------

namespace Bandwidth

variable {core : Symbol} {env : Env} {b b' : Bandwidth} {sender receiver : Name}
  {net cpu : Asset} {sent : List Sent} {c : Custodian}

theorem Sent.inflow_eq (m : Sent) : m.inflow core = credits core .stakes m.toMessages := by
  cases m with
  | inline i =>
    cases i with
    | transfer sender receiver quantity memo =>
      simp only [Sent.inflow, Sent.toMessages, Inline.toMessage, credits_cons, credits_nil,
        Message.credit, Custodian.account, ne_eq, reduceCtorEq, not_false_eq_true, and_true,
        add_zero]
      by_cases hself : sender = receiver
      · subst hself
        simp
      · simp only [hself, false_or, ite_not]
        congr
    | _ => rfl
  | _ => rfl

theorem inflow_eq (sent : List Sent) :
    inflow core sent = credits core .stakes (sent.flatMap (·.toMessages)) := by
  induction sent with
  | nil => rfl
  | cons m sent ih =>
    rw [List.flatMap_cons, credits_append, ← ih, ← m.inflow_eq]
    simp [inflow]

theorem toMessages_inline (sent : List Inline) :
    (sent.map Sent.inline).flatMap (·.toMessages) = sent.map (·.toMessage) := by
  induction sent with
  | nil => rfl
  | cons i sent ih =>
    rw [List.map_cons, List.flatMap_cons, ih]
    rfl

/-- A transfer between the account whose tokens are staked and `amax.stake`. -/
def Sent.Between (source : Name) : Sent → Prop
  | .inline (.transfer sender receiver _ _) =>
    (sender = source ∧ receiver = stakeAccount) ∨ (sender = stakeAccount ∧ receiver = source)
  | .inline _ => False
  | _ => True

theorem credits_between (hc : c ≠ .stakes) (hsource : sender ≠ c.account)
    (h : ∀ m ∈ sent, m.Between sender) : credits core c (sent.flatMap (·.toMessages)) = 0 := by
  have haccount : stakeAccount ≠ c.account :=
    fun e => hc (Custodian.account_injective (c := .stakes) e).symm
  induction sent with
  | nil => rfl
  | cons m sent ih =>
    rw [List.flatMap_cons, credits_append, ih fun m' hm' => h m' (List.mem_cons_of_mem _ hm'),
      add_zero]
    have hm := h m List.mem_cons_self
    cases m with
    | inline i =>
      cases i with
      | transfer s r quantity memo =>
        rcases hm with ⟨rfl, rfl⟩ | ⟨rfl, rfl⟩ <;>
          simp [Sent.toMessages, Inline.toMessage, Message.credit, hsource, haccount]
      | _ => exact absurd hm id
    | _ => rfl

/-- What a transaction of bandwidth does to the tables of stakes, and what it sends. -/
structure Moves (core : Symbol) (source : Name) (b b' : Bandwidth) (sent : List Sent) : Prop where
  refunds : ∀ r ∈ b'.refunds.rows, RefundOk core r
  owed_eq : b'.delbands.sum DelegatedBandwidth.stake + b'.refunds.sum RefundRequest.owed =
    b.delbands.sum DelegatedBandwidth.stake + b.refunds.sum RefundRequest.owed + inflow core sent
  symbol : b'.system.gstate.coreSymbol = core
  between : ∀ m ∈ sent, m.Between source

theorem moveStake_between {source : Name} {transfer : Bool} {t' : Refunds}
    (h : moveStake env b source sender receiver net cpu transfer = .ok (t', sent)) :
    ∀ m ∈ sent, m.Between source := by
  unfold moveStake at h
  split_ifs at h with hsource hinit
  · simp only [moveAtOnce, Except.bind_ok_iff, check_ok_iff, exists_const, Except.pure_ok_iff,
      Prod.mk.injEq] at h
    obtain ⟨_, ⟨-, _, -, h⟩, rfl, rfl⟩ := h
    split_ifs at h <;> rw [← Except.ok.inj h] <;> simp [Sent.Between]
  · simp only [moveByRefund, Except.bind_ok_iff, Prod.exists] at h
    obtain ⟨_, -, _, _, _, pending, -, _, -, h⟩ := h
    split_ifs at h with hpending hpos hpos <;>
      simp only [Except.pure_ok_iff, Prod.mk.injEq] at h <;>
      rw [← h.2] <;> simp [Sent.Between]
  · obtain ⟨-, rfl⟩ := Prod.mk.inj (Except.ok.inj h)
    exact fun m hm => absurd hm List.not_mem_nil

theorem changebw_moves {transfer : Bool} (ht : ∀ r ∈ b.refunds.rows, RefundOk core r)
    (hcore : b.system.gstate.coreSymbol = core) (hsource : sender ≠ stakeAccount)
    (htransfer : transfer = true → 0 ≤ net.amount + cpu.amount)
    (hnet : net.symbol = core) (hcpu : cpu.symbol = core)
    (hok : changebw env b sender receiver net cpu transfer = .ok (b', sent)) :
    Moves core sender b b' sent := by
  subst hcore
  simp only [changebw, Except.bind_ok_iff, check_ok_iff, exists_const, Prod.exists,
    Except.pure_ok_iff, Prod.mk.injEq] at hok
  obtain ⟨-, -, total, htotal, -, delbands, hdelbands, totals, -, -, refunds, sent', hmove,
    system, hpower, rfl, rfl⟩ := hok
  obtain ⟨hrefs, hsum⟩ :=
    moveStake_ok ht hsource (fun htr => by simp [htr]) htransfer hnet hcpu hmove
  refine ⟨hrefs, ?_, (updateVotingPower_staked hpower).1, moveStake_between hmove⟩
  have hstake := updateDelband_sum hdelbands (f := DelegatedBandwidth.stake) (fun _ _ => 1)
    (fun _ _ => 1) fun d => by simp [DelegatedBandwidth.stake]
  simp only [DelegatedBandwidth.stake] at hstake ⊢
  rw [hstake]
  omega

theorem delegatebw_moves {transfer : Bool} (ht : ∀ r ∈ b.refunds.rows, RefundOk core r)
    (hcore : b.system.gstate.coreSymbol = core) (hsource : sender ≠ stakeAccount)
    (hok : delegatebw env b sender receiver net cpu transfer = .ok (b', sent)) :
    Moves core sender b b' sent := by
  obtain ⟨hnet, hcpu, hpos, hok⟩ := delegatebw_ok hok
  exact changebw_moves ht hcore hsource (fun _ => hpos.le) (hnet.trans hcore) (hcpu.trans hcore) hok

theorem undelegatebw_moves (ht : ∀ r ∈ b.refunds.rows, RefundOk core r)
    (hcore : b.system.gstate.coreSymbol = core) (hsource : sender ≠ stakeAccount)
    (hok : undelegatebw env b sender receiver net cpu = .ok (b', sent)) :
    Moves core sender b b' sent := by
  obtain ⟨hnet, hcpu, hok⟩ := undelegatebw_ok hok
  have hnet' : net.neg.symbol = core := hnet.trans hcore
  have hcpu' : cpu.neg.symbol = core := hcpu.trans hcore
  exact changebw_moves ht hcore hsource (fun e => absurd e Bool.false_ne_true) hnet' hcpu' hok

theorem refund_moves {owner : Name} (ht : ∀ r ∈ b.refunds.rows, RefundOk core r)
    (hcore : b.system.gstate.coreSymbol = core)
    (hok : refund env b owner = .ok (b', sent)) :
    Moves core owner b b' sent ∧ env.hasAuth owner = true ∧ b'.system = b.system := by
  obtain ⟨req, quantity, hfind, hauth, -, hquantity, rfl, rfl⟩ := refund_ok hok
  obtain ⟨-, -, rfl⟩ := Asset.add_ok_iff.mp hquantity
  have hreq := ht req (Table.mem_of_find? hfind)
  obtain rfl : req.owner = owner := Table.key_of_find? hfind
  refine ⟨⟨fun r hr => ht r (Table.mem_erase.mp hr).1, ?_, hcore, ?_⟩, hauth, rfl⟩
  · rw [inflow_unstake hreq.owner (by exact hreq.net_symbol),
      Table.sum_erase_of_find? hfind, RefundRequest.owed]
    dsimp only
    omega
  · simp [Sent.Between]

end Bandwidth

-- ---------------------------------------------------------------------------
-- The RAM market
-- ---------------------------------------------------------------------------

namespace Ram

variable {d : Doubles} {core : Symbol} {env : Env} {s s' : State} {sent : List Sent} {c : Custodian}

/-- The account whose RAM is sold, which need not sign the sale. -/
def Action.seller : Action → Option Name
  | .sellram account _ => some account
  | _ => none

/-- An action sends what it adds to the stake or takes from it, as far as `source` is no
custodian. -/
structure Moves (core : Symbol) (source : Name) (s s' : State) (sent : List Sent) : Prop where
  symbol : s'.coreSymbol = core
  credits_eq : ∀ c : Custodian, source ≠ c.account →
    credits core c (sent.map (·.toMessage)) =
      if c = .ram then s'.totalRamStake - s.totalRamStake else 0

theorem updateRamSupply_stake (hok : updateRamSupply env s = .ok s') :
    s'.totalRamStake = s.totalRamStake ∧ s'.coreSymbol = s.coreSymbol := by
  unfold updateRamSupply at hok
  dsimp only at hok
  split_ifs at hok
  · rw [Except.pure_ok_iff.mp hok]
    exact ⟨rfl, rfl⟩
  · simp only [Except.bind_ok_iff, Except.pure_ok_iff] at hok
    obtain ⟨es, -, rfl⟩ := hok
    exact ⟨rfl, rfl⟩

theorem ramAccount_eq {c : Custodian} : ramAccount = c.account ↔ c = .ram :=
  ⟨fun h => (Custodian.account_injective (c := .ram) h).symm, fun h => h ▸ rfl⟩

theorem ramfeeAccount_ne (c : Custodian) : ramfeeAccount ≠ c.account := by
  cases c <;> decide

/-- A fee is no concern of a custodian. -/
theorem credit_fee {source : Name} (hsource : source ≠ c.account) (fee : Asset) (memo : String)
    {p : Prop} [Decidable p] :
    credits core c ((if p then [Sent.transfer source ramfeeAccount fee memo] else []).map
      (·.toMessage)) = 0 := by
  split_ifs
  · simp [Sent.toMessage, Message.credit, hsource, ramfeeAccount_ne]
  · rfl

theorem buyram_moves {payer receiver : Name} {quant : Asset} (hcore : s.coreSymbol = core)
    (hok : buyram d env s payer receiver quant = .ok (s', sent)) :
    env.hasAuth payer = true ∧ Moves core payer s s' sent := by
  simp only [buyram, State.getCoreSymbol, requireAuth, Except.bind_ok_iff, check_ok_iff,
    exists_const, Except.pure_ok_iff, Prod.exists, Prod.mk.injEq] at hok
  obtain ⟨-, hauth, s₁, hs₁, _, ⟨-, rfl⟩, hsym, -, _, -, es', out, -, -, _, -, -, rfl, rfl⟩ := hok
  obtain ⟨hstake, hsymbol⟩ := updateRamSupply_stake hs₁
  refine ⟨hauth, hsymbol.trans hcore, fun c hc => ?_⟩
  rw [List.map_cons, credits_cons, credit_fee hc, add_zero]
  have hquant : quant.symbol = core := hsym.trans (hsymbol.trans hcore)
  simp only [Sent.toMessage, Message.credit, hquant, ramAccount_eq, if_neg hc, hstake, sub_zero]
  by_cases hram : c = .ram
  · have hne : payer ≠ ramAccount := fun e => hc (e.trans (ramAccount_eq.mpr hram))
    simp [hram, hne]
  · simp [hram]

theorem directConvert_symbol {es es' : ExchangeState} {payment out : Asset} {target : Symbol}
    (h : directConvert d es payment target = .ok (es', out)) : out.symbol = target := by
  simp only [directConvert, Except.bind_ok_iff, check_ok_iff, exists_const, Asset.make_ok_iff] at h
  obtain ⟨-, _, ⟨-, -, rfl⟩, h⟩ := h
  split_ifs at h
  all_goals
    simp only [Except.bind_ok_iff, Except.pure_ok_iff, Prod.mk.injEq] at h
    obtain ⟨_, -, _, -, -, rfl⟩ := h
    rfl

theorem sellram_moves {account : Name} {bytes : ℤ} (hcore : s.coreSymbol = core)
    (hok : sellram d env s account bytes = .ok (s', sent)) : Moves core account s s' sent := by
  simp only [sellram, Except.bind_ok_iff, check_ok_iff, exists_const] at hok
  obtain ⟨-, s₁, hs₁, -, hok⟩ := hok
  obtain ⟨hstake, hsymbol⟩ := updateRamSupply_stake hs₁
  cases hrow : s₁.totals.find? account with
  | none => simp [hrow] at hok
  | some row =>
    simp only [hrow, State.getCoreSymbol, Except.bind_ok_iff, check_ok_iff, exists_const,
      Except.pure_ok_iff, Prod.exists, Prod.mk.injEq] at hok
    obtain ⟨-, es, -, _, ⟨-, rfl⟩, payment, -, es', out, hconvert, -, -, -, fee, -, rfl, rfl⟩ := hok
    have hout : out.symbol = core := (directConvert_symbol hconvert).trans (hsymbol.trans hcore)
    refine ⟨hsymbol.trans hcore, fun c hc => ?_⟩
    rw [List.map_cons, credits_cons, credit_fee hc, add_zero]
    simp only [Sent.toMessage, Message.credit, hout, ramAccount_eq, hc, hstake]
    by_cases hram : c = .ram
    · have hne : ramAccount ≠ account := fun e => hc (e.symm.trans (ramAccount_eq.mpr hram))
      simp [hram, hne]
    · simp [hram]

theorem perform_moves {a : Action} (hcore : s.coreSymbol = core)
    (hok : perform d env s a = .ok (s', sent)) (c : Custodian)
    (hauth : env.hasAuth c.account = false) (hseller : a.seller ≠ some c.account) :
    s'.coreSymbol = core ∧ credits core c (sent.map (·.toMessage)) =
      if c = .ram then s'.totalRamStake - s.totalRamStake else 0 := by
  have hquiet : ∀ s₁ : State, s₁.totalRamStake = s.totalRamStake ∧ s₁.coreSymbol = s.coreSymbol →
      s₁.coreSymbol = core ∧ credits core c (([] : List Sent).map (·.toMessage)) =
        if c = .ram then s₁.totalRamStake - s.totalRamStake else 0 := by
    rintro s₁ ⟨hstake, hsymbol⟩
    rw [hstake, sub_self, ite_self]
    exact ⟨hsymbol.trans hcore, rfl⟩
  have hbuy : ∀ payer receiver quant, buyram d env s payer receiver quant = .ok (s', sent) →
      s'.coreSymbol = core ∧ credits core c (sent.map (·.toMessage)) =
        if c = .ram then s'.totalRamStake - s.totalRamStake else 0 := by
    intro payer receiver quant hok
    obtain ⟨hpayer, hmoves⟩ := buyram_moves hcore hok
    refine ⟨hmoves.symbol, hmoves.credits_eq c ?_⟩
    rintro rfl
    exact Bool.false_ne_true (hauth.symm.trans hpayer)
  cases a with
  | buyram payer receiver quant => exact hbuy payer receiver quant hok
  | buyrambytes payer receiver bytes =>
    simp only [perform, buyrambytes, Except.bind_ok_iff] at hok
    obtain ⟨-, -, -, -, quant, -, hok⟩ := hok
    exact hbuy payer receiver quant hok
  | sellram account bytes =>
    have hmoves := sellram_moves hcore hok
    exact ⟨hmoves.symbol, hmoves.credits_eq c fun e => hseller (congrArg some e)⟩
  | setram size =>
    simp only [perform, setram, Except.bind_ok_iff, Except.pure_ok_iff, Prod.mk.injEq] at hok
    obtain ⟨-, -, -, -, -, -, -, -, es, -, rfl, rfl⟩ := hok
    exact hquiet _ ⟨rfl, rfl⟩
  | setramrate rate =>
    simp only [perform, setramrate, Except.bind_ok_iff, Except.pure_ok_iff, Prod.mk.injEq] at hok
    obtain ⟨-, -, s₁, hs₁, rfl, rfl⟩ := hok
    obtain ⟨hstake, hsymbol⟩ := updateRamSupply_stake hs₁
    exact hquiet _ ⟨hstake, hsymbol⟩

/-- `init` opens a market with nothing bought, for a token that exists. -/
theorem init_ok {version : ℕ} (hok : init env s version core = .ok (s', sent)) :
    (∃ supply, env.supply core.code = some supply ∧ supply.symbol = core) ∧
      s'.coreSymbol = core ∧ s'.totalRamStake = s.totalRamStake ∧
      sent = [.openBalance rexAccount core self] := by
  simp only [init, Except.bind_ok_iff] at hok
  obtain ⟨-, -, -, -, -, -, -, -, hok⟩ := hok
  cases hsupply : env.supply core.code with
  | none => simp [hsupply] at hok
  | some supply =>
    simp only [hsupply, Except.bind_ok_iff, check_ok_iff, exists_const, Except.pure_ok_iff,
      Prod.mk.injEq] at hok
    obtain ⟨hsymbol, -, rfl, rfl⟩ := hok
    exact ⟨⟨supply, rfl, hsymbol⟩, rfl, rfl, rfl⟩

end Ram

end Amax
