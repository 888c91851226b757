-- SUMMARY: Every deposit of the mining contract is paid or kept as an order, orders are paid once, and the pools account for what is paid.
import Amax.Mining.Contract
import Mathlib.Tactic.Linarith

/-! # Payouts of the mining contract

An order is paid from a pool that nothing was put aside in when the order was
taken: it can be settled as long as the pool still covers it. -/

namespace Amax.Mining

-- ---------------------------------------------------------------------------
-- What is counted
-- ---------------------------------------------------------------------------

/-- The pool of a configuration pays the price. -/
structure SwapConf.Covers (conf : SwapConf) (price : Asset) : Prop where
  pos : 0 < price.amount
  symbol : price.symbol = conf.mineTokenRemained.symbol
  le : price.amount ≤ conf.mineTokenRemained.amount
  range : conf.mineTokenRemained.amount - price.amount ≤ Asset.maxAmount

/-- The configuration after `paid` tokens have left its pool. -/
def SwapConf.lessPaid (conf : SwapConf) (paid : ℤ) : SwapConf :=
  { conf with mineTokenRemained :=
      ⟨conf.mineTokenRemained.amount - paid, conf.mineTokenRemained.symbol⟩ }

/-- What is sent to pay a deposit. -/
def payment (env : Env) (s : State) (miner : Name) (recdApls swapTokens : Asset) (adsId : String) :
    List Inline :=
  [.transfer s.gstate.mineTokenContract miner swapTokens "",
    .aplswaplog miner recdApls swapTokens adsId env.now]

/-- What the actions of a list pay from the pool of the configuration `k`. -/
def paidFrom (k : ℕ) (sent : List Inline) : ℤ :=
  (sent.map fun i => match i with
    | .transfer .. => 0
    | .aplswaplog _ recdApls swapTokens _ _ =>
      if toUint64 recdApls.amount = k then swapTokens.amount else 0).sum

/-- How many deposits the actions of a list pay. -/
def payouts (sent : List Inline) : ℤ :=
  (sent.map fun i => match i with
    | .transfer .. => (1 : ℤ)
    | .aplswaplog .. => 0).sum

/-- A transfer to the contract by somebody whose coins are not just kept. -/
def Transaction.isDeposit (tx : Transaction) : Bool :=
  match tx.action with
  | .ontransfer sender receiver _ _ =>
    sender ≠ tx.env.self && receiver = tx.env.self && !tx.env.isBlacklisted sender
  | _ => false

/-- The action that settles an order, with its advertisement checked or without. -/
def Action.settling (orderId : ℕ) (adsChecked : Bool) : Action :=
  if adsChecked then .confirmads orderId else .onswapexpird orderId

theorem perform_settling (env : Env) (s : State) (orderId : ℕ) (adsChecked : Bool) :
    perform env s (.settling orderId adsChecked) = settle env s orderId adsChecked := by
  cases adsChecked <;> rfl

/-- How many orders are open. -/
def State.openOrders (s : State) : ℤ := s.orders.sum fun _ => 1

theorem isDeposit_ontransfer {env : Env} {sender receiver : Name} {quantity : Asset}
    {memo : String} :
    Transaction.isDeposit ⟨env, .ontransfer sender receiver quantity memo⟩ = true ↔
      sender ≠ env.self ∧ receiver = env.self ∧ env.isBlacklisted sender = false := by
  simp [Transaction.isDeposit, and_assoc]

theorem paidFrom_append (k : ℕ) (l l' : List Inline) :
    paidFrom k (l ++ l') = paidFrom k l + paidFrom k l' := by
  simp [paidFrom]

theorem paidFrom_payment (k : ℕ) (env : Env) (s : State) (miner : Name)
    (recdApls swapTokens : Asset) (adsId : String) :
    paidFrom k (payment env s miner recdApls swapTokens adsId) =
      if toUint64 recdApls.amount = k then swapTokens.amount else 0 := by
  simp [paidFrom, payment]

theorem payouts_payment (env : Env) (s : State) (miner : Name) (recdApls swapTokens : Asset)
    (adsId : String) : payouts (payment env s miner recdApls swapTokens adsId) = 1 := by
  simp [payouts, payment]

-- ---------------------------------------------------------------------------
-- One payment
-- ---------------------------------------------------------------------------

section Payment

variable {env : Env} {s s' : State} {sent : List Inline} {receiver : Name} {recdApls : Asset}
variable {adsChecked : Bool} {adsId : String}

theorem claimReward_ok_iff :
    claimReward env s receiver recdApls adsChecked adsId "" = .ok (s', sent) ↔
      ∃ conf, s.confs.find? (toUint64 recdApls.amount) = some conf ∧
        conf.Covers (conf.price adsChecked) ∧
        s' = { s with confs := s.confs.set (conf.lessPaid (conf.price adsChecked).amount) } ∧
        sent = payment env s receiver recdApls (conf.price adsChecked) adsId := by
  unfold claimReward
  cases hconf : s.confs.find? (toUint64 recdApls.amount) with
  | none => simp
  | some conf =>
    simp only [Except.bind_ok_iff, check_ok_iff, exists_const, Asset.le_ok_iff,
      Asset.sub_ok_iff, Except.pure_ok_iff, Prod.mk.injEq, Option.some.injEq, exists_eq_left']
    constructor
    · rintro ⟨hpos, _, ⟨hsym, rfl⟩, hle, _, ⟨-, ⟨-, hrange⟩, rfl⟩, rfl, rfl⟩
      exact ⟨⟨hpos, hsym, of_decide_eq_true hle, hrange⟩, rfl, rfl⟩
    · rintro ⟨⟨hpos, hsym, hle, hrange⟩, rfl, rfl⟩
      refine ⟨hpos, _, ⟨hsym, rfl⟩, decide_eq_true hle, _, ⟨hsym, ⟨?_, hrange⟩, rfl⟩, rfl, rfl⟩
      unfold Asset.maxAmount at hrange ⊢
      omega

/-- A settled order was open and is no more, and is paid the price of its kind. -/
theorem settle_ok_iff {orderId : ℕ} :
    settle env s orderId adsChecked = .ok (s', sent) ↔
      env.hasAuth s.gstate.admin = true ∧
      ∃ order conf, s.orders.find? orderId = some order ∧
        s.confs.find? (toUint64 order.recdApls.amount) = some conf ∧
        conf.Covers (conf.price adsChecked) ∧
        s' = { s with
          confs := s.confs.set (conf.lessPaid (conf.price adsChecked).amount)
          orders := s.orders.erase orderId } ∧
        sent = payment env s order.miner order.recdApls (conf.price adsChecked)
          (if adsChecked then order.adsId else "") := by
  simp only [settle, requireAuth, Except.bind_ok_iff, check_ok_iff, exists_const]
  refine and_congr_right fun _ => ?_
  cases horder : s.orders.find? orderId with
  | none => simp
  | some order =>
    simp only [Except.bind_ok_iff, Prod.exists, claimReward_ok_iff, Except.pure_ok_iff,
      Prod.mk.injEq, Option.some.injEq]
    constructor
    · rintro ⟨_, _, ⟨conf, hconf, hcovers, rfl, rfl⟩, rfl, rfl⟩
      exact ⟨order, conf, rfl, hconf, hcovers, rfl, rfl⟩
    · rintro ⟨_, conf, rfl, hconf, hcovers, rfl, rfl⟩
      exact ⟨_, _, ⟨conf, hconf, hcovers, rfl, rfl⟩, rfl, rfl⟩

/-- The deposit is paid what its configuration promises. -/
def Paid (env : Env) (s s' : State) (sent : List Inline) (miner : Name) (quantity : Asset) : Prop :=
  ∃ conf, s.confs.find? (toUint64 quantity.amount) = some conf ∧ conf.Covers conf.swapTokens ∧
    s' = { s with confs := s.confs.set (conf.lessPaid conf.swapTokens.amount) } ∧
    sent = payment env s miner quantity conf.swapTokens ""

/-- The deposit is kept as one new order. -/
def Recorded (s s' : State) (sent : List Inline) (miner : Name) (quantity : Asset) : Prop :=
  sent = [] ∧ s'.confs = s.confs ∧ ∃ order : AdsOrder,
    s.orders.find? order.id = none ∧ s'.orders = s.orders.set order ∧
    order.miner = miner ∧ order.recdApls = quantity

/-- What becomes of a transfer that is not rejected. -/
theorem ontransfer_ok {sender receiver : Name} {quantity : Asset} {memo : String}
    (hok : ontransfer env s sender receiver quantity memo = .ok (s', sent)) :
    ((sender = env.self ∨ receiver ≠ env.self ∨ env.isBlacklisted sender = true) ∧ s' = s ∧
        sent = []) ∨
      (sender ≠ env.self ∧ receiver = env.self ∧ env.isBlacklisted sender = false) ∧
        (Paid env s s' sent sender quantity ∨ Recorded s s' sent sender quantity) := by
  unfold ontransfer at hok
  by_cases hparty : sender = env.self ∨ receiver ≠ env.self
  · simp only [if_pos hparty, Except.ok.injEq, Prod.mk.injEq] at hok
    exact .inl ⟨hparty.imp_right .inl, hok.1.symm, hok.2.symm⟩
  rw [if_neg hparty] at hok
  simp only [not_or, not_not] at hparty
  simp only [Except.bind_ok_iff, check_ok_iff, exists_const] at hok
  obtain ⟨hpos, hok⟩ := hok
  cases hsum : env.aplSum sender with
  | none => simp [hsum] at hok
  | some sumbalance =>
    simp only [hsum, Except.bind_ok_iff, check_ok_iff, exists_const] at hok
    obtain ⟨-, hok⟩ := hok
    by_cases hblack : env.isBlacklisted sender = true
    · simp only [if_pos hblack, Except.pure_ok_iff, Prod.mk.injEq] at hok
      exact .inl ⟨.inr (.inr hblack), hok.1.symm, hok.2.symm⟩
    rw [if_neg hblack] at hok
    refine .inr ⟨⟨hparty.1, hparty.2, by simpa using hblack⟩, ?_⟩
    simp only [Except.bind_ok_iff, check_ok_iff, exists_const] at hok
    obtain ⟨-, -, -, hok⟩ := hok
    cases hconf : s.confs.find? (toUint64 quantity.amount) with
    | none => simp [hconf] at hok
    | some conf =>
      simp only [hconf, Except.bind_ok_iff, check_ok_iff, exists_const] at hok
      obtain ⟨_, -, -, hok⟩ := hok
      split_ifs at hok with hads
      · simp only [addAdsorder, Except.bind_ok_iff, check_ok_iff, exists_const,
          Except.pure_ok_iff, Prod.mk.injEq, Option.isNone_iff_eq_none] at hok
        obtain ⟨hnone, rfl, rfl⟩ := hok
        exact .inr ⟨rfl, rfl, _, hnone, rfl, rfl, rfl⟩
      · obtain ⟨conf', hconf', hcovers, rfl, rfl⟩ := claimReward_ok_iff.mp hok
        exact .inl ⟨conf', hconf', hcovers, rfl, rfl⟩

end Payment

-- ---------------------------------------------------------------------------
-- Runs
-- ---------------------------------------------------------------------------

/-- Every pool is what it was, less what was paid from it. -/
def Pools (confs₀ confs : Table SwapConf.swapAmount) (sent : List Inline) : Prop :=
  ∀ k, confs.find? k = (confs₀.find? k).map (·.lessPaid (paidFrom k sent))

section Runs

variable {tx : Transaction} {s s' : State} {sent l : List Inline}
variable {confs₀ : Table SwapConf.swapAmount}

theorem Pools.nil (confs : Table SwapConf.swapAmount) : Pools confs confs [] := by
  intro k
  cases h : confs.find? k with
  | none => rfl
  | some conf =>
    have : conf.lessPaid (paidFrom k []) = conf := by simp [SwapConf.lessPaid, paidFrom]
    rw [Option.map_some, this]

/-- A payment from the pool of its configuration. -/
theorem Pools.pay {confs : Table SwapConf.swapAmount} {env : Env} {miner : Name}
    {recdApls price : Asset} {adsId : String} {conf : SwapConf} (h : Pools confs₀ confs l)
    (hconf : confs.find? (toUint64 recdApls.amount) = some conf) :
    Pools confs₀ (confs.set (conf.lessPaid price.amount))
      (l ++ payment env s miner recdApls price adsId) := by
  intro k
  have hswap := Table.key_of_find? hconf
  have hkey : (conf.lessPaid price.amount).swapAmount = toUint64 recdApls.amount := hswap
  rw [Table.find?_set, hkey, paidFrom_append, paidFrom_payment]
  split_ifs with hk
  · subst hk
    have hpool := h (toUint64 recdApls.amount)
    rw [hconf] at hpool
    cases h₀ : confs₀.find? (toUint64 recdApls.amount) with
    | none => simp [h₀] at hpool
    | some conf₀ =>
      rw [h₀, Option.map_some, Option.some.injEq] at hpool
      rw [Option.map_some, hpool]
      simp only [SwapConf.lessPaid, sub_sub]
  · rw [add_zero]
    exact h k

theorem transact_ok (hok : transact tx s = .ok (s', sent)) :
    perform tx.env s tx.action = .ok (s', sent) := by
  simp only [transact, Except.bind_ok_iff, check_ok_iff, exists_const, Except.pure_ok_iff,
    Prod.exists, Prod.mk.injEq] at hok
  obtain ⟨_, _, hperform, -, rfl, rfl⟩ := hok
  exact hperform

theorem pools_step (huse : tx.action.isUse = true) (h : Pools confs₀ s.confs l)
    (hok : transact tx s = .ok (s', sent)) : Pools confs₀ s'.confs (l ++ sent) := by
  have hok := transact_ok hok
  obtain ⟨env, action⟩ := tx
  cases action with
  | ontransfer sender receiver quantity memo =>
    rcases ontransfer_ok hok with ⟨-, rfl, rfl⟩ | ⟨-, hpaid | hrecorded⟩
    · rwa [List.append_nil]
    · obtain ⟨conf, hconf, -, rfl, rfl⟩ := hpaid
      exact h.pay hconf
    · obtain ⟨rfl, hconfs, -⟩ := hrecorded
      rwa [List.append_nil, hconfs]
  | confirmads orderId =>
    obtain ⟨-, order, conf, -, hconf, -, rfl, rfl⟩ := settle_ok_iff.mp hok
    exact h.pay hconf
  | onswapexpird orderId =>
    obtain ⟨-, order, conf, -, hconf, -, rfl, rfl⟩ := settle_ok_iff.mp hok
    exact h.pay hconf
  | init => cases huse
  | addswapconf => cases huse
  | setremained => cases huse
  | delswapconf => cases huse

/-- A deposit is paid or opens an order, and an order that is paid is closed. -/
theorem openOrders_step (huse : tx.action.isUse = true) (hok : transact tx s = .ok (s', sent)) :
    s'.openOrders + payouts sent = s.openOrders + if tx.isDeposit then 1 else 0 := by
  have hok := transact_ok hok
  obtain ⟨env, action⟩ := tx
  cases action with
  | ontransfer sender receiver quantity memo =>
    rcases ontransfer_ok hok with ⟨hkept, rfl, rfl⟩ | ⟨hdeposit, hcase⟩
    · rw [if_neg fun h => ?_]
      · simp [payouts]
      · obtain ⟨hsender, hreceiver, hblack⟩ := isDeposit_ontransfer.mp h
        rcases hkept with h | h | h
        · exact hsender h
        · exact h hreceiver
        · exact Bool.false_ne_true (hblack.symm.trans h)
    · rw [if_pos (isDeposit_ontransfer.mpr hdeposit)]
      rcases hcase with ⟨conf, -, -, rfl, rfl⟩ | ⟨rfl, -, order, hnone, horders, -⟩
      · rw [payouts_payment]
        rfl
      · rw [State.openOrders, horders, Table.sum_set_of_none hnone]
        simp [payouts, State.openOrders]
  | confirmads orderId =>
    obtain ⟨-, order, conf, horder, -, -, rfl, rfl⟩ := settle_ok_iff.mp hok
    rw [payouts_payment, State.openOrders, Table.sum_erase_of_find? horder]
    simp [Transaction.isDeposit, State.openOrders]
  | onswapexpird orderId =>
    obtain ⟨-, order, conf, horder, -, -, rfl, rfl⟩ := settle_ok_iff.mp hok
    rw [payouts_payment, State.openOrders, Table.sum_erase_of_find? horder]
    simp [Transaction.isDeposit, State.openOrders]
  | init => cases huse
  | addswapconf => cases huse
  | setremained => cases huse
  | delswapconf => cases huse

/-- An order can be settled as long as its pool covers it and what is sent is taken. -/
theorem settles_iff {env : Env} {orderId : ℕ} {order : AdsOrder} (adsChecked : Bool)
    (hauth : env.hasAuth s.gstate.admin = true) (horder : s.orders.find? orderId = some order) :
    (∃ r, transact ⟨env, .settling orderId adsChecked⟩ s = .ok r) ↔
      ∃ conf, s.confs.find? (toUint64 order.recdApls.amount) = some conf ∧
        conf.Covers (conf.price adsChecked) ∧
        ∀ i ∈ payment env s order.miner order.recdApls (conf.price adsChecked)
          (if adsChecked then order.adsId else ""), env.inlineOk i = true := by
  simp only [transact, perform_settling, Prod.exists, Except.bind_ok_iff, check_ok_iff,
    exists_const, Except.pure_ok_iff, Prod.mk.injEq, settle_ok_iff, horder, hauth, true_and,
    Option.some.injEq]
  constructor
  · rintro ⟨_, _, _, _, ⟨_, conf, rfl, hconf, hcovers, -, rfl⟩, htaken, -, -⟩
    exact ⟨conf, hconf, hcovers, htaken⟩
  · rintro ⟨conf, hconf, hcovers, htaken⟩
    exact ⟨_, _, _, _, ⟨order, conf, rfl, hconf, hcovers, rfl, rfl⟩, htaken, rfl, rfl⟩

end Runs

theorem final_pools {s : State} {txs : List Transaction} (huse : ∀ tx ∈ txs, tx.action.isUse = true) :
    Pools s.confs (s.final txs).confs (s.sent txs) :=
  Run.invariant_outputs (I := fun s' l => Pools s.confs s'.confs l)
    (P := fun _ tx => tx.action.isUse = true) (l := [])
    (fun _ _ _ _ _ h huse hok => pools_step huse h hok) (Pools.nil s.confs)
    (Run.along_of_forall huse s)

/-- How many deposits of a run were not rejected. -/
def State.deposits (s : State) (txs : List Transaction) : ℤ :=
  Run.tally transact (fun tx _ => if tx.isDeposit then 1 else 0) s txs

theorem final_openOrders {s : State} {txs : List Transaction}
    (huse : ∀ tx ∈ txs, tx.action.isUse = true) :
    (s.final txs).openOrders + payouts (s.sent txs) = s.openOrders + s.deposits txs := by
  have hstep (s₁ : State) (n : ℤ) (tx : Transaction) (s₂ : State) (sent : List Inline)
      (h : s₁.openOrders = s.openOrders + n) (huse : tx.action.isUse = true)
      (hok : transact tx s₁ = .ok (s₂, sent)) :
      s₂.openOrders = s.openOrders + (n + ((if tx.isDeposit then 1 else 0) + -payouts sent)) := by
    have := openOrders_step huse hok
    omega
  have hrun := Run.invariant_tally (I := fun (s' : State) n => s'.openOrders = s.openOrders + n)
    (P := fun _ (tx : Transaction) => tx.action.isUse = true) hstep (add_zero _).symm (Run.along_of_forall huse s)
  have hsent : Run.tally transact (fun _ sent => payouts sent) s txs = payouts (s.sent txs) :=
    Run.tally_outputs rfl (fun l l' => by simp [payouts]) s txs
  rw [Run.tally_add, Run.tally_neg, hsent] at hrun
  simp only [State.final, State.sent, State.deposits, hrun]
  ring

/-- In every run without edits of the configurations: a transfer that is not rejected is paid,
kept as one order, or just kept when its sender is blacklisted. Every settlement pays an open order
and closes it, so that the deposits are the payouts and the open orders. The pools account for
everything that is paid, and an open order can be settled exactly when its pool covers its price and
what is sent to pay it is taken. -/
theorem deposits_accounted (s : State) (txs : List Transaction)
    (huse : ∀ tx ∈ txs, tx.action.isUse = true) :
    (∀ (env : Env) (sender receiver : Name) (quantity : Asset) (memo : String) (s' : State)
        (sent : List Inline),
      sender ≠ env.self → receiver = env.self →
      transact ⟨env, .ontransfer sender receiver quantity memo⟩ (s.final txs) = .ok (s', sent) →
      (env.isBlacklisted sender = true ∧ s' = s.final txs ∧ sent = []) ∨
        env.isBlacklisted sender = false ∧
          (Paid env (s.final txs) s' sent sender quantity ∨
            Recorded (s.final txs) s' sent sender quantity)) ∧
    (∀ (env : Env) (orderId : ℕ) (adsChecked : Bool) (s' : State) (sent : List Inline),
      settle env (s.final txs) orderId adsChecked = .ok (s', sent) →
      (∃ order, (s.final txs).orders.find? orderId = some order ∧ ∃ price adsId,
        sent = payment env (s.final txs) order.miner order.recdApls price adsId) ∧
        s'.orders = (s.final txs).orders.erase orderId) ∧
    (s.final txs).openOrders + payouts (s.sent txs) = s.openOrders + s.deposits txs ∧
    Pools s.confs (s.final txs).confs (s.sent txs) ∧
    ∀ (env : Env) (orderId : ℕ) (order : AdsOrder) (adsChecked : Bool),
      env.hasAuth (s.final txs).gstate.admin = true →
      (s.final txs).orders.find? orderId = some order →
      ((∃ r, transact ⟨env, .settling orderId adsChecked⟩ (s.final txs) = .ok r) ↔
        ∃ conf, (s.final txs).confs.find? (toUint64 order.recdApls.amount) = some conf ∧
          conf.Covers (conf.price adsChecked) ∧
          ∀ i ∈ payment env (s.final txs) order.miner order.recdApls (conf.price adsChecked)
            (if adsChecked then order.adsId else ""), env.inlineOk i = true) := by
  refine ⟨?_, ?_, final_openOrders huse, final_pools huse, ?_⟩
  · intro env sender receiver quantity memo s' sent hsender hreceiver hok
    rcases ontransfer_ok (transact_ok hok) with ⟨h | h | h, rfl, rfl⟩ | ⟨⟨-, -, hblack⟩, hcase⟩
    · exact absurd h hsender
    · exact absurd hreceiver h
    · exact .inl ⟨h, rfl, rfl⟩
    · exact .inr ⟨hblack, hcase⟩
  · intro env orderId adsChecked s' sent hok
    obtain ⟨-, order, conf, horder, -, -, rfl, rfl⟩ := settle_ok_iff.mp hok
    exact ⟨⟨order, horder, _, _, rfl⟩, rfl⟩
  · intro env orderId order adsChecked hauth horder
    exact settles_iff adsChecked hauth horder

section Pool

private def coins (n : ℤ) : Asset := ⟨n, ⟨['A', 'M', 'A', 'X'], 8⟩⟩

/-- A pool of 20 tokens, of which a deposit of 100 APL takes 10, and 12 with its advertisement. -/
private def pool : State where
  gstate := { admin := 1, endedAt := 100 }
  confs := Table.empty.set ⟨1000000, coins 10, coins 12, coins 20, coins 20⟩

private def env : Env where
  now := 0
  hasAuth := fun n => n = 1
  aplSum := fun _ => some 0
  isBlacklisted := fun n => n = 9

private def deposit (n : Name) : Transaction :=
  ⟨env, .ontransfer n env.self ⟨1000000, aplSymbol⟩ "adsid:12345"⟩

/-- Of two orders one is paid 12 of the 20 tokens, and what is left does not pay the other one. -/
theorem deposits_accounted_pool :
    let s := pool.final [deposit 2, deposit 3, ⟨env, .confirmads 1⟩]
    s.openOrders = 1 ∧
      Pools pool.confs s.confs (pool.sent [deposit 2, deposit 3, ⟨env, .confirmads 1⟩]) ∧
      ∀ adsChecked, ¬∃ r, transact ⟨env, .settling 2 adsChecked⟩ s = .ok r := by
  intro s
  obtain ⟨-, -, hopen, hpools, hsettles⟩ :=
    deposits_accounted pool [deposit 2, deposit 3, ⟨env, .confirmads 1⟩] (by decide)
  have hpaid : payouts (pool.sent [deposit 2, deposit 3, ⟨env, .confirmads 1⟩]) = 1 := rfl
  have hdeposits : pool.deposits [deposit 2, deposit 3, ⟨env, .confirmads 1⟩] = 2 := rfl
  have hnone : pool.openOrders = 0 := rfl
  have hone : s.openOrders = 1 := by
    rw [hpaid, hdeposits, hnone] at hopen
    exact add_right_cancel hopen
  refine ⟨hone, hpools, fun adsChecked hsettled => ?_⟩
  obtain ⟨conf, hconf, hcovers, -⟩ := (hsettles env 2 _ adsChecked rfl rfl).mp hsettled
  obtain rfl := Option.some.inj hconf
  cases adsChecked <;> exact absurd hcovers.le (by decide)

/-- The coins of a blacklisted sender are kept for nothing. And when the first of two orders was
paid, the pool does not cover the second one, at neither price. -/
theorem deposits_not_all_payable :
    (∃ s', transact (deposit 9) pool = .ok (s', []) ∧ s'.orders.rows = [] ∧
      s'.confs.rows = pool.confs.rows) ∧
    (∃ order, (pool.final [deposit 2, deposit 3, ⟨env, .confirmads 1⟩]).orders.find? 2 =
      some order) ∧
    ∀ adsChecked, abortOf (settle env (pool.final [deposit 2, deposit 3, ⟨env, .confirmads 1⟩]) 2
      adsChecked) = some ⟨.action, "reward token not enough"⟩ := by
  refine ⟨⟨_, rfl, rfl, rfl⟩, ⟨_, rfl⟩, fun adsChecked => ?_⟩
  cases adsChecked <;> rfl

end Pool

end Amax.Mining
