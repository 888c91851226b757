-- SUMMARY: The accounts that hold core tokens for others always have at least what the contracts owe out of them.
import Amax.Chain.Credit
import Amax.System.Voters

/-! # Custody

What a contract owes is in its own tables, what it has is in the tables of the
token contract, and the two meet in no code. While a transaction is under way,
the messages that are still to be delivered make up the difference. -/

namespace Amax

-- ---------------------------------------------------------------------------
-- The invariant
-- ---------------------------------------------------------------------------

/-- Every custodian has what it owes, when the messages that are still to be delivered are counted
in. -/
structure Custody (core : Symbol) (w : World) (pending : List Message) : Prop where
  symbol : w.system.gstate.coreSymbol = core
  ramSymbol : w.ram.coreSymbol = core
  rewardSymbol : w.reward.coreSymbol = core
  votes : Backed w.system (w.owed .votes)
  refunds : ∀ r ∈ w.bandwidth.refunds.rows, Bandwidth.RefundOk core r
  books : ∃ flows, Reward.Books w.reward flows
  liquid : Token.Liquid w.token
  currency : ∃ st ∈ w.token.stats.rows, st.supply.symbol = core
  covered : ∀ c : Custodian,
    w.owed c ≤ w.token.accounts.amount c.account core.code + credits core c pending
  safe : ∀ m ∈ pending, m.Safe

-- ---------------------------------------------------------------------------
-- Transfers
-- ---------------------------------------------------------------------------

namespace Token

variable {env : Env} {s s' : State} {out : List Name} {sender receiver : Name} {quantity : Asset}
  {memo : String}

/-- A transfer is signed by its sender, and has the symbol of its currency. -/
theorem transfer_signed {st : CurrencyStats} (hst : st ∈ s.stats.rows)
    (hok : transfer env s sender receiver quantity memo = .ok (s', out)) :
    env.hasAuth sender = true ∧ sender ≠ receiver ∧ 0 < quantity.amount ∧
      (quantity.symbol.code = st.supply.symbol.code ↔ quantity.symbol = st.supply.symbol) := by
  obtain ⟨hauth, hne, -, hpos, st', -, -, hfind, hsym, -⟩ := transfer_ok hok
  refine ⟨hauth, hne, hpos, fun hcode => ?_, fun hsymbol => by rw [hsymbol]⟩
  rw [hcode, Table.find?_of_mem hst] at hfind
  rw [hsym, Option.some.inj hfind]

end Token

section Delivery

variable {core : Symbol} {w w' : World} {env : World.Env} {c : Custodian} {m : Message}
  {rest sent : List Message}

/-- What a transfer moves into the account of a custodian is its credit and what is owed at once. -/
theorem transfer_credit {s s' : Token.State} {tokenEnv : Token.Env} {out : List Name}
    {sender receiver : Name} {quantity : Asset} {memo : String} (auths : Name → Bool)
    (hcurrency : ∃ st ∈ s.stats.rows, st.supply.symbol = core)
    (hok : Token.transfer tokenEnv s sender receiver quantity memo = .ok (s', out)) :
    s'.accounts.amount c.account core.code = s.accounts.amount c.account core.code +
      ((Message.token auths (.transfer sender receiver quantity memo)).credit core c +
        if quantity.symbol = core ∧ receiver = rewardAccount ∧ c = .rewards then quantity.amount
        else 0) := by
  obtain ⟨st, hst, rfl⟩ := hcurrency
  obtain ⟨-, hne, -, hsym⟩ := Token.transfer_signed hst hok
  rw [Token.transfer_amount hok]
  congr 1
  simp only [Token.Action.movement, Message.credit, hsym]
  by_cases hsymbol : quantity.symbol = st.supply.symbol
  · by_cases hc : c = .rewards
    · subst hc
      by_cases hin : receiver = rewardAccount <;> by_cases hout : sender = rewardAccount <;>
        simp_all [Custodian.account]
    · simp [hsymbol, hne, hc]
  · simp [hsymbol]

/-- The notification of a transfer adds what comes in to what the reward contract owes. -/
theorem notify_books {auths : Name → Bool} {r r' : Reward.State} {flows : List Reward.Flow}
    {sender receiver : Name} {quantity : Asset} {memo : String} (hbooks : Reward.Books r flows)
    (hne : sender ≠ receiver)
    (hok : World.notify env auths r (.transfer sender receiver quantity memo) = .ok r') :
    r'.coreSymbol = r.coreSymbol ∧
      Reward.Books r' (flows ++ if quantity.symbol = r.coreSymbol ∧ receiver = rewardAccount then
        [.received quantity.amount] else []) := by
  simp only [World.notify] at hok
  split_ifs at hok with hparty
  · simp only [Except.bind_ok_iff, Except.pure_ok_iff, Prod.exists, Reward.transact, check_ok_iff,
      exists_const] at hok
    obtain ⟨_, out, ⟨-, hok⟩, rfl⟩ := hok
    have hbooks' := Reward.ontransfer_books hbooks hok
    rcases Reward.ontransfer_ok hbooks.ledger hok with ⟨hnot, rfl, rfl⟩ | ⟨hin, -, rfl, _, -, rfl⟩
    · rw [if_neg]
      · exact ⟨rfl, hbooks'⟩
      · rintro ⟨hsym, hreceiver⟩
        exact hnot ⟨rfl, hsym, fun e => hne (e.trans hreceiver.symm), hreceiver⟩
    · rw [if_pos ⟨hin.2.1, hin.2.2.2⟩]
      exact ⟨rfl, hbooks'⟩
  · obtain rfl := Except.ok.inj hok
    rw [if_neg fun h => hparty (.inr h.2), List.append_nil]
    exact ⟨rfl, hbooks⟩

/-- The actions of the token contract that are no transfers move no tokens of a custodian. -/
theorem Message.Safe.amount_le {auths : Name → Bool} {a : Token.Action} {s s' : Token.State}
    {notified : List Name} (core : Symbol) (hsafe : (Message.token auths a).Safe)
    (ha : ∀ sender receiver quantity memo, a ≠ .transfer sender receiver quantity memo)
    (hok : Token.transact ⟨env.token auths, a⟩ s = .ok (s', notified)) (c : Custodian) :
    s.accounts.amount c.account core.code ≤ s'.accounts.amount c.account core.code := by
  rw [Token.transact_amount hok]
  refine le_add_of_nonneg_right (not_lt.mp fun hneg => ?_)
  have hmay := Token.mayTake_of_movement_neg hok hneg
  cases a with
  | transfer sender receiver quantity memo => exact ha sender receiver quantity memo rfl
  | retire => exact Bool.false_ne_true ((hsafe c).symm.trans hmay.2)
  | slashblack => exact hsafe c hmay.1
  | _ => exact hmay

/-- A delivered message moves the tokens it was counted in with. -/
theorem Custody.deliver_token {auths : Name → Bool} {a : Token.Action}
    (h : Custody core w (.token auths a :: rest))
    (hok : World.deliver env w (.token auths a) = .ok (w', sent)) :
    Custody core w' (sent ++ rest) := by
  obtain ⟨token, notified, reward, htoken, hnotify, rfl, rfl⟩ := World.deliver_token_ok hok
  have hliquid := h.liquid.transact htoken
  have hcurrency : ∃ st ∈ token.stats.rows, st.supply.symbol = core := by
    obtain ⟨st, hst, hsym⟩ := h.currency
    obtain ⟨st', hst', hsym'⟩ := (Token.transact_keepsCurrencies htoken).kept st hst
    exact ⟨st', hst', hsym'.trans hsym⟩
  have hsafe : ∀ m ∈ rest, m.Safe := fun m hm => h.safe m (List.mem_cons_of_mem _ hm)
  obtain ⟨flows, hbooks⟩ := h.books
  by_cases htransfer : ∃ sender receiver quantity memo, a = .transfer sender receiver quantity memo
  · obtain ⟨sender, receiver, quantity, memo, rfl⟩ := htransfer
    obtain ⟨st, hst, -⟩ := h.currency
    obtain ⟨-, hne, -, -⟩ := Token.transfer_signed hst htoken
    obtain ⟨hsymbol, hbooks'⟩ := notify_books hbooks hne hnotify
    refine ⟨h.symbol, h.ramSymbol, hsymbol.trans h.rewardSymbol, h.votes, h.refunds, ⟨_, hbooks'⟩,
      hliquid, hcurrency, fun c => ?_, hsafe⟩
    have hcovered := h.covered c
    rw [credits_cons] at hcovered
    simp only [List.nil_append]
    rw [transfer_credit auths h.currency htoken]
    cases c with
    | rewards =>
      have howed := hbooks.owed_eq
      have howed' := hbooks'.owed_eq
      rw [h.rewardSymbol, Reward.received_append, Reward.paid_append] at howed'
      simp only [World.owed] at hcovered ⊢
      simp only [and_true]
      rw [howed']
      rw [howed] at hcovered
      split_ifs <;> simp [Reward.received, Reward.paid] <;> omega
    | _ =>
      simp only [World.owed, World.system, reduceCtorEq, and_false, if_false, add_zero]
        at hcovered ⊢
      omega
  · have ha : ∀ sender receiver quantity memo, a ≠ .transfer sender receiver quantity memo :=
      fun sender receiver quantity memo e => htransfer ⟨sender, receiver, quantity, memo, e⟩
    have hnone : reward = w.reward := by
      cases a with
      | transfer sender receiver quantity memo =>
        exact absurd rfl (ha sender receiver quantity memo)
      | _ => exact (Except.ok.inj hnotify).symm
    subst hnone
    refine ⟨h.symbol, h.ramSymbol, h.rewardSymbol, h.votes, h.refunds, ⟨flows, hbooks⟩, hliquid,
      hcurrency, fun c => ?_, hsafe⟩
    have hcovered := h.covered c
    have hamount := Message.Safe.amount_le core (h.safe _ List.mem_cons_self) ha htoken c
    have hcredit : (Message.token auths a).credit core c = 0 := by
      cases a with
      | transfer sender receiver quantity memo =>
        exact absurd rfl (ha sender receiver quantity memo)
      | _ => rfl
    rw [credits_cons, hcredit, zero_add] at hcovered
    exact hcovered.trans (add_le_add_left hamount _)

/-- What the reward contract pays it does not owe any more. -/
theorem Custody.deliver_reward {auths : Name → Bool} {a : Reward.Action}
    (h : Custody core w (.reward auths a :: rest))
    (hok : World.deliver env w (.reward auths a) = .ok (w', sent)) :
    Custody core w' (sent ++ rest) := by
  obtain ⟨reward, flows, hreward, rfl, rfl⟩ := World.deliver_reward_ok hok
  obtain ⟨out, hbooks⟩ := h.books
  have hbooks' := Reward.transact_books hbooks hreward
  have hsymbol : reward.coreSymbol = w.reward.coreSymbol :=
    Reward.transact_coreSymbol hbooks.ledger hreward
  have hself : rewardAccount ≠ Reward.coreToken := by decide
  have hflows := Reward.transact_flows hself hreward
  have hsent : ∀ m ∈ flows.flatMap (·.toMessages w.reward.coreSymbol), m.Safe := by
    rcases hflows with rfl | ⟨voter, quantity, -, rfl⟩
    · exact fun m hm => absurd hm List.not_mem_nil
    · simp [Reward.Flow.toMessages, Message.Safe]
  refine ⟨h.symbol, h.ramSymbol, hsymbol.trans h.rewardSymbol, h.votes, h.refunds, ⟨_, hbooks'⟩,
    h.liquid, h.currency, fun c => ?_, fun m hm => ?_⟩
  · have hcovered := h.covered c
    rw [credits_cons, show Message.credit core c (.reward auths a) = 0 from rfl, zero_add]
      at hcovered
    rw [credits_append]
    -- a claim is credited to its voter, and was owed to it before
    have hpaid : (if c = .rewards then Reward.received flows - Reward.paid flows else 0) ≤
        credits core c (flows.flatMap (·.toMessages w.reward.coreSymbol)) := by
      rcases hflows with rfl | ⟨voter, quantity, hpos, rfl⟩
      · simp [Reward.received, Reward.paid]
      · simp only [Reward.received, Reward.paid, List.flatMap_cons, List.flatMap_nil,
          List.append_nil, Reward.Flow.toMessages, credits_cons, credits_nil, Message.credit,
          h.rewardSymbol, rewardAccount_eq, ne_eq, not_true_eq_false, or_false]
        split_ifs <;> omega
    cases c with
    | rewards =>
      have howed := hbooks.owed_eq
      have howed' := hbooks'.owed_eq
      rw [Reward.received_append, Reward.paid_append] at howed'
      simp only [World.owed, if_true] at hcovered hpaid ⊢
      omega
    | _ =>
      simp only [World.owed, World.system, reduceCtorEq, if_false] at hcovered hpaid ⊢
      omega
  · rcases List.mem_append.mp hm with hm | hm
    · exact hsent m hm
    · exact h.safe m (List.mem_cons_of_mem _ hm)

theorem Custody.deliver (h : Custody core w (m :: rest))
    (hok : World.deliver env w m = .ok (w', sent)) : Custody core w' (sent ++ rest) := by
  cases m with
  | token auths a => exact h.deliver_token hok
  | reward auths a => exact h.deliver_reward hok

/-- Messages that are delivered one after the other are counted in one after the other. -/
theorem Custody.foldlM {f : World → Message → Result World}
    (hf : ∀ w m rest w', Custody core w (m :: rest) → f w m = .ok w' → Custody core w' rest)
    (h : Custody core w (sent ++ rest)) (hok : sent.foldlM f w = .ok w') :
    Custody core w' rest := by
  induction sent generalizing w with
  | nil =>
    rw [List.foldlM_nil, Except.pure_ok_iff] at hok
    exact hok ▸ h
  | cons m sent ih =>
    rw [List.foldlM_cons, Except.bind_ok_iff] at hok
    obtain ⟨w₁, hfirst, hok⟩ := hok
    exact ih (hf w m (sent ++ rest) w₁ h hfirst) hok

/-- A message is delivered with all that it sends. -/
theorem Custody.deliverFrom {depth : ℕ} (h : Custody core w (m :: rest))
    (hok : World.deliverFrom env depth w m = .ok w') : Custody core w' rest := by
  induction depth generalizing w w' m rest with
  | zero => cases hok
  | succ depth ih =>
    simp only [World.deliverFrom, Except.bind_ok_iff, Prod.exists] at hok
    obtain ⟨w₁, sent, hdeliver, hsent⟩ := hok
    exact (h.deliver hdeliver).foldlM (fun _ _ _ _ h hok => ih h hok) hsent

end Delivery

-- ---------------------------------------------------------------------------
-- Transactions
-- ---------------------------------------------------------------------------

namespace World

/-- The account that a privileged account may act for. -/
def Call.source : Call → Option Name
  | .system (.delegatebw sender _ _ _ _) => some sender
  | .system (.undelegatebw sender _ _ _) => some sender
  | .ram a => a.seller
  | _ => none

def Call.slashed : Call → Option Name
  | .token a => a.slashed
  | _ => none

/-- What the system contract converts is exact. -/
def Call.Exact (s : System) : Call → Prop
  | .system a => ∀ votes ∈ s.convertedVotes a, ExactVotes votes
  | _ => True

instance (s : System) (call : Call) : Decidable (call.Exact s) :=
  match call with
  | .system a => inferInstanceAs (Decidable (∀ votes ∈ s.convertedVotes a, ExactVotes votes))
  | .refund _ | .ram _ | .reward _ | .token _ => isTrue trivial

/-- Nobody signs for a custodian, stakes, unstakes or sells for it, or slashes it, and conversions of
votes are exact. -/
structure Careful (w : World) (tx : Transaction) : Prop where
  unsigned : ∀ c : Custodian, tx.env.hasAuth c.account = false
  untouched : ∀ c : Custodian, tx.call.source ≠ some c.account
  unslashed : ∀ c : Custodian, tx.call.slashed ≠ some c.account
  exact : tx.call.Exact w.system

instance (w : World) (tx : Transaction) : Decidable (Careful w tx) :=
  decidable_of_iff ((∀ c : Custodian, tx.env.hasAuth c.account = false) ∧
      (∀ c : Custodian, tx.call.source ≠ some c.account) ∧
      (∀ c : Custodian, tx.call.slashed ≠ some c.account) ∧ tx.call.Exact w.system)
    ⟨fun h => ⟨h.1, h.2.1, h.2.2.1, h.2.2.2⟩, fun h => ⟨h.1, h.2, h.3, h.4⟩⟩

/-- An action that names no account it takes from. -/
theorem Careful.of_quiet {w : World} {tx : Transaction}
    (hunsigned : ∀ c : Custodian, tx.env.hasAuth c.account = false)
    (hsource : tx.call.source = none) (hslashed : tx.call.slashed = none)
    (hexact : tx.call.Exact w.system) : Careful w tx := by
  refine ⟨hunsigned, fun c hc => ?_, fun c hc => ?_, hexact⟩
  · exact absurd (hsource.symm.trans hc) (Option.some_ne_none _).symm
  · exact absurd (hslashed.symm.trans hc) (Option.some_ne_none _).symm

end World

section Transactions

variable {core : Symbol} {d : Ram.Doubles} {w w' : World} {env : World.Env}
  {sent pending : List Message}

/-- The contracts of votes and stakes took a step that is paid for by what it sends. -/
theorem Custody.bandwidth {b : Bandwidth} {out : List Bandwidth.Sent} (h : Custody core w pending)
    (hsymbol : b.system.gstate.coreSymbol = core)
    (hvotes : Backed b.system (10000 * (b.system.voters.sum (·.votes.amount) +
      b.system.voteRefunds.sum (·.votes.amount))))
    (hrefunds : ∀ r ∈ b.refunds.rows, Bandwidth.RefundOk core r)
    (hcovered : ∀ c, World.owed { w with bandwidth := b } c ≤
      w.owed c + credits core c (out.flatMap (·.toMessages))) :
    Custody core { w with bandwidth := b } (out.flatMap (·.toMessages) ++ pending) where
  symbol := hsymbol
  ramSymbol := h.ramSymbol
  rewardSymbol := h.rewardSymbol
  votes := hvotes
  refunds := hrefunds
  books := h.books
  liquid := h.liquid
  currency := h.currency
  covered c := by
    have hold := h.covered c
    have hnew := hcovered c
    rw [credits_append]
    dsimp only
    omega
  safe m hm := by
    rcases List.mem_append.mp hm with hm | hm
    · obtain ⟨o, -, ho⟩ := List.mem_flatMap.mp hm
      exact Bandwidth.Sent.safe ho
    · exact h.safe m hm

/-- Votes that are added are paid for, and refunds of votes are not owed any more. -/
theorem Backed.perform {s s' : System} {a : Action} {out : List Inline} {held : ℤ} {env : Amax.Env}
    (h : Backed s held) (hexact : ∀ votes ∈ s.convertedVotes a, ExactVotes votes)
    (hok : Amax.perform env s a = .ok (s', out)) :
    Backed s' (held + (staked ⟨env, a⟩ out - refunded ⟨env, a⟩ out)) := by
  obtain ⟨s₁, heffect, hout⟩ := perform_effect hok
  have := backed_outside.mpr (h.effect env hexact heffect)
  rw [← hout] at this
  exact backed_outside.mp this

/-- What sends nothing neither takes nor refunds votes. -/
theorem Backed.perform_quiet {s s' : System} {a : Action} {held : ℤ} {env : Amax.Env}
    (h : Backed s held) (hexact : ∀ votes ∈ s.convertedVotes a, ExactVotes votes)
    (hok : Amax.perform env s a = .ok (s', [])) : Backed s' held := by
  have hbacked := h.perform hexact hok
  cases a <;> simpa [staked, refunded] using hbacked

/-- An action of the system contract alone. -/
theorem Custody.onSystem {a : Action} {b : Bandwidth} {out : List Bandwidth.Sent}
    (h : Custody core w pending) (hunsigned : ∀ c : Custodian, env.hasAuth c.account = false)
    (hexact : ∀ votes ∈ w.system.convertedVotes a, ExactVotes votes)
    (hok : Bandwidth.onSystem w.bandwidth (Amax.perform (w.systemEnv env) w.system a) =
      .ok (b, out)) :
    Custody core { w with bandwidth := b } (out.flatMap (·.toMessages) ++ pending) := by
  obtain ⟨s, sent, hperform, rfl, rfl⟩ := Bandwidth.onSystem_ok hok
  have hbacked := h.votes.perform hexact hperform
  have howed : ∀ c : Custodian,
      World.owed { w with bandwidth := { w.bandwidth with system := s } } c = w.owed c +
        if c = .votes then staked ⟨w.systemEnv env, a⟩ sent - refunded ⟨w.systemEnv env, a⟩ sent
        else 0 := by
    intro c
    cases c with
    | votes => exact hbacked.held_eq.symm
    | _ => simp [World.owed]
  refine h.bandwidth ((perform_coreSymbol hperform).trans h.symbol) ?_ h.refunds fun c => ?_
  · rw [← hbacked.held_eq]
    exact hbacked
  · have hauth : (w.systemEnv env).hasAuth c.account = false := hunsigned c
    have hcredits := perform_credits hauth hperform h.symbol
    rw [Bandwidth.toMessages_inline, howed]
    omega

/-- A change of what is staked, which leaves the votes as they are. -/
theorem Custody.moves {source : Name} {b : Bandwidth} {out : List Bandwidth.Sent}
    (h : Custody core w pending) (hsource : ∀ c : Custodian, source ≠ c.account)
    (hvotes : Backed b.system (w.owed .votes))
    (hmoves : Bandwidth.Moves core source w.bandwidth b out) :
    Custody core { w with bandwidth := b } (out.flatMap (·.toMessages) ++ pending) := by
  refine h.bandwidth hmoves.symbol ?_ hmoves.refunds fun c => ?_
  · rw [← hvotes.held_eq]
    exact hvotes
  · by_cases hc : c = .stakes
    · subst hc
      simp only [World.owed, hmoves.owed_eq, Bandwidth.inflow_eq, le_refl]
    · rw [Bandwidth.credits_between hc (hsource c) hmoves.between, add_zero]
      cases c with
      | votes => exact hvotes.held_eq.symm.le
      | stakes => exact absurd rfl hc
      | _ => exact le_rfl

/-- A message that takes nothing from a custodian may be sent by anyone. -/
theorem Custody.send {m : Message} (h : Custody core w pending) (hsafe : m.Safe)
    (hcredit : ∀ c, 0 ≤ m.credit core c) : Custody core w (m :: pending) where
  symbol := h.symbol
  ramSymbol := h.ramSymbol
  rewardSymbol := h.rewardSymbol
  votes := h.votes
  refunds := h.refunds
  books := h.books
  liquid := h.liquid
  currency := h.currency
  covered c := by
    have hold := h.covered c
    have hnew := hcredit c
    rw [credits_cons]
    omega
  safe m' hm' := by
    rcases List.mem_cons.mp hm' with rfl | hm'
    · exact hsafe
    · exact h.safe m' hm'

/-- An action of the token contract that no custodian signs. -/
theorem Custody.call_token {a : Token.Action} (h : Custody core w pending)
    (hunsigned : ∀ c : Custodian, env.hasAuth c.account = false)
    (hunslashed : ∀ c : Custodian, a.slashed ≠ some c.account)
    (hok : World.deliver env w (.token env.hasAuth a) = .ok (w', sent)) :
    Custody core w' (sent ++ pending) := by
  have hsafe : (Message.token env.hasAuth a).Safe := by
    cases a with
    | retire => exact hunsigned
    | slashblack target => exact fun c e => hunslashed c (congrArg some e)
    | _ => trivial
  have hcredit : ∀ c, 0 ≤ (Message.token env.hasAuth a).credit core c := by
    intro c
    cases a with
    | transfer sender receiver quantity memo =>
      obtain ⟨token, notified, reward, htoken, -⟩ := World.deliver_token_ok hok
      obtain ⟨st, hst, -⟩ := h.currency
      obtain ⟨hauth, -, hpos, -⟩ := Token.transfer_signed hst htoken
      have hsender : sender ≠ c.account := by
        rintro rfl
        exact Bool.false_ne_true ((hunsigned c).symm.trans hauth)
      simp only [Message.credit, if_neg hsender, sub_zero]
      split_ifs <;> omega
    | _ => exact le_rfl
  exact (h.send hsafe hcredit).deliver hok

theorem Custody.call_reward {a : Reward.Action} (h : Custody core w pending)
    (hok : World.deliver env w (.reward env.hasAuth a) = .ok (w', sent)) :
    Custody core w' (sent ++ pending) :=
  (h.send (m := .reward _ a) trivial fun _ => le_rfl).deliver hok

/-- An action of the RAM market. -/
theorem Custody.call_ram {a : Ram.Action} (h : Custody core w pending)
    (hunsigned : ∀ c : Custodian, env.hasAuth c.account = false)
    (hseller : ∀ c : Custodian, a.seller ≠ some c.account)
    {ram : Ram.State} {out : List Ram.Sent}
    (hok : Ram.perform d (w.ramEnv env) w.ramState a = .ok (ram, out)) :
    Custody core { w with ram, bandwidth := { w.bandwidth with totals := ram.totals } }
      (out.map (·.toMessage) ++ pending) := by
  have hmoves : ∀ c : Custodian, ram.coreSymbol = core ∧ credits core c (out.map (·.toMessage)) =
      if c = .ram then ram.totalRamStake - w.ram.totalRamStake else 0 := by
    intro c
    have hauth : (w.ramEnv env).hasAuth c.account = false := hunsigned c
    have hcore : w.ramState.coreSymbol = core := h.ramSymbol
    exact Ram.perform_moves hcore hok c hauth (hseller c)
  refine ⟨h.symbol, (hmoves .ram).1, h.rewardSymbol, h.votes, h.refunds, h.books, h.liquid,
    h.currency, fun c => ?_, fun m hm => ?_⟩
  · have hold := h.covered c
    rw [credits_append, (hmoves c).2]
    cases c with
    | ram =>
      simp only [World.owed, if_true] at hold ⊢
      omega
    | _ => simpa [World.owed] using hold
  · rcases List.mem_append.mp hm with hm | hm
    · obtain ⟨o, -, rfl⟩ := List.mem_map.mp hm
      exact o.safe
    · exact h.safe m hm

/-- The action of a careful transaction. -/
theorem Custody.perform {tx : World.Transaction} (h : Custody core w pending)
    (hcareful : World.Careful w tx)
    (hok : World.perform d tx.env w tx.call = .ok (w', sent)) :
    Custody core w' (sent ++ pending) := by
  obtain ⟨env, call⟩ := tx
  obtain ⟨hunsigned, huntouched, hunslashed, hexact⟩ := hcareful
  cases call with
  | system a =>
    obtain ⟨b, out, hstep, rfl, rfl⟩ := World.perform_system_ok hok
    cases a with
    | delegatebw sender receiver net cpu transfer =>
      have hsource : ∀ c : Custodian, sender ≠ c.account :=
        fun c e => huntouched c (congrArg some e)
      have hvotes := h.votes.perform_quiet
        (a := .delegatebw sender receiver net cpu transfer) hexact (Bandwidth.delegatebw_system hstep)
      exact h.moves hsource hvotes
        (Bandwidth.delegatebw_moves h.refunds h.symbol (hsource .stakes) hstep)
    | undelegatebw sender receiver net cpu =>
      have hsource : ∀ c : Custodian, sender ≠ c.account :=
        fun c e => huntouched c (congrArg some e)
      have hvotes := h.votes.perform_quiet (a := .undelegatebw sender receiver net cpu) hexact
        (Bandwidth.undelegatebw_system hstep)
      exact h.moves hsource hvotes
        (Bandwidth.undelegatebw_moves h.refunds h.symbol (hsource .stakes) hstep)
    | _ => exact h.onSystem hunsigned hexact hstep
  | refund owner =>
    obtain ⟨b, out, hstep, rfl, rfl⟩ := World.perform_refund_ok hok
    obtain ⟨hmoves, hauth, hsystem⟩ := Bandwidth.refund_moves h.refunds h.symbol hstep
    refine h.moves (fun c e => ?_) (hsystem ▸ h.votes) hmoves
    exact Bool.false_ne_true ((hunsigned c).symm.trans (e ▸ hauth))
  | ram a =>
    obtain ⟨ram, out, hstep, rfl, rfl⟩ := World.perform_ram_ok hok
    exact h.call_ram hunsigned huntouched hstep
  | reward a => exact h.call_reward hok
  | token a => exact h.call_token hunsigned hunslashed hok

/-- A careful transaction. -/
theorem Custody.transact {tx : World.Transaction} (h : Custody core w [])
    (hcareful : World.Careful w tx) (hok : World.transact d tx w = .ok (w', sent)) :
    Custody core w' [] := by
  obtain ⟨w₁, hperform, hsent⟩ := World.transact_ok hok
  exact (h.perform hcareful hperform).foldlM (fun _ _ _ _ h hok => h.deliverFrom hok) hsent

end Transactions

-- ---------------------------------------------------------------------------
-- Runs
-- ---------------------------------------------------------------------------

namespace World

variable {env : Env} {created : List Token.Transaction} {version : ℕ} {core : Symbol} {w₀ : World}

/-- After `init` nothing is owed. -/
theorem init_custody
    (hinit : init env { token := Token.State.final {} created } version core = .ok w₀) :
    Custody core w₀ [] := by
  simp only [init, Except.bind_ok_iff, Prod.exists] at hinit
  obtain ⟨ram, sent, hram, hsent⟩ := hinit
  obtain ⟨⟨supply, hsupply, hsymbol⟩, hcore, hstake, rfl⟩ := Ram.init_ok hram
  have hliquid := Token.final_liquid created
  have hcurrency : ∃ st ∈ (Token.State.final {} created).stats.rows, st.supply.symbol = core := by
    simp only [ramEnv, Option.map_eq_some_iff] at hsupply
    obtain ⟨st, hst, rfl⟩ := hsupply
    exact ⟨st, Table.mem_of_find? hst, hsymbol⟩
  have hstart : Custody core
      { bandwidth := { system := { gstate := { coreSymbol := core } } }
        ram
        reward := .fresh core
        token := Token.State.final {} created }
      [(Ram.Sent.openBalance Ram.rexAccount core self).toMessage] := by
    have hnone : ∀ {α : Type} {p : α → Prop}, ∀ x ∈ ([] : List α), p x :=
      fun x hx => absurd hx List.not_mem_nil
    refine ⟨rfl, hcore, rfl, ⟨hnone, hnone, rfl⟩, hnone, ⟨[], Reward.books_fresh core⟩, hliquid,
      hcurrency, fun c => ?_, fun m hm => ?_⟩
    · have hnonneg := Holdings.amount_nonneg hliquid.circulates.nonneg c.account core.code
      have hnothing :
          credits core c [(Ram.Sent.openBalance Ram.rexAccount core self).toMessage] = 0 := rfl
      rw [hnothing, add_zero]
      cases c with
      | ram =>
        rw [World.owed, hstake]
        exact hnonneg
      | _ => exact hnonneg
    · obtain rfl := List.mem_singleton.mp hm
      trivial
  simp only [List.foldlM_cons, List.foldlM_nil, Except.bind_ok_iff, Except.pure_ok_iff] at hsent
  obtain ⟨w, hdeliver, rfl⟩ := hsent
  exact hstart.deliverFrom hdeliver

theorem run_custody {d : Ram.Doubles} {txs : List Transaction}
    (hinit : init env { token := Token.State.final {} created } version core = .ok w₀)
    (hcareful : Run.Along (transact d) Careful w₀ txs) : Custody core (final d w₀ txs) [] := by
  have hstep : ∀ (w : World) (tx : Transaction) w' out, Custody core w [] → Careful w tx →
      transact d tx w = .ok (w', out) → Custody core w' [] :=
    fun w tx w' out h hcareful hok => h.transact hcareful hok
  exact Run.invariant hstep (init_custody hinit) hcareful

/-- In every run of careful transactions of all contracts, nested actions and
all, the account of the votes has ten thousand units for every vote and every
refund of votes, the account of the stakes has all that is staked or to be
refunded, the account of the RAM market has what the market counts as its stake,
and the account of the rewards has all that producers are yet to share and
voters are yet to claim. -/
theorem custody {d : Ram.Doubles} {txs : List Transaction}
    (hinit : init env { token := Token.State.final {} created } version core = .ok w₀)
    (hcareful : Run.Along (transact d) Careful w₀ txs) :
    let w := final d w₀ txs
    10000 * (w.system.voters.sum (·.votes.amount) + w.system.voteRefunds.sum (·.votes.amount)) ≤
        w.token.accounts.amount voteAccount core.code ∧
      w.bandwidth.delbands.sum (fun b => b.netWeight.amount + b.cpuWeight.amount) +
          w.bandwidth.refunds.sum (fun r => r.netAmount.amount + r.cpuAmount.amount) ≤
        w.token.accounts.amount stakeAccount core.code ∧
      w.ram.totalRamStake ≤ w.token.accounts.amount Ram.ramAccount core.code ∧
      w.reward.producers.sum (·.allocatingRewards) + w.reward.voters.sum (·.unclaimedRewards) ≤
        w.token.accounts.amount rewardAccount core.code := by
  have hcovered : ∀ c : Custodian, (final d w₀ txs).owed c ≤
      (final d w₀ txs).token.accounts.amount c.account core.code := by
    intro c
    have := (run_custody hinit hcareful).covered c
    rwa [credits_nil, add_zero] at this
  exact ⟨hcovered .votes, hcovered .stakes, hcovered .ram, hcovered .rewards⟩

def amax : Symbol := ⟨['A', 'M', 'A', 'X'], 8⟩

/-- A market that rounds the quotient of integers down. -/
def integers : Ram.Doubles where
  bancorOutput i o x := o * x / (i + x)
  bancorInput o i out := i * out / (o - out)
  costPlusFee cost := cost * 1000 / 995

def day (n : ℕ) : Env :=
  { now := seconds (1800000000 + 86400 * n), hasAuth := fun n => n = self ∨ n = 1 ∨ n = 2 }

def created₀ : List Token.Transaction := [
  ⟨{ hasAuth := fun _ => true }, .create self ⟨10 ^ 16, amax⟩⟩,
  ⟨{ hasAuth := fun _ => true }, .issue self ⟨10 ^ 15, amax⟩ ""⟩]

/-- The world after `init`. -/
def genesis (w : World) : World := (init (day 0) w 0 amax).toOption.getD w

theorem init_genesis :
    init (day 0) { token := Token.State.final {} created₀ } 0 amax =
      .ok (genesis { token := Token.State.final {} created₀ }) := by
  have hok : ∀ (r : Result World) (w : World),
      r.toOption.isSome = true → r = .ok (r.toOption.getD w) := by
    rintro (e | w) _ h
    · exact absurd h Bool.false_ne_true
    · rfl
  exact hok _ _ (by decide +kernel)

/-- A voter votes for a producer that shares its rewards, buys RAM, stakes bandwidth, and takes some
of the votes and of the stake back. -/
theorem custody_week :
    let txs : List Transaction := [
      ⟨day 0, .token (.transfer self 1 ⟨5000000, amax⟩ "")⟩,
      ⟨day 0, .token (.transfer self 2 ⟨5000000, amax⟩ "")⟩,
      ⟨day 0, .system (.regproducer 2 5 "" none)⟩,
      ⟨day 0, .system .upgradevote⟩,
      ⟨day 0, .system (.addvote 1 ⟨100, voteSymbol⟩)⟩,
      ⟨day 2, .system (.vote 1 [2])⟩,
      ⟨day 2, .token (.transfer 2 rewardAccount ⟨1000, amax⟩ "")⟩,
      ⟨day 2, .ram (.buyram 1 2 ⟨2000, amax⟩)⟩,
      ⟨day 2, .system (.delegatebw 1 2 ⟨300, amax⟩ ⟨400, amax⟩ false)⟩,
      ⟨day 4, .system (.subvote 1 ⟨40, voteSymbol⟩)⟩,
      ⟨day 4, .system (.undelegatebw 1 2 ⟨100, amax⟩ ⟨0, amax⟩)⟩,
      ⟨day 8, .system (.refundvote 1)⟩,
      ⟨day 8, .reward (.claimrewards 1)⟩]
    let w := final integers (genesis { token := Token.State.final {} created₀ }) txs
    w.owed .votes = 600000 ∧ w.owed .stakes = 600 ∧ w.owed .ram = 1990 ∧
      10000 * (w.system.voters.sum (·.votes.amount) + w.system.voteRefunds.sum (·.votes.amount)) ≤
        w.token.accounts.amount voteAccount amax.code := by
  intro txs
  have hcareful : Run.Along (transact integers) Careful
      (genesis { token := Token.State.final {} created₀ }) txs := by decide +kernel
  exact ⟨by decide +kernel, by decide +kernel, by decide +kernel, (custody init_genesis hcareful).1⟩

-- ---------------------------------------------------------------------------
-- Interleavings
-- ---------------------------------------------------------------------------

/-- A part of a transaction: an action with its signers, which the contract of a notified account
starts as well, or the next of the messages that are to be delivered. -/
inductive Part where
  | call (tx : Transaction)
  | next (env : Env)

/-- Perform a part. A transaction is undone as a whole, so only states with nothing left to deliver
last. -/
def part (d : Ram.Doubles) : Part → World × List Message →
    Result ((World × List Message) × List Message)
  | .call tx, (w, pending) => do
    let (w, sent) ← perform d tx.env w tx.call
    return ((w, sent ++ pending), sent)
  | .next env, (w, m :: pending) => do
    let (w, sent) ← deliver env w m
    return ((w, sent ++ pending), sent)
  | .next _, (_, []) => .error ⟨.sent, "nothing to deliver"⟩

def CarefulPart (s : World × List Message) : Part → Prop
  | .call tx => Careful s.1 tx
  | .next _ => True

instance (s : World × List Message) (p : Part) : Decidable (CarefulPart s p) :=
  match p with
  | .call tx => inferInstanceAs (Decidable (Careful s.1 tx))
  | .next _ => isTrue trivial

theorem part_custody {d : Ram.Doubles} {p : Part} {s s' : World × List Message}
    {sent : List Message} (h : Custody core s.1 s.2) (hcareful : CarefulPart s p) (hok : part d p s = .ok (s', sent)) :
    Custody core s'.1 s'.2 := by
  obtain ⟨w, pending⟩ := s
  cases p with
  | call tx =>
    simp only [part, Except.bind_ok_iff, Except.pure_ok_iff, Prod.exists, Prod.mk.injEq] at hok
    obtain ⟨w', out, hperform, rfl, -⟩ := hok
    exact h.perform hcareful hperform
  | next env =>
    cases pending with
    | nil => cases hok
    | cons m pending =>
      simp only [part, Except.bind_ok_iff, Except.pure_ok_iff, Prod.exists, Prod.mk.injEq] at hok
      obtain ⟨w', out, hdeliver, rfl, -⟩ := hok
      exact h.deliver hdeliver

/-- Whatever is performed between an action and the actions it sends, to any depth, what the
contracts owe and what they have differ by what the messages still to be delivered move. -/
theorem custody_interleaved {d : Ram.Doubles} {parts : List Part}
    (hinit : init env { token := Token.State.final {} created } version core = .ok w₀)
    (hcareful : Run.Along (part d) CarefulPart (w₀, []) parts) :
    let s := Run.final (part d) (w₀, []) parts
    ∀ c : Custodian, s.1.owed c ≤ s.1.token.accounts.amount c.account core.code +
      credits core c s.2 := by
  have hstep : ∀ (s : World × List Message) (p : Part) s' sent, Custody core s.1 s.2 →
      CarefulPart s p → part d p s = .ok (s', sent) → Custody core s'.1 s'.2 :=
    fun s p s' sent h hcareful hok => part_custody h hcareful hok
  exact (Run.invariant (I := fun s : World × List Message => Custody core s.1 s.2) hstep
    (init_custody hinit) hcareful).covered

/-- A voter adds votes, is refunded others and takes back more before the first transfer is
delivered. -/
theorem custody_interleaved_refund :
    let parts : List Part := [
      .call ⟨day 0, .token (.transfer self 1 ⟨5000000, amax⟩ "")⟩,
      .call ⟨day 0, .system (.addvote 1 ⟨100, voteSymbol⟩)⟩, .next (day 0), .next (day 0),
      .call ⟨day 4, .system (.subvote 1 ⟨40, voteSymbol⟩)⟩, .next (day 4),
      .call ⟨day 8, .system (.addvote 1 ⟨7, voteSymbol⟩)⟩,
      .call ⟨day 8, .system (.refundvote 1)⟩,
      .call ⟨day 8, .system (.subvote 1 ⟨10, voteSymbol⟩)⟩, .next (day 8)]
    let s := Run.final (part integers)
      (genesis { token := Token.State.final {} created₀ }, []) parts
    s.1.owed .votes = 670000 ∧ s.1.token.accounts.amount voteAccount amax.code = 1000000 ∧
      credits amax .votes s.2 = -330000 ∧
      s.1.owed .votes ≤ s.1.token.accounts.amount voteAccount amax.code +
        credits amax .votes s.2 := by
  intro parts
  have hcareful : Run.Along (part integers) CarefulPart
      (genesis { token := Token.State.final {} created₀ }, []) parts := by decide +kernel
  exact ⟨by decide +kernel, by decide +kernel, by decide +kernel,
    custody_interleaved init_genesis hcareful .votes⟩

end World

end Amax
