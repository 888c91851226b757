-- SUMMARY: No transaction takes tokens from an account that does not sign it, whatever is sent in its name.
import Amax.Chain.Payout

/-! # Consent

The system contract is privileged: what it sends is authorised by whomever it
names. That it takes nobody's tokens without consent is therefore a matter of
its code alone. An account may still be named before it gets what it gives, so
what counts is what all that is sent adds to its balance. -/

namespace Amax

-- ---------------------------------------------------------------------------
-- Gains
-- ---------------------------------------------------------------------------

/-- What the delivery of a message adds to the balance of `n`. -/
def Message.gain (n : Name) (code : List Char) : Message → ℤ
  | .token _ (.transfer sender receiver quantity _) =>
    (if receiver = n ∧ quantity.symbol.code = code then quantity.amount else 0) -
      if sender = n ∧ quantity.symbol.code = code then quantity.amount else 0
  | .token _ (.issue issuer quantity _) =>
    if issuer = n ∧ quantity.symbol.code = code then quantity.amount else 0
  | _ => 0

def gains (n : Name) (code : List Char) (l : List Message) : ℤ := (l.map (·.gain n code)).sum

/-- A message of the kinds that contracts send. -/
def Message.Plain : Message → Prop
  | .token _ (.transfer _ _ _ _) | .token _ (.issue _ _ _) | .token _ (.open_ _ _ _) => True
  | .token _ _ => False
  | .reward _ _ => True

section Gains

variable {n : Name} {code : List Char}

@[simp] theorem gains_nil : gains n code [] = 0 := rfl

@[simp] theorem gains_cons (m : Message) (l : List Message) :
    gains n code (m :: l) = m.gain n code + gains n code l := by
  simp [gains]

@[simp] theorem gains_append (l l' : List Message) :
    gains n code (l ++ l') = gains n code l + gains n code l' := by
  simp [gains]

theorem gains_nonneg {l : List Message} (h : ∀ m ∈ l, 0 ≤ m.gain n code) : 0 ≤ gains n code l := by
  refine List.sum_nonneg fun x hx => ?_
  obtain ⟨m, hm, rfl⟩ := List.mem_map.mp hx
  exact h m hm

theorem Inline.plain (i : Inline) : i.toMessage.Plain := by
  cases i <;> exact trivial

theorem Ram.Sent.plain (m : Ram.Sent) : m.toMessage.Plain := by
  cases m <;> exact trivial

theorem Bandwidth.Sent.plain {m : Bandwidth.Sent} {message : Message}
    (h : message ∈ m.toMessages) : message.Plain := by
  cases m with
  | inline i =>
    obtain rfl := List.mem_singleton.mp h
    exact i.plain
  | _ => cases h

/-- A transfer of no negative amount by another account takes nothing from `n`. -/
theorem Message.gain_transfer_nonneg (auths : Name → Bool) {sender : Name} (receiver : Name)
    {quantity : Asset} (memo : String) (hsender : sender ≠ n) (hnonneg : 0 ≤ quantity.amount) :
    0 ≤ (Message.token auths (.transfer sender receiver quantity memo)).gain n code := by
  simp only [Message.gain, hsender, false_and, if_false, sub_zero]
  split_ifs
  · exact hnonneg
  · exact le_rfl

end Gains

-- ---------------------------------------------------------------------------
-- Delivery
-- ---------------------------------------------------------------------------

namespace World

variable {d : Ram.Doubles} {env : Env} {w w' : World} {m : Message} {sent : List Message} {n : Name}
  {code : List Char}

theorem deliver_gain (hn : n ≠ rewardAccount) (hplain : m.Plain)
    (hok : deliver env w m = .ok (w', sent)) :
    w.token.accounts.amount n code + m.gain n code ≤
        w'.token.accounts.amount n code + gains n code sent ∧ ∀ m ∈ sent, m.Plain := by
  cases m with
  | token auths a =>
    obtain ⟨token, notified, reward, htoken, -, rfl, rfl⟩ := deliver_token_ok hok
    refine ⟨?_, fun m hm => absurd hm List.not_mem_nil⟩
    rw [gains_nil, add_zero, Token.transact_amount htoken]
    cases a with
    | transfer | issue | open_ => exact le_rfl
    | _ => exact absurd hplain id
  | reward auths a =>
    obtain ⟨reward, flows, hreward, rfl, rfl⟩ := deliver_reward_ok hok
    have hself : rewardAccount ≠ Reward.coreToken := by decide
    rcases Reward.transact_flows hself hreward with rfl | ⟨voter, quantity, hpos, rfl⟩
    · exact ⟨le_rfl, fun m hm => absurd hm List.not_mem_nil⟩
    · have hgain : 0 ≤ (Message.token (· = rewardAccount) (.transfer rewardAccount voter
          ⟨quantity, w.reward.coreSymbol⟩ "voted rewards")).gain n code :=
        Message.gain_transfer_nonneg _ voter _ (fun e => hn e.symm) hpos.le
      refine ⟨?_, ?_⟩
      · simp only [List.flatMap_cons, List.flatMap_nil, List.append_nil, Reward.Flow.toMessages,
          gains_cons, gains_nil, add_zero]
        exact add_le_add le_rfl hgain
      · simp [Reward.Flow.toMessages, Message.Plain]

/-- Messages that are delivered with all that they send add up. -/
theorem foldlM_gain {f : World → Message → Result World}
    (hf : ∀ w m w', m.Plain → f w m = .ok w' →
      w.token.accounts.amount n code + m.gain n code ≤ w'.token.accounts.amount n code)
    (hplain : ∀ m ∈ sent, m.Plain) (hok : sent.foldlM f w = .ok w') :
    w.token.accounts.amount n code + gains n code sent ≤ w'.token.accounts.amount n code := by
  induction sent generalizing w with
  | nil =>
    rw [List.foldlM_nil, Except.pure_ok_iff] at hok
    rw [gains_nil, add_zero, hok]
  | cons m sent ih =>
    rw [List.foldlM_cons, Except.bind_ok_iff] at hok
    obtain ⟨w₁, hfirst, hok⟩ := hok
    have hhead := hf w m w₁ (hplain m List.mem_cons_self) hfirst
    have htail := ih (fun m hm => hplain m (List.mem_cons_of_mem _ hm)) hok
    rw [gains_cons]
    omega

theorem deliverFrom_gain {depth : ℕ} (hn : n ≠ rewardAccount) (hplain : m.Plain)
    (hok : deliverFrom env depth w m = .ok w') :
    w.token.accounts.amount n code + m.gain n code ≤ w'.token.accounts.amount n code := by
  induction depth generalizing w w' m with
  | zero => cases hok
  | succ depth ih =>
    simp only [deliverFrom, Except.bind_ok_iff, Prod.exists] at hok
    obtain ⟨w₁, sent, hdeliver, hsent⟩ := hok
    obtain ⟨hgain, hplains⟩ := deliver_gain hn hplain hdeliver
    exact hgain.trans (foldlM_gain (fun _ _ _ hplain hok => ih hplain hok) hplains hsent)

end World

-- ---------------------------------------------------------------------------
-- Actions
-- ---------------------------------------------------------------------------

section Actions

variable {env : Env} {s s' : System} {a : Action} {sent : List Inline} {n : Name}
  {code : List Char}

/-- A producer that is paid shares no more than it gets, and what is issued to pay it leaves again. -/
theorem claimrewards_gains {submitter owner : Name} (hn : n ≠ rewardAccount)
    (hok : claimrewards env s submitter owner = .ok (s', sent)) :
    0 ≤ gains n code (sent.map (·.toMessage)) := by
  obtain ⟨q, share, shared, hpos, hsym, hnonneg, hle, hshared, rfl⟩ := claimrewards_sent hok
  have hreward : ¬rewardAccount = n := fun e => hn e.symm
  rcases hshared with rfl | rfl | rfl <;>
    simp only [List.append_nil, List.cons_append, List.nil_append, List.map_cons, List.map_nil,
      gains_cons, gains_nil, Inline.toMessage, Message.gain, hsym, hreward, false_and, if_false,
      zero_sub, add_zero, zero_add] <;>
    split_ifs <;> omega

/-- What an action of the system contract sends takes nothing from an account that does not
sign it. -/
theorem perform_gains (hauth : env.hasAuth n = false) (hn : ∀ c : Custodian, n ≠ c.account)
    (hok : perform env s a = .ok (s', sent)) : 0 ≤ gains n code (sent.map (·.toMessage)) := by
  obtain ⟨s₁, heffect, -⟩ := perform_effect hok
  cases heffect with
  | keep | revise | settings | configure | block | voter | voteproducer | undoreward => exact le_rfl
  | register quiet registered revision ext sends =>
    rcases sends with rfl | rfl
    · exact le_rfl
    · exact le_rfl
  | @addvote voter votes q symbol pos stakes ext =>
    have hvoter : voter ≠ n := by
      rintro rfl
      exact Bool.false_ne_true (hauth.symm.trans (addvote_auth hok))
    obtain ⟨hnonneg, -, -, -, rfl⟩ := voteToCoreAsset_ok_iff.mp stakes
    refine gains_nonneg fun m hm => ?_
    rcases List.mem_map.mp hm with ⟨i, hi, rfl⟩
    rcases List.mem_cons.mp hi with rfl | hi
    · exact Message.gain_transfer_nonneg _ _ _ hvoter hnonneg
    · obtain rfl := List.mem_singleton.mp hi
      exact le_rfl
  | subvote | vote => exact le_rfl
  | @refundvote refund q found stakes =>
    obtain ⟨hnonneg, -, -, -, rfl⟩ := voteToCoreAsset_ok_iff.mp stakes
    refine gains_nonneg fun m hm => ?_
    rcases List.mem_map.mp hm with ⟨i, hi, rfl⟩
    obtain rfl := List.mem_singleton.mp hi
    exact Message.gain_transfer_nonneg _ _ _ (fun e => hn .votes e.symm) hnonneg
  | claimrewards time found pos issued_eq => exact claimrewards_gains (hn .rewards) hok

end Actions

namespace Bandwidth

variable {env : Env} {b b' : Bandwidth} {source : Name} {sent : List Sent} {n : Name}
  {code : List Char}

theorem gains_between (hsource : source ≠ n) (hstake : stakeAccount ≠ n)
    (h : ∀ m ∈ sent, m.Between source) : gains n code (sent.flatMap (·.toMessages)) = 0 := by
  induction sent with
  | nil => rfl
  | cons m sent ih =>
    rw [List.flatMap_cons, gains_append, ih fun m' hm' => h m' (List.mem_cons_of_mem _ hm'),
      add_zero]
    have hm := h m List.mem_cons_self
    cases m with
    | inline i =>
      cases i with
      | transfer sender receiver quantity memo =>
        rcases hm with ⟨rfl, rfl⟩ | ⟨rfl, rfl⟩ <;>
          simp [Sent.toMessages, Inline.toMessage, Message.gain, hsource, hstake]
      | _ => exact absurd hm id
    | _ => rfl

theorem changebw_between {receiver : Name} {net cpu : Asset} {transfer : Bool}
    (hok : changebw env b source receiver net cpu transfer = .ok (b', sent)) :
    ∀ m ∈ sent, m.Between source := by
  simp only [changebw, Except.bind_ok_iff, Prod.exists, Except.pure_ok_iff, Prod.mk.injEq] at hok
  obtain ⟨-, -, -, -, total, -, -, -, delbands, -, totals, -, -, -, refunds, sent', hmove,
    system, -, -, rfl⟩ := hok
  exact moveStake_between hmove

theorem refund_between {owner : Name} (hok : refund env b owner = .ok (b', sent)) :
    env.hasAuth owner = true ∧ ∀ m ∈ sent, m.Between owner := by
  obtain ⟨req, quantity, -, hauth, -, -, -, rfl⟩ := refund_ok hok
  exact ⟨hauth, by simp [Sent.Between]⟩

end Bandwidth

namespace Ram

variable {d : Doubles} {env : Env} {s s' : State} {a : Action} {sent : List Sent} {n : Name}
  {code : List Char}

/-- Who sells RAM is paid more than the fee for it. -/
theorem perform_gains (hauth : env.hasAuth n = false) (hram : n ≠ ramAccount)
    (hok : perform d env s a = .ok (s', sent)) : 0 ≤ gains n code (sent.map (·.toMessage)) := by
  have hbuy : ∀ payer receiver quant, buyram d env s payer receiver quant = .ok (s', sent) →
      0 ≤ gains n code (sent.map (·.toMessage)) := by
    intro payer receiver quant hok
    simp only [buyram, requireAuth, Except.bind_ok_iff, check_ok_iff, exists_const,
      Except.pure_ok_iff, Prod.exists, Prod.mk.injEq] at hok
    obtain ⟨-, hpayer, s₁, -, core, -, -, hpos, es, -, es', out, -, -, row, -, -, -, rfl⟩ := hok
    have hne : payer ≠ n := by
      rintro rfl
      exact Bool.false_ne_true (hauth.symm.trans hpayer)
    have hfee : 0 ≤ ramFee quant.amount ∧ ramFee quant.amount ≤ quant.amount := by
      unfold ramFee
      omega
    refine gains_nonneg fun m hm => ?_
    rcases List.mem_map.mp hm with ⟨o, ho, rfl⟩
    rcases List.mem_cons.mp ho with rfl | ho
    · exact Message.gain_transfer_nonneg _ _ _ hne (sub_nonneg.mpr hfee.2)
    · split_ifs at ho
      · obtain rfl := List.mem_singleton.mp ho
        exact Message.gain_transfer_nonneg _ _ _ hne hfee.1
      · exact absurd ho List.not_mem_nil
  cases a with
  | buyram payer receiver quant => exact hbuy payer receiver quant hok
  | buyrambytes payer receiver bytes =>
    simp only [perform, buyrambytes, Except.bind_ok_iff] at hok
    obtain ⟨es, -, core, -, quant, -, hok⟩ := hok
    exact hbuy payer receiver quant hok
  | sellram account bytes =>
    simp only [perform, sellram, Except.bind_ok_iff, check_ok_iff, exists_const] at hok
    obtain ⟨-, s₁, hs₁, -, hok⟩ := hok
    cases hrow : s₁.totals.find? account with
    | none => simp [hrow] at hok
    | some row =>
      simp only [hrow, State.getCoreSymbol, Except.bind_ok_iff, check_ok_iff, exists_const,
        Except.pure_ok_iff, Prod.exists, Prod.mk.injEq, Asset.make_ok_iff] at hok
      obtain ⟨-, es, -, _, ⟨-, rfl⟩, payment, -, es', out, hconvert, hout, -, -, fee, hfee, -, rfl⟩ :=
        hok
      obtain ⟨-, -, rfl⟩ := hfee
      have hsym : out.symbol = s₁.coreSymbol := directConvert_symbol hconvert
      have hpaid : 0 ≤ ramFee out.amount ∧ ramFee out.amount ≤ out.amount := by
        unfold ramFee
        omega
      have hne : ¬ramAccount = n := fun e => hram e.symm
      split_ifs <;>
        simp only [List.map_cons, List.map_nil, gains_cons, gains_nil, Sent.toMessage, Message.gain,
          hsym, hne, false_and, if_false, sub_zero, add_zero] <;>
        split_ifs <;> omega
  | setram size =>
    simp only [perform, setram, Except.bind_ok_iff, Except.pure_ok_iff, Prod.mk.injEq] at hok
    obtain ⟨-, -, -, -, -, -, -, -, es, -, -, rfl⟩ := hok
    exact le_rfl
  | setramrate rate =>
    simp only [perform, setramrate, Except.bind_ok_iff, Except.pure_ok_iff, Prod.mk.injEq] at hok
    obtain ⟨-, -, s₁, -, -, rfl⟩ := hok
    exact le_rfl

end Ram

-- ---------------------------------------------------------------------------
-- Transactions
-- ---------------------------------------------------------------------------

namespace World

/-- The account whose tokens are staked or unstaked, which an administrator may do for it. -/
def Call.staker : Call → Option Name
  | .system (.delegatebw sender _ _ _ _) => some sender
  | .system (.undelegatebw sender _ _ _) => some sender
  | _ => none

/-- `n` does not sign, and no administrator acts on it: nobody slashes its tokens, stakes or unstakes
them. -/
structure Untouched (n : Name) (tx : Transaction) : Prop where
  unsigned : tx.env.hasAuth n = false
  unslashed : tx.call.slashed ≠ some n
  unstaked : tx.call.staker ≠ some n

instance (n : Name) (tx : Transaction) : Decidable (Untouched n tx) :=
  decidable_of_iff (tx.env.hasAuth n = false ∧ tx.call.slashed ≠ some n ∧ tx.call.staker ≠ some n)
    ⟨fun h => ⟨h.1, h.2.1, h.2.2⟩, fun h => ⟨h.1, h.2, h.3⟩⟩

variable {d : Ram.Doubles} {tx : Transaction} {w w' : World} {sent : List Message} {n : Name}
  {code : List Char}

/-- What the contracts of votes and stakes send with a step that takes nothing from `n`. -/
private theorem bandwidth_gain {out : List Bandwidth.Sent}
    (hgain : 0 ≤ gains n code (out.flatMap (·.toMessages))) :
    w.token.accounts.amount n code ≤
        w.token.accounts.amount n code + gains n code (out.flatMap (·.toMessages)) ∧
      ∀ m ∈ out.flatMap (·.toMessages), m.Plain := by
  refine ⟨le_add_of_nonneg_right hgain, fun m hm => ?_⟩
  obtain ⟨o, -, ho⟩ := List.mem_flatMap.mp hm
  exact Bandwidth.Sent.plain ho

theorem performSystem_gains {env : Env} {a : Action} {b : Bandwidth} {out : List Bandwidth.Sent}
    (hn : ∀ c : Custodian, n ≠ c.account) (hauth : env.hasAuth n = false)
    (hstake : Call.staker (.system a) ≠ some n) (hok : performSystem env w a = .ok (b, out)) :
    0 ≤ gains n code (out.flatMap (·.toMessages)) := by
  have hstakes : stakeAccount ≠ n := fun e => hn .stakes e.symm
  have hsystem : Bandwidth.onSystem w.bandwidth (Amax.perform (w.systemEnv env) w.system a) =
      .ok (b, out) → 0 ≤ gains n code (out.flatMap (·.toMessages)) := by
    intro hok
    obtain ⟨s, sent, hperform, -, rfl⟩ := Bandwidth.onSystem_ok hok
    have hauth : (w.systemEnv env).hasAuth n = false := hauth
    rw [Bandwidth.toMessages_inline]
    exact perform_gains hauth hn hperform
  cases a with
  | delegatebw sender receiver net cpu transfer =>
    have hsource : sender ≠ n := fun e => hstake (congrArg some e)
    obtain ⟨-, -, -, hok⟩ := Bandwidth.delegatebw_ok hok
    exact (Bandwidth.gains_between hsource hstakes (Bandwidth.changebw_between hok)).ge
  | undelegatebw sender receiver net cpu =>
    have hsource : sender ≠ n := fun e => hstake (congrArg some e)
    obtain ⟨-, -, hok⟩ := Bandwidth.undelegatebw_ok hok
    exact (Bandwidth.gains_between hsource hstakes (Bandwidth.changebw_between hok)).ge
  | _ => exact hsystem hok

theorem perform_gain (hn : ∀ c : Custodian, n ≠ c.account) (h : Untouched n tx)
    (hok : perform d tx.env w tx.call = .ok (w', sent)) :
    w.token.accounts.amount n code ≤ w'.token.accounts.amount n code + gains n code sent ∧
      ∀ m ∈ sent, m.Plain := by
  obtain ⟨env, call⟩ := tx
  obtain ⟨hauth, hslash, hstake⟩ := h
  cases call with
  | system a =>
    obtain ⟨b, out, hstep, rfl, rfl⟩ := perform_system_ok hok
    exact bandwidth_gain (performSystem_gains hn hauth hstake hstep)
  | refund owner =>
    obtain ⟨b, out, hstep, rfl, rfl⟩ := perform_refund_ok hok
    obtain ⟨howner, hbetween⟩ := Bandwidth.refund_between hstep
    have hne : owner ≠ n := by
      rintro rfl
      exact Bool.false_ne_true (hauth.symm.trans howner)
    exact bandwidth_gain (Bandwidth.gains_between hne (fun e => hn .stakes e.symm) hbetween).ge
  | ram a =>
    obtain ⟨ram, out, hstep, rfl, rfl⟩ := perform_ram_ok hok
    have hauth : (w.ramEnv env).hasAuth n = false := hauth
    refine ⟨le_add_of_nonneg_right (Ram.perform_gains hauth (hn .ram) hstep), fun m hm => ?_⟩
    obtain ⟨o, -, rfl⟩ := List.mem_map.mp hm
    exact o.plain
  | reward a =>
    have hgain : w.token.accounts.amount n code + (Message.reward env.hasAuth a).gain n code ≤
        w'.token.accounts.amount n code + gains n code sent ∧ ∀ m ∈ sent, m.Plain :=
      deliver_gain (hn .rewards) trivial hok
    exact ⟨(add_zero _).symm.le.trans hgain.1, hgain.2⟩
  | token a =>
    obtain ⟨token, notified, reward, htoken, -, rfl, rfl⟩ := deliver_token_ok hok
    have hauth : (env.token env.hasAuth).hasAuth n = false := hauth
    refine ⟨?_, fun m hm => absurd hm List.not_mem_nil⟩
    rw [gains_nil, add_zero]
    exact Token.amount_le htoken hauth hslash

/-- A transaction takes nothing from an account it does not touch. -/
theorem transact_amount_le (hn : ∀ c : Custodian, n ≠ c.account) (h : Untouched n tx)
    (hok : transact d tx w = .ok (w', sent)) :
    w.token.accounts.amount n code ≤ w'.token.accounts.amount n code := by
  obtain ⟨w₁, hperform, hsent⟩ := transact_ok hok
  obtain ⟨hgain, hplain⟩ := perform_gain hn h hperform
  exact hgain.trans
    (foldlM_gain (fun _ _ _ hplain hok => deliverFrom_gain (hn .rewards) hplain hok) hplain hsent)

-- ---------------------------------------------------------------------------
-- Runs
-- ---------------------------------------------------------------------------

/-- An account that is not one of the contracts' own loses no tokens in any run of transactions it
does not sign, while no administrator slashes its tokens, stakes or unstakes them. -/
theorem consent {txs : List Transaction} (hn : ∀ c : Custodian, n ≠ c.account)
    (huntouched : ∀ tx ∈ txs, Untouched n tx) (code : List Char) :
    w.token.accounts.amount n code ≤ (final d w txs).token.accounts.amount n code := by
  have hstep : ∀ (w₁ : World) (tx : Transaction) w₂ out,
      w.token.accounts.amount n code ≤ w₁.token.accounts.amount n code → Untouched n tx →
      transact d tx w₁ = .ok (w₂, out) →
      w.token.accounts.amount n code ≤ w₂.token.accounts.amount n code :=
    fun _ _ _ _ hle htx hok => hle.trans (transact_amount_le hn htx hok)
  exact Run.invariant hstep le_rfl (Run.along_of_forall huntouched w)

/-- While a producer tries to take the tokens of its voter, the voter is paid a refund. -/
theorem consent_voted :
    (final integers (genesis { token := Token.State.final {} created₀ })
      voted).token.accounts.amount 1 amax.code ≤
    (final integers (final integers (genesis { token := Token.State.final {} created₀ }) voted) [
      ⟨{ day 8 with hasAuth := (· = 2) }, .token (.transfer 1 2 ⟨1000, amax⟩ "")⟩,
      ⟨{ day 8 with hasAuth := (· = 2) }, .system (.refundvote 1)⟩]).token.accounts.amount 1
      amax.code := by
  have huntouched : ∀ action,
      Call.slashed action ≠ some 1 → Call.staker action ≠ some 1 →
      Untouched 1 ⟨{ day 8 with hasAuth := (· = 2) }, action⟩ := fun _ h h' => ⟨rfl, h, h'⟩
  refine consent (fun c => by cases c <;> decide) (fun tx htx => ?_) amax.code
  simp only [List.mem_cons, List.not_mem_nil, or_false] at htx
  rcases htx with rfl | rfl
  · exact huntouched _ (by decide) (by decide)
  · exact huntouched _ (by decide) (by decide)

end World

end Amax
