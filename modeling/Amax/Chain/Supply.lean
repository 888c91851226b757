-- SUMMARY: The supply of the core token: on the whole chain nothing but block rewards is issued, and these are capped.
import Amax.Chain.Pace
import Amax.System.Issuance

/-! # Monetary policy

The system contract issues core tokens when a producer claims its rewards. What
it issues has left the rewards of the producers, and these are capped. So the
supply of the core token is capped as well, whatever the contracts send each
other, unless somebody issues tokens by hand. -/

namespace Amax

-- ---------------------------------------------------------------------------
-- The token contract
-- ---------------------------------------------------------------------------

namespace Token

variable {s s' : State} {out : List Name}

/-- What an action adds to the supply of a symbol code. -/
def Action.minted (code : List Char) : Action → ℤ
  | .issue _ quantity _ => if quantity.symbol.code = code then quantity.amount else 0
  | _ => 0

/-- Only issuing adds to a supply. -/
theorem transact_supplied {tx : Transaction} (hok : transact tx s = .ok (s', out))
    (code : List Char) :
    s'.stats.supplied code ≤ s.stats.supplied code + tx.action.minted code := by
  have hsame : s'.stats = s.stats → s'.stats.supplied code ≤ s.stats.supplied code + 0 :=
    fun h => by rw [h, add_zero]
  obtain ⟨env, action⟩ := tx
  cases action with
  | transfer => exact hsame (transfer_stats hok)
  | blacklist => exact hsame (blacklist_stats hok)
  | open_ => exact hsame (open_stats hok)
  | close => exact hsame (close_stats hok)
  | create issuer maximumSupply =>
    obtain ⟨-, -, -, hnone, rfl⟩ := create_ok hok
    refine le_trans ?_ (add_zero _).symm.le
    rw [Currencies.supplied, Currencies.supplied, Table.find?_set]
    split_ifs with hcode
    · subst hcode
      rw [hnone]
      exact le_rfl
    · exact le_rfl
  | issue issuer quantity memo =>
    obtain ⟨st, accounts, hst, -, -, -, -, -, rfl⟩ := issue_ok hok
    have hset := Currencies.supplied_set (u := { st with
      supply := ⟨st.supply.amount + quantity.amount, st.supply.symbol⟩ }) hst rfl rfl code
    exact hset.le
  | setissue issuer sym newissuer =>
    obtain ⟨st, hst, rfl⟩ := setissue_ok hok
    have hset := Currencies.supplied_set (u := { st with issuer := newissuer }) (d := 0) hst rfl
      (add_zero _).symm code
    rw [ite_self] at hset
    exact hset.le
  | slashblack target quantity memo =>
    obtain ⟨-, -, hpos, row, st, -, hst, -, rfl⟩ := slashblack_ok hok
    have hset := Currencies.supplied_set (u := { st with
      supply := ⟨st.supply.amount - quantity.amount, st.supply.symbol⟩ }) hst rfl
      (sub_eq_add_neg _ _) code
    refine hset.le.trans (add_le_add le_rfl ?_)
    simp only [Action.minted]
    split_ifs <;> omega
  | retire quantity memo =>
    obtain ⟨st, accounts, hst, -, hpos, -, -, rfl⟩ := retire_ok hok
    have hset := Currencies.supplied_set (u := { st with
      supply := ⟨st.supply.amount - quantity.amount, st.supply.symbol⟩ }) hst rfl
      (sub_eq_add_neg _ _) code
    refine hset.le.trans (add_le_add le_rfl ?_)
    simp only [Action.minted]
    split_ifs <;> omega

end Token

-- ---------------------------------------------------------------------------
-- Messages
-- ---------------------------------------------------------------------------

/-- What a message adds to the supply of a symbol code. -/
def Message.minted (code : List Char) : Message → ℤ
  | .token _ a => a.minted code
  | .reward _ _ => 0

def mints (code : List Char) (l : List Message) : ℤ := (l.map (·.minted code)).sum

section Messages

variable {code : List Char}

@[simp] theorem mints_nil : mints code [] = 0 := rfl

@[simp] theorem mints_cons (m : Message) (l : List Message) :
    mints code (m :: l) = m.minted code + mints code l := by
  simp [mints]

theorem mints_eq_zero {l : List Message} (h : ∀ m ∈ l, m.minted code = 0) : mints code l = 0 := by
  refine List.sum_eq_zero fun x hx => ?_
  obtain ⟨m, hm, rfl⟩ := List.mem_map.mp hx
  exact h m hm

/-- Staking issues nothing. -/
theorem Bandwidth.mints_between {source : Name} {sent : List Bandwidth.Sent}
    (h : ∀ m ∈ sent, m.Between source) : mints code (sent.flatMap (·.toMessages)) = 0 := by
  refine mints_eq_zero fun m hm => ?_
  obtain ⟨o, ho, hm⟩ := List.mem_flatMap.mp hm
  have hbetween := h o ho
  cases o with
  | inline i =>
    obtain rfl := List.mem_singleton.mp hm
    cases i with
    | transfer => rfl
    | _ => exact absurd hbetween id
  | _ => cases hm

theorem Ram.Sent.minted_eq_zero (m : Ram.Sent) : m.toMessage.minted code = 0 := by
  cases m <;> rfl

end Messages

section Actions

variable {env : Env} {s s' : System} {a : Action} {sent : List Inline}

/-- What the system contract issues, in whatever currency, are rewards. -/
theorem perform_mints (hok : perform env s a = .ok (s', sent)) (code : List Char) :
    mints code (sent.map (·.toMessage)) ≤ issued sent := by
  obtain ⟨s₁, heffect, -⟩ := perform_effect hok
  cases heffect with
  | keep | revise | settings | configure | block | voter | voteproducer | undoreward => exact le_rfl
  | register quiet registered revision ext sends => rcases sends with rfl | rfl <;> exact le_rfl
  | addvote | subvote | vote | refundvote => exact le_rfl
  | claimrewards =>
    obtain ⟨q, share, shared, hpos, -, -, -, hshared, rfl⟩ := claimrewards_sent hok
    have hle : (if q.symbol.code = code then q.amount else 0) ≤ q.amount := by
      split_ifs <;> omega
    rcases hshared with rfl | rfl | rfl <;>
      simpa [mints, Inline.toMessage, Message.minted, Token.Action.minted, issued] using hle

end Actions

-- ---------------------------------------------------------------------------
-- Transactions
-- ---------------------------------------------------------------------------

namespace World

variable {d : Ram.Doubles} {w w' : World} {env : Env} {sent : List Message} {code : List Char}

/-- What is issued by hand. -/
def Call.minted (code : List Char) : Call → ℤ
  | .token a => a.minted code
  | _ => 0

/-- What is delivered is issued, and what is sent in turn issues nothing. -/
theorem deliver_supplied {m : Message} (hok : deliver env w m = .ok (w', sent)) :
    w'.token.stats.supplied code ≤ w.token.stats.supplied code + m.minted code ∧
      mints code sent = 0 := by
  cases m with
  | token auths a =>
    obtain ⟨token, notified, reward, htoken, -, rfl, rfl⟩ := deliver_token_ok hok
    exact ⟨Token.transact_supplied htoken code, rfl⟩
  | reward auths a =>
    obtain ⟨reward, flows, -, rfl, rfl⟩ := deliver_reward_ok hok
    refine ⟨(add_zero _).symm.le, mints_eq_zero fun m hm => ?_⟩
    obtain ⟨flow, -, hm⟩ := List.mem_flatMap.mp hm
    cases flow with
    | received => cases hm
    | paid voter quantity =>
      obtain rfl := List.mem_singleton.mp hm
      rfl

/-- Messages that are delivered one after the other add up. -/
theorem foldlM_supplied {f : World → Message → Result World}
    (hf : ∀ w m w', f w m = .ok w' →
      w'.token.stats.supplied code ≤ w.token.stats.supplied code + m.minted code)
    (hok : sent.foldlM f w = .ok w') :
    w'.token.stats.supplied code ≤ w.token.stats.supplied code + mints code sent := by
  induction sent generalizing w with
  | nil =>
    rw [List.foldlM_nil, Except.pure_ok_iff] at hok
    rw [mints_nil, add_zero, hok]
  | cons m sent ih =>
    rw [List.foldlM_cons, Except.bind_ok_iff] at hok
    obtain ⟨w₁, hfirst, hok⟩ := hok
    have hhead := hf w m w₁ hfirst
    have htail := ih hok
    rw [mints_cons]
    omega

theorem deliverFrom_supplied {depth : ℕ} {m : Message} (hok : deliverFrom env depth w m = .ok w') :
    w'.token.stats.supplied code ≤ w.token.stats.supplied code + m.minted code := by
  induction depth generalizing w w' m with
  | zero => cases hok
  | succ depth ih =>
    simp only [deliverFrom, Except.bind_ok_iff, Prod.exists] at hok
    obtain ⟨w₁, sent, hdeliver, hsent⟩ := hok
    have hfirst : w₁.token.stats.supplied code ≤ w.token.stats.supplied code + m.minted code ∧
      mints code sent = 0 := deliver_supplied hdeliver
    have hrest := foldlM_supplied (fun _ _ _ hok => ih hok) hsent
    omega

/-- What an action issues has left the rewards of the producers. -/
theorem performSystem_supplied {a : Action} {b : Bandwidth} {sends : List Bandwidth.Sent} {out : ℤ}
    (h : Issuance w.system out) (hok : performSystem env w a = .ok (b, sends)) :
    ∃ more, Issuance b.system (out + more) ∧
      mints code (sends.flatMap (·.toMessages)) ≤ more := by
  have hsystem : ∀ sent, Amax.perform (w.systemEnv env) w.system a = .ok (b.system, sent) →
      mints code (sends.flatMap (·.toMessages)) ≤ issued sent →
      ∃ more, Issuance b.system (out + more) ∧
        mints code (sends.flatMap (·.toMessages)) ≤ more := by
    intro sent hperform hmints
    obtain ⟨s₁, heffect, -⟩ := perform_effect hperform
    have hundone := heffect.nonneg.2
    exact ⟨issued sent + a.undone, h.perform hperform, by omega⟩
  cases a with
  | delegatebw sender receiver net cpu transfer =>
    have hbetween := Bandwidth.changebw_between (Bandwidth.delegatebw_ok hok).2.2.2
    have hperform := Bandwidth.delegatebw_system hok
    refine hsystem [] hperform ?_
    rw [Bandwidth.mints_between hbetween]
    exact le_rfl
  | undelegatebw sender receiver net cpu =>
    have hbetween := Bandwidth.changebw_between (Bandwidth.undelegatebw_ok hok).2.2
    have hperform := Bandwidth.undelegatebw_system hok
    refine hsystem [] hperform ?_
    rw [Bandwidth.mints_between hbetween]
    exact le_rfl
  | _ =>
    obtain ⟨s, sent, hperform, rfl, rfl⟩ := Bandwidth.onSystem_ok hok
    refine hsystem sent hperform ?_
    rw [Bandwidth.toMessages_inline]
    exact perform_mints hperform code

theorem perform_supplied {call : Call} {out : ℤ} (h : Issuance w.system out)
    (hcall : call.minted code = 0) (hok : perform d env w call = .ok (w', sent)) :
    ∃ more, Issuance w'.system (out + more) ∧
      w'.token.stats.supplied code + mints code sent ≤ w.token.stats.supplied code + more := by
  have hdeliver : ∀ m : Message, m.minted code = 0 → deliver env w m = .ok (w', sent) →
      ∃ more, Issuance w'.system (out + more) ∧
        w'.token.stats.supplied code + mints code sent ≤ w.token.stats.supplied code + more := by
    intro m hm hok
    have hsupplied : w'.token.stats.supplied code ≤ w.token.stats.supplied code + m.minted code ∧
      mints code sent = 0 := deliver_supplied hok
    have hsystem : w'.system = w.system := congrArg Bandwidth.system (deliver_bandwidth hok)
    exact ⟨0, by rwa [hsystem, add_zero], by omega⟩
  cases call with
  | system a =>
    obtain ⟨b, sends, hstep, rfl, rfl⟩ := perform_system_ok hok
    obtain ⟨more, hissuance, hmints⟩ := performSystem_supplied h hstep
    exact ⟨more, hissuance, add_le_add le_rfl hmints⟩
  | refund owner =>
    obtain ⟨b, sends, hstep, rfl, rfl⟩ := perform_refund_ok hok
    have hbetween := (Bandwidth.refund_between hstep).2
    obtain ⟨req, quantity, -, -, -, -, rfl, -⟩ := Bandwidth.refund_ok hstep
    refine ⟨0, by rwa [add_zero], ?_⟩
    rw [Bandwidth.mints_between hbetween]
  | ram a =>
    obtain ⟨ram, sends, -, rfl, rfl⟩ := perform_ram_ok hok
    refine ⟨0, by rwa [add_zero], add_le_add le_rfl (mints_eq_zero fun m hm => ?_).le⟩
    obtain ⟨o, -, rfl⟩ := List.mem_map.mp hm
    exact o.minted_eq_zero
  | reward a => exact hdeliver (.reward _ a) rfl hok
  | token a => exact hdeliver (.token _ a) hcall hok

theorem transact_supplied {tx : Transaction} {out : ℤ} (h : Issuance w.system out)
    (hcall : tx.call.minted code = 0) (hok : transact d tx w = .ok (w', sent)) :
    ∃ more, Issuance w'.system (out + more) ∧
      w'.token.stats.supplied code ≤ w.token.stats.supplied code + more := by
  obtain ⟨w₁, hperform, hsent⟩ := transact_ok hok
  obtain ⟨more, hissuance, hle⟩ := perform_supplied h hcall hperform
  have hsystem : w'.system = w₁.system := congrArg Bandwidth.system (deliverAll_bandwidth hsent)
  refine ⟨more, by rwa [hsystem], ?_⟩
  exact (foldlM_supplied (fun _ _ _ hok => deliverFrom_supplied hok) hsent).trans hle

-- ---------------------------------------------------------------------------
-- Runs
-- ---------------------------------------------------------------------------

/-- The rewards that left the producers since the supply was `initial` are as much as it grew. -/
def Monetary (code : List Char) (initial : ℤ) (w : World) : Prop :=
  ∃ out, Issuance w.system out ∧ w.token.stats.supplied code ≤ initial + out

/-- After `init` no rewards were produced. -/
theorem init_unstarted {created : List Token.Transaction} {version : ℕ} {core : Symbol} {w₀ : World}
    (hinit : init env { token := Token.State.final {} created } version core = .ok w₀) :
    RewardsUnstarted w₀.system := by
  simp only [init, Except.bind_ok_iff, Prod.exists] at hinit
  obtain ⟨ram, sent, hram, hsent⟩ := hinit
  rw [← List.foldlM_map] at hsent
  have hsystem := congrArg Bandwidth.system (deliverAll_bandwidth hsent)
  rw [World.system, hsystem]
  exact ⟨.inl rfl, .inl rfl, fun _ hp => absurd hp List.not_mem_nil⟩

/-- From `init` on, in every run in which nobody issues core tokens by hand, the supply of the core
token and everything that producers have yet to claim is at most what there was at the start and the
block rewards that were produced, and these never pass the totals of the two streams. -/
theorem supply_capped {created : List Token.Transaction} {version : ℕ} {core : Symbol} {w₀ : World}
    {txs : List Transaction}
    (hinit : init env { token := Token.State.final {} created } version core = .ok w₀)
    (hcalls : ∀ tx ∈ txs, tx.call.minted core.code = 0) :
    let w := final d w₀ txs
    let main := w.system.electGstate.mainRewardInfo
    let backup := w.system.electGstate.backupRewardInfo
    w.token.stats.supplied core.code + w.system.producers.sum (·.unclaimedRewards.amount) ≤
        w₀.token.stats.supplied core.code +
          (main.producedRewards.amount + backup.producedRewards.amount) ∧
      main.producedRewards.amount ≤ totalMainProducerRewards ∧
      backup.producedRewards.amount ≤ totalBackupProducerRewards ∧
      w.token.stats.supplied core.code ≤ w₀.token.stats.supplied core.code +
        (totalMainProducerRewards + totalBackupProducerRewards) := by
  have hstart : Monetary core.code (w₀.token.stats.supplied core.code) w₀ :=
    ⟨0, (init_unstarted hinit).issuance, (add_zero _).symm.le⟩
  have hstep : ∀ (w : World) (tx : Transaction) w' sent,
      Monetary core.code (w₀.token.stats.supplied core.code) w → tx.call.minted core.code = 0 →
      transact d tx w = .ok (w', sent) →
      Monetary core.code (w₀.token.stats.supplied core.code) w' := by
    rintro w tx w' sent ⟨out, hissuance, hle⟩ hcall hok
    obtain ⟨more, hissuance', hle'⟩ := transact_supplied hissuance hcall hok
    exact ⟨out + more, hissuance', by omega⟩
  have hrun := Run.invariant hstep hstart (Run.along_of_forall hcalls w₀)
  intro w
  obtain ⟨out, hissuance, hle⟩ : Monetary _ _ w := hrun
  have hsum := hissuance.sum_eq
  have hmain := hissuance.main.produced_le.trans hissuance.main.total_le
  have hbackup := hissuance.backup.produced_le.trans hissuance.backup.total_le
  have hunclaimed : 0 ≤ w.system.producers.sum (·.unclaimedRewards.amount) :=
    Table.sum_nonneg hissuance.unclaimed_nonneg
  exact ⟨by omega, hmain, hbackup, by omega⟩

/-- One producer, configured rewards, one block and a claim a day later. -/
theorem supply_capped_claim :
    let txs : List Transaction := [
      ⟨day 0, .system (.regproducer 2 5 "" none)⟩,
      ⟨day 0, .system .upgradevote⟩,
      ⟨day 0, .system (.cfgreward (day 0).now (day 9).now ⟨700, amax⟩ ⟨0, amax⟩)⟩,
      ⟨day 1, .system (.onblock { timestamp := 0, producer := 2 })⟩,
      ⟨day 2, .system (.claimrewards 2 2)⟩]
    let w := final integers (genesis { token := Token.State.final {} created₀ }) txs
    w.token.stats.supplied amax.code = 10 ^ 15 + 700 ∧
      w.token.stats.supplied amax.code ≤
        (genesis { token := Token.State.final {} created₀ }).token.stats.supplied amax.code +
          (totalMainProducerRewards + totalBackupProducerRewards) := by
  intro txs
  have hcalls : ∀ tx ∈ txs, tx.call.minted amax.code = 0 := by decide
  have hcapped := supply_capped (d := integers) init_genesis hcalls
  exact ⟨by decide +kernel, hcapped.2.2.2⟩

end World

end Amax
