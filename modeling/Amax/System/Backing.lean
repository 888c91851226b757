-- SUMMARY: Votes are backed by core tokens one to ten thousand, as long as no conversion wraps around in 64 bits.
import Amax.System.Effect

/-! # Backing of votes

`addvote` takes core tokens and `refundvote` gives them back. Between the two a
vote is in the row of its voter or in the row of a refund. -/

namespace Amax

-- ---------------------------------------------------------------------------
-- Conversion
-- ---------------------------------------------------------------------------

/-- The conversion of `votes` is exact or aborts: the product does not leave 64
bits, or it wraps to a number that no asset can hold. -/
def ExactVotes (votes : ℤ) : Prop :=
  votes * voteToCoreAssetFactor < 2 ^ 63 ∨ 2 ^ 62 ≤ votes * voteToCoreAssetFactor % 2 ^ 64

instance (votes : ℤ) : Decidable (ExactVotes votes) := inferInstanceAs (Decidable (_ ∨ _))

theorem voteToCoreAsset_ok_iff {s : System} {votes q : Asset} :
    voteToCoreAsset s votes = .ok q ↔
      0 ≤ toInt64 (votes.amount * voteToCoreAssetFactor) ∧
      toInt64 (votes.amount * voteToCoreAssetFactor) ≤ Asset.maxAmount ∧
      s.gstate.coreSymbol ≠ .none ∧ s.gstate.coreSymbol.isValid ∧
      q = ⟨toInt64 (votes.amount * voteToCoreAssetFactor), s.gstate.coreSymbol⟩ := by
  simp only [voteToCoreAsset, System.coreSymbol, Except.bind_ok_iff, check_ok_iff, exists_const,
    Except.pure_ok_iff, Asset.make_ok_iff]
  have hmax : Asset.maxAmount ≤ int64Max := by decide
  have hmin : -Asset.maxAmount ≤ 0 := by decide
  constructor
  · rintro ⟨⟨h₀, -⟩, _, ⟨hs, rfl⟩, ⟨-, hle⟩, hv, rfl⟩
    exact ⟨h₀, hle, hs, hv, rfl⟩
  · rintro ⟨h₀, hle, hs, hv, rfl⟩
    exact ⟨⟨h₀, hle.trans hmax⟩, _, ⟨hs, rfl⟩, ⟨hmin.trans h₀, hle⟩, hv, rfl⟩

theorem toInt64_cases (x : ℤ) :
    (x % 2 ^ 64 < 2 ^ 63 ∧ toInt64 x = x % 2 ^ 64) ∨
      (2 ^ 63 ≤ x % 2 ^ 64 ∧ toInt64 x = x % 2 ^ 64 - 2 ^ 64) := by
  have hword : ((2 ^ 64 : ℕ) : ℤ) = 2 ^ 64 := by norm_num
  rw [toInt64, Int.bmod_def, hword]
  split_ifs with h
  · exact .inl ⟨by omega, rfl⟩
  · exact .inr ⟨by omega, rfl⟩

/-- The amounts for which the conversion is right are the exact ones. -/
theorem exactVotes_iff {votes : ℤ} (hpos : 0 < votes) :
    (∀ s q, voteToCoreAsset s ⟨votes, voteSymbol⟩ = .ok q → q.amount = 10000 * votes) ↔
      ExactVotes votes := by
  have hwrap := toInt64_cases (votes * voteToCoreAssetFactor)
  have hmax : Asset.maxAmount = 2 ^ 62 - 1 := rfl
  have hfactor : voteToCoreAssetFactor = 10000 := rfl
  unfold ExactVotes
  rw [hfactor] at hwrap ⊢
  constructor
  · intro h
    by_contra hnot
    -- the wrapped product is an amount that any token with a symbol accepts
    obtain ⟨hover, hsmall⟩ := not_or.mp hnot
    have hamount : toInt64 (votes * 10000) = votes * 10000 % 2 ^ 64 := by omega
    have hok := h { gstate := { coreSymbol := voteSymbol } } ⟨toInt64 (votes * 10000), voteSymbol⟩
      (voteToCoreAsset_ok_iff.mpr ⟨by rw [hfactor, hamount]; omega,
        by rw [hfactor, hamount]; omega, by decide, by decide, rfl⟩)
    simp only at hok
    omega
  · intro h s q hq
    obtain ⟨h₀, hle, -, -, rfl⟩ := voteToCoreAsset_ok_iff.mp hq
    rw [hfactor] at h₀ hle ⊢
    simp only at h₀ hle ⊢
    omega

theorem voteToCoreAsset_exact {s : System} {votes q : Asset} (hpos : 0 < votes.amount)
    (hexact : ExactVotes votes.amount) (h : voteToCoreAsset s votes = .ok q) :
    q.amount = 10000 * votes.amount :=
  (exactVotes_iff hpos).mpr hexact s q h

-- ---------------------------------------------------------------------------
-- The law
-- ---------------------------------------------------------------------------

/-- The core tokens `addvote` moves into the account of the votes. -/
def staked (tx : Transaction) (sent : List Inline) : ℤ :=
  match tx.action with
  | .addvote _ _ => (sent.map fun
      | .transfer _ receiver quantity _ => if receiver = voteAccount then quantity.amount else 0
      | _ => 0).sum
  | _ => 0

/-- The core tokens `refundvote` moves out of the account of the votes. -/
def refunded (tx : Transaction) (sent : List Inline) : ℤ :=
  match tx.action with
  | .refundvote _ => (sent.map fun
      | .transfer sender _ quantity _ => if sender = voteAccount then quantity.amount else 0
      | _ => 0).sum
  | _ => 0

/-- The votes an action converts to core tokens. -/
def System.convertedVotes (s : System) : Action → Option ℤ
  | .addvote _ votes => some votes.amount
  | .refundvote owner => (s.voteRefunds.find? owner).map (·.votes.amount)
  | _ => none

/-- What the transaction converts is exact. -/
def ExactStep (s : System) (tx : Transaction) : Prop :=
  ∀ votes ∈ s.convertedVotes tx.action, ExactVotes votes

instance (s : System) (tx : Transaction) : Decidable (ExactStep s tx) :=
  inferInstanceAs (Decidable (∀ votes ∈ s.convertedVotes tx.action, ExactVotes votes))

/-- The votes of all voters and of all refunds are backed by `held` tokens. -/
structure Backed (s : System) (held : ℤ) : Prop where
  symbol : ∀ v ∈ s.voters.rows, v.votes.symbol = voteSymbol ∨ v.votes.amount = 0
  refund_pos : ∀ r ∈ s.voteRefunds.rows, 0 < r.votes.amount
  held_eq : held = 10000 *
    (s.voters.sum (·.votes.amount) + s.voteRefunds.sum (·.votes.amount))

theorem backed_outside {s : System} {held : ℤ} : Backed s.outside held ↔ Backed s held :=
  ⟨fun h => ⟨h.symbol, h.refund_pos, h.held_eq⟩, fun h => ⟨h.symbol, h.refund_pos, h.held_eq⟩⟩

namespace Backed

variable {s s' : System} {held : ℤ}

theorem voter_symbol (h : Backed s held) (n : Name) :
    (s.voter n).votes.symbol = voteSymbol ∨ (s.voter n).votes.amount = 0 := by
  cases hv : s.voters.find? n with
  | none =>
    rw [System.voter_of_none hv]
    exact .inl rfl
  | some v =>
    rw [System.voter_of_find? hv]
    exact h.symbol v (Table.mem_of_find? hv)

/-- A row of a voter written with `d` more votes. -/
private theorem setVoter (h : Backed s held) {v : VoterInfo} {d : ℤ}
    (hs : v.votes.symbol = voteSymbol ∨ v.votes.amount = 0)
    (hv : v.votes.amount = (s.voter v.owner).votes.amount + d) :
    (∀ w ∈ (s.voters.set v).rows, w.votes.symbol = voteSymbol ∨ w.votes.amount = 0) ∧
      (s.voters.set v).sum (·.votes.amount) = s.voters.sum (·.votes.amount) + d := by
  refine ⟨fun w hw => ?_, ?_⟩
  · rcases Table.mem_set.mp hw with rfl | ⟨hw, -⟩
    · exact hs
    · exact h.symbol w hw
  · rw [s.sum_setVoter v rfl, hv]
    ring

private theorem revision (h : Backed s held) {v : VoterInfo} (hr : VoterRevision s v) :
    (∀ w ∈ (s.voters.set v).rows, w.votes.symbol = voteSymbol ∨ w.votes.amount = 0) ∧
      (s.voters.set v).sum (·.votes.amount) = s.voters.sum (·.votes.amount) := by
  have hsame : (v.votes.symbol = voteSymbol ∨ v.votes.amount = 0) ∧
      v.votes.amount = (s.voter v.owner).votes.amount + 0 := by
    rw [add_zero]
    rcases hr with hr | hr
    · rw [hr]
      exact ⟨h.voter_symbol v.owner, rfl⟩
    · rw [hr, VoterInfo.withVoteSymbol_amount (h.voter_symbol _)]
      exact ⟨.inl (VoterInfo.withVoteSymbol_symbol _), rfl⟩
  have := h.setVoter hsame.1 hsame.2
  rwa [add_zero] at this

private theorem keeps (h : Backed s held) (hvoters : s'.voters = s.voters)
    (hrefunds : s'.voteRefunds = s.voteRefunds) : Backed s' held :=
  ⟨hvoters ▸ h.symbol, hrefunds ▸ h.refund_pos, hvoters ▸ hrefunds ▸ h.held_eq⟩

/-- An effect moves as many tokens as it moves votes. -/
theorem effect (h : Backed s held) (env : Env) {a : Action} {sent : List Inline}
    (hx : ExactStep s ⟨env, a⟩) (he : Effect s a s' sent) :
    Backed s' (held + (staked ⟨env, a⟩ sent - refunded ⟨env, a⟩ sent)) := by
  have hquiet : ∀ sent : List Inline, (sent = [] ∨ ∃ n, sent = [.rewardRegproducer n]) →
      held + (staked ⟨env, a⟩ sent - refunded ⟨env, a⟩ sent) = held := by
    rintro sent (rfl | ⟨n, rfl⟩) <;> cases a <;> simp [staked, refunded]
  cases he with
  | keep => exact (hquiet [] (.inl rfl)).symm ▸ h
  | register quiet registered revision ext sends =>
    rw [hquiet sent (sends.imp id fun hs => ⟨_, hs⟩)]
    exact h.keeps rfl rfl
  | revise => exact (hquiet [] (.inl rfl)).symm ▸ h.keeps rfl rfl
  | settings => exact (hquiet [] (.inl rfl)).symm ▸ h.keeps rfl rfl
  | configure => exact (hquiet [] (.inl rfl)).symm ▸ h.keeps rfl rfl
  | block produced =>
    rw [hquiet [] (.inl rfl)]
    refine produceRewards_preserves (P := (Backed · held)) produced h fun _ _ hs hstep => ?_
    cases hstep <;> exact hs.keeps rfl rfl
  | voter quiet producers revision =>
    rw [hquiet [] (.inl rfl)]
    obtain ⟨hsymbol, hsum⟩ := h.revision revision
    exact ⟨hsymbol, h.refund_pos, hsum.symm ▸ h.held_eq⟩
  | voteproducer notInit revision =>
    rw [hquiet [] (.inl rfl)]
    obtain ⟨hsymbol, hsum⟩ := h.revision revision
    exact ⟨hsymbol, h.refund_pos, hsum.symm ▸ h.held_eq⟩
  | @addvote voter votes q symbol pos stakes ext =>
    have hq : q.amount = 10000 * votes.amount := voteToCoreAsset_exact pos (hx _ rfl) stakes
    have hin : staked ⟨env, .addvote voter votes⟩
        [.transfer voter voteAccount q "addvote", .rewardAddvote voter votes] = q.amount := by
      simp [staked]
    rw [hin, show refunded ⟨env, .addvote voter votes⟩ _ = 0 from rfl, hq]
    obtain ⟨hsymbol, hsum⟩ := h.setVoter (v := { (s.voter voter).withVoteSymbol with
        votes := ⟨(s.voter voter).withVoteSymbol.votes.amount + votes.amount, voteSymbol⟩ })
      (d := votes.amount) (.inl rfl) (by
        simp only [VoterInfo.withVoteSymbol_owner, System.voter_owner, VoterInfo.withVoteSymbol_amount (h.voter_symbol _)])
    refine ⟨hsymbol, ?_, ?_⟩
    · simpa using h.refund_pos
    · have := h.held_eq
      simp only [System.addVotesList_voteRefunds]
      rw [hsum]
      omega
  | @subvote voter votes slot time symbol pos symbol_eq le fresh ext =>
    rw [show staked ⟨env, .subvote voter votes⟩ _ = 0 from rfl,
      show refunded ⟨env, .subvote voter votes⟩ _ = 0 from rfl, sub_zero, add_zero]
    obtain ⟨hsymbol, hsum⟩ := h.setVoter (v := { s.voter voter with
        votes := ⟨(s.voter voter).votes.amount - votes.amount, voteSymbol⟩
        lastUnvotedTime := slot }) (d := -votes.amount) (.inl rfl)
      (by simp only [System.voter_owner, sub_eq_add_neg])
    refine ⟨hsymbol, fun r hr => ?_, ?_⟩
    · rcases Table.mem_set.mp hr with rfl | ⟨hr, -⟩
      · exact pos
      · exact h.refund_pos r hr
    · have := h.held_eq
      have hrefunds : (s.voteRefunds.set { owner := voter, requestTime := time, votes }).sum
          (·.votes.amount) = s.voteRefunds.sum (·.votes.amount) + votes.amount :=
        Table.sum_set_of_none fresh _
      simp only
      rw [hsum, hrefunds]
      omega
  | @vote voter producers slot nonneg ext =>
    rw [show staked ⟨env, .vote voter producers.names⟩ _ = 0 from rfl,
      show refunded ⟨env, .vote voter producers.names⟩ _ = 0 from rfl, sub_zero, add_zero]
    obtain ⟨hsymbol, hsum⟩ := h.setVoter (v := { (s.voter voter).withVoteSymbol with
        producers, lastUnvotedTime := slot }) (d := 0)
      (.inl (VoterInfo.withVoteSymbol_symbol _)) (by
        simp only [VoterInfo.withVoteSymbol_owner, System.voter_owner, VoterInfo.withVoteSymbol_amount (h.voter_symbol _),
          add_zero])
    refine ⟨hsymbol, ?_, ?_⟩
    · simpa using h.refund_pos
    · have := h.held_eq
      simp only [System.addVotesList_voteRefunds]
      rw [hsum]
      omega
  | @refundvote refund q found stakes =>
    have hpos := h.refund_pos refund (Table.mem_of_find? found)
    have hq : q.amount = 10000 * refund.votes.amount :=
      voteToCoreAsset_exact hpos (hx _ (by simp [System.convertedVotes, found])) stakes
    have hout : refunded ⟨env, .refundvote refund.owner⟩
        [.transfer voteAccount refund.owner q "refundvote"] = q.amount := by
      simp [refunded]
    rw [hout, show staked ⟨env, .refundvote refund.owner⟩ _ = 0 from rfl, hq]
    have hrefunds := Table.sum_erase_of_find? found (·.votes.amount)
    refine ⟨h.symbol, fun r hr => h.refund_pos r (Table.mem_erase.mp hr).1, ?_⟩
    have := h.held_eq
    simp only
    rw [hrefunds]
    omega
  | claimrewards time found pos issued_eq =>
    rw [show staked ⟨env, .claimrewards _ _⟩ sent = 0 from rfl,
      show refunded ⟨env, .claimrewards _ _⟩ sent = 0 from rfl, sub_zero, add_zero]
    exact h.keeps rfl rfl
  | undoreward => exact (hquiet [] (.inl rfl)).symm ▸ h.keeps rfl rfl

theorem transact (h : Backed s held) {tx : Transaction} {sent : List Inline}
    (hx : ExactStep s tx) (hok : Amax.transact tx s = .ok (s', sent)) :
    Backed s' (held + (staked tx sent - refunded tx sent)) := by
  obtain ⟨s₁, he, hout⟩ := perform_effect (transact_ok_iff.mp hok).1
  have := backed_outside.mpr (h.effect tx.env hx he)
  rw [← hout] at this
  exact backed_outside.mp this

end Backed

-- ---------------------------------------------------------------------------
-- Runs
-- ---------------------------------------------------------------------------

/-- The core tokens a run moves into the account of the votes, less those it moves out. -/
def System.heldStake (s : System) (txs : List Transaction) : ℤ :=
  Run.tally transact staked s txs - Run.tally transact refunded s txs

/-- There are no votes and no refunds. -/
structure NoVotes (s : System) : Prop where
  voters : ∀ v ∈ s.voters.rows, v.votes.amount = 0
  voteRefunds : s.voteRefunds.rows = []

theorem NoVotes.backed {s : System} (h : NoVotes s) : Backed s 0 := by
  refine ⟨fun v hv => .inr (h.voters v hv), fun r hr => ?_, ?_⟩
  · rw [h.voteRefunds] at hr
    cases hr
  · rw [Table.sum_eq_zero h.voters, Table.sum, h.voteRefunds]
    rfl

theorem backed_run {s : System} (h : NoVotes s) {txs : List Transaction}
    (hx : Run.Along transact ExactStep s txs) : Backed (s.final txs) (s.heldStake txs) := by
  have hstep : ∀ s held (tx : Transaction) s' sent, Backed s held → ExactStep s tx →
      transact tx s = .ok (s', sent) → Backed s' (held + (staked tx sent + -refunded tx sent)) :=
    fun s held tx s' sent h hx hok => h.transact hx hok
  have hrun := Run.invariant_tally hstep h.backed hx
  rwa [zero_add, Run.tally_add, Run.tally_neg, ← sub_eq_add_neg] at hrun

/-- In every run whose conversions are exact the votes of all voters and of all
refunds are backed ten thousand to one, and the conversion of a positive amount
is right in every state exactly when it is exact. -/
theorem votes_backed {s : System} (h : NoVotes s) {txs : List Transaction}
    (hx : Run.Along transact ExactStep s txs) :
    (s.heldStake txs = 10000 * ((s.final txs).voters.sum (·.votes.amount) +
      (s.final txs).voteRefunds.sum (·.votes.amount))) ∧
    ∀ votes : ℤ, 0 < votes →
      ((∀ s q, voteToCoreAsset s ⟨votes, voteSymbol⟩ = .ok q → q.amount = 10000 * votes) ↔
        ExactVotes votes) :=
  ⟨(backed_run h hx).held_eq, fun _ hpos => exactVotes_iff hpos⟩

/-- A chain with a core symbol and nothing else. -/
private def chain : System := { gstate := { coreSymbol := ⟨['A', 'M', 'A', 'X'], 8⟩ } }

private def at_ (t : TimePoint) : Env := { now := t, hasAuth := fun _ => true }

/-- Five votes, two of them taken back and refunded. -/
theorem votes_backed_refund :
    let txs : List Transaction := [
      ⟨at_ (seconds 1800000000), .addvote 1 ⟨5, voteSymbol⟩⟩,
      ⟨at_ (seconds 1800000000), .subvote 1 ⟨2, voteSymbol⟩⟩,
      ⟨at_ (seconds 1900000000), .refundvote 1⟩]
    chain.heldStake txs = 30000 ∧
      chain.heldStake txs = 10000 * ((chain.final txs).voters.sum (·.votes.amount) +
        (chain.final txs).voteRefunds.sum (·.votes.amount)) := by
  intro txs
  exact ⟨by decide +kernel, (votes_backed ⟨fun _ hv => (List.not_mem_nil hv).elim, rfl⟩
    (by decide +kernel)).1⟩

/-- `2 ^ 60 + 1` votes cost as much as one: the product wraps around. -/
theorem votes_backed_overflow :
    let txs : List Transaction := [⟨at_ (seconds 1800000000), .addvote 1 ⟨2 ^ 60 + 1, voteSymbol⟩⟩]
    chain.heldStake txs = 10000 ∧ (chain.final txs).voters.sum (·.votes.amount) = 2 ^ 60 + 1 ∧
      ¬(chain.heldStake txs = 10000 * ((chain.final txs).voters.sum (·.votes.amount) +
        (chain.final txs).voteRefunds.sum (·.votes.amount))) := by
  decide +kernel

end Amax
