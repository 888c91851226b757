-- SUMMARY: What actions keep of the rows of voters and of the settings: the core symbol, when a voter last moved, and which limits are managed.
import Amax.System.Effect
import Amax.System.Staking

/-! # What actions keep

All contracts agree on the symbol of the core token, which `init` sets once. In
the row of a voter, only its own `vote` and `subvote` set the time of the last
move, and only the administrator's three actions for the limits of an account
set who manages them. -/

namespace Amax

/-- The voter that changes its vote or takes votes back. -/
def Action.mover : Action → Option Name
  | .subvote voter _ => some voter
  | .vote voter _ => some voter
  | _ => none

/-- The account whose limits change hands. -/
def Action.managed : Action → Option Name
  | .setacctram account _ => some account
  | .setacctnet account _ => some account
  | .setacctcpu account _ => some account
  | _ => none

/-- What an action keeps. -/
structure Keeps (a : Action) (s s' : System) : Prop where
  coreSymbol : s'.gstate.coreSymbol = s.gstate.coreSymbol
  clock : ∀ n, a.mover ≠ some n → (s'.voter n).lastUnvotedTime = (s.voter n).lastUnvotedTime
  managed : ∀ n, a.managed ≠ some n → ∀ r : ManagedResource,
    r.isManaged (s'.voter n) = r.isManaged (s.voter n)

/-- The row `v` is written with the time of its last move and with its managed limits. -/
structure SameClock (s : System) (v : VoterInfo) : Prop where
  clock : v.lastUnvotedTime = (s.voter v.owner).lastUnvotedTime
  managed : ∀ r : ManagedResource, r.isManaged v = r.isManaged (s.voter v.owner)

theorem VoterInfo.withVoteSymbol_clock (v : VoterInfo) :
    v.withVoteSymbol.lastUnvotedTime = v.lastUnvotedTime ∧
      ∀ r : ManagedResource, r.isManaged v.withVoteSymbol = r.isManaged v := by
  unfold withVoteSymbol
  split_ifs <;> exact ⟨rfl, fun r => by cases r <;> rfl⟩

section Actions

variable {env : Env} {s s' : System} {a : Action} {sent : List Inline}

theorem Keeps.of_voters (hsymbol : s'.gstate.coreSymbol = s.gstate.coreSymbol)
    (hvoters : s'.voters = s.voters) : Keeps a s s' := by
  have hrow : ∀ n, s'.voter n = s.voter n := fun n => by rw [System.voter, hvoters, System.voter]
  exact ⟨hsymbol, fun n _ => by rw [hrow], fun n _ r => by rw [hrow]⟩

theorem System.voter_of_set {v : VoterInfo} (hvoters : s'.voters = s.voters.set v) (n : Name) :
    s'.voter n = if v.owner = n then v else s.voter n := by
  simp only [System.voter, hvoters, Table.find?_set]
  split_ifs <;> rfl

theorem Keeps.of_set {v : VoterInfo} (hsymbol : s'.gstate.coreSymbol = s.gstate.coreSymbol)
    (hvoters : s'.voters = s.voters.set v)
    (hclock : a.mover ≠ some v.owner → v.lastUnvotedTime = (s.voter v.owner).lastUnvotedTime)
    (hmanaged : a.managed ≠ some v.owner → ∀ r : ManagedResource,
      r.isManaged v = r.isManaged (s.voter v.owner)) : Keeps a s s' := by
  refine ⟨hsymbol, fun n hn => ?_, fun n hn r => ?_⟩
  · rw [System.voter_of_set hvoters]
    split_ifs with howner
    · subst howner
      exact hclock hn
    · rfl
  · rw [System.voter_of_set hvoters]
    split_ifs with howner
    · subst howner
      exact hmanaged hn r
    · rfl

theorem Keeps.of_same {v : VoterInfo} (hsymbol : s'.gstate.coreSymbol = s.gstate.coreSymbol)
    (hvoters : s'.voters = s.voters.set v) (h : SameClock s v) : Keeps a s s' :=
  .of_set hsymbol hvoters (fun _ => h.clock) fun _ => h.managed

private theorem addVotesList_coreSymbol (s : System) (ns : List Name) (d : ℤ) :
    (s.addVotesList ns d).gstate.coreSymbol = s.gstate.coreSymbol := by
  induction ns generalizing s with
  | nil => rfl
  | cons n ns ih => exact ih (s.addVotes n d)

/-- Moving elected votes concerns neither the voters nor the settings. -/
private theorem moveElectedVotes_keeps {groups : List (List Name × Asset)}
    (h : moveElectedVotes env s groups = .ok s') :
    s'.gstate.coreSymbol = s.gstate.coreSymbol ∧ s'.voters = s.voters := by
  have hgroups : (s.addVotesGroups groups).gstate.coreSymbol = s.gstate.coreSymbol ∧
      (s.addVotesGroups groups).voters = s.voters := by
    unfold System.addVotesGroups
    clear h
    induction groups generalizing s with
    | nil => exact ⟨rfl, rfl⟩
    | cons group groups ih =>
      obtain ⟨hsymbol, hvoters⟩ := @ih (s.addVotesList group.1 group.2.amount)
      exact ⟨hsymbol.trans (addVotesList_coreSymbol s _ _),
        hvoters.trans (System.addVotesList_voters s _ _)⟩
  have hout := (moveElectedVotes_ok h).2
  exact ⟨(congrArg (fun t : System => t.gstate.coreSymbol) hout :).trans hgroups.1,
    (congrArg System.voters hout :).trans hgroups.2⟩

private theorem registerProducer_keeps {producer : Name} {authority : BlockSigningAuthority}
    {ratio : Option ℕ} (h : registerProducer env s producer authority ratio = .ok (s', sent)) :
    Keeps a s s' := by
  simp only [registerProducer, Except.bind_ok_iff] at h
  obtain ⟨-, -, _, -, h⟩ := h
  cases hp : s.producers.find? producer with
  | none =>
    simp only [hp, Except.bind_ok_iff, Except.pure_ok_iff, Prod.mk.injEq] at h
    obtain ⟨-, -, _, -, rfl, -⟩ := h
    exact .of_voters rfl rfl
  | some prod =>
    simp only [hp] at h
    cases hbbp : s.electGstate.isBbpEnabled with
    | true =>
      simp only [hbbp, if_true, Except.bind_ok_iff, Except.pure_ok_iff, Prod.exists,
        Prod.mk.injEq] at h
      obtain ⟨g, changes, -, s₁, hs, rfl, -⟩ := h
      have hout := saveProducerChanges_outside hs
      exact .of_voters (congrArg (fun t : System => t.gstate.coreSymbol) hout :)
        (congrArg System.voters hout :)
    | false =>
      simp only [hbbp, Bool.false_eq_true, if_false, Except.pure_ok_iff, Prod.mk.injEq] at h
      rw [← h.1]
      exact .of_voters rfl rfl

private theorem deactivateProducer_keeps {producer : Name}
    (h : deactivateProducer s producer = .ok (s', sent)) : Keeps a s s' := by
  unfold deactivateProducer at h
  cases hp : s.producers.find? producer with
  | none => simp [hp] at h
  | some prod =>
    simp only [hp, Except.ok.injEq, Prod.mk.injEq] at h
    rw [← h.1]
    exact .of_voters rfl rfl

-- ---------------------------------------------------------------------------
-- Actions on voters
-- ---------------------------------------------------------------------------

private theorem updateVoteWeightOld_keeps {voter : Name} {producers : List Name} {voting : Bool}
    (h : updateVoteWeightOld env s voter producers voting = .ok s') :
    s'.gstate.coreSymbol = s.gstate.coreSymbol ∧
      ∃ v, s'.voters = s.voters.set v ∧ v.owner = voter ∧ SameClock s v := by
  have hsymbol := (Bandwidth.updateVoteWeightOld_staked h).1
  simp only [updateVoteWeightOld, Except.bind_ok_iff] at h
  obtain ⟨-, -, list, -, h⟩ := h
  cases hv : s.voters.find? voter with
  | none => simp [hv] at h
  | some v =>
    simp only [hv, Except.bind_ok_iff, Except.pure_ok_iff] at h
    obtain ⟨-, -, rfl⟩ := h
    have howner : v.owner = voter := Table.key_of_find? hv
    refine ⟨hsymbol, _, rfl, ?_, ?_⟩
    · rw [VoterInfo.withVoteSymbol_owner, ← howner]
    · obtain ⟨hclock, hmanaged⟩ := VoterInfo.withVoteSymbol_clock { v with
        weighted := decide (0 < v.staked), producers := list }
      have hrow : s.voter v.owner = v := by rw [howner, System.voter_of_find? hv]
      constructor
      · rw [VoterInfo.withVoteSymbol_owner, hrow, hclock]
      · intro r
        rw [VoterInfo.withVoteSymbol_owner, hrow, hmanaged]
        cases r <;> rfl

private theorem updateVotingPower_keeps {voter : Name} {d : ℤ}
    (h : updateVotingPower env s voter d = .ok s') : Keeps a s s' := by
  have hsymbol := (Bandwidth.updateVotingPower_staked h).1
  simp only [updateVotingPower, Except.bind_ok_iff] at h
  obtain ⟨v, hv, -, -, h⟩ := h
  have hrow : v.owner = voter ∧ SameClock s v := by
    unfold stakedVoter at hv
    cases hf : s.voters.find? voter with
    | none =>
      simp only [hf, Except.bind_ok_iff, Except.pure_ok_iff] at hv
      obtain ⟨-, -, rfl⟩ := hv
      have hnew := System.voter_of_none hf
      exact ⟨rfl, by rw [hnew], fun r => by rw [hnew]; cases r <;> rfl⟩
    | some w =>
      simp only [hf, Except.ok.injEq] at hv
      subst hv
      have howner : w.owner = voter := Table.key_of_find? hf
      have hold : s.voter w.owner = w := by rw [howner, System.voter_of_find? hf]
      exact ⟨howner, by rw [hold], fun r => by rw [hold]; cases r <;> rfl⟩
  obtain ⟨rfl, hsame⟩ := hrow
  split_ifs at h with hnames
  · obtain ⟨-, w, hvoters, howner, hclock, hmanaged⟩ := updateVoteWeightOld_keeps h
    have hself : ({ s with voters := s.voters.set v } : System).voter v.owner = v := by
      rw [System.voter_of_set rfl, if_pos rfl]
    rw [howner, hself] at hclock
    rw [Table.set_set _ howner.symm] at hvoters
    refine .of_same hsymbol hvoters ⟨?_, fun r => ?_⟩
    · rw [howner, hclock, hsame.clock]
    · rw [howner, ← hsame.managed r, hmanaged, howner, hself]
  · obtain rfl := Except.pure_ok_iff.mp h
    exact .of_same rfl rfl hsame

private theorem changebw_keeps {sender receiver : Name} {net cpu : Asset} {transfer : Bool}
    (h : changebw env s sender receiver net cpu transfer = .ok (s', sent)) : Keeps a s s' := by
  simp only [changebw, Except.bind_ok_iff, Except.pure_ok_iff, Prod.mk.injEq] at h
  obtain ⟨-, -, -, -, total, -, -, -, -, -, s₁, hpower, rfl, -⟩ := h
  exact updateVotingPower_keeps hpower

/-- Who manages a limit changes, and nothing else. -/
theorem setAccountResource_ok {r : ManagedResource} {account : Name} {limit : Option ℤ}
    (h : setAccountResource r env s account limit = .ok (s', sent)) :
    s'.gstate.coreSymbol = s.gstate.coreSymbol ∧
      s'.voters = s.voters.set (r.setManaged (s.voter account) limit.isSome) ∧
      (limit = none → r.isManaged (s.voter account) = true) ∧
      (∀ x ∈ limit, r.minLimit ≤ x) ∧ env.hasAuth self = true ∧ sent = [] := by
  simp only [setAccountResource, requireAuth, Except.bind_ok_iff, check_ok_iff, exists_const] at h
  obtain ⟨hauth, h⟩ := h
  cases limit with
  | none =>
    cases hv : s.voters.find? account with
    | none => simp [hv] at h
    | some v =>
      simp only [hv, Except.bind_ok_iff, check_ok_iff, exists_const, Except.pure_ok_iff,
        Prod.mk.injEq] at h
      obtain ⟨hmanaged, rfl, rfl⟩ := h
      rw [System.voter_of_find? hv]
      exact ⟨rfl, rfl, fun _ => hmanaged, fun _ hx => absurd hx (Option.not_mem_none _), hauth,
        rfl⟩
  | some x =>
    cases hv : s.voters.find? account with
    | none =>
      simp only [hv, payRow, Except.bind_ok_iff, check_ok_iff, exists_const, Except.pure_ok_iff,
        Prod.mk.injEq] at h
      obtain ⟨hle, -, rfl, rfl⟩ := h
      rw [System.voter_of_none hv]
      exact ⟨rfl, rfl, fun e => absurd e (Option.some_ne_none x),
        fun y hy => Option.some.inj hy ▸ hle, hauth, rfl⟩
    | some v =>
      simp only [hv, Except.bind_ok_iff, check_ok_iff, exists_const, Except.pure_ok_iff,
        Prod.mk.injEq] at h
      obtain ⟨hle, rfl, rfl⟩ := h
      rw [System.voter_of_find? hv]
      exact ⟨rfl, rfl, fun e => absurd e (Option.some_ne_none x),
        fun y hy => Option.some.inj hy ▸ hle, hauth, rfl⟩

private theorem setAccountResource_keeps {r : ManagedResource} {account : Name}
    {limit : Option ℤ} (ha : a.managed = some account)
    (h : setAccountResource r env s account limit = .ok (s', sent)) : Keeps a s s' := by
  obtain ⟨hsymbol, hvoters, -⟩ := setAccountResource_ok h
  have hrow : ∀ b, (r.setManaged (s.voter account) b).owner = account ∧
      (r.setManaged (s.voter account) b).lastUnvotedTime = (s.voter account).lastUnvotedTime := by
    intro b
    cases r <;> exact ⟨System.voter_owner s account, rfl⟩
  refine .of_set hsymbol hvoters (fun _ => ?_) fun hne => ?_
  · rw [(hrow _).1, (hrow _).2]
  · rw [(hrow _).1] at hne
    exact absurd ha hne

private theorem addvote_keeps {voter : Name} {votes : Asset}
    (h : addvote env s voter votes = .ok (s', sent)) : Keeps a s s' := by
  simp only [addvote, Except.bind_ok_iff] at h
  obtain ⟨-, -, -, -, -, -, _, -, h⟩ := h
  cases hv : s.voters.find? voter with
  | none =>
    simp only [hv, Except.bind_ok_iff, Except.pure_ok_iff, Prod.mk.injEq] at h
    obtain ⟨-, -, rfl, -⟩ := h
    have hnew := System.voter_of_none hv
    exact .of_same rfl rfl ⟨by rw [hnew], fun r => by rw [hnew]; cases r <;> rfl⟩
  | some v =>
    simp only [hv, Except.bind_ok_iff, Except.pure_ok_iff, Prod.mk.injEq] at h
    obtain ⟨s₁, h₁, sum, -, rfl, -⟩ := h
    have hmove : s₁.gstate.coreSymbol = s.gstate.coreSymbol ∧ s₁.voters = s.voters := by
      split_ifs at h₁
      · exact moveElectedVotes_keeps h₁
      · rw [← Except.ok.inj h₁]
        exact ⟨rfl, rfl⟩
    obtain ⟨hclock, hmanaged⟩ := v.withVoteSymbol_clock
    have howner : v.owner = voter := Table.key_of_find? hv
    have hold : s.voter v.withVoteSymbol.owner = v := by
      rw [VoterInfo.withVoteSymbol_owner, howner, System.voter_of_find? hv]
    refine .of_same hmove.1 (v := { v.withVoteSymbol with votes := sum }) ?_ ⟨?_, fun r => ?_⟩
    · rw [← hmove.2]
    · dsimp only
      rw [hold, hclock]
    · dsimp only
      rw [hold, ← hmanaged r]
      cases r <;> rfl

/-- Who takes votes back waits a day after its last move, except the administrator, and gets a
refund that is not yet due. -/
theorem subvote_ok {voter : Name} {votes : Asset}
    (h : subvote env s voter votes = .ok (s', sent)) :
    sent = [.rewardSubvote voter votes] ∧
      s'.gstate.coreSymbol = s.gstate.coreSymbol ∧ s.voteRefunds.find? voter = none ∧
      s'.voteRefunds.find? voter = some ⟨voter, env.now.secSinceEpoch, votes⟩ ∧
      (voter ≠ armoniaadmin →
        Slot.toTimePoint (s.voter voter).lastUnvotedTime + seconds voteIntervalSec < env.now) ∧
      ∃ v, s'.voters = s.voters.set v ∧ v.owner = voter ∧
        v.lastUnvotedTime = TimePoint.toSlot env.now ∧
        ∀ r : ManagedResource, r.isManaged v = r.isManaged (s.voter voter) := by
  simp only [subvote, Except.bind_ok_iff, check_ok_iff, exists_const] at h
  obtain ⟨-, -, -, -, -, h⟩ := h
  cases hv : s.voters.find? voter with
  | none => simp [hv] at h
  | some v =>
    simp only [hv, Except.bind_ok_iff, check_ok_iff, exists_const, Except.pure_ok_iff,
      Prod.mk.injEq] at h
    obtain ⟨_, -, -, hdue, hnone, s₁, h₁, rest, -, _, -, rfl, rfl⟩ := h
    obtain ⟨hsymbol, hvoters⟩ := moveElectedVotes_keeps h₁
    obtain ⟨hclock, hmanaged⟩ := v.withVoteSymbol_clock
    have howner : v.owner = voter := Table.key_of_find? hv
    rw [System.voter_of_find? hv]
    refine ⟨rfl, hsymbol, by simpa using hnone, ?_, hdue, _, by rw [← hvoters], ?_, rfl,
      fun r => ?_⟩
    · exact Table.find?_set_self _ (⟨voter, env.now.secSinceEpoch, votes⟩ : VoteRefund)
    · exact (VoterInfo.withVoteSymbol_owner v).trans howner
    · rw [← hmanaged r]
      cases r <;> rfl

/-- Who votes for others waits a day after its last move; who votes for the same does nothing. -/
theorem vote_ok {voter : Name} {producers : List Name}
    (h : vote env s voter producers = .ok (s', sent)) :
    (s' = s ∧ sent = []) ∨ (sent = [.rewardVoteproducer voter producers] ∧
      s'.gstate.coreSymbol = s.gstate.coreSymbol ∧
      Slot.toTimePoint (s.voter voter).lastUnvotedTime + seconds voteIntervalSec < env.now ∧
      ∃ v, s'.voters = s.voters.set v ∧ v.owner = voter ∧
        v.lastUnvotedTime = TimePoint.toSlot env.now ∧
        ∀ r : ManagedResource, r.isManaged v = r.isManaged (s.voter voter)) := by
  simp only [vote, Except.bind_ok_iff, check_ok_iff, exists_const] at h
  obtain ⟨-, -, -, list, hlist, h⟩ := h
  have hnames : list.names = producers := by
    unfold sortedNames at hlist
    split_ifs at hlist with hsorted
    rw [← Except.ok.inj hlist]
  subst hnames
  cases hv : s.voters.find? voter with
  | none => simp [hv] at h
  | some v =>
    simp only [hv, Except.bind_ok_iff, check_ok_iff, exists_const] at h
    obtain ⟨-, h⟩ := h
    split_ifs at h
    · simp only [Except.pure_ok_iff, Prod.mk.injEq] at h
      exact .inl ⟨h.1.symm, h.2.symm⟩
    · simp only [Except.bind_ok_iff, check_ok_iff, exists_const, Except.pure_ok_iff,
        Prod.mk.injEq] at h
      obtain ⟨hdue, s₁, h₁, rfl, rfl⟩ := h
      obtain ⟨hsymbol, hvoters⟩ := moveElectedVotes_keeps h₁
      obtain ⟨hclock, hmanaged⟩ := v.withVoteSymbol_clock
      have howner : v.owner = voter := Table.key_of_find? hv
      rw [System.voter_of_find? hv]
      refine .inr ⟨rfl, hsymbol, hdue, _, by rw [← hvoters], ?_, rfl, fun r => ?_⟩
      · exact (VoterInfo.withVoteSymbol_owner v).trans howner
      · rw [← hmanaged r]
        cases r <;> rfl

-- ---------------------------------------------------------------------------
-- All actions
-- ---------------------------------------------------------------------------

theorem perform_keeps (hok : perform env s a = .ok (s', sent)) : Keeps a s s' := by
  cases a with
  | regproducer producer key url ratio =>
    simp only [perform, regproducer, Except.bind_ok_iff] at hok
    obtain ⟨-, -, -, -, h⟩ := hok
    exact registerProducer_keeps h
  | regproducer2 producer authority url ratio =>
    simp only [perform, regproducer2, Except.bind_ok_iff] at hok
    obtain ⟨-, -, -, -, -, -, h⟩ := hok
    exact registerProducer_keeps h
  | setvoteshare producer ratio =>
    simp only [perform, setvoteshare, Except.bind_ok_iff] at hok
    obtain ⟨-, -, -, -, h⟩ := hok
    cases hp : s.producers.find? producer with
    | none => simp [hp] at h
    | some prod =>
      cases hext : prod.ext with
      | none => simp [hp, hext] at h
      | some ext =>
        simp only [hp, hext, Except.pure_ok_iff, Prod.mk.injEq] at h
        rw [← h.1]
        exact .of_voters rfl rfl
  | unregprod producer =>
    simp only [perform, unregprod, Except.bind_ok_iff] at hok
    obtain ⟨-, -, h⟩ := hok
    exact deactivateProducer_keeps h
  | rmvproducer producer =>
    simp only [perform, rmvproducer, Except.bind_ok_iff] at hok
    obtain ⟨-, -, h⟩ := hok
    exact deactivateProducer_keeps h
  | upgradevote =>
    simp only [perform, upgradevote, Except.bind_ok_iff, Except.pure_ok_iff, Prod.mk.injEq] at hok
    obtain ⟨-, -, rfl, -⟩ := hok
    have hout := updateElectedProducers_outside env { s with
      electGstate := { s.electGstate with electedVersion := 1 } }
    exact .of_voters (congrArg (fun t : System => t.gstate.coreSymbol) hout :)
      (congrArg System.voters hout :)
  | setmprodvote votes =>
    simp only [perform, setmprodvote, Except.bind_ok_iff, Except.pure_ok_iff, Prod.mk.injEq] at hok
    obtain ⟨-, -, -, -, -, -, -, -, rfl, -⟩ := hok
    exact .of_voters rfl rfl
  | initbbpelect count =>
    simp only [perform, initbbpelect, Except.bind_ok_iff] at hok
    obtain ⟨-, -, -, -, s₁, h₁, hok⟩ := hok
    have hsame : s₁.gstate.coreSymbol = s.gstate.coreSymbol ∧ s₁.voters = s.voters := by
      split_ifs at h₁ with hre
      · have hout := startElection_outside h₁
        exact ⟨(congrArg (fun t : System => t.gstate.coreSymbol) hout :),
          (congrArg System.voters hout :)⟩
      · rw [← Except.ok.inj h₁]
        exact ⟨rfl, rfl⟩
    split_ifs at hok
    · obtain ⟨rfl, -⟩ := Prod.mk.inj (Except.pure_ok_iff.mp hok)
      exact .of_voters hsame.1 hsame.2
    · obtain ⟨rfl, -⟩ := Prod.mk.inj (Except.pure_ok_iff.mp hok)
      exact .of_voters hsame.1 hsame.2
  | voteproducer voter proxy producers =>
    simp only [perform, voteproducer, Except.bind_ok_iff, Except.pure_ok_iff, Prod.mk.injEq] at hok
    obtain ⟨-, -, -, -, -, -, s₁, h₁, rfl, -⟩ := hok
    obtain ⟨hsymbol, v, hvoters, -, hsame⟩ := updateVoteWeightOld_keeps h₁
    exact .of_same hsymbol hvoters hsame
  | delegatebw sender receiver net cpu transfer =>
    simp only [perform, delegatebw, Except.bind_ok_iff] at hok
    obtain ⟨_, -, _, -, _, -, -, -, _, -, -, -, -, -, -, -, h⟩ := hok
    exact changebw_keeps h
  | undelegatebw sender receiver net cpu =>
    simp only [perform, undelegatebw, Except.bind_ok_iff] at hok
    obtain ⟨-, -, _, -, _, -, _, -, -, -, _, -, -, -, -, -, -, -, h⟩ := hok
    exact changebw_keeps h
  | setacctram | setacctnet | setacctcpu => exact setAccountResource_keeps rfl hok
  | addvote voter votes => exact addvote_keeps hok
  | subvote voter votes =>
    obtain ⟨-, hsymbol, -, -, -, v, hvoters, rfl, -, hmanaged⟩ := subvote_ok hok
    exact .of_set hsymbol hvoters (fun hne => absurd rfl hne) fun _ => hmanaged
  | vote voter producers =>
    rcases vote_ok hok with ⟨rfl, -⟩ | ⟨-, hsymbol, -, v, hvoters, rfl, -, hmanaged⟩
    · exact .of_voters rfl rfl
    · exact .of_set hsymbol hvoters (fun hne => absurd rfl hne) fun _ => hmanaged
  | refundvote owner =>
    obtain ⟨refund, q, -, -, -, -, rfl, -⟩ := refundvote_ok hok
    exact .of_voters rfl rfl
  | onblock header =>
    simp only [perform, onblock, Except.bind_ok_iff] at hok
    obtain ⟨-, -, hok⟩ := hok
    split_ifs at hok
    · rw [← (Prod.mk.inj (Except.pure_ok_iff.mp hok)).1]
      exact .of_voters rfl rfl
    · simp only [Except.bind_ok_iff, Except.pure_ok_iff, Prod.mk.injEq] at hok
      obtain ⟨s₁, h₁, s₂, h₂, rfl, -⟩ := hok
      have hproduced : s₁.gstate.coreSymbol = s.gstate.coreSymbol ∧ s₁.voters = s.voters :=
        produceRewards_preserves
          (P := fun t => t.gstate.coreSymbol = s.gstate.coreSymbol ∧ t.voters = s.voters)
          h₁ ⟨rfl, rfl⟩ fun _ _ h hstep => by cases hstep <;> exact h
      have hout := updateSchedule_outside h₂
      exact .of_voters ((congrArg (fun t : System => t.gstate.coreSymbol) hout :).trans hproduced.1)
        ((congrArg System.voters hout :).trans hproduced.2)
  | cfgreward start stop main backup =>
    simp only [perform, cfgreward, Except.bind_ok_iff, Except.pure_ok_iff, Prod.mk.injEq] at hok
    obtain ⟨-, -, -, -, -, -, -, -, -, -, -, -, -, -, -, -, -, -, -, -, -, -, -, -, -, -, rfl, -⟩ :=
      hok
    exact .of_voters rfl rfl
  | cfgbbpreward backup =>
    simp only [perform, cfgbbpreward, Except.bind_ok_iff, Except.pure_ok_iff, Prod.mk.injEq] at hok
    obtain ⟨-, -, -, -, -, -, -, -, -, -, -, -, -, -, -, -, -, -, rfl, -⟩ := hok
    exact .of_voters rfl rfl
  | cfgcontrib contribution =>
    simp only [perform, cfgcontrib, Except.bind_ok_iff, Except.pure_ok_iff, Prod.mk.injEq] at hok
    obtain ⟨-, -, -, -, rfl, -⟩ := hok
    exact .of_voters rfl rfl
  | claimrewards submitter owner =>
    simp only [perform, claimrewards, Except.bind_ok_iff] at hok
    obtain ⟨-, -, hok⟩ := hok
    cases hp : s.producers.find? owner with
    | none => simp [hp] at hok
    | some prod =>
      cases hext : prod.ext with
      | none => simp [hp, hext, Except.bind_ok_iff] at hok
      | some ext =>
        simp only [hp, hext, Except.bind_ok_iff, Except.pure_ok_iff, Prod.mk.injEq] at hok
        obtain ⟨-, -, -, -, -, -, -, -, -, -, share, -, -, -, shared, -, rfl, -⟩ := hok
        exact .of_voters rfl rfl
  | undoreward owner rewards =>
    simp only [perform, undoreward, Except.bind_ok_iff] at hok
    obtain ⟨-, -, hok⟩ := hok
    cases hp : s.producers.find? owner with
    | none => simp [hp] at hok
    | some prod =>
      simp only [hp, Except.bind_ok_iff, Except.pure_ok_iff, Prod.mk.injEq] at hok
      obtain ⟨-, -, -, -, -, -, -, -, -, -, -, -, rest, -, rfl, -⟩ := hok
      exact .of_voters rfl rfl

/-- No action changes the core symbol. -/
theorem perform_coreSymbol (hok : perform env s a = .ok (s', sent)) :
    s'.gstate.coreSymbol = s.gstate.coreSymbol :=
  (perform_keeps hok).coreSymbol

end Actions

end Amax
