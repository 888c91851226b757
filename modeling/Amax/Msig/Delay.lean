-- SUMMARY: For how long the approvals of a delayed proposal have stood when it is executed.
import Amax.Msig.Contract

/-! # The delay of a proposal

The timer of a proposal starts when its approvals first authorise its
transaction, and is stopped when an approval is taken back without which they do
not. An invalidation does not stop it, so that an approval can restore the
authorisation of a proposal whose timer has run all the while. -/

namespace Amax.Msig

section Delay

variable (trxIsAuthorized : Trx → List PermissionLevel → Bool)

-- ---------------------------------------------------------------------------
-- Timers and authorisation
-- ---------------------------------------------------------------------------

/-- The transaction of a proposal and the time it may be executed at, when its timer runs. -/
def State.timer (s : State) (proposer proposalName : Name) : Option (Trx × TimePoint) :=
  (s.proposals.find? (toLex (proposer, proposalName))).bind fun prop =>
    prop.earliestExecTime.bind fun earliest =>
      if earliest = 0 then none else some (prop.packedTransaction, earliest)

/-- The approvals that stand, with the approvals `more`, authorise a proposal. -/
def State.authorizes (s : State) (proposer proposalName : Name) (more : List Approval) : Bool :=
  match s.proposals.find? (toLex (proposer, proposalName)),
      s.approvals.find? (toLex (proposer, proposalName)) with
  | some prop, some info =>
    trxIsAuthorized prop.packedTransaction (s.standing (info.providedApprovals ++ more))
  | _, _ => false

/-- What an approval is checked for: its authority, its hash, and that it is requested. -/
def State.admits (s : State) (env : Env) (proposer proposalName : Name) (level : PermissionLevel)
    (proposalHash : Option ℕ) : Bool :=
  match s.proposals.find? (toLex (proposer, proposalName)),
      s.approvals.find? (toLex (proposer, proposalName)) with
  | some prop, some info =>
    env.hasLevel level && proposalHash.all (env.sha256 prop.packedTransaction = ·) &&
      info.requestedApprovals.any fun a => a.level = level
  | _, _ => false

/-- An approval that authorises a proposal again whose timer still runs. -/
def Transaction.restores (tx : Transaction) (s : State) (proposer proposalName : Name) : Bool :=
  match tx.action with
  | .approve p n level hash =>
    p = proposer && n = proposalName && s.admits tx.env proposer proposalName level hash &&
      (s.timer proposer proposalName).isSome &&
      !s.authorizes trxIsAuthorized proposer proposalName [] &&
      s.authorizes trxIsAuthorized proposer proposalName [⟨level, tx.env.now⟩]
  | _ => false

variable {trxIsAuthorized}
variable {env : Env} {s s' : State} {out : List ℕ} {p n : Name} {b : Trx × TimePoint}

theorem timer_eq_some_iff {trx : Trx} {earliest : TimePoint} :
    s.timer p n = some (trx, earliest) ↔
      ∃ prop, s.proposals.find? (toLex (p, n)) = some prop ∧
        prop.earliestExecTime = some earliest ∧ earliest ≠ 0 ∧ prop.packedTransaction = trx := by
  unfold State.timer
  cases s.proposals.find? (toLex (p, n)) with
  | none => simp
  | some prop =>
    cases he : prop.earliestExecTime with
    | none => simp [he]
    | some e =>
      by_cases hzero : e = 0
      · simp only [Option.bind_some, he, Option.some.injEq, exists_eq_left', hzero]
        constructor
        · exact nofun
        · rintro ⟨rfl, hne, -⟩
          exact absurd rfl hne
      · simp only [Option.bind_some, he, if_neg hzero, Option.some.injEq, Prod.mk.injEq,
          exists_eq_left']
        constructor
        · rintro ⟨rfl, rfl⟩
          exact ⟨rfl, hzero, rfl⟩
        · rintro ⟨rfl, -, rfl⟩
          exact ⟨rfl, rfl⟩

theorem authorizes_of_find? {prop : Proposal} {info : ApprovalsInfo} {more : List Approval}
    (hprop : s.proposals.find? (toLex (p, n)) = some prop)
    (hinfo : s.approvals.find? (toLex (p, n)) = some info) :
    s.authorizes trxIsAuthorized p n more =
      trxIsAuthorized prop.packedTransaction (s.standing (info.providedApprovals ++ more)) := by
  simp only [State.authorizes, hprop, hinfo]

-- ---------------------------------------------------------------------------
-- What one action does to a proposal
-- ---------------------------------------------------------------------------

/-- The timer was set to `b` before the action, and the proposal was authorised if it is now. -/
def Kept (trxIsAuthorized : Trx → List PermissionLevel → Bool) (s s' : State) (p n : Name)
    (b : Trx × TimePoint) : Prop :=
  s.timer p n = some b ∧
    (s'.authorizes trxIsAuthorized p n [] = true → s.authorizes trxIsAuthorized p n [] = true)

/-- No invalidation is recorded for a later time than `t`. -/
def State.Recorded (s : State) (t : TimePoint) : Prop :=
  ∀ i ∈ s.invalidations.rows, i.lastInvalidationTime ≤ t

/-- Rows of another proposal. -/
theorem kept_of_eq (hprop : s'.proposals.find? (toLex (p, n)) = s.proposals.find? (toLex (p, n)))
    (hinfo : s'.approvals.find? (toLex (p, n)) = s.approvals.find? (toLex (p, n)))
    (hinv : s'.invalidations = s.invalidations) (hb : s'.timer p n = some b) :
    Kept trxIsAuthorized s s' p n b := by
  constructor
  · rw [← hb]
    simp only [State.timer, hprop]
  · have hstanding : s'.isStanding = s.isStanding := by
      funext a
      simp only [State.isStanding, hinv]
    simp only [State.authorizes, State.standing, hprop, hinfo, hstanding]
    exact id

/-- Fewer approvals that stand. -/
theorem kept_of_subset {prop : Proposal} {info info' : ApprovalsInfo}
    (hmono : ∀ trx l l', l ⊆ l' → trxIsAuthorized trx l = true → trxIsAuthorized trx l' = true)
    (hprop : s.proposals.find? (toLex (p, n)) = some prop)
    (hprop' : s'.proposals.find? (toLex (p, n)) = some prop)
    (hinfo : s.approvals.find? (toLex (p, n)) = some info)
    (hinfo' : s'.approvals.find? (toLex (p, n)) = some info')
    (hsub : s'.standing info'.providedApprovals ⊆ s.standing info.providedApprovals)
    (hb : s'.timer p n = some b) : Kept trxIsAuthorized s s' p n b := by
  constructor
  · rw [← hb]
    simp only [State.timer, hprop, hprop']
  · rw [authorizes_of_find? hprop hinfo, authorizes_of_find? hprop' hinfo', List.append_nil,
      List.append_nil]
    exact hmono _ _ _ hsub

theorem getProposal_ok_iff {prop : Proposal} :
    getProposal s p n = .ok prop ↔ s.proposals.find? (toLex (p, n)) = some prop := by
  unfold getProposal
  cases s.proposals.find? (toLex (p, n)) <;> simp

theorem getApprovalsInfo_ok_iff {info : ApprovalsInfo} :
    getApprovalsInfo s p n = .ok info ↔ s.approvals.find? (toLex (p, n)) = some info := by
  unfold getApprovalsInfo
  cases s.approvals.find? (toLex (p, n)) <;> simp

theorem getApprovals_ok_iff {levels : List PermissionLevel} :
    getApprovals s p n = .ok levels ↔ ∃ info, s.approvals.find? (toLex (p, n)) = some info ∧
      s.standing info.providedApprovals = levels := by
  unfold getApprovals
  cases s.approvals.find? (toLex (p, n)) <;> simp

theorem standing_subset {as bs : List Approval} (h : as ⊆ bs) :
    s.standing as ⊆ s.standing bs := by
  intro level hlevel
  simp only [State.standing, List.mem_map, List.mem_filter] at hlevel ⊢
  obtain ⟨a, ⟨ha, hs⟩, rfl⟩ := hlevel
  exact ⟨a, ⟨h ha, hs⟩, rfl⟩

theorem propose_kept {proposer name : Name} {requested : List PermissionLevel} {trx : Trx}
    (hok : propose trxIsAuthorized env s proposer name requested trx = .ok (s', out))
    (hb : s'.timer p n = some b) : Kept trxIsAuthorized s s' p n b := by
  simp only [propose, requireAuth, Except.bind_ok_iff, check_ok_iff, exists_const,
    Except.pure_ok_iff, Prod.mk.injEq] at hok
  obtain ⟨-, -, -, -, -, -, rfl, -⟩ := hok
  by_cases hkey : toLex (proposer, name) = toLex (p, n)
  · obtain ⟨trx', earliest⟩ := b
    obtain ⟨prop, hprop, he, hne, -⟩ := timer_eq_some_iff.mp hb
    rw [Table.find?_set, if_pos hkey, Option.some.injEq] at hprop
    subst hprop
    exact absurd (Option.some.inj he).symm hne
  · exact kept_of_eq (Table.find?_set_ne _ hkey) (Table.find?_set_ne _ hkey) rfl hb

/-- A proposal that is gone has no timer. -/
theorem erase_kept {proposer name : Name}
    (hs : s' = { s with
      proposals := s.proposals.erase (toLex (proposer, name))
      approvals := s.approvals.erase (toLex (proposer, name)) })
    (hb : s'.timer p n = some b) : Kept trxIsAuthorized s s' p n b := by
  subst hs
  by_cases hkey : toLex (p, n) = toLex (proposer, name)
  · obtain ⟨trx, earliest⟩ := b
    obtain ⟨prop, hprop, -⟩ := timer_eq_some_iff.mp hb
    rw [Table.find?_erase, if_pos hkey] at hprop
    cases hprop
  · refine kept_of_eq ?_ ?_ rfl hb
    · simp only [Table.find?_erase, if_neg hkey]
    · simp only [Table.find?_erase, if_neg hkey]

theorem cancel_kept {proposer name canceler : Name}
    (hok : cancel env s proposer name canceler = .ok (s', out)) (hb : s'.timer p n = some b) :
    Kept trxIsAuthorized s s' p n b := by
  simp only [cancel, requireAuth, Except.bind_ok_iff, check_ok_iff, exists_const,
    Except.pure_ok_iff, Prod.mk.injEq] at hok
  obtain ⟨-, _, -, -, _, -, hs, -⟩ := hok
  exact erase_kept hs.symm hb

/-- An executed proposal was authorised, and its timer, which runs when it has a delay, is over. -/
theorem exec_ok {proposer name executer : Name}
    (hok : exec trxIsAuthorized env s proposer name executer = .ok (s', out)) :
    s' = { s with
      proposals := s.proposals.erase (toLex (proposer, name))
      approvals := s.approvals.erase (toLex (proposer, name)) } ∧
    s.authorizes trxIsAuthorized proposer name [] = true ∧
    ∃ prop, s.proposals.find? (toLex (proposer, name)) = some prop ∧
      out = prop.packedTransaction.actions ∧
      (prop.packedTransaction.delaySec ≠ 0 → ∃ earliest ≤ env.now,
        s.timer proposer name = some (prop.packedTransaction, earliest)) := by
  simp only [exec, requireAuth, Except.bind_ok_iff, check_ok_iff, exists_const,
    getProposal_ok_iff, getApprovals_ok_iff] at hok
  obtain ⟨-, prop, hprop, -, -, _, ⟨info, hinfo, rfl⟩, hauth, hok⟩ := hok
  have hauthorizes : s.authorizes trxIsAuthorized proposer name [] = true := by
    rw [authorizes_of_find? hprop hinfo, List.append_nil]
    exact hauth
  cases he : prop.earliestExecTime with
  | none =>
    simp only [he, Except.bind_ok_iff, check_ok_iff, exists_const, Except.pure_ok_iff,
      Prod.mk.injEq] at hok
    obtain ⟨hdelay, hs, hout⟩ := hok
    exact ⟨hs.symm, hauthorizes, prop, hprop, hout.symm, fun h => absurd hdelay h⟩
  | some earliest =>
    simp only [he] at hok
    by_cases hzero : earliest ≠ 0
    · simp only [if_pos hzero, Except.bind_ok_iff, check_ok_iff, exists_const,
        Except.pure_ok_iff, Prod.mk.injEq] at hok
      obtain ⟨hle, hs, hout⟩ := hok
      refine ⟨hs.symm, hauthorizes, prop, hprop, hout.symm, fun _ => ⟨earliest, hle, ?_⟩⟩
      exact timer_eq_some_iff.mpr ⟨prop, hprop, he, hzero, rfl⟩
    · simp only [if_neg hzero, Except.bind_ok_iff, check_ok_iff, exists_const,
        Except.pure_ok_iff, Prod.mk.injEq] at hok
      obtain ⟨hdelay, hs, hout⟩ := hok
      exact ⟨hs.symm, hauthorizes, prop, hprop, hout.symm, fun h => absurd hdelay h⟩

/-- Approvals of the account that invalidates do not stand any more. -/
theorem invalidate_kept {account : Name}
    (hmono : ∀ trx l l', l ⊆ l' → trxIsAuthorized trx l = true → trxIsAuthorized trx l' = true)
    (hrec : s.Recorded env.now) (hok : invalidate env s account = .ok (s', out))
    (hb : s'.timer p n = some b) : Kept trxIsAuthorized s s' p n b := by
  simp only [invalidate, requireAuth, Except.bind_ok_iff, check_ok_iff, exists_const,
    Except.pure_ok_iff, Prod.mk.injEq] at hok
  obtain ⟨-, rfl, -⟩ := hok
  have hstands (a : Approval) (ha : State.isStanding { s with
      invalidations := s.invalidations.set ⟨account, env.now⟩ } a = true) :
      s.isStanding a = true := by
    simp only [State.isStanding, Table.find?_set] at ha ⊢
    by_cases hactor : account = a.level.actor
    · cases hi : s.invalidations.find? a.level.actor with
      | none => rfl
      | some i =>
        have hle := hrec i (Table.mem_of_find? hi)
        simp only [if_pos hactor, decide_eq_true_eq] at ha ⊢
        exact lt_of_le_of_lt hle ha
    · simpa only [if_neg hactor] using ha
  obtain ⟨trx, earliest⟩ := b
  obtain ⟨prop, hprop, -⟩ := timer_eq_some_iff.mp hb
  cases hinfo : s.approvals.find? (toLex (p, n)) with
  | none =>
    refine ⟨hb, fun h => ?_⟩
    simp only [State.authorizes, hprop, hinfo] at h
    cases h
  | some info =>
    refine kept_of_subset hmono hprop hprop hinfo hinfo (fun level hlevel => ?_) hb
    simp only [State.standing, List.mem_map, List.mem_filter] at hlevel ⊢
    obtain ⟨a, ⟨ha, hs⟩, rfl⟩ := hlevel
    exact ⟨a, ⟨ha, hstands a hs⟩, rfl⟩

theorem find?_set_provide {k : Name ×ₗ Name} {info : ApprovalsInfo} (level : PermissionLevel)
    (now : TimePoint) (h : s.approvals.find? k = some info) :
    (s.approvals.set (info.provide level now)).find? k = some (info.provide level now) := by
  have hkey := Table.key_of_find? h
  have hkey' : toLex ((info.provide level now).proposer, (info.provide level now).proposalName) =
    k := hkey
  rw [Table.find?_set, if_pos hkey']

theorem find?_set_takeBack {k : Name ×ₗ Name} {info : ApprovalsInfo} (level : PermissionLevel)
    (now : TimePoint) (h : s.approvals.find? k = some info) :
    (s.approvals.set (info.takeBack level now)).find? k = some (info.takeBack level now) := by
  have hkey := Table.key_of_find? h
  have hkey' : toLex ((info.takeBack level now).proposer, (info.takeBack level now).proposalName) =
    k := hkey
  rw [Table.find?_set, if_pos hkey']

/-- The proposal keeps its row, or its timer is stopped. -/
theorem unapprove_ok {proposer name : Name} {level : PermissionLevel}
    (hok : unapprove trxIsAuthorized env s proposer name level = .ok (s', out)) :
    ∃ info prop, s.approvals.find? (toLex (proposer, name)) = some info ∧
      s.proposals.find? (toLex (proposer, name)) = some prop ∧
      (s' = { s with approvals := s.approvals.set (info.takeBack level env.now) } ∨
        s' = { s with
          approvals := s.approvals.set (info.takeBack level env.now)
          proposals := s.proposals.set { prop with earliestExecTime := some 0 } }) := by
  simp only [unapprove, Except.bind_ok_iff, check_ok_iff, exists_const, getApprovalsInfo_ok_iff,
    getProposal_ok_iff] at hok
  obtain ⟨-, info, hinfo, -, prop, hprop, hok⟩ := hok
  refine ⟨info, prop, hinfo, hprop, ?_⟩
  cases he : prop.earliestExecTime with
  | none =>
    simp only [he, Except.bind_ok_iff, check_ok_iff, exists_const, Except.pure_ok_iff,
      Prod.mk.injEq] at hok
    exact .inl hok.2.1.symm
  | some earliest =>
    simp only [he] at hok
    split_ifs at hok
    · simp only [Except.bind_ok_iff] at hok
      obtain ⟨_, -, hok⟩ := hok
      split_ifs at hok
      · simp only [Except.pure_ok_iff, Prod.mk.injEq] at hok
        exact .inl hok.1.symm
      · simp only [Except.pure_ok_iff, Prod.mk.injEq] at hok
        exact .inr hok.1.symm
    · simp only [Except.pure_ok_iff, Prod.mk.injEq] at hok
      exact .inl hok.1.symm

/-- The proposal keeps its row, or its timer starts with the transaction authorised. -/
theorem approve_ok {proposer name : Name} {level : PermissionLevel} {hash : Option ℕ}
    (hok : approve trxIsAuthorized env s proposer name level hash = .ok (s', out)) :
    s.admits env proposer name level hash = true ∧
    ∃ info prop, s.approvals.find? (toLex (proposer, name)) = some info ∧
      s.proposals.find? (toLex (proposer, name)) = some prop ∧
      (s' = { s with approvals := s.approvals.set (info.provide level env.now) } ∨
        s' = { s with
          approvals := s.approvals.set (info.provide level env.now)
          proposals := s.proposals.set { prop with
            earliestExecTime := some (env.now + seconds prop.packedTransaction.delaySec) } } ∧
        trxIsAuthorized prop.packedTransaction
          (s.standing (info.provide level env.now).providedApprovals) = true) := by
  simp only [approve, Except.bind_ok_iff, check_ok_iff, exists_const, getApprovalsInfo_ok_iff,
    getProposal_ok_iff] at hok
  obtain ⟨hlevel, prop, hprop, hhash, info, hinfo, hrequested, hok⟩ := hok
  have hadmits : s.admits env proposer name level hash = true := by
    simp only [State.admits, hprop, hinfo, hlevel, hrequested, Bool.true_and, Bool.and_true,
      Option.all_eq_true, decide_eq_true_eq]
    exact hhash
  refine ⟨hadmits, info, prop, hinfo, hprop, ?_⟩
  cases he : prop.earliestExecTime with
  | none =>
    simp only [he, Except.bind_ok_iff, check_ok_iff, exists_const, Except.pure_ok_iff,
      Prod.mk.injEq] at hok
    exact .inl hok.2.1.symm
  | some earliest =>
    simp only [he] at hok
    split_ifs at hok
    · simp only [Except.bind_ok_iff, getApprovals_ok_iff, find?_set_provide level env.now hinfo,
        Option.some.injEq, exists_eq_left'] at hok
      split_ifs at hok with hauth
      · simp only [Except.pure_ok_iff, Prod.mk.injEq] at hok
        exact .inr ⟨hok.1.symm, hauth⟩
      · simp only [Except.pure_ok_iff, Prod.mk.injEq] at hok
        exact .inl hok.1.symm
    · simp only [Except.pure_ok_iff, Prod.mk.injEq] at hok
      exact .inl hok.1.symm

/-- Without the first approval of a level, fewer approvals stand. -/
theorem unapprove_kept {proposer name : Name} {level : PermissionLevel}
    (hmono : ∀ trx l l', l ⊆ l' → trxIsAuthorized trx l = true → trxIsAuthorized trx l' = true)
    (hok : unapprove trxIsAuthorized env s proposer name level = .ok (s', out))
    (hb : s'.timer p n = some b) : Kept trxIsAuthorized s s' p n b := by
  obtain ⟨info, prop, hinfo, hprop, hcases⟩ := unapprove_ok hok
  have hkey := Table.key_of_find? hinfo
  have hkey' := Table.key_of_find? hprop
  by_cases hsame : toLex (proposer, name) = toLex (p, n)
  · obtain ⟨rfl, rfl⟩ := Prod.mk.inj (toLex_inj.mp hsame)
    rcases hcases with rfl | rfl
    · exact kept_of_subset hmono hprop hprop hinfo (find?_set_takeBack level env.now hinfo)
        (standing_subset (s := s) List.eraseP_subset) hb
    · obtain ⟨trx, earliest⟩ := b
      obtain ⟨prop', hprop', he, hne, -⟩ := timer_eq_some_iff.mp hb
      rw [Table.find?_set, if_pos hkey', Option.some.injEq] at hprop'
      subst hprop'
      exact absurd (Option.some.inj he).symm hne
  · have hother := fun h => hsame (hkey.symm.trans h)
    have hother' := fun h => hsame (hkey'.symm.trans h)
    rcases hcases with rfl | rfl
    · exact kept_of_eq rfl (Table.find?_set_ne _ hother) rfl hb
    · exact kept_of_eq (Table.find?_set_ne _ hother') (Table.find?_set_ne _ hother) rfl hb

/-- An approval starts the timer of a proposal that it authorises, or keeps a running timer. -/
theorem approve_timer {proposer name : Name} {level : PermissionLevel} {hash : Option ℕ}
    (hrestore : Transaction.restores trxIsAuthorized ⟨env, .approve proposer name level hash⟩ s p n =
      false)
    (hok : approve trxIsAuthorized env s proposer name level hash = .ok (s', out))
    (hb : s'.timer p n = some b) :
    (s'.authorizes trxIsAuthorized p n [] = true ∧ b.2 = env.now + seconds b.1.delaySec) ∨
      Kept trxIsAuthorized s s' p n b := by
  obtain ⟨hadmits, info, prop, hinfo, hprop, hcases⟩ := approve_ok hok
  have hkey := Table.key_of_find? hinfo
  have hkey' := Table.key_of_find? hprop
  by_cases hsame : toLex (proposer, name) = toLex (p, n)
  · obtain ⟨rfl, rfl⟩ := Prod.mk.inj (toLex_inj.mp hsame)
    have hset := find?_set_provide level env.now hinfo
    rcases hcases with rfl | ⟨rfl, hauth⟩
    · refine .inr ⟨hb, fun h => ?_⟩
      have hbefore : s.timer proposer name = some b := hb
      have hmore : s.authorizes trxIsAuthorized proposer name [⟨level, env.now⟩] = true := by
        rw [authorizes_of_find? hprop hinfo]
        simp only [State.authorizes, hprop, hset, List.append_nil] at h
        exact h
      simpa [Transaction.restores, hadmits, hbefore, hmore] using hrestore
    · obtain ⟨trx, earliest⟩ := b
      obtain ⟨prop', hprop', he, hne, rfl⟩ := timer_eq_some_iff.mp hb
      have hrow := hprop'
      rw [Table.find?_set, if_pos hkey', Option.some.injEq] at hrow
      subst hrow
      refine .inl ⟨?_, (Option.some.inj he).symm⟩
      simp only [State.authorizes, hprop', hset, List.append_nil]
      exact hauth
  · have hother := fun h => hsame (hkey.symm.trans h)
    have hother' := fun h => hsame (hkey'.symm.trans h)
    rcases hcases with rfl | ⟨rfl, -⟩
    · exact .inr (kept_of_eq rfl (Table.find?_set_ne _ hother) rfl hb)
    · exact .inr (kept_of_eq (Table.find?_set_ne _ hother') (Table.find?_set_ne _ hother) rfl hb)

/-- One action starts the timer of an authorised proposal, or keeps it without restoring the
authorisation. -/
theorem transact_timer {tx : Transaction}
    (hmono : ∀ trx l l', l ⊆ l' → trxIsAuthorized trx l = true → trxIsAuthorized trx l' = true)
    (hrestore : tx.restores trxIsAuthorized s p n = false) (hrec : s.Recorded tx.env.now)
    (hok : transact trxIsAuthorized tx s = .ok (s', out)) (hb : s'.timer p n = some b) :
    (s'.authorizes trxIsAuthorized p n [] = true ∧ b.2 = tx.env.now + seconds b.1.delaySec) ∨
      Kept trxIsAuthorized s s' p n b := by
  obtain ⟨env, action⟩ := tx
  cases action with
  | propose => exact .inr (propose_kept hok hb)
  | approve => exact approve_timer hrestore hok hb
  | unapprove => exact .inr (unapprove_kept hmono hok hb)
  | cancel => exact .inr (cancel_kept hok hb)
  | exec => exact .inr (erase_kept (exec_ok hok).1 hb)
  | invalidate => exact .inr (invalidate_kept hmono hrec hok hb)

-- ---------------------------------------------------------------------------
-- Invalidations
-- ---------------------------------------------------------------------------

/-- Only an invalidation writes the table of invalidations. -/
theorem transact_invalidations {tx : Transaction} (hok : transact trxIsAuthorized tx s = .ok (s', out)) :
    s'.invalidations = s.invalidations ∨
      ∃ account, s'.invalidations = s.invalidations.set ⟨account, tx.env.now⟩ := by
  obtain ⟨env, action⟩ := tx
  cases action with
  | propose =>
    simp only [transact, propose, requireAuth, Except.bind_ok_iff, check_ok_iff, exists_const,
      Except.pure_ok_iff, Prod.mk.injEq] at hok
    obtain ⟨-, -, -, -, -, -, rfl, -⟩ := hok
    exact .inl rfl
  | approve =>
    obtain ⟨-, info, prop, -, -, rfl | ⟨rfl, -⟩⟩ := approve_ok hok
    · exact .inl rfl
    · exact .inl rfl
  | unapprove =>
    obtain ⟨info, prop, -, -, rfl | rfl⟩ := unapprove_ok hok
    · exact .inl rfl
    · exact .inl rfl
  | cancel proposer name canceler =>
    simp only [transact, cancel, requireAuth, Except.bind_ok_iff, check_ok_iff, exists_const,
      Except.pure_ok_iff, Prod.mk.injEq] at hok
    obtain ⟨-, _, -, -, _, -, rfl, -⟩ := hok
    exact .inl rfl
  | exec =>
    rw [(exec_ok hok).1]
    exact .inl rfl
  | invalidate account =>
    simp only [transact, invalidate, requireAuth, Except.bind_ok_iff, check_ok_iff, exists_const,
      Except.pure_ok_iff, Prod.mk.injEq] at hok
    obtain ⟨-, rfl, -⟩ := hok
    exact .inr ⟨account, rfl⟩

theorem transact_recorded {tx : Transaction} {t : TimePoint}
    (hok : transact trxIsAuthorized tx s = .ok (s', out)) (h : s.Recorded t) (ht : tx.env.now ≤ t) :
    s'.Recorded t := by
  intro i hi
  rcases transact_invalidations hok with heq | ⟨account, heq⟩
  · exact h i (heq ▸ hi)
  · rw [heq] at hi
    rcases Table.mem_set.mp hi with rfl | ⟨hi, -⟩
    · exact ht
    · exact h i hi

/-- In a run in order of time, what is recorded is never later than the next action. -/
theorem along_recorded {txs : List Transaction}
    (hsorted : txs.Pairwise fun tx tx' => tx.env.now ≤ tx'.env.now)
    (h : ∀ tx ∈ txs, s.Recorded tx.env.now) :
    Run.Along (transact trxIsAuthorized) (fun s tx => s.Recorded tx.env.now) s txs := by
  induction txs generalizing s with
  | nil => trivial
  | cons tx txs ih =>
    obtain ⟨hfirst, hrest⟩ := List.pairwise_cons.mp hsorted
    refine ⟨h tx List.mem_cons_self, ih hrest fun tx' htx' => ?_⟩
    have hbefore := h tx' (List.mem_cons_of_mem tx htx')
    cases he : transact trxIsAuthorized tx s with
    | error e => simpa only [Run.next_error he] using hbefore
    | ok r =>
      rw [Run.next_ok he]
      exact transact_recorded he hbefore (hfirst tx' htx')

-- ---------------------------------------------------------------------------
-- Execution
-- ---------------------------------------------------------------------------

/-- In every run in order of time in which no approval restores the authorisation of a proposal
with a running timer: when the proposal is executed at `env.now`, its approvals authorise it in
every state the contract was in from `env.now` less the delay on. A state after `pre` was one of
them when every later action comes after that time. -/
theorem exec_approvals_stood
    (hmono : ∀ trx l l', l ⊆ l' → trxIsAuthorized trx l = true → trxIsAuthorized trx l' = true)
    (proposer proposalName executer : Name) (txs : List Transaction) (env : Env)
    (hsorted : txs.Pairwise fun tx tx' => tx.env.now ≤ tx'.env.now)
    (hrestore : Run.Along (transact trxIsAuthorized)
      (fun s tx => tx.restores trxIsAuthorized s proposer proposalName = false) {} txs)
    (s' : State) (out : List ℕ)
    (hok : exec trxIsAuthorized env (State.final trxIsAuthorized {} txs) proposer proposalName
      executer = .ok (s', out)) :
    ∃ prop, (State.final trxIsAuthorized {} txs).proposals.find? (toLex (proposer, proposalName)) =
        some prop ∧
      out = prop.packedTransaction.actions ∧
      (prop.packedTransaction.delaySec ≠ 0 → ∀ pre post, txs = pre ++ post →
        (∀ tx ∈ post, env.now < tx.env.now + seconds prop.packedTransaction.delaySec) →
        (∃ prop', (State.final trxIsAuthorized {} pre).proposals.find?
            (toLex (proposer, proposalName)) = some prop' ∧
          prop'.packedTransaction = prop.packedTransaction) ∧
        (State.final trxIsAuthorized {} pre).authorizes trxIsAuthorized proposer proposalName [] =
          true) := by
  obtain ⟨-, hauth, prop, hprop, hout, htimer⟩ := exec_ok hok
  refine ⟨prop, hprop, hout, fun hdelay pre post hsplit hpost => ?_⟩
  obtain ⟨earliest, hle, hmark⟩ := htimer hdelay
  have hrec : Run.Along (transact trxIsAuthorized) (fun s tx => s.Recorded tx.env.now) {} txs :=
    along_recorded hsorted fun tx _ i hi => nomatch hi
  have hboth : Run.Along (transact trxIsAuthorized) (fun s tx =>
      tx.restores trxIsAuthorized s proposer proposalName = false ∧ s.Recorded tx.env.now) {} txs :=
    Run.along_and.mpr ⟨hrestore, hrec⟩
  obtain ⟨start, tx, rest, rfl, hset, hstood⟩ := Run.held_since
    (fun s => s.timer proposer proposalName)
    (fun s => s.authorizes trxIsAuthorized proposer proposalName [] = true)
    (fun tx b => b.2 = tx.env.now + seconds b.1.delaySec)
    (fun s tx s₁ out₁ b hP hok₁ hb => transact_timer hmono hP.1 hP.2 hok₁ hb)
    rfl hboth hmark hauth
  -- the timer was started no later than the delay before, so its start is part of `pre`
  have hnot : tx ∉ post := fun htx => by
    have hlt := hpost tx htx
    rw [← hset] at hlt
    exact absurd hle hlt.not_ge
  have hstart : ∃ rest₁, pre = start ++ tx :: rest₁ ∧ ∃ rest₂, rest = rest₁ ++ rest₂ := by
    rcases List.append_eq_append_iff.mp hsplit with ⟨as, hpre, hrest⟩ | ⟨cs, -, rfl⟩
    · cases as with
      | nil =>
        rw [List.nil_append] at hrest
        exact absurd (hrest ▸ List.mem_cons_self : tx ∈ post) hnot
      | cons a as =>
        obtain ⟨rfl, rfl⟩ := List.cons.inj hrest
        exact ⟨as, hpre, post, rfl⟩
    · exact absurd (List.mem_append_right cs List.mem_cons_self) hnot
  obtain ⟨rest₁, rfl, rest₂, rfl⟩ := hstart
  obtain ⟨hkept, hgood⟩ := hstood rest₁ rest₂ rfl
  obtain ⟨prop', hprop', -, -, htrx⟩ := timer_eq_some_iff.mp hkept
  exact ⟨⟨prop', hprop', htrx⟩, hgood⟩

end Delay

-- ---------------------------------------------------------------------------
-- Two runs
-- ---------------------------------------------------------------------------

section Examples

private def alice : PermissionLevel := ⟨1, 7⟩
private def bob : PermissionLevel := ⟨2, 7⟩

/-- One of the two is enough. -/
private def oneOfTwo (_ : Trx) (levels : List PermissionLevel) : Bool :=
  levels.any fun l => l = alice ∨ l = bob

/-- At a second, with every authority. -/
private def at_ (sec : ℕ) : Env :=
  { now := seconds sec, hasAuth := fun _ => true, hasLevel := fun _ => true }

/-- A transaction with a delay of 10 seconds, proposed by account 3 and approved by the first
of the two in second 2. -/
private def approved : List Transaction :=
  [⟨at_ 1, .propose 3 9 [alice, bob] ⟨100, 10, [], [5]⟩⟩, ⟨at_ 2, .approve 3 9 alice none⟩]

theorem exec_approvals_stood_approved :
    ∃ s' out, exec oneOfTwo (at_ 12) (State.final oneOfTwo {} approved) 3 9 4 = .ok (s', out) ∧
      out = [5] ∧ (State.final oneOfTwo {} approved).authorizes oneOfTwo 3 9 [] = true := by
  have hmono (trx : Trx) (l l' : List PermissionLevel) (h : l ⊆ l')
      (hl : oneOfTwo trx l = true) : oneOfTwo trx l' = true := by
    obtain ⟨level, hmem, hlevel⟩ := List.any_eq_true.mp hl
    exact List.any_eq_true.mpr ⟨level, h hmem, hlevel⟩
  obtain ⟨⟨s', out⟩, hok⟩ := abortOf_eq_none_iff.mp (show abortOf (exec oneOfTwo (at_ 12)
    (State.final oneOfTwo {} approved) 3 9 4) = none by decide +kernel)
  obtain ⟨prop, hprop, hout, hstood⟩ := exec_approvals_stood hmono 3 9 4 approved (at_ 12)
    (by decide) ⟨rfl, rfl, trivial⟩ s' out hok
  obtain rfl := Option.some.inj hprop
  exact ⟨s', out, hok, hout, (hstood (by decide) approved [] rfl nofun).2⟩

/-- The approval is invalidated in second 5 and the other one given in second 8. The transaction is
executed in second 12, though nothing authorised it in second 6. -/
theorem exec_after_invalidation :
    (∃ s' out, exec oneOfTwo (at_ 12) (State.final oneOfTwo {} (approved ++
      [⟨at_ 5, .invalidate 1⟩, ⟨at_ 8, .approve 3 9 bob none⟩])) 3 9 4 = .ok (s', out)) ∧
    (State.final oneOfTwo {} (approved ++ [⟨at_ 5, .invalidate 1⟩])).authorizes oneOfTwo 3 9 [] =
      false := by
  obtain ⟨⟨s', out⟩, hok⟩ := abortOf_eq_none_iff.mp (show abortOf (exec oneOfTwo (at_ 12)
    (State.final oneOfTwo {} (approved ++
      [⟨at_ 5, .invalidate 1⟩, ⟨at_ 8, .approve 3 9 bob none⟩])) 3 9 4) = none by decide +kernel)
  exact ⟨⟨s', out, hok⟩, by decide +kernel⟩

end Examples

end Amax.Msig
