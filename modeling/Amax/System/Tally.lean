-- SUMMARY: The elected votes of each producer are the votes of the voters that list it, and their total is their sum.
import Amax.System.Effect

/-! # The tally of elected votes

Votes move in three passes over the rows of the producers, and the row of the
voter follows at the end. Once elections are initialised the sums agree again
after every action, as long as no producer gets its election record while
voters already list it. -/

namespace Amax

-- ---------------------------------------------------------------------------
-- The tally
-- ---------------------------------------------------------------------------

/-- The votes of `v` that count for the producer `n`. -/
def VoterInfo.votesOn (v : VoterInfo) (n : Name) : ℤ :=
  if n ∈ v.producers.names then v.votes.amount else 0

/-- The votes of all voters that list the producer `n`. -/
def System.listedVotes (s : System) (n : Name) : ℤ := s.voters.sum (·.votesOn n)

/-- The elected votes of every producer and their total are right. -/
def System.Tally (s : System) : Prop :=
  (∀ p ∈ s.producers.rows, ∀ ext ∈ p.ext, ext.electedVotes = s.listedVotes p.owner) ∧
    s.electGstate.totalProducerElectedVotes = s.producers.sum (·.getElectedVotes)

instance (s : System) : Decidable s.Tally := inferInstanceAs (Decidable (_ ∧ _))

/-- The votes of a row are not negative, and in the vote symbol unless there are none. -/
def VoterInfo.Regular (v : VoterInfo) : Prop :=
  0 ≤ v.votes.amount ∧ (v.votes.symbol = voteSymbol ∨ v.votes.amount = 0)

instance (v : VoterInfo) : Decidable v.Regular := inferInstanceAs (Decidable (_ ∧ _))

/-- Elections are initialised, the voters are regular and the tally is right. -/
structure Counted (s : System) : Prop where
  init : s.electGstate.isInit
  regular : ∀ v ∈ s.voters.rows, v.Regular
  tally : s.Tally

/-- An action registers a producer that has an election record or has no votes. -/
def CountedStep (s : System) (tx : Transaction) : Prop :=
  ∀ n ∈ tx.action.registered, (s.producer n).ext.isSome ∨ s.listedVotes n = 0

instance (s : System) (tx : Transaction) : Decidable (CountedStep s tx) :=
  match h : tx.action.registered with
  | none => isTrue fun n hn => by simp [h] at hn
  | some n => decidable_of_iff ((s.producer n).ext.isSome ∨ s.listedVotes n = 0)
      (by simp [CountedStep, h])

theorem counted_outside {s : System} : Counted s.outside ↔ Counted s :=
  ⟨fun h => ⟨h.init, h.regular, h.tally⟩, fun h => ⟨h.init, h.regular, h.tally⟩⟩

namespace Counted

variable {s s' : System}

theorem voter_regular (h : Counted s) (n : Name) : (s.voter n).Regular := by
  cases hv : s.voters.find? n with
  | none =>
    rw [System.voter_of_none hv]
    exact ⟨le_rfl, .inl rfl⟩
  | some v =>
    rw [System.voter_of_find? hv]
    exact h.regular v (Table.mem_of_find? hv)

/-- The tally, for the row of a producer or the row that stands for it. -/
theorem votes_eq (h : Counted s) {n : Name} (hn : (s.producer n).ext.isSome) :
    (s.producer n).getElectedVotes = s.listedVotes n := by
  cases hp : s.producers.find? n with
  | none =>
    rw [System.producer_of_none hp] at hn
    cases hn
  | some p =>
    rw [System.producer_of_find? hp] at hn ⊢
    obtain ⟨ext, hext⟩ := Option.isSome_iff_exists.mp hn
    have := h.tally.1 p (Table.mem_of_find? hp) ext hext
    rw [Table.key_of_find? hp] at this
    rw [ProducerInfo.getElectedVotes, hext]
    exact this

theorem of_votes (hi : s.electGstate.isInit) (hr : ∀ v ∈ s.voters.rows, v.Regular)
    (hv : ∀ n, (s.producer n).ext.isSome → (s.producer n).getElectedVotes = s.listedVotes n)
    (ht : s.electGstate.totalProducerElectedVotes = s.producers.sum (·.getElectedVotes)) :
    Counted s := by
  refine ⟨hi, hr, fun p hp ext hext => ?_, ht⟩
  have hrow := System.producer_of_find? (Table.find?_of_mem hp)
  have := hv p.owner (by rw [hrow, hext]; rfl)
  rwa [hrow, ProducerInfo.getElectedVotes, hext] at this

/-- What the row `v` of a voter counts for each producer, once it is written. -/
theorem listedVotes_setVoter (s : System) (v : VoterInfo) (n : Name) :
    (s.voters.set v).sum (·.votesOn n) =
      s.listedVotes n - (s.voter v.owner).votesOn n + v.votesOn n :=
  s.sum_setVoter v (by simp [VoterInfo.votesOn, NameList.nil])

private theorem regular_setVoter (h : Counted s) {v : VoterInfo} (hv : v.Regular) :
    ∀ w ∈ (s.voters.set v).rows, w.Regular := by
  intro w hw
  rcases Table.mem_set.mp hw with rfl | ⟨hw, -⟩
  · exact hv
  · exact h.regular w hw

/-- A row of a producer written with the votes it had. -/
private theorem setProducer (h : Counted s) {row : ProducerInfo}
    (hvotes : row.getElectedVotes = (s.producer row.owner).getElectedVotes)
    (hext : row.ext.isSome → (s.producer row.owner).ext.isSome ∨ s.listedVotes row.owner = 0) :
    Counted (s.setProducer row) := by
  refine of_votes h.init h.regular (fun n hn => ?_) ?_
  · rw [System.producer_setProducer] at hn ⊢
    split_ifs at hn ⊢ with ho
    · subst ho
      rw [hvotes]
      by_cases hold : (s.producer row.owner).ext.isSome
      · exact h.votes_eq hold
      · -- the first election record of a producer nobody votes for
        have hnone := Option.not_isSome_iff_eq_none.mp hold
        rw [ProducerInfo.getElectedVotes, hnone]
        exact ((hext hn).resolve_left hold).symm
    · exact h.votes_eq hn
  · rw [s.sum_setProducer row fun _ => rfl, hvotes, sub_add_cancel]
    exact h.tally.2

/-- A row of a voter written with the votes and the producers it had. -/
private theorem setVoter (h : Counted s) {gs : GlobalState} {v : VoterInfo}
    (hproducers : v.producers = (s.voter v.owner).producers) (hv : VoterRevision s v) :
    Counted { s with gstate := gs, voters := s.voters.set v } := by
  have hreg := h.voter_regular v.owner
  have hsame : v.Regular ∧ v.votes.amount = (s.voter v.owner).votes.amount := by
    unfold VoterInfo.Regular
    rcases hv with hv | hv
    · rw [hv]
      exact ⟨hreg, rfl⟩
    · rw [hv, VoterInfo.withVoteSymbol_amount hreg.2]
      exact ⟨⟨hreg.1, .inl (VoterInfo.withVoteSymbol_symbol _)⟩, rfl⟩
  refine of_votes h.init (h.regular_setVoter hsame.1) (fun n hn => ?_) h.tally.2
  show _ = (s.voters.set v).sum (·.votesOn n)
  rw [listedVotes_setVoter, VoterInfo.votesOn, VoterInfo.votesOn, hproducers, hsame.2,
    sub_add_cancel]
  exact h.votes_eq hn

/-- The votes of a voter move: from the producers the row listed to those it lists now. -/
private theorem moveVotes (h : Counted s) {t : System} {v : VoterInfo} (hv : v.Regular)
    (hinit : t.electGstate.isInit)
    (hext : ∀ n, (t.producer n).ext.isSome → (s.producer n).ext.isSome)
    (hvotes : ∀ n, (t.producer n).getElectedVotes =
      (s.producer n).getElectedVotes - (s.voter v.owner).votesOn n + v.votesOn n)
    (htotal : t.electGstate.totalProducerElectedVotes = t.producers.sum (·.getElectedVotes)) :
    Counted { t with voters := s.voters.set v } := by
  refine of_votes hinit (h.regular_setVoter hv) (fun n hn => ?_) htotal
  show (t.producer n).getElectedVotes = (s.voters.set v).sum (·.votesOn n)
  rw [listedVotes_setVoter, hvotes, h.votes_eq (hext n hn)]

private theorem blockStep (h : Counted s) (hs : BlockStep s s') : Counted s' := by
  have hpaid : ∀ {info : ProducerRewardInfo} {prod : ProducerInfo}, Payable s info prod →
      Counted (s.setProducer (prod.paid info.rewardsPerBlock)) := by
    intro info prod hp
    have hrow : s.producer (prod.paid info.rewardsPerBlock).owner = prod :=
      System.producer_of_find? hp.found
    refine h.setProducer (by rw [hrow]; rfl) fun hext => .inl ?_
    rw [hrow]
    exact hext
  cases hs with
  | rates => exact ⟨h.init, h.regular, h.tally⟩
  | main payable =>
    have := hpaid payable
    exact ⟨this.init, this.regular, this.tally⟩
  | backup payable =>
    have := hpaid payable
    exact ⟨this.init, this.regular, this.tally⟩

/-- Every effect keeps the tally. -/
theorem effect (h : Counted s) {a : Action} {sent : List Inline}
    (hc : ∀ n ∈ a.registered, (s.producer n).ext.isSome ∨ s.listedVotes n = 0)
    (he : Effect s a s' sent) : Counted s' := by
  have hnodup : ∀ l : NameList, l.names.Nodup := fun l => l.sorted.imp fun hlt => hlt.ne
  cases he with
  | keep => exact h
  | register quiet registered revision ext sends =>
    exact h.setProducer revision.votes fun _ => hc _ registered
  | revise quiet revision ext => exact h.setProducer revision.votes fun hn => .inl (ext ▸ hn)
  | settings quiet total main backup init =>
    exact ⟨init h.init, h.regular, h.tally.1, total.trans h.tally.2⟩
  | configure => exact ⟨h.init, h.regular, h.tally⟩
  | block produced =>
    exact produceRewards_preserves (P := Counted) produced h fun _ _ hs hstep => hs.blockStep hstep
  | voter quiet producers revision => exact h.setVoter producers revision
  | voteproducer notInit revision => exact absurd (notInit.symm.trans h.init) (by decide)
  | @addvote voter votes q symbol pos staked ext =>
    have hreg := h.voter_regular voter
    have hamount := VoterInfo.withVoteSymbol_amount hreg.2
    refine h.moveVotes (v := { (s.voter voter).withVoteSymbol with votes := _ })
      ⟨?_, .inl rfl⟩ ?_ (fun n hn => ?_) (fun n => ?_) ?_
    · have := hreg.1
      simp only [hamount]
      omega
    · rw [System.addVotesList_isInit]
      exact h.init
    · rw [System.ext_addVotesList, Bool.or_eq_true, decide_eq_true_eq] at hn
      exact hn.elim (ext n) id
    · rw [System.votes_addVotesList _ (hnodup _)]
      simp only [VoterInfo.withVoteSymbol_owner, System.voter_owner, VoterInfo.votesOn,
        VoterInfo.withVoteSymbol_producers, hamount]
      split_ifs <;> ring
    · have := s.total_addVotesList (s.voter voter).producers.names votes.amount
      have := h.tally.2
      omega
  | @subvote voter votes slot time symbol pos symbol_eq le fresh ext =>
    have hmoved : Counted { s.addVotesList (s.voter voter).producers.names (-votes.amount) with
        voters := s.voters.set { s.voter voter with
          votes := ⟨(s.voter voter).votes.amount - votes.amount, voteSymbol⟩
          lastUnvotedTime := slot } } := by
      refine h.moveVotes ⟨?_, .inl rfl⟩ ?_ (fun n hn => ?_) (fun n => ?_) ?_
      · simp only
        omega
      · rw [System.addVotesList_isInit]
        exact h.init
      · rw [System.ext_addVotesList, Bool.or_eq_true, decide_eq_true_eq] at hn
        exact hn.elim (ext n) id
      · rw [System.votes_addVotesList _ (hnodup _)]
        simp only [System.voter_owner, VoterInfo.votesOn]
        split_ifs <;> ring
      · have := s.total_addVotesList (s.voter voter).producers.names (-votes.amount)
        have := h.tally.2
        omega
    exact ⟨hmoved.init, hmoved.regular, hmoved.tally⟩
  | @vote voter producers slot nonneg ext =>
    have hreg := h.voter_regular voter
    have hamount := VoterInfo.withVoteSymbol_amount hreg.2
    refine h.moveVotes (v := { (s.voter voter).withVoteSymbol with
        producers, lastUnvotedTime := slot })
      ⟨hamount ▸ hreg.1, .inl (VoterInfo.withVoteSymbol_symbol _)⟩ ?_ (fun n hn => ?_)
      (fun n => ?_) ?_
    · rw [System.addVotesList_isInit, System.addVotesList_isInit]
      exact h.init
    · rw [System.ext_addVotesList, System.ext_addVotesList, Bool.or_eq_true, Bool.or_eq_true,
        decide_eq_true_eq, decide_eq_true_eq] at hn
      rcases hn with hn | hn | hn
      · exact ext n (List.mem_append_right _ hn)
      · exact ext n (List.mem_append_left _ hn)
      · exact hn
    · rw [System.votes_addVotesList _ (hnodup _), System.votes_addVotesList _ (hnodup _)]
      simp only [VoterInfo.withVoteSymbol_owner, System.voter_owner, VoterInfo.votesOn, hamount]
      split_ifs <;> ring
    · have h₁ := s.total_addVotesList (s.voter voter).producers.names
        (-(s.voter voter).votes.amount)
      have h₂ := (s.addVotesList (s.voter voter).producers.names
        (-(s.voter voter).votes.amount)).total_addVotesList producers.names
        (s.voter voter).votes.amount
      have := h.tally.2
      omega
  | refundvote => exact ⟨h.init, h.regular, h.tally⟩
  | @claimrewards submitter prod sent time found pos issued_eq =>
    have hrow := System.producer_of_find? found
    refine h.setProducer ?_ fun hn => .inl ?_
    · rw [hrow]
      rfl
    · rw [hrow]
      exact hn
  | @undoreward rewards prod time found pos le =>
    have hrow := System.producer_of_find? found
    refine h.setProducer ?_ fun hn => .inl ?_
    · rw [hrow]
      rfl
    · rw [hrow]
      exact hn

theorem transact (h : Counted s) {tx : Transaction} {sent : List Inline}
    (hc : CountedStep s tx) (hok : Amax.transact tx s = .ok (s', sent)) : Counted s' := by
  obtain ⟨s₁, he, hout⟩ := perform_effect (transact_ok_iff.mp hok).1
  have := counted_outside.mpr (h.effect hc he)
  rw [← hout] at this
  exact counted_outside.mp this

end Counted

-- ---------------------------------------------------------------------------
-- The checks of the tally
-- ---------------------------------------------------------------------------

/-- No producer has negative votes, and their total is right. -/
structure VotesNonneg (s : System) : Prop where
  votes : ∀ n, 0 ≤ (s.producer n).getElectedVotes
  total : s.electGstate.totalProducerElectedVotes = s.producers.sum (·.getElectedVotes)

theorem votesNonneg_congr {s t : System} (h : s.outside = t.outside) (ht : VotesNonneg t) :
    VotesNonneg s := by
  have hs : VotesNonneg s.outside := h ▸ ⟨ht.votes, ht.total⟩
  exact ⟨hs.votes, hs.total⟩

namespace VotesNonneg

variable {s : System}

theorem addVotesList (h : VotesNonneg s) {ns : List Name} (hns : ns.Nodup) {d : ℤ}
    (hd : ∀ n ∈ ns, 0 ≤ (s.producer n).getElectedVotes + d) : VotesNonneg (s.addVotesList ns d) := by
  refine ⟨fun n => ?_, ?_⟩
  · rw [System.votes_addVotesList _ hns]
    split_ifs with hn
    · exact hd n hn
    · rw [add_zero]
      exact h.votes n
  · have := s.total_addVotesList ns d
    have := h.total
    omega

/-- No producer loses more votes than the total has. -/
theorem total_nonneg (h : VotesNonneg s) {n : Name} {d : ℤ}
    (hd : 0 ≤ (s.producer n).getElectedVotes + d) :
    0 ≤ s.electGstate.totalProducerElectedVotes + d := by
  have hsum : ∀ p ∈ s.producers.rows, 0 ≤ p.getElectedVotes := fun p hp => by
    rw [← System.producer_of_find? (Table.find?_of_mem hp)]
    exact h.votes _
  have hle : (s.producer n).getElectedVotes ≤ s.producers.sum (·.getElectedVotes) := by
    cases hp : s.producers.find? n with
    | none =>
      rw [System.producer_of_none hp]
      exact Table.sum_nonneg hsum
    | some p =>
      rw [System.producer_of_find? hp]
      exact Table.le_sum_of_mem hsum (Table.mem_of_find? hp)
  rw [h.total]
  omega

theorem addElectedVotes_avoids (h : VotesNonneg s) {votesDelta : Asset} {isAdding : Bool} {n : Name}
    (hd : (s.producer n).ext.isSome → 0 ≤ (s.producer n).getElectedVotes + votesDelta.amount)
    (changes : ProposedProducerChanges) :
    Avoids .tally (addElectedVotes votesDelta isAdding s changes n) := by
  unfold addElectedVotes
  cases hp : s.producers.find? n with
  | none => exact .error (show Site.action ≠ Site.tally by decide)
  | some p =>
    refine .check_bind (by decide) fun _ => ?_
    cases hext : p.ext with
    | none => exact .error (show Site.action ≠ Site.tally by decide)
    | some ext =>
      have hrow := System.producer_of_find? hp
      replace hd := hd (by rw [hrow, hext]; rfl)
      have htotal : 0 ≤ s.electGstate.totalProducerElectedVotes + votesDelta.amount :=
        h.total_nonneg hd
      rw [hrow, ProducerInfo.getElectedVotes, hext] at hd
      refine .bind ?_ fun sum hsum => ?_
      · unfold Asset.add Asset.checkSum
        exact .check_bind (by decide) fun _ =>
          .bind (.check_bind (by decide) fun _ => .check (by decide)) fun _ _ => .ok _
      · obtain ⟨-, -, rfl⟩ := Asset.add_ok_iff.mp hsum
        refine .checked_bind hd (.checked_bind htotal (.ite ?_ (.ok _)))
        exact .bind (processElectedProducer_avoids (by decide) (by decide) _ _ _ _ _)
          fun _ _ => .ok _

theorem updateProducerElectedVotes_avoids (h : VotesNonneg s) {ns : List Name} (hns : ns.Nodup)
    {votesDelta : Asset} {isAdding : Bool}
    (hd : ∀ n ∈ ns, (s.producer n).ext.isSome →
      0 ≤ (s.producer n).getElectedVotes + votesDelta.amount)
    (changes : ProposedProducerChanges) :
    Avoids .tally (updateProducerElectedVotes ns votesDelta isAdding s changes) := by
  induction ns generalizing s changes with
  | nil => exact .ok _
  | cons n ns ih =>
    obtain ⟨hn, hns⟩ := List.nodup_cons.mp hns
    refine .bind (h.addElectedVotes_avoids (hd n List.mem_cons_self) changes) fun r hr => ?_
    obtain ⟨hext, hout⟩ := addElectedVotes_ok hr
    have hstep : VotesNonneg (s.addVotesList [n] votesDelta.amount) :=
      h.addVotesList (List.nodup_singleton n) fun m hm => by
        obtain rfl := List.mem_singleton.mp hm
        exact hd m List.mem_cons_self hext
    refine ih (votesNonneg_congr hout hstep) hns (fun m hm => ?_) r.2
    have hne : n ≠ m := fun he => hn (he ▸ hm)
    rw [System.producer_congr hout, System.producer_addVotes, if_neg hne]
    exact hd m (List.mem_cons_of_mem _ hm)

end VotesNonneg

/-- Each group can take the votes that are moved once the groups before it have. -/
def Movable (s : System) : List (List Name × Asset) → Prop
  | [] => True
  | group :: groups => group.1.Nodup ∧
      (∀ n ∈ group.1, (s.producer n).ext.isSome →
        0 ≤ (s.producer n).getElectedVotes + group.2.amount) ∧
      Movable (s.addVotesList group.1 group.2.amount) groups

theorem movable_congr {s t : System} (h : s.outside = t.outside) {groups : List (List Name × Asset)}
    (ht : Movable t groups) : Movable s groups := by
  induction groups generalizing s t with
  | nil => trivial
  | cons group groups ih =>
    obtain ⟨hnodup, hd, hrest⟩ := ht
    refine ⟨hnodup, fun n hn => System.producer_congr h n ▸ hd n hn, ih ?_ hrest⟩
    rw [System.addVotesList_outside, System.addVotesList_outside, h]

theorem VotesNonneg.moveElectedVotes_avoids {s : System} (h : VotesNonneg s) (env : Env)
    {groups : List (List Name × Asset)} (hm : Movable s groups) :
    Avoids .tally (moveElectedVotes env s groups) := by
  have hfold : ∀ (groups : List (List Name × Asset)) (s : System)
      (changes : ProposedProducerChanges), VotesNonneg s → Movable s groups →
      Avoids .tally (groups.foldlM (fun (r : System × ProposedProducerChanges) group =>
        updateProducerElectedVotes group.1 group.2 false r.1 r.2) (s, changes)) := by
    intro groups
    induction groups with
    | nil => exact fun _ _ _ _ => .ok _
    | cons group groups ih =>
      intro s changes h hm
      obtain ⟨hnodup, hd, hrest⟩ := hm
      refine .bind (h.updateProducerElectedVotes_avoids hnodup hd changes) fun r hr => ?_
      obtain ⟨hext, hout⟩ := updateProducerElectedVotes_ok hr
      have hnext := h.addVotesList hnodup fun n hn => hd n hn (hext n hn)
      exact ih r.1 r.2 (votesNonneg_congr hout hnext) (movable_congr hout hrest)
  unfold moveElectedVotes
  exact .bind (hfold groups s {} h hm) fun _ _ => saveProducerChanges_avoids (by decide) env _ _

namespace Counted

variable {s : System}

theorem votesNonneg (h : Counted s) : VotesNonneg s := by
  refine ⟨fun n => ?_, h.tally.2⟩
  by_cases hext : (s.producer n).ext.isSome
  · rw [h.votes_eq hext]
    refine Table.sum_nonneg fun v hv => ?_
    unfold VoterInfo.votesOn
    split_ifs
    · exact (h.regular v hv).1
    · exact le_rfl
  · rw [ProducerInfo.getElectedVotes, Option.not_isSome_iff_eq_none.mp hext]

/-- A producer has at least the votes of each voter that lists it. -/
theorem votes_le (h : Counted s) {v : VoterInfo} (hv : v ∈ s.voters.rows) {n : Name}
    (hn : n ∈ v.producers.names) (hext : (s.producer n).ext.isSome) :
    v.votes.amount ≤ (s.producer n).getElectedVotes := by
  rw [h.votes_eq hext]
  have hle : v.votesOn n ≤ s.listedVotes n := by
    refine Table.le_sum_of_mem (fun w hw => ?_) hv
    unfold VoterInfo.votesOn
    split_ifs
    · exact (h.regular w hw).1
    · exact le_rfl
  rwa [VoterInfo.votesOn, if_pos hn] at hle

theorem addvote_avoids (h : Counted s) (env : Env) (voter : Name) (votes : Asset) :
    Avoids .tally (addvote env s voter votes) := by
  unfold addvote requireAuth voteToCoreAsset System.coreSymbol Asset.make
  refine .check_bind (by decide) fun _ => .check_bind (by decide) fun _ =>
    .check_bind (by decide) fun hpos => .bind ?_ fun q _ => ?_
  · exact .check_bind (by decide) fun _ => .bind (.check_bind (by decide) fun _ => .ok _) fun _ _ =>
      .check_bind (by decide) fun _ => .check_bind (by decide) fun _ => .ok _
  · cases hv : s.voters.find? voter with
    | none =>
      unfold payRow
      exact .check_bind (by decide) fun _ => .ok _
    | some v =>
      have hnodup : v.producers.names.Nodup := v.producers.sorted.imp fun hlt => hlt.ne
      have hmove : Movable s [(v.producers.names, votes)] :=
        ⟨hnodup, fun n _ _ => add_nonneg (h.votesNonneg.votes n) hpos.le, trivial⟩
      refine .bind (.ite (h.votesNonneg.moveElectedVotes_avoids env hmove) (.ok _)) fun _ _ => ?_
      exact .bind (Asset.add_avoids (by decide) _ _) fun _ _ => .ok _

theorem subvote_avoids (h : Counted s) (env : Env) (voter : Name) (votes : Asset) :
    Avoids .tally (subvote env s voter votes) := by
  unfold subvote requireAuth
  refine .check_bind (by decide) fun _ => .check_bind (by decide) fun _ =>
    .check_bind (by decide) fun _ => .check_bind (by decide) fun hpos => ?_
  cases hv : s.voters.find? voter with
  | none => exact .error (show Site.action ≠ Site.tally by decide)
  | some v =>
    refine .bind ?_ fun le hle => .check_bind (by decide) fun hcheck => ?_
    · unfold Asset.le
      exact .check_bind (by decide) fun _ => .ok _
    · have hamount : votes.amount ≤ v.votes.amount := by
        obtain ⟨-, hle⟩ := Asset.le_ok_iff.mp hle
        rwa [hcheck, decide_eq_true_eq] at hle
      have hnodup : v.producers.names.Nodup := v.producers.sorted.imp fun hlt => hlt.ne
      have hmove : Movable s [(v.producers.names, votes.neg)] := by
        refine ⟨hnodup, fun n hn hext => ?_, trivial⟩
        have := h.votes_le (Table.mem_of_find? hv) hn hext
        rw [Asset.neg_amount]
        omega
      refine .check_bind (by decide) fun _ => .check_bind (by decide) fun _ =>
        .bind (h.votesNonneg.moveElectedVotes_avoids env hmove) fun _ _ => ?_
      unfold payRow
      exact .bind (Asset.add_avoids (by decide) _ _) fun _ _ => .check_bind (by decide) fun _ => .ok _

theorem vote_avoids (h : Counted s) (env : Env) (voter : Name) (producers : List Name) :
    Avoids .tally (vote env s voter producers) := by
  unfold vote requireAuth sortedNames
  refine .check_bind (by decide) fun _ => .check_bind (by decide) fun _ => .bind ?_ fun list _ => ?_
  · split_ifs
    · exact .ok _
    · exact .error (show Site.action ≠ Site.tally by decide)
  · cases hv : s.voters.find? voter with
    | none => exact .error (show Site.action ≠ Site.tally by decide)
    | some v =>
      refine .check_bind (by decide) fun hnonneg => .ite (.ok _) (.check_bind (by decide) fun _ => ?_)
      have hnodup : ∀ l : NameList, l.names.Nodup := fun l => l.sorted.imp fun hlt => hlt.ne
      have hmove : Movable s [(v.producers.names, v.votes.neg), ([], ⟨0, voteSymbol⟩),
          (list.names, v.votes)] := by
        refine ⟨hnodup _, fun n hn hext => ?_, List.nodup_nil, fun n hn => absurd hn List.not_mem_nil,
          hnodup _, fun n _ _ => ?_, trivial⟩
        · have := h.votes_le (Table.mem_of_find? hv) hn hext
          rw [Asset.neg_amount]
          omega
        · -- what the first pass took, if it did, comes back
          have := h.votesNonneg.votes n
          rw [System.votes_addVotesList _ List.nodup_nil, System.votes_addVotesList _ (hnodup _),
            Asset.neg_amount]
          dsimp only
          split_ifs <;> omega
      rw [voteDiff_eq]
      exact .bind (h.votesNonneg.moveElectedVotes_avoids env hmove) fun _ _ => .ok _

end Counted

-- ---------------------------------------------------------------------------
-- Runs
-- ---------------------------------------------------------------------------

/-- Once elections are initialised every run keeps the tally, as long as no
producer with votes gets its first election record, and no vote fails on it. -/
theorem tally_exact {s : System} (h : Counted s) {txs : List Transaction}
    (hc : Run.Along transact CountedStep s txs) :
    (s.final txs).Tally ∧
      (∀ env voter votes, Avoids .tally (addvote env (s.final txs) voter votes)) ∧
      (∀ env voter votes, Avoids .tally (subvote env (s.final txs) voter votes)) ∧
      ∀ env voter producers, Avoids .tally (vote env (s.final txs) voter producers) := by
  have hrun : Counted (s.final txs) :=
    Run.invariant (fun s tx s' sent hs hp hok => hs.transact hp hok) h hc
  exact ⟨hrun.tally, hrun.addvote_avoids, hrun.subvote_avoids, hrun.vote_avoids⟩

/-- A chain with a producer that has no election record yet, or has one. -/
private def legacyChain (ext : Option ProducerInfoExt) : System where
  gstate := { coreSymbol := ⟨['A', 'M', 'A', 'X'], 8⟩ }
  producers := Table.empty.set ⟨1, true, 1, ⟨0, ⟨['A', 'M', 'A', 'X'], 8⟩⟩, .none, ext, true⟩

private def afternoon : Env := { now := seconds 1800000000, hasAuth := fun _ => true }

/-- A vote after elections are initialised, with a producer that has its record. -/
theorem tally_exact_vote :
    let s := (legacyChain (some {})).final [⟨afternoon, .upgradevote⟩]
    let txs : List Transaction := [⟨afternoon, .addvote 2 ⟨100, voteSymbol⟩⟩,
      ⟨afternoon, .vote 2 [1]⟩, ⟨afternoon, .regproducer 1 5 "" none⟩]
    (s.final txs).Tally ∧ (s.final txs).electGstate.totalProducerElectedVotes = 100 := by
  intro s txs
  have hs : Counted s :=
    ⟨by decide +kernel, by decide +kernel, by decide +kernel⟩
  have hc : Run.Along transact CountedStep s txs := by decide +kernel
  exact ⟨(tally_exact hs hc).1, by decide +kernel⟩

/-- A producer of the old contract has a voter; its first registration after
elections are initialised starts it without votes, and the voter is stuck. -/
theorem tally_exact_legacy :
    let s := (legacyChain none).final [⟨afternoon, .addvote 2 ⟨100, voteSymbol⟩⟩,
      ⟨afternoon, .voteproducer 2 0 [1]⟩, ⟨afternoon, .upgradevote⟩]
    let s' := s.final [⟨afternoon, .regproducer 1 5 "" none⟩]
    s.electGstate.isInit = true ∧ s.Tally ∧ ¬s'.Tally ∧
      abortOf (subvote afternoon s' 2 ⟨1, voteSymbol⟩) =
        some ⟨.tally, "producer's elected votes can not be negative"⟩ := by
  decide +kernel

end Amax
