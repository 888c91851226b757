-- SUMMARY: Registering a new producer leaves the queues aligned with the index exactly if the new row enters it behind the last of their records.
import Amax.Election.Keys
import Amax.Election.Setup

/-! # New producers

The row of a new producer enters the index without a step of the queues. It has
no votes, so it enters behind every producer that has some, but a queue that ran
out of producers with votes can end among those that have none. -/

namespace Amax

-- ---------------------------------------------------------------------------
-- Votes in range
-- ---------------------------------------------------------------------------

/-- Every producer has votes with a key. -/
def VotesInRange (producers : Table ProducerInfo.owner) : Prop :=
  ∀ p ∈ producers.rows, p.InRange

instance (producers : Table ProducerInfo.owner) : Decidable (VotesInRange producers) :=
  inferInstanceAs (Decidable (∀ p ∈ producers.rows, _ ∧ _))

section InRange

variable {env : Env} {s s' : System} {sent : List Inline} {a : Action}

theorem VotesInRange.set {producers : Table ProducerInfo.owner} (h : VotesInRange producers)
    {r : ProducerInfo} (hr : r.InRange) : VotesInRange (producers.set r) := by
  intro p hp
  rcases Table.mem_set.mp hp with rfl | ⟨hp, -⟩
  · exact hr
  · exact h p hp

theorem VotesInRange.producer (h : VotesInRange s.producers) (n : Name) :
    (s.producer n).InRange := by
  cases hp : s.producers.find? n with
  | none =>
    rw [System.producer_of_none hp]
    exact ⟨le_rfl, (by decide : (0 : ℤ) < int64Max)⟩
  | some p =>
    rw [System.producer_of_find? hp]
    exact h p (Table.mem_of_find? hp)

/-- A row written with the votes its producer had. -/
theorem VotesInRange.rewrite (h : VotesInRange s.producers) {r : ProducerInfo}
    (hr : r.getElectedVotes = (s.producer r.owner).getElectedVotes) :
    VotesInRange (s.setProducer r).producers := by
  refine h.set ?_
  rw [ProducerInfo.InRange, hr]
  exact h.producer r.owner

section Votes

variable {Q : ProducerInfo → Prop} (hQ : ∀ {p : ProducerInfo} {ext : ProducerInfoExt} {votes : ℤ},
  Q p → 0 ≤ votes → votes ≤ Asset.maxAmount → Q { p with ext := some { ext with electedVotes := votes } })

include hQ

private theorem addElectedVotes_rows {votesDelta : Asset} {isAdding : Bool}
    {changes : ProposedProducerChanges} {n : Name} (h : ∀ p ∈ s.producers.rows, Q p) :
    Ensures (addElectedVotes votesDelta isAdding s changes n)
      fun out => ∀ p ∈ out.1.producers.rows, Q p := by
  unfold addElectedVotes
  cases hp : s.producers.find? n with
  | none => exact .error _
  | some p =>
    refine .check fun _ => ?_
    cases hext : p.ext with
    | none => exact .error _
    | some ext =>
      refine .bind_eq fun votes hvotes => .check fun hnonneg => .check fun _ => ?_
      have hle : votes.amount ≤ Asset.maxAmount := by
        obtain ⟨-, ⟨-, hle⟩, rfl⟩ := Asset.add_ok_iff.mp hvotes
        exact hle
      have hset : ∀ q ∈ (s.producers.set { p with
          ext := some { ext with electedVotes := votes.amount } }).rows, Q q := by
        intro q hq
        rcases Table.mem_set.mp hq with rfl | ⟨hq, -⟩
        · exact hQ (h p (Table.mem_of_find? hp)) hnonneg hle
        · exact h q hq
      refine .ite (fun _ => ?_) fun _ => .ok hset
      exact .bind_eq fun _ _ => .ok hset

private theorem moveElectedVotes_rows {groups : List (List Name × Asset)}
    (h : ∀ p ∈ s.producers.rows, Q p) :
    Ensures (moveElectedVotes env s groups) fun s' => ∀ p ∈ s'.producers.rows, Q p := by
  have hrounds := Ensures.foldlM (I := fun r : System × ProposedProducerChanges =>
    ∀ p ∈ r.1.producers.rows, Q p) (b := (s, {}))
    (f := fun r group => updateProducerElectedVotes group.1 group.2 false r.1 r.2)
    (fun r group hr => .foldlM (fun r n hr => addElectedVotes_rows hQ hr) hr _) h groups
  refine .bind hrounds fun out hout s' hs' => ?_
  have hsame := congrArg (fun r : System => r.producers) (saveProducerChanges_outside hs')
  exact (show s'.producers = out.1.producers from hsame) ▸ hout

/-- What a row keeps when its votes change, every row keeps when votes are moved. -/
theorem addvote_rows {voter : Name} {votes : Asset} (h : ∀ p ∈ s.producers.rows, Q p) :
    Ensures (addvote env s voter votes) fun out => ∀ p ∈ out.1.producers.rows, Q p := by
  unfold addvote
  refine .check fun _ => .check fun _ => .check fun _ => .bind_eq fun staked _ => ?_
  cases s.voters.find? voter with
  | none => exact .check fun _ => .ok h
  | some v =>
    refine .bind (P := fun s' => ∀ p ∈ s'.producers.rows, Q p)
      (.ite (fun _ => moveElectedVotes_rows hQ h) fun _ => .ok h) fun s' hs' => ?_
    exact .bind_eq fun _ _ => .ok hs'

theorem subvote_rows {voter : Name} {votes : Asset} (h : ∀ p ∈ s.producers.rows, Q p) :
    Ensures (subvote env s voter votes) fun out => ∀ p ∈ out.1.producers.rows, Q p := by
  unfold subvote
  refine .check fun _ => .check fun _ => .check fun _ => .check fun _ => ?_
  cases s.voters.find? voter with
  | none => exact .error _
  | some v =>
    refine .bind_eq fun _ _ => .check fun _ => .check fun _ => .check fun _ =>
      .bind (moveElectedVotes_rows hQ h) fun s' hs' => ?_
    exact .bind_eq fun _ _ => .check fun _ => .ok hs'

theorem vote_rows {voter : Name} {producers : List Name} (h : ∀ p ∈ s.producers.rows, Q p) :
    Ensures (vote env s voter producers) fun out => ∀ p ∈ out.1.producers.rows, Q p := by
  unfold vote
  refine .check fun _ => .check fun _ => .bind_eq fun list _ => ?_
  cases s.voters.find? voter with
  | none => exact .error _
  | some v =>
    refine .check fun _ => .ite (fun _ => .ok h) fun _ => .check fun _ => ?_
    exact .bind (moveElectedVotes_rows hQ h) fun s' hs' => .ok hs'

end Votes

/-- What a row keeps when it is paid, every row keeps while rewards are produced. -/
theorem blockSteps_rows {Q : ProducerInfo → Prop}
    (hQ : ∀ {p : ProducerInfo} {rate : Asset}, Q p → Q (p.paid rate))
    (h : ∀ p ∈ s.producers.rows, Q p) (hs : Relation.ReflTransGen BlockStep s s') :
    ∀ p ∈ s'.producers.rows, Q p := by
  have hset : ∀ {t : Table ProducerInfo.owner} {p : ProducerInfo} {rate : Asset},
      (∀ p ∈ t.rows, Q p) → p ∈ t.rows → ∀ q ∈ (t.set (p.paid rate)).rows, Q q := by
    intro t p rate ht hp q hq
    rcases Table.mem_set.mp hq with rfl | ⟨hq, -⟩
    · exact hQ (ht p hp)
    · exact ht q hq
  induction hs with
  | refl => exact h
  | tail _ hstep ih =>
    cases hstep with
    | rates _ _ => exact ih
    | main payable => exact hset ih (Table.mem_of_find? payable.found)
    | backup payable => exact hset ih (Table.mem_of_find? payable.found)

private theorem inRange_votes {p : ProducerInfo} {ext : ProducerInfoExt} {votes : ℤ} (_ : p.InRange)
    (hnonneg : 0 ≤ votes) (hle : votes ≤ Asset.maxAmount) :
    ProducerInfo.InRange { p with ext := some { ext with electedVotes := votes } } :=
  ⟨hnonneg, hle.trans_lt (by decide)⟩

/-- No action takes the votes of a producer out of range. -/
theorem VotesInRange.perform (h : VotesInRange s.producers) (hok : perform env s a = .ok (s', sent)) :
    VotesInRange s'.producers := by
  obtain ⟨s₁, heffect, hout⟩ := perform_effect hok
  have hsame := congrArg (fun r : System => r.producers) hout
  replace hsame : s'.producers = s₁.producers := hsame
  suffices hs₁ : VotesInRange s₁.producers from hsame ▸ hs₁
  cases heffect with
  | keep | settings | configure | voter | voteproducer | refundvote => exact h
  | register _ _ revision => exact h.rewrite revision.votes
  | revise _ revision => exact h.rewrite revision.votes
  | block produced => exact blockSteps_rows (Q := ProducerInfo.InRange) id h (produceRewards_steps produced)
  | addvote => exact hsame ▸ addvote_rows inRange_votes h _ hok
  | subvote => exact hsame ▸ subvote_rows inRange_votes h _ hok
  | vote => exact hsame ▸ vote_rows inRange_votes h _ hok
  | claimrewards time found =>
    have hrow : ProducerInfo.InRange _ := h _ (Table.mem_of_find? found)
    exact h.set hrow
  | undoreward time found =>
    have hrow : ProducerInfo.InRange _ := h _ (Table.mem_of_find? found)
    exact h.set hrow

theorem votesInRange_run (h : VotesInRange s.producers) (txs : List Transaction) :
    VotesInRange (s.final txs).producers := by
  refine Run.invariant (I := fun s : System => VotesInRange s.producers) (P := fun _ _ => True) (fun s tx s' sent hs _ hok => ?_) h
    (Run.along_true _ _)
  exact hs.perform (transact_ok_iff.mp hok).1

end InRange

-- ---------------------------------------------------------------------------
-- Alignment
-- ---------------------------------------------------------------------------

/-- The position behind the backup queue. -/
def ElectGlobalState.queuesEnd (g : ElectGlobalState) : ℕ := g.maxMainProducerCount + g.backupCount

/-- The records the queues hold, with the positions they are of. -/
def ElectGlobalState.cached (g : ElectGlobalState) : List (ℕ × ProducerElectedInfo) :=
  [(g.maxMainProducerCount - 2, g.mainElectedQueue.tailPrev),
    (g.maxMainProducerCount - 1, g.mainElectedQueue.tail),
    (g.maxMainProducerCount, g.mainElectedQueue.tailNext),
    (g.queuesEnd - 2, g.backupElectedQueue.tailPrev),
    (g.queuesEnd - 1, g.backupElectedQueue.tail),
    (g.queuesEnd, g.backupElectedQueue.tailNext)]

/-- The records of the queues are those of the rows at their positions. -/
def Aligned (g : ElectGlobalState) (idx : List ProducerInfo) : Prop :=
  ∀ e ∈ g.cached, idx[e.1]?.map ProducerInfo.getElectedInfo = some e.2

instance (g : ElectGlobalState) (idx : List ProducerInfo) : Decidable (Aligned g idx) :=
  inferInstanceAs (Decidable (∀ _ ∈ _, _))

theorem ElectGlobalState.cached_le (g : ElectGlobalState) {e : ℕ × ProducerElectedInfo}
    (he : e ∈ g.cached) : e.1 ≤ g.queuesEnd := by
  simp only [cached, queuesEnd, List.mem_cons, List.not_mem_nil, or_false] at he ⊢
  rcases he with rfl | rfl | rfl | rfl | rfl | rfl <;> simp only <;> omega

section Entry

variable {producers : Table ProducerInfo.owner} {g : ElectGlobalState} {r y : ProducerInfo} {k l : ℕ}

/-- A row of the index stands at one position. -/
private theorem electedProd_position (hk : (electedProd producers)[k]? = some y)
    (hl : (electedProd producers)[l]? = some y) : k = l := by
  have hd := distinct_byElectedProd producers
  exact ((Table.index_getElem?_iff hd).mp hk).2.2.symm.trans
    ((Table.index_getElem?_iff hd).mp hl).2.2

/-- The records stay aligned with an index a new row enters exactly if the row behind the queues
stays before the new one. -/
theorem aligned_entry_iff (ha : Aligned g (electedProd producers))
    (hnew : producers.find? r.owner = none) (hi : r.indexed = true)
    (hy : (electedProd producers)[g.queuesEnd]? = some y) :
    Aligned g (electedProd (producers.set r)) ↔ y.byElectedProd < r.byElectedProd := by
  have hold : ∀ a, producers.find? r.owner = some a → a.indexed = false := by simp [hnew]
  have hmoved := Table.moved_of_entry (distinct_byElectedProd producers)
    (distinct_byElectedProd (producers.set r)) hold hi (le_refl (g.queuesEnd + 1))
  generalize (producers.set r).rank (·.indexed) ProducerInfo.byElectedProd r.byElectedProd = j
    at hmoved
  have hne : ∀ {k : ℕ} {q : ProducerInfo}, (electedProd producers)[k]? = some q → q.owner ≠ r.owner := by
    intro k q hq ho
    have hmem := (mem_electedProd.mp (List.mem_of_getElem? hq)).1
    rw [← ho, Table.find?_of_mem hmem] at hnew
    cases hnew
  have hgap : ∀ {k}, k ≤ g.queuesEnd → Table.closeGap (g.queuesEnd + 1) k = k :=
    fun hk => by rw [Table.closeGap, if_neg (by omega)]
  have hlt := hmoved.lt_iff hy (hne hy) (Nat.lt_succ_self _)
  rw [hgap le_rfl] at hlt
  have hstay := hmoved.stay hy (hne hy) (Nat.lt_succ_self _)
  have hself : ¬ r.byElectedProd = y.byElectedProd := fun h =>
    hne hy (ProducerInfo.byElectedProd_inj h).symm
  constructor
  · intro ha'
    by_contra hnot
    have hj := hlt.mp ((not_lt.mp hnot).lt_of_ne hself)
    rw [Table.shift, hgap le_rfl, if_pos hj] at hstay
    -- the producer of the last record now stands one position further
    have hlast := ha (g.queuesEnd, g.backupElectedQueue.tailNext) (by simp [ElectGlobalState.cached])
    have hlast' := ha' (g.queuesEnd, g.backupElectedQueue.tailNext)
      (by simp [ElectGlobalState.cached])
    simp only [hy, Option.map_some, Option.some.injEq] at hlast
    simp only [← hlast] at hlast'
    obtain ⟨z, hz, hinfo⟩ := Option.map_eq_some_iff.mp hlast'
    have howner : z.owner = y.owner := congrArg ProducerElectedInfo.name hinfo
    have hrow := mem_electedProd.mp (List.mem_of_getElem? hz)
    have hrow' := mem_electedProd.mp (List.mem_of_getElem? hstay)
    obtain rfl := (producers.set r).key_inj hrow.1 hrow'.1 howner
    exact absurd (electedProd_position hz hstay) (by omega)
  · intro hyr e he
    have hle := g.cached_le he
    have hj : g.queuesEnd < j := not_le.mp fun hj => lt_asymm hyr (hlt.mpr hj)
    obtain ⟨p, hp, hinfo⟩ := Option.map_eq_some_iff.mp (ha e he)
    have hp' := hmoved.stay hp (hne hp) (Nat.lt_succ_of_le hle)
    rw [Table.shift, hgap hle, if_neg (by omega)] at hp'
    exact Option.map_eq_some_iff.mpr ⟨p, hp', hinfo⟩

/-- A row comes before one of an active producer without votes if it is active, and has votes
or the smaller name. -/
theorem ProducerInfo.byElectedProd_lt_unvoted_iff (hy : y.InRange) (ha : r.isActive = true)
    (hv : r.getElectedVotes = 0) :
    y.byElectedProd < r.byElectedProd ↔ y.isActive = true ∧
      (0 < y.getElectedVotes ∨ y.getElectedVotes = 0 ∧ y.owner < r.owner) := by
  have hr : r.InRange := by
    rw [InRange, hv]
    exact ⟨le_rfl, (by decide : (0 : ℤ) < int64Max)⟩
  cases hact : y.isActive with
  | true =>
    rw [byElectedProd_lt_iff hy hr (hact.trans ha.symm), Outranks, hv]
    simp
  | false =>
    have hlt := byElectedProd_lt_of_active hr hy ha hact
    exact iff_of_false hlt.not_gt fun h => Bool.false_ne_true h.1

end Entry

-- ---------------------------------------------------------------------------
-- Registration
-- ---------------------------------------------------------------------------

/-- The row behind the queues comes before that of a new producer `n`. -/
def System.EntersBehind (s : System) (n : Name) : Prop :=
  let last := s.electGstate.backupElectedQueue.tailNext
  (s.producer last.name).isActive = true ∧
    (0 < last.electedVotes ∨ last.electedVotes = 0 ∧ last.name < n)

instance (s : System) (n : Name) : Decidable (s.EntersBehind n) :=
  inferInstanceAs (Decidable (_ ∧ _))

section Registration

variable {env : Env} {s s' : System} {sent : List Inline} {tx : Transaction} {n : Name}

/-- What registering a new producer does: one row without votes enters. -/
structure Enters (s : System) (n : Name) (s' : System) : Prop where
  queues : s'.electGstate = s.electGstate
  row : ∃ r : ProducerInfo, s'.producers = s.producers.set r ∧ r.owner = n ∧ r.isActive = true ∧
    r.indexed = true ∧ r.getElectedVotes = 0

theorem registerProducer_enters {authority : BlockSigningAuthority} {ratio : Option ℕ}
    (hnew : s.producers.find? n = none) :
    Ensures (registerProducer env s n authority ratio) fun out => Enters s n out.1 := by
  unfold registerProducer
  refine .check fun _ => .bind_eq fun _ _ => ?_
  rw [hnew]
  exact .check fun _ => .bind_eq fun _ _ => .ok ⟨rfl, _, rfl, rfl, rfl, rfl, rfl⟩

theorem transact_enters (hreg : tx.action.registered = some n)
    (hnew : s.producers.find? n = none) (hok : transact tx s = .ok (s', sent)) : Enters s n s' := by
  have hperform := (transact_ok_iff.mp hok).1
  cases haction : tx.action with
  | regproducer producer key url ratio =>
    rw [haction] at hreg hperform
    obtain rfl := Option.some.inj hreg
    have : Ensures (regproducer tx.env s producer key url ratio) fun out => Enters s producer out.1 :=
      .check fun _ => .check fun _ => registerProducer_enters hnew
    exact this _ hperform
  | regproducer2 producer authority url ratio =>
    rw [haction] at hreg hperform
    obtain rfl := Option.some.inj hreg
    have : Ensures (regproducer2 tx.env s producer authority url ratio)
        fun out => Enters s producer out.1 :=
      .check fun _ => .check fun _ => .check fun _ => registerProducer_enters hnew
    exact this _ hperform
  | _ => simp [haction, Action.registered] at hreg

end Registration

/-- Registering a new producer in a state whose queues are aligned with the index leaves them
aligned if and only if the last of their records is of an active producer that has votes or the
smaller name. -/
theorem entry_keeps_alignment {s₀ : System} (h : VotesInRange s₀.producers) (txs : List Transaction)
    (haligned : Aligned (s₀.final txs).electGstate (electedProd (s₀.final txs).producers))
    {tx : Transaction} {n : Name} (hreg : tx.action.registered = some n)
    (hnew : (s₀.final txs).producers.find? n = none) {s' : System} {sent : List Inline}
    (hok : transact tx (s₀.final txs) = .ok (s', sent)) :
    Aligned s'.electGstate (electedProd s'.producers) ↔ (s₀.final txs).EntersBehind n := by
  have hrange := votesInRange_run h txs
  generalize s₀.final txs = s at haligned hnew hok hrange ⊢
  obtain ⟨hqueues, r, hproducers, rfl, hact, hindexed, hvotes⟩ := transact_enters hreg hnew hok
  obtain ⟨y, hy, hlast⟩ := Option.map_eq_some_iff.mp
    (haligned (s.electGstate.queuesEnd, s.electGstate.backupElectedQueue.tailNext)
      (by simp [ElectGlobalState.cached]))
  have hrow := (mem_electedProd.mp (List.mem_of_getElem? hy)).1
  have hproducer : s.producer y.owner = y := System.producer_of_find? (Table.find?_of_mem hrow)
  rw [hqueues, hproducers, aligned_entry_iff haligned hnew hindexed hy,
    ProducerInfo.byElectedProd_lt_unvoted_iff (hrange y hrow) hact hvotes, System.EntersBehind]
  simp only at hlast
  simp only [← hlast, ProducerInfo.getElectedInfo, ProducerInfo.fillElectedInfo, hproducer]

/-- 24 producers share the votes of a voter; a second voter has votes for no producer yet. -/
def waning : System :=
  electionChain 24 [
    supporter 101 (firstProducers 24) 200000000,
    supporter 102 .nil 100000000]

/-- The day after the elections start. -/
def dayAfter : Env := { electionDay with now := seconds 1800100000 }

/-- The producer `n` registers. -/
def registration (env : Env) (n : Name) : Transaction :=
  ⟨env, .regproducer2 n ⟨1, [⟨900, 1⟩]⟩ "" none⟩

/-- The producer 100 gets the votes it needs for elections to start, and loses them again. -/
def wane : List Transaction :=
  [registration electionDay 100, ⟨electionDay, .vote 102 [100]⟩, ⟨electionDay, .initbbpelect 3⟩,
    ⟨dayAfter, .subvote 102 ⟨100000000, voteSymbol⟩⟩]

theorem entry_keeps_alignment_last :
    let s := waning.final (wane ++ [registration dayAfter 150])
    Aligned s.electGstate (electedProd s.producers) := by
  intro s
  have hs : (waning.final wane).final [registration dayAfter 150] = s := (Run.final_append _ _ _).symm
  obtain ⟨sent, hok⟩ : ∃ sent, transact (registration dayAfter 150) (waning.final wane) =
      .ok ((waning.final wane).final [registration dayAfter 150], sent) :=
    System.final_single (by decide +kernel)
  rw [hs] at hok
  exact (entry_keeps_alignment (by decide +kernel) wane (by decide +kernel) rfl (by decide +kernel)
    hok).mpr (by decide +kernel)

/-- The last record is of the producer 100, which has no votes; the new producer 50 enters before
it, at the position the record stood at. -/
theorem entry_misaligns_unvoted :
    let s := waning.final wane
    Run.Along transact (fun s tx => abortOf (transact tx s) = none) waning
        (wane ++ [registration dayAfter 50]) ∧
      s.electGstate.isBbpEnabled = true ∧ Aligned s.electGstate (electedProd s.producers) ∧
      s.producers.find? 50 = none ∧
      ¬ Aligned (s.final [registration dayAfter 50]).electGstate
        (electedProd (s.final [registration dayAfter 50]).producers) := by
  decide +kernel

end Amax
