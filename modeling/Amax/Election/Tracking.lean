-- SUMMARY: The queues follow the election index through whole actions: every row an action rewrites, and the changes it saves.
import Amax.Election.Reinit
import Amax.System.Effect

/-! # Tracking the election index

An action rewrites rows of producers one after the other, lets the queues follow
each of them, and saves the changes at its end. What holds between two actions
is kept by an action when it can be carried through each of these steps. -/

namespace Amax

-- ---------------------------------------------------------------------------
-- The state of the elections
-- ---------------------------------------------------------------------------

/-- What the elections read and write. -/
structure Elections where
  producers : Table ProducerInfo.owner
  electGstate : ElectGlobalState
  electedChanges : Table ElectedChange.id
  electedSequence : ℕ
  native : Native

def System.elections (s : System) : Elections where
  producers := s.producers
  electGstate := s.electGstate
  electedChanges := s.electedChanges
  electedSequence := s.gstate.electedSequence
  native := s.native

/-- The row with which a producer that has no election record yet stands behind the others. -/
def ProducerInfo.seat (a : ProducerInfo) : ProducerInfo :=
  if a.indexed then a else { a with isActive := false, ext := some (a.ext.getD {}), indexed := true }

namespace Elections

/-- The election index. -/
def index (e : Elections) : List ProducerInfo := electedProd e.producers

/-- The elected sets that the queues stand for. -/
def sets (e : Elections) : Native := e.electGstate.sets e.index

/-- A row of the producers is written, and the queues have followed it. -/
def write (e : Elections) (r : ProducerInfo) (g : ElectGlobalState) : Elections :=
  { e with producers := e.producers.set r, electGstate := g }

/-- A producer is in the index, behind the others if it has no election record yet. -/
def seat (e : Elections) (a : ProducerInfo) : Elections :=
  { e with producers := if a.indexed then e.producers else e.producers.set a.seat }

/-- The total of the elected votes is written. -/
def setTotal (e : Elections) (total : ℤ) : Elections :=
  { e with electGstate := { e.electGstate with totalProducerElectedVotes := total } }

/-- The queues describe the index of the producers. -/
structure Tracks (e : Elections) : Prop where
  enabled : e.electGstate.isBbpEnabled = true
  electable : Electable e.producers
  synced : Synced e.electGstate e.index

end Elections

namespace ProducerInfo

variable (a : ProducerInfo)

@[simp] theorem seat_owner : a.seat.owner = a.owner := by
  unfold seat
  split_ifs <;> rfl

theorem seat_indexed : a.seat.indexed = true := by
  unfold seat
  split_ifs with hi
  · exact hi
  · rfl

theorem seat_getElectedInfo : a.seat.getElectedInfo = a.getElectedInfo := by
  unfold seat
  split_ifs
  · rfl
  · simp only [getElectedInfo, fillElectedInfo, getElectedVotes]
    cases a.ext <;> rfl

theorem seat_reregister (now : TimePoint) (authority : BlockSigningAuthority) (ratio : Option ℕ) :
    a.seat.reregister now authority ratio = a.reregister now authority ratio := by
  unfold seat
  split_ifs <;> rfl

theorem WellFormed.seat {a : ProducerInfo} (h : a.WellFormed) : a.seat.Electable := by
  have hinfo := a.seat_getElectedInfo
  have hvotes : a.seat.getElectedVotes = a.getElectedVotes :=
    congrArg ProducerElectedInfo.electedVotes hinfo
  refine ⟨a.seat_owner ▸ h.owner_ne, hvotes ▸ h.votes_nonneg, hvotes ▸ h.votes_le, ?_,
    a.seat_indexed⟩
  unfold ProducerInfo.seat
  split_ifs with hi
  · exact h.indexed_eq.symm.trans hi
  · rfl

end ProducerInfo

namespace Elections

variable {e : Elections} {a r : ProducerInfo}

theorem find?_seat (h : e.producers.find? a.owner = some a) :
    (e.seat a).producers.find? a.owner = some a.seat := by
  unfold seat
  split_ifs with hi
  · rw [h, ProducerInfo.seat, if_pos hi]
  · rw [Table.find?_set, if_pos a.seat_owner]

theorem seat_set (e : Elections) (ho : a.owner = r.owner) :
    (e.seat a).producers.set r = e.producers.set r := by
  unfold seat
  split_ifs with hi
  · rfl
  · exact Table.set_set _ (a.seat_owner.trans ho)

theorem seat_write (e : Elections) (ho : a.owner = r.owner) {g : ElectGlobalState} :
    (e.seat a).write r g = e.write r g := by
  simp only [write, e.seat_set ho]
  rfl

end Elections

/-- How an action changes a row that the queues follow. -/
inductive RowChange (a : ProducerInfo) : ProducerInfo → Prop
  | votes (d : ℤ) : RowChange a (a.addVotes d)
  | registered (now : TimePoint) (authority : BlockSigningAuthority) (ratio : Option ℕ) :
      RowChange a (a.reregister now authority ratio)

namespace RowChange

variable {a r : ProducerInfo}

theorem reregister_votes (a : ProducerInfo) (now : TimePoint) (authority : BlockSigningAuthority)
    (ratio : Option ℕ) : (a.reregister now authority ratio).getElectedVotes = a.getElectedVotes := by
  simp only [ProducerInfo.getElectedVotes, ProducerInfo.reregister]
  cases a.ext <;> rfl

/-- No change deactivates a producer. -/
theorem active (h : RowChange a r) (ha : a.isActive = true) : r.isActive = true := by
  cases h with
  | votes d => exact ha
  | registered now authority ratio => rfl

/-- A producer that becomes active keeps its votes. -/
theorem votes_eq (h : RowChange a r) (ha : a.isActive = false) (hr : r.isActive = true) :
    r.getElectedVotes = a.getElectedVotes := by
  cases h with
  | votes d => rw [show (a.addVotes d).isActive = a.isActive from rfl, ha] at hr; cases hr
  | registered now authority ratio => exact reregister_votes a now authority ratio

/-- A producer that gets another authority keeps its votes. -/
theorem authority_eq (h : RowChange a r) :
    r.producerAuthority = a.producerAuthority ∨ r.getElectedVotes = a.getElectedVotes := by
  cases h with
  | votes d => exact .inl rfl
  | registered now authority ratio => exact .inr (reregister_votes a now authority ratio)

end RowChange

/-- The records of a producer compare as its rows stand. They never say that it
is inactive: so it is active, or its records compare as ones behind the queues. -/
def SeenBehind (g : ElectGlobalState) (a r : ProducerInfo) : Prop :=
  a.isActive = true ∨
    r.isActive = true ∧ r.getElectedInfo.lt g.backupElectedQueue.tail = true ∨
    r.isActive = false ∧ a.getElectedInfo.lt g.backupElectedQueue.tailNext = true ∧
      r.getElectedInfo.lt g.backupElectedQueue.tailNext = true

instance (g : ElectGlobalState) (a r : ProducerInfo) : Decidable (SeenBehind g a r) :=
  inferInstanceAs (Decidable (_ ∨ _ ∧ _ ∨ _ ∧ _ ∧ _))

instance (g : ElectGlobalState) (idx' : List ProducerInfo) (old new : ProducerElectedInfo) :
    Decidable (ReadsActive g idx' old new) :=
  have (k : ℕ) : Decidable (∀ p, idx'[k]? = some p → p.isActive = true) :=
    decidable_of_iff (∀ p ∈ idx'[k]?, p.isActive = true) Iff.rfl
  inferInstanceAs (Decidable (_ < _ → _ → _))

/-- The queues can follow a producer whose row changes from `a` to `r`. -/
def Tame (e : Elections) (a r : ProducerInfo) : Prop :=
  SeenBehind e.electGstate a r ∧
    ReadsActive e.electGstate (electedProd (e.producers.set r)) a.getElectedInfo r.getElectedInfo

instance (e : Elections) (a r : ProducerInfo) : Decidable (Tame e a r) :=
  inferInstanceAs (Decidable (_ ∧ _))

-- ---------------------------------------------------------------------------
-- One row
-- ---------------------------------------------------------------------------

/-- The queues depend on few fields. -/
theorem Synced.congr {g g' : ElectGlobalState} {idx : List ProducerInfo} (h : Synced g idx)
    (hm : g'.mainElectedQueue = g.mainElectedQueue)
    (hb : g'.backupElectedQueue = g.backupElectedQueue)
    (hN : g'.maxMainProducerCount = g.maxMainProducerCount)
    (hM : g.maxBackupProducerCount ≤ g'.maxBackupProducerCount) : Synced g' idx := by
  have hK : g'.backupCount = g.backupCount := congrArg ProducerElectedQueue.lastProducerCount hb
  constructor
  · exact hN ▸ h.two_le
  · rw [hm, hN]
    exact h.mainCount
  · exact hK ▸ h.backup_ge
  · exact (hK ▸ h.backup_le).trans hM
  · rw [hm, hN]
    exact h.mainTailPrev
  · rw [hm, hN]
    exact h.mainTail
  · rw [hm, hN]
    exact h.mainTailNext
  · rw [hb, hN, hK]
    exact h.backupTailPrev
  · rw [hb, hN, hK]
    exact h.backupTail
  · rw [hb, hN, hK]
    exact h.backupTailNext

namespace Elections.Tracks

variable {e : Elections} {a r : ProducerInfo}

theorem ranked (h : e.Tracks) : Ranked e.index := ranked_electedProd h.electable

theorem isInit (h : e.Tracks) : e.electGstate.isInit = true := by
  have hversion : 2 ≤ e.electGstate.electedVersion := of_decide_eq_true h.enabled
  exact decide_eq_true (show 0 < e.electGstate.electedVersion by omega)

theorem setTotal (h : e.Tracks) (total : ℤ) : (e.setTotal total).Tracks :=
  ⟨h.enabled, h.electable, h.synced.congr rfl rfl rfl le_rfl⟩

/-- A producer without an election record changes nothing when it takes its place. -/
theorem seat (h : e.Tracks) (hf : e.producers.find? a.owner = some a) : (e.seat a).Tracks := by
  cases hi : a.indexed with
  | true =>
    rw [show e.seat a = e from by simp [Elections.seat, hi]]
    exact h
  | false =>
    have hrow := (h.electable a (Table.mem_of_find? hf)).seat
    have hinactive : a.seat.isActive = false := by rw [ProducerInfo.seat, if_neg (by simp [hi])]
    have hproducers : (e.seat a).producers = e.producers.set a.seat := by simp [Elections.seat, hi]
    have hstands : ∀ {c k}, Stands e.index c k → Stands (e.seat a).index c k := by
      intro c k hc
      rw [index, hproducers]
      exact .entry h.electable (a.seat_owner.symm ▸ hf) hi hrow hinactive hc
    have hs := h.synced
    exact ⟨h.enabled, by rw [hproducers]; exact h.electable.set hrow, hs.two_le, hs.mainCount,
      hs.backup_ge, hs.backup_le, hstands hs.mainTailPrev, hstands hs.mainTail,
      hstands hs.mainTailNext, hstands hs.backupTailPrev, hstands hs.backupTail,
      hstands hs.backupTailNext⟩

/-- The row moves as its records say. -/
theorem moves (h : e.Tracks) (hr : Replaced e.producers a r) (hc : RowChange a r)
    (hseen : SeenBehind e.electGstate a r) :
    ∃ i j above below, Moves e.index (electedProd (e.producers.set r))
      (e.electGstate.maxMainProducerCount + e.electGstate.backupCount) a.getElectedInfo
      r.getElectedInfo i j above below := by
  have hnext := h.synced.backupTailNext
  have hK := h.synced.backup_ge
  simp only [minBackupProducerCount] at hK
  cases ha : a.isActive with
  | true => exact hr.moves ha (hc.active ha) hnext
  | false =>
    rcases hseen with hactive | ⟨hactive, hlt⟩ | ⟨hinactive, hold, hnew⟩
    · rw [ha] at hactive
      cases hactive
    · obtain ⟨k, hk⟩ : ∃ k, e.electGstate.maxMainProducerCount + e.electGstate.backupCount = k + 1 :=
        ⟨_, (Nat.sub_add_cancel (by omega)).symm⟩
      have htail := h.synced.backupTail
      rw [hk] at hnext ⊢
      rw [hk, Nat.add_sub_cancel] at htail
      exact hr.moves_back ha hactive (hc.votes_eq ha hactive) hnext htail hlt
    · exact hr.moves_behind ha hinactive hnext hold hnew

/-- The queues follow a row, and the changes lead to the elected sets after it. -/
theorem follow (h : e.Tracks) (hr : Replaced e.producers a r) (hc : RowChange a r)
    (ht : Tame e a r) {changes : ProposedProducerChanges} {n : Native} (hl : changes.Leads n e.sets) :
    Yields (processElectedProducer e.electGstate (electedProd (e.producers.set r)) a.getElectedInfo
      r.getElectedInfo changes) fun out =>
        (∃ meq beq, out.1 = e.electGstate.withQueues meq beq) ∧ (e.write r out.1).Tracks ∧
          out.2.Leads n (e.write r out.1).sets := by
  obtain ⟨i, j, above, below, hm⟩ := h.moves hr hc ht.1
  refine (processElectedProducer_synced h.synced hm ht.2 h.isInit hl).mono fun out hout => ?_
  obtain ⟨⟨meq, beq, hg⟩, hsynced, hleads⟩ := hout
  exact ⟨⟨meq, beq, hg⟩, ⟨by rw [Elections.write, hg]; exact h.enabled, h.electable.set hr.row,
    hsynced⟩, hleads⟩

end Elections.Tracks

-- ---------------------------------------------------------------------------
-- Saving
-- ---------------------------------------------------------------------------

/-- The state with which an interrupted election starts again. -/
def System.restart (env : Env) (s : System) (g : ElectGlobalState)
    (changes : ProposedProducerChanges) : System :=
  emplaceChange env
    { s with
      gstate := { s.gstate with electedSequence := nextSequence s.gstate.electedSequence }
      electGstate := { g with producerChangeInterrupted := false } }
    changes

/-- The backup queue has come down to its last producers, and the tail has too few votes. -/
def ElectGlobalState.Fails (g : ElectGlobalState) : Prop :=
  g.backupCount ≤ minBackupProducerCount ∧
    g.isProdVotesValid g.backupElectedQueue.tail.electedVotes = false

/-- What `save_producer_changes` does with the changes of an action. -/
inductive Saved (env : Env) (s : System) (changes : ProposedProducerChanges) : System → Prop
  | waiting (interrupted : s.electGstate.producerChangeInterrupted = true) : Saved env s changes s
  | restarted {g : ElectGlobalState} {initChanges : ProposedProducerChanges}
      (interrupted : s.electGstate.producerChangeInterrupted = true)
      (reinit : reinitElectedProducers s.electGstate (electedProd s.producers) =
        .ok (some (g, initChanges))) :
      Saved env s changes (s.restart env g initChanges)
  | failed (running : s.electGstate.producerChangeInterrupted = false) (fails : s.electGstate.Fails) :
      Saved env s changes
        { s with electGstate := { s.electGstate with producerChangeInterrupted := true } }
  | recorded (running : s.electGstate.producerChangeInterrupted = false)
      (holds : ¬s.electGstate.Fails) : Saved env s changes (emplaceChange env s changes)
  | unchanged (running : s.electGstate.producerChangeInterrupted = false)
      (holds : ¬s.electGstate.Fails) (main : changes.mainChanges.changes.rows = [])
      (backup : changes.backupChanges.changes.rows = []) : Saved env s changes s

/-- A restarted election is synchronised, and its changes lead to the elected sets. -/
theorem reinitElectedProducers_ok {g g' : ElectGlobalState} {idx : List ProducerInfo}
    {changes : ProposedProducerChanges} (hr : Ranked idx) (h2 : 2 ≤ g.maxMainProducerCount)
    (hM : minBackupProducerCount ≤ g.maxBackupProducerCount)
    (h : reinitElectedProducers g idx = .ok (some (g', changes))) :
    (∃ meq beq, g' = g.withQueues meq beq) ∧ Synced g' idx ∧
      ∀ n, changes.Leads n (g'.sets idx) := by
  obtain ⟨r, hok, hsynced⟩ := reinitElectedProducers_synced hr h2 hM
  rw [hok] at h
  exact hsynced g' changes (Except.ok.inj h)

section Saved

variable {env : Env} {s s' : System} {changes : ProposedProducerChanges}

theorem Elections.Tracks.save (h : s.elections.Tracks) (env : Env)
    (changes : ProposedProducerChanges) :
    Yields (saveProducerChanges env s changes) (Saved env s changes) := by
  have hM := h.synced.backup_ge.trans h.synced.backup_le
  obtain ⟨r, hr, -⟩ := reinitElectedProducers_synced h.ranked h.synced.two_le hM
  have hr' : reinitElectedProducers s.electGstate (electedProd s.producers) = .ok r := hr
  have hinit : s.electGstate.isInit = true := h.isInit
  unfold saveProducerChanges
  refine .ite (fun hoff => by simp [hinit] at hoff) fun _ => ?_
  refine .ite (fun hi => .ite (fun _ => ?_) fun _ => .ok (.waiting hi)) fun hi => ?_
  · rw [hr']
    cases r with
    | none => exact .ok (.waiting hi)
    | some out => exact .ok (.restarted hi hr')
  · replace hi := Bool.eq_false_iff.mpr hi
    refine .ite (fun hf => .ok (.failed hi ⟨hf.1, by simpa using hf.2⟩)) fun hf => ?_
    have hholds : ¬s.electGstate.Fails := fun hfails => hf ⟨hfails.1, by simp [hfails.2]⟩
    refine .ite (fun _ => .ok (.recorded hi hholds)) fun hempty => ?_
    rw [not_or, not_not, not_not] at hempty
    exact .ok (.unchanged hi hholds hempty.2 hempty.1)

/-- What is saved leaves the queues synchronised. -/
theorem Saved.tracks (hs : Saved env s changes s') (h : s.elections.Tracks) :
    s'.elections.Tracks := by
  have hM := h.synced.backup_ge.trans h.synced.backup_le
  cases hs with
  | waiting _ => exact h
  | restarted _ hreinit =>
    obtain ⟨⟨meq, beq, rfl⟩, hsynced, -⟩ :=
      reinitElectedProducers_ok h.ranked h.synced.two_le hM hreinit
    exact ⟨h.enabled, h.electable, hsynced.congr rfl rfl rfl le_rfl⟩
  | failed _ _ => exact ⟨h.enabled, h.electable, h.synced.congr rfl rfl rfl le_rfl⟩
  | recorded _ _ => exact ⟨h.enabled, h.electable, h.synced.congr rfl rfl rfl le_rfl⟩
  | unchanged _ _ _ _ => exact h

end Saved

-- ---------------------------------------------------------------------------
-- Whole actions
-- ---------------------------------------------------------------------------

/-- `J'` holds after an action when `J` holds before it: `I` is carried through
the action, as long as every rewritten row satisfies `P`. -/
structure Upkept (P : Elections → ProducerInfo → ProducerInfo → Prop)
    (I : Elections → ProposedProducerChanges → Prop) (J J' : Elections → Prop) : Prop where
  start : ∀ {e}, J e → I e {}
  seat : ∀ {e a}, J e → e.producers.find? a.owner = some a → I (e.seat a) {}
  tracks : ∀ {e changes}, I e changes → e.Tracks
  setTotal : ∀ {e changes} total, I e changes → I (e.setTotal total) changes
  row : ∀ {e changes a r t}, I (e.setTotal t) changes → Replaced e.producers a r →
    RowChange a r → P e a r →
    Safe (processElectedProducer (e.setTotal t).electGstate (electedProd (e.producers.set r))
      a.getElectedInfo r.getElectedInfo changes) fun out => I (e.write r out.1) out.2
  save : ∀ env {s : System} {changes}, I s.elections changes →
    Safe (saveProducerChanges env s changes) fun s' => J' s'.elections
  idle : ∀ {e}, J e → J' e

/-- Every row that the moves rewrite satisfies `P` where it is rewritten. -/
def MovesAlong (P : Elections → ProducerInfo → ProducerInfo → Prop) (s : System)
    (moves : List (Name × Asset)) : Prop :=
  Fold.Along (fun (out : System × ProposedProducerChanges) (m : Name × Asset) =>
      addElectedVotes m.2 false out.1 out.2 m.1)
    (fun out m => ∀ a ∈ out.1.producers.find? m.1, P out.1.elections a (a.addVotes m.2.amount))
    (s, {}) moves

/-- A registration is one of a producer that has a row, and its new row satisfies `P`. -/
def RegistersWith (P : Elections → ProducerInfo → ProducerInfo → Prop) (env : Env) (s : System)
    (producer : Name) (authority : BlockSigningAuthority) (ratio : Option ℕ) : Prop :=
  match s.producers.find? producer with
  | some a => P (s.elections.seat a) a.seat (a.reregister env.now authority ratio)
  | none => False

/-- The votes that a vote action moves, in its order. -/
def System.moves (s : System) : Action → List (Name × Asset)
  | .addvote voter votes => (s.voter voter).producers.names.map (·, votes)
  | .subvote voter votes => (s.voter voter).producers.names.map (·, votes.neg)
  | .vote voter producers =>
    let v := s.voter voter
    if v.producers.names = producers then []
    else v.producers.names.map (·, v.votes.neg) ++ producers.map (·, v.votes)
  | _ => []

/-- Votes are moved, or producers that have a row are registered again, and
every row that is rewritten satisfies `P`. -/
def Rewrites (P : Elections → ProducerInfo → ProducerInfo → Prop) (s : System) (tx : Transaction) :
    Prop :=
  match tx.action with
  | .addvote .. | .subvote .. | .vote .. => MovesAlong P s (s.moves tx.action)
  | .regproducer producer key _ ratio =>
    RegistersWith P tx.env s producer ⟨1, [⟨key, 1⟩]⟩ ratio
  | .regproducer2 producer authority _ ratio => RegistersWith P tx.env s producer authority ratio
  | _ => False

section Decidable

variable {P : Elections → ProducerInfo → ProducerInfo → Prop} [∀ e a r, Decidable (P e a r)]

instance (s : System) (moves : List (Name × Asset)) : Decidable (MovesAlong P s moves) :=
  inferInstanceAs (Decidable (Fold.Along _ _ _ _))

instance (env : Env) (s : System) (producer : Name) (authority : BlockSigningAuthority)
    (ratio : Option ℕ) : Decidable (RegistersWith P env s producer authority ratio) := by
  unfold RegistersWith
  split <;> infer_instance

instance (s : System) (tx : Transaction) : Decidable (Rewrites P s tx) := by
  obtain ⟨env, action⟩ := tx
  cases action <;> dsimp only [Rewrites] <;> infer_instance

end Decidable

namespace Upkept

variable {P : Elections → ProducerInfo → ProducerInfo → Prop}
  {I : Elections → ProposedProducerChanges → Prop} {J J' : Elections → Prop}
  {s : System} {changes : ProposedProducerChanges} {env : Env}

private theorem safe_add (a b : Asset) : Safe (a.add b) (a.add b = .ok ·) :=
  .of_avoids (Asset.add_avoids (by decide) a b) (Asset.add_avoids (by decide) a b)

/-- One round of the loop over the producers of a vote. -/
theorem addElectedVotes (u : Upkept P I J J') (h : I s.elections changes) {votesDelta : Asset}
    {isAdding : Bool} {n : Name}
    (hP : ∀ a ∈ s.producers.find? n, P s.elections a (a.addVotes votesDelta.amount)) :
    Safe (addElectedVotes votesDelta isAdding s changes n) fun out => I out.1.elections out.2 := by
  have ht := u.tracks h
  unfold Amax.addElectedVotes
  cases hp : s.producers.find? n with
  | none => exact .error nofun nofun
  | some a =>
    obtain rfl : a.owner = n := Table.key_of_find? hp
    refine .check (by decide) fun _ => ?_
    have hrow := ht.electable a (Table.mem_of_find? hp)
    cases hext : a.ext with
    | none => exact .error nofun nofun
    | some ext =>
      have hindexed : a.indexed = true := by rw [hrow.indexed_eq, hext]; rfl
      refine .bind (safe_add _ _) fun votes hvotes => .check (by decide) fun hnonneg =>
        .check (by decide) fun _ => ?_
      obtain ⟨-, hrange, rfl⟩ := Asset.add_ok_iff.mp hvotes
      have hadd : ({ a with ext := some { ext with
          electedVotes := ext.electedVotes + votesDelta.amount } } : ProducerInfo) =
            a.addVotes votesDelta.amount := by
        simp only [ProducerInfo.addVotes, hext, Option.getD_some]
      simp only [hadd]
      have hvotes : (a.addVotes votesDelta.amount).getElectedVotes =
          ext.electedVotes + votesDelta.amount := by
        rw [ProducerInfo.addVotes_getElectedVotes, ProducerInfo.getElectedVotes, hext]
      have hnew : (a.addVotes votesDelta.amount).Electable :=
        ⟨hrow.owner_ne, hvotes ▸ hnonneg, hvotes ▸ hrange.2, rfl, hindexed⟩
      have hreplaced : Replaced s.producers a (a.addVotes votesDelta.amount) :=
        ⟨ht.electable, hp, hindexed, hnew⟩
      have hstep := u.row
        (u.setTotal (s.electGstate.totalProducerElectedVotes + votesDelta.amount) h)
        hreplaced (.votes _) (hP a hp)
      refine .ite (fun _ => .bind hstep fun out hout => .ok hout) fun hoff => ?_
      exact absurd ht.enabled hoff

/-- The votes of all groups are moved. -/
theorem moves (u : Upkept P I J J') (h : J s.elections) {groups : List (List Name × Asset)}
    (hP : MovesAlong P s (groups.flatMap fun group => group.1.map (·, group.2))) :
    Safe (groups.foldlM (fun (out : System × ProposedProducerChanges) group =>
      updateProducerElectedVotes group.1 group.2 false out.1 out.2) (s, {})) fun out =>
        I out.1.elections out.2 := by
  have hfold : Safe ((groups.flatMap fun group => group.1.map (·, group.2)).foldlM
      (fun (out : System × ProposedProducerChanges) (m : Name × Asset) =>
        Amax.addElectedVotes m.2 false out.1 out.2 m.1) (s, {})) fun out => I out.1.elections out.2 :=
    .foldlM (fun out m hI hm => u.addElectedVotes hI hm) (u.start h) hP
  simp only [Fold.foldlM_flatMap, List.foldlM_map] at hfold
  exact hfold

/-- Votes are moved and the changes are saved. -/
theorem moveElectedVotes (u : Upkept P I J J') (h : J s.elections)
    {groups : List (List Name × Asset)}
    (hP : MovesAlong P s (groups.flatMap fun group => group.1.map (·, group.2))) (env : Env) :
    Safe (moveElectedVotes env s groups) fun s' => J' s'.elections :=
  .bind (u.moves h hP) fun _ hout => u.save env hout

/-- The queues follow a producer that is registered again. -/
theorem reregisters (u : Upkept P I J J') (h : J s.elections) {a : ProducerInfo}
    (hp : s.producers.find? a.owner = some a) {authority : BlockSigningAuthority} {ratio : Option ℕ}
    (hP : P (s.elections.seat a) a.seat (a.reregister env.now authority ratio)) :
    Safe (processElectedProducer s.electGstate
      (electedProd (s.producers.set (a.reregister env.now authority ratio))) a.getElectedInfo
      (a.reregister env.now authority ratio).getElectedInfo {}) fun out =>
        I (s.elections.write (a.reregister env.now authority ratio) out.1) out.2 := by
  have hrow := (u.tracks (u.start h)).electable a (Table.mem_of_find? hp)
  have hvotes := RowChange.reregister_votes a env.now authority ratio
  have hnew : (a.reregister env.now authority ratio).Electable :=
    ⟨hrow.owner_ne, hvotes ▸ hrow.votes_nonneg, hvotes ▸ hrow.votes_le, rfl, rfl⟩
  have hseat := u.seat h hp
  have hreplaced : Replaced (s.elections.seat a).producers a.seat
      (a.reregister env.now authority ratio) :=
    ⟨(u.tracks hseat).electable, Elections.find?_seat hp, a.seat_indexed, hnew⟩
  have hstep := u.row (e := s.elections.seat a) (t := s.electGstate.totalProducerElectedVotes)
    hseat hreplaced (a.seat_reregister env.now authority ratio ▸ .registered _ _ _) hP
  have ho : a.owner = (a.reregister env.now authority ratio).owner := rfl
  simp only [s.elections.seat_set ho, s.elections.seat_write ho, a.seat_getElectedInfo] at hstep
  exact hstep

/-- A producer that has a row is registered again. -/
theorem registerProducer (u : Upkept P I J J') (h : J s.elections) {producer : Name}
    {authority : BlockSigningAuthority} {ratio : Option ℕ}
    (hP : RegistersWith P env s producer authority ratio) :
    Safe (registerProducer env s producer authority ratio) fun out => J' out.1.elections := by
  have ht := u.tracks (u.start h)
  unfold Amax.registerProducer
  unfold RegistersWith at hP
  refine .check (by decide) fun _ => .bind (P := fun _ => True) ?_ fun coreSym _ => ?_
  · exact .check (by decide) fun _ => .ok trivial
  · cases hp : s.producers.find? producer with
    | none =>
      rw [hp] at hP
      exact hP.elim
    | some a =>
      rw [hp] at hP
      obtain rfl : a.owner = producer := Table.key_of_find? hp
      refine .ite (fun _ => ?_) fun hoff => absurd ht.enabled hoff
      exact .bind (u.reregisters h hp hP) fun out hout => .bind (u.save env hout) fun s' hs' => .ok hs'

theorem addvote (u : Upkept P I J J') (h : J s.elections) {voter : Name} {votes : Asset}
    (hP : MovesAlong P s (s.moves (.addvote voter votes))) :
    Safe (addvote env s voter votes) fun out => J' out.1.elections := by
  unfold Amax.addvote requireAuth voteToCoreAsset System.coreSymbol Asset.make
  refine .check (by decide) fun _ => .check (by decide) fun _ => .check (by decide) fun _ =>
    .bind (P := fun _ => True) ?_ fun q _ => ?_
  · exact .check (by decide) fun _ => .bind (P := fun _ => True)
      (.check (by decide) fun _ => .ok trivial) fun _ _ => .check (by decide) fun _ =>
        .check (by decide) fun _ => .ok trivial
  · cases hv : s.voters.find? voter with
    | none => exact .check (by decide) fun _ => .ok (u.idle h)
    | some v =>
      rw [System.moves, System.voter_of_find? hv] at hP
      have hmove : Safe (Amax.moveElectedVotes env s [(v.producers.names, votes)])
          fun s' => J' s'.elections :=
        u.moveElectedVotes h (by simpa using hP) env
      exact .bind (.ite (fun _ => hmove) fun _ => .ok (u.idle h)) fun s' hs' =>
        .bind (safe_add _ _) fun _ _ => .ok hs'

theorem subvote (u : Upkept P I J J') (h : J s.elections) {voter : Name} {votes : Asset}
    (hP : MovesAlong P s (s.moves (.subvote voter votes))) :
    Safe (subvote env s voter votes) fun out => J' out.1.elections := by
  unfold Amax.subvote requireAuth
  refine .check (by decide) fun _ => .check (by decide) fun _ => .check (by decide) fun _ =>
    .check (by decide) fun _ => ?_
  cases hv : s.voters.find? voter with
  | none => exact .error nofun nofun
  | some v =>
    rw [System.moves, System.voter_of_find? hv] at hP
    have hmove : Safe (Amax.moveElectedVotes env s [(v.producers.names, votes.neg)])
        fun s' => J' s'.elections :=
      u.moveElectedVotes h (by simpa using hP) env
    refine .bind (P := fun _ => True) (.check (by decide) fun _ => .ok trivial) fun le _ =>
      .check (by decide) fun _ => .check (by decide) fun _ => .check (by decide) fun _ =>
        .bind hmove fun s' hs' => .bind (safe_add _ _) fun _ _ => .check (by decide) fun _ => .ok hs'

theorem vote (u : Upkept P I J J') (h : J s.elections) {voter : Name} {producers : List Name}
    (hP : MovesAlong P s (s.moves (.vote voter producers))) :
    Safe (vote env s voter producers) fun out => J' out.1.elections := by
  unfold Amax.vote requireAuth
  refine .check (by decide) fun _ => .check (by decide) fun _ =>
    .bind (P := fun list => list.names = producers) ?_ fun list hlist => ?_
  · unfold sortedNames
    split_ifs
    · exact .ok rfl
    · exact .error (by decide) (by decide)
  · cases hv : s.voters.find? voter with
    | none => exact .error (by decide) (by decide)
    | some v =>
      rw [System.moves, System.voter_of_find? hv] at hP
      refine .check (by decide) fun _ => .ite (fun _ => .ok (u.idle h)) fun hne => .check (by decide) fun _ => ?_
      rw [if_neg fun heq => hne (NameList.ext (heq.trans hlist.symm))] at hP
      rw [voteDiff_eq]
      refine .bind (u.moveElectedVotes h ?_ env) fun s' hs' => .ok hs'
      simpa [hlist] using hP

/-- An action that rewrites rows as `P` asks leads to `J'`, and the elections do not abort it. -/
theorem perform (u : Upkept P I J J') (h : J s.elections) {tx : Transaction} (hP : Rewrites P s tx) :
    Safe (perform tx.env s tx.action) fun out => J' out.1.elections := by
  obtain ⟨env, action⟩ := tx
  cases action with
  | addvote voter votes => exact u.addvote h hP
  | subvote voter votes => exact u.subvote h hP
  | vote voter producers => exact u.vote h hP
  | regproducer producer key url ratio =>
    exact .check (by decide) fun _ => .check (by decide) fun _ => u.registerProducer h hP
  | regproducer2 producer authority url ratio =>
    exact .check (by decide) fun _ => .check (by decide) fun _ => .check (by decide) fun _ =>
      u.registerProducer h hP
  | _ => exact hP.elim

end Upkept

end Amax
