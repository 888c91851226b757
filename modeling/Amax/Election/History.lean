-- SUMMARY: The producers of the chain go through the elected sets, in the order in which these were elected.
import Amax.Election.Deactivation

/-! # The history of the elected sets

The chain takes the pending changes late, several at a time, and not at all while
it refuses them; an election that is interrupted leaves them behind. Whatever it
has taken, its producers are those of one moment of the elections, and they never
go back to an earlier one. -/

namespace Amax

/-- An election that restarts has one pending row. -/
theorem Logged.pending_restart {σ : Type} {L : Layer σ} {x y : σ} {env : Env} {s : System}
    {changes : ProposedProducerChanges} {meq beq : ProducerElectedQueue}
    (h : Logged L x y s.elections) (hfresh : s.elections.FreshNext) :
    (s.restart env (s.electGstate.withQueues meq beq) changes).elections.pending =
      [{ id := s.electGstate.lastProducerChangeId + 1
         electedSequence := nextSequence s.gstate.electedSequence
         changes, createdAt := TimePoint.toSlot env.now }] := by
  let t : System := { s with
    gstate := { s.gstate with electedSequence := nextSequence s.gstate.electedSequence }
    electGstate := { s.electGstate.withQueues meq beq with producerChangeInterrupted := false } }
  have hnil : t.elections.pending = [] := hfresh.pending_eq_nil rfl rfl
  have ht : Logged L x x t.elections := ⟨h.ids, fun _ => by rw [hnil]; exact .nil x⟩
  have hpending : (emplaceChange env t changes).elections.pending = t.elections.pending ++ _ :=
    ht.pending_emplaceChange
  rw [hnil, List.nil_append] at hpending
  exact hpending

/-- A main set of `N` producers and a backup set that is large enough, with no producer in both. -/
structure Native.Proper (N : ℕ) (n : Native) : Prop where
  main : n.main.card = N
  backup : minBackupProducerCount ≤ n.backup.card
  disjoint : Disjoint n.main n.backup

theorem Native.Proper.filled {N : ℕ} {n : Native} (h : n.Proper N) (hN : 2 ≤ N) :
    nativeLayer.Filled n := by
  have hmain := h.main
  have hbackup := h.backup
  simp only [minBackupProducerCount] at hbackup
  exact ⟨Finset.card_pos.mp (by omega), Finset.card_pos.mp (by omega)⟩

namespace Elections

variable {e e' e₀ : Elections} {N : ℕ} {history past : List Native}

theorem Tracks.proper (h : e.Tracks) : e.sets.Proper e.electGstate.maxMainProducerCount := by
  have hlen := h.synced.backupTailNext.lt_length
  refine ⟨electedSets_main_card h.ranked (by omega), ?_, ?_⟩
  · rw [sets, ElectGlobalState.sets, electedSets_backup_card h.ranked hlen.le]
    exact h.synced.backup_ge
  · refine Finset.disjoint_left.mpr fun n hmain hbackup => ?_
    have hlt := (mem_main h.ranked (by omega)).mp hmain
    have hle := ((mem_backup h.ranked hlen.le).mp hbackup).1
    exact absurd hle (not_le.mpr hlt)

/-- The elections have gone through the sets of the history, and the producers of the chain
through those of the past. What the chain has taken and what is pending follow the history. -/
structure Lags (N : ℕ) (history past : List Native) (e : Elections) : Prop where
  replayed : e.Replayed
  count : e.electGstate.maxMainProducerCount = N
  trails : Replay.Trails (fun row => nativeLayer.apply row.changes) (Native.Proper N) history past
    e.native e.pending

namespace Lags

theorem proper (h : e.Lags N history past) : e.sets.Proper N :=
  h.count ▸ h.replayed.tracks.proper

/-- Nothing is logged, and the chain stays. -/
theorem skip (h : e.Lags N history past) (hr : e'.Replayed)
    (hcount : e'.electGstate.maxMainProducerCount = e.electGstate.maxMainProducerCount)
    (hlog : e'.electedChanges = e.electedChanges) (hseq : e'.electedSequence = e.electedSequence)
    (hnative : e'.native = e.native) : e'.Lags N (history ++ [e'.sets]) past := by
  have hN := hcount.trans h.count
  refine ⟨hr, hN, ?_⟩
  rw [hnative, pending, hlog, hseq]
  exact h.trails.skip (hN ▸ hr.tracks.proper)

-- ---------------------------------------------------------------------------
-- Votes and registrations
-- ---------------------------------------------------------------------------

section Save

variable {env : Env} {s s' : System} {changes : ProposedProducerChanges}

theorem save (h₀ : e₀.Lags N history past) (h : e₀.Turning s.elections changes)
    (hcount : s.electGstate.maxMainProducerCount = N)
    (hfresh : e₀.electGstate.producerChangeInterrupted = true → e₀.FreshNext)
    (hs : Saved env s changes s') : s'.elections.Lags N (history ++ [s'.elections.sets]) past := by
  have hr := h.save h₀.replayed hfresh hs
  have hrecord : nativeLayer.apply changes e₀.sets = some s.elections.sets :=
    ProposedProducerChanges.apply_eq_some_iff.mpr h.leads
  have hpending : s.elections.pending = e₀.pending := by
    rw [pending, pending, h.since.electedChanges, h.since.electedSequence]
  have hlogged : Logged nativeLayer s.native e₀.sets s.elections := by
    have := h₀.replayed.logged.congr h.since.electedChanges h.since.lastId h.since.electedSequence
      h.since.interrupted
    rwa [← h.native] at this
  have hstay : ∀ {t : System}, t.elections.Replayed → t.electGstate.maxMainProducerCount = N →
      t.electedChanges = s.electedChanges → t.gstate.electedSequence = s.gstate.electedSequence →
      t.native = s.native → t.elections.Lags N (history ++ [t.elections.sets]) past :=
    fun hr' hN hlog hseq hnative => h₀.skip hr' (hN.trans h₀.count.symm)
      (hlog.trans h.since.electedChanges) (hseq.trans h.since.electedSequence)
      (hnative.trans h.native)
  have hproper : ∀ {t : System}, t.elections.Replayed → t.electGstate.maxMainProducerCount = N →
      t.elections.sets.Proper N := fun hr' hN => hN ▸ hr'.tracks.proper
  cases hs with
  | waiting _ | unchanged _ _ _ _ => exact hstay hr hcount rfl rfl rfl
  | failed _ _ => exact hstay hr hcount rfl rfl rfl
  | recorded hrun _ =>
    refine ⟨hr, hcount, ?_⟩
    have hpassed := h₀.replayed.logged.replays (h.since.interrupted.symm.trans hrun)
    rw [hlogged.pending_emplaceChange, hpending]
    have htrails := h₀.trails.record hpassed (a := ⟨s.electGstate.lastProducerChangeId + 1,
      s.gstate.electedSequence, changes, TimePoint.toSlot env.now⟩) hrecord (hproper hr hcount)
    rw [← h.native] at htrails
    exact htrails
  | @restarted _ initChanges hi hreinit =>
    have hM := h.tracks.synced.backup_ge.trans h.tracks.synced.backup_le
    have hnext : s.elections.FreshNext := by
      have := hfresh (h.since.interrupted.symm.trans hi)
      rwa [FreshNext, ← h.since.electedChanges, ← h.since.electedSequence] at this
    obtain ⟨⟨meq, beq, rfl⟩, -, hleads⟩ :=
      reinitElectedProducers_ok h.tracks.ranked h.tracks.synced.two_le hM hreinit
    refine ⟨hr, hcount, ?_⟩
    have hrow : (s.restart env (s.elections.electGstate.withQueues meq beq)
        initChanges).elections.pending = _ := hlogged.pending_restart hnext
    have htrails := h₀.trails.restart (a := ⟨s.electGstate.lastProducerChangeId + 1,
      nextSequence s.gstate.electedSequence, initChanges, TimePoint.toSlot env.now⟩)
      (ProposedProducerChanges.apply_eq_some_iff.mpr (hleads _)) (hproper hr hcount)
    rw [hrow]
    rw [← h.native] at htrails
    exact htrails

end Save

theorem upkept (h₀ : e₀.Lags N history past)
    (hfresh : e₀.electGstate.producerChangeInterrupted = true → e₀.FreshNext) :
    Upkept Tame (fun e changes => e₀.Turning e changes ∧ e.electGstate.maxMainProducerCount = N)
      (· = e₀) fun e' => e'.Lags N (history ++ [e'.sets]) past where
  start h := ⟨(upkept_replayed h₀.replayed hfresh).start h, h ▸ h₀.count⟩
  seat h hf := ⟨(upkept_replayed h₀.replayed hfresh).seat h hf, h ▸ h₀.count⟩
  tracks h := h.1.tracks
  setTotal total h := ⟨(upkept_replayed h₀.replayed hfresh).setTotal total h.1, h.2⟩
  row h hr hc hP := ((upkept_replayed h₀.replayed hfresh).row h.1 hr hc hP).mono
    fun out hout hturning => ⟨hturning, (congrArg (·.maxMainProducerCount)
      (processElectedProducer_outside hout) : out.1.maxMainProducerCount = _).trans h.2⟩
  save env _ changes h := .of_yields ((h.1.tracks.save env changes).mono fun _ hs =>
    h₀.save h.1 h.2 hfresh hs)
  idle h := by
    rw [h]
    exact h₀.skip h₀.replayed rfl rfl rfl rfl

-- ---------------------------------------------------------------------------
-- The other actions
-- ---------------------------------------------------------------------------

theorem initbbpelect {env : Env} {s : System} (h : s.elections.Lags N history past) {count : ℕ}
    (hfresh : s.electGstate.NeedsReinit count → s.elections.FreshNext) :
    Ensures (initbbpelect env s count) fun out => out.1.elections.Lags N
      (history ++ [out.1.elections.sets]) (Replay.push past out.1.elections.native) := by
  intro out hok
  have hr := h.replayed.initbbpelect hfresh out hok
  obtain ⟨hcount, ⟨-, -, hsame⟩ | ⟨hnew, changes, hstart⟩⟩ := initbbpelect_ok hok
  · have hstay : Replay.push past out.1.elections.native = past := by
      rw [Replay.push, if_pos (by rw [hsame]; exact h.trails.here)]
    rw [hstay]
    exact h.skip hr (by rw [hsame]; rfl) (by rw [hsame]) (by rw [hsame]) (by rw [hsame])
  · obtain ⟨⟨meq, beq, hg⟩, -⟩ := reinitElectedProducers_ok h.replayed.tracks.ranked
      (g := s.electGstate.enable count) h.replayed.tracks.synced.two_le hcount hstart.reinit
    have hN : out.1.elections.electGstate.maxMainProducerCount = N := by
      rw [hg]
      exact h.count
    refine ⟨hr, hN, ?_⟩
    rw [(hfresh hnew).pending_eq_nil hstart.electedChanges hstart.sequence,
      hstart.native h.replayed.tracks.electable h.replayed.tracks.synced.two_le hcount]
    exact h.trails.jump (hN ▸ hr.tracks.proper)

/-- The chain takes the first rows of the log, or none. -/
theorem flushed {taken : Option ProposedProducerChanges} (h : e.Lags N history past)
    (hr : e.Rests e') (hf : e.Flushed e' taken) :
    e'.Lags N (history ++ [e'.sets]) (Replay.push past e'.native) := by
  have hreplayed := h.replayed.flushed hr hf
  obtain ⟨period, main, backup, hg⟩ := hr.electGstate
  have hN : e'.electGstate.maxMainProducerCount = N := by
    rw [hg]
    exact h.count
  have h2 : 2 ≤ N := h.count ▸ h.replayed.tracks.synced.two_le
  -- the rows a call has examined merge to changes that lead where the rows lead
  have hexamined : ∀ {k c}, Examined e.electedSequence e.electedChanges.rows k c →
      e'.electedChanges = e.electedChanges.dropFirst k → ∃ z, nativeLayer.apply c e.native = some z ∧
        (e.native = z ∨ nativeLayer.Filled z) ∧ Replay.Trails (fun row => nativeLayer.apply row.changes)
          (Native.Proper N) history (Replay.push past z) z e'.pending := by
    intro k c hex hlog
    have htrails := h.trails
    rw [pending, ← List.take_append_drop k e.electedChanges.rows, List.filter_append] at htrails
    obtain ⟨ys, hpath, hsub⟩ := htrails.ahead
    obtain ⟨ys₁, ys₂, rfl, h₁, -⟩ := Replay.Path.append_iff.mp hpath
    have hpassed := h₁.passes (P := nativeLayer.Filled) fun y hy => by
      refine (htrails.holds y (hsub.subset ?_)).filled h2
      exact List.mem_append_right _ (List.mem_append_left _ hy)
    obtain ⟨out, hmerge, hout⟩ := Layer.Replays.merge hpassed (nativeLayer.apply_empty e.native)
    obtain rfl : c = out := Except.ok.inj (hex.merged.symm.trans hmerge)
    refine ⟨_, hout, hpassed.last, ?_⟩
    rw [pending, hlog, hr.electedSequence]
    exact htrails.advance hpassed
  have hskip : ∀ {past'}, Replay.Trails (fun row => nativeLayer.apply row.changes) (Native.Proper N)
      history past' e'.native e'.pending → e'.Lags N (history ++ [e'.sets]) past' :=
    fun ht => ⟨hreplayed, hN, ht.skip (hN ▸ hreplayed.tracks.proper)⟩
  cases hf with
  | kept log native =>
    rw [Replay.push, if_pos (native ▸ h.trails.here)]
    refine hskip ?_
    rw [native, pending, log, hr.electedSequence]
    exact h.trails
  | taken examined _ log native =>
    obtain ⟨z, hz, -, ht⟩ := hexamined examined log
    obtain rfl : e'.native = z := Option.some.inj (native.symm.trans hz)
    exact hskip ht
  | erased examined size log native =>
    obtain ⟨z, hz, hlast, ht⟩ := hexamined examined log
    obtain rfl : e.native = z := hlast.elim id fun hfilled => (nativeLayer.apply_idle size hz hfilled).symm
    rw [← native] at ht
    exact hskip ht

end Lags

-- ---------------------------------------------------------------------------
-- Runs
-- ---------------------------------------------------------------------------

section Runs

variable {s s' : System} {tx : Transaction} {sent : List Inline}

theorem Lags.transact (h : s.elections.Lags N history past) (hP : KeepsElected s tx)
    (hfresh : NumbersFresh s tx) (hok : Amax.transact tx s = .ok (s', sent)) :
    s'.elections.Lags N (history ++ [s'.elections.sets]) (Replay.push past s'.native) := by
  have hreplayed := h.replayed.transact hP hfresh hok
  have hperform := (transact_ok_iff.mp hok).1
  -- every action but two leaves the chain alone
  have hstay : s'.native = s.native → Replay.push past s'.native = past := by
    intro hnative
    rw [Replay.push, if_pos (by rw [hnative]; exact h.trails.here)]
  rcases hP with (hmove | hsettles) | ⟨n, hreg, hnew, -⟩ | ⟨n, hd, -⟩
  · by_cases hsaves : s.Saves tx.action
    · have hlags := ((h.upkept fun hi => hfresh.next hsaves hi).perform rfl hmove).of_ok hperform
      have hnative : s'.native = s.native := Option.some.inj
        (hlags.trails.here.symm.trans h.trails.here)
      rwa [hstay hnative]
    · have hsame : s'.elections = s.elections := elections_of_not_saves hmove hsaves _ hperform
      rw [hstay (congrArg Elections.native hsame)]
      exact h.skip hreplayed (by rw [hsame]) (by rw [hsame]) (by rw [hsame]) (by rw [hsame])
  · cases haction : tx.action with
    | setmprodvote votes =>
      rw [haction] at hperform
      have hsame : Ensures (Amax.setmprodvote tx.env s votes) fun out =>
          out.1 = { s with electGstate := { s.electGstate with minProducerVotes := votes.amount } } :=
        .bind_eq fun _ _ => .check fun _ => .check fun _ => .check fun _ => .ok rfl
      obtain rfl := hsame _ hperform
      rw [hstay rfl]
      exact h.skip hreplayed rfl rfl rfl rfl
    | initbbpelect count =>
      rw [haction] at hperform
      refine h.initbbpelect (fun hneeds => hfresh ?_) _ hperform
      rw [haction]
      exact hneeds
    | onblock bh =>
      rw [haction] at hperform
      exact h.flushed (onblock_rests _ hperform) (onblock_flushed _ hperform)
    | _ => simp [haction, Action.settles] at hsettles
  · obtain ⟨r, -, rfl⟩ := transact_entered hreg hnew hok
    rw [hstay rfl]
    exact h.skip hreplayed rfl rfl rfl rfl
  · obtain ⟨a, -, rfl⟩ := transact_deactivated hd hok
    rw [hstay rfl]
    exact h.skip hreplayed rfl rfl rfl rfl

end Runs

end Elections

/-- A block in which the chain takes what is proposed: it is due and does not abort, and rows that
merge to nothing are erased. -/
structure Delivers (s : System) (env : Env) (bh : BlockHeader) : Prop where
  succeeds : abortOf (transact ⟨env, .onblock bh⟩ s) = none
  due : s.gstate.lastProducerScheduleUpdate + blocksPerMinute < bh.timestamp
  settable : env.nativeSettable = true
  accepts : env.nativeAccepts = true
  erases : ∀ k c, s.Examines k c → 0 < k → 0 < c.getChangeSize ∨ env.needErasing = true

/-- The transaction is a block in which the chain takes what is proposed. -/
def DeliversBlock (s : System) (tx : Transaction) : Prop :=
  ∃ bh, tx.action = .onblock bh ∧ Delivers s tx.env bh

section CatchingUp

variable {s s' : System} {env : Env} {bh : BlockHeader} {sent : List Inline} {tx : Transaction}

/-- The pending changes apply to the producers of the chain, so that a chain that takes changes
takes theirs. -/
theorem Elections.Replayed.drains (h : s.elections.Replayed)
    (hrun : s.electGstate.producerChangeInterrupted = false) (hd : Delivers s env bh)
    (hex : ∃ k c, s.Examines k c) : Drains s env := by
  obtain ⟨k, c, hex⟩ := hex
  refine ⟨⟨hd.settable, fun k' c' hex' _ => ?_⟩, fun hne => ⟨k, c, hex, ?_⟩⟩
  · obtain ⟨z, hz, -⟩ := h.logged.examined hrun hex'
    have happly : c'.apply s.native = some z := hz
    simp [Accepted, setProposedProducersEx, hd.accepts, happly]
  · exact hd.erases k c hex (hex.pos hne)

/-- Whether the log is drained depends on few fields. -/
private theorem Drains.congr {t : System} (h : Drains s env) (hlog : t.electedChanges = s.electedChanges)
    (hg : t.gstate = s.gstate) (hnative : t.native = s.native) : Drains t env := by
  have hex : ∀ k c, t.Examines k c ↔ s.Examines k c := fun k c => by
    rw [System.Examines, System.Examines, hg, hlog]
  refine ⟨⟨h.1.settable, fun k c hk hsize => ?_⟩, fun hne => ?_⟩
  · rw [Accepted, hnative]
    exact h.1.accepted k c ((hex k c).mp hk) hsize
  · obtain ⟨k, c, hk, hflush⟩ := h.2 (hlog ▸ hne)
    exact ⟨k, c, (hex k c).mpr hk, hflush⟩

/-- A block takes at least one row off the log, if there is one. -/
theorem onblock_shortens (h : s.elections.Replayed)
    (hrun : s.electGstate.producerChangeInterrupted = false) (hd : Delivers s env bh) :
    Ensures (onblock env s bh) fun out =>
      out.1.electedChanges.rows.length ≤ s.electedChanges.rows.length - 1 := by
  unfold onblock requireAuth
  refine .check fun _ => .ite (fun hoff => ?_) fun _ => .bind_eq fun s₁ h₁ => ?_
  · have hinit : s.electGstate.isInit = true := h.tracks.isInit
    simp [hinit] at hoff
  · obtain ⟨hlog, hgstate, hnative, henabled⟩ := produceRewards_log h₁
    have hon : s₁.electGstate.isBbpEnabled = true := henabled.trans h.tracks.enabled
    unfold updateSchedule
    rw [if_pos (by rw [hgstate]; exact hd.due), if_pos hon, ← hlog]
    refine .bind_eq fun s₃ h₃ => ?_
    obtain ⟨s₂, h₂, hs₃⟩ := Except.bind_ok_iff.mp h₃
    rw [Except.pure_ok_iff] at hs₃
    subst hs₃
    refine .ok ?_
    have hex : ∃ k c, s.Examines k c := by
      obtain ⟨k, c, hk⟩ := examines_of_update hd.settable h₂
      rw [System.Examines, hgstate, hlog] at hk
      exact ⟨k, c, hk⟩
    have hdrains := (h.drains hrun hd hex).congr hlog hgstate hnative
    exact Ensures.of_yields hdrains.step s₂ h₂

/-- Blocks that deliver leave the elected sets as they are. -/
theorem Elections.Replayed.delivered (h : s.elections.Replayed)
    (hrun : s.electGstate.producerChangeInterrupted = false) (hd : DeliversBlock s tx) :
    ∃ s' sent, Amax.transact tx s = .ok (s', sent) ∧ s'.elections.Replayed ∧
      s'.electGstate.producerChangeInterrupted = false ∧ s'.elections.sets = s.elections.sets ∧
      s'.electedChanges.rows.length ≤ s.electedChanges.rows.length - 1 := by
  obtain ⟨bh, haction, hd⟩ := hd
  obtain ⟨env, action⟩ := tx
  subst haction
  obtain ⟨⟨s', sent⟩, hok⟩ := abortOf_eq_none_iff.mp hd.succeeds
  have hperform := (transact_ok_iff.mp hok).1
  have hrests := onblock_rests _ hperform
  obtain ⟨period, main, backup, hg⟩ := hrests.electGstate
  refine ⟨s', sent, hok, h.flushed hrests (onblock_flushed _ hperform), ?_, hrests.sets,
    onblock_shortens h hrun hd _ hperform⟩
  rw [show s'.electGstate = _ from hg]
  exact hrun

end CatchingUp

end Amax
