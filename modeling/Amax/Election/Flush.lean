-- SUMMARY: Flushing the log of changes: the prefix of rows one call examines, when it is removed, and draining the log.
import Amax.System.Merge
import Amax.Election.Setup

/-! # Flushing the log

`update_elected_producer_changes` reads the rows of `electchange` from the
front, merges those of the current sequence, and proposes the result to the
chain. The rows it has read are removed when the chain takes the proposal. When
the rows merge to nothing there is no proposal, and whether they are removed
is up to a local that was never set. -/

namespace Amax

-- ---------------------------------------------------------------------------
-- The rows a call examines
-- ---------------------------------------------------------------------------

section examined

variable {seq : ℕ} {l : List ElectedChange} {d d' c : ProposedProducerChanges} {k rows n : ℕ}

/-- The changes of the current sequence in `l`, merged one after the other into `d`. -/
def mergeRows (seq : ℕ) (l : List ElectedChange) (d : ProposedProducerChanges) :
    Result ProposedProducerChanges :=
  ((l.filter (·.electedSequence = seq)).map (·.changes)).foldlM (fun d src => src.merge d) d

/-- A call stops reading after `rows` rows that merge to `c`. -/
def Full (rows : ℕ) (c : ProposedProducerChanges) : Prop :=
  maxFlushElectedRows ≤ rows ∨ minFlushElectedChanges ≤ c.getChangeSize

instance (rows : ℕ) (c : ProposedProducerChanges) : Decidable (Full rows c) :=
  inferInstanceAs (Decidable (_ ∨ _))

/-- A call that has read `rows` rows and merged them into `d` reads the first `k` of the rows
`l` and has `c` then: it reads on as long as there are rows and it is not full. -/
structure ExaminedFrom (seq : ℕ) (l : List ElectedChange) (rows : ℕ)
    (d : ProposedProducerChanges) (k : ℕ) (c : ProposedProducerChanges) : Prop where
  le : k ≤ l.length
  pos : l ≠ [] → 0 < k
  merged : mergeRows seq (l.take k) d = .ok c
  stops : k = l.length ∨ Full (rows + k) c
  reads : ∀ j c', 0 < j → j < k → mergeRows seq (l.take j) d = .ok c' → ¬ Full (rows + j) c'

/-- The prefix of the log a call examines: the first `k` rows, which merge to `c`. -/
def Examined (seq : ℕ) (l : List ElectedChange) (k : ℕ) (c : ProposedProducerChanges) : Prop :=
  ExaminedFrom seq l 0 {} k c

/-- What one row is merged into. -/
theorem mergeRows_cons {itr : ElectedChange} : mergeRows seq (itr :: l) d =
    (if itr.electedSequence = seq then itr.changes.merge d else .ok d) >>= mergeRows seq l := by
  unfold mergeRows
  by_cases h : itr.electedSequence = seq
  · simp only [List.filter_cons, h, decide_true, if_true, List.map_cons, List.foldlM_cons]
  · simp only [List.filter_cons, h, decide_false, Bool.false_eq_true, if_false]
    rfl

theorem mergeRows_single {itr : ElectedChange} : mergeRows seq [itr] d =
    (if itr.electedSequence = seq then itr.changes.merge d else .ok d) := by
  rw [mergeRows_cons]
  cases (if itr.electedSequence = seq then itr.changes.merge d else .ok d) <;> rfl

namespace ExaminedFrom

theorem nil_iff : ExaminedFrom seq [] rows d k c ↔ k = 0 ∧ c = d := by
  constructor
  · intro h
    obtain rfl := Nat.le_zero.mp h.le
    exact ⟨rfl, (Except.ok.inj h.merged).symm⟩
  · rintro ⟨rfl, rfl⟩
    exact ⟨le_rfl, fun h => absurd rfl h, rfl, .inl rfl, fun _ _ _ hj => absurd hj (Nat.not_lt_zero _)⟩

/-- A call that is full after a row stops there. -/
theorem cons_iff_of_full {itr : ElectedChange} (hd : mergeRows seq [itr] d = .ok d')
    (hfull : Full (rows + 1) d') : ExaminedFrom seq (itr :: l) rows d k c ↔ k = 1 ∧ c = d' := by
  constructor
  · intro h
    have hk : k = 1 := by
      by_contra hne
      have hpos := h.pos (List.cons_ne_nil _ _)
      exact h.reads 1 d' one_pos (by omega) (by rwa [List.take_succ_cons, List.take_zero]) hfull
    subst hk
    have hm := h.merged
    rw [List.take_succ_cons, List.take_zero, hd] at hm
    exact ⟨rfl, (Except.ok.inj hm).symm⟩
  · rintro ⟨rfl, rfl⟩
    refine ⟨by simp, fun _ => one_pos, by rwa [List.take_succ_cons, List.take_zero], .inr hfull, ?_⟩
    intro j _ h0 h1
    omega

/-- A call that is not full after a row goes on with the others. -/
theorem cons_iff_of_not_full {itr : ElectedChange} (hd : mergeRows seq [itr] d = .ok d')
    (hfull : ¬ Full (rows + 1) d') : ExaminedFrom seq (itr :: l) rows d k c ↔
      ∃ k', k = k' + 1 ∧ ExaminedFrom seq l (rows + 1) d' k' c := by
  have hstep : ∀ j, mergeRows seq ((itr :: l).take (j + 1)) d = mergeRows seq (l.take j) d' := by
    intro j
    rw [List.take_succ_cons, mergeRows_cons, ← mergeRows_single, hd]
    rfl
  have hrows : ∀ j, rows + 1 + j = rows + (j + 1) := fun j => by omega
  constructor
  · intro h
    obtain ⟨k', rfl⟩ := Nat.exists_eq_succ_of_ne_zero (h.pos (List.cons_ne_nil _ _)).ne'
    have hmerged := h.merged
    rw [hstep] at hmerged
    refine ⟨k', rfl, Nat.le_of_succ_le_succ h.le, fun hne => ?_, hmerged, ?_, ?_⟩
    · rcases Nat.eq_zero_or_pos k' with rfl | hpos
      · rcases h.stops with hlen | hf
        · exact absurd (List.length_eq_zero_iff.mp (Nat.succ_injective hlen).symm) hne
        · obtain rfl : d' = c := Except.ok.inj hmerged
          exact absurd hf hfull
      · exact hpos
    · rcases h.stops with hlen | hf
      · exact .inl (Nat.succ_injective hlen)
      · exact .inr (by rwa [hrows])
    · intro j c' h0 hj hm
      rw [hrows]
      exact h.reads (j + 1) c' (Nat.succ_pos j) (Nat.succ_lt_succ hj) (by rwa [hstep])
  · rintro ⟨k', rfl, h⟩
    refine ⟨Nat.succ_le_succ h.le, fun _ => Nat.succ_pos k', by rw [hstep]; exact h.merged, ?_, ?_⟩
    · rcases h.stops with hlen | hf
      · exact .inl (by rw [hlen, List.length_cons])
      · exact .inr (by rwa [← hrows])
    · intro j c' h0 hj hm
      obtain ⟨i, rfl⟩ := Nat.exists_eq_succ_of_ne_zero h0.ne'
      rw [Nat.succ_eq_add_one, hstep] at hm
      rcases Nat.eq_zero_or_pos i with rfl | hpos
      · obtain rfl : d' = c' := Except.ok.inj hm
        exact hfull
      · have := h.reads i c' hpos (Nat.lt_of_succ_lt_succ hj) hm
        rwa [hrows] at this

end ExaminedFrom

private theorem flushRows_cons {itr : ElectedChange} : flushRows seq (itr :: l) rows d =
    mergeRows seq [itr] d >>= fun d' =>
      if Full (rows + 1) d' then .ok (rows + 1, d') else flushRows seq l (rows + 1) d' := by
  rw [mergeRows_single, flushRows]
  rfl

/-- The loop reads the prefix it should. -/
theorem flushRows_ok_iff : flushRows seq l rows d = .ok (n, c) ↔
    ∃ k, n = rows + k ∧ ExaminedFrom seq l rows d k c := by
  induction l generalizing rows d with
  | nil =>
    simp only [flushRows, Except.ok.injEq, Prod.mk.injEq, ExaminedFrom.nil_iff]
    constructor
    · rintro ⟨rfl, rfl⟩
      exact ⟨0, rfl, rfl, rfl⟩
    · rintro ⟨k, rfl, rfl, rfl⟩
      exact ⟨rfl, rfl⟩
  | cons itr rest ih =>
    rw [flushRows_cons, Except.bind_ok_iff]
    constructor
    · rintro ⟨d', hd, hrest⟩
      by_cases hfull : Full (rows + 1) d'
      · rw [if_pos hfull, Except.ok.injEq, Prod.mk.injEq] at hrest
        exact ⟨1, hrest.1.symm, (ExaminedFrom.cons_iff_of_full hd hfull).mpr ⟨rfl, hrest.2.symm⟩⟩
      · rw [if_neg hfull, ih] at hrest
        obtain ⟨k, rfl, hk⟩ := hrest
        exact ⟨k + 1, by omega, (ExaminedFrom.cons_iff_of_not_full hd hfull).mpr ⟨k, rfl, hk⟩⟩
    · rintro ⟨k, rfl, hk⟩
      obtain ⟨d', hd⟩ : ∃ d', mergeRows seq [itr] d = .ok d' := by
        obtain ⟨j, rfl⟩ := Nat.exists_eq_succ_of_ne_zero (hk.pos (List.cons_ne_nil _ _)).ne'
        have hm := hk.merged
        rw [List.take_succ_cons, mergeRows_cons, ← mergeRows_single, Except.bind_ok_iff] at hm
        exact ⟨_, hm.choose_spec.1⟩
      refine ⟨d', hd, ?_⟩
      by_cases hfull : Full (rows + 1) d'
      · obtain ⟨rfl, rfl⟩ := (ExaminedFrom.cons_iff_of_full hd hfull).mp hk
        rw [if_pos hfull]
      · obtain ⟨k', rfl, hk'⟩ := (ExaminedFrom.cons_iff_of_not_full hd hfull).mp hk
        rw [if_neg hfull, ih]
        exact ⟨k', by omega, hk'⟩

theorem flushRows_iff_examined : flushRows seq l 0 {} = .ok (k, c) ↔ Examined seq l k c := by
  rw [flushRows_ok_iff]
  simp only [Nat.zero_add, exists_eq_left', Examined]

/-- The examined prefix is the only one. -/
theorem Examined.unique {k' : ℕ} {c' : ProposedProducerChanges} (h : Examined seq l k c)
    (h' : Examined seq l k' c') : k = k' ∧ c = c' := by
  have heq := (flushRows_iff_examined.mpr h).symm.trans (flushRows_iff_examined.mpr h')
  exact ⟨congrArg Prod.fst (Except.ok.inj heq), congrArg Prod.snd (Except.ok.inj heq)⟩

end examined

-- ---------------------------------------------------------------------------
-- One call
-- ---------------------------------------------------------------------------

section flush

variable {env : Env} {s s' : System} {k : ℕ} {c : ProposedProducerChanges}

/-- The chain takes the changes `c`. -/
def Accepted (env : Env) (s : System) (c : ProposedProducerChanges) : Prop :=
  0 < (setProposedProducersEx env.nativeAccepts c s.native).1

instance (env : Env) (s : System) (c : ProposedProducerChanges) : Decidable (Accepted env s c) :=
  inferInstanceAs (Decidable (0 < _))

/-- The prefix of the log of `s` that a call examines. -/
def System.Examines (s : System) (k : ℕ) (c : ProposedProducerChanges) : Prop :=
  Examined s.gstate.electedSequence s.electedChanges.rows k c

/-- A call that has examined rows which merge to `c` removes them. -/
def Removes (env : Env) (s : System) (c : ProposedProducerChanges) : Prop :=
  if 0 < c.getChangeSize then Accepted env s c else env.needErasing = true

instance (env : Env) (s : System) (c : ProposedProducerChanges) : Decidable (Removes env s c) :=
  inferInstanceAs (Decidable (ite _ _ _))

/-- An empty set of changes is taken as soon as changes can be set at all. -/
theorem settable_iff :
    (setProposedProducersEx env.nativeSettable {} s.native).1 < 0 ↔ env.nativeSettable = false := by
  have happly : ({} : ProposedProducerChanges).apply s.native = some s.native :=
    ProposedProducerChanges.apply_eq_some_iff.mpr (ProposedProducerChanges.leads_empty s.native)
  cases env.nativeSettable with
  | true => simp [setProposedProducersEx, happly]
  | false => simp [setProposedProducersEx]

theorem update_of_not_settable (h : env.nativeSettable = false) :
    updateElectedProducerChanges env s = .ok s := by
  rw [updateElectedProducerChanges, if_pos (settable_iff.mpr h)]
  rfl

/-- What a call does with the rows it examines. -/
theorem update_of_examines (h : env.nativeSettable = true) (hex : s.Examines k c) :
    ∃ s', updateElectedProducerChanges env s = .ok s' ∧
      s'.electedChanges = if Removes env s c then s.electedChanges.dropFirst k
        else s.electedChanges := by
  have hset : ¬ (setProposedProducersEx env.nativeSettable {} s.native).1 < 0 := by
    rw [settable_iff, h]
    exact Bool.noConfusion
  rw [updateElectedProducerChanges, if_neg hset, flushRows_iff_examined.mpr hex]
  simp only [bind, Except.bind, pure, Except.pure, gt_iff_lt, Removes]
  rcases Nat.eq_zero_or_pos k with rfl | hk
  · exact ⟨s, rfl, by split_ifs <;> rfl⟩
  · rw [if_pos hk]
    by_cases hsize : 0 < c.getChangeSize
    · simp only [if_pos hsize, Accepted]
      split_ifs
      · exact ⟨_, rfl, rfl⟩
      · exact ⟨_, rfl, rfl⟩
    · simp only [if_neg hsize]
      split_ifs
      · exact ⟨_, rfl, rfl⟩
      · exact ⟨_, rfl, rfl⟩

/-- A call that does not abort examines a prefix, if changes can be set. -/
theorem examines_of_update (h : env.nativeSettable = true)
    (hok : updateElectedProducerChanges env s = .ok s') : ∃ k c, s.Examines k c := by
  have hset : ¬ (setProposedProducersEx env.nativeSettable {} s.native).1 < 0 := by
    rw [settable_iff, h]
    exact Bool.noConfusion
  rw [updateElectedProducerChanges, if_neg hset, Except.bind_ok_iff] at hok
  obtain ⟨⟨k, c⟩, hflush, -⟩ := hok
  exact ⟨k, c, flushRows_iff_examined.mp hflush⟩

/-- A call removes the rows it examines or none, and only rows whose changes the chain has taken
or that merge to nothing; and it makes progress on a chain that takes what is proposed. -/
structure Flushes (env : Env) (s : System) : Prop where
  atomic : Ensures (updateElectedProducerChanges env s) fun s' =>
    s'.electedChanges = s.electedChanges ∨ ∃ k c, s.Examines k c ∧
      s'.electedChanges = s.electedChanges.dropFirst k ∧ (c.getChangeSize = 0 ∨ Accepted env s c)
  progress : env.nativeSettable = true → s.electedChanges.rows ≠ [] →
    (∀ k c, s.Examines k c → 0 < c.getChangeSize → Accepted env s c) →
    ∃ s' k c, updateElectedProducerChanges env s = .ok s' ∧ s.Examines k c ∧ 0 < k ∧
      s'.electedChanges = s.electedChanges.dropFirst k

theorem update_atomic : Ensures (updateElectedProducerChanges env s) fun s' =>
    s'.electedChanges = s.electedChanges ∨ ∃ k c, s.Examines k c ∧
      s'.electedChanges = s.electedChanges.dropFirst k ∧
        (c.getChangeSize = 0 ∨ Accepted env s c) := by
  intro s' hok
  cases hset : env.nativeSettable with
  | false =>
    rw [update_of_not_settable hset] at hok
    rw [← Except.ok.inj hok]
    exact .inl rfl
  | true =>
    obtain ⟨k, c, hex⟩ := examines_of_update hset hok
    obtain ⟨s₁, hok₁, hchanges⟩ := update_of_examines hset hex
    obtain rfl : s₁ = s' := Except.ok.inj (hok₁.symm.trans hok)
    by_cases hrem : Removes env s c
    · rw [if_pos hrem] at hchanges
      refine .inr ⟨k, c, hex, hchanges, ?_⟩
      by_cases hsize : 0 < c.getChangeSize
      · rw [Removes, if_pos hsize] at hrem
        exact .inr hrem
      · exact .inl (Nat.eq_zero_of_not_pos hsize)
    · rw [if_neg hrem] at hchanges
      exact .inl hchanges

/-- The rows a call examines merge, and to something, or the flag happens to be set. -/
def Flushable (env : Env) (s : System) : Prop :=
  ∃ k c, s.Examines k c ∧ (0 < c.getChangeSize ∨ env.needErasing = true)

/-- The chain takes what a call proposes. -/
structure Takes (env : Env) (s : System) : Prop where
  settable : env.nativeSettable = true
  accepted : ∀ k c, s.Examines k c → 0 < c.getChangeSize → Accepted env s c

private theorem dropFirst_ne {t : Table ElectedChange.id} (ht : t.rows ≠ []) (hk : 0 < k) :
    t.dropFirst k ≠ t := by
  intro h
  have hlen := congrArg (fun t => t.rows.length) h
  have hpos := List.length_pos_iff.mpr ht
  simp only [Table.dropFirst, List.length_drop] at hlen
  omega

/-- On a chain that takes what is proposed, a call removes rows if and only if they merge to
something or the flag happens to be set. -/
theorem flushes_iff : Flushes env s ↔
    (s.electedChanges.rows ≠ [] → Takes env s → Flushable env s) := by
  constructor
  · intro h hne htakes
    obtain ⟨s', k, c, hok, hex, hk, hdrop⟩ := h.progress htakes.settable hne htakes.accepted
    obtain ⟨s₁, hok₁, hchanges⟩ := update_of_examines htakes.settable hex
    obtain rfl : s₁ = s' := Except.ok.inj (hok₁.symm.trans hok)
    refine ⟨k, c, hex, ?_⟩
    by_cases hrem : Removes env s c
    · by_cases hsize : 0 < c.getChangeSize
      · exact .inl hsize
      · rw [Removes, if_neg hsize] at hrem
        exact .inr hrem
    · rw [if_neg hrem, hdrop] at hchanges
      exact absurd hchanges (dropFirst_ne hne hk)
  · intro h
    refine ⟨update_atomic, fun hset hne hacc => ?_⟩
    obtain ⟨k, c, hex, hflush⟩ := h hne ⟨hset, hacc⟩
    obtain ⟨s', hok, hchanges⟩ := update_of_examines hset hex
    have hrem : Removes env s c := by
      rw [Removes]
      split_ifs with hsize
      · exact hacc k c hex hsize
      · exact hflush.resolve_left hsize
    rw [if_pos hrem] at hchanges
    exact ⟨s', k, c, hok, hex, hex.pos hne, hchanges⟩

end flush

-- ---------------------------------------------------------------------------
-- Repeated calls
-- ---------------------------------------------------------------------------

/-- The chain takes what a call proposes, and the call can flush what there is. -/
def Drains (s : System) (env : Env) : Prop :=
  Takes env s ∧ (s.electedChanges.rows ≠ [] → Flushable env s)

/-- One call leaves fewer rows, if there are any. -/
theorem Drains.step {s : System} {env : Env} (h : Drains s env) :
    Yields (updateElectedProducerChanges env s) fun s' =>
      s'.electedChanges.rows.length ≤ s.electedChanges.rows.length - 1 := by
  by_cases hne : s.electedChanges.rows = []
  · have hex : s.Examines 0 {} := by
      rw [System.Examines, Examined, hne]
      exact ExaminedFrom.nil_iff.mpr ⟨rfl, rfl⟩
    obtain ⟨s', hok, hchanges⟩ := update_of_examines h.1.settable hex
    refine ⟨s', hok, ?_⟩
    show s'.electedChanges.rows.length ≤ _
    rw [hchanges]
    split_ifs <;> simp [Table.dropFirst, hne]
  · obtain ⟨s', k, c, hok, -, hk, hdrop⟩ :=
      (flushes_iff.mpr fun hne _ => h.2 hne).progress h.1.settable hne h.1.accepted
    refine ⟨s', hok, ?_⟩
    show s'.electedChanges.rows.length ≤ _
    rw [hdrop, Table.dropFirst, List.length_drop]
    omega

/-- As many calls as there are rows empty the log. -/
theorem Drains.empties {envs : List Env} {s : System}
    (h : Fold.Along (fun s env => updateElectedProducerChanges env s) Drains s envs)
    (hlen : s.electedChanges.rows.length ≤ envs.length) :
    Yields (envs.foldlM (fun s env => updateElectedProducerChanges env s) s) fun s' =>
      s'.electedChanges.rows = [] := by
  induction envs generalizing s with
  | nil => exact .ok (List.length_eq_zero_iff.mp (Nat.le_zero.mp hlen))
  | cons env envs ih =>
    obtain ⟨hdrain, hrest⟩ := h
    obtain ⟨s', hok, hless⟩ := hdrain.step
    simp only [hok] at hrest
    rw [List.foldlM_cons, hok]
    rw [List.length_cons] at hlen
    exact ih hrest (by omega)

/-- Exactly when a call is all-or-nothing and makes progress; and calls that make progress, one
for each row, empty the log. -/
theorem flush_drains (s : System) :
    (∀ env, Flushes env s ↔ (s.electedChanges.rows ≠ [] → Takes env s → Flushable env s)) ∧
    ∀ envs, Fold.Along (fun s env => updateElectedProducerChanges env s) Drains s envs →
      s.electedChanges.rows.length ≤ envs.length →
      Yields (envs.foldlM (fun s env => updateElectedProducerChanges env s) s) fun s' =>
        s'.electedChanges.rows = [] :=
  ⟨fun _ => flushes_iff, fun _ => Drains.empties⟩

/-- Producers 22 to 25 have enough votes to be elected, and producer 26 has too few. -/
private def crowded : System := electionChain 26 [
  supporter 101 (firstProducers 21) 200000000,
  supporter 102 (.single 22) 50000000, supporter 103 (.single 23) 40000000,
  supporter 104 (.single 24) 30000000, supporter 105 (.single 25) 20000000,
  supporter 106 (.single 26) 1000000]

/-- Producer 26 gets the votes that let the backup queue grow by producer 25. -/
private def growth : List Transaction :=
  [⟨electionDay, .initbbpelect 10000⟩, ⟨electionDay, .addvote 106 ⟨15000000, voteSymbol⟩⟩]

/-- The elections begin again, producer 25 becomes a backup producer, and the queue grows again when
producer 26 loses its votes. -/
private def regrowth : List Transaction :=
  [⟨electionDay, .initbbpelect 4⟩, ⟨electionDay, .addvote 105 ⟨35000000, voteSymbol⟩⟩,
    ⟨electionDay, .subvote 106 ⟨14000000, voteSymbol⟩⟩]

/-- Producers 25 and 26 lose their votes again, and the queue shrinks. -/
private def shrinkage : List Transaction :=
  [⟨electionDay, .subvote 106 ⟨14000000, voteSymbol⟩⟩,
    ⟨electionDay, .subvote 105 ⟨15000000, voteSymbol⟩⟩]

private theorem takes_of_size {env : Env} {s : System} {k : ℕ} {c : ProposedProducerChanges}
    (hset : env.nativeSettable = true) (hex : s.Examines k c)
    (hacc : 0 < c.getChangeSize → Accepted env s c) : Takes env s := by
  refine ⟨hset, fun k' c' hex' hsize => ?_⟩
  obtain ⟨-, rfl⟩ := hex.unique hex'
  exact hacc hsize

private theorem examines_of_flushRows {α : Type} {s : System} {k : ℕ} {a : α}
    (f : ProposedProducerChanges → α)
    (h : (flushRows s.gstate.electedSequence s.electedChanges.rows 0 {}).map
      (fun r => (r.1, f r.2)) = .ok (k, a)) : ∃ c, s.Examines k c ∧ f c = a := by
  cases hf : flushRows s.gstate.electedSequence s.electedChanges.rows 0 {} with
  | error e =>
    rw [hf] at h
    cases h
  | ok r =>
    obtain ⟨k', c⟩ := r
    rw [hf] at h
    obtain ⟨rfl, rfl⟩ := Prod.mk.inj (Except.ok.inj h)
    exact ⟨c, flushRows_iff_examined.mp hf, rfl⟩

private theorem drains_of_nil {envs : List Env} {s : System}
    (hset : ∀ env ∈ envs, env.nativeSettable = true) (hnil : s.electedChanges.rows = []) :
    Fold.Along (fun s env => updateElectedProducerChanges env s) Drains s envs := by
  induction envs generalizing s with
  | nil => trivial
  | cons env envs ih =>
    have hsettable := hset env List.mem_cons_self
    have hex : s.Examines 0 {} := by
      rw [System.Examines, Examined, hnil]
      exact ExaminedFrom.nil_iff.mpr ⟨rfl, rfl⟩
    obtain ⟨s', hok, hchanges⟩ := update_of_examines hsettable hex
    have hnil' : s'.electedChanges.rows = [] := by
      rw [hchanges]
      split_ifs
      · exact List.drop_eq_nil_of_le (by simp [hnil])
      · exact hnil
    have htakes : Takes env s := takes_of_size hsettable hex fun h => absurd h (by decide)
    refine ⟨⟨htakes, fun hne => absurd hnil hne⟩, ?_⟩
    simp only [hok]
    exact ih (fun env henv => hset env (List.mem_cons_of_mem _ henv)) hnil'

/-- A row from before the elections began again, and two rows after it, are flushed together. -/
theorem flush_drains_growth :
    let s := crowded.final (growth ++ regrowth)
    s.electedChanges.rows.map (fun r => decide (r.electedSequence = s.gstate.electedSequence)) =
        [false, true, true] ∧
      Flushes electionDay s ∧
      Yields ([electionDay, electionDay, electionDay].foldlM
        (fun s env => updateElectedProducerChanges env s) s) fun s' =>
          s'.electedChanges.rows = [] := by
  intro s
  obtain ⟨c, hex, hc⟩ : ∃ c, s.Examines 3 c ∧
      (c.getChangeSize, decide (Accepted electionDay s c)) = (2, true) :=
    examines_of_flushRows _ (by decide +kernel)
  obtain ⟨hsize, hacc⟩ := Prod.mk.inj hc
  have hpos : 0 < c.getChangeSize := by omega
  have hflush : Flushable electionDay s := ⟨3, c, hex, .inl hpos⟩
  have htakes : Takes electionDay s := takes_of_size rfl hex fun _ => of_decide_eq_true hacc
  have hlen : s.electedChanges.rows.length = 3 := by decide +kernel
  obtain ⟨s', hok, hchanges⟩ := update_of_examines htakes.settable hex
  have hremoves : Removes electionDay s c := by
    rw [Removes, if_pos hpos]
    exact of_decide_eq_true hacc
  have hnil : s'.electedChanges.rows = [] := by
    rw [hchanges, if_pos hremoves]
    exact List.drop_eq_nil_of_le hlen.le
  refine ⟨by decide +kernel, ((flush_drains s).1 electionDay).mpr fun _ _ => hflush,
    (flush_drains s).2 _ ⟨⟨htakes, fun _ => hflush⟩, ?_⟩ hlen.le⟩
  simp only [hok]
  exact drains_of_nil (by decide) hnil

/-- The additions of one vote are taken back by another before they are flushed: the two rows
merge to nothing and stay, although the chain takes what is proposed. -/
theorem flush_stuck_cancelled :
    let s := crowded.final (growth ++ shrinkage)
    Run.Along transact (fun s tx => abortOf (transact tx s) = none) crowded (growth ++ shrinkage) ∧
      s.electedChanges.rows.map (·.id) = [1, 2] ∧ Takes electionDay s ∧
      Yields (updateElectedProducerChanges electionDay s) (fun s' =>
        s'.electedChanges = s.electedChanges) ∧ ¬ Flushes electionDay s := by
  intro s
  obtain ⟨c, hex, hsize⟩ : ∃ c, s.Examines 2 c ∧ c.getChangeSize = 0 :=
    examines_of_flushRows _ (by decide +kernel)
  have htakes : Takes electionDay s := takes_of_size rfl hex fun h => absurd h (by omega)
  have hrows : s.electedChanges.rows.map (·.id) = [1, 2] := by decide +kernel
  refine ⟨by decide +kernel, hrows, htakes, ?_, fun h => ?_⟩
  · obtain ⟨s', hok, hchanges⟩ := update_of_examines htakes.settable hex
    have hkept : ¬ Removes electionDay s c := by
      rw [Removes, hsize, if_neg (Nat.lt_irrefl 0)]
      decide
    exact ⟨s', hok, hchanges.trans (if_neg hkept)⟩
  · have hne : s.electedChanges.rows ≠ [] := fun hnil => by simp [hnil] at hrows
    obtain ⟨k, c', hex', hor⟩ := flushes_iff.mp h hne htakes
    obtain ⟨-, rfl⟩ := hex.unique hex'
    rcases hor with hpos | hset
    · omega
    · exact absurd hset (by decide)

end Amax
