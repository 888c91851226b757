-- SUMMARY: Changes as patches of the authorities of the elected sets, and records that carry the authorities of their rows.
import Amax.Election.Tracking
import Amax.System.Merge

/-! # Signing authorities

A change map also says which authority each producer of a set signs with. The
authorities are copied from rows into cached records and from there into the
changes, so they are the current ones as long as every cached record carries the
authority of its row. -/

namespace Amax

-- ---------------------------------------------------------------------------
-- The elected sets with their authorities
-- ---------------------------------------------------------------------------

/-- The producers of both elected sets with the authorities they sign with. -/
@[ext] structure Signers where
  main : Authorities
  backup : Authorities

/-- The authorities in the rows of producers. -/
def authorities (producers : Table ProducerInfo.owner) : Authorities :=
  fun n => (producers.find? n).map (·.producerAuthority)

namespace Authorities

variable (A : Authorities)

/-- The authorities of the producers of a set. -/
def on (S : Finset Name) : Authorities := fun n => if n ∈ S then A n else none

/-- The authorities of the elected producers. -/
def signers (n : Native) : Signers := ⟨A.on n.main, A.on n.backup⟩

/-- `c` carries the authority of the producer it names. -/
def Current (c : ProducerElectedInfo) : Prop := A c.name = some c.authority

instance (c : ProducerElectedInfo) : Decidable (A.Current c) :=
  inferInstanceAs (Decidable (_ = _))

/-- The operation is about a producer that has an authority, and hands on the current one. -/
def Fits (op : QueueOp) : Prop :=
  match op.record with
  | .add authority | .modify authority => A op.name = some authority
  | .del => (A op.name).isSome

variable {A} {c : ProducerElectedInfo}

theorem Current.add (h : A.Current c) (side : ElectedSide) : A.Fits (.add side c) := h

theorem Current.modify (h : A.Current c) (side : ElectedSide) : A.Fits (.modify side c) := h

theorem Current.del (h : A.Current c) (side : ElectedSide) : A.Fits (.del side c) :=
  Option.isSome_of_eq_some h

end Authorities

-- ---------------------------------------------------------------------------
-- Changes as patches
-- ---------------------------------------------------------------------------

namespace ProposedProducerChanges

/-- Apply the changes to both elected sets. -/
def applyTo (c : ProposedProducerChanges) (σ : Signers) : Option Signers := do
  let main ← c.mainChanges.applyTo σ.main
  let backup ← c.backupChanges.applyTo σ.backup
  return { main, backup }

theorem applyTo_eq_some_iff {c : ProposedProducerChanges} {σ σ' : Signers} :
    c.applyTo σ = some σ' ↔ c.mainChanges.applyTo σ.main = some σ'.main ∧
      c.backupChanges.applyTo σ.backup = some σ'.backup := by
  obtain ⟨main, backup⟩ := σ'
  simp only [applyTo, Option.bind_eq_bind, Option.pure_def, Option.bind_eq_some_iff,
    Option.some.injEq, Signers.mk.injEq]
  constructor
  · rintro ⟨m, hm, b, hb, rfl, rfl⟩
    exact ⟨hm, hb⟩
  · rintro ⟨hm, hb⟩
    exact ⟨main, hm, backup, hb, rfl, rfl⟩

theorem applyTo_empty (σ : Signers) : ({} : ProposedProducerChanges).applyTo σ = some σ := rfl

end ProposedProducerChanges

/-- What an operation does to the authorities of the elected sets. -/
def QueueOp.sign (op : QueueOp) (σ : Signers) : Option Signers :=
  match op.side with
  | .main => (MapPatch.step op.record.edit op.name σ.main).map fun main => { σ with main }
  | .backup => (MapPatch.step op.record.edit op.name σ.backup).map fun backup => { σ with backup }

/-- What a list of operations does to the authorities of the elected sets. -/
def sign (ops : List QueueOp) (σ : Signers) : Option Signers := ops.foldlM (fun σ op => op.sign σ) σ

theorem ProducerChangeMap.edit_applyTo {c : ProducerChangeMap} {S S' S'' : Authorities} {n : Name}
    {r : ProducerChangeRecord} (h : c.applyTo S = some S')
    (hs : MapPatch.step r.edit n S' = some S'') :
    ∃ changes, c.changes.edit n r = .ok changes ∧
      ({ c with changes } : ProducerChangeMap).applyTo S = some S'' := by
  rw [applyTo, MapPatch.run_eq_some_iff] at h
  obtain ⟨e, he⟩ := h.compose_isSome hs
  obtain ⟨changes, hok, hedit⟩ := ChangeMap.edit_composes he
  refine ⟨changes, hok, ?_⟩
  rw [applyTo, MapPatch.run_eq_some_iff]
  exact h.push he hedit hs

namespace ProposedProducerChanges

/-- The changes keep what a set held before. -/
def Keeps (c : ProposedProducerChanges) : Prop :=
  c.mainChanges.clearExisted = false ∧ c.backupChanges.clearExisted = false

variable {c : ProposedProducerChanges} {σ σ' σ'' : Signers}

/-- An operation that is valid on the authorities the changes lead to is recorded. -/
theorem record_applyTo {op : QueueOp} (hk : c.Keeps) (h : c.applyTo σ = some σ')
    (hs : op.sign σ' = some σ'') :
    ∃ c', c.record op = .ok c' ∧ c'.Keeps ∧ c'.applyTo σ = some σ'' := by
  obtain ⟨side, name, change⟩ := op
  obtain ⟨hmain, hbackup⟩ := applyTo_eq_some_iff.mp h
  cases side with
  | main =>
    simp only [QueueOp.sign, Option.map_eq_some_iff] at hs
    obtain ⟨S, hS, rfl⟩ := hs
    obtain ⟨changes, hok, happly⟩ := ProducerChangeMap.edit_applyTo hmain hS
    refine ⟨{ c with mainChanges := { c.mainChanges with changes } }, ?_, hk,
      applyTo_eq_some_iff.mpr ⟨happly, hbackup⟩⟩
    simp only [record, Except.bind_ok_iff]
    exact ⟨changes, hok, rfl⟩
  | backup =>
    simp only [QueueOp.sign, Option.map_eq_some_iff] at hs
    obtain ⟨S, hS, rfl⟩ := hs
    obtain ⟨changes, hok, happly⟩ := ProducerChangeMap.edit_applyTo hbackup hS
    refine ⟨{ c with backupChanges := { c.backupChanges with changes } }, ?_, hk,
      applyTo_eq_some_iff.mpr ⟨hmain, happly⟩⟩
    simp only [record, Except.bind_ok_iff]
    exact ⟨changes, hok, rfl⟩

theorem foldlM_record_applyTo {ops : List QueueOp} (hk : c.Keeps) (h : c.applyTo σ = some σ')
    (hs : sign ops σ' = some σ'') :
    Yields (ops.foldlM record c) fun c' => c'.Keeps ∧ c'.applyTo σ = some σ'' := by
  induction ops generalizing c σ' with
  | nil =>
    obtain rfl : σ' = σ'' := by simpa [sign] using hs
    exact .ok ⟨hk, h⟩
  | cons op ops ih =>
    simp only [sign, List.foldlM_cons, Option.bind_eq_bind, Option.bind_eq_some_iff] at hs
    obtain ⟨σ₁, hop, hs⟩ := hs
    obtain ⟨c₁, hc₁, hk₁, h₁⟩ := record_applyTo hk h hop
    rw [List.foldlM_cons, hc₁]
    exact ih hk₁ h₁ hs

end ProposedProducerChanges

-- ---------------------------------------------------------------------------
-- Operations with current authorities
-- ---------------------------------------------------------------------------

namespace Authorities

variable {A : Authorities}

theorem on_of_mem {S : Finset Name} {n : Name} (h : n ∈ S) : A.on S n = A n := if_pos h

theorem on_of_notMem {S : Finset Name} {n : Name} (h : n ∉ S) : A.on S n = none := if_neg h

private theorem update_on {S S' : Finset Name} {n : Name} {v : Option BlockSigningAuthority}
    (hv : A.on S' n = v) (hS : ∀ m, m ≠ n → (m ∈ S' ↔ m ∈ S)) :
    Function.update (A.on S) n v = A.on S' := by
  funext m
  by_cases hm : m = n
  · rw [hm, Function.update_self, hv]
  · simp only [Function.update_of_ne hm, on, hS m hm]

private theorem on_step {op : QueueOp} (hf : A.Fits op) {S S' : Finset Name}
    (h : Patch.step op.record.kind op.name S = some S') :
    MapPatch.step op.record.edit op.name (A.on S) = some (A.on S') := by
  obtain ⟨side, name, record⟩ := op
  cases record with
  | add authority =>
    simp only [ProducerChangeRecord.kind, Patch.step] at h
    split_ifs at h with hname
    obtain rfl := Option.some.inj h
    simp only [ProducerChangeRecord.edit, MapPatch.step, on_of_notMem hname, Option.some.injEq]
    refine update_on ?_ fun m hm => by simp [hm]
    rw [on_of_mem (Finset.mem_insert_self name S)]
    exact hf
  | modify authority =>
    simp only [ProducerChangeRecord.kind, Patch.step] at h
    split_ifs at h with hname
    obtain rfl := Option.some.inj h
    have hold : A.on S name = some authority := (on_of_mem hname).trans hf
    simp only [ProducerChangeRecord.edit, MapPatch.step, hold, Option.some.injEq]
    exact update_on hold fun _ _ => Iff.rfl
  | del =>
    simp only [ProducerChangeRecord.kind, Patch.step] at h
    split_ifs at h with hname
    obtain rfl := Option.some.inj h
    obtain ⟨authority, hauthority⟩ := Option.isSome_iff_exists.mp hf
    have hold : A.on S name = some authority := (on_of_mem hname).trans hauthority
    simp only [ProducerChangeRecord.edit, MapPatch.step, hold, Option.some.injEq]
    exact update_on (on_of_notMem (Finset.notMem_erase name S)) fun m hm => by simp [hm]

/-- An operation that fits turns the authorities as it turns the sets. -/
theorem Fits.sign {op : QueueOp} (hf : A.Fits op) {n n' : Native} (h : op.step n = some n') :
    op.sign (A.signers n) = some (A.signers n') := by
  obtain ⟨side, name, record⟩ := op
  cases side with
  | main =>
    simp only [QueueOp.step, Option.map_eq_some_iff] at h
    obtain ⟨S, hS, rfl⟩ := h
    simp only [QueueOp.sign, signers, on_step hf hS, Option.map_some]
  | backup =>
    simp only [QueueOp.step, Option.map_eq_some_iff] at h
    obtain ⟨S, hS, rfl⟩ := h
    simp only [QueueOp.sign, signers, on_step hf hS, Option.map_some]

theorem sign_of_turn {ops : List QueueOp} (hf : ∀ op ∈ ops, A.Fits op) {n n' : Native}
    (h : turn ops n = some n') : Amax.sign ops (A.signers n) = some (A.signers n') := by
  induction ops generalizing n with
  | nil =>
    obtain rfl : n = n' := by simpa [turn] using h
    rfl
  | cons op ops ih =>
    obtain ⟨hop, hops⟩ := List.forall_mem_cons.mp hf
    simp only [turn, List.foldlM_cons, Option.bind_eq_bind, Option.bind_eq_some_iff] at h
    obtain ⟨n₁, hn₁, h⟩ := h
    simp only [Amax.sign, List.foldlM_cons, hop.sign hn₁]
    exact ih hops h

end Authorities

-- ---------------------------------------------------------------------------
-- Cached records with current authorities
-- ---------------------------------------------------------------------------

/-- The records of a queue carry current authorities, unless they are still to be refreshed. -/
structure ProducerElectedQueue.Carries (A : Authorities) (q : ProducerElectedQueue)
    (refreshTailPrev refreshTailNext : Bool) : Prop where
  tailPrev : refreshTailPrev = false → A.Current q.tailPrev
  tail : A.Current q.tail
  tailNext : refreshTailNext = false → A.Current q.tailNext

/-- The cached records carry current authorities. -/
structure ElectGlobalState.Carries (A : Authorities) (g : ElectGlobalState) : Prop where
  main : g.mainElectedQueue.Carries A false false
  backup : g.backupElectedQueue.Carries A false false

/-- What a branch leaves behind has current authorities only. -/
structure QueueStep.Carries (A : Authorities) (st : QueueStep) : Prop where
  main : st.meq.Carries A st.refreshMainTailPrev st.refreshMainTailNext
  backup : st.beq.Carries A st.refreshBackupTailPrev st.refreshBackupTailNext
  ops : ∀ op ∈ st.ops, A.Fits op

section Branches

variable {A : Authorities} {g : ElectGlobalState} {idx : List ProducerInfo}
  {old new : ProducerElectedInfo}

private theorem fits_modifyOnly (hn : A.Current new) (side : ElectedSide) {c : Prop} [Decidable c] :
    ∀ op ∈ (if c then [QueueOp.modify side new] else []), A.Fits op := by
  split_ifs
  · exact List.forall_mem_singleton.mpr (hn.modify side)
  · exact List.forall_mem_nil _

private theorem fits_append {ops ops' : List QueueOp} (h : ∀ op ∈ ops, A.Fits op)
    (h' : ∀ op ∈ ops', A.Fits op) : ∀ op ∈ ops ++ ops', A.Fits op :=
  List.forall_mem_append.mpr ⟨h, h'⟩

private theorem current_ite {c : Prop} [Decidable c] {a b : ProducerElectedInfo} (ha : A.Current a)
    (hb : A.Current b) : A.Current (if c then a else b) := by
  split_ifs
  · exact ha
  · exact hb

section Fetch

variable (hidx : ∀ p ∈ idx, A p.owner = some p.producerAuthority)

include hidx

/-- A record that is read from the index carries the authority of its row. -/
private theorem fetchNext_current (tail next : ProducerElectedInfo) (checkFound : Bool)
    (title : String) : Ensures (QueueHelper.fetchNext idx tail next checkFound title) fun c =>
      A.Current c ∨ checkFound = false ∧ c = .clear := by
  unfold QueueHelper.fetchNext
  refine .bind_eq fun pos _ => ?_
  cases hnext : idx[pos + 1]?.filter (·.ext.isSome) with
  | none =>
    cases checkFound with
    | false => exact .ok (.inr ⟨rfl, rfl⟩)
    | true => exact nofun
  | some itr =>
    have hmem := List.mem_of_getElem? (Option.filter_eq_some_iff.mp hnext).1
    exact .check fun _ => .ok (.inl (hidx itr hmem))

private theorem fetchPrev_current (tail prev : ProducerElectedInfo) (title : String) :
    Ensures (QueueHelper.fetchPrev idx tail prev true title) A.Current := by
  unfold QueueHelper.fetchPrev
  refine .bind_eq fun pos _ => .check fun _ => ?_
  split
  · rename_i itr hprev
    split_ifs at hprev
    have hmem := List.mem_of_getElem? hprev
    exact .check fun _ => .ok (hidx itr hmem)
  · exact .error _

private theorem popBackupTail_current (hg : g.Carries A) :
    Ensures (popBackupTail g idx old) fun out => out.2 = false → A.Current out.1 := by
  have hbn := hg.backup.tailNext rfl
  unfold popBackupTail
  refine .ite (fun _ => .ok nofun) fun _ => .ite (fun _ => .bind (fetchNext_current hidx _ _ _ _)
    fun c hc => .ok fun hne => ?_) fun _ => .ok fun _ => hbn
  rcases hc with hc | ⟨-, rfl⟩
  · exact hc
  · cases hne

end Fetch

variable (hg : g.Carries A) (hn : A.Current new)

include hg hn

private theorem processMainProducer_carries :
    Ensures (processMainProducer g old new) fun st => st.Carries A := by
  have hmp := hg.main.tailPrev rfl
  have hmt := hg.main.tail
  have hmn := hg.main.tailNext rfl
  have hbp := hg.backup.tailPrev rfl
  have hbt := hg.backup.tail
  have hbn := hg.backup.tailNext rfl
  have hout : ∀ op ∈ [QueueOp.del .main new, .del .backup g.mainElectedQueue.tailNext,
      .add .main g.mainElectedQueue.tailNext], A.Fits op := by
    simp only [List.forall_mem_cons]
    exact ⟨hn.del _, hmn.del _, hmn.add _, List.forall_mem_nil _⟩
  have hjoin := fits_append hout (List.forall_mem_singleton.mpr (hn.add .backup))
  have hrefill := fits_append hout (List.forall_mem_singleton.mpr (hbn.add .backup))
  unfold processMainProducer
  refine .ite (fun _ => ?_) fun _ => .ite (fun _ => ?_) fun _ => .ite (fun _ => .ok ?_) fun _ =>
    .check fun _ => .ite (fun _ => .ok ⟨⟨fun _ => current_ite hmt hmp, hmn, nofun⟩, ?_, hjoin⟩)
    fun _ => .ite (fun _ => ?_) fun _ => ?_
  · exact .ite (fun _ => .ok ⟨⟨nofun, hmt, fun _ => hmn⟩, hg.backup, fits_modifyOnly hn _⟩) fun _ =>
      .ite (fun _ => .ok ⟨⟨nofun, hmp, fun _ => hmn⟩, hg.backup, fits_modifyOnly hn _⟩) fun _ =>
      .ok ⟨hg.main, hg.backup, fits_modifyOnly hn _⟩
  · exact .ite (fun _ => .ok ⟨⟨fun _ => hmp, hn, fun _ => hmn⟩, hg.backup, fits_modifyOnly hn _⟩)
      fun _ => .ite (fun _ => .ok ⟨⟨fun _ => hn, hmt, fun _ => hmn⟩, hg.backup, fits_modifyOnly hn _⟩)
      fun _ => .ok ⟨⟨nofun, hmt, fun _ => hmn⟩, hg.backup, fits_modifyOnly hn _⟩
  · exact ⟨⟨fun _ => current_ite hmt hmp, hn, fun _ => hmn⟩, hg.backup, fits_modifyOnly hn _⟩
  · dsimp only
    split_ifs
    · exact ⟨fun _ => hn, hbt, fun _ => hbn⟩
    · exact hg.backup
  · exact .ite
      (fun _ => .ok ⟨⟨fun _ => current_ite hmt hmp, hmn, nofun⟩, ⟨fun _ => hbt, hn, fun _ => hbn⟩, hjoin⟩)
      fun _ => .ok ⟨⟨fun _ => current_ite hmt hmp, hmn, nofun⟩, ⟨fun _ => hbp, hbt, fun _ => hn⟩, hout⟩
  · exact .ite
      (fun _ => .ok ⟨⟨fun _ => current_ite hmt hmp, hmn, nofun⟩, ⟨fun _ => hbt, hbn, nofun⟩, hrefill⟩)
      fun _ => .ok ⟨⟨fun _ => current_ite hmt hmp, hmn, nofun⟩, ⟨fun _ => hbp, hbt, fun _ => hbn⟩, hout⟩

private theorem processMainEntry_carries (hidx : ∀ p ∈ idx, A p.owner = some p.producerAuthority) :
    Ensures (processMainEntry g idx old new) fun st => st.Carries A := by
  have hmp := hg.main.tailPrev rfl
  have hmt := hg.main.tail
  have hbp := hg.backup.tailPrev rfl
  have hbt := hg.backup.tail
  have hbn := hg.backup.tailNext rfl
  have hin : ∀ op ∈ [QueueOp.del .main g.mainElectedQueue.tail, .add .main new,
      .add .backup g.mainElectedQueue.tail], A.Fits op := by
    simp only [List.forall_mem_cons]
    exact ⟨hmt.del _, hn.add _, hmt.add _, List.forall_mem_nil _⟩
  have hmove := fits_append hin (List.forall_mem_singleton.mpr (hn.del .backup))
  have hpop := fits_append hin (List.forall_mem_singleton.mpr (hbt.del .backup))
  have hmain : ∀ b : Bool, ProducerElectedQueue.Carries A (if b then
        { g.mainElectedQueue with
          tailNext := g.mainElectedQueue.tail, tail := g.mainElectedQueue.tailPrev
          tailPrev := .clear }
      else { g.mainElectedQueue with tailNext := g.mainElectedQueue.tail, tail := new }) b false := by
    intro b
    cases b with
    | true => exact ⟨nofun, hmp, fun _ => hmt⟩
    | false => exact ⟨fun _ => hmp, hn, fun _ => hmt⟩
  unfold processMainEntry
  refine .ite (fun _ => .ite (fun _ => .ok ⟨hmain _, ?_, hmove⟩) fun _ =>
    .ite (fun _ => .ok ⟨hmain _, ?_, hmove⟩) fun _ => .ok ⟨hmain _, hg.backup, hmove⟩) fun _ =>
    .bind (popBackupTail_current hidx hg) fun out hout => .ite (fun _ => .ok ⟨hmain _, ?_, hpop⟩)
    fun hkeep => .ok ⟨hmain _, ?_, hin⟩
  · exact ⟨nofun, hbt, fun _ => hbn⟩
  · exact ⟨nofun, hbp, fun _ => hbn⟩
  · exact ⟨nofun, hbp, fun _ => hbt⟩
  · exact ⟨fun _ => hbp, hbt, fun _ => hout (by simpa using hkeep)⟩

private theorem processBackupProducer_carries :
    Ensures (processBackupProducer g old new) fun st => st.Carries A := by
  have hmp := hg.main.tailPrev rfl
  have hmt := hg.main.tail
  have hmn := hg.main.tailNext rfl
  have hbp := hg.backup.tailPrev rfl
  have hbt := hg.backup.tail
  have hbn := hg.backup.tailNext rfl
  have hmodify := fits_modifyOnly hn .backup (c := new.authority ≠ old.authority)
  have hdel := List.forall_mem_singleton.mpr (hn.del .backup)
  have hleft : ∀ b, g.mainElectedQueue.Carries A false b := fun _ =>
    ⟨fun _ => hmp, hmt, fun _ => hmn⟩
  unfold processBackupProducer
  refine .ite (fun _ => ?_) fun _ => .ite (fun _ => ?_) fun _ => .ite (fun _ => ?_) fun _ =>
    .ite (fun _ => .ite (fun _ => ?_) fun _ => ?_) fun _ => .ite (fun _ => .ok ?_) fun _ => ?_
  · have hfirst : ProducerElectedQueue.Carries A { g.mainElectedQueue with tailNext := new } false
        false := ⟨fun _ => hmp, hmt, fun _ => hn⟩
    exact .ite (fun _ => .ok ⟨hfirst, ⟨nofun, hbt, fun _ => hbn⟩, hmodify⟩) fun _ =>
      .ite (fun _ => .ok ⟨hfirst, ⟨nofun, hbp, fun _ => hbn⟩, hmodify⟩) fun _ =>
      .ok ⟨hfirst, hg.backup, hmodify⟩
  · exact .ite (fun _ => .ok ⟨⟨fun _ => hmp, hmt, nofun⟩, hg.backup, hmodify⟩) fun _ =>
      .ite (fun _ => .ok ⟨hg.main, ⟨fun _ => hbp, hbt, fun _ => hbn⟩, hmodify⟩) fun _ =>
      .ite (fun _ => .ok ⟨hg.main, ⟨nofun, hbp, fun _ => hbn⟩, hmodify⟩) fun _ =>
      .ok ⟨hg.main, hg.backup, hmodify⟩
  · exact .ite (fun _ => .ok ⟨hg.main, ⟨fun _ => hbp, hn, fun _ => hbn⟩, hmodify⟩) fun _ =>
      .ite (fun _ => .ok ⟨⟨fun _ => hmp, hmt, nofun⟩, ⟨fun _ => hn, hbt, fun _ => hbn⟩, hmodify⟩) fun _ =>
      .ok ⟨hg.main, ⟨fun _ => hn, hbt, fun _ => hbn⟩, hmodify⟩
  · exact .ite (fun _ => .ok ⟨hg.main, ⟨fun _ => hbp, hn, fun _ => hbn⟩, hmodify⟩) fun _ =>
      .ok ⟨hleft _, ⟨fun _ => hbt, hn, fun _ => hbn⟩, hmodify⟩
  · exact .ite (fun _ => .ok ⟨hg.main, ⟨nofun, hbp, fun _ => hn⟩, hdel⟩) fun _ =>
      .ite (fun _ => .ok ⟨hg.main, ⟨nofun, hbt, fun _ => hn⟩, hdel⟩) fun _ =>
      .ok ⟨hleft _, ⟨fun _ => hbp, hbt, fun _ => hn⟩, hdel⟩
  · refine ⟨?_, ⟨fun _ => current_ite hbp hbt, hbn, nofun⟩, ?_⟩
    · dsimp only
      split_ifs with hover
      · rw [hover]
        exact ⟨fun _ => hmp, hmt, nofun⟩
      · exact hleft _
    · exact fits_append hdel (List.forall_mem_singleton.mpr (hbn.add .backup))
  · exact .ite (fun _ => .ok ⟨hg.main, ⟨nofun, hbp, fun _ => hbn⟩, hdel⟩) fun _ =>
      .ite (fun _ => .ok ⟨hg.main, ⟨nofun, hbt, fun _ => hbn⟩, hdel⟩) fun _ =>
      .ok ⟨hleft _, ⟨fun _ => hbp, hbt, fun _ => hbn⟩, hdel⟩

private theorem processCandidate_carries :
    Ensures (processCandidate g old new) fun st => st.Carries A := by
  have hmp := hg.main.tailPrev rfl
  have hmt := hg.main.tail
  have hmn := hg.main.tailNext rfl
  have hbp := hg.backup.tailPrev rfl
  have hbt := hg.backup.tail
  have hbn := hg.backup.tailNext rfl
  have hfirst : ProducerElectedQueue.Carries A { g.mainElectedQueue with tailNext := new } false
      false := ⟨fun _ => hmp, hmt, fun _ => hn⟩
  have hadd := List.forall_mem_singleton.mpr (hn.add .backup)
  have hpop := fits_append hadd (List.forall_mem_singleton.mpr (hbt.del .backup))
  unfold processCandidate
  refine .ite (fun _ => .check fun _ => .ite (fun _ => ?_) fun _ => ?_) fun _ =>
    .ite (fun _ => ?_) fun _ => ?_
  · exact .ite (fun _ => .ok ⟨hg.main, ⟨fun _ => hn, hbt, fun _ => hbn⟩, hadd⟩) fun _ =>
      .ite (fun _ => .ok ⟨hfirst, ⟨fun _ => hbp, hbt, fun _ => hbn⟩, hadd⟩) fun _ =>
      .ok ⟨hg.main, ⟨fun _ => hbp, hbt, fun _ => hbn⟩, hadd⟩
  · refine .ite (fun _ => .ok ⟨hg.main, ⟨fun _ => hbp, hn, fun _ => hbt⟩, hpop⟩) fun _ =>
      .ok ⟨?_, ⟨nofun, hbp, fun _ => hbt⟩, hpop⟩
    dsimp only
    split_ifs
    · exact hfirst
    · exact hg.main
  · exact .ite (fun _ => .ok ⟨hg.main, ⟨fun _ => hbt, hn, fun _ => hbn⟩, hadd⟩) fun _ =>
      .ok ⟨hg.main, ⟨fun _ => hbp, hbt, fun _ => hn⟩, List.forall_mem_nil _⟩
  · exact .ite (fun _ => .ok ⟨hg.main, ⟨fun _ => hbt, hbn, nofun⟩,
      List.forall_mem_singleton.mpr (hbn.add .backup)⟩) fun _ =>
      .ok ⟨hg.main, ⟨fun _ => hbp, hbt, fun _ => hbn⟩, List.forall_mem_nil _⟩

omit hg hn in
/-- The refreshes read current authorities. -/
theorem QueueStep.Carries.refresh {st : QueueStep} (h : st.Carries A)
    (hidx : ∀ p ∈ idx, A p.owner = some p.producerAuthority) :
    Ensures (st.refresh idx) fun out => (g.withQueues out.1 out.2).Carries A := by
  have hprev : ∀ {b : Bool} {tail c : ProducerElectedInfo} {title : String},
      (b = false → A.Current c) →
      Ensures (if b then QueueHelper.fetchPrev idx tail c true title else .ok c) A.Current := by
    intro b tail c title hc
    refine .ite (fun _ => fetchPrev_current hidx _ _ _) fun hb => .ok (hc ?_)
    exact Bool.eq_false_iff.mpr hb
  have hnext : ∀ {b : Bool} {tail c : ProducerElectedInfo} {title : String},
      (b = false → A.Current c) →
      Ensures (if b then QueueHelper.fetchNext idx tail c true title else .ok c) A.Current := by
    intro b tail c title hc
    refine .ite (fun _ => ?_) fun hb => .ok (hc (Bool.eq_false_iff.mpr hb))
    intro next hok
    exact (fetchNext_current hidx _ _ _ _ next hok).resolve_right fun hno => by cases hno.1
  unfold QueueStep.refresh
  exact .bind (hprev h.main.tailPrev) fun _ hmp => .bind (hnext h.main.tailNext) fun _ hmn =>
    .bind (hprev h.backup.tailPrev) fun _ hbp => .bind (hnext h.backup.tailNext) fun _ hbn =>
    .ok ⟨⟨fun _ => hmp, h.main.tail, fun _ => hmn⟩, ⟨fun _ => hbp, h.backup.tail, fun _ => hbn⟩⟩

/-- A branch copies current authorities from current ones. -/
theorem processBranch_carries (hidx : ∀ p ∈ idx, A p.owner = some p.producerAuthority) :
    Ensures (processBranch g idx old new) fun st => st.Carries A := by
  unfold processBranch
  exact .ite (fun _ => processMainProducer_carries hg hn) fun _ =>
    .ite (fun _ => processMainEntry_carries hg hn hidx) fun _ =>
    .ite (fun _ => processBackupProducer_carries hg hn) fun _ => processCandidate_carries hg hn

end Branches

-- ---------------------------------------------------------------------------
-- A producer that keeps its place
-- ---------------------------------------------------------------------------

section Keeps

variable {A : Authorities} {g : ElectGlobalState} {idx idx' : List ProducerInfo}
  {old new : ProducerElectedInfo} {i : ℕ} (hs : Synced g idx)
  (hm : Moves idx idx' (g.maxMainProducerCount + g.backupCount) old new i i (i + 1) i)
  (hauth : new.authority ≠ old.authority) (hn : A.Current new)
  (hmp : i ≠ g.maxMainProducerCount - 2 → A.Current g.mainElectedQueue.tailPrev)
  (hmt : i ≠ g.maxMainProducerCount - 1 → A.Current g.mainElectedQueue.tail)
  (hmn : i ≠ g.maxMainProducerCount → A.Current g.mainElectedQueue.tailNext)
  (hbp : i ≠ g.maxMainProducerCount + g.backupCount - 2 → A.Current g.backupElectedQueue.tailPrev)
  (hbt : i ≠ g.maxMainProducerCount + g.backupCount - 1 → A.Current g.backupElectedQueue.tail)
  (hbn : i ≠ g.maxMainProducerCount + g.backupCount → A.Current g.backupElectedQueue.tailNext)

include hs hm hauth hn hmp hmt hmn hbp hbt hbn

/-- A main producer gets a new authority. -/
private theorem processMainProducer_keeps (hi : i < g.maxMainProducerCount) :
    Ensures (processMainProducer g old new) fun st =>
      st.Carries A ∧ st.ops = [.modify .main new] := by
  have h2 := hs.two_le
  have hK := hs.backup_ge
  simp only [minBackupProducerCount] at hK
  have hback : g.backupElectedQueue.Carries A false false :=
    ⟨fun _ => hbp (by omega), hbt (by omega), fun _ => hbn (by omega)⟩
  have hops : ∀ op ∈ [QueueOp.modify .main new], A.Fits op :=
    List.forall_mem_singleton.mpr (hn.modify _)
  unfold processMainProducer
  simp only [hm.new_ge hs.mainTailPrev (by omega), hm.new_ge hs.mainTail (by omega),
    hm.named hs.mainTailPrev, hm.named hs.mainTail, decide_eq_true_eq, if_pos hauth]
  refine .ite (fun h₁ => .ite (fun h₂ => .ok ⟨⟨⟨fun h => Bool.noConfusion h, hmt (by omega), fun _ => hmn (by omega)⟩,
      hback, hops⟩, rfl⟩) fun h₂ => .ite (fun h₃ => absurd h₃ (by omega)) fun h₃ =>
      .ok ⟨⟨⟨fun _ => hmp h₂, hmt h₃, fun _ => hmn (by omega)⟩, hback, hops⟩, rfl⟩)
    fun h₁ => .ite (fun h₂ => .ite (fun h₃ => .ok ⟨⟨⟨fun _ => hmp (by omega), hn,
      fun _ => hmn (by omega)⟩, hback, hops⟩, rfl⟩) fun h₃ => absurd h₃ (by omega))
    fun h₂ => absurd h₂ (by omega)

/-- A backup producer gets a new authority. The record before the tail is not replaced. -/
private theorem processBackupProducer_keeps (hi : g.maxMainProducerCount ≤ i)
    (hi' : i < g.maxMainProducerCount + g.backupCount)
    (hne : i ≠ g.maxMainProducerCount + g.backupCount - 2) :
    Ensures (processBackupProducer g old new) fun st =>
      st.Carries A ∧ st.ops = [.modify .backup new] := by
  have h2 := hs.two_le
  have hK := hs.backup_ge
  simp only [minBackupProducerCount] at hK
  have hops : ∀ op ∈ [QueueOp.modify .backup new], A.Fits op :=
    List.forall_mem_singleton.mpr (hn.modify _)
  unfold processBackupProducer
  simp only [hm.new_ge hs.mainTailNext (by omega), hm.new_ge hs.backupTailPrev (by omega),
    hm.new_ge hs.backupTail (by omega), hm.old_eq hs.mainTailNext (by omega),
    hm.old_eq hs.backupTailPrev (by omega), hm.old_eq hs.backupTail (by omega), decide_eq_true_eq,
    if_pos hauth]
  refine .ite (fun h₁ => .ite (fun h₂ => absurd h₂ hne) fun _ =>
      .ite (fun h₃ => absurd h₃ (by omega)) fun h₃ => .ok ⟨⟨⟨fun _ => hmp (by omega), hmt (by omega),
        fun _ => hn⟩, ⟨fun _ => hbp hne, hbt h₃, fun _ => hbn (by omega)⟩, hops⟩, rfl⟩)
    fun h₁ => ?_
  have hmain : g.mainElectedQueue.Carries A false false :=
    ⟨fun _ => hmp (by omega), hmt (by omega), fun _ => hmn (by omega)⟩
  refine .ite (fun h₂ => .ite (fun h₃ => absurd h₃ (by omega)) fun _ =>
      .ite (fun h₃ => absurd h₃ hne) fun _ => .ite (fun h₃ => absurd h₃ (by omega)) fun h₃ =>
      .ok ⟨⟨hmain, ⟨fun _ => hbp hne, hbt h₃, fun _ => hbn (by omega)⟩, hops⟩, rfl⟩)
    fun h₂ => .ite (fun h₃ => .ite (fun h₄ => .ok ⟨⟨hmain, ⟨fun _ => hbp hne, hn,
        fun _ => hbn (by omega)⟩, hops⟩, rfl⟩) fun h₄ => absurd h₃ (by omega))
    fun h₃ => absurd h₃ (by omega)

omit hauth hbn in
/-- The first candidate gets a new authority. -/
private theorem processCandidate_keeps (hi : i = g.maxMainProducerCount + g.backupCount) :
    Ensures (processCandidate g old new) fun st => st.Carries A ∧ st.ops = [] := by
  have h2 := hs.two_le
  have hK := hs.backup_ge
  simp only [minBackupProducerCount] at hK
  have hmain : g.mainElectedQueue.Carries A false false :=
    ⟨fun _ => hmp (by omega), hmt (by omega), fun _ => hmn (by omega)⟩
  unfold processCandidate
  simp only [hm.new_ge hs.backupTail (by omega), hm.new_ge hs.backupTailNext le_rfl,
    hm.old_eq hs.backupTailNext le_rfl, decide_eq_true_eq, Bool.and_eq_true, Bool.not_eq_true',
    decide_eq_false_iff_not]
  refine .ite (fun h₁ => absurd h₁ (by omega)) fun _ => .ite (fun _ => .ite (fun h₃ => ?_) fun _ => ?_)
    fun h₂ => absurd h₂ (by omega)
  · exact absurd hi h₃.1.2
  · exact .ok ⟨⟨hmain, ⟨fun _ => hbp (by omega), hbt (by omega), fun _ => hn⟩,
      List.forall_mem_nil _⟩, rfl⟩

/-- A producer among the cached ones keeps its place with a new authority. -/
theorem processBranch_keeps (hi : i ≤ g.maxMainProducerCount + g.backupCount)
    (hne : i ≠ g.maxMainProducerCount + g.backupCount - 2) :
    Ensures (processBranch g idx' old new) fun st => st.Carries A ∧
      (i < g.maxMainProducerCount ∧ st.ops = [.modify .main new] ∨
        g.maxMainProducerCount ≤ i ∧ i < g.maxMainProducerCount + g.backupCount ∧
          st.ops = [.modify .backup new] ∨
        i = g.maxMainProducerCount + g.backupCount ∧ st.ops = []) := by
  have h2 := hs.two_le
  have hK := hs.backup_ge
  simp only [minBackupProducerCount] at hK
  unfold processBranch
  simp only [hm.old_ge hs.mainTail (show _ < _ by omega), hm.new_gt hs.mainTail (show _ ≤ _ by omega),
    hm.old_ge hs.backupTail (show _ < _ by omega), decide_eq_true_eq]
  refine .ite (fun h₁ => ?_) fun h₁ => .ite (fun h₂ => absurd h₂ (by omega)) fun _ =>
    .ite (fun h₃ => ?_) fun h₃ => ?_
  · have hlt : i < g.maxMainProducerCount := by omega
    exact (processMainProducer_keeps hs hm hauth hn hmp hmt hmn hbp hbt hbn hlt).mono
      fun st hst => ⟨hst.1, .inl ⟨hlt, hst.2⟩⟩
  · have hge : g.maxMainProducerCount ≤ i := by omega
    have hlt : i < g.maxMainProducerCount + g.backupCount := by omega
    exact (processBackupProducer_keeps hs hm hauth hn hmp hmt hmn hbp hbt hbn hge hlt hne).mono
      fun st hst => ⟨hst.1, .inr (.inl ⟨hge, hlt, hst.2⟩)⟩
  · have heq : i = g.maxMainProducerCount + g.backupCount := by omega
    exact (processCandidate_keeps hs hm hn hmp hmt hmn hbp hbt heq).mono
      fun st hst => ⟨hst.1, .inr (.inr ⟨heq, hst.2⟩)⟩

end Keeps

-- ---------------------------------------------------------------------------
-- One row
-- ---------------------------------------------------------------------------

/-- The changes of a branch are recorded, and the cached records are current after it. -/
theorem processElectedProducer_carries {A : Authorities} {g : ElectGlobalState}
    {idx idx' : List ProducerInfo} {old new : ProducerElectedInfo} {i j above below : ℕ}
    (hs : Synced g idx)
    (hm : Moves idx idx' (g.maxMainProducerCount + g.backupCount) old new i j above below)
    (hread : ReadsActive g idx' old new) (hinit : g.isInit = true)
    (hidx : ∀ p ∈ idx', A p.owner = some p.producerAuthority) {σ σ' : Signers}
    (hbranch : Ensures (processBranch g idx' old new) fun st => st.Carries A ∧
      ∀ n, turn st.ops (g.sets idx) = some n → sign st.ops σ' = some (A.signers n))
    {changes : ProposedProducerChanges} (hk : changes.Keeps) (hl : changes.applyTo σ = some σ') :
    Yields (processElectedProducer g idx' old new changes) fun out => out.1.Carries A ∧
      out.2.Keeps ∧ out.2.applyTo σ = some (A.signers (out.1.sets idx')) := by
  unfold processElectedProducer
  rw [hinit, if_neg (by simp)]
  refine .bind (P := fun _ => True) ⟨(), hs.checkQueues hm.ranked hm.name_eq, trivial⟩ fun _ _ => ?_
  refine .bind (hbranch.and_yields (processBranch_lands hs hm hread)) fun st hst => ?_
  obtain ⟨⟨hcarries, hsign⟩, K, hlands⟩ := hst
  refine .bind (ProposedProducerChanges.foldlM_record_applyTo hk hl (hsign _ hlands.turns))
    fun changes' hl' => ?_
  refine .bind ((hcarries.refresh (g := g) hidx).and_yields (hlands.refresh hs.two_le hm.ranked'))
    fun r hr => ?_
  obtain ⟨hcurrent, -, hcount⟩ := hr
  refine .ok ⟨hcurrent, hl'.1, ?_⟩
  rw [show (_ : ElectGlobalState).sets idx' = electedSets idx' g.maxMainProducerCount K from by
    rw [ElectGlobalState.sets]; exact congrArg _ hcount]
  exact hl'.2

namespace Elections

/-- The cached records carry the authorities of their rows. -/
def Carries (e : Elections) : Prop := e.electGstate.Carries (authorities e.producers)

/-- The elected producers with the authorities in their rows. -/
def signers (e : Elections) : Signers := (authorities e.producers).signers e.sets

end Elections

section Row

variable {producers : Table ProducerInfo.owner} {a r : ProducerInfo}

theorem authorities_set (n : Name) : authorities (producers.set r) n =
    if r.owner = n then some r.producerAuthority else authorities producers n := by
  simp only [authorities, Table.find?_set]
  split_ifs <;> rfl

theorem authorities_of_mem {p : ProducerInfo} (h : p ∈ producers.rows) :
    authorities producers p.owner = some p.producerAuthority := by
  rw [authorities, Table.find?_of_mem h]
  rfl

theorem authorities_index {p : ProducerInfo} (h : p ∈ electedProd producers) :
    authorities producers p.owner = some p.producerAuthority :=
  authorities_of_mem (mem_electedProd.mp h).1

/-- A row that keeps its authority changes no authority. -/
theorem authorities_set_same (hf : producers.find? r.owner = some a)
    (h : r.producerAuthority = a.producerAuthority) :
    authorities (producers.set r) = authorities producers := by
  funext n
  rw [authorities_set]
  split_ifs with hn
  · rw [← hn, authorities, hf, h]
    rfl
  · rfl

theorem Authorities.Current.set {c : ProducerElectedInfo} (h : (authorities producers).Current c)
    (hn : r.owner ≠ c.name) : (authorities (producers.set r)).Current c := by
  rw [Current, authorities_set, if_neg hn]
  exact h

theorem Authorities.on_congr {A A' : Authorities} {S : Finset Name} (h : ∀ n ∈ S, A' n = A n) :
    A'.on S = A.on S := by
  funext n
  by_cases hn : n ∈ S
  · rw [on_of_mem hn, on_of_mem hn, h n hn]
  · rw [on_of_notMem hn, on_of_notMem hn]

/-- A producer of a set signs with another authority. -/
theorem Authorities.modify_on {A A' : Authorities} {S : Finset Name} {n : Name}
    {authority : BlockSigningAuthority} (hn : n ∈ S) (hA : (A n).isSome) (hA' : A' n = some authority)
    (hrest : ∀ m, m ≠ n → A' m = A m) :
    MapPatch.step (.modify authority) n (A.on S) = some (A'.on S) := by
  obtain ⟨old, hold⟩ := Option.isSome_iff_exists.mp hA
  simp only [MapPatch.step, on_of_mem hn, hold, Option.some.injEq]
  funext m
  by_cases hm : m = n
  · rw [hm, Function.update_self, on_of_mem hn, hA']
  · simp only [Function.update_of_ne hm, on, hrest m hm]

/-- Only producers of one elected set change their authority. -/
theorem Authorities.sign_modify {A A' : Authorities} {n : Native} {c : ProducerElectedInfo}
    (hA : (A c.name).isSome) (hA' : A'.Current c) (hrest : ∀ m, m ≠ c.name → A' m = A m) :
    (c.name ∈ n.main → c.name ∉ n.backup →
      Amax.sign [.modify .main c] (A.signers n) = some (A'.signers n)) ∧
    (c.name ∉ n.main → c.name ∈ n.backup →
      Amax.sign [.modify .backup c] (A.signers n) = some (A'.signers n)) := by
  have hout : ∀ {S : Finset Name}, c.name ∉ S → A'.on S = A.on S := fun hc =>
    on_congr fun m hm => hrest m fun heq => hc (heq ▸ hm)
  constructor
  · intro hin hno
    simp only [Amax.sign, List.foldlM_cons, QueueOp.sign, QueueOp.modify, ProducerChangeRecord.edit,
      signers, modify_on hin hA hA' hrest, hout hno, Option.map_some]
    rfl
  · intro hno hin
    simp only [Amax.sign, List.foldlM_cons, QueueOp.sign, QueueOp.modify, ProducerChangeRecord.edit,
      signers, modify_on hin hA hA' hrest, hout hno, Option.map_some]
    rfl

end Row

namespace Elections

variable {e : Elections} {a r : ProducerInfo}

/-- A row keeps its place in the index when it keeps its votes. -/
private theorem Tracks.keeps (h : e.Tracks) (hr : Replaced e.producers a r)
    (hv : r.getElectedVotes = a.getElectedVotes) {i j above below : ℕ}
    (hm : Moves e.index (electedProd (e.producers.set r))
      (e.electGstate.maxMainProducerCount + e.electGstate.backupCount) a.getElectedInfo
      r.getElectedInfo i j above below)
    (hi : i ≤ e.electGstate.maxMainProducerCount + e.electGstate.backupCount) :
    j = i ∧ above = i + 1 ∧ below = i := by
  have hposition : position e.index r.owner = i := (hm.name_iff _).mpr rfl
  obtain ⟨p, hp⟩ : ∃ p, e.index[i]? = some p := ⟨_, List.getElem?_eq_getElem hm.left_lt⟩
  have hrow : e.index[i]? = some a := by
    have ho : p.owner = r.owner := owner_of_position (by rw [hposition, hp])
    have hmem := (mem_electedProd.mp (List.mem_of_getElem? hp)).1
    rw [hp, ← Table.find?_of_mem hmem, ho, hr.found]
  obtain ⟨q, hq, hqa, -⟩ := h.synced.backupTailNext.row
  have hstands := Stands.of_row hrow (h.ranked.active_of_lt hrow hq hi hqa)
  have heq : r.getElectedInfo.eq a.getElectedInfo = true := by
    simp [ProducerElectedInfo.eq, ProducerInfo.getElectedInfo, ProducerInfo.fillElectedInfo, hv,
      hr.owner_eq]
  rw [hm.new_eq hstands hi, decide_eq_true_eq] at heq
  have hord := hm.order
  omega

/-- The authority of a producer that is not elected is not that of an elected one. -/
private theorem Tracks.signers_set (h : e.Tracks) {i : ℕ}
    (hi : ∀ m, position e.index m = i ↔ m = r.owner)
    (hout : e.electGstate.maxMainProducerCount + e.electGstate.backupCount ≤ i) :
    e.signers = (authorities (e.producers.set r)).signers e.sets := by
  have hlen := h.synced.backupTailNext.lt_length
  have hrest : ∀ m, position e.index m < i →
      authorities e.producers m = authorities (e.producers.set r) m := fun m hm => by
    rw [authorities_set, if_neg]
    rintro rfl
    exact hm.ne ((hi _).mpr rfl)
  refine Signers.ext (Authorities.on_congr fun m hm => ?_) (Authorities.on_congr fun m hm => ?_)
  · have hlt := (mem_main h.ranked (by omega)).mp hm
    exact hrest m (by omega)
  · have hlt := (mem_backup h.ranked hlen.le).mp hm
    exact hrest m (by omega)

section Branch

variable {i j above below : ℕ} (h : e.Tracks) (hcarries : e.Carries)
  (hm : Moves e.index (electedProd (e.producers.set r))
    (e.electGstate.maxMainProducerCount + e.electGstate.backupCount) a.getElectedInfo
    r.getElectedInfo i j above below)

include h hcarries hm

/-- A producer that keeps its authority, or is not cached, moves with its authority. -/
private theorem Tracks.branch_moves (hA : (authorities (e.producers.set r)) = authorities e.producers ∨
      e.electGstate.maxMainProducerCount + e.electGstate.backupCount < i) :
    Ensures (processBranch e.electGstate (electedProd (e.producers.set r)) a.getElectedInfo
      r.getElectedInfo) fun st => st.Carries (authorities (e.producers.set r)) ∧
        ∀ n, turn st.ops e.sets = some n →
          sign st.ops e.signers = some ((authorities (e.producers.set r)).signers n) := by
  have hs := h.synced
  have hnew : (authorities (e.producers.set r)).Current r.getElectedInfo := by
    rw [Authorities.Current, authorities_set]
    exact if_pos rfl
  have hold : e.electGstate.Carries (authorities (e.producers.set r)) ∧
      e.signers = (authorities (e.producers.set r)).signers e.sets := by
    rcases hA with hsame | hout
    · rw [hsame]
      exact ⟨hcarries, rfl⟩
    · have hcached : ∀ {c k}, Stands e.index c k →
          k ≤ e.electGstate.maxMainProducerCount + e.electGstate.backupCount →
          (authorities e.producers).Current c → (authorities (e.producers.set r)).Current c :=
        fun hc hk hcur => hcur.set fun hname => absurd ((hm.named hc).mp hname) (by omega)
      refine ⟨⟨⟨fun _ => ?_, ?_, fun _ => ?_⟩, ⟨fun _ => ?_, ?_, fun _ => ?_⟩⟩,
        h.signers_set hm.name_iff hout.le⟩
      · exact hcached hs.mainTailPrev (by omega) (hcarries.main.tailPrev rfl)
      · exact hcached hs.mainTail (by omega) hcarries.main.tail
      · exact hcached hs.mainTailNext (by omega) (hcarries.main.tailNext rfl)
      · exact hcached hs.backupTailPrev (by omega) (hcarries.backup.tailPrev rfl)
      · exact hcached hs.backupTail (by omega) hcarries.backup.tail
      · exact hcached hs.backupTailNext le_rfl (hcarries.backup.tailNext rfl)
  refine (processBranch_carries hold.1 hnew fun p hp => authorities_index hp).mono fun st hst => ?_
  refine ⟨hst, fun n hn => ?_⟩
  rw [hold.2]
  exact Authorities.sign_of_turn hst.ops hn

/-- A cached producer gets another authority where it stands. -/
private theorem Tracks.branch_keeps (hr : Replaced e.producers a r)
    (hauth : r.producerAuthority ≠ a.producerAuthority) (hv : r.getElectedVotes = a.getElectedVotes)
    (hkey : a.owner ≠ e.electGstate.backupElectedQueue.tailPrev.name)
    (hi : i ≤ e.electGstate.maxMainProducerCount + e.electGstate.backupCount) :
    Ensures (processBranch e.electGstate (electedProd (e.producers.set r)) a.getElectedInfo
      r.getElectedInfo) fun st => st.Carries (authorities (e.producers.set r)) ∧
        ∀ n, turn st.ops e.sets = some n →
          sign st.ops e.signers = some ((authorities (e.producers.set r)).signers n) := by
  have hs := h.synced
  have hlen := hs.backupTailNext.lt_length
  obtain ⟨hj, habove, hbelow⟩ := h.keeps hr hv hm hi
  rw [hj, habove, hbelow] at hm
  have hnew : (authorities (e.producers.set r)).Current r.getElectedInfo := by
    rw [Authorities.Current, authorities_set]
    exact if_pos rfl
  have hcached : ∀ {c k}, Stands e.index c k → (authorities e.producers).Current c →
      i ≠ k → (authorities (e.producers.set r)).Current c :=
    fun hc hcur hne => hcur.set fun hname => hne ((hm.named hc).mp hname)
  have hplace : i ≠ e.electGstate.maxMainProducerCount + e.electGstate.backupCount - 2 := fun heq =>
    hkey (hr.owner_eq.trans ((hm.named hs.backupTailPrev).mpr heq))
  have hold : (authorities e.producers r.owner).isSome := by
    rw [authorities, hr.found]
    rfl
  have hothers : ∀ m, m ≠ r.owner → authorities (e.producers.set r) m = authorities e.producers m :=
    fun m hne => by rw [authorities_set, if_neg hne.symm]
  have hposition : position e.index r.owner = i := (hm.name_iff _).mpr rfl
  have hmain : r.owner ∈ e.sets.main ↔ i < e.electGstate.maxMainProducerCount :=
    hposition ▸ mem_main h.ranked (by omega)
  have hbackup : r.owner ∈ e.sets.backup ↔ e.electGstate.maxMainProducerCount ≤ i ∧
      i < e.electGstate.maxMainProducerCount + e.electGstate.backupCount :=
    hposition ▸ mem_backup h.ranked hlen.le
  have hsign := Authorities.sign_modify (n := e.sets) hold hnew hothers
  refine (processBranch_keeps hs hm hauth hnew
    (hcached hs.mainTailPrev (hcarries.main.tailPrev rfl)) (hcached hs.mainTail hcarries.main.tail)
    (hcached hs.mainTailNext (hcarries.main.tailNext rfl))
    (hcached hs.backupTailPrev (hcarries.backup.tailPrev rfl))
    (hcached hs.backupTail hcarries.backup.tail)
    (hcached hs.backupTailNext (hcarries.backup.tailNext rfl)) hi hplace).mono fun st hst => ?_
  refine ⟨hst.1, fun n hn => ?_⟩
  rcases hst.2 with ⟨hlt, hops⟩ | ⟨hge, hlt, hops⟩ | ⟨heq, hops⟩
  · have hin : r.getElectedInfo.name ∈ e.sets.main := hmain.mpr hlt
    rw [hops] at hn ⊢
    obtain rfl : e.sets = n := Option.some.inj ((turn_cons (step_modify_main hin) rfl).symm.trans hn)
    exact hsign.1 hin fun hback => by have := (hbackup.mp hback).1; omega
  · have hin : r.getElectedInfo.name ∈ e.sets.backup := hbackup.mpr ⟨hge, hlt⟩
    rw [hops] at hn ⊢
    obtain rfl : e.sets = n :=
      Option.some.inj ((turn_cons (step_modify_backup hin) rfl).symm.trans hn)
    exact hsign.2 (fun hfront => by have := hmain.mp hfront; omega) hin
  · rw [hops] at hn ⊢
    obtain rfl : e.sets = n := Option.some.inj hn
    rw [h.signers_set hm.name_iff heq.ge]
    rfl

end Branch

/-- A row that gets another authority is not that of the record before the backup tail, which is
not read again. -/
def Renews (e : Elections) (a r : ProducerInfo) : Prop :=
  r.producerAuthority ≠ a.producerAuthority →
    a.owner ≠ e.electGstate.backupElectedQueue.tailPrev.name

instance (e : Elections) (a r : ProducerInfo) : Decidable (Renews e a r) :=
  inferInstanceAs (Decidable (_ → _))

/-- The queues carry the authorities of their rows on, and the changes hand them on. -/
theorem Tracks.sign (h : e.Tracks) (hr : Replaced e.producers a r) (hc : RowChange a r)
    (ht : Tame e a r) (hkey : Renews e a r) (hcarries : e.Carries)
    {changes : ProposedProducerChanges} {σ : Signers} (hk : changes.Keeps)
    (hl : changes.applyTo σ = some e.signers) :
    Yields (processElectedProducer e.electGstate (electedProd (e.producers.set r)) a.getElectedInfo
      r.getElectedInfo changes) fun out => (e.write r out.1).Carries ∧ out.2.Keeps ∧
        out.2.applyTo σ = some (e.write r out.1).signers := by
  obtain ⟨i, j, above, below, hm⟩ := h.moves hr hc ht.1
  refine processElectedProducer_carries h.synced hm ht.2 h.isInit (fun p hp => authorities_index hp)
    ?_ hk hl
  by_cases hauth : r.producerAuthority = a.producerAuthority
  · exact h.branch_moves hcarries hm (.inl (authorities_set_same hr.found hauth))
  · by_cases hi : i ≤ e.electGstate.maxMainProducerCount + e.electGstate.backupCount
    · exact h.branch_keeps hcarries hm hr hauth (hc.authority_eq.resolve_left hauth) (hkey hauth) hi
    · exact h.branch_moves hcarries hm (.inr (not_le.mp hi))

end Elections

end Amax
