-- SUMMARY: The elected queues: their update when one producer moves, their reinitialisation, and the log of producer changes.
import Amax.System.ProducerChange
import Amax.System.Queue

/-! # Elections

The main and the backup queue cache the producers around their two ends. When a
producer moves, `process_elected_producer` updates the cached records and
records who joins and who leaves; the records are kept in `electchange` until
`onblock` proposes them to the chain. -/

namespace Amax

-- ---------------------------------------------------------------------------
-- Steps of the queues
-- ---------------------------------------------------------------------------

inductive ElectedSide where
  | main
  | backup
  deriving DecidableEq

/-- One call of `producer_change_helper`. -/
structure QueueOp where
  side : ElectedSide
  name : Name
  record : ProducerChangeRecord
  deriving DecidableEq

namespace QueueOp

def add (side : ElectedSide) (p : ProducerElectedInfo) : QueueOp := ⟨side, p.name, .add p.authority⟩
def modify (side : ElectedSide) (p : ProducerElectedInfo) : QueueOp :=
  ⟨side, p.name, .modify p.authority⟩
def del (side : ElectedSide) (p : ProducerElectedInfo) : QueueOp := ⟨side, p.name, .del⟩

end QueueOp

/-- What a branch of `process_elected_producer` leaves behind: the queues, the
operations on the change maps in their order, and the records to refresh. -/
structure QueueStep where
  meq : ProducerElectedQueue
  beq : ProducerElectedQueue
  ops : List QueueOp := []
  refreshMainTailPrev : Bool := false
  refreshMainTailNext : Bool := false
  refreshBackupTailPrev : Bool := false
  refreshBackupTailNext : Bool := false

section Branches

variable (g : ElectGlobalState) (idx : List ProducerInfo) (prodOld prodNew : ProducerElectedInfo)

/-- The branch `prod_old >= meq.tail`: a main producer moves. -/
def processMainProducer : Result QueueStep := do
  let meq := g.mainElectedQueue
  let beq := g.backupElectedQueue
  let modifyOnly := if prodNew.authority ≠ prodOld.authority then [.modify .main prodNew] else []
  if prodNew.ge meq.tailPrev then
    if prodNew.name = meq.tailPrev.name then
      return { meq := { meq with tailPrev := .clear }, beq, ops := modifyOnly
               refreshMainTailPrev := true }
    else if prodNew.name = meq.tail.name then
      return { meq := { meq with tail := meq.tailPrev, tailPrev := .clear }, beq, ops := modifyOnly
               refreshMainTailPrev := true }
    else
      return { meq, beq, ops := modifyOnly }
  else if prodNew.ge meq.tail then
    if prodNew.name = meq.tail.name then
      return { meq := { meq with tail := prodNew }, beq, ops := modifyOnly }
    else if prodNew.name = meq.tailPrev.name then
      return { meq := { meq with tailPrev := prodNew }, beq, ops := modifyOnly }
    else
      return { meq := { meq with tailPrev := .clear }, beq, ops := modifyOnly
               refreshMainTailPrev := true }
  else if prodNew.gt meq.tailNext then
    let tailPrev := if prodNew.name ≠ meq.tail.name then meq.tail else meq.tailPrev
    return { meq := { meq with tailPrev, tail := prodNew }, beq, ops := modifyOnly }
  else
    let tailPrev := if prodNew.name ≠ meq.tail.name then meq.tail else meq.tailPrev
    let meq' := { meq with tailPrev, tail := meq.tailNext, tailNext := .clear }
    let ops := [.del .main prodNew, .del .backup meq.tailNext, .add .main meq.tailNext]
    check .queue (0 < beq.lastProducerCount ∧ !beq.tail.empty)
      "beq.last_producer_count > 0 && !beq.tail.empty()"
    if prodNew.gt beq.tail then
      let beq' := if prodNew.lt beq.tailPrev then { beq with tailPrev := prodNew } else beq
      return { meq := meq', beq := beq', ops := ops ++ [.add .backup prodNew]
               refreshMainTailNext := true }
    else if prodNew.gt beq.tailNext then
      if g.isProdVotesValid prodNew.electedVotes ∨
          beq.lastProducerCount = minBackupProducerCount then
        return { meq := meq', beq := { beq with tailPrev := beq.tail, tail := prodNew }
                 ops := ops ++ [.add .backup prodNew], refreshMainTailNext := true }
      else
        let beq' := { beq with tailNext := prodNew, lastProducerCount := beq.lastProducerCount - 1 }
        return { meq := meq', beq := beq', ops, refreshMainTailNext := true }
    else if g.isProdVotesValid beq.tailNext.electedVotes ∨
        beq.lastProducerCount = minBackupProducerCount then
      let beq' := { beq with tailPrev := beq.tail, tail := beq.tailNext, tailNext := .clear }
      return { meq := meq', beq := beq', ops := ops ++ [.add .backup beq.tailNext]
               refreshMainTailNext := true, refreshBackupTailNext := true }
    else
      return { meq := meq', beq := { beq with lastProducerCount := beq.lastProducerCount - 1 }, ops
               refreshMainTailNext := true }

/-- When a candidate joins the main producers: the record after the backup queue,
and whether the tail of the backup queue has to leave it. -/
def popBackupTail : Result (ProducerElectedInfo × Bool) :=
  let beq := g.backupElectedQueue
  if beq.lastProducerCount = g.maxBackupProducerCount then
    .ok (beq.tailNext, true)
  else if prodOld.eq beq.tailNext then do
    let tailNext ← QueueHelper.fetchNext idx beq.tail beq.tailNext false "backup queue tail next"
    return (tailNext, tailNext.empty)
  else
    .ok (beq.tailNext, false)

/-- The branch `prod_new > meq.tail`: a producer joins the main producers. -/
def processMainEntry : Result QueueStep := do
  let meq := g.mainElectedQueue
  let beq := g.backupElectedQueue
  let ops := [.del .main meq.tail, .add .main prodNew, .add .backup meq.tail]
  let overTailPrev := prodNew.gt meq.tailPrev
  let meq' :=
    if overTailPrev then
      { meq with tailNext := meq.tail, tail := meq.tailPrev, tailPrev := .clear }
    else { meq with tailNext := meq.tail, tail := prodNew }
  if prodOld.ge beq.tail then
    let ops := ops ++ [.del .backup prodNew]
    if prodOld.eq beq.tailPrev then
      return { meq := meq', beq := { beq with tailPrev := .clear }, ops
               refreshMainTailPrev := overTailPrev, refreshBackupTailPrev := true }
    else if prodOld.eq beq.tail then
      return { meq := meq', beq := { beq with tail := beq.tailPrev, tailPrev := .clear }, ops
               refreshMainTailPrev := overTailPrev, refreshBackupTailPrev := true }
    else
      return { meq := meq', beq, ops, refreshMainTailPrev := overTailPrev }
  else
    let (tailNext, isPopTail) ← popBackupTail g idx prodOld
    if isPopTail then
      let beq' := { beq with tailNext := beq.tail, tail := beq.tailPrev, tailPrev := .clear }
      return { meq := meq', beq := beq', ops := ops ++ [.del .backup beq.tail]
               refreshMainTailPrev := overTailPrev, refreshBackupTailPrev := true }
    else
      let beq' := { beq with tailNext, lastProducerCount := beq.lastProducerCount + 1 }
      return { meq := meq', beq := beq', ops, refreshMainTailPrev := overTailPrev }

/-- The branch `prod_old >= beq.tail`: a backup producer moves, but not to the main producers. -/
def processBackupProducer : Result QueueStep := do
  let meq := g.mainElectedQueue
  let beq := g.backupElectedQueue
  let modifyOnly := if prodNew.authority ≠ prodOld.authority then [.modify .backup prodNew] else []
  if prodNew.ge meq.tailNext then
    let meq' := { meq with tailNext := prodNew }
    if prodOld.eq beq.tailPrev then
      return { meq := meq', beq, ops := modifyOnly, refreshBackupTailPrev := true }
    else if prodOld.eq beq.tail then
      return { meq := meq', beq := { beq with tail := beq.tailPrev }, ops := modifyOnly
               refreshBackupTailPrev := true }
    else
      return { meq := meq', beq, ops := modifyOnly }
  else if prodNew.ge beq.tailPrev then
    if prodOld.eq meq.tailNext then
      return { meq, beq, ops := modifyOnly, refreshMainTailNext := true }
    else if prodOld.eq beq.tailPrev then
      return { meq, beq, ops := modifyOnly, refreshBackupTailPrev := !prodNew.eq beq.tailPrev }
    else if prodOld.eq beq.tail then
      return { meq, beq := { beq with tail := beq.tailPrev }, ops := modifyOnly
               refreshBackupTailPrev := true }
    else
      return { meq, beq, ops := modifyOnly }
  else if prodNew.ge beq.tail then
    if prodOld.eq beq.tail then
      return { meq, beq := { beq with tail := prodNew }, ops := modifyOnly }
    else if prodOld.eq meq.tailNext then
      return { meq := { meq with tailNext := .clear }, beq := { beq with tailPrev := prodNew }
               ops := modifyOnly, refreshMainTailNext := true }
    else
      return { meq, beq := { beq with tailPrev := prodNew }, ops := modifyOnly }
  else if prodNew.gt beq.tailNext then
    if g.isProdVotesValid prodNew.electedVotes ∨
        beq.lastProducerCount = minBackupProducerCount then
      if prodOld.eq beq.tail then
        return { meq, beq := { beq with tail := prodNew }, ops := modifyOnly }
      else
        return { meq, beq := { beq with tailPrev := beq.tail, tail := prodNew }, ops := modifyOnly
                 refreshMainTailNext := prodOld.eq meq.tailNext }
    else
      let beq' := { beq with tailNext := prodNew, lastProducerCount := beq.lastProducerCount - 1 }
      let ops := [.del .backup prodNew]
      if prodOld.eq beq.tail then
        return { meq, beq := { beq' with tail := beq.tailPrev }, ops, refreshBackupTailPrev := true }
      else if prodOld.eq beq.tailPrev then
        return { meq, beq := beq', ops, refreshBackupTailPrev := true }
      else
        return { meq, beq := beq', ops, refreshMainTailNext := prodOld.eq meq.tailNext }
  else if g.isProdVotesValid beq.tailNext.electedVotes ∨
      beq.lastProducerCount = minBackupProducerCount then
    let tailPrev := if prodOld.eq beq.tail then beq.tailPrev else beq.tail
    let overTailNext := prodOld.eq meq.tailNext
    return { meq := if overTailNext then { meq with tailNext := .clear } else meq
             beq := { beq with tailPrev, tail := beq.tailNext }
             ops := [.del .backup prodNew, .add .backup beq.tailNext]
             refreshMainTailNext := overTailNext, refreshBackupTailNext := true }
  else
    let beq' := { beq with lastProducerCount := beq.lastProducerCount - 1 }
    let ops := [.del .backup prodNew]
    if prodOld.eq beq.tail then
      return { meq, beq := { beq' with tail := beq.tailPrev }, ops, refreshBackupTailPrev := true }
    else if prodOld.eq beq.tailPrev then
      return { meq, beq := beq', ops, refreshBackupTailPrev := true }
    else
      return { meq, beq := beq', ops, refreshMainTailNext := prodOld.eq meq.tailNext }

/-- The last branch: a producer that is not elected moves, but not to the main producers. -/
def processCandidate : Result QueueStep := do
  let meq := g.mainElectedQueue
  let beq := g.backupElectedQueue
  let growing :=
    decide (beq.lastProducerCount < g.maxBackupProducerCount) && !prodOld.eq beq.tailNext
  if prodNew.ge beq.tail then
    check .queue (!prodNew.eq beq.tail) "prod_new != beq.tail"
    if growing && g.isProdVotesValid beq.tail.electedVotes then
      let beq' := { beq with lastProducerCount := beq.lastProducerCount + 1 }
      let ops := [.add .backup prodNew]
      if prodNew.lt beq.tailPrev then
        return { meq, beq := { beq' with tailPrev := prodNew }, ops }
      else if prodNew.gt meq.tailNext then
        return { meq := { meq with tailNext := prodNew }, beq := beq', ops }
      else
        return { meq, beq := beq', ops }
    else
      let beq' := { beq with tailNext := beq.tail }
      let ops := [.add .backup prodNew, .del .backup beq.tail]
      if prodNew.lt beq.tailPrev then
        return { meq, beq := { beq' with tail := prodNew }, ops }
      else
        let meq' := if prodNew.gt meq.tailNext then { meq with tailNext := prodNew } else meq
        return { meq := meq', beq := { beq' with tail := beq.tailPrev }, ops
                 refreshBackupTailPrev := true }
  else if prodNew.ge beq.tailNext then
    if growing && g.isProdVotesValid prodNew.electedVotes then
      let beq' := { beq with
        lastProducerCount := beq.lastProducerCount + 1, tailPrev := beq.tail, tail := prodNew }
      return { meq, beq := beq', ops := [.add .backup prodNew] }
    else
      return { meq, beq := { beq with tailNext := prodNew } }
  else if growing && g.isProdVotesValid beq.tailNext.electedVotes then
    let beq' := { beq with
      lastProducerCount := beq.lastProducerCount + 1, tailPrev := beq.tail, tail := beq.tailNext }
    return { meq, beq := beq', ops := [.add .backup beq.tailNext], refreshBackupTailNext := true }
  else
    return { meq, beq, refreshBackupTailNext := prodOld.eq beq.tailNext }

/-- The refreshes at the end of `process_elected_producer`. -/
def QueueStep.refresh (st : QueueStep) : Result (ProducerElectedQueue × ProducerElectedQueue) := do
  let mainTailPrev ← (if st.refreshMainTailPrev then
      QueueHelper.fetchPrev idx st.meq.tail st.meq.tailPrev true "main queue tail prev"
    else .ok st.meq.tailPrev)
  let mainTailNext ← (if st.refreshMainTailNext then
      QueueHelper.fetchNext idx st.meq.tail st.meq.tailNext true "main queue tail next"
    else .ok st.meq.tailNext)
  let backupTailPrev ← (if st.refreshBackupTailPrev then
      QueueHelper.fetchPrev idx st.beq.tail st.beq.tailPrev true "backup queue tail prev"
    else .ok st.beq.tailPrev)
  let backupTailNext ← (if st.refreshBackupTailNext then
      QueueHelper.fetchNext idx st.beq.tail st.beq.tailNext true "backup queue tail next"
    else .ok st.beq.tailNext)
  return ({ st.meq with tailPrev := mainTailPrev, tailNext := mainTailNext },
    { st.beq with tailPrev := backupTailPrev, tailNext := backupTailNext })

/-- Perform an operation of a branch. -/
def ProposedProducerChanges.record (changes : ProposedProducerChanges) (op : QueueOp) :
    Result ProposedProducerChanges :=
  match op.side with
  | .main => do
    let c ← changes.mainChanges.changes.edit op.name op.record
    return { changes with mainChanges := { changes.mainChanges with changes := c } }
  | .backup => do
    let c ← changes.backupChanges.changes.edit op.name op.record
    return { changes with backupChanges := { changes.backupChanges with changes := c } }

/-- The branch `process_elected_producer` takes. -/
def processBranch : Result QueueStep :=
  if prodOld.ge g.mainElectedQueue.tail then processMainProducer g prodOld prodNew
  else if prodNew.gt g.mainElectedQueue.tail then processMainEntry g idx prodOld prodNew
  else if prodOld.ge g.backupElectedQueue.tail then processBackupProducer g prodOld prodNew
  else processCandidate g prodOld prodNew

/-- The assertions at the start of `process_elected_producer`. -/
def checkQueues : Result Unit := do
  let meq := g.mainElectedQueue
  let beq := g.backupElectedQueue
  check .queue (prodOld.name = prodNew.name) "prod_old.name == prod_new.name"
  check .queue (g.maxMainProducerCount + minBackupProducerCount + 1 ≤
      meq.lastProducerCount + beq.lastProducerCount + 1)
    "meq.last_producer_count + beq.last_producer_count + 1 >= min_producer_count"
  check .queue (!meq.tail.empty ∧ !meq.tailPrev.empty ∧ !beq.tailNext.empty ∧ !beq.tail.empty ∧
      !beq.tailPrev.empty ∧ beq.tailPrev.lt meq.tailNext)
    ("!meq.tail.empty() && !meq.tail_prev.empty() && !beq.tail_next.empty() && " ++
      "!beq.tail.empty() && !beq.tail_prev.empty() && !beq.tail_next.empty() && " ++
      "beq.tail_prev < meq.tail_next")
  check .queue (0 < meq.lastProducerCount ∧ !meq.tail.empty)
    "meq.last_producer_count > 0 && !meq.tail.empty()"

/-- `process_elected_producer`. -/
def processElectedProducer (changes : ProposedProducerChanges) :
    Result (ElectGlobalState × ProposedProducerChanges) :=
  if !g.isInit then
    return (g, changes)
  else do
    checkQueues g prodOld prodNew
    let st ← processBranch g idx prodOld prodNew
    let changes ← st.ops.foldlM ProposedProducerChanges.record changes
    let (meq, beq) ← st.refresh idx
    let changes := {
      mainChanges := { changes.mainChanges with producerCount := meq.lastProducerCount }
      backupChanges := { changes.backupChanges with producerCount := beq.lastProducerCount } }
    return ({ g with mainElectedQueue := meq, backupElectedQueue := beq }, changes)

end Branches

-- ---------------------------------------------------------------------------
-- Reinitialisation
-- ---------------------------------------------------------------------------

/-- `std::map::emplace`, which keeps a record that is already there. -/
def ChangeMap.emplace (changes : ChangeMap) (c : ProducerChange) : ChangeMap :=
  match changes.find? c.name with
  | none => changes.set c
  | some _ => changes

/-- The local variables of `reinit_elected_producers`. -/
structure Reinit where
  mainChanges : ProducerChangeMap
  backupChanges : ProducerChangeMap
  meq : ProducerElectedQueue
  beq : ProducerElectedQueue

/-- The loop of `reinit_elected_producers` over the index. -/
def reinitLoop (g : ElectGlobalState) : List ProducerInfo → Reinit → Result Reinit
  | [], st => .ok st
  | it :: rest, st =>
    let electedInfo := it.getElectedInfo
    let record : ProducerChange := ⟨it.owner, .add it.producerAuthority⟩
    if !it.isActive || !g.isProdVotesValid electedInfo.electedVotes then
      .ok st
    else if st.mainChanges.changes.rows.length < st.mainChanges.producerCount then do
      let mainChanges := { st.mainChanges with changes := st.mainChanges.changes.emplace record }
      let tailPrev := if st.meq.tail.empty then st.meq.tailPrev else st.meq.tail
      check .queue (tailPrev.empty ∨ tailPrev.gt electedInfo)
        "meq.tail_prev.empty() || meq.tail_prev > meq.tail"
      reinitLoop g rest
        { st with mainChanges, meq := { st.meq with tailPrev, tail := electedInfo } }
    else if st.backupChanges.changes.rows.length < st.backupChanges.producerCount then do
      let backupChanges :=
        { st.backupChanges with changes := st.backupChanges.changes.emplace record }
      let tailPrev := if st.beq.tail.empty then st.beq.tailPrev else st.beq.tail
      let tailNext := if st.meq.tailNext.empty then electedInfo else st.meq.tailNext
      check .queue (tailPrev.empty ∨ tailPrev.gt electedInfo)
        "beq.tail_prev.empty() || beq.tail_prev > beq.tail"
      reinitLoop g rest
        { st with
          backupChanges
          meq := { st.meq with tailNext }
          beq := { st.beq with tailPrev, tail := electedInfo } }
    else
      .ok { st with beq := { st.beq with tailNext := electedInfo } }

/-- `reinit_elected_producers`: the queues and the changes, unless there are too
few producers with enough votes. -/
def reinitElectedProducers (g : ElectGlobalState) (idx : List ProducerInfo) :
    Result (Option (ElectGlobalState × ProposedProducerChanges)) := do
  let st ← reinitLoop g idx {
    mainChanges := { clearExisted := true, producerCount := g.maxMainProducerCount }
    backupChanges := { clearExisted := true, producerCount := minBackupProducerCount }
    meq := { lastProducerCount := g.maxMainProducerCount }
    beq := { lastProducerCount := minBackupProducerCount } }
  if st.beq.tailNext.empty then
    return none
  else
    return some ({ g with mainElectedQueue := st.meq, backupElectedQueue := st.beq },
      { mainChanges := st.mainChanges, backupChanges := st.backupChanges })

-- ---------------------------------------------------------------------------
-- The log of changes
-- ---------------------------------------------------------------------------

/-- `elected_sequence++` on a `uint32_t`. -/
def nextSequence (seq : ℕ) : ℕ := (seq + 1) % 2 ^ 32

/-- The new row of `electchange` that saves `changes`. -/
def emplaceChange (env : Env) (s : System) (changes : ProposedProducerChanges) : System :=
  let id := s.electGstate.lastProducerChangeId + 1
  { s with
    electGstate := { s.electGstate with lastProducerChangeId := id }
    electedChanges := s.electedChanges.set
      { id, electedSequence := s.gstate.electedSequence, changes
        createdAt := TimePoint.toSlot env.now } }

/-- `save_producer_changes`. -/
def saveProducerChanges (env : Env) (s : System) (changes : ProposedProducerChanges) :
    Result System :=
  let g := s.electGstate
  let beq := g.backupElectedQueue
  if !g.isInit then
    .ok s
  else if g.producerChangeInterrupted then
    if minBackupProducerCount ≤ beq.lastProducerCount ∧
        g.isProdVotesValid beq.tail.electedVotes then do
      match ← reinitElectedProducers g (electedProd s.producers) with
      | none => return s
      | some (g, initChanges) =>
        return emplaceChange env
          { s with
            gstate := { s.gstate with electedSequence := nextSequence s.gstate.electedSequence }
            electGstate := { g with producerChangeInterrupted := false } }
          initChanges
    else
      .ok s
  else if beq.lastProducerCount ≤ minBackupProducerCount ∧
      !g.isProdVotesValid beq.tail.electedVotes then
    .ok { s with electGstate := { g with producerChangeInterrupted := true } }
  else if changes.backupChanges.changes.rows ≠ [] ∨ changes.mainChanges.changes.rows ≠ [] then
    .ok (emplaceChange env s changes)
  else
    .ok s

def maxFlushElectedRows : ℕ := 10
def minFlushElectedChanges : ℕ := 300

/-- The loop of `update_elected_producer_changes`: the number of rows it reads
and what it merges them into. -/
def flushRows (electedSequence : ℕ) :
    List ElectedChange → ℕ → ProposedProducerChanges → Result (ℕ × ProposedProducerChanges)
  | [], rows, changes => .ok (rows, changes)
  | itr :: rest, rows, changes => do
    let changes ← (if itr.electedSequence = electedSequence then itr.changes.merge changes
      else .ok changes)
    let rows := rows + 1
    if rows ≥ maxFlushElectedRows ∨ changes.getChangeSize ≥ minFlushElectedChanges then
      return (rows, changes)
    else flushRows electedSequence rest rows changes

/-- `update_elected_producer_changes`. -/
def updateElectedProducerChanges (env : Env) (s : System) : Result System := do
  if (setProposedProducersEx env.nativeSettable {} s.native).1 < 0 then
    return s
  else
    let (rows, changes) ← flushRows s.gstate.electedSequence s.electedChanges.rows 0 {}
    if rows > 0 then
      if changes.getChangeSize > 0 then
        let (ret, native) := setProposedProducersEx env.nativeAccepts changes s.native
        if ret > 0 then
          return { s with native, electedChanges := s.electedChanges.dropFirst rows }
        else
          return { s with native }
      else if env.needErasing then
        -- nothing was proposed, and the flag was never set
        return { s with electedChanges := s.electedChanges.dropFirst rows }
      else
        return s
    else
      return s

/-- `update_elected_producers`, which proposes the first producers as a whole
and keeps only how many there were. -/
def updateElectedProducers (env : Env) (s : System) : System :=
  let g := s.electGstate
  let size :=
    if g.isInit then
      (((electedProd s.producers).takeWhile fun p =>
        p.isActive && g.isProdVotesValid p.getElectedVotes).take 21).length
    else
      (env.topByTotalVotes.take 21).length
  if size = 0 ∨ size < s.gstate.lastProducerScheduleSize then
    s
  else if env.nativeAccepts then
    { s with gstate := { s.gstate with lastProducerScheduleSize := size } }
  else s

end Amax
