-- SUMMARY: Recording, merging and proposing changes of the elected producers.
import Amax.System.State

/-! # Producer changes

`producer_change_helper` keeps one record for each producer that joined, stayed
in or left an elected set. The chain takes a set of records as a patch of its
own sets of producers. -/

namespace Amax

namespace ProducerChangeRecord

/-- `producer_change_operation`. -/
def operation : ProducerChangeRecord → ℕ
  | .add _ => 0
  | .modify _ => 1
  | .del => 2

def kind : ProducerChangeRecord → Patch.Kind
  | .add _ => .add
  | .modify _ => .modify
  | .del => .del

end ProducerChangeRecord

def ProducerChange.kind (c : ProducerChange) : Patch.Kind := c.record.kind

-- ---------------------------------------------------------------------------
-- Recording
-- ---------------------------------------------------------------------------

/-- An operation that does not fit the record there is for the producer. -/
def changeClash (old : ProducerChangeRecord) (op : String) (producerName : Name) : Abort where
  site := .change
  message := "the old change type can not be " ++ toString old.operation ++ " when " ++ op ++
    " prod change: " ++ nameToString producerName

namespace ChangeMap

/-- `producer_change_helper::add`. -/
def add (changes : ChangeMap) (producerName : Name) (authority : BlockSigningAuthority) :
    Result ChangeMap :=
  match changes.find? producerName with
  | none => .ok (changes.set ⟨producerName, .add authority⟩)
  | some c =>
    match c.record with
    | .del => .ok (changes.set ⟨producerName, .modify authority⟩)
    | old => .error (changeClash old "add" producerName)

/-- `producer_change_helper::modify`. -/
def modify (changes : ChangeMap) (producerName : Name) (authority : BlockSigningAuthority) :
    Result ChangeMap :=
  match changes.find? producerName with
  | none => .ok (changes.set ⟨producerName, .modify authority⟩)
  | some c =>
    match c.record with
    | .add _ => .ok (changes.set ⟨producerName, .add authority⟩)
    | .modify _ => .ok (changes.set ⟨producerName, .modify authority⟩)
    | old => .error (changeClash old "modify" producerName)

/-- `producer_change_helper::del`. -/
def del (changes : ChangeMap) (producerName : Name) : Result ChangeMap :=
  match changes.find? producerName with
  | none => .ok (changes.set ⟨producerName, .del⟩)
  | some c =>
    match c.record with
    | .add _ => .ok (changes.erase producerName)
    | .modify _ => .ok (changes.set ⟨producerName, .del⟩)
    | old => .error (changeClash old "del" producerName)

/-- The `std::visit` of `producer_change_helper::merge`. -/
def edit (changes : ChangeMap) (producerName : Name) : ProducerChangeRecord → Result ChangeMap
  | .add authority => changes.add producerName authority
  | .modify authority => changes.modify producerName authority
  | .del => changes.del producerName

/-- The kind of the record for a producer. -/
def kindAt (changes : ChangeMap) (n : Name) : Option Patch.Kind :=
  Patch.kindAt changes ProducerChange.kind n

/-- The records turn the set `S` of producers into `S'`. -/
def Turns (changes : ChangeMap) (S S' : Finset Name) : Prop :=
  Patch.Turns changes ProducerChange.kind S S'

private theorem kindAt_set (changes : ChangeMap) (c : ProducerChange) (m : Name) :
    kindAt (changes.set c) m = if m = c.name then some c.kind else kindAt changes m := by
  simp only [kindAt, Patch.kindAt, Table.find?_set]
  by_cases h : c.name = m
  · simp [h]
  · simp [h, Ne.symm h]

private theorem kindAt_erase (changes : ChangeMap) (n m : Name) :
    kindAt (changes.erase n) m = if m = n then none else kindAt changes m := by
  simp only [kindAt, Patch.kindAt, Table.find?_erase]
  split_ifs <;> rfl

/-- An operation that fits succeeds, and only the record of its producer changes. -/
theorem edit_ok {changes : ChangeMap} {n : Name} {r : ProducerChangeRecord} {e : Option Patch.Kind}
    (h : Patch.compose (changes.kindAt n) r.kind = some e) :
    ∃ changes', changes.edit n r = .ok changes' ∧
      ∀ m, changes'.kindAt m = if m = n then e else changes.kindAt m := by
  cases hf : changes.find? n with
  | none =>
    rw [show changes.kindAt n = none by simp [kindAt, Patch.kindAt, hf]] at h
    obtain rfl : some r.kind = e := by simpa [Patch.compose] using h
    cases r with
    | add a => exact ⟨changes.set ⟨n, .add a⟩, by simp [edit, add, hf], kindAt_set changes _⟩
    | modify a => exact ⟨changes.set ⟨n, .modify a⟩, by simp [edit, modify, hf], kindAt_set changes _⟩
    | del => exact ⟨changes.set ⟨n, .del⟩, by simp [edit, del, hf], kindAt_set changes _⟩
  | some c =>
    rw [show changes.kindAt n = some c.kind by simp [kindAt, Patch.kindAt, hf]] at h
    obtain ⟨name, record⟩ := c
    cases r with
    | add a =>
      cases record with
      | add b => simp [Patch.compose, ProducerChange.kind, ProducerChangeRecord.kind] at h
      | modify b => simp [Patch.compose, ProducerChange.kind, ProducerChangeRecord.kind] at h
      | del =>
        obtain rfl : some Patch.Kind.modify = e := Option.some.inj h
        exact ⟨changes.set ⟨n, .modify a⟩, by simp [edit, add, hf], kindAt_set changes _⟩
    | modify a =>
      cases record with
      | add b =>
        obtain rfl : some Patch.Kind.add = e := Option.some.inj h
        exact ⟨changes.set ⟨n, .add a⟩, by simp [edit, modify, hf], kindAt_set changes _⟩
      | modify b =>
        obtain rfl : some Patch.Kind.modify = e := Option.some.inj h
        exact ⟨changes.set ⟨n, .modify a⟩, by simp [edit, modify, hf], kindAt_set changes _⟩
      | del => simp [Patch.compose, ProducerChange.kind, ProducerChangeRecord.kind] at h
    | del =>
      cases record with
      | add b =>
        obtain rfl : none = e := Option.some.inj h
        exact ⟨changes.erase n, by simp [edit, del, hf], kindAt_erase changes n⟩
      | modify b =>
        obtain rfl : some Patch.Kind.del = e := Option.some.inj h
        exact ⟨changes.set ⟨n, .del⟩, by simp [edit, del, hf], kindAt_set changes _⟩
      | del => simp [Patch.compose, ProducerChange.kind, ProducerChangeRecord.kind] at h

/-- An operation that is valid on the set the records lead to is recorded. -/
theorem Turns.edit {changes : ChangeMap} {S S' S'' : Finset Name} {n : Name}
    {r : ProducerChangeRecord} (h : changes.Turns S S') (hs : Patch.step r.kind n S' = some S'') :
    ∃ changes', changes.edit n r = .ok changes' ∧ changes'.Turns S S'' := by
  obtain ⟨e, he⟩ := Patch.Turns.compose_isSome h hs
  obtain ⟨changes', hok, hkind⟩ := edit_ok he
  exact ⟨changes', hok, Patch.Turns.edit h he hkind hs⟩

end ChangeMap

-- ---------------------------------------------------------------------------
-- Merging
-- ---------------------------------------------------------------------------

namespace ProducerChangeMap

/-- `producer_change_helper::merge` for one set of producers. -/
def merge (src dest : ProducerChangeMap) : Result ProducerChangeMap :=
  if src.clearExisted then
    .ok src
  else do
    let changes ← src.changes.rows.foldlM (fun d c => d.edit c.name c.record) dest.changes
    return { dest with changes := changes, producerCount := src.producerCount }

/-- The set the records start from, when the chain has the set `S`. -/
def base (c : ProducerChangeMap) (S : Finset Name) : Finset Name := if c.clearExisted then ∅ else S

/-- The change map is valid on the set `S` and leads to `S'`. -/
def Leads (c : ProducerChangeMap) (S S' : Finset Name) : Prop := c.changes.Turns (c.base S) S'

/-- Apply a change map to the set `S`. -/
def apply (c : ProducerChangeMap) (S : Finset Name) : Option (Finset Name) :=
  Patch.run c.changes ProducerChange.kind (c.base S)

theorem apply_eq_some_iff {c : ProducerChangeMap} {S S' : Finset Name} :
    c.apply S = some S' ↔ c.Leads S S' :=
  Patch.run_eq_some_iff

private theorem foldlM_edit {l : List ProducerChange} (hl : l.Pairwise (fun a b => a.name < b.name))
    {d : ChangeMap}
    (h : ∀ c ∈ l, ∃ e, Patch.compose (d.kindAt c.name) c.kind = some e) :
    ∃ d', l.foldlM (fun d c => d.edit c.name c.record) d = .ok d' ∧
      ∀ m, match (l.find? (fun c => c.name = m)).map ProducerChange.kind with
        | none => d'.kindAt m = d.kindAt m
        | some k => Patch.compose (d.kindAt m) k = some (d'.kindAt m) := by
  induction l generalizing d with
  | nil => exact ⟨d, rfl, fun m => rfl⟩
  | cons c cs ih =>
    obtain ⟨hc, hcs⟩ := List.pairwise_cons.mp hl
    obtain ⟨e, he⟩ := h c List.mem_cons_self
    obtain ⟨d₁, hd₁, hk₁⟩ := ChangeMap.edit_ok he
    have hrest : ∀ c' ∈ cs, d₁.kindAt c'.name = d.kindAt c'.name := fun c' hc' => by
      rw [hk₁, if_neg (hc c' hc').ne']
    obtain ⟨d₂, hd₂, hk₂⟩ := ih hcs (d := d₁) fun c' hc' => by
      rw [hrest c' hc']
      exact h c' (List.mem_cons_of_mem _ hc')
    refine ⟨d₂, by simp only [List.foldlM_cons, hd₁]; exact hd₂, fun m => ?_⟩
    have hm := hk₂ m
    by_cases hname : c.name = m
    · subst hname
      have hnone : cs.find? (fun x => x.name = c.name) = none :=
        List.find?_eq_none.mpr fun x hx => by simpa using (hc x hx).ne'
      simp only [hnone, Option.map_none] at hm
      simp only [List.find?_cons, decide_true, Option.map_some, hm, hk₁, if_true]
      exact he
    · simp only [List.find?_cons, hname, decide_false]
      rwa [hk₁, if_neg (Ne.symm hname)] at hm

/-- Two change maps that follow each other merge into one. -/
theorem merge_leads {src dest : ProducerChangeMap} {S S' S'' : Finset Name}
    (hd : dest.Leads S S') (hs : src.Leads S' S'') :
    ∃ out, merge src dest = .ok out ∧ out.Leads S S'' := by
  cases hclear : src.clearExisted with
  | true =>
    refine ⟨src, by simp [merge, hclear], ?_⟩
    simpa [Leads, base, hclear] using hs
  | false =>
    have hs' : Patch.Turns src.changes ProducerChange.kind S' S'' := by
      simpa [Leads, base, hclear, ChangeMap.Turns] using hs
    obtain ⟨d', hd', hkind⟩ := foldlM_edit src.changes.sorted (d := dest.changes) fun c hc => by
      have hfind : Patch.kindAt src.changes ProducerChange.kind c.name = some c.kind := by
        simp [Patch.kindAt, Table.find?_of_mem hc]
      have hstep := hs' c.name
      rw [hfind] at hstep
      obtain ⟨e, he, -⟩ := (hd c.name).compose hstep
      exact ⟨e, he⟩
    refine ⟨{ dest with changes := d', producerCount := src.producerCount },
      by simp [merge, hclear, hd', bind, Except.bind, pure, Except.pure], ?_⟩
    exact Patch.Turns.trans hd hs' hkind

end ProducerChangeMap

namespace ProposedProducerChanges

/-- `get_change_size`. -/
def getChangeSize (c : ProposedProducerChanges) : ℕ :=
  c.mainChanges.changes.rows.length + c.backupChanges.changes.rows.length

/-- `producer_change_helper::merge` for both sets of producers. -/
def merge (src dest : ProposedProducerChanges) : Result ProposedProducerChanges := do
  let mainChanges ← src.mainChanges.merge dest.mainChanges
  let backupChanges ← src.backupChanges.merge dest.backupChanges
  return { mainChanges, backupChanges }

/-- The changes are valid on the sets `n` and lead to `n'`. -/
def Leads (c : ProposedProducerChanges) (n n' : Native) : Prop :=
  c.mainChanges.Leads n.main n'.main ∧ c.backupChanges.Leads n.backup n'.backup

/-- Apply the changes to both sets of producers. -/
def apply (c : ProposedProducerChanges) (n : Native) : Option Native := do
  let main ← c.mainChanges.apply n.main
  let backup ← c.backupChanges.apply n.backup
  return { main, backup }

theorem apply_eq_some_iff {c : ProposedProducerChanges} {n n' : Native} :
    c.apply n = some n' ↔ c.Leads n n' := by
  obtain ⟨main, backup⟩ := n'
  simp only [apply, Leads, ← ProducerChangeMap.apply_eq_some_iff, Option.bind_eq_bind,
    Option.pure_def, Option.bind_eq_some_iff, Option.some.injEq, Native.mk.injEq]
  constructor
  · rintro ⟨m, hm, b, hb, rfl, rfl⟩
    exact ⟨hm, hb⟩
  · rintro ⟨hm, hb⟩
    exact ⟨main, hm, backup, hb, rfl, rfl⟩

theorem leads_empty (n : Native) : ({} : ProposedProducerChanges).Leads n n :=
  ⟨Patch.turns_empty _, Patch.turns_empty _⟩

theorem merge_leads {src dest : ProposedProducerChanges} {n n' n'' : Native}
    (hd : dest.Leads n n') (hs : src.Leads n' n'') :
    ∃ out, merge src dest = .ok out ∧ out.Leads n n'' := by
  obtain ⟨m, hm, hm'⟩ := ProducerChangeMap.merge_leads hd.1 hs.1
  obtain ⟨b, hb, hb'⟩ := ProducerChangeMap.merge_leads hd.2 hs.2
  refine ⟨⟨m, b⟩, ?_, hm', hb'⟩
  simp only [merge, Except.bind_ok_iff]
  exact ⟨m, hm, b, hb, rfl⟩

end ProposedProducerChanges

-- ---------------------------------------------------------------------------
-- Proposing
-- ---------------------------------------------------------------------------

/-- `set_proposed_producers_ex`: the chain refuses the changes and answers a
negative number, or applies them and answers a positive one. -/
def setProposedProducersEx (accepts : Bool) (changes : ProposedProducerChanges) (n : Native) :
    ℤ × Native :=
  if accepts then
    match changes.apply n with
    | some n' => (1, n')
    | none => (-1, n)
  else (-1, n)

theorem setProposedProducersEx_cases (accepts : Bool) (changes : ProposedProducerChanges)
    (n : Native) :
    setProposedProducersEx accepts changes n = (-1, n) ∨
      ∃ n', changes.Leads n n' ∧ setProposedProducersEx accepts changes n = (1, n') := by
  cases accepts with
  | false => exact .inl rfl
  | true =>
    cases h : changes.apply n with
    | none => exact .inl (by simp [setProposedProducersEx, h])
    | some n' =>
      exact .inr ⟨n', ProposedProducerChanges.apply_eq_some_iff.mp h,
        by simp [setProposedProducersEx, h]⟩

end Amax
