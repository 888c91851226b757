-- SUMMARY: Producer changes as patches of maps from producers to their authorities, and merging as composition.
import Amax.Base.MapPatch
import Amax.System.ProducerChange

/-! # Merging producer changes

A change map is a patch of the map from the producers of a set to the
authorities they sign with. `merge` puts two patches that follow each other into
one, and `update_elected_producer_changes` does so with many. -/

namespace Amax

/-- The producers of a set with the authorities they sign with. -/
abbrev Authorities := Name → Option BlockSigningAuthority

def ProducerChangeRecord.edit : ProducerChangeRecord → MapPatch.Edit BlockSigningAuthority
  | .add authority => .add authority
  | .modify authority => .modify authority
  | .del => .del

def ProducerChange.edit (c : ProducerChange) : MapPatch.Edit BlockSigningAuthority := c.record.edit

-- ---------------------------------------------------------------------------
-- Recording
-- ---------------------------------------------------------------------------

namespace ChangeMap

/-- The edit recorded for a producer. -/
def editAt (changes : ChangeMap) (n : Name) : Option (MapPatch.Edit BlockSigningAuthority) :=
  MapPatch.editAt changes ProducerChange.edit n

private theorem editAt_set (changes : ChangeMap) (c : ProducerChange) (m : Name) :
    editAt (changes.set c) m = if m = c.name then some c.edit else editAt changes m := by
  simp only [editAt, MapPatch.editAt, Table.find?_set]
  by_cases h : c.name = m
  · simp [h]
  · simp [h, Ne.symm h]

private theorem editAt_erase (changes : ChangeMap) (n m : Name) :
    editAt (changes.erase n) m = if m = n then none else editAt changes m := by
  simp only [editAt, MapPatch.editAt, Table.find?_erase]
  split_ifs <;> rfl

/-- An operation that fits is composed with the record of its producer. -/
theorem edit_composes {changes : ChangeMap} {n : Name} {r : ProducerChangeRecord}
    {e : Option (MapPatch.Edit BlockSigningAuthority)}
    (h : MapPatch.compose (changes.editAt n) r.edit = some e) :
    ∃ changes', changes.edit n r = .ok changes' ∧
      ∀ m, changes'.editAt m = if m = n then e else changes.editAt m := by
  cases hf : changes.find? n with
  | none =>
    rw [show changes.editAt n = none by simp [editAt, MapPatch.editAt, hf]] at h
    obtain rfl : some r.edit = e := Option.some.inj h
    refine ⟨changes.set ⟨n, r⟩, ?_, editAt_set changes _⟩
    cases r <;> simp [edit, add, modify, del, hf]
  | some c =>
    rw [show changes.editAt n = some c.edit by simp [editAt, MapPatch.editAt, hf]] at h
    obtain ⟨name, record⟩ := c
    cases record with
    | add b =>
      cases r with
      | add a => cases h
      | modify a =>
        obtain rfl := Option.some.inj h
        exact ⟨changes.set ⟨n, .add a⟩, by simp [edit, modify, hf], editAt_set changes _⟩
      | del =>
        obtain rfl := Option.some.inj h
        exact ⟨changes.erase n, by simp [edit, del, hf], editAt_erase changes n⟩
    | modify b =>
      cases r with
      | add a => cases h
      | modify a =>
        obtain rfl := Option.some.inj h
        exact ⟨changes.set ⟨n, .modify a⟩, by simp [edit, modify, hf], editAt_set changes _⟩
      | del =>
        obtain rfl := Option.some.inj h
        exact ⟨changes.set ⟨n, .del⟩, by simp [edit, del, hf], editAt_set changes _⟩
    | del =>
      cases r with
      | add a =>
        obtain rfl := Option.some.inj h
        exact ⟨changes.set ⟨n, .modify a⟩, by simp [edit, add, hf], editAt_set changes _⟩
      | modify a => cases h
      | del => cases h

/-- The loop of `merge` composes the records of every producer. -/
theorem foldlM_edit_composes {l : List ProducerChange}
    (hl : l.Pairwise (fun a b => a.name < b.name)) {d : ChangeMap}
    (h : ∀ c ∈ l, ∃ e, MapPatch.compose (d.editAt c.name) c.edit = some e) :
    ∃ d', l.foldlM (fun d c => d.edit c.name c.record) d = .ok d' ∧
      ∀ m, MapPatch.composeWith (d.editAt m)
        ((l.find? (fun c => c.name = m)).map ProducerChange.edit) = some (d'.editAt m) := by
  induction l generalizing d with
  | nil => exact ⟨d, rfl, fun m => rfl⟩
  | cons c cs ih =>
    obtain ⟨hc, hcs⟩ := List.pairwise_cons.mp hl
    obtain ⟨e, he⟩ := h c List.mem_cons_self
    obtain ⟨d₁, hd₁, hk₁⟩ := edit_composes he
    have hrest : ∀ c' ∈ cs, d₁.editAt c'.name = d.editAt c'.name := fun c' hc' => by
      rw [hk₁, if_neg (hc c' hc').ne']
    obtain ⟨d₂, hd₂, hk₂⟩ := ih hcs (d := d₁) fun c' hc' => by
      rw [hrest c' hc']
      exact h c' (List.mem_cons_of_mem _ hc')
    refine ⟨d₂, by simp only [List.foldlM_cons, hd₁]; exact hd₂, fun m => ?_⟩
    have hm := hk₂ m
    by_cases hname : c.name = m
    · subst hname
      have hnone : cs.find? (fun x => x.name = c.name) = none :=
        List.find?_eq_none.mpr fun x hx => by simpa using (hc x hx).ne'
      simp only [hnone, Option.map_none, MapPatch.composeWith, hk₁, if_true,
        Option.some.injEq] at hm
      simp only [List.find?_cons, decide_true, Option.map_some, MapPatch.composeWith, ← hm]
      exact he
    · simp only [List.find?_cons, hname, decide_false]
      rwa [hk₁, if_neg (Ne.symm hname)] at hm

end ChangeMap

-- ---------------------------------------------------------------------------
-- Merging
-- ---------------------------------------------------------------------------

namespace ProducerChangeMap

/-- Apply a change map to the authorities of a set of producers. -/
def applyTo (c : ProducerChangeMap) (S : Authorities) : Option Authorities :=
  MapPatch.run c.changes ProducerChange.edit (if c.clearExisted then fun _ => none else S)

/-- Apply change maps one after the other. -/
def applyAll (cs : List ProducerChangeMap) (S : Authorities) : Option Authorities :=
  cs.foldlM (fun S c => c.applyTo S) S

/-- Merge change maps one after the other into `dest`. -/
def mergeAll (srcs : List ProducerChangeMap) (dest : ProducerChangeMap) :
    Result ProducerChangeMap :=
  srcs.foldlM (fun d src => merge src d) dest

/-- One merge is a composition. -/
theorem merge_applyTo {src dest : ProducerChangeMap} {S S' S'' : Authorities}
    (hd : dest.applyTo S = some S') (hs : src.applyTo S' = some S'') :
    ∃ merged, merge src dest = .ok merged ∧ merged.applyTo S = some S'' ∧
      merged.producerCount = src.producerCount := by
  by_cases hclear : src.clearExisted
  · refine ⟨src, by simp only [merge, hclear, if_true], ?_, rfl⟩
    simpa only [applyTo, hclear, if_true] using hs
  · simp only [applyTo, hclear, Bool.false_eq_true, if_false, MapPatch.run_eq_some_iff] at hd hs
    obtain ⟨d', hd', hedit⟩ := ChangeMap.foldlM_edit_composes src.changes.sorted
      (d := dest.changes) fun c hc => by
        have hstep := hs c.name
        rw [show MapPatch.editAt src.changes ProducerChange.edit c.name = some c.edit by
          simp [MapPatch.editAt, Table.find?_of_mem hc]] at hstep
        obtain ⟨e, he, -⟩ := (hd c.name).compose hstep
        exact ⟨e, he⟩
    refine ⟨{ dest with changes := d', producerCount := src.producerCount }, ?_, ?_, rfl⟩
    · simp only [merge, hclear, Bool.false_eq_true, if_false, Except.bind_ok_iff]
      exact ⟨d', hd', rfl⟩
    · rw [applyTo, MapPatch.run_eq_some_iff]
      exact MapPatch.Turns.trans hd hs hedit

/-- Many merges are a composition. -/
theorem mergeAll_applyTo {srcs : List ProducerChangeMap} {dest : ProducerChangeMap}
    {S S' : Authorities} (h : applyAll (dest :: srcs) S = some S') :
    ∃ merged, mergeAll srcs dest = .ok merged ∧ merged.applyTo S = some S' ∧
      merged.producerCount = (srcs.getLastD dest).producerCount := by
  induction srcs generalizing dest with
  | nil =>
    simp only [applyAll, List.foldlM_cons, List.foldlM_nil, bind_pure] at h
    exact ⟨dest, rfl, h, rfl⟩
  | cons src srcs ih =>
    simp only [applyAll, List.foldlM_cons, Option.bind_eq_bind, Option.bind_eq_some_iff] at h
    obtain ⟨S₁, h₁, S₂, h₂, hrest⟩ := h
    obtain ⟨merged, hm, happly, hcount⟩ := merge_applyTo h₁ h₂
    have hnext : applyAll (merged :: srcs) S = some S' := by
      simp only [applyAll, List.foldlM_cons, Option.bind_eq_bind, Option.bind_eq_some_iff]
      exact ⟨S₂, happly, hrest⟩
    obtain ⟨last, hl, hlast, hlcount⟩ := ih hnext
    refine ⟨last, ?_, hlast, ?_⟩
    · simp only [mergeAll, List.foldlM_cons, Except.bind_ok_iff]
      exact ⟨merged, hm, hl⟩
    · rw [hlcount]
      cases srcs with
      | nil => simpa using hcount
      | cons c cs => simp [List.getLastD]

/-- Merging is composition: two change maps, or any number of them in order. -/
theorem merge_composes (S S' : Authorities) (dest : ProducerChangeMap) :
    (∀ (src : ProducerChangeMap) (S'' : Authorities), dest.applyTo S = some S' →
      src.applyTo S' = some S'' → ∃ merged, merge src dest = .ok merged ∧
        merged.applyTo S = some S'' ∧ merged.producerCount = src.producerCount) ∧
    (∀ srcs : List ProducerChangeMap, applyAll (dest :: srcs) S = some S' →
      ∃ merged, mergeAll srcs dest = .ok merged ∧ merged.applyTo S = some S' ∧
        merged.producerCount = (srcs.getLastD dest).producerCount) :=
  ⟨fun _ _ => merge_applyTo, fun _ => mergeAll_applyTo⟩

private def signing (key : PublicKey) : BlockSigningAuthority := ⟨1, [⟨key, 1⟩]⟩

/-- Producer 1 leaves a set, and comes back with another key. -/
theorem merge_composes_readded :
    let dest : ProducerChangeMap := { changes := Table.empty.set ⟨1, .del⟩ }
    let src : ProducerChangeMap :=
      { producerCount := 1, changes := Table.empty.set ⟨1, .add (signing 8)⟩ }
    ∃ merged, merge src dest = .ok merged ∧
      merged.applyTo (Function.update (fun _ => none) 1 (some (signing 7))) =
        some (Function.update (Function.update (Function.update (fun _ => none) 1
          (some (signing 7))) 1 none) 1 (some (signing 8))) ∧
      merged.producerCount = 1 :=
  (merge_composes _ _ _).1 _ _ rfl rfl

end ProducerChangeMap

end Amax
