import PowerOfAttorney.Proofs.Operation.Accepted

/-!
# `PowerOfAttorney.Proofs.Operation.Named` — what changes name comes to hold what they bring

A run without faults takes a field for each change and no other. So the fields that have been taken are
those that the keys of the changes name, each shows what its change brings, and everywhere else the draft
shows what it did at first.

## Contents
- **Names.** `Operation.Names`, and `Script.names_iff`: what is named is what has been taken.
- **Spellings.** `Script.exists_hit_of_change` and `Script.view_of_unspelled`, by the keys themselves.
- **Values.** `Script.view_of_change` and `Script.view_of_unnamed`; `Script.exists_check_of_names`.
-/

namespace PowerOfAttorney

variable {σ : Type}

/-- The changes name a field, which stands at a place of the document. -/
def Operation.Names (op : Operation) (d : Document) (changes : List Change) (p : Place) : Prop :=
  ∃ c ∈ changes, op.place? d c.key = some p

namespace Script

variable {s : Script σ} {L : Layout σ} {op : Operation} {d : Document} {decisions : σ → Decisions}
  {changes : List Change}

section

variable (hends : s.Ends) (hfits : s.Fits L True (fun _ => True) (fun _ => True) [])
  (hnone : (s.read L.start changes).2 = [])

include hends hfits hnone

/-- A change is taken by a field whose place its key spells, and which comes to show what the change
    brings. -/
theorem exists_hit_of_change {c : Change} (hc : c ∈ changes) :
    ∃ g ∈ s.log L.start changes, g.place.IsSpelled (Path.ofString c.key) ∧
      ∃ v, g.slot.type.decode c.new = .ok v ∧
        L.view (s.read L.start changes).1 g.place = some ⟨g.slot.type, v⟩ ∧
        ∀ k, g.check = some k → k.fault? (g.slot.type.view v) = none := by
  obtain ⟨i, hi, rfl⟩ := List.mem_iff_getElem.mp hc
  obtain ⟨g, hg, _, _, hnew, hspelled, hagrees, v, hdecode, hpasses, _⟩ :=
    exists_accepted hends hnone (List.getElem?_eq_getElem hi)
  have hshown := (hfits.sound_log changes).patch.taken g hg v hagrees hdecode
  rw [hnew] at hdecode
  exact ⟨g, hg, hspelled, v, hdecode, hshown, hpasses⟩

/-- A field whose place no key spells shows what it did at first. -/
theorem view_of_unspelled {q : Place} (hq : ∀ c ∈ changes, ¬ q.IsSpelled (Path.ofString c.key)) :
    L.view (s.read L.start changes).1 q = L.base q := by
  refine (hfits.sound_log changes).patch.kept q fun hmem => ?_
  obtain ⟨g, hg, rfl⟩ := List.mem_map.mp hmem
  obtain ⟨c, hc, hspelled, _⟩ := isAccepted_of_mem_log hends hnone hg
  exact hq c hc hspelled

end

variable (hends : s.Ends) (hfits : s.Fits L True (fun _ => True) (fun _ => True) [])
  (hdescribes : op.Describes d L decisions) (hnone : (s.read L.start changes).2 = [])

include hends hfits hdescribes hnone

/-- **The places that are named are those that have been taken.** -/
theorem names_iff {p : Place} : op.Names d changes p ↔
    ∃ q ∈ (s.log L.start changes).map Hit.place, op.locate? d q = some p := by
  constructor
  · rintro ⟨c, hc, hkey⟩
    obtain ⟨i, hi, rfl⟩ := List.mem_iff_getElem.mp hc
    obtain ⟨g, hg, _, _, _, hspelled, _⟩ :=
      exists_accepted hends hnone (List.getElem?_eq_getElem hi)
    obtain ⟨p', hp', _, _, hnames⟩ := meant_of_mem_log hfits hdescribes hg
    obtain rfl : p' = p := Option.some.inj ((hnames _ hspelled).symm.trans hkey)
    exact ⟨g.place, List.mem_map_of_mem hg, hp'⟩
  · rintro ⟨_, hmem, hq⟩
    obtain ⟨g, hg, rfl⟩ := List.mem_map.mp hmem
    obtain ⟨c, hc, hspelled, _⟩ := isAccepted_of_mem_log hends hnone hg
    obtain ⟨p', hp', _, _, hnames⟩ := meant_of_mem_log hfits hdescribes hg
    obtain rfl : p' = p := Option.some.inj (hp'.symm.trans hq)
    exact ⟨c, hc, hnames _ hspelled⟩

/-- **A field that a change names comes to show what the change brings**, which has passed its check. -/
theorem view_of_change {c : Change} (hc : c ∈ changes) :
    ∃ q p x v check, op.place? d c.key = some p ∧ op.locate? d q = some p ∧
      op.held? d p = some x ∧ x.type.decode c.new = .ok v ∧
      L.view (s.read L.start changes).1 q = some ⟨x.type, v⟩ ∧
      op.check? d (decisions (s.read L.start changes).1) p = some check ∧
      ∀ k, check = some k → k.fault? (x.type.view v) = none := by
  obtain ⟨g, hg, hspelled, v, hdecode, hshown, hpasses⟩ := exists_hit_of_change hends hfits hnone hc
  obtain ⟨p, hp, hheld, hcheck, hnames⟩ := meant_of_mem_log hfits hdescribes hg
  exact ⟨g.place, p, _, v, g.check, hnames _ hspelled, hp, hheld, hdecode, hshown, hcheck, hpasses⟩

/-- What is named may be changed. -/
theorem exists_check_of_names {p : Place} (hp : op.Names d changes p) :
    ∃ check, op.check? d (decisions (s.read L.start changes).1) p = some check := by
  obtain ⟨c, hc, hkey⟩ := hp
  obtain ⟨_, p', _, _, check, hkey', _, _, _, _, hcheck, _⟩ :=
    view_of_change hends hfits hdescribes hnone hc
  obtain rfl : p' = p := Option.some.inj (hkey'.symm.trans hkey)
  exact ⟨check, hcheck⟩

/-- **A field that no change names shows what it did at first.** -/
theorem view_of_unnamed {q p : Place} (hq : op.locate? d q = some p) (hp : ¬ op.Names d changes p) :
    L.view (s.read L.start changes).1 q = L.base q := by
  refine (hfits.sound_log changes).patch.kept q ?_
  intro hmem
  exact hp ((names_iff hends hfits hdescribes hnone).mpr ⟨q, hmem, hq⟩)

end Script

end PowerOfAttorney
