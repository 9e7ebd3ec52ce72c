import PowerOfAttorney.Command.InPlace
import PowerOfAttorney.Proofs.Operation.Named
import PowerOfAttorney.Proofs.Operation.Reach

/-!
# `PowerOfAttorney.Proofs.Operation.Target` — operations on one party concern the party that their keys name

An attorney or a trust corporation signs, or an attorney is given an address for online access. Such an
operation reads the changes below a list entry by entry. The first entry that is read is picked, and the
changes of any other are refused, as are those of an entry that is not there. So without faults one entry has
been picked, since some change has to be there, and each change is about this entry.

## Contents
- **Parties.** `PartyOperation`, where its parties are, and `PartyOperation.place` of a field of one.
- **Picking.** `Script.settles_choose_picks` for the script on one entry, and `Script.tracks_picks_oneEntry`.
- **Readings.** `PartyOperation.Concerns`, how changes go with what is given to one party, and
  `ReadBy.exists_concerns`, for any script that reads such an operation.
- **Operations.** `AttorneySign.readBy`, `TrustCorporationSign.readBy` and `AttorneyAccess.readBy`.
-/

namespace PowerOfAttorney

open Script

/-! ## Parties -/

/-- An operation on one party of a list. -/
structure PartyOperation (α : Type) where
  operation : Operation
  /-- The name of the list in keys. -/
  name : String
  list : Focus Document (List α)

namespace PartyOperation

variable {α : Type}

/-- The place of a field of the party at `i`. -/
def place (op : PartyOperation α) (i : Nat) (b : Place) : Place :=
  .name op.name :: .index i :: b

theorem place_inj (op : PartyOperation α) {i j : Nat} {b b' : Place} (h : op.place i b = op.place j b') :
    i = j ∧ b = b' := by
  obtain ⟨_, hrest⟩ := List.cons.inj h
  obtain ⟨hindex, hbelow⟩ := List.cons.inj hrest
  exact ⟨Label.index.inj hindex, hbelow⟩

end PartyOperation

/-! ## Picking -/

namespace Script

variable {σ τ : Type} {name : String}

/-- A script on one entry of a list picks it. -/
theorem settles_choose_picks {at? : Label → Option Nat} {l : Label} {i : Nat} (hl : at? l = some i)
    (seed : τ) (inner : Script τ) :
    (Script.choose i seed inner).Settles (Picks at? name) [.name name, l] := by
  rw [← within_self (Script.choose i seed inner)]
  refine settles_choose (fun _ _ => rfl) ?_ ?_
  · intro ps x w hx hall
    exact hx.set hl hall w
  · intro ps x w b hx hw
    exact hx.append_below hl hw b

/-- So does a script that reads one entry of a list and refuses the changes of entries that are not there. -/
theorem tracks_picks_oneEntry {key : String} (hkey : Place.ofKey key = [.name name]) {count : Nat}
    {seed : τ} {inner : Script τ} {s : Script (Option (Nat × τ))}
    (hs : s = .under key true (.each [] (oneEntry count seed inner) <| .consumed .done)
      (.consumed .done)) : s.Tracks (Picks Label.index? name) [] := by
  subst hs
  refine tracks_under (tracks_each (fun i => ?_) (tracks_consumed tracks_done)).settles
    (tracks_consumed tracks_done)
  rw [hkey]
  unfold oneEntry
  split
  · exact settles_choose_picks rfl seed inner
  · exact settles_outOfRange

/-- Where something below a key is asked for, some change is read. -/
theorem ne_nil_of_read {key : String} {inner next s : Script σ} (hs : s = .under key true inner next)
    {draft : σ} {changes : List Change} (hnone : (s.read draft changes).2 = []) : changes ≠ [] := by
  rintro rfl
  subst hs
  have hmissing : [Fault.missing ("" ++ key ++ "/...")] = [] := faults_of_run (s := next) hnone
  exact List.cons_ne_nil _ _ hmissing

end Script

/-! ## Readings -/

namespace PartyOperation

variable {α τ : Type} {op : PartyOperation α} {d : Document} {changes : List Change}

/-- **The changes are about the party at `i`.** Each names a field of this party, which is given what the
    change brings; a field that none of them names is given what it started from. -/
structure Concerns (op : PartyOperation α) (d : Document) (changes : List Change) (i : Nat)
    (starts gives : Place → Option Held) : Prop where
  named : ∀ c ∈ changes, ∃ b y, op.operation.place? d c.key = some (op.place i b) ∧
    y.type.decode c.new = .ok y.value ∧ gives b = some y
  kept : ∀ b, ¬ op.operation.Names d changes (op.place i b) → gives b = starts b
  checked : ∀ b, op.operation.Names d changes (op.place i b) →
    ∃ check, op.operation.check? d d.decisions (op.place i b) = some check

/-- A script reads an operation on one party into a draft, which picks an entry by its label. What is given
    to a party shows below the label of the party. -/
structure ReadBy (op : PartyOperation α) (d : Document) (s : Script (Option (Nat × τ)))
    (L : Layout (Option (Nat × τ))) (at? : Label → Option Nat) (starts : α → Place → Option Held)
    (gives : α → τ → Place → Option Held) : Prop where
  ends : s.Ends
  fits : s.Fits (L.below [.name op.name]) True (fun _ => True) (fun _ => True) []
  describes : op.operation.Describes d (L.below [.name op.name]) fun _ => d.decisions
  tracks : s.Tracks (Picks at? op.name) []
  start : L.start = none
  needed : ∃ key inner next, s = .under key true inner next
  there : ∀ p y check, op.operation.held? d p = some y →
    op.operation.check? d d.decisions p = some check →
      ∃ i b x, p = op.place i b ∧ (op.list.get d)[i]? = some x
  locate_iff : ∀ q i b, op.operation.locate? d q = some (op.place i b) ↔
    ∃ l, q = .name op.name :: l :: b ∧ at? l = some i
  view_none : ∀ l i x b, at? l = some i → (op.list.get d)[i]? = some x →
    L.view none (l :: b) = starts x b
  view_some : ∀ l i x w b, at? l = some i → (op.list.get d)[i]? = some x →
    L.view (some (i, w)) (l :: b) = gives x w b

namespace ReadBy

variable {s : Script (Option (Nat × τ))} {L : Layout (Option (Nat × τ))} {at? : Label → Option Nat}
  {starts : α → Place → Option Held} {gives : α → τ → Place → Option Held}

variable (h : op.ReadBy d s L at? starts gives) (hnone : (s.read L.start changes).2 = [])

include h hnone

/-- Without faults what has been taken below the list is below the entry that is picked. -/
theorem picks : Picks at? op.name ((s.log L.start changes).map Hit.place) (s.read L.start changes).1 := by
  refine Traces.read h.ends (h.tracks [] L.start ?_) hnone
  rw [h.start]
  exact picks_none

/-- Each change names a field of the party that is picked, who is there. -/
theorem exists_of_mem {c : Change} (hc : c ∈ changes) :
    ∃ i w x l b y, (s.read L.start changes).1 = some (i, w) ∧ (op.list.get d)[i]? = some x ∧
      at? l = some i ∧ op.operation.place? d c.key = some (op.place i b) ∧
      y.type.decode c.new = .ok y.value ∧ gives x w b = some y := by
  obtain ⟨q, p, y, v, check, hkey, hq, hheld, hdecode, hview, hcheck, _⟩ :=
    view_of_change h.ends h.fits h.describes hnone hc
  obtain ⟨i, b, x, rfl, hx⟩ := h.there p y check hheld hcheck
  obtain ⟨l, rfl, hl⟩ := (h.locate_iff q i b).mp hq
  -- The field has been taken, so it is below the entry that is picked.
  obtain ⟨q', hlog, hq'⟩ := (names_iff h.ends h.fits h.describes hnone).mp ⟨c, hc, hkey⟩
  obtain rfl := Operation.locate?_inj hq hq'
  obtain ⟨e, he, hlabel⟩ := (h.picks hnone).below l b hlog
  obtain ⟨j, w⟩ := e
  obtain rfl : i = j := Option.some.inj (hl.symm.trans hlabel)
  have hchosen : (s.read L.start changes).1 = some (i, w) := he
  refine ⟨i, w, x, l, b, ⟨y.type, v⟩, hchosen, hx, hl, hkey, hdecode, ?_⟩
  rw [← h.view_some l i x w b hl hx, ← hchosen]
  exact (Layout.view_below L [.name op.name] _ (l :: b)).symm.trans hview

/-- **One party is picked, who is there, and the changes are about this party.** -/
theorem exists_concerns :
    changes ≠ [] ∧ ∃ i w x, (s.read L.start changes).1 = some (i, w) ∧
      (op.list.get d)[i]? = some x ∧ op.Concerns d changes i (starts x) (gives x w) := by
  obtain ⟨_, _, _, hs⟩ := h.needed
  have hne : changes ≠ [] := ne_nil_of_read hs hnone
  obtain ⟨c, hc⟩ := List.exists_mem_of_ne_nil changes hne
  obtain ⟨i, w, x, l, _, _, hchosen, hx, hl, _⟩ := h.exists_of_mem hnone hc
  refine ⟨hne, i, w, x, hchosen, hx, ?_, ?_, ?_⟩
  · intro c' hc'
    obtain ⟨i', w', x', _, b, y, hchosen', hx', _, hkey, hdecode, hgives⟩ := h.exists_of_mem hnone hc'
    obtain ⟨rfl, rfl⟩ := Prod.mk.inj (Option.some.inj (hchosen'.symm.trans hchosen))
    obtain rfl : x' = x := Option.some.inj (hx'.symm.trans hx)
    exact ⟨b, y, hkey, hdecode, hgives⟩
  · intro b hunnamed
    have hlocate : op.operation.locate? d (.name op.name :: l :: b) = some (op.place i b) :=
      (h.locate_iff _ i b).mpr ⟨l, rfl, hl⟩
    have hkept := view_of_unnamed h.ends h.fits h.describes hnone hlocate hunnamed
    rw [← h.view_some l i x w b hl hx, ← h.view_none l i x b hl hx, ← hchosen, ← h.start]
    have hview := Layout.view_below L [.name op.name]
    exact (hview _ (l :: b)).symm.trans (hkept.trans (hview _ (l :: b)))
  · intro b hnamed
    exact exists_check_of_names h.ends h.fits h.describes hnone hnamed

end ReadBy

end PartyOperation

/-! ## Operations -/

/-- Parties who sign are named by index, and give what they give from nothing. -/
theorem PartyOperation.readBy_atIndex {α τ : Type} {op : PartyOperation α} {d : Document} {L : Layout τ}
    {key : String} {inner : Script τ} {s : Script (Option (Nat × τ))}
    (hkey : Place.ofKey key = [.name op.name])
    (hs : s = .under key true
      (.each [] (oneEntry (op.list.get d).length L.start inner) <| .consumed .done) (.consumed .done))
    (hends : s.Ends)
    (hfits : s.Fits ((L.atIndex (op.list.get d).length).below [.name op.name]) True (fun _ => True)
      (fun _ => True) [])
    (hdescribes : op.operation.Describes d ((L.atIndex (op.list.get d).length).below [.name op.name])
      fun _ => d.decisions)
    (hbyIndex : op.operation.namesByUid = false)
    (hthere : ∀ p y, op.operation.held? d p = some y →
      ∃ i b, p = op.place i b ∧ i < (op.list.get d).length) :
    op.ReadBy d s (L.atIndex (op.list.get d).length) Label.index? (fun _ => L.base) fun _ => L.view where
  ends := hends
  fits := hfits
  describes := hdescribes
  tracks := tracks_picks_oneEntry hkey hs
  start := rfl
  needed := ⟨_, _, _, hs⟩
  there := by
    intro p y _ hheld _
    obtain ⟨i, b, rfl, hi⟩ := hthere p y hheld
    exact ⟨i, b, _, rfl, List.getElem?_eq_getElem hi⟩
  locate_iff := by
    intro q i b
    unfold Operation.locate?
    rw [hbyIndex, if_neg Bool.false_ne_true, Option.some.injEq]
    constructor
    · rintro rfl
      exact ⟨.index i, rfl, rfl⟩
    · rintro ⟨l, rfl, hl⟩
      rw [Label.eq_of_index? hl]
      rfl
  view_none := by
    intro l i x b hl hx
    rw [Label.eq_of_index? hl]
    exact Layout.base_atIndex (List.getElem?_eq_some_iff.mp hx).1 b
  view_some := by
    intro l i x w b hl hx
    rw [Label.eq_of_index? hl]
    exact Layout.view_atIndex (List.getElem?_eq_some_iff.mp hx).1 w b

/-- An attorney signs. -/
def PartyOperation.attorneySign : PartyOperation Attorney where
  operation := .attorneySign
  name := "attorneys"
  list := .attorneys

/-- A trust corporation signs. -/
def PartyOperation.trustCorporationSign : PartyOperation TrustCorporation where
  operation := .trustCorporationSign
  name := "trustCorporations"
  list := .trustCorporations

/-- An attorney is given an address for online access. -/
def PartyOperation.attorneyAccess : PartyOperation Attorney where
  operation := .attorneyAccessOnline
  name := "attorneys"
  list := .attorneys

section

variable (d : Document)

theorem AttorneySign.readBy :
    PartyOperation.attorneySign.ReadBy d (script d) (layout.atIndex d.attorneys.length) Label.index?
      (fun _ => ({} : AttorneySign).holds) fun _ => holds := by
  refine PartyOperation.readBy_atIndex (by decide) rfl (ends d) (fits d) (describes d) rfl ?_
  intro p y hheld
  change Operation.attorneySign.held? d p = some y at hheld
  unfold Operation.held? at hheld
  split at hheld
  · rename_i hop
    cases hop
  · rename_i i b _
    exact ⟨i, b, rfl, (Option.ite_none_right_eq_some.mp hheld).1⟩
  · rename_i hop
    cases hop
  · cases hheld

theorem TrustCorporationSign.readBy :
    PartyOperation.trustCorporationSign.ReadBy d (script d) (layout.atIndex d.trustCorporations.length)
      Label.index? (fun _ => ({} : TrustCorporationSign).holds) fun _ => holds := by
  refine PartyOperation.readBy_atIndex (by decide) rfl (ends d) (fits d) (describes d) rfl ?_
  intro p y hheld
  change Operation.trustCorporationSign.held? d p = some y at hheld
  unfold Operation.held? at hheld
  split at hheld
  · rename_i hop
    cases hop
  · rename_i hop
    cases hop
  · rename_i i b _
    exact ⟨i, b, rfl, (Option.ite_none_right_eq_some.mp hheld).1⟩
  · cases hheld

/-- The one field for online access is the address. -/
theorem AttorneyAccess.exists_of_check? {s : Decisions} {p : Place} {check : Option Check}
    (h : Operation.attorneyAccessOnline.check? d s p = some check) :
    ∃ i, p = [.name "attorneys", .index i, .name "email"] := by
  unfold Operation.check? at h
  split at h
  case h_9 i _ => exact ⟨i, rfl⟩
  all_goals
    first
    | rename_i hop
      cases hop
    | cases h

/-- The address on record is where an address for online access starts from. -/
theorem AttorneyAccess.readBy :
    PartyOperation.attorneyAccess.ReadBy d (script d) (layout d) d.attorneyAt? Attorney.holds
      fun a email => { a with email := email }.holds where
  ends := ends d
  fits := fits d
  describes := describes d
  tracks := by
    refine tracks_under (tracks_eachKey (fun uid => ?_) (tracks_consumed tracks_done)).settles
      (tracks_consumed tracks_done)
    rw [Place.ofKey_attorneys]
    cases hi : d.attorneyIndex? uid with
    | none => exact settles_outOfRange
    | some i => exact settles_choose_picks (l := .name uid) hi _ _
  start := rfl
  needed := ⟨_, _, _, rfl⟩
  there := by
    intro p y check hheld hcheck
    obtain ⟨i, rfl⟩ := exists_of_check? d hcheck
    have hholds : (d.attorneys[i]?).bind (fun a => a.holds [.name "email"]) = some y := hheld
    obtain ⟨a, ha, _⟩ := Option.bind_eq_some_iff.mp hholds
    exact ⟨i, [.name "email"], a, rfl, ha⟩
  locate_iff := by
    intro q i b
    constructor
    · intro h
      rcases Document.eq_of_locate? h with rfl | ⟨uid, j, b', hj, rfl, hplace⟩
      · cases h
      · obtain ⟨rfl, rfl⟩ := PartyOperation.attorneyAccess.place_inj hplace
        exact ⟨.name uid, rfl, hj⟩
    · rintro ⟨l, rfl, hl⟩
      exact d.locate?_attorney hl b
  view_none := by
    intro l i a b hl ha
    show (layout d).base (l :: b) = _
    unfold layout
    rw [Layout.base_entries (fun _ => rfl) hl, Entries.holds_index, show d.attorneys[i]? = some a from ha]
    rfl
  view_some := by
    intro l i a email b hl ha
    unfold layout
    rw [Layout.view_entries (fun _ => rfl), hl, Option.bind_some, Entries.holds_index]
    show ((d.attorneys.modify i _)[i]?).bind _ = _
    rw [List.getElem?_modify_eq, show d.attorneys[i]? = some a from ha]
    rfl

end

end PowerOfAttorney
