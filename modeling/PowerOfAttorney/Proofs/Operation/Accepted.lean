import PowerOfAttorney.Proofs.Change.Agreement
import PowerOfAttorney.Proofs.Operation.Corrections
import PowerOfAttorney.Proofs.Operation.Ends
import PowerOfAttorney.Proofs.Operation.Keys
import PowerOfAttorney.Proofs.Operation.Signing
import PowerOfAttorney.Proofs.Operation.Standing

/-!
# `PowerOfAttorney.Proofs.Operation.Accepted` — an accepted update edits what it claims to edit

If nothing is wrong with an update, then each of its changes edits a field of its operation, based on
what the field holds, and no two edit the same one. The scripts are known to end and to respect a
layout; what is left is that the layouts say what the tables of the operations say.

## Contents
- **Edits.** `Change.Edits`, for one change and one field, and `Operation.Accepts` for all of them.
- **Runs.** `Script.accepts`: a run without faults over a layout that the tables describe.
- **Tables.** `Operation.Describes`, one lemma for each operation.
- **Readings.** `Command.IsReadBy`, and `Command.exists_isReadBy` for every operation.
- **Updates.** `Update.accepts_of_validate`.
-/

namespace PowerOfAttorney

variable {σ : Type}

/-! ## Edits -/

/-- A change edits the field at a place: its key names the place, its old value is the one that is held
    there, and its new value decodes and passes the check. The decisions are those in the end. -/
structure Change.Edits (c : Change) (op : Operation) (d : Document) (s : Decisions) (p : Place) :
    Prop where
  named : op.place? d c.key = some p
  field : ∃ x check, op.held? d p = some x ∧ op.check? d s p = some check ∧
    x.type.agrees x.value c.old = true ∧
    ∃ v, x.type.decode c.new = .ok v ∧ ∀ k, check = some k → k.fault? (x.type.view v) = none

/-- All changes edit fields of an operation, and each another one. -/
def Operation.Accepts (op : Operation) (d : Document) (s : Decisions) (changes : List Change) : Prop :=
  ∃ place : Fin changes.length → Place, Function.Injective place ∧
    ∀ i : Fin changes.length, (changes[i]).Edits op d s (place i)

/-- Different names of places mean different places. -/
theorem Operation.locate?_inj {op : Operation} {d : Document} {q q' p : Place}
    (h : op.locate? d q = some p) (h' : op.locate? d q' = some p) : q = q' := by
  unfold locate? at h h'
  split at h
  · rename_i huid
    rw [if_pos huid] at h'
    exact Document.locate?_inj h h'
  · rename_i huid
    rw [if_neg huid] at h'
    rw [Option.some.inj h, Option.some.inj h']

/-! ## Runs -/

/-- The tables of an operation say what a layout shows and which fields it owns. -/
def Operation.Describes (op : Operation) (d : Document) (L : Layout σ) (decisions : σ → Decisions) :
    Prop :=
  ∀ s q x check, L.base q = some x → L.owns s q check →
    ∃ p, op.locate? d q = some p ∧ op.held? d p = some x ∧ op.check? d (decisions s) p = some check

namespace Script

/-- Without faults every change is accepted by a field. -/
theorem exists_accepted {s : Script σ} (hends : s.Ends) {draft : σ} {changes : List Change}
    (hnone : (s.read draft changes).2 = []) {i : Nat} {c : Change} (hc : changes[i]? = some c) :
    ∃ h ∈ s.log draft changes, h.entry.position = i ∧ h.entry.old = c.old ∧ h.entry.new = c.new ∧
      h.place.IsSpelled (Path.ofString c.key) ∧ h.IsAccepted := by
  obtain ⟨hi, _⟩ := List.getElem?_eq_some_iff.mp hc
  have hsum := acceptedAt_add_problems hends draft hi
  have hproblems : s.problems draft changes = [] := by
    unfold problems
    rw [hnone]
    rfl
  rw [hproblems, List.countP_nil, Nat.add_zero] at hsum
  have hpos : 0 < acceptedAt i (s.log draft changes) := by omega
  obtain ⟨h, hlog, hacc⟩ := List.countP_pos_iff.mp hpos
  rw [Bool.and_eq_true, beq_iff_eq] at hacc
  obtain ⟨hold, hnew, hspelled⟩ := change_of_mem_log hlog (hacc.1 ▸ hc)
  exact ⟨h, hlog, hacc.1, hold, hnew, hspelled, (isFilled_of_mem_hits h hlog).isAccepted hacc.2⟩

/-- Where nothing is wrong, a field that takes a change accepts it. -/
theorem isAccepted_of_mem_log {s : Script σ} (hends : s.Ends) {draft : σ} {changes : List Change}
    (hnone : (s.read draft changes).2 = []) {g : Hit σ} (hg : g ∈ s.log draft changes) :
    ∃ c ∈ changes, g.place.IsSpelled (Path.ofString c.key) ∧ g.entry.new = c.new ∧ g.IsAccepted := by
  have hi := position_lt_of_mem_log hg
  obtain ⟨h, hlog, hsame, _, hnew, hspelled, haccepted⟩ :=
    exists_accepted hends hnone (List.getElem?_eq_getElem hi)
  -- A position is taken once, so the change that is accepted there is the one that was taken.
  have htaken : (s.taken draft changes g.entry.position).length ≤ 1 := by
    rw [length_taken, ← Entry.countP_position_ofChanges hi]
    exact takenAt_hits_le s "" [] _ _
  have hmem : g ∈ s.taken draft changes g.entry.position :=
    List.mem_filter.mpr ⟨hg, beq_self_eq_true _⟩
  have hmem' : h ∈ s.taken draft changes g.entry.position :=
    List.mem_filter.mpr ⟨hlog, beq_iff_eq.mpr hsame⟩
  obtain ⟨x, hx⟩ := List.length_eq_one_iff.mp
    (Nat.le_antisymm htaken (List.length_pos_of_mem hmem))
  rw [hx, List.mem_singleton] at hmem hmem'
  obtain rfl : h = g := hmem'.trans hmem.symm
  exact ⟨_, List.getElem_mem hi, hspelled, hnew, haccepted⟩

/-- A field that is taken stands at a place that is meant, which is the one that every key names that
    spells it. -/
theorem meant_of_mem_log {s : Script σ} {L : Layout σ}
    (hfits : s.Fits L True (fun _ => True) (fun _ => True) []) {op : Operation} {d : Document}
    {decisions : σ → Decisions} (hdescribes : op.Describes d L decisions) {changes : List Change}
    {g : Hit σ} (hg : g ∈ s.log L.start changes) :
    ∃ p, op.locate? d g.place = some p ∧ op.held? d p = some ⟨g.slot.type, g.held⟩ ∧
      op.check? d (decisions (s.read L.start changes).1) p = some g.check ∧
      ∀ key, g.place.IsSpelled (Path.ofString key) → op.place? d key = some p := by
  have hsound := hfits.sound_log changes
  obtain ⟨p, hp, hheld, hcheck⟩ := hdescribes _ _ _ _ (hsound.held g hg)
    (hsound.owns g hg (s.read L.start changes).1 fun _ => rfl)
  exact ⟨p, hp, hheld, hcheck, fun key hspelled => Operation.place?_of_isSpelled hspelled hp hheld⟩

/-- **A run without faults accepts all changes**, over a layout that the tables describe. -/
theorem accepts {s : Script σ} (hends : s.Ends) {L : Layout σ}
    (hfits : s.Fits L True (fun _ => True) (fun _ => True) []) {op : Operation} {d : Document}
    {decisions : σ → Decisions} (hdescribes : op.Describes d L decisions) {changes : List Change}
    (hnone : (s.read L.start changes).2 = []) :
    op.Accepts d (decisions (s.read L.start changes).1) changes := by
  have hsound := hfits.sound_log changes
  -- For each change, the hit that accepts it and the place that is meant by the hit.
  have hedit : ∀ i : Fin changes.length, ∃ h ∈ s.log L.start changes, h.entry.position = i ∧
      ∃ p, op.locate? d h.place = some p ∧
        (changes[i]).Edits op d (decisions (s.read L.start changes).1) p := by
    intro i
    have hc : changes[i.val]? = some changes[i] := List.getElem?_eq_getElem i.isLt
    obtain ⟨h, hlog, hposition, hold, hnew, hspelled, hagrees, v, hdecode, hcheck, _⟩ :=
      exists_accepted hends hnone hc
    obtain ⟨p, hp, hheld, hallowed, hnames⟩ := meant_of_mem_log hfits hdescribes hlog
    rw [hold] at hagrees
    rw [hnew] at hdecode
    exact ⟨h, hlog, hposition, p, hp, hnames _ hspelled, _, _, hheld, hallowed, hagrees, v, hdecode,
      hcheck⟩
  choose hit hlog hposition place hplace hedits using hedit
  refine ⟨place, fun i j hij => ?_, hedits⟩
  have hsame : (hit i).place = (hit j).place :=
    Operation.locate?_inj (hplace i) (hij ▸ hplace j)
  have hhit : hit i = hit j :=
    List.inj_on_of_nodup_map hsound.patch.nodup (hlog i) (hlog j) hsame
  exact Fin.ext ((hposition i).symm.trans (hhit ▸ hposition j))

end Script

/-! ## Tables -/

/-- Below a place, the tables describe what the layout shows from there. -/
theorem Operation.Describes.below {op : Operation} {d : Document} {L : Layout σ} {top : Place}
    {decisions : σ → Decisions}
    (h : ∀ s b x check, L.base b = some x → L.owns s b check → ∃ p, op.locate? d (top ++ b) = some p ∧
      op.held? d p = some x ∧ op.check? d (decisions s) p = some check) :
    op.Describes d (L.below top) decisions := by
  rintro s q x check hbase ⟨b, rfl, howns⟩
  refine h s b x check ?_ howns
  unfold Layout.base at hbase ⊢
  rwa [show (L.below top).start = L.start from rfl, Layout.view_below] at hbase

/-- What is read of a party that signs at an index. -/
theorem Layout.of_atIndex {τ : Type} {L : Layout τ} {count : Nat} {s : Option (Nat × τ)} {q : Place}
    {x : Held} {check : Option Check} (hbase : (L.atIndex count).base q = some x)
    (howns : (L.atIndex count).owns s q check) :
    ∃ i b, q = .index i :: b ∧ i < count ∧ L.base b = some x ∧ ∃ t, L.owns t b check := by
  obtain ⟨⟨i, L', b⟩, he, t, howns⟩ := howns
  have hview : L'.view L'.start b = some x := by
    unfold base atIndex oneOf at hbase
    dsimp only at hbase he
    rw [he] at hbase
    exact hbase
  cases q with
  | nil => exact absurd he nofun
  | cons l b' =>
      cases l with
      | name _ => exact absurd he nofun
      | index j =>
          dsimp only at he
          split at he
          · rename_i hj
            cases he
            exact ⟨i, b, rfl, hj, hview, t, howns⟩
          · exact absurd he nofun

/-- What is read of the entries of a list at first is what they hold. -/
theorem Layout.base_entries {α β : Type} {holds : α → Place → Option Held} {amend : β → α → α}
    {of : α → β} {checks : Checks} {at? : Label → Option Nat} {xs : List α}
    (hof : ∀ a, amend (of a) a = a) {l : Label} {b : Place} {i : Nat} (hl : at? l = some i) :
    (Layout.entries holds amend of checks at? xs).base (l :: b) =
      Entries.holds holds xs (.index i :: b) := by
  show (Layout.entries holds amend of checks at? xs).view none (l :: b) = _
  rw [view_entries hof, hl]
  rfl

theorem Layout.base_moves {α β : Type} {holds : α → Place → Option Held} {set : β → α → α}
    {at? : Label → Option Nat} {moves : σ → List (Nat × β)} {start : σ} (hstart : moves start = [])
    {xs : List α} {checks : Checks} {l : Label} {b : Place} {i : Nat} (hl : at? l = some i) :
    (Layout.moves holds set at? moves start xs checks).base (l :: b) =
      Entries.holds holds xs (.index i :: b) := by
  show (at? l).bind (fun i => Entries.holds holds (moved set (moves start) xs) (.index i :: b)) = _
  rw [hl, hstart]
  rfl

/-- Attorneys who are named by uid stand at their index. -/
theorem Document.locate?_attorney {d : Document} {l : Label} {i : Nat} (h : d.attorneyAt? l = some i)
    (b : Place) : d.locate? (.name "attorneys" :: l :: b) = some (.name "attorneys" :: .index i :: b) := by
  cases l with
  | index _ => exact absurd h nofun
  | name uid =>
      show (d.attorneyIndex? uid).map _ = _
      rw [show d.attorneyIndex? uid = some i from h]
      rfl

theorem Label.eq_of_index? {l : Label} {i : Nat} (h : l.index? = some i) : l = .index i := by
  cases l with
  | name _ => exact absurd h nofun
  | index j => rw [Option.some.inj h]

variable (d : Document)

theorem CertificateProviderSign.describes :
    Operation.certificateProviderSign.Describes d (layout.below [.name "certificateProvider"])
      fun _ => d.decisions :=
  .below fun _ _ _ _ hbase howns => ⟨_, rfl, hbase, howns⟩

theorem AttorneySign.describes :
    Operation.attorneySign.Describes d ((layout.atIndex d.attorneys.length).below [.name "attorneys"])
      fun _ => d.decisions := by
  refine .below fun s b x check hbase howns => ?_
  obtain ⟨i, b, rfl, hi, hbase, _, howns⟩ := Layout.of_atIndex hbase howns
  exact ⟨_, rfl, (if_pos hi).trans hbase, howns⟩

theorem TrustCorporationSign.describes :
    Operation.trustCorporationSign.Describes d
      ((layout.atIndex d.trustCorporations.length).below [.name "trustCorporations"])
      fun _ => d.decisions := by
  refine .below fun s b x check hbase howns => ?_
  obtain ⟨i, b, rfl, hi, hbase, _, howns⟩ := Layout.of_atIndex hbase howns
  exact ⟨_, rfl, (if_pos hi).trans hbase, howns⟩

theorem Correction.describes :
    Operation.correction.Describes d (layout d) (·.decisions) :=
  fun _ q _ _ hbase howns => ⟨q, rfl, hbase, howns⟩

theorem RegisteredCorrection.describes :
    Operation.postRegistrationCorrection.Describes d (layout d) (·.decisions) := by
  rintro s q x check hbase ⟨p, hp, howns⟩
  have hshown : (d.locate? q).bind d.holds = some x := hbase
  rw [hp] at hshown
  exact ⟨p, hp, hshown, howns⟩

theorem statusLayout_describes :
    Operation.statusChange.Describes d (statusLayout d) fun _ => d.decisions :=
  fun _ q _ _ hbase howns => ⟨q, rfl, hbase, howns⟩

theorem CertificateProviderAccess.describes :
    Operation.certificateProviderAccessOnline.Describes d (layout d) fun _ => d.decisions :=
  fun _ q _ _ hbase howns => ⟨q, rfl, hbase, howns⟩

theorem SeverRestrictions.describes :
    Operation.severRestrictions.Describes d (layout d) fun _ => d.decisions :=
  fun _ q _ _ hbase howns => ⟨q, rfl, hbase, howns⟩

theorem AttorneyDecisions.describes :
    Operation.attorneyDecisions.Describes d ((layout d).below [.name "attorneys"])
      fun _ => d.decisions := by
  refine .below ?_
  rintro s _ x check hbase ⟨l, b, i, rfl, hl, howns⟩
  unfold layout at hbase
  rw [Layout.base_moves rfl hl] at hbase
  refine ⟨_, d.locate?_attorney hl b, hbase, ?_⟩
  unfold entryChecks at howns
  split at howns
  · exact howns
  · exact absurd howns nofun

theorem ChangeAttorneys.describes :
    Operation.changeAttorneys.Describes d ((layout d).below [.name "attorneys"])
      fun _ => d.decisions := by
  refine .below ?_
  rintro s _ x check hbase ⟨l, b, i, rfl, hl, howns⟩
  unfold layout at hbase
  rw [Layout.base_moves rfl hl] at hbase
  rw [Label.eq_of_index? hl]
  refine ⟨_, rfl, hbase, ?_⟩
  unfold entryChecks at howns
  split at howns
  · exact howns
  · exact absurd howns nofun

theorem AttorneyAccess.describes :
    Operation.attorneyAccessOnline.Describes d ((layout d).below [.name "attorneys"])
      fun _ => d.decisions := by
  refine .below fun s q x check hbase howns => ?_
  obtain ⟨l, b, i, rfl, hl, howns⟩ := Layout.owns_entries howns
  unfold layout at hbase
  rw [Layout.base_entries (fun _ => rfl) hl] at hbase
  refine ⟨_, d.locate?_attorney hl b, hbase, ?_⟩
  unfold entryChecks at howns
  split at howns
  · exact howns
  · exact absurd howns nofun

theorem ConfirmIdentity.describes_donor :
    Operation.donorConfirmIdentity.Describes d
      ((layout .donor d).below [.name "donor", .name "identityCheck"]) fun _ => d.decisions :=
  .below fun _ b _ _ hbase howns => ⟨_, rfl, (holds_onRecord .donor d b).symm.trans hbase, howns⟩

theorem ConfirmIdentity.describes_certificateProvider :
    Operation.certificateProviderConfirmIdentity.Describes d
      ((layout .certificateProvider d).below [.name "certificateProvider", .name "identityCheck"])
      fun _ => d.decisions :=
  .below fun _ b _ _ hbase howns =>
    ⟨_, rfl, (holds_onRecord .certificateProvider d b).symm.trans hbase, howns⟩

/-! ## Nothing on record -/

/-- The field holds nothing. -/
def Held.isBlank : Held → Bool
  | ⟨.text, s⟩ => s.isEmpty
  | ⟨.time, t⟩ => t.isNone
  | ⟨.date, t⟩ => t.isNone
  | ⟨.maybeWord _, w⟩ => w.isNone
  | _ => false

/-- Only null and the empty string decode to nothing. -/
theorem Held.isBlank_of_decode {y : Held} {j : Json} (hy : y.isBlank = true)
    (h : y.type.decode j = .ok y.value) : j.isBlank = true := by
  obtain ⟨type, value⟩ := y
  cases type with
  | text =>
      cases j with
      | null => rfl
      | str s =>
          obtain rfl : s = value := Except.ok.inj h
          exact hy
      | _ => cases h
  | flag => exact absurd hy Bool.false_ne_true
  | time =>
      obtain rfl : value = none := Option.isNone_iff_eq_none.mp hy
      exact FieldType.decodeMaybe_eq_none_iff.mp h
  | date =>
      obtain rfl : value = none := Option.isNone_iff_eq_none.mp hy
      exact FieldType.decodeMaybe_eq_none_iff.mp h
  | word c => exact absurd hy Bool.false_ne_true
  | maybeWord c =>
      obtain rfl : value = none := Option.isNone_iff_eq_none.mp hy
      exact FieldType.decodeMaybe_eq_none_iff.mp h

/-- Only null and the empty string agree with a field that holds nothing. -/
theorem Held.isBlank_of_agrees {x : Held} {j : Json} (hx : x.isBlank = true)
    (h : x.type.agrees x.value j = true) : j.isBlank = true :=
  isBlank_of_decode hx (FieldType.agrees_iff_decode.mp h)

theorem Address.isBlank_of_holds {p : Place} {x : Held} (h : ({} : Address).holds p = some x) :
    x.isBlank = true := by
  unfold Address.holds at h
  split at h <;> cases h <;> rfl

theorem Signatory.isBlank_of_holds {p : Place} {x : Held} (h : ({} : Signatory).holds p = some x) :
    x.isBlank = true := by
  unfold Signatory.holds at h
  split at h <;> cases h <;> rfl

/-- Who signs has not given anything before. -/
theorem Operation.isBlank_of_held? {op : Operation} {d : Document} {p : Place} {x : Held}
    (hsign : op.isSigning = true) (h : op.held? d p = some x) : x.isBlank = true := by
  unfold held? at h
  split at h
  · unfold CertificateProviderSign.holds at h
    split at h
    · exact Address.isBlank_of_holds h
    all_goals cases h <;> rfl
  · split at h
    · unfold AttorneySign.holds at h
      split at h <;> cases h <;> rfl
    · cases h
  · split at h
    · unfold TrustCorporationSign.holds at h
      split at h
      · cases h
        rfl
      · unfold Entries.holds at h
        split at h
        · rename_i i b
          match i with
          | 0 => exact Signatory.isBlank_of_holds h
          | 1 => exact Signatory.isBlank_of_holds h
          | _ + 2 => cases h
        · cases h
      all_goals cases h <;> rfl
    · cases h
  · rw [if_pos hsign] at h
    cases h

/-- Who signs claims that nothing is on record. -/
theorem Change.Edits.isBlank_old {c : Change} {op : Operation} {d : Document} {s : Decisions} {p : Place}
    (h : c.Edits op d s p) (hsign : op.isSigning = true) : c.old.isBlank = true := by
  obtain ⟨x, _, hheld, _, hagrees, _⟩ := h.field
  exact Held.isBlank_of_agrees (Operation.isBlank_of_held? hsign hheld) hagrees

/-- Who signs sends nothing blank either, since a change has to change something. -/
theorem Change.Edits.isBlank_new {c : Change} {op : Operation} {d : Document} {s : Decisions} {p : Place}
    (h : c.Edits op d s p) (hsign : op.isSigning = true) (hchanges : c.isRedundant = false) :
    c.new.isBlank = false := by
  unfold Change.isRedundant Change.sameEffect at hchanges
  rw [h.isBlank_old hsign, Bool.true_and, Bool.or_eq_false_iff] at hchanges
  exact hchanges.1

/-! ## Readings -/

namespace Command

/-- The decisions in the end, with all wording. -/
def decisions (d : Document) : Command → Decisions
  | .correct c => c.decisions
  | .correctRegistered c => c.decisions
  | _ => d.decisions

/-- What an operation makes of its changes: a script that ends has read them, over a layout that the tables
    describe. What else is found wrong points at no change. -/
structure IsReadBy (op : Operation) (d : Document) (changes : List Change) (found : Command × List Fault)
    (s : Script σ) (L : Layout σ) (dec : σ → Decisions) : Prop where
  ends : s.Ends
  fits : s.Fits L True (fun _ => True) (fun _ => True) []
  describes : op.Describes d L dec
  decisions_eq : found.1.decisions d = dec (s.read L.start changes).1
  faults : ∃ more, found.2 = (s.read L.start changes).2 ++ more ∧ ∀ f ∈ more, f.position? = none

section

variable {op : Operation} {d : Document} {changes : List Change} {found : Command × List Fault}

/-- What is read by a script with nothing else to find wrong. -/
theorem isReadBy_of_faults {s : Script σ} (hends : s.Ends) {L : Layout σ}
    (hfits : s.Fits L True (fun _ => True) (fun _ => True) []) {dec : σ → Decisions}
    (hdescribes : op.Describes d L dec) (hdec : found.1.decisions d = dec (s.read L.start changes).1)
    (hfaults : found.2 = (s.read L.start changes).2) : IsReadBy op d changes found s L dec where
  ends := hends
  fits := hfits
  describes := hdescribes
  decisions_eq := hdec
  faults := ⟨[], hfaults.trans (List.append_nil _).symm, fun _ hf => absurd hf List.not_mem_nil⟩

/-- A draft that shows nothing and owns nothing. -/
def noFields : Layout Unit :=
  .record (fun _ _ => none) () fun _ => none

theorem describes_noFields (dec : Unit → Decisions) : op.Describes d noFields dec :=
  fun _ _ _ _ hbase => absurd hbase nofun

/-- A command that takes no changes refuses all. -/
theorem isReadBy_bare {c : Command} (hdec : c.decisions d = d.decisions) :
    IsReadBy op d changes (bare c changes) (.consumed .done) noFields fun _ => d.decisions :=
  isReadBy_of_faults Script.ends_consumed trivial (describes_noFields _) hdec rfl

/-- An opt-out takes no changes either, and has to have an author. -/
theorem isReadBy_ofAuthor (party : String → OptOut) (author : String) :
    IsReadBy op d changes (ofAuthor party author changes) (.consumed .done) noFields
      fun _ => d.decisions where
  ends := Script.ends_consumed
  fits := trivial
  describes := describes_noFields _
  decisions_eq := rfl
  faults := by
    refine ⟨_, rfl, fun f hf => ?_⟩
    split at hf
    · rw [List.mem_singleton.mp hf]
      rfl
    · exact absurd hf List.not_mem_nil

end

/-- **Every operation reads its changes by a script over a layout that its tables describe.** -/
theorem exists_isReadBy (d : Document) (author : String) (changes : List Change) (op : Operation) :
    ∃ (σ : Type) (s : Script σ) (L : Layout σ) (dec : σ → Decisions),
      IsReadBy op d changes (ofChanges d author changes op) s L dec := by
  cases op with
  | certificateProviderSign =>
      exact ⟨_, _, _, _, isReadBy_of_faults CertificateProviderSign.ends CertificateProviderSign.fits
        (CertificateProviderSign.describes d) rfl rfl⟩
  | attorneySign =>
      exact ⟨_, _, _, _, isReadBy_of_faults (AttorneySign.ends d) (AttorneySign.fits d)
        (AttorneySign.describes d) rfl rfl⟩
  | trustCorporationSign =>
      exact ⟨_, _, _, _, isReadBy_of_faults (TrustCorporationSign.ends d) (TrustCorporationSign.fits d)
        (TrustCorporationSign.describes d) rfl rfl⟩
  | attorneyOptOut => exact ⟨_, _, _, _, isReadBy_ofAuthor .attorney author⟩
  | certificateProviderOptOut => exact ⟨_, _, _, _, isReadBy_bare rfl⟩
  | trustCorporationOptOut => exact ⟨_, _, _, _, isReadBy_ofAuthor .trustCorporation author⟩
  | donorWithdraw => exact ⟨_, _, _, _, isReadBy_bare rfl⟩
  | perfect => exact ⟨_, _, _, _, isReadBy_bare rfl⟩
  | register => exact ⟨_, _, _, _, isReadBy_bare rfl⟩
  | statutoryWaitingPeriod => exact ⟨_, _, _, _, isReadBy_bare rfl⟩
  | statusChange =>
      exact ⟨_, _, _, _, isReadBy_of_faults statusScript_ends (statusScript_fits d)
        (statusLayout_describes d) rfl rfl⟩
  | correction =>
      exact ⟨_, _, _, _, isReadBy_of_faults (Correction.ends d) (Correction.fits d)
        (Correction.describes d) rfl rfl⟩
  | postRegistrationCorrection =>
      exact ⟨_, _, _, _, isReadBy_of_faults (RegisteredCorrection.ends d) (RegisteredCorrection.fits d)
        (RegisteredCorrection.describes d) rfl rfl⟩
  | attorneyDecisions =>
      exact ⟨_, _, _, _, isReadBy_of_faults (AttorneyDecisions.ends d) (AttorneyDecisions.fits d)
        (AttorneyDecisions.describes d) rfl rfl⟩
  | changeAttorneys =>
      exact ⟨_, _, _, _, isReadBy_of_faults (ChangeAttorneys.ends d) (ChangeAttorneys.fits d)
        (ChangeAttorneys.describes d) rfl rfl⟩
  | attorneyAccessOnline =>
      exact ⟨_, _, _, _, isReadBy_of_faults (AttorneyAccess.ends d) (AttorneyAccess.fits d)
        (AttorneyAccess.describes d) rfl rfl⟩
  | certificateProviderAccessOnline =>
      exact ⟨_, _, _, _, isReadBy_of_faults CertificateProviderAccess.ends (CertificateProviderAccess.fits d)
        (CertificateProviderAccess.describes d) rfl rfl⟩
  | severRestrictions =>
      exact ⟨_, _, _, _, isReadBy_of_faults SeverRestrictions.ends (SeverRestrictions.fits d)
        (SeverRestrictions.describes d) rfl rfl⟩
  | donorConfirmIdentity =>
      exact ⟨_, _, _, _, isReadBy_of_faults (ConfirmIdentity.ends .donor d)
        (ConfirmIdentity.fits .donor d (by decide)) (ConfirmIdentity.describes_donor d) rfl rfl⟩
  | certificateProviderConfirmIdentity =>
      exact ⟨_, _, _, _, isReadBy_of_faults (ConfirmIdentity.ends .certificateProvider d)
        (ConfirmIdentity.fits .certificateProvider d (by decide))
        (ConfirmIdentity.describes_certificateProvider d) rfl rfl⟩

theorem accepts_ofChanges {d : Document} {author : String} {changes : List Change} {op : Operation}
    (hnone : (ofChanges d author changes op).2 = []) :
    op.Accepts d ((ofChanges d author changes op).1.decisions d) changes := by
  obtain ⟨σ, s, L, dec, hread⟩ := exists_isReadBy d author changes op
  obtain ⟨more, hfaults, _⟩ := hread.faults
  rw [hnone] at hfaults
  rw [hread.decisions_eq]
  exact Script.accepts hread.ends hread.fits hread.describes
    (List.append_eq_nil_iff.mp hfaults.symm).1

end Command

/-! ## Updates -/

/-- A valid update has an operation, whose command is read without faults. -/
theorem Update.ofChanges_of_validate {u : Update} {d : Document} {c : Command}
    (h : u.validate d = .ok c) :
    ∃ op, Word.ofText? u.type = some op ∧
      Command.ofChanges d u.author u.changes op = (c, []) := by
  unfold validate at h
  cases hop : (Word.ofText? u.type : Option Operation) with
  | none =>
      rw [hop] at h
      exact absurd h nofun
  | some op =>
      rw [hop] at h
      dsimp only at h
      split at h
      · rename_i hnone
        obtain ⟨hfaults, _⟩ := List.append_eq_nil_iff.mp (List.isEmpty_iff.mp hnone)
        refine ⟨op, rfl, ?_⟩
        rw [← Except.ok.inj h, ← hfaults]
      · exact absurd h nofun

/-- **An accepted update is never based on a stale view and never touches a field twice.** Every change
    names a field that its operation owns in the document, no two name the same one, every old value is
    what the document holds there or, for those who sign, nothing, and every new value decodes and
    passes the check of its field. -/
theorem Update.accepts_of_validate {u : Update} {d : Document} {c : Command}
    (h : u.validate d = .ok c) :
    ∃ op : Operation, Word.ofText? u.type = some op ∧
      op.Accepts d (c.decisions d) u.changes ∧
      (op.isSigning = true → ∀ change ∈ u.changes, change.old.isBlank = true) := by
  obtain ⟨op, hop, hread⟩ := ofChanges_of_validate h
  have haccepts : op.Accepts d (c.decisions d) u.changes := by
    have hread' := Command.accepts_ofChanges (d := d) (by rw [hread])
    rw [hread] at hread'
    exact hread'
  refine ⟨op, hop, haccepts, fun hsign change hchange => ?_⟩
  obtain ⟨place, _, hedits⟩ := haccepts
  obtain ⟨i, hi, rfl⟩ := List.mem_iff_getElem.mp hchange
  exact (hedits ⟨i, hi⟩).isBlank_old hsign

/-- A document with two attorneys, one of whom can still step in. -/
def Document.ofTwoAttorneys : Document where
  uid := "M-1"
  status := .inProgress
  kind := .personalWelfare
  channel := .paper
  donor := ⟨"d", "Ada", "Day", "", none, "", {}, none, none⟩
  attorneys := [
    ⟨"a", "Bo", "Bell", none, "", "", {}, .active, .original, .paper, none, none, false⟩,
    ⟨"b", "Cy", "Cole", none, "", "", {}, .inactive, .replacement, .paper, none, none, false⟩]
  trustCorporations := []
  certificateProvider := ⟨"c", "Di", "Dunn", "", "", {}, .paper, none, none, none⟩
  authorisedSignatory := none
  independentWitness := none
  decisions := ⟨none, "", none, "", none, "", none, none⟩
  restrictions := ""
  restrictionImages := []
  signedAt := none
  witnessedByCertificateProviderAt := none
  witnessedByIndependentWitnessAt := none
  certificateProviderNotRelatedConfirmedAt := none
  registrationDate := none
  updatedAt := none
  notes := []

/-- Two attorneys are moved at once; a plus sign does not make another entry of an index. -/
theorem Update.accepts_of_validate_twoMoves :
    let changes : List Change := [⟨"/attorneys/+0/status", .str "active", .str "removed"⟩,
      ⟨"/attorneys/1/status", .str "inactive", .str "active"⟩]
    let u : Update := ⟨"", "", none, "", "CHANGE_ATTORNEYS", changes⟩
    let c : Command := .changeAttorneys ⟨[(0, .removed), (1, .active)]⟩
    u.validate .ofTwoAttorneys = .ok c ∧
      ∃ op : Operation, Word.ofText? u.type = some op ∧
        op.Accepts .ofTwoAttorneys (c.decisions .ofTwoAttorneys) changes := by
  intro changes u c
  have h : u.validate .ofTwoAttorneys = .ok c := by decide +kernel
  obtain ⟨op, hop, haccepts, _⟩ := accepts_of_validate h
  exact ⟨h, op, hop, haccepts⟩

end PowerOfAttorney
