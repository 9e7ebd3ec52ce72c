import PowerOfAttorney.Proofs.Document.Emptied
import PowerOfAttorney.Proofs.Lifecycle.Times
import PowerOfAttorney.Proofs.Operation.Named
import PowerOfAttorney.Proofs.Operation.Signatures

/-!
# `PowerOfAttorney.Proofs.Lifecycle.Identity` — a confirmed identity is a complete check of one party

An identity check has a type and a time, or it is not on record. What is read of a check starts from the
one on record, and of a first one type and time have to be sent. So what has been read without faults is
complete, and the rule that refuses an incomplete check is never broken. Each field is what its own key
sends, or what it was.

## Contents
- **Keys.** `Path.ofString_injective`, and `Script.exists_tail_of_read` for scripts below one key.
- **Fields.** `IdentityCheck.Field` and `CheckedParty.key`; `Change.Settles`, what changes make of a field.
- **Readings.** `ConfirmIdentity.settles` for each field, and `ConfirmIdentity.yields_complete`.
- **Updates.** `Update.confirmIdentity_complete`.
-/

namespace PowerOfAttorney

/-! ## Keys -/

/-- Keys with the same segments are the same. -/
theorem Path.ofString_injective {s t : String} (h : ofString s = ofString t) : s = t := by
  have hsplit : s.toList.splitOn '/' = t.toList.splitOn '/' :=
    List.map_injective_iff.mpr (fun _ _ => String.ofList_injective) h
  refine String.toList_injective ?_
  calc s.toList = ['/'].intercalate (s.toList.splitOn '/') := (List.intercalate_splitOn '/').symm
    _ = ['/'].intercalate (t.toList.splitOn '/') := congrArg _ hsplit
    _ = t.toList := List.intercalate_splitOn '/'

/-- A place of names is spelled by its names. -/
theorem Place.isSpelled_names {names : List String} {path : Path} :
    IsSpelled (names.map Label.name) path ↔ path.body = names := by
  unfold IsSpelled
  rw [List.forall₂_map_left_iff]
  show List.Forall₂ (· = ·) names path.body ↔ _
  rw [List.forall₂_eq_eq_eq, eq_comm]

/-- Where a script reads what is below a key and nothing else, every change goes on after this key if nothing
    is wrong. -/
theorem Script.exists_tail_of_read {σ : Type} {key : String} {inner : Script σ} {draft : σ}
    {changes : List Change}
    (hnone : ((Script.under key true inner (.consumed .done)).read draft changes).2 = []) {c : Change}
    (hc : c ∈ changes) : ∃ tail, Path.ofString c.key = Path.ofString key ++ tail := by
  let r : Reading σ := ⟨draft, Entry.ofChanges changes, []⟩
  have hfaults : ((r.descend "" key true fun r => inner.run ("" ++ key) r).refuse .unexpected).faults = [] :=
    hnone
  obtain ⟨hinner, hrest⟩ := List.append_eq_nil_iff.mp hfaults
  have hinside := Reading.inside_ne_nil_of_needed hinner
  rw [Reading.descend_of_inside_ne_nil hinside] at hrest
  have houtside : r.outside key = [] := List.map_eq_nil_iff.mp hrest
  obtain ⟨e, he, hpath⟩ : ∃ e ∈ Entry.ofChanges changes, e.path = Path.ofString c.key := by
    obtain ⟨i, hi, rfl⟩ := List.mem_iff_getElem.mp hc
    exact ⟨_, List.mem_map_of_mem (List.mk_mem_zipIdx_iff_getElem?.mpr (List.getElem?_eq_getElem hi)), rfl⟩
  have hbelow : ¬ (Path.below? (Path.ofString key) e.path).isNone = true :=
    List.filter_eq_nil_iff.mp houtside e he
  rw [Bool.not_eq_true, Option.isNone_eq_false_iff, Option.isSome_iff_exists, hpath] at hbelow
  obtain ⟨rest, hrest⟩ := hbelow
  obtain ⟨tail, _, htail⟩ := Path.eq_append_of_below? hrest
  exact ⟨tail, htail⟩

/-! ## Fields -/

/-- A field of an identity check. -/
inductive IdentityCheck.Field
  | kind
  | checkedAt
  | reference

namespace IdentityCheck.Field

def name : Field → String
  | .kind => "type"
  | .checkedAt => "checkedAt"
  | .reference => "reference"

def type : Field → FieldType
  | .kind => .maybeWord .identityCheckKind
  | .checkedAt => .time
  | .reference => .text

theorem name_injective {f g : Field} (h : f.name = g.name) : f = g := by
  cases f <;> cases g <;> first | rfl | exact absurd h (by decide)

end IdentityCheck.Field

namespace CheckedParty

/-- The names on the way to the identity check of a party. -/
def names : CheckedParty → List String
  | .donor => ["donor", "identityCheck"]
  | .certificateProvider => ["certificateProvider", "identityCheck"]

/-- The key of a field of the identity check of a party. -/
def key (party : CheckedParty) (f : IdentityCheck.Field) : String :=
  party.path ++ "/" ++ f.name

theorem ofString_path (party : CheckedParty) : Path.ofString party.path = "" :: party.names := by
  cases party <;> decide

theorem ofString_key (party : CheckedParty) (f : IdentityCheck.Field) :
    Path.ofString (party.key f) = "" :: party.names ++ [f.name] := by
  cases party <;> cases f <;> decide

theorem key_injective {party : CheckedParty} {f g : IdentityCheck.Field} (h : party.key f = party.key g) :
    f = g := by
  have hsegments := congrArg Path.ofString h
  rw [ofString_key, ofString_key] at hsegments
  exact IdentityCheck.Field.name_injective (List.singleton_inj.mp (List.append_cancel_left hsegments))

/-- The place of a field is spelled by its key, and by no other one below the key of the check. -/
theorem isSpelled_iff {party : CheckedParty} {f : IdentityCheck.Field} {key : String} {tail : Path}
    (htail : Path.ofString key = Path.ofString party.path ++ tail) :
    Place.IsSpelled ((party.names ++ [f.name]).map Label.name) (Path.ofString key) ↔ key = party.key f := by
  rw [Place.isSpelled_names]
  constructor
  · intro hbody
    refine Path.ofString_injective ?_
    rw [ofString_key, List.cons_append, ← hbody, htail, ofString_path]
    rfl
  · rintro rfl
    rw [ofString_key]
    rfl

end CheckedParty

/-- What changes make of a field: it holds what the change of its key brings, or what it held if there is
    none. -/
structure Change.Settles (changes : List Change) (key : String) (t : FieldType) (before after : t.Value) :
    Prop where
  sent : ∀ c ∈ changes, c.key = key → t.decode c.new = .ok after
  kept : (∀ c ∈ changes, c.key ≠ key) → after = before

/-- What has moved was sent. -/
theorem Change.Settles.exists_sent {changes : List Change} {key : String} {t : FieldType}
    {before after : t.Value} (h : Settles changes key t before after) (hmoved : after ≠ before) :
    ∃ c ∈ changes, c.key = key := by
  by_contra hunsent
  exact hmoved (h.kept fun c hc hkey => hunsent ⟨c, hc, hkey⟩)

/-! ## Readings -/

namespace ConfirmIdentity

variable {party : CheckedParty} {d : Document} {changes : List Change} {x : ConfirmIdentity}

/-- What a draft of a check shows, from the top of the document. -/
def layoutOf (party : CheckedParty) (d : Document) : Layout ConfirmIdentity :=
  (layout party d).below (party.names.map .name)

theorem fits_layoutOf (party : CheckedParty) (d : Document) :
    (script party d).Fits (layoutOf party d) True (fun _ => True) (fun _ => True) [] :=
  fits party d (by rw [Place.ofKey, CheckedParty.ofString_path]; rfl)

/-- The fields of a check are shown at their places. -/
theorem view_layoutOf (party : CheckedParty) (d : Document) (c : ConfirmIdentity) (f : IdentityCheck.Field) :
    (layoutOf party d).view c ((party.names ++ [f.name]).map .name) = c.holds [.name f.name] := by
  rw [List.map_append]
  exact (layout party d).view_below _ c [.name f.name]

/-- Nothing else is shown. -/
theorem exists_field_of_view {c : ConfirmIdentity} {q : Place} {y : Held}
    (h : (layoutOf party d).view c q = some y) :
    ∃ f : IdentityCheck.Field, q = (party.names ++ [f.name]).map .name := by
  unfold layoutOf Layout.below at h
  dsimp only at h
  split at h
  · rename_i hbelow
    obtain ⟨b, rfl⟩ := hbelow
    rw [List.drop_left] at h
    obtain ⟨f, rfl⟩ : ∃ f : IdentityCheck.Field, b = [.name f.name] := by
      change holds c b = some y at h
      unfold holds at h
      split at h
      · exact ⟨.kind, rfl⟩
      · exact ⟨.checkedAt, rfl⟩
      · exact ⟨.reference, rfl⟩
      · exact absurd h.symm (Option.some_ne_none y)
    exact ⟨f, by rw [List.map_append]; rfl⟩
  · exact absurd h.symm (Option.some_ne_none y)

/-- **Each field of a check that has been read is settled by its own key.** -/
theorem settles (hread : (script party d).read (.onRecord party d) changes = (x, []))
    (f : IdentityCheck.Field) {v w : f.type.Value}
    (hbefore : (onRecord party d).holds [.name f.name] = some ⟨f.type, v⟩)
    (hafter : x.holds [.name f.name] = some ⟨f.type, w⟩) :
    Change.Settles changes (party.key f) f.type v w := by
  have hnone : ((script party d).read (layoutOf party d).start changes).2 = [] := congrArg Prod.snd hread
  have hdraft : ((script party d).read (layoutOf party d).start changes).1 = x := congrArg Prod.fst hread
  have htail := fun c (hc : c ∈ changes) => Script.exists_tail_of_read hnone hc
  constructor
  · rintro c hc hkey
    obtain ⟨tail, htail⟩ := htail c hc
    obtain ⟨hit, _, hspelled, y, hdecode, hshown, _⟩ :=
      Script.exists_hit_of_change (ends party d) (fits_layoutOf party d) hnone hc
    obtain ⟨g, hplace⟩ := exists_field_of_view hshown
    rw [hplace, CheckedParty.isSpelled_iff htail] at hspelled
    obtain rfl : g = f := CheckedParty.key_injective (hspelled.symm.trans hkey)
    rw [hdraft, hplace, view_layoutOf, hafter] at hshown
    have hgives : c.Gives ⟨hit.slot.type, y⟩ := hdecode
    rw [← Option.some.inj hshown] at hgives
    exact hgives
  · intro hunsent
    have hkept := Script.view_of_unspelled (ends party d) (fits_layoutOf party d) hnone
      (q := (party.names ++ [f.name]).map .name) fun c hc hspelled => by
        obtain ⟨tail, htail⟩ := htail c hc
        exact hunsent c hc ((CheckedParty.isSpelled_iff htail).mp hspelled)
    rw [hdraft, view_layoutOf, hafter] at hkept
    exact Held.value_inj (hkept.trans ((view_layoutOf party d _ f).trans hbefore))

/-- What is set has passed its check, so a check that has a type and a time keeps them. -/
theorem keeps_complete (party : CheckedParty) (d : Document) :
    (script party d).Keeps fun c => c.kind.isSome ∧ c.checkedAt.isSome :=
  Script.keeps_under
    (Script.keeps_field (fun _ _ hc hkind => ⟨Check.isSome_of_chosen (hkind .chosen rfl), hc.2⟩) <|
      Script.keeps_field (fun _ _ hc hcheckedAt => ⟨hc.1, Slot.isSome_of_passes_notEmpty hcheckedAt⟩) <|
      Script.keeps_field (fun _ _ hc _ => hc) Script.keeps_done)
    Script.keeps_done

/-- **What has been read of a check has a type and a time**: those on record, or those that have to be
    sent. -/
theorem yields_complete (party : CheckedParty) (d : Document) :
    (script party d).Yields (fun c => c.kind.isSome ∧ c.checkedAt.isSome) (onRecord party d) := by
  cases hcheck : party.check? d with
  | some check =>
      refine keeps_complete party d _ ?_
      unfold onRecord
      rw [hcheck]
      exact ⟨rfl, rfl⟩
  | none =>
      unfold script
      rw [hcheck]
      refine ⟨⟨fun kind hkind => ⟨fun checkedAt hcheckedAt => ?_, nofun⟩, nofun⟩, nofun⟩
      have hboth : kind.isSome ∧ checkedAt.isSome :=
        ⟨Check.isSome_of_chosen (hkind .chosen rfl), Slot.isSome_of_passes_notEmpty hcheckedAt⟩
      exact ⟨fun _ _ => hboth, fun _ => hboth⟩

end ConfirmIdentity

/-! ## Updates -/

/-- A command that is read for the check of an identity has been read from its script. -/
theorem ConfirmIdentity.exists_of_ofChanges {party : CheckedParty} {d : Document} {author : String}
    {changes : List Change} {c : Command} (h : Command.ofChanges d author changes party.operation = (c, [])) :
    ∃ x, c = .confirmIdentity x ∧ (script party d).read (.onRecord party d) changes = (x, []) := by
  cases party with
  | donor =>
      obtain ⟨rfl, hnone⟩ := Prod.mk.inj h
      exact ⟨_, rfl, Prod.ext rfl hnone⟩
  | certificateProvider =>
      obtain ⟨rfl, hnone⟩ := Prod.mk.inj h
      exact ⟨_, rfl, Prod.ext rfl hnone⟩

namespace CheckedParty

variable (party other : CheckedParty) (check check' : IdentityCheck) (d : Document)

@[simp] theorem check?_record : party.check? (party.record check d) = some check := by
  cases party <;> rfl

/-- The check of another party stays. -/
theorem check?_record_of_ne (h : other ≠ party) : other.check? (party.record check d) = other.check? d := by
  cases party <;> cases other <;> first | rfl | exact absurd rfl h

/-- Nothing but the check is written. -/
@[simp] theorem record_record : party.record check' (party.record check d) = party.record check' d := by
  cases party <;> rfl

end CheckedParty

/-- **A confirmed identity is a complete check of one party.** A valid update that confirms the identity
    of a party is carried out, and the party then has a check on record. Each field of it is what the
    change of its key brings, and what was on record before if there is none; for a first check there are
    changes of type and time. Nothing else on the document moves. -/
theorem Update.confirmIdentity_complete {u : Update} {d : Document} {c : Command} {party : CheckedParty}
    (htype : Word.ofText? u.type = some party.operation) (hvalid : u.validate d = .ok c) (now : Instant) :
    ∃ check d', c.apply now d = .ok d' ∧ party.check? d' = some check ∧
      Change.Settles u.changes (party.key .kind) (.maybeWord .identityCheckKind)
        ((party.check? d).map (·.kind)) (some check.kind) ∧
      Change.Settles u.changes (party.key .checkedAt) .time
        ((party.check? d).map (·.checkedAt)) (some check.checkedAt) ∧
      Change.Settles u.changes (party.key .reference) .text
        (((party.check? d).map (·.reference)).getD "") check.reference ∧
      (party.check? d = none → (∃ change ∈ u.changes, change.key = party.key .kind) ∧
        ∃ change ∈ u.changes, change.key = party.key .checkedAt) ∧
      (∀ other ≠ party, other.check? d' = other.check? d) ∧
      ∀ check, party.record check d' = party.record check d := by
  obtain ⟨op, hop, hofChanges⟩ := ofChanges_of_validate hvalid
  obtain rfl := Option.some.inj (hop.symm.trans htype)
  obtain ⟨x, rfl, hread⟩ := ConfirmIdentity.exists_of_ofChanges hofChanges
  have hnone := congrArg Prod.snd hread
  have hparty : x.party = party := by
    have hkept := ConfirmIdentity.party_of_read hnone
    rw [hread] at hkept
    exact hkept
  have hcomplete := (ConfirmIdentity.yields_complete party d).read hnone
  rw [hread] at hcomplete
  obtain ⟨kind, hkind⟩ := Option.isSome_iff_exists.mp hcomplete.1
  obtain ⟨checkedAt, hcheckedAt⟩ := Option.isSome_iff_exists.mp hcomplete.2
  have hkindSettles := ConfirmIdentity.settles hread .kind (v := (party.check? d).map (·.kind))
    (w := some kind) (ConfirmIdentity.holds_onRecord party d _) (by rw [← hkind]; rfl)
  have hcheckedAtSettles := ConfirmIdentity.settles hread .checkedAt (v := (party.check? d).map (·.checkedAt))
    (w := some checkedAt) (ConfirmIdentity.holds_onRecord party d _) (by rw [← hcheckedAt]; rfl)
  have hreferenceSettles := ConfirmIdentity.settles hread .reference
    (v := ((party.check? d).map (·.reference)).getD "") (w := x.reference)
    (ConfirmIdentity.holds_onRecord party d _) rfl
  refine ⟨⟨kind, checkedAt, x.reference⟩, party.record ⟨kind, checkedAt, x.reference⟩ d, ?_, by simp,
    hkindSettles, hcheckedAtSettles, hreferenceSettles, fun hfirst => ⟨?_, ?_⟩,
    fun other hother => party.check?_record_of_ne other _ d hother, by simp⟩
  · show x.apply d = _
    unfold ConfirmIdentity.apply
    rw [hkind, hcheckedAt, hparty]
  · refine hkindSettles.exists_sent ?_
    rw [hfirst]
    exact Option.some_ne_none kind
  · refine hcheckedAtSettles.exists_sent ?_
    rw [hfirst]
    exact Option.some_ne_none checkedAt

/-- The certificate provider is checked again, in the same way at another time. -/
theorem Update.confirmIdentity_complete_again :
    let d := CheckedParty.certificateProvider.record ⟨.oneLogin, .ofNanoseconds 0, ""⟩ .ofTwoAttorneys
    let u : Update := ⟨"", "", none, "", "CERTIFICATE_PROVIDER_CONFIRM_IDENTITY",
      [⟨"/certificateProvider/identityCheck/checkedAt", .str "1970-01-01T00:00:00Z",
        .str "1970-01-01T00:00:01Z"⟩]⟩
    ∃ c check d', Word.ofText? u.type = some CheckedParty.certificateProvider.operation ∧
      u.validate d = .ok c ∧ c.apply (.ofNanoseconds 2) d = .ok d' ∧
      CheckedParty.certificateProvider.check? d' = some check ∧ check.kind = .oneLogin ∧
      CheckedParty.donor.check? d' = none := by
  intro d u
  have htype : Word.ofText? u.type = some CheckedParty.certificateProvider.operation := by decide
  have hvalid : u.validate d = .ok
      (.confirmIdentity ⟨.certificateProvider, some .oneLogin, some (.ofNanoseconds 1000000000), ""⟩) := by
    decide +kernel
  obtain ⟨check, d', happly, hcheck, hkind, _, _, _, hother, _⟩ :=
    confirmIdentity_complete htype hvalid (.ofNanoseconds 2)
  refine ⟨_, check, d', htype, hvalid, happly, hcheck, ?_, hother .donor (by decide)⟩
  -- No change has the key of the type, so it is the one on record.
  exact Option.some.inj (hkind.kept (List.forall_mem_singleton.mpr (by decide)))

end PowerOfAttorney
