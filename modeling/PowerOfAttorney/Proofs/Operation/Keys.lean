import PowerOfAttorney.Proofs.Operation.Entries

/-!
# `PowerOfAttorney.Proofs.Operation.Keys` — the one field that a key names

A segment of a key such as `/attorneys/0/mobile` stands for a name or for an entry, and which of the two
it is can be told from the name before it. So a key names one place at most, whatever its spelling; and
that place is the one at which a script reads its change.

## Contents
- **Keys.** `Place.ofSegments?` and `Operation.place?`, the place that a key names.
- **Shapes.** `Place.isShaped`, for places with an entry after the name of each list;
  `Operation.isShaped_of_held?` says that fields are at such places.
- **Agreement.** `Operation.place?_of_isSpelled`.
-/

namespace PowerOfAttorney

/-! ## Keys -/

/-- The names after which an entry of a list is named. -/
def Place.lists : List String :=
  ["attorneys", "trustCorporations", "signatories"]

/-- Entries of the list are named by uid. -/
def Place.isKeyed (byUid : Bool) (list : String) : Bool :=
  byUid && list == "attorneys"

/-- The place that segments stand for. Entries are named by index or, if asked for, attorneys by uid. -/
def Place.ofSegments? (byUid : Bool) : List String → Option Place
  | [] => some []
  | [name] => some [.name name]
  | name :: entry :: rest =>
    if name ∈ lists then do
      let l ← if isKeyed byUid name then some (.name entry) else (Path.index? entry).map .index
      let b ← ofSegments? byUid rest
      some (.name name :: l :: b)
    else (ofSegments? byUid (entry :: rest)).map (.name name :: ·)

/-- The place that a key of an operation names in a document. -/
def Operation.place? (op : Operation) (d : Document) (key : String) : Option Place :=
  (Place.ofSegments? op.namesByUid (Path.ofString key).body).bind (op.locate? d)

/-! ## Shapes -/

namespace Place

/-- After the name of a list, and only there, an entry is named. -/
def isShaped (byUid : Bool) : Place → Bool
  | [] => true
  | .index _ :: _ => false
  | [.name _] => true
  | .name list :: l :: b =>
    if list ∈ lists then
      (match l with
        | .name _ => isKeyed byUid list
        | .index _ => !isKeyed byUid list) && isShaped byUid b
    else isShaped byUid (l :: b)

theorem isShaped_name {byUid : Bool} {s : String} {b : Place} (hs : s ∉ lists)
    (hb : b.isShaped byUid = true) : isShaped byUid (.name s :: b) = true := by
  cases b with
  | nil => rfl
  | cons l b =>
      unfold isShaped
      rw [if_neg hs]
      exact hb

theorem isShaped_index {byUid : Bool} {s : String} {i : Nat} {b : Place} (hs : s ∈ lists)
    (hkeyed : isKeyed byUid s = false) (hb : b.isShaped byUid = true) :
    isShaped byUid (.name s :: .index i :: b) = true := by
  unfold isShaped
  rw [if_pos hs, hkeyed, hb]
  rfl

theorem isShaped_key {byUid : Bool} {s k : String} {b : Place} (hs : s ∈ lists)
    (hkeyed : isKeyed byUid s = true) (hb : b.isShaped byUid = true) :
    isShaped byUid (.name s :: .name k :: b) = true := by
  unfold isShaped
  rw [if_pos hs, hkeyed, hb]
  rfl

/-- A place is read off the segments that stand for it. -/
theorem ofSegments?_of_isSpelled {byUid : Bool} {p : Place} {segments : List String}
    (hp : p.isShaped byUid = true) (h : List.Forall₂ Label.IsSpelled p segments) :
    ofSegments? byUid segments = some p := by
  -- Along the recursion of `isShaped`: an entry and the name before it are read together.
  induction p using isShaped.induct generalizing segments with
  | case1 =>
      cases h
      rfl
  | case2 i b => exact absurd hp Bool.false_ne_true
  | case3 s =>
      rcases h with _ | ⟨hs, hnil⟩
      cases hnil
      rw [show s = _ from hs]
      rfl
  | case4 list l b hlist ih =>
      rcases h with _ | ⟨hs, _ | ⟨hl, hb⟩⟩
      obtain rfl : list = _ := hs
      unfold isShaped at hp
      rw [if_pos hlist, Bool.and_eq_true] at hp
      unfold ofSegments?
      rw [if_pos hlist, ih hp.2 hb]
      cases l with
      | name k =>
          rw [if_pos hp.1, show k = _ from hl]
          rfl
      | index i =>
          rw [if_neg (by simpa using hp.1), show Path.index? _ = some i from hl]
          rfl
  | case5 list l b hlist ih =>
      rcases h with _ | ⟨hs, _ | ⟨hl, hb⟩⟩
      obtain rfl : list = _ := hs
      unfold isShaped at hp
      rw [if_neg hlist] at hp
      unfold ofSegments?
      rw [if_neg hlist, ih hp (.cons hl hb)]
      rfl

end Place

open Place

section

variable {byUid : Bool} {p : Place} {x : Held}

theorem Address.isShaped_of_holds {a : Address} (h : a.holds p = some x) : p.isShaped byUid = true := by
  unfold holds at h
  split at h <;> first | rfl | cases h

theorem IdentityCheck.isShaped_of_holds {c : Option IdentityCheck} (h : holds c p = some x) :
    p.isShaped byUid = true := by
  unfold holds at h
  split at h <;> first | rfl | cases h

theorem Donor.isShaped_of_holds {d : Donor} (h : d.holds p = some x) : p.isShaped byUid = true := by
  unfold holds at h
  split at h <;> first
    | rfl
    | exact isShaped_name (by decide) (Address.isShaped_of_holds h)
    | exact isShaped_name (by decide) (IdentityCheck.isShaped_of_holds h)
    | cases h

theorem Attorney.isShaped_of_holds {a : Attorney} (h : a.holds p = some x) :
    p.isShaped byUid = true := by
  unfold holds at h
  split at h <;> first
    | rfl
    | exact isShaped_name (by decide) (Address.isShaped_of_holds h)
    | cases h

theorem Signatory.isShaped_of_holds {s : Signatory} (h : s.holds p = some x) :
    p.isShaped byUid = true := by
  unfold holds at h
  split at h <;> first | rfl | cases h

/-- Below the name of a list whose entries are named by index. -/
theorem Entries.isShaped_of_holds {α : Type} {holds : α → Place → Option Held} {xs : List α}
    {list : String} (hlist : list ∈ lists) (hkeyed : isKeyed byUid list = false)
    (hentry : ∀ (a : α) b, holds a b = some x → b.isShaped byUid = true)
    (h : Entries.holds holds xs p = some x) : isShaped byUid (.name list :: p) = true := by
  unfold Entries.holds at h
  split at h
  · obtain ⟨a, _, ha⟩ := Option.bind_eq_some_iff.mp h
    exact isShaped_index hlist hkeyed (hentry a _ ha)
  · cases h

/-- Signatories are always named by index. -/
theorem isKeyed_signatories (byUid : Bool) : isKeyed byUid "signatories" = false := by
  cases byUid <;> rfl

theorem TrustCorporation.isShaped_of_holds {t : TrustCorporation} (h : t.holds p = some x) :
    p.isShaped byUid = true := by
  unfold holds at h
  split at h <;> first
    | rfl
    | exact isShaped_name (by decide) (Address.isShaped_of_holds h)
    | exact Entries.isShaped_of_holds (by decide) (isKeyed_signatories byUid)
        (fun _ _ => Signatory.isShaped_of_holds) h
    | cases h

theorem CertificateProvider.isShaped_of_holds {c : CertificateProvider} (h : c.holds p = some x) :
    p.isShaped byUid = true := by
  unfold holds at h
  split at h <;> first
    | rfl
    | exact isShaped_name (by decide) (Address.isShaped_of_holds h)
    | exact isShaped_name (by decide) (IdentityCheck.isShaped_of_holds h)
    | cases h

theorem AuthorisedSignatory.isShaped_of_holds {s : AuthorisedSignatory} (h : s.holds p = some x) :
    p.isShaped byUid = true := by
  unfold holds at h
  split at h <;> first | rfl | cases h

theorem IndependentWitness.isShaped_of_holds {w : IndependentWitness} (h : w.holds p = some x) :
    p.isShaped byUid = true := by
  unfold holds at h
  split at h <;> first
    | rfl
    | exact isShaped_name (by decide) (Address.isShaped_of_holds h)
    | cases h

theorem Decisions.isShaped_of_holds {s : Decisions} (h : s.holds p = some x) :
    p.isShaped byUid = true := by
  unfold holds at h
  split at h <;> first | rfl | cases h

/-- Where attorneys are named by uid, this is of the other fields. -/
theorem Document.isShaped_of_holds {d : Document} (h : d.holds p = some x)
    (hattorneys : byUid = true → ∀ b, p ≠ .name "attorneys" :: b) : p.isShaped byUid = true := by
  unfold holds at h
  split at h <;> first
    | rfl
    | exact isShaped_name (by decide) (Donor.isShaped_of_holds h)
    | exact isShaped_name (by decide) (CertificateProvider.isShaped_of_holds h)
    | exact isShaped_name (by decide) (AuthorisedSignatory.isShaped_of_holds h)
    | exact isShaped_name (by decide) (IndependentWitness.isShaped_of_holds h)
    | exact Decisions.isShaped_of_holds h
    | skip
  · refine Entries.isShaped_of_holds (by decide) ?_ (fun _ _ => Attorney.isShaped_of_holds) h
    cases byUid with
    | false => rfl
    | true => exact absurd rfl (hattorneys rfl _)
  · refine Entries.isShaped_of_holds (by decide) ?_ (fun _ _ => TrustCorporation.isShaped_of_holds) h
    cases byUid <;> rfl

end

/-- What is given on signing stands at places where entries are named by index. -/
theorem Operation.isShaped_of_held?_signing {op : Operation} {d : Document} {p : Place} {x : Held}
    (hsign : op.isSigning = true) (h : op.held? d p = some x) : p.isShaped false = true := by
  unfold held? at h
  split at h
  · refine isShaped_name (by decide) ?_
    unfold CertificateProviderSign.holds at h
    split at h <;> first
      | rfl
      | exact isShaped_name (by decide) (Address.isShaped_of_holds h)
      | cases h
  · split at h
    · refine isShaped_index (by decide) rfl ?_
      unfold AttorneySign.holds at h
      split at h <;> first | rfl | cases h
    · cases h
  · split at h
    · refine isShaped_index (by decide) rfl ?_
      unfold TrustCorporationSign.holds at h
      split at h <;> first
        | rfl
        | exact Entries.isShaped_of_holds (by decide) rfl (fun _ _ => Signatory.isShaped_of_holds) h
        | cases h
    · cases h
  · rw [if_pos hsign] at h
    cases h

/-- The fields of an operation stand at places that keys can name. -/
theorem Operation.isShaped_of_held? {op : Operation} {d : Document} {q p : Place} {x : Held}
    (hq : op.locate? d q = some p) (h : op.held? d p = some x) : q.isShaped op.namesByUid = true := by
  have hholds : op.isSigning = false → d.holds p = some x := by
    intro hsign
    unfold held? at h
    split at h <;> first | exact absurd hsign (by decide) | skip
    rwa [if_neg (by simp [hsign])] at h
  unfold locate? at hq
  cases huid : op.namesByUid with
  | false =>
      rw [huid] at hq
      obtain rfl : q = p := Option.some.inj hq
      cases hsign : op.isSigning with
      | true => exact isShaped_of_held?_signing hsign h
      | false => exact Document.isShaped_of_holds (hholds hsign) (by simp)
  | true =>
      rw [huid, if_pos rfl] at hq
      have hsign : op.isSigning = false := by
        cases op <;> first | rfl | exact absurd huid (by decide)
      rcases Document.eq_of_locate? hq with rfl | ⟨uid, i, b, hi, rfl, rfl⟩
      · exact Document.isShaped_of_holds (hholds hsign) fun _ => Document.ne_attorneys_of_locate? hq
      · have hentry : Entries.holds Attorney.holds d.attorneys (.index i :: b) = some x := hholds hsign
        rw [Entries.holds_index] at hentry
        obtain ⟨a, _, ha⟩ := Option.bind_eq_some_iff.mp hentry
        exact isShaped_key (by decide) rfl (Attorney.isShaped_of_holds ha)

/-! ## Agreement -/

/-- The key of a change names the place at which the change is read. -/
theorem Operation.place?_of_isSpelled {op : Operation} {d : Document} {q p : Place} {key : String}
    {x : Held} (hspelled : q.IsSpelled (Path.ofString key)) (hq : op.locate? d q = some p)
    (hheld : op.held? d p = some x) : op.place? d key = some p := by
  unfold place?
  rw [ofSegments?_of_isSpelled (isShaped_of_held? hq hheld) hspelled, Option.bind_some]
  exact hq

end PowerOfAttorney
