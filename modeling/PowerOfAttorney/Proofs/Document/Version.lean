import PowerOfAttorney.Document.Codec
import PowerOfAttorney.Proofs.Json.Record
import PowerOfAttorney.Proofs.Time.Instant

/-!
# `PowerOfAttorney.Proofs.Document.Version` — the version of a stored document

Before a document is written, only the time of its last change is read from what is stored. That time is
the one that was written.

## Contents
- **Writing.** `Document.isOrderly_part`: a document is written member by member, each once.
- **Written and read.** `Document.version_encodeText` and `Document.eq_updatedAt_of_version`.
- **The uid.** `Document.uid_of_decodeJson`.
-/

namespace PowerOfAttorney

open PowerOfAttorney.Part

/-! ## Writing -/

@[simp] theorem Address.isPlain_codec : Address.codec.IsPlain := by
  refine Part.isPlain_codec ?_
  with_reducible repeat' first | apply isOrderly_seq | apply isOrderly_map
  all_goals simp

@[simp] theorem isOrderly_addressOf {σ : Type} {get : σ → Address} : (addressOf get).IsOrderly :=
  isOrderly_optional Address.isPlain_codec

@[simp] theorem IdentityCheck.isPlain_codec : IdentityCheck.codec.IsPlain := by
  refine Part.isPlain_codec ?_
  with_reducible repeat' first | apply isOrderly_seq | apply isOrderly_map
  all_goals simp

@[simp] theorem Donor.isPlain_codec : Donor.codec.IsPlain := by
  refine Part.isPlain_codec ?_
  with_reducible repeat' first | apply isOrderly_seq | apply isOrderly_map
  all_goals simp

@[simp] theorem Attorney.isPlain_codec : Attorney.codec.IsPlain := by
  refine Part.isPlain_codec ?_
  with_reducible repeat' first | apply isOrderly_seq | apply isOrderly_map
  all_goals simp

@[simp] theorem Signatory.isPlain_codec : Signatory.codec.IsPlain := by
  refine Part.isPlain_codec ?_
  with_reducible repeat' first | apply isOrderly_seq | apply isOrderly_map
  all_goals simp

@[simp] theorem TrustCorporation.isPlain_codec : TrustCorporation.codec.IsPlain := by
  refine Part.isPlain_codec ?_
  with_reducible repeat' first | apply isOrderly_seq | apply isOrderly_map
  all_goals simp

@[simp] theorem CertificateProvider.isPlain_codec : CertificateProvider.codec.IsPlain := by
  refine Part.isPlain_codec ?_
  with_reducible repeat' first | apply isOrderly_seq | apply isOrderly_map
  all_goals simp

@[simp] theorem AuthorisedSignatory.isPlain_codec : AuthorisedSignatory.codec.IsPlain := by
  refine Part.isPlain_codec ?_
  with_reducible repeat' first | apply isOrderly_seq | apply isOrderly_map
  all_goals simp

@[simp] theorem IndependentWitness.isPlain_codec : IndependentWitness.codec.IsPlain := by
  refine Part.isPlain_codec ?_
  with_reducible repeat' first | apply isOrderly_seq | apply isOrderly_map
  all_goals simp

@[simp] theorem FileUpload.isPlain_codec : FileUpload.codec.IsPlain := by
  refine Part.isPlain_codec ?_
  with_reducible repeat' first | apply isOrderly_seq | apply isOrderly_map
  all_goals simp

@[simp] theorem Note.isPlain_codec : Note.codec.IsPlain := by
  refine Part.isPlain_codec ?_
  with_reducible repeat' first | apply isOrderly_seq | apply isOrderly_map
  all_goals simp

@[simp] theorem Decisions.isOrderly_part : Decisions.part.IsOrderly := by
  unfold Decisions.part
  with_reducible repeat' first | apply isOrderly_seq | apply isOrderly_map
  all_goals simp

namespace Document

/-- The members of a document as written. -/
def members (d : Document) : List (String × Json) :=
  match codec.encode d with
  | .obj ms => ms
  | _ => []

theorem encode_eq (d : Document) : codec.encode d = .obj d.members := rfl

/-- The names of the members that are written before the time of the last change. -/
def earlierNames : List String :=
  ["uid", "status", "lpaType", "channel", "donor", "attorneys", "trustCorporations",
    "certificateProvider", "authorisedSignatory", "independentWitness", "howAttorneysMakeDecisions",
    "howAttorneysMakeDecisionsDetails", "howReplacementAttorneysMakeDecisions",
    "howReplacementAttorneysMakeDecisionsDetails", "howReplacementAttorneysStepIn",
    "howReplacementAttorneysStepInDetails", "whenTheLpaCanBeUsed", "lifeSustainingTreatmentOption",
    "restrictionsAndConditions", "restrictionsAndConditionsImages", "signedAt",
    "witnessedByCertificateProviderAt", "witnessedByIndependentWitnessAt",
    "certificateProviderNotRelatedConfirmedAt", "registrationDate"]

/-- What is known of the members that are written before the time of the last change: their names, and that
    they are written in order. -/
structure IsEarlier (q : Part Document (Option Instant → List Note → Document)) : Prop where
  names : q.names = earlierNames
  orderly : q.IsOrderly

/-- The time of the last change is the last member but one. -/
theorem exists_isEarlier : ∃ q, IsEarlier q ∧
    codec = Part.codec (q <*> maybe "updatedAt" updatedAt .instant <*> many "notes" notes Note.codec) := by
  refine ⟨_, ⟨rfl, ?_⟩, rfl⟩
  with_reducible repeat' first | apply isOrderly_seq | apply isOrderly_map
  all_goals simp

/-! ## Written and read -/

/-- The time of the last change is written under its name, if there is one. -/
theorem lookup_members (d : Document) :
    d.members.lookup "updatedAt" = d.updatedAt.map fun t => .str t.text := by
  obtain ⟨q, hq, hcodec⟩ := exists_isEarlier
  have hmembers : d.members = q.members d ++
      (maybe "updatedAt" updatedAt .instant).members d ++ (many "notes" notes Note.codec).members d := by
    unfold members
    rw [hcodec]
    rfl
  have hnot : "updatedAt" ∉ q.names := by
    rw [hq.names]
    decide
  have hnotes : ((many "notes" notes Note.codec).members d).lookup "updatedAt" = none :=
    lookup_eq_none_of_not_mem (IsOrderly.names (by simp) d) (by decide)
  rw [hmembers, List.lookup_append, List.lookup_append, lookup_eq_none_of_not_mem (hq.orderly.names d) hnot,
    hnotes, Option.or_none, Option.none_or]
  show (if d.updatedAt.isNone then [] else [("updatedAt", _)] : List (String × Json)).lookup _ = _
  cases d.updatedAt with
  | none => rfl
  | some t => rfl

theorem nodup_members (d : Document) : (d.members.map Prod.fst).Nodup := by
  obtain ⟨q, hq, hcodec⟩ := exists_isEarlier
  have horderly : (q <*> maybe "updatedAt" updatedAt .instant <*>
      many "notes" notes Note.codec).IsOrderly := by
    refine isOrderly_seq (isOrderly_seq hq.orderly (by simp)) (by simp)
  have hmembers : d.members = (q <*> maybe "updatedAt" updatedAt .instant <*>
      many "notes" notes Note.codec).members d := by
    unfold members
    rw [hcodec]
    rfl
  have hnames : (q <*> maybe "updatedAt" updatedAt .instant <*>
      many "notes" notes Note.codec).names = earlierNames ++ ["updatedAt", "notes"] := by
    rw [names_seq, names_seq, hq.names, List.append_assoc]
    rfl
  rw [hmembers]
  refine (horderly.names d).nodup ?_
  rw [hnames]
  decide

theorem isPlain_encode (d : Document) : (codec.encode d).isPlain = true := by
  obtain ⟨q, hq, hcodec⟩ := exists_isEarlier
  rw [hcodec]
  exact Part.isPlain_codec (isOrderly_seq (isOrderly_seq hq.orderly (by simp)) (by simp)) d

/-- An instant is decoded from a text that reads as it. -/
theorem decode_instant {s : String} {t : Instant} (h : Instant.parse? s = some t) (depth : Nat) :
    (Codec.option .instant).decode depth (.ofJson (.str s)) = .ok (some t) := by
  show (Codec.instant.decode depth (.str (some s))).map some = .ok (some t)
  unfold Codec.instant
  dsimp only
  rw [h]
  rfl

/-- The time of the last change is read from the object that it was written to. -/
theorem version_decodeJson {ms : List (String × Json)} (hnodup : (ms.map Prod.fst).Nodup)
    {t : Option Instant} (ht : ∀ x ∈ t, x.IsStorable)
    (hlookup : ms.lookup "updatedAt" = t.map fun x => .str x.text) :
    version.decodeJson (.obj ms) = .ok t := by
  have hcheck : ∀ x, ("updatedAt", x) ∈ ms →
      ((Codec.option .instant).decode 126 (.ofJson x)).map (fun _ => ()) = .ok () := by
    intro x hx
    have hvalue : ms.lookup "updatedAt" = some x := by
      obtain ⟨before, after, rfl⟩ := List.append_of_mem hx
      refine List.lookup_eq_some_iff.mpr ⟨before, after, rfl, fun m hm => ?_⟩
      rw [List.map_append, List.map_cons, List.nodup_append] at hnodup
      have hne := hnodup.2.2 m.1 (List.mem_map_of_mem hm) "updatedAt" List.mem_cons_self
      simp [Ne.symm hne]
    rw [hlookup] at hvalue
    obtain ⟨y, hy, rfl⟩ := Option.map_eq_some_iff.mp hvalue
    have hparse := Instant.parse?_text (ht y hy)
    generalize y.text = s at hparse ⊢
    exact congrArg (Except.map fun _ => ()) (decode_instant hparse 126)
  show Part.decode (maybe "updatedAt" id .instant) (126 + 1) (.ofJson (.obj ms)) = .ok t
  rw [decode_ofJson rfl 126 hnodup hcheck]
  unfold maybe Part.optional
  simp only [hlookup]
  cases t with
  | none => rfl
  | some x =>
      rw [Option.map_some, Option.map_some]
      exact decode_instant (Instant.parse?_text (ht x rfl)) 126

/-- **The version of a written document is the time of its last change.** -/
theorem version_encodeText {d : Document} (h : ∀ t ∈ d.updatedAt, t.IsStorable) :
    version.decodeText (codec.encodeText d) = .ok d.updatedAt := by
  unfold Codec.encodeText
  rw [Codec.decodeText_text version (isPlain_encode d), encode_eq]
  exact version_decodeJson d.nodup_members h d.lookup_members

/-- What a text is decoded to as an instant is what it reads as. -/
theorem parse?_of_decode_instant {s : String} {t : Option Instant} {depth : Nat}
    (h : (Codec.option .instant).decode depth (.ofJson (.str s)) = .ok t) :
    ∃ x, Instant.parse? s = some x ∧ t = some x := by
  change (Codec.instant.decode depth (.str (some s))).map some = .ok t at h
  unfold Codec.instant at h
  dsimp only at h
  cases hparse : Instant.parse? s with
  | none =>
      rw [hparse] at h
      exact absurd h nofun
  | some x =>
      rw [hparse] at h
      exact ⟨x, rfl, (Except.ok.inj h).symm⟩

/-- **The version of a written document, if it can be read, is the time of its last change.** -/
theorem eq_updatedAt_of_version {d : Document} {t : Option Instant}
    (h : version.decodeText (codec.encodeText d) = .ok t) : t = d.updatedAt := by
  unfold Codec.encodeText at h
  rw [Codec.decodeText_text version (isPlain_encode d), encode_eq] at h
  have hdecode : Part.decode (maybe "updatedAt" id .instant) (126 + 1) (.ofJson (.obj d.members)) = .ok t := h
  rcases decode_ok hdecode with ⟨ms, hnode, hbuild⟩ | ⟨items, hnode, _⟩
  · obtain rfl := Node.obj.inj hnode
    unfold maybe Part.optional at hbuild
    simp only [Node.lookup_membersOfJson, lookup_members] at hbuild
    cases hat : d.updatedAt with
    | none =>
        rw [hat] at hbuild
        exact (Except.ok.inj hbuild).symm
    | some x =>
        rw [hat, Option.map_some, Option.map_some] at hbuild
        generalize htext : x.text = s at hbuild
        obtain ⟨y, hparse, rfl⟩ := parse?_of_decode_instant hbuild
        rw [← htext] at hparse
        rw [(Instant.parse?_text_eq_some_iff.mp hparse).2]
  · exact absurd hnode nofun

/-! ## The uid -/

/-- The uid is written, and what is read as the uid is what stands under its name. -/
structure IsNamed (p : Part Document Document) : Prop where
  written : ∀ d, ∃ rest, p.members d = ("uid", .str d.uid) :: rest
  read : ∀ depth lookup d, p.build depth lookup = .ok d →
    ∃ node, lookup "uid" = some node ∧ Codec.string.decode depth node = .ok d.uid

theorem exists_isNamed : ∃ p, IsNamed p ∧ codec = Part.codec p := by
  refine ⟨_, ⟨fun d => ?_, fun depth lookup d h => ?_⟩, rfl⟩
  · with_reducible repeat' first | apply exists_members_seq | apply exists_members_map
    exact ⟨[], rfl⟩
  · simp only [build_seq_ok, build_map_ok] at h
    iterate 19 obtain ⟨_, h, _, _, rfl⟩ := h
    obtain ⟨uid, huid, rfl⟩ := h
    unfold required at huid
    dsimp only at huid
    split at huid
    · rename_i node hnode
      exact ⟨node, hnode, huid⟩
    · exact absurd huid nofun

/-- **A document that was written is read with its uid.** -/
theorem uid_of_decodeJson {d d' : Document} (h : codec.decodeJson (codec.encode d) = .ok d') :
    d'.uid = d.uid := by
  obtain ⟨p, hp, hcodec⟩ := exists_isNamed
  obtain ⟨rest, hwritten⟩ := hp.written d
  have hmembers : d.members = ("uid", .str d.uid) :: rest := by
    unfold members
    rw [hcodec]
    exact hwritten
  rw [encode_eq, hmembers, hcodec] at h
  have hdecode : p.decode (126 + 1) (.obj (Node.membersOfJson (("uid", .str d.uid) :: rest))) =
      .ok d' := h
  rcases decode_ok hdecode with ⟨ms, hnode, hbuild⟩ | ⟨items, hnode, _⟩
  · cases hnode
    obtain ⟨node, hlookup, huid⟩ := hp.read _ _ _ hbuild
    rw [Node.membersOfJson, List.lookup_cons_self] at hlookup
    cases hlookup
    exact (Except.ok.inj huid).symm
  · exact absurd hnode nofun

end Document

end PowerOfAttorney
