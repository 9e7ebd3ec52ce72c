import PowerOfAttorney.Proofs.Operation.Accepted
import PowerOfAttorney.Proofs.Script.Stale
import PowerOfAttorney.Proofs.Time.Spelling

/-!
# `PowerOfAttorney.Proofs.Operation.Claims` — an update is refused for a claim only if the claim is wrong

What is reported as stale has been taken by a field that holds something else. The field is one of the
operation, named by the key of the change, and it holds what the document holds there or, on signing,
nothing: no change that was read before can have altered it, since no field is read twice. So who claims a
date is never refused for the way in which it is written, and least of all for writing it as it is shown.

## Contents
- **Changes.** `Change.IsAbout` ties a change to what its field holds, `Change.IsStale` says that it claims
  another value.
- **Runs.** `Script.isStale_of_stale`, over a layout that the tables describe.
- **Updates.** `Update.isStale_of_stale`.
- **Dates.** `Date.IsClaimable`, and `Date.text_lossless` for the text of a date.
-/

namespace PowerOfAttorney

/-! ## Changes -/

/-- The key of a change names a field of an operation, and the change has to claim that it holds `x`. -/
def Change.IsAbout (c : Change) (op : Operation) (d : Document) (x : Held) : Prop :=
  ∃ p, op.place? d c.key = some p ∧ op.held? d p = some x

/-- A change claims another value than its field holds. -/
def Change.IsStale (c : Change) (op : Operation) (d : Document) : Prop :=
  ∃ x, c.IsAbout op d x ∧ x.type.agrees x.value c.old = false

/-- A field holds one value only. -/
theorem Change.IsAbout.unique {c : Change} {op : Operation} {d : Document} {x y : Held}
    (hx : c.IsAbout op d x) (hy : c.IsAbout op d y) : x = y := by
  obtain ⟨p, hp, hx⟩ := hx
  obtain ⟨q, hq, hy⟩ := hy
  obtain rfl : p = q := Option.some.inj (hp.symm.trans hq)
  exact Option.some.inj (hx.symm.trans hy)

/-- A change that claims what its field holds, in whatever spelling, is not stale. -/
theorem Change.IsAbout.not_isStale {c : Change} {op : Operation} {d : Document} {x : Held}
    (hx : c.IsAbout op d x) (hagrees : x.type.agrees x.value c.old = true) : ¬ c.IsStale op d := by
  rintro ⟨y, hy, hstale⟩
  obtain rfl := hx.unique hy
  rw [hagrees] at hstale
  exact absurd hstale.symm Bool.false_ne_true

/-! ## Runs -/

/-- **What a run reports as stale is stale**, over a layout that the tables describe. -/
theorem Script.isStale_of_stale {σ : Type} {s : Script σ} {L : Layout σ}
    (hfits : s.Fits L True (fun _ => True) (fun _ => True) []) {op : Operation} {d : Document}
    {decisions : σ → Decisions} (hdescribes : op.Describes d L decisions) {changes : List Change} {i : Nat}
    (hi : .stale i ∈ (s.read L.start changes).2) : ∃ c, changes[i]? = some c ∧ c.IsStale op d := by
  obtain ⟨g, hg, rfl, hstale⟩ := (stale_mem_read_iff s L.start changes i).mp hi
  have hc := List.getElem?_eq_getElem (position_lt_of_mem_log hg)
  obtain ⟨hold, _, hspelled⟩ := change_of_mem_log hg hc
  obtain ⟨p, _, hheld, _, hnames⟩ := meant_of_mem_log hfits hdescribes hg
  refine ⟨_, hc, _, ⟨p, hnames _ hspelled, hheld⟩, ?_⟩
  rw [← hold]
  exact hstale

/-! ## Updates -/

/-- What is reported as stale when an operation reads its changes is stale. -/
theorem Command.isStale_of_stale {d : Document} {author : String} {changes : List Change} {op : Operation}
    {i : Nat} (hi : .stale i ∈ (ofChanges d author changes op).2) :
    ∃ c, changes[i]? = some c ∧ c.IsStale op d := by
  obtain ⟨σ, s, L, dec, hread⟩ := exists_isReadBy d author changes op
  obtain ⟨more, hfaults, hmore⟩ := hread.faults
  rw [hfaults, List.mem_append] at hi
  refine Script.isStale_of_stale hread.fits hread.describes (hi.resolve_right fun hi => ?_)
  exact absurd (hmore _ hi) (Option.some_ne_none i)

namespace Update

/-- What is wrong with an update of a known type is what is wrong with its changes. -/
theorem faults_of_validate {u : Update} {d : Document} {faults : List Fault} {op : Operation}
    (hop : Word.ofText? u.type = some op) (h : u.validate d = .error faults) :
    faults = (Command.ofChanges d u.author u.changes op).2 ++ Change.redundancies u.changes := by
  unfold validate at h
  rw [hop] at h
  dsimp only at h
  split at h
  · exact absurd h nofun
  · exact (Except.error.inj h).symm

/-- **A change that is reported as stale claims another value than its field holds.** -/
theorem isStale_of_stale {u : Update} {d : Document} {faults : List Fault} {op : Operation} {i : Nat}
    (hop : Word.ofText? u.type = some op) (h : u.validate d = .error faults) (hi : .stale i ∈ faults) :
    ∃ c, u.changes[i]? = some c ∧ c.IsStale op d := by
  rw [faults_of_validate hop h, List.mem_append] at hi
  refine Command.isStale_of_stale (hi.resolve_right fun hi => ?_)
  -- A change that is redundant is reported as that.
  obtain ⟨x, _, hx⟩ := List.mem_filterMap.mp hi
  obtain ⟨_, hx⟩ := Option.ite_none_right_eq_some.mp hx
  exact absurd hx nofun

end Update

/-! ## Dates -/

namespace Date

/-- A field that holds the date agrees with a text, and no update is refused because it claims the text. -/
def IsClaimable (d : Date) (s : String) : Prop :=
  FieldType.date.agrees (some d) (.str s) = true ∧
    ∀ (u : Update) (doc : Document) (op : Operation) (i : Nat) (c : Change) (faults : List Fault),
      Word.ofText? u.type = some op → u.changes[i]? = some c → c.IsAbout op doc ⟨.date, some d⟩ →
        c.old = .str s → u.validate doc = .error faults → .stale i ∉ faults

/-- A date may be claimed in any spelling. -/
theorem IsSpelledBy.isClaimable {d : Date} {s : String} (h : d.IsSpelledBy s) : d.IsClaimable s := by
  have hagrees : FieldType.date.agrees (some d) (.str s) = true :=
    FieldType.agrees_iff_decode.mpr (FieldType.decodeMaybe_of_read rfl (parse?_eq_some_iff.mpr h))
  refine ⟨hagrees, fun u doc op i c faults hop hc habout hold hfaults hstale => ?_⟩
  obtain ⟨c', hc', hc'stale⟩ := Update.isStale_of_stale hop hfaults hstale
  obtain rfl : c = c' := Option.some.inj (hc.symm.trans hc')
  exact habout.not_isStale (hold ▸ hagrees) hc'stale

/-- **The text of a date loses nothing**, in any year. A date is what its three numbers make and what its
    own text is read as. The texts that are read as it are those that spell it; of each of them the same
    text is written, which is written again as itself. A field that holds the date may be claimed to hold
    this text. -/
theorem text_lossless (d : Date) :
    of? d.year d.month d.day = some d ∧ parse? d.text = some d ∧
      (∀ s, parse? s = some d ↔ d.IsSpelledBy s) ∧ (∀ s, parse? s = some d ↔ rewrite? s = some d.text) ∧
      (∀ s, (rewrite? s).bind rewrite? = rewrite? s) ∧ d.IsClaimable d.text := by
  have hread := parse?_text d
  refine ⟨of?_self d, hread, fun s => parse?_eq_some_iff, ?_, rewrite?_rewrite?, ?_⟩
  · intro s
    rw [rewrite?_eq_some_iff]
    exact parse?_eq_some_iff
  · exact (parse?_eq_some_iff.mp hread).isClaimable

/-- A leap day before the year 0. Who claims it as it is shown, to correct it to a day that does not exist, is
    refused for that day and not for the claim. -/
theorem text_lossless_leapDay :
    let d : Date := ⟨-400, 2, 29, by decide⟩
    let doc : Document := { Document.ofTwoAttorneys with
      donor := { Document.ofTwoAttorneys.donor with dateOfBirth := some d } }
    let c : Change := ⟨"/donor/dateOfBirth", .str "-0400-02-29", .str "-0300-02-29"⟩
    let u : Update := ⟨"", "", none, "", "CORRECTION", [c]⟩
    d.text = "-0400-02-29" ∧ parse? d.text = some d ∧ parse? " -400-2-\t29" = some d ∧
      (rewrite? " -400-2-\t29").bind rewrite? = some "-0400-02-29" ∧
      u.validate doc = .error [.unfit 0 .invalidFormat] ∧ .stale 0 ∉ [Fault.unfit 0 .invalidFormat] := by
  intro d doc c u
  have htext : d.text = "-0400-02-29" := by decide +kernel
  have hloose : parse? " -400-2-\t29" = some d := by decide +kernel
  have hfaults : u.validate doc = .error [.unfit 0 .invalidFormat] := by decide +kernel
  have hplace : Operation.correction.place? doc c.key = some [.name "donor", .name "dateOfBirth"] := by
    decide +kernel
  obtain ⟨_, hread, _, hwritten, hagain, _, hclaim⟩ := text_lossless d
  refine ⟨htext, hread, hloose, ?_, hfaults, ?_⟩
  · rw [hagain, (hwritten _).mp hloose, htext]
  · exact hclaim u doc .correction 0 c _ (by decide) rfl ⟨_, hplace, rfl⟩ (by rw [htext]) hfaults

end Date

end PowerOfAttorney
