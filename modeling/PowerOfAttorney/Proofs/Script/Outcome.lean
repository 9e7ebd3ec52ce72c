import Mathlib.Data.List.Nodup
import PowerOfAttorney.Proofs.Script.Conservation
import PowerOfAttorney.Proofs.Script.Origin

/-!
# `PowerOfAttorney.Proofs.Script.Outcome` — what becomes of each change

The two sides of a run put together: the tally says that a change is accepted or blamed, once in all;
the log says which field took it. What is blamed is read off the problems as they are sent, by their
sources.

## Contents
- **Taken once.** `takenAt_hits_le`: a position is taken no more often than it is left.
- **Sources.** `FieldError.Names`: a problem points at a position. `names_toFieldError`: it does so
  exactly when the fault behind it does.
- **Accepted.** `isFilled_of_mem_hits`: a change that is accepted has set its field.
- **The outcome.** `used_or_blamed`.
-/

namespace PowerOfAttorney

variable {σ : Type}

/-! ## Taken once -/

/-- How many changes of a position have been taken. -/
def takenAt (i : Nat) (hs : List (Hit σ)) : Nat :=
  hs.countP fun h => h.entry.position == i

theorem takenAt_append (i : Nat) (hs hs' : List (Hit σ)) :
    takenAt i (hs ++ hs') = takenAt i hs + takenAt i hs' :=
  List.countP_append

/-- What is accepted has been taken. -/
theorem acceptedAt_le_takenAt (i : Nat) (hs : List (Hit σ)) : acceptedAt i hs ≤ takenAt i hs := by
  refine List.countP_mono_left fun h _ hh => ?_
  rw [Bool.and_eq_true] at hh
  exact hh.1

namespace Reading

/-- How often a position is among the changes that are left. -/
def leftAt (r : Reading σ) (i : Nat) : Nat :=
  r.rest.countP fun e => e.position == i

theorem takenAt_field (r : Reading σ) (root : String) (top : Place) (key : String) (slot : Slot σ)
    (rule : Rule) (i : Nat) :
    takenAt i (r.hit? root top key slot rule).toList + (r.field root key slot rule).leftAt i =
      r.leftAt i := by
  unfold leftAt hit?
  rw [rest_field]
  cases hfind : r.rest.find? fun e => e.path == Path.ofString key with
  | none =>
      rw [List.eraseP_of_forall_not fun e he => List.find?_eq_none.mp hfind e he, Option.map_none,
        Option.toList_none, takenAt, List.countP_nil, Nat.zero_add]
  | some e =>
      rw [Option.map_some, Option.toList_some, takenAt, List.countP_singleton, Nat.add_comm]
      exact countP_eraseP hfind fun e => e.position == i

/-- Below a key only what is there is taken. -/
theorem takenAt_descend_le {r : Reading σ} {key : String} {hs : List (Hit σ)} {i : Nat}
    (h : takenAt i hs ≤ (r.onto (r.inside key)).leftAt i) (root : String) (needed : Bool)
    (inner : Reading σ → Reading σ) :
    takenAt i hs + (r.descend root key needed inner).leftAt i ≤ r.leftAt i := by
  have hparts := countP_inside_add_outside r key fun n => n == i
  have hin : (r.onto (r.inside key)).leftAt i =
      (r.inside key).countP fun e => e.position == i := rfl
  unfold leftAt
  rw [rest_descend]
  omega

/-- Of each group no more is taken than it holds. -/
theorem takenAt_gather_le {α : Type} (inner : α → Reading σ → Reading σ)
    {log : α → Reading σ → List (Hit σ)} {i : Nat} (h : ∀ a r, takenAt i (log a r) ≤ r.leftAt i)
    (groups : List (α × List Entry)) (r : Reading σ) :
    takenAt i (r.gather inner log groups) ≤
      (groups.map fun g => g.2.countP fun e => e.position == i).sum := by
  induction groups generalizing r with
  | nil => exact Nat.le_refl _
  | cons g groups ih =>
      obtain ⟨a, es⟩ := g
      have hgroup := h a (r.onto es)
      have hgroups := ih (r.after (inner a (r.onto es)) [])
      rw [gather, takenAt_append, List.map_cons, List.sum_cons]
      exact Nat.add_le_add hgroup hgroups

theorem takenAt_scatter_le {α : Type} [BEq α] [LawfulBEq α] {lt : α → α → Bool}
    (hlt : StrictOrder lt) (step : Path → Option (α × Path)) (always : List α)
    (inner : α → Reading σ → Reading σ) {log : α → Reading σ → List (Hit σ)} {i : Nat}
    (h : ∀ a r, takenAt i (log a r) ≤ r.leftAt i) (r : Reading σ) :
    takenAt i ((r.swept step).gather inner log (Entry.groups lt step always r.rest)) ≤
      r.leftAt i := by
  have hgather := takenAt_gather_le inner h (Entry.groups lt step always r.rest) (r.swept step)
  have hgroups := Entry.countP_groups step always r.rest hlt fun n => n == i
  unfold leftAt
  omega

end Reading

namespace Script

open Reading

/-- **No field takes what another has taken**: a position is taken no more often than it was left. -/
theorem takenAt_hits_le (s : Script σ) (root : String) (top : Place) (r : Reading σ) (i : Nat) :
    takenAt i (s.hits root top r) ≤ r.leftAt i := by
  induction s generalizing root top r with
  | done => exact Nat.zero_le _
  | field key slot rule next ih =>
      have hstep := takenAt_field r root top key slot rule i
      have hnext := ih root top (r.field root key slot rule)
      rw [hits, takenAt_append]
      omega
  | under key needed inner next ihInner ih =>
      have hstep := takenAt_descend_le (ihInner (root ++ key) (top ++ .ofKey key)
        (r.onto (r.inside key))) root needed fun r => inner.run (root ++ key) r
      have hnext := ih root top
        (r.descend root key needed fun r => inner.run (root ++ key) r)
      rw [hits, takenAt_append]
      omega
  | each always inner next ihInner _ =>
      -- Reading by index leaves nothing, so what follows takes nothing.
      rw [hits, hits_of_rest_nil next (rest_scatter _ _ _ _ _), List.append_nil]
      exact takenAt_scatter_le strictOrder_nat Path.indexStep? always _ (fun i r => ihInner i _ _ r) r
  | eachKey inner next ihInner _ =>
      rw [hits, hits_of_rest_nil next (rest_scatter _ _ _ _ _), List.append_nil]
      exact takenAt_scatter_le strictOrder_string Path.keyStep? [] _ (fun k r => ihInner k _ _ r) r
  | outOfRange next _ =>
      rw [hits, hits_of_rest_nil next (r := r.refuse .outOfRange) rfl]
      exact Nat.zero_le _
  | consumed next _ =>
      rw [hits, hits_of_rest_nil next (r := r.refuse .unexpected) rfl]
      exact Nat.zero_le _
  | alter f next ih => exact ih root top _
  | look next ih => exact ih _ root top r

end Script

/-! ## Sources -/

/-- The source of a problem is the change at a position, or a part of it. -/
def FieldError.Names (e : FieldError) (i : Nat) : Prop :=
  e.source ∈ ["", "/key", "/old", "/new"].map (Fault.sourceOf i)

instance (e : FieldError) (i : Nat) : Decidable (e.Names i) :=
  inferInstanceAs (Decidable (e.source ∈ ["", "/key", "/old", "/new"].map (Fault.sourceOf i)))

namespace Fault

/-- The digits of a number end where a text without a leading digit begins. -/
theorem takeWhile_digits_append (i : Nat) {part : List Char} (hpart : ∀ c ∈ part.head?, !c.isDigit) :
    (Decimal.digits i ++ part).takeWhile Char.isDigit = Decimal.digits i := by
  have hdigits : ∀ c ∈ Decimal.digits i, c.isDigit = true := fun c hc =>
    Nat.isDigit_of_mem_toDigits (by decide) (by decide) hc
  have hend : part.takeWhile Char.isDigit = [] := by
    cases part with
    | nil => rfl
    | cons c part =>
        have hc := hpart c rfl
        rw [Bool.not_eq_true'] at hc
        rw [List.takeWhile_cons_of_neg (by simp [hc])]
  rw [List.takeWhile_append_of_pos hdigits, hend, List.append_nil]

/-- A source names one position. -/
theorem sourceOf_inj {i j : Nat} {part part' : String} (hpart : ∀ c ∈ part.toList.head?, !c.isDigit)
    (hpart' : ∀ c ∈ part'.toList.head?, !c.isDigit) (h : sourceOf i part = sourceOf j part') :
    i = j := by
  have hlist := congrArg String.toList h
  unfold sourceOf at hlist
  simp only [String.toList_append, String.toList_ofList, List.append_assoc] at hlist
  have htail := List.append_cancel_left hlist
  -- The number ends where its digits end, whatever part follows it.
  have hdigits : Decimal.digits i = Decimal.digits j := by
    rw [← takeWhile_digits_append i hpart, htail, takeWhile_digits_append j hpart']
  rw [← Decimal.value_digits i, hdigits, Decimal.value_digits]

/-- A source of a change is no source of the update as a whole. -/
theorem ne_sourceOf {source : String} (h : ¬ "/changes/".toList <+: source.toList) (i : Nat)
    (part : String) : source ≠ sourceOf i part := by
  rintro rfl
  apply h
  unfold sourceOf
  simp only [String.toList_append, List.append_assoc]
  exact List.prefix_append _ _

/-- **A problem points at a position exactly when the fault behind it does.** -/
theorem names_toFieldError (f : Fault) (i : Nat) :
    f.toFieldError.Names i ↔ f.position? = some i := by
  -- The parts that follow a position in a source.
  have hparts : ∀ part ∈ ["", "/key", "/old", "/new"], ∀ c ∈ part.toList.head?, !c.isDigit := by
    simp
  -- A source that names a position.
  have hat : ∀ {j : Nat} {part detail : String}, part ∈ ["", "/key", "/old", "/new"] →
      ((FieldError.mk (sourceOf j part) detail).Names i ↔ some j = some i) := by
    intro j part detail hpart
    unfold FieldError.Names
    constructor
    · intro h
      obtain ⟨part', hpart', heq⟩ := List.mem_map.mp h
      rw [sourceOf_inj (hparts part' hpart') (hparts part hpart) heq]
    · intro h
      obtain rfl := Option.some.inj h
      exact List.mem_map_of_mem hpart
  -- A source that is no part of a change.
  have hoff : ∀ {source detail : String}, ¬ "/changes/".toList <+: source.toList →
      ((FieldError.mk source detail).Names i ↔ (none : Option Nat) = some i) := by
    intro source detail h
    refine ⟨fun hnames => ?_, fun hnone => absurd hnone (by simp)⟩
    obtain ⟨part, _, heq⟩ := List.mem_map.mp hnames
    exact absurd heq.symm (ne_sourceOf h i part)
  -- Each fault is of one kind or the other.
  cases f with
  | missing path => exact hoff (by decide)
  | stale j => exact hat (by decide)
  | unfit j why => exact hat (by decide)
  | noEntry j => exact hat (by decide)
  | outOfRange j => exact hat (by decide)
  | unexpected j => exact hat (by decide)
  | redundant j key => exact hat (by decide)
  | unknownOperation => exact hoff (by decide)
  | anonymous => exact hoff (by decide)

end Fault

/-! ## Accepted -/

/-- The draft after a hit is what filling the slot makes of the draft before it. -/
def Hit.IsFilled (h : Hit σ) : Prop :=
  h.after = ((Reading.mk h.before [] []).fill h.slot h.check h.entry).draft

/-- A change that is accepted has set its field. -/
theorem Hit.IsFilled.isAccepted {h : Hit σ} (hfill : h.IsFilled) (hacc : h.accepts = true) :
    h.IsAccepted := by
  unfold accepts at hacc
  rw [Bool.and_eq_true] at hacc
  obtain ⟨hold, hnew⟩ := hacc
  have hheld : h.slot.type.agrees (h.slot.get h.before) h.entry.old = true := hold
  unfold IsFilled Reading.fill at hfill
  dsimp only at hfill
  rw [if_pos hheld] at hfill
  cases hdecode : h.slot.type.decode h.entry.new with
  | error why =>
      rw [hdecode] at hnew
      exact absurd hnew Bool.false_ne_true
  | ok v =>
      rw [hdecode] at hnew hfill
      refine ⟨hold, v, hdecode, fun c hc => ?_, hfill⟩
      rw [hc] at hnew
      exact Option.isNone_iff_eq_none.mp hnew

namespace Script

open Reading

/-- What holds of every change that a field takes in its one step holds of every change of a run. -/
theorem forall_mem_hits {P : Hit σ → Prop}
    (hfield : ∀ (r : Reading σ) (root : String) (top : Place) (key : String) (slot : Slot σ)
      (rule : Rule), ∀ h ∈ r.hit? root top key slot rule, P h)
    {s : Script σ} {root : String} {top : Place} {r : Reading σ} :
    ∀ h ∈ s.hits root top r, P h := by
  intro h hh
  induction s generalizing root top r with
  | done => exact absurd hh List.not_mem_nil
  | field key slot rule next ih =>
      rw [hits, List.mem_append] at hh
      rcases hh with hh | hh
      · exact hfield r root top key slot rule h (Option.mem_toList.mp hh)
      · exact ih hh
  | under key needed inner next ihInner ih =>
      rw [hits, List.mem_append] at hh
      rcases hh with hh | hh
      · exact ihInner hh
      · exact ih hh
  | each always inner next ihInner ih =>
      rw [hits, List.mem_append] at hh
      rcases hh with hh | hh
      · obtain ⟨i, es, _, r', hh⟩ := mem_gather hh
        exact ihInner i hh
      · exact ih hh
  | eachKey inner next ihInner ih =>
      rw [hits, List.mem_append] at hh
      rcases hh with hh | hh
      · obtain ⟨k, es, _, r', hh⟩ := mem_gather hh
        exact ihInner k hh
      · exact ih hh
  | outOfRange next ih => exact ih (r := r.refuse .outOfRange) hh
  | consumed next ih => exact ih (r := r.refuse .unexpected) hh
  | alter f next ih => exact ih (r := { r with draft := f r.draft }) hh
  | look next ih => exact ih _ hh

theorem isFilled_of_mem_hits {s : Script σ} {root : String} {top : Place} {r : Reading σ} :
    ∀ h ∈ s.hits root top r, h.IsFilled := by
  refine forall_mem_hits fun r root top key slot rule h hh => ?_
  rw [hit?, Option.mem_def, Option.map_eq_some_iff] at hh
  obtain ⟨e, hfind, rfl⟩ := hh
  unfold Hit.IsFilled
  rw [field_of_find?_some hfind]
  unfold fill blame
  dsimp only
  split
  · split <;> rfl
  · rfl

end Script

/-! ## The outcome -/

namespace Entry

/-- The positions of the changes of an update are their places in the list. -/
theorem position_ofChanges (changes : List Change) :
    (ofChanges changes).map (·.position) = List.range changes.length := by
  unfold ofChanges
  rw [List.map_map]
  exact (List.zipIdx_map_snd 0 changes).trans (List.range_eq_range').symm

/-- Every position stands once among the changes of an update. -/
theorem countP_position_ofChanges {changes : List Change} {i : Nat} (hi : i < changes.length) :
    (ofChanges changes).countP (fun e => e.position == i) = 1 := by
  have hcount : (List.range changes.length).count i = 1 :=
    List.count_eq_one_of_mem List.nodup_range (List.mem_range.mpr hi)
  rw [← position_ofChanges, List.count, List.countP_map] at hcount
  exact hcount

/-- The entry at a position is the change there. -/
theorem eq_of_mem_ofChanges {changes : List Change} {e : Entry} (he : e ∈ ofChanges changes)
    {c : Change} (hc : changes[e.position]? = some c) :
    e.path = Path.ofString c.key ∧ e.old = c.old ∧ e.new = c.new := by
  unfold ofChanges at he
  obtain ⟨⟨c', i⟩, hmem, rfl⟩ := List.mem_map.mp he
  rw [List.mem_zipIdx_iff_getElem?] at hmem
  dsimp only at hmem hc
  obtain rfl := Option.some.inj (hmem.symm.trans hc)
  exact ⟨rfl, rfl, rfl⟩

end Entry

namespace Script

open Reading

/-- The changes at a position that fields take, when all changes of an update are read. -/
def taken (s : Script σ) (draft : σ) (changes : List Change) (i : Nat) : List (Hit σ) :=
  (s.log draft changes).filter fun h => h.entry.position == i

/-- The problems that are reported when all changes of an update are read. -/
def problems (s : Script σ) (draft : σ) (changes : List Change) : List FieldError :=
  (s.read draft changes).2.map Fault.toFieldError

theorem length_taken (s : Script σ) (draft : σ) (changes : List Change) (i : Nat) :
    (s.taken draft changes i).length = takenAt i (s.log draft changes) :=
  List.countP_eq_length_filter.symm

/-- How often the problems name a position is how often the faults do. -/
theorem countP_problems (s : Script σ) (draft : σ) (changes : List Change) (i : Nat) :
    (s.problems draft changes).countP (fun e => e.Names i) =
      (s.read draft changes).2.countP fun f => f.position? == some i := by
  unfold problems
  rw [List.countP_map]
  refine List.countP_congr fun f _ => ?_
  rw [Function.comp_apply, decide_eq_true_eq, Fault.names_toFieldError, beq_iff_eq]

/-- A change that a field takes off the changes of an update is the change at its position, and its
    key spells the place of the field. -/
theorem change_of_mem_log {s : Script σ} {draft : σ} {changes : List Change} {h : Hit σ}
    (hh : h ∈ s.log draft changes) {c : Change} (hc : changes[h.entry.position]? = some c) :
    h.entry.old = c.old ∧ h.entry.new = c.new ∧ h.place.IsSpelled (Path.ofString c.key) := by
  obtain ⟨e, he, hposition, hold, hnew, b, hplace, hb⟩ := origin_of_mem_hits hh
  rw [hposition] at hc
  obtain ⟨hpath, hold', hnew'⟩ := Entry.eq_of_mem_ofChanges he hc
  rw [hpath] at hb
  rw [List.nil_append] at hplace
  exact ⟨hold.trans hold', hnew.trans hnew', hplace ▸ hb⟩

/-- A change that a field takes has a position in the update. -/
theorem position_lt_of_mem_log {s : Script σ} {draft : σ} {changes : List Change} {h : Hit σ}
    (hh : h ∈ s.log draft changes) : h.entry.position < changes.length := by
  obtain ⟨e, he, hposition, _⟩ := origin_of_mem_hits hh
  have hmem := List.mem_map_of_mem (f := Entry.position) he
  rw [Entry.position_ofChanges, List.mem_range] at hmem
  exact hposition ▸ hmem

/-- A change of an update is accepted or blamed, once in all. -/
theorem acceptedAt_add_problems {s : Script σ} (hs : s.Ends) (draft : σ) {changes : List Change}
    {i : Nat} (hi : i < changes.length) :
    acceptedAt i (s.log draft changes) +
      (s.problems draft changes).countP (fun e => e.Names i) = 1 := by
  have hrun := tally_run hs "" [] ⟨draft, Entry.ofChanges changes, []⟩ i
  rw [tally_of_rest_nil (rest_run_of_ends hs _ _), tally_eq, List.countP_nil,
    Entry.countP_position_ofChanges hi] at hrun
  rw [countP_problems, Nat.add_comm]
  exact hrun

/-- **What becomes of each change.** When a script that refuses what is left reads all changes of an
    update, then for each position exactly one of two things happens. Either one field takes the change
    and no other does, its old value is the one that the field holds at that moment, its new value
    decodes, passes the check and is what the field is set to, and no problem names the position; or
    exactly one problem names it. No change is taken twice. -/
theorem used_or_blamed {s : Script σ} (hs : s.Ends) (draft : σ) {changes : List Change} {i : Nat}
    {c : Change} (hc : changes[i]? = some c) :
    (s.taken draft changes i).length ≤ 1 ∧
    Xor (∃ h, s.taken draft changes i = [h] ∧ h.entry.old = c.old ∧ h.entry.new = c.new ∧
          h.place.IsSpelled (Path.ofString c.key) ∧ h.IsAccepted ∧
          ∀ e ∈ s.problems draft changes, ¬ e.Names i)
      ((s.problems draft changes).countP (fun e => e.Names i) = 1) := by
  obtain ⟨hi, _⟩ := List.getElem?_eq_some_iff.mp hc
  have htaken : takenAt i (s.log draft changes) ≤ 1 := by
    rw [← Entry.countP_position_ofChanges hi]
    exact takenAt_hits_le s "" [] _ i
  -- Of being accepted and being blamed one happens, and it happens once.
  have hsum := acceptedAt_add_problems hs draft hi
  have hle := acceptedAt_le_takenAt i (s.log draft changes)
  refine ⟨by rw [length_taken]; exact htaken, ?_⟩
  by_cases hblamed : (s.problems draft changes).countP (fun e => e.Names i) = 1
  · refine Or.inr ⟨hblamed, ?_⟩
    rintro ⟨_, _, _, _, _, _, hnone⟩
    rw [List.countP_eq_zero.mpr fun e he => by simpa using hnone e he] at hblamed
    exact absurd hblamed (by decide)
  · refine Or.inl ⟨?_, hblamed⟩
    have hnone : (s.problems draft changes).countP (fun e => e.Names i) = 0 := by omega
    have hone : (s.taken draft changes i).length = 1 := by
      rw [length_taken]
      omega
    obtain ⟨h, htake⟩ := List.length_eq_one_iff.mp hone
    have hmem : h ∈ s.taken draft changes i := htake ▸ List.mem_singleton_self h
    obtain ⟨hlog, hposition⟩ := List.mem_filter.mp hmem
    rw [beq_iff_eq] at hposition
    -- The one change that is accepted at this position is the one that is taken.
    have hacc : 0 < acceptedAt i (s.log draft changes) := by omega
    obtain ⟨h', hlog', hacc'⟩ := List.countP_pos_iff.mp hacc
    rw [Bool.and_eq_true] at hacc'
    have hsame : h' ∈ s.taken draft changes i := List.mem_filter.mpr ⟨hlog', hacc'.1⟩
    rw [htake, List.mem_singleton] at hsame
    subst hsame
    obtain ⟨hold, hnew, hspelled⟩ := change_of_mem_log hlog' (hposition ▸ hc)
    refine ⟨h', htake, hold, hnew, hspelled, (isFilled_of_mem_hits h' hlog').isAccepted hacc'.2, ?_⟩
    intro e he hnames
    exact (List.countP_eq_zero.mp hnone e he) (by simpa using hnames)

/-- Reads the names of people by index, from keys such as `/people/0/name`, into one draft. -/
def namesByIndex : Script String :=
  .under "/people" true
    (.each [] (fun i =>
      if i < 2 then .field "/name" (.text id fun v _ => v) .needs (.consumed .done)
      else .outOfRange .done) <|
    .consumed .done) <|
  .consumed .done

theorem ends_namesByIndex : namesByIndex.Ends := by
  refine ⟨⟨fun i => ?_, Or.inl rfl⟩, Or.inl rfl⟩
  dsimp only
  split
  · exact Or.inl rfl
  · exact Or.inl rfl

/-- Two spellings of one field: the first change at it is used, the second is what is left over. -/
theorem used_or_blamed_namesByIndex :
    let changes : List Change :=
      [⟨"/people/+0/name", .null, .str "Ann"⟩, ⟨"/people/0/name", .str "Ann", .str "Eve"⟩]
    namesByIndex.Ends ∧ (∃ h, namesByIndex.taken "" changes 0 = [h] ∧ h.IsAccepted) ∧
      (namesByIndex.problems "" changes).countP (fun e => e.Names 1) = 1 := by
  intro changes
  refine ⟨ends_namesByIndex, ?_, ?_⟩
  · have hc : changes[0]? = some ⟨"/people/+0/name", .null, .str "Ann"⟩ := rfl
    rcases (used_or_blamed ends_namesByIndex "" hc).2 with ⟨⟨h, htaken, _, _, _, hacc, _⟩, _⟩ | ⟨hblamed, _⟩
    · exact ⟨h, htaken, hacc⟩
    · exact absurd hblamed (by decide)
  · have hc : changes[1]? = some ⟨"/people/0/name", .str "Ann", .str "Eve"⟩ := rfl
    rcases (used_or_blamed ends_namesByIndex "" hc).2 with ⟨_, hfree⟩ | ⟨hblamed, _⟩
    · exact absurd (by decide) hfree
    · exact hblamed

end Script

end PowerOfAttorney
