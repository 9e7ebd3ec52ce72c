import PowerOfAttorney.Proofs.Script.Origin
import PowerOfAttorney.Proofs.Text.ByteOrder

/-!
# `PowerOfAttorney.Proofs.Script.Partition` — changes are parted by the segments of their keys

A script that reads changes by leading index or leading segment works on paths. Here it is said on the
texts of the keys what the groups are: which segments name an index, which change is in which group and
with what is left of its key, and which changes belong to no group. The groups are read one after the
other, each once.

## Contents
- **Keys.** `Path.Leads`, `Path.NamesIndex` and `Path.NamesKey`; `Path.Takes` ties a step on paths to the
  segments that it takes off a key.
- **Sieves.** `Leftover`, a change with the text of its key, and `Leftover.Sieved`, what becomes of a list.
- **Partitions.** `Leftover.IsPartition`, and `exists_isPartition` for any step.
- **Calls.** `Reading.Dealt`, what each call is given and what becomes of drafts and faults, and
  `Reading.exists_isPartition_scatter` for any step.
- **Scripts.** `Script.parts_by_segment`.
-/

namespace PowerOfAttorney

/-! ## Keys -/

namespace Path

/-- The key is a slash, a segment without slashes, and a rest that begins with the next slash. -/
def Leads (key segment rest : String) : Prop :=
  '/' ∉ segment.toList ∧ (∃ tail, rest = "/" ++ tail) ∧ key = "/" ++ segment ++ rest

/-- The segment is digits of ASCII after an optional plus sign, and they are the numeral of `i`, which fits 64
    bits. -/
def NamesIndex (segment : String) (i : Nat) : Prop :=
  ∃ digits : List Char, (segment.toList = digits ∨ segment.toList = '+' :: digits) ∧ digits ≠ [] ∧
    (∀ c ∈ digits, c.isDigit = true) ∧ Decimal.value digits = i ∧ i < 18446744073709551616

/-- The segment is the key itself, and not empty. -/
def NamesKey (segment key : String) : Prop :=
  segment ≠ "" ∧ segment = key

/-- A step takes the segments that name something off the keys that begin with them. -/
def Takes {α : Type} (step : Path → Option (α × Path)) (names : String → α → Prop) : Prop :=
  ∀ key a p, step (ofString key) = some (a, p) ↔
    ∃ segment rest, Leads key segment rest ∧ names segment a ∧ p = ofString rest

theorem ofString_append_slash {s : String} (h : '/' ∉ s.toList) (t : String) :
    ofString (s ++ "/" ++ t) = s :: ofString t := by
  have hchars : (s ++ "/" ++ t).toList = s.toList ++ '/' :: t.toList := by simp
  unfold ofString
  rw [hchars, List.splitOn_append_cons_self_of_not_mem h, List.map_cons, String.ofList_toList]

/-- A path from the root begins with an empty segment. -/
theorem ofString_slash (t : String) : ofString ("/" ++ t) = "" :: ofString t :=
  ofString_append_slash (s := "") (by decide) t

theorem step?_of_leads {key segment rest : String} (h : Leads key segment rest) :
    step? (ofString key) = some (segment, ofString rest) := by
  obtain ⟨hsegment, ⟨tail, rfl⟩, rfl⟩ := h
  have hkey : ofString ("/" ++ segment ++ ("/" ++ tail)) = "" :: segment :: ofString tail := by
    rw [String.append_assoc, ofString_slash, ← String.append_assoc, ofString_append_slash hsegment]
  obtain ⟨t, path, htail⟩ := List.exists_cons_of_ne_nil (ofString_ne_nil tail)
  rw [hkey, ofString_slash, htail]
  rfl

/-- A path that takes a step is that of a key with two slashes, the first at its beginning. -/
theorem exists_leads_of_step? {key : String} {x : String × Path} (h : step? (ofString key) = some x) :
    ∃ segment rest, Leads key segment rest := by
  obtain ⟨xs, ys, hkey⟩ : ∃ xs ys, key.toList = '/' :: (xs ++ '/' :: ys) := by
    have hjoin : ['/'].intercalate (key.toList.splitOn '/') = key.toList := List.intercalate_splitOn '/'
    unfold step? at h
    split at h
    · rename_i hpath
      obtain ⟨empty, l, hsplit, hempty, hl⟩ := List.map_eq_cons_iff.mp hpath
      obtain ⟨xs, l', rfl, _, hl'⟩ := List.map_eq_cons_iff.mp hl
      obtain ⟨ys, l'', rfl, _⟩ := List.map_eq_cons_iff.mp hl'
      obtain rfl : empty = [] := String.ofList_injective hempty
      refine ⟨xs, ['/'].intercalate (ys :: l''), ?_⟩
      rw [← hjoin, hsplit]
      simp [List.intercalate]
    · exact absurd h nofun
  -- The segment ends at the first slash after the one that the key begins with.
  obtain ⟨segment, tail, hcut, hsegment⟩ :=
    List.eq_append_cons_of_mem (List.mem_append_right xs (List.mem_cons_self (a := '/') (l := ys)))
  refine ⟨String.ofList segment, "/" ++ String.ofList tail, by simpa using hsegment, ⟨_, rfl⟩, ?_⟩
  refine String.toList_injective ?_
  rw [hkey, hcut]
  simp

/-- **A path takes a step just as the text of its key is cut.** -/
theorem step?_ofString_iff {key segment : String} {p : Path} :
    step? (ofString key) = some (segment, p) ↔ ∃ rest, Leads key segment rest ∧ p = ofString rest := by
  constructor
  · intro h
    obtain ⟨segment', rest, hleads⟩ := exists_leads_of_step? h
    obtain ⟨rfl, rfl⟩ := Prod.mk.inj (Option.some.inj ((step?_of_leads hleads).symm.trans h))
    exact ⟨rest, hleads, rfl⟩
  · rintro ⟨rest, hleads, rfl⟩
    exact step?_of_leads hleads

/-- **A segment is read as the index that it names.** -/
theorem index?_eq_some_iff {segment : String} {i : Nat} : index? segment = some i ↔ NamesIndex segment i := by
  have hread : ∀ digits : List Char,
      (if digits.isEmpty ∨ !digits.all Char.isDigit ∨ 18446744073709551615 < Decimal.value digits then none
        else some (Decimal.value digits)) = some i ↔
      digits ≠ [] ∧ (∀ c ∈ digits, c.isDigit = true) ∧ Decimal.value digits = i ∧
        i < 18446744073709551616 := by
    intro digits
    rw [Option.ite_none_left_eq_some, Option.some.injEq]
    simp only [not_or, Bool.not_eq_true, Bool.not_eq_false', List.isEmpty_eq_false_iff, List.all_eq_true,
      Nat.not_lt]
    constructor
    · rintro ⟨⟨hne, hdigits, hfits⟩, rfl⟩
      exact ⟨hne, hdigits, rfl, by omega⟩
    · rintro ⟨hne, hdigits, rfl, hfits⟩
      exact ⟨⟨hne, hdigits, by omega⟩, rfl⟩
  unfold index? NamesIndex
  dsimp only
  split
  · rename_i cs hplus
    rw [hread]
    constructor
    · intro h
      exact ⟨cs, .inr hplus, h⟩
    · rintro ⟨digits, hspelled, h⟩
      rcases hspelled with hspelled | hspelled
      · -- A plus sign is no digit.
        have hdigit := h.2.1 '+' (hspelled ▸ hplus ▸ List.mem_cons_self)
        exact absurd hdigit (by decide)
      · rw [hplus, List.cons.injEq] at hspelled
        exact hspelled.2 ▸ h
  · rename_i hplus
    rw [hread]
    constructor
    · intro h
      exact ⟨segment.toList, .inl rfl, h⟩
    · rintro ⟨digits, hspelled, h⟩
      exact hspelled.elim (fun hdigits => hdigits ▸ h) fun hsign => absurd hsign (hplus digits)

/-- The bound on an index is exact, and a sign alone is no index. -/
example : index? "+007" = some 7 ∧ index? "18446744073709551615" = some 18446744073709551615 ∧
    index? "18446744073709551616" = none ∧ index? "+" = none := by
  decide

theorem takes_indexStep? : Takes indexStep? NamesIndex := by
  intro key i p
  unfold indexStep?
  constructor
  · intro h
    obtain ⟨⟨segment, rest⟩, hstep, h⟩ := Option.bind_eq_some_iff.mp h
    obtain ⟨j, hj, h⟩ := Option.bind_eq_some_iff.mp h
    obtain ⟨rfl, rfl⟩ := Prod.mk.inj (Option.some.inj h)
    obtain ⟨rest', hleads, hrest⟩ := step?_ofString_iff.mp hstep
    exact ⟨segment, rest', hleads, index?_eq_some_iff.mp hj, hrest⟩
  · rintro ⟨segment, rest, hleads, hnames, rfl⟩
    rw [step?_of_leads hleads]
    show (index? segment).bind _ = _
    rw [index?_eq_some_iff.mpr hnames]
    rfl

theorem takes_keyStep? : Takes keyStep? NamesKey := by
  intro key k p
  unfold keyStep?
  constructor
  · intro h
    obtain ⟨⟨segment, rest⟩, hstep, h⟩ := Option.bind_eq_some_iff.mp h
    obtain ⟨hne, h⟩ := Option.ite_none_left_eq_some.mp h
    obtain ⟨rfl, rfl⟩ := Prod.mk.inj (Option.some.inj h)
    obtain ⟨rest', hleads, hrest⟩ := step?_ofString_iff.mp hstep
    exact ⟨segment, rest', hleads, ⟨fun hs => hne (String.isEmpty_iff.mpr hs), rfl⟩, hrest⟩
  · rintro ⟨segment, rest, hleads, ⟨hne, rfl⟩, rfl⟩
    rw [step?_of_leads hleads]
    show (if segment.isEmpty = true then none else some (segment, ofString rest)) = _
    exact if_neg fun hs => hne (String.isEmpty_iff.mp hs)

end Path

/-! ## Sieves -/

/-- A change while it is looked for, with the text of what is left of its key. -/
structure Leftover where
  key : String
  old : Json
  new : Json
  position : Nat

namespace Leftover

/-- The change as scripts read it. -/
def entry (c : Leftover) : Entry :=
  ⟨Path.ofString c.key, c.old, c.new, c.position⟩

variable {α : Type} {names : String → α → Prop}

/-- The change is one of the group of `a`, where it goes without its leading segment. -/
def Below (names : String → α → Prop) (a : α) (c c' : Leftover) : Prop :=
  ∃ segment rest, Path.Leads c.key segment rest ∧ names segment a ∧ c' = { c with key := rest }

/-- The change is one of no group, and is kept as it is. -/
def Stray (names : String → α → Prop) (c c' : Leftover) : Prop :=
  (∀ a c'', ¬ c.Below names a c'') ∧ c' = c

/-- What becomes of a list of changes, one after the other: a change goes on as what it is turned into, or is
    left out if it is turned into nothing. -/
inductive Sieved (turns : Leftover → Leftover → Prop) : List Leftover → List Leftover → Prop
  | nil : Sieved turns [] []
  | keep {c c' : Leftover} {cs cs' : List Leftover} (h : turns c c') (rest : Sieved turns cs cs') :
      Sieved turns (c :: cs) (c' :: cs')
  | drop {c : Leftover} {cs cs' : List Leftover} (h : ∀ c', ¬ turns c c') (rest : Sieved turns cs cs') :
      Sieved turns (c :: cs) cs'

/-- A function on entries that does what a relation on changes says sieves a list as the relation does. -/
theorem exists_sieved {turns : Leftover → Leftover → Prop} {f : Entry → Option Entry}
    (hf : ∀ c e, f c.entry = some e ↔ ∃ c', turns c c' ∧ c'.entry = e) (cs : List Leftover) :
    ∃ cs', Sieved turns cs cs' ∧ (cs.map entry).filterMap f = cs'.map entry := by
  induction cs with
  | nil => exact ⟨[], .nil, rfl⟩
  | cons c cs ih =>
      obtain ⟨cs', hsieved, hmap⟩ := ih
      rw [List.map_cons]
      cases hc : f c.entry with
      | none =>
          refine ⟨cs', .drop (fun c' hturns => ?_) hsieved, ?_⟩
          · have hsome := (hf c c'.entry).mpr ⟨c', hturns, rfl⟩
            rw [hc] at hsome
            exact absurd hsome nofun
          · rw [List.filterMap_cons_none hc, hmap]
      | some e =>
          obtain ⟨c', hturns, rfl⟩ := (hf c e).mp hc
          refine ⟨c' :: cs', .keep hturns hsieved, ?_⟩
          rw [List.filterMap_cons_some hc, hmap, List.map_cons]

/-! ## Partitions -/

/-- The groups and the strays of a list of changes: which groups there are and in what order, which
    changes each of them holds, and which changes are in none. -/
structure IsPartition (lt : α → α → Prop) (names : String → α → Prop) (always : List α)
    (changes : List Leftover) (groups : List (α × List Leftover)) (strays : List Leftover) : Prop where
  /-- No group comes twice, and they come in order. -/
  ascending : (groups.map Prod.fst).Pairwise lt
  /-- There is a group for what is demanded or named. -/
  visited : ∀ a, a ∈ groups.map Prod.fst ↔ a ∈ always ∨ ∃ c ∈ changes, ∃ c', c.Below names a c'
  /-- A group holds the changes that name it, in their order. -/
  gathered : ∀ g ∈ groups, Sieved (Below names g.1) changes g.2
  /-- The strays are the changes that name nothing, in their order. -/
  astray : Sieved (Stray names) changes strays
  /-- Every change is in one group or a stray, and in nothing else. -/
  complete : ((groups.flatMap Prod.snd ++ strays).map position).Perm (changes.map position)

variable {step : Path → Option (α × Path)}

/-- A change goes along a step as it goes into a group. -/
theorem along_entry_eq_some_iff (hstep : Path.Takes step names) {a : α} {c : Leftover} {e : Entry} :
    Entry.along step c.entry = some (a, e) ↔ ∃ c', c.Below names a c' ∧ c'.entry = e := by
  unfold Entry.along
  rw [Option.map_eq_some_iff]
  constructor
  · rintro ⟨⟨b, p⟩, htaken, hpair⟩
    obtain ⟨rfl, rfl⟩ := Prod.mk.inj hpair
    obtain ⟨segment, rest, hleads, hnames, rfl⟩ := (hstep c.key b p).mp htaken
    exact ⟨{ c with key := rest }, ⟨segment, rest, hleads, hnames, rfl⟩, rfl⟩
  · rintro ⟨c', ⟨segment, rest, hleads, hnames, rfl⟩, rfl⟩
    exact ⟨(a, Path.ofString rest), (hstep c.key a _).mpr ⟨segment, rest, hleads, hnames, rfl⟩, rfl⟩

/-- A change takes no step if it goes into no group. -/
theorem isNone_step_iff (hstep : Path.Takes step names) {c : Leftover} :
    (step c.entry.path).isNone = true ↔ ∀ a c', ¬ c.Below names a c' := by
  rw [Option.isNone_iff_eq_none, Option.eq_none_iff_forall_ne_some]
  constructor
  · rintro hnone a c' ⟨segment, rest, hleads, hnames, -⟩
    exact hnone _ ((hstep c.key a _).mpr ⟨segment, rest, hleads, hnames, rfl⟩)
  · rintro hnone ⟨a, p⟩ htaken
    obtain ⟨segment, rest, hleads, hnames, -⟩ := (hstep c.key a p).mp htaken
    exact hnone a _ ⟨segment, rest, hleads, hnames, rfl⟩

/-- The strays among the entries, sieved from the changes. -/
theorem exists_strays (hstep : Path.Takes step names) (changes : List Leftover) :
    ∃ strays, Sieved (Stray names) changes strays ∧
      Entry.strays step (changes.map entry) = strays.map entry := by
  unfold Entry.strays
  rw [← List.filterMap_eq_filter]
  refine exists_sieved (fun c e => ?_) changes
  rw [Option.guard_eq_some_iff, isNone_step_iff hstep]
  constructor
  · rintro ⟨rfl, hstray⟩
    exact ⟨c, ⟨hstray, rfl⟩, rfl⟩
  · rintro ⟨c', ⟨hstray, rfl⟩, rfl⟩
    exact ⟨rfl, hstray⟩

variable [BEq α] [LawfulBEq α] {before : α → α → Bool}

/-- The group of `a` among the entries, sieved from the changes. -/
theorem exists_group (hstep : Path.Takes step names) (changes : List Leftover) (a : α) :
    ∃ g, Sieved (Below names a) changes g ∧
      (((changes.map entry).filterMap (Entry.along step)).filterMap fun x =>
        if x.1 == a then some x.2 else none) = g.map entry := by
  rw [List.filterMap_filterMap]
  refine exists_sieved (fun c e => ?_) changes
  rw [← along_entry_eq_some_iff hstep, Option.bind_eq_some_iff]
  constructor
  · rintro ⟨⟨b, e'⟩, halong, hpick⟩
    obtain ⟨hba, he⟩ := Option.ite_none_right_eq_some.mp hpick
    obtain rfl : b = a := beq_iff_eq.mp hba
    obtain rfl : e' = e := Option.some.inj he
    exact halong
  · intro halong
    exact ⟨(a, e), halong, if_pos (beq_self_eq_true a)⟩

/-- Grouping of entries parts the changes that they are. -/
theorem exists_isPartition {lt : α → α → Prop} (hstep : Path.Takes step names) (hbefore : StrictOrder before)
    (hlt : ∀ a b, before a b = true → lt a b) (always : List α) (changes : List Leftover) :
    ∃ groups strays, IsPartition lt names always changes groups strays ∧
      Entry.groups before step always (changes.map entry) = groups.map (fun g => (g.1, g.2.map entry)) ∧
      Entry.strays step (changes.map entry) = strays.map entry := by
  let taken := (changes.map entry).filterMap (Entry.along step)
  let keys := Entry.sortOnce before (always ++ taken.map Prod.fst)
  choose group hsieved hgroup using exists_group hstep changes
  obtain ⟨strays, hstrays, hmap⟩ := exists_strays hstep changes
  have hgroups : Entry.groups before step always (changes.map entry) =
      (keys.map fun a => (a, group a)).map (fun g => (g.1, g.2.map entry)) := by
    rw [List.map_map]
    exact List.map_congr_left fun a _ => Prod.ext rfl (hgroup a)
  have hkeys : (keys.map fun a => (a, group a)).map Prod.fst = keys := by
    rw [List.map_map]
    exact List.map_id keys
  refine ⟨keys.map fun a => (a, group a), strays, ⟨?_, ?_, ?_, hstrays, ?_⟩, hgroups, hmap⟩
  · rw [hkeys]
    exact (Entry.pairwise_sortOnce hbefore _).imp fun {a b} => hlt a b
  · intro a
    rw [hkeys, Entry.mem_sortOnce, List.mem_append, List.mem_map]
    refine or_congr_right ?_
    constructor
    · rintro ⟨⟨b, e⟩, htaken, rfl⟩
      obtain ⟨_, hentry, halong⟩ := List.mem_filterMap.mp htaken
      obtain ⟨c, hc, rfl⟩ := List.mem_map.mp hentry
      obtain ⟨c', hbelow, -⟩ := (along_entry_eq_some_iff hstep).mp halong
      exact ⟨c, hc, c', hbelow⟩
    · rintro ⟨c, hc, c', hbelow⟩
      have halong := (along_entry_eq_some_iff hstep).mpr ⟨c', hbelow, rfl⟩
      exact ⟨(a, c'.entry), List.mem_filterMap.mpr ⟨c.entry, List.mem_map_of_mem hc, halong⟩, rfl⟩
  · intro g hg
    obtain ⟨a, _, rfl⟩ := List.mem_map.mp hg
    exact hsieved a
  · refine List.perm_iff_count.mpr fun i => ?_
    have hcount := Entry.countP_groups step always (changes.map entry) hbefore (· == i)
    have hmapped : ∀ cs : List Leftover,
        (cs.map entry).countP (fun e => e.position == i) = (cs.map position).count i := by
      intro cs
      rw [List.countP_map, List.count_eq_countP, List.countP_map]
      rfl
    rw [hgroups, hmap] at hcount
    simp only [List.map_map, Function.comp_def, hmapped] at hcount
    rw [List.map_append, List.count_append, List.map_flatMap, List.count_flatMap, List.map_map]
    exact hcount

end Leftover

/-! ## Calls -/

namespace Reading

/-- One call of what reads a group: whose group it is, the reading that is given, and the one that comes
    back. -/
structure Call (α σ : Type) where
  label : α
  given : Reading σ
  back : Reading σ

variable {σ α : Type}

/-- The groups and the strays of a reading have been dealt with by calls, and `x` is what has come of it. -/
structure Dealt (r : Reading σ) (inner : α → Reading σ → Reading σ) (groups : List (α × List Leftover))
    (strays : List Leftover) (calls : List (Call α σ)) (x : Reading σ) : Prop where
  /-- There is one call for each group, in their order, and it is given the changes of the group. -/
  given : calls.map (fun c => (c.label, c.given.rest)) = groups.map fun g => (g.1, g.2.map Leftover.entry)
  /-- No call is given faults. -/
  clean : ∀ c ∈ calls, c.given.faults = []
  /-- What comes back is what is made of what was given. -/
  back : ∀ c ∈ calls, c.back = inner c.label c.given
  /-- The first call is given the draft that there was, each other one the draft that came back from the one
      before it, and the last draft is the one that stays. -/
  drafts : calls.map (·.given.draft) ++ [x.draft] = r.draft :: calls.map (·.back.draft)
  /-- To the faults that there were comes one for each stray, and then those that came back from each call. -/
  faults : x.faults =
    r.faults ++ strays.map (fun c => .noEntry c.position) ++ calls.flatMap (·.back.faults)
  /-- No change is left. -/
  rest : x.rest = []

variable {inner : α → Reading σ → Reading σ} {r x : Reading σ} {groups : List (α × List Leftover)}
  {strays : List Leftover} {calls : List (Call α σ)}

/-- Where there are no groups, there are no calls. -/
theorem dealt_nil_iff (hrest : r.rest = []) : r.Dealt inner [] [] calls x ↔ calls = [] ∧ x = r := by
  constructor
  · intro h
    obtain rfl : calls = [] := List.map_eq_nil_iff.mp h.given
    obtain ⟨draft, rest, faults⟩ := x
    obtain rfl : draft = r.draft := List.head_eq_of_cons_eq h.drafts
    obtain rfl : rest = [] := h.rest
    obtain rfl : faults = r.faults := by simpa using h.faults
    exact ⟨rfl, by rw [← hrest]⟩
  · rintro ⟨rfl, rfl⟩
    exact ⟨rfl, nofun, nofun, rfl, by simp, hrest⟩

/-- The first group is dealt with by the first call, on its own, and the others go on after it. -/
theorem dealt_cons_iff {a : α} {cs : List Leftover} :
    r.Dealt inner ((a, cs) :: groups) [] calls x ↔
      ∃ later,
        calls = ⟨a, r.onto (cs.map Leftover.entry), inner a (r.onto (cs.map Leftover.entry))⟩ :: later ∧
        (r.after (inner a (r.onto (cs.map Leftover.entry))) []).Dealt inner groups [] later x := by
  constructor
  · intro h
    obtain ⟨c, later, rfl, hfirst, hgiven⟩ := List.map_eq_cons_iff.mp h.given
    obtain ⟨hlabel, hchanges⟩ := Prod.mk.inj hfirst
    obtain ⟨hdraft, hdrafts⟩ := List.cons.inj h.drafts
    have hclean := h.clean c List.mem_cons_self
    have hback := h.back c List.mem_cons_self
    obtain ⟨label, ⟨draft, rest, faults⟩, back⟩ := c
    dsimp only at hlabel hchanges hdraft hclean hback
    subst hlabel hchanges hdraft hclean hback
    refine ⟨later, rfl, hgiven, fun c hc => h.clean c (List.mem_cons_of_mem _ hc),
      fun c hc => h.back c (List.mem_cons_of_mem _ hc), hdrafts, ?_, h.rest⟩
    simpa [after, onto] using h.faults
  · rintro ⟨later, rfl, h⟩
    refine ⟨?_, ?_, ?_, ?_, ?_, h.rest⟩
    · exact congrArg ((a, cs.map Leftover.entry) :: ·) h.given
    · exact List.forall_mem_cons.mpr ⟨rfl, h.clean⟩
    · exact List.forall_mem_cons.mpr ⟨rfl, h.back⟩
    · exact congrArg (r.draft :: ·) h.drafts
    · simpa [after] using h.faults

/-- Strays are refused before the first call. -/
theorem dealt_strays_iff :
    r.Dealt inner groups strays calls x ↔
      (⟨r.draft, [], r.faults ++ strays.map fun c => .noEntry c.position⟩ : Reading σ).Dealt inner groups []
        calls x := by
  constructor
  · intro h
    exact ⟨h.given, h.clean, h.back, h.drafts, by simpa using h.faults, h.rest⟩
  · intro h
    exact ⟨h.given, h.clean, h.back, h.drafts, by simpa using h.faults, h.rest⟩

/-- Groups that are read one after the other come to what calls make of them, and all calls that deal with
    them make the same. -/
theorem readGroups_eq_iff (hrest : r.rest = []) :
    r.readGroups inner (groups.map fun g => (g.1, g.2.map Leftover.entry)) = x ↔
      ∃ calls, r.Dealt inner groups [] calls x := by
  induction groups generalizing r with
  | nil =>
      show r = x ↔ _
      simp only [dealt_nil_iff hrest, exists_eq_left, eq_comm]
  | cons g groups ih =>
      rw [List.map_cons, readGroups, ih rfl]
      constructor
      · rintro ⟨later, h⟩
        exact ⟨_, dealt_cons_iff.mpr ⟨later, rfl, h⟩⟩
      · rintro ⟨calls, h⟩
        obtain ⟨later, _, h⟩ := dealt_cons_iff.mp h
        exact ⟨later, h⟩

/-- **Scattered changes are dealt with by calls**, as their entries are grouped. -/
theorem scatter_eq_iff [BEq α] {before : α → α → Bool} {step : Path → Option (α × Path)} {always : List α}
    {changes : List Leftover} (hrest : r.rest = changes.map Leftover.entry)
    (hgroups : Entry.groups before step always (changes.map Leftover.entry) =
      groups.map fun g => (g.1, g.2.map Leftover.entry))
    (hstrays : Entry.strays step (changes.map Leftover.entry) = strays.map Leftover.entry) :
    r.scatter before step always inner = x ↔ ∃ calls, r.Dealt inner groups strays calls x := by
  have hswept : r.swept step =
      ⟨r.draft, [], r.faults ++ strays.map fun c => .noEntry c.position⟩ := by
    rw [swept, hrest, hstrays, List.map_map]
    rfl
  rw [scatter_eq_readGroups, hrest, hgroups, hswept, readGroups_eq_iff rfl]
  exact exists_congr fun calls => dealt_strays_iff.symm

/-- **Whatever the step, changes that are scattered are parted**, and the parts are dealt with. -/
theorem exists_isPartition_scatter [BEq α] [LawfulBEq α] {before : α → α → Bool} {lt : α → α → Prop}
    {step : Path → Option (α × Path)} {names : String → α → Prop} (hstep : Path.Takes step names)
    (hbefore : StrictOrder before) (hlt : ∀ a b, before a b = true → lt a b) (always : List α)
    (changes : List Leftover) :
    ∃ groups strays, Leftover.IsPartition lt names always changes groups strays ∧
      ∀ {σ : Type} (r : Reading σ), r.rest = changes.map Leftover.entry →
        ∀ inner x, r.scatter before step always inner = x ↔
          ∃ calls, r.Dealt inner groups strays calls x := by
  obtain ⟨groups, strays, hpartition, hgroups, hstrays⟩ :=
    Leftover.exists_isPartition hstep hbefore hlt always changes
  exact ⟨groups, strays, hpartition, fun r hrest inner x => scatter_eq_iff hrest hgroups hstrays⟩

end Reading

/-! ## Scripts -/

namespace Script

/-- **Reading by index or by segment parts the changes that are left by the first segments of their keys.**
    Whatever is done with a group, it is called for each group once, in ascending order, and given the changes
    of the group, without faults and with the draft that the group before left. A stray is one fault, and it
    stays when the groups are read, as do the faults of each group. Nothing else comes of it. -/
theorem parts_by_segment (changes : List Leftover) :
    (∀ always : List Nat, ∃ groups strays,
      Leftover.IsPartition (· < ·) Path.NamesIndex always changes groups strays ∧
        ∀ {σ : Type} (r : Reading σ), r.rest = changes.map Leftover.entry →
          (∀ inner x, r.scatter (fun i j => decide (i < j)) Path.indexStep? always inner = x ↔
            ∃ calls, r.Dealt inner groups strays calls x) ∧
          ∀ root inner next, ∃ calls x,
            r.Dealt (fun i r => run (entryRoot root i) (inner i) r) groups strays calls x ∧
              run root (.each always inner next) r = run root next x) ∧
      (∃ groups strays,
        Leftover.IsPartition (fun k l => Bytes.ofString k < Bytes.ofString l) Path.NamesKey [] changes
            groups strays ∧
          ∀ {σ : Type} (r : Reading σ), r.rest = changes.map Leftover.entry →
            (∀ inner x, r.scatter (fun k l => decide (k < l)) Path.keyStep? [] inner = x ↔
              ∃ calls, r.Dealt inner groups strays calls x) ∧
            ∀ root inner next, ∃ calls x,
              r.Dealt (fun k r => run (keyRoot root k) (inner k) r) groups strays calls x ∧
                run root (.eachKey inner next) r = run root next x) ∧
      ∀ i, (Fault.noEntry i).toFieldError = ⟨Fault.sourceOf i "/key", "require index"⟩ := by
  refine ⟨fun always => ?_, ?_, fun _ => rfl⟩
  · obtain ⟨groups, strays, hpartition, hscatter⟩ :=
      Reading.exists_isPartition_scatter Path.takes_indexStep? strictOrder_nat
        (fun _ _ => of_decide_eq_true) always changes
    refine ⟨groups, strays, hpartition, fun r hrest => ⟨hscatter r hrest, fun root inner next => ?_⟩⟩
    obtain ⟨calls, hdealt⟩ := (hscatter r hrest _ _).mp rfl
    exact ⟨calls, _, hdealt, run_each root always inner next r⟩
  · have hbytes : ∀ k l : String, decide (k < l) = true → Bytes.ofString k < Bytes.ofString l :=
      fun _ _ h => Bytes.ofString_lt_iff.mpr (of_decide_eq_true h)
    obtain ⟨groups, strays, hpartition, hscatter⟩ :=
      Reading.exists_isPartition_scatter Path.takes_keyStep? strictOrder_string hbytes [] changes
    refine ⟨groups, strays, hpartition, fun r hrest => ⟨hscatter r hrest, fun root inner next => ?_⟩⟩
    obtain ⟨calls, hdealt⟩ := (hscatter r hrest _ _).mp rfl
    exact ⟨calls, _, hdealt, run_eachKey root inner next r⟩

end Script

end PowerOfAttorney
