import PowerOfAttorney.Proofs.Script.Hits

/-!
# `PowerOfAttorney.Proofs.Script.Origin` — where the changes that fields take come from

Keys are cut as scripts go down: what an inner script sees of a key is what is left of it. Here the
pieces are put together again. A change that a field takes is one of those that were left before, its
whole key spells the place of the field.

## Contents
- **Cutting keys.** `body_below?`, `body_indexStep?`, `body_keyStep?`: what a step takes off a key.
- **Entries that are left.** `rest_field` and its like: no step adds an entry.
- **Origin.** `origin_of_mem_hits`, by induction over the script.
-/

namespace PowerOfAttorney

variable {σ : Type}

/-! ## Cutting keys -/

namespace Path

theorem ofString_ne_nil (s : String) : ofString s ≠ [] := by
  unfold ofString
  intro h
  exact List.splitOn_ne_nil '/' s.toList (List.map_eq_nil_iff.mp h)

/-- What is below a key goes on where the key ends. -/
theorem eq_append_of_below? {top path rest : Path} (h : below? top path = some rest) :
    ∃ tail, rest = "" :: tail ∧ path = top ++ tail := by
  induction top generalizing path with
  | nil =>
      cases path with
      | nil => exact absurd h (by simp [below?])
      | cons t path =>
          unfold below? at h
          rw [Option.some.injEq] at h
          exact ⟨t :: path, h.symm, rfl⟩
  | cons s top ih =>
      cases path with
      | nil => exact absurd h (by simp [below?])
      | cons t path =>
          unfold below? at h
          split at h
          · rename_i hst
            subst hst
            obtain ⟨tail, hrest, hpath⟩ := ih h
            exact ⟨tail, hrest, by rw [hpath, List.cons_append]⟩
          · exact absurd h (by simp)

/-- The segments of a key are those of its beginning and those of what is below that. -/
theorem body_below? {top path rest : Path} (htop : top ≠ []) (h : below? top path = some rest) :
    path.body = top.body ++ rest.body := by
  obtain ⟨tail, rfl, rfl⟩ := eq_append_of_below? h
  cases top with
  | nil => exact absurd rfl htop
  | cons s top =>
      -- Only a leading empty segment is dropped, and it is the same in both.
      by_cases hs : s = ""
      · subst hs
        rfl
      · have hbody : ∀ rest, Path.body (s :: rest) = s :: rest := by
          intro rest
          unfold body
          split
          · rename_i heq
            exact absurd (List.cons.inj heq).1 hs
          · rfl
        rw [List.cons_append, hbody, hbody]
        rfl

/-- A leading segment is the first one of the key. -/
theorem body_step? {path rest : Path} {segment : String} (h : path.step? = some (segment, rest)) :
    path.body = segment :: rest.body := by
  unfold step? at h
  split at h
  · obtain ⟨rfl, rfl⟩ := Prod.mk.inj (Option.some.inj h)
    rfl
  · exact absurd h (by simp)

theorem body_indexStep? {path rest : Path} {i : Nat} (h : path.indexStep? = some (i, rest)) :
    ∃ segment, index? segment = some i ∧ path.body = segment :: rest.body := by
  unfold indexStep? at h
  obtain ⟨⟨segment, rest'⟩, hstep, h⟩ := Option.bind_eq_some_iff.mp h
  obtain ⟨j, hj, h⟩ := Option.bind_eq_some_iff.mp h
  obtain ⟨rfl, rfl⟩ := Prod.mk.inj (Option.some.inj h)
  exact ⟨segment, hj, body_step? hstep⟩

theorem body_keyStep? {path rest : Path} {k : String} (h : path.keyStep? = some (k, rest)) :
    path.body = k :: rest.body := by
  unfold keyStep? at h
  obtain ⟨⟨segment, rest'⟩, hstep, h⟩ := Option.bind_eq_some_iff.mp h
  dsimp only at h
  split at h
  · exact absurd h (by simp)
  · obtain ⟨rfl, rfl⟩ := Prod.mk.inj (Option.some.inj h)
    exact body_step? hstep

end Path

namespace Place

/-- A key without indexes spells its own place. -/
theorem isSpelled_ofKey (key : String) : (ofKey key).IsSpelled (Path.ofString key) := by
  unfold IsSpelled ofKey
  induction (Path.ofString key).body with
  | nil => exact List.Forall₂.nil
  | cons s path ih => exact List.Forall₂.cons rfl ih

/-- A place below a key is spelled by the key and what is below it. -/
theorem IsSpelled.of_below? {key : String} {path rest : Path} {b : Place}
    (h : Path.below? (Path.ofString key) path = some rest) (hb : b.IsSpelled rest) :
    (ofKey key ++ b).IsSpelled path := by
  unfold IsSpelled at hb ⊢
  rw [Path.body_below? (Path.ofString_ne_nil key) h]
  exact List.rel_append (isSpelled_ofKey key) hb

theorem IsSpelled.of_indexStep? {path rest : Path} {i : Nat} {b : Place}
    (h : path.indexStep? = some (i, rest)) (hb : b.IsSpelled rest) :
    Place.IsSpelled (.index i :: b) path := by
  obtain ⟨segment, hsegment, hbody⟩ := Path.body_indexStep? h
  unfold IsSpelled at hb ⊢
  rw [hbody]
  exact List.Forall₂.cons hsegment hb

theorem IsSpelled.of_keyStep? {path rest : Path} {k : String} {b : Place}
    (h : path.keyStep? = some (k, rest)) (hb : b.IsSpelled rest) :
    Place.IsSpelled (.name k :: b) path := by
  unfold IsSpelled at hb ⊢
  rw [Path.body_keyStep? h]
  exact List.Forall₂.cons rfl hb

end Place

/-! ## Entries that are left -/

namespace Reading

variable {r : Reading σ}

theorem rest_fill (slot : Slot σ) (check : Option Check) (e : Entry) :
    (r.fill slot check e).rest = r.rest := by
  unfold fill blame
  split
  · split <;> rfl
  · rfl

/-- A field leaves the entries that were there, but for the one it takes. -/
theorem rest_field (root key : String) (slot : Slot σ) (rule : Rule) :
    (r.field root key slot rule).rest =
      r.rest.eraseP fun e => e.path == Path.ofString key := by
  cases hfind : r.rest.find? fun e => e.path == Path.ofString key with
  | none =>
      rw [field_of_find?_none hfind, List.eraseP_of_forall_not]
      · rfl
      · intro e he
        exact List.find?_eq_none.mp hfind e he
  | some e => rw [field_of_find?_some hfind, rest_fill]

theorem rest_descend (root key : String) (needed : Bool) (inner : Reading σ → Reading σ) :
    (r.descend root key needed inner).rest = r.outside key := by
  by_cases hin : r.inside key = []
  · rw [descend_of_inside_nil hin]
    unfold outside
    refine (List.filter_eq_self.mpr fun e he => ?_).symm
    have hnone := List.filterMap_eq_nil_iff.mp hin e he
    rw [Option.map_eq_none_iff] at hnone
    rw [hnone, Option.isNone_none]
  · rw [descend_of_inside_ne_nil hin]
    rfl

/-- An entry below a key is an entry of the reading with what is left of its key. -/
theorem mem_inside {key : String} {e : Entry} (h : e ∈ r.inside key) :
    ∃ e' ∈ r.rest, ∃ rest, Path.below? (Path.ofString key) e'.path = some rest ∧
      e = { e' with path := rest } := by
  unfold inside at h
  obtain ⟨e', he', hmap⟩ := List.mem_filterMap.mp h
  obtain ⟨rest, hrest, rfl⟩ := Option.map_eq_some_iff.mp hmap
  exact ⟨e', he', rest, hrest, rfl⟩

/-- A change of the log of the groups is one of the log of a group. -/
theorem mem_gather {α : Type} {inner : α → Reading σ → Reading σ}
    {log : α → Reading σ → List (Hit σ)} {groups : List (α × List Entry)} {h : Hit σ}
    (hh : h ∈ r.gather inner log groups) :
    ∃ a es, (a, es) ∈ groups ∧ ∃ r' : Reading σ, h ∈ log a (r'.onto es) := by
  induction groups generalizing r with
  | nil => exact absurd hh List.not_mem_nil
  | cons g groups ih =>
      obtain ⟨a, es⟩ := g
      unfold gather at hh
      rcases List.mem_append.mp hh with hh | hh
      · exact ⟨a, es, List.mem_cons_self, r, hh⟩
      · obtain ⟨b, es', hmem, hlog⟩ := ih hh
        exact ⟨b, es', List.mem_cons_of_mem _ hmem, hlog⟩

end Reading

/-! ## Origin -/

/-- The change that a field takes is an entry that was left, by all but its key; the key spells what
    the place of the field has below `top`. -/
def Hit.IsFrom (h : Hit σ) (top : Place) (e : Entry) : Prop :=
  h.entry.position = e.position ∧ h.entry.old = e.old ∧ h.entry.new = e.new ∧
    ∃ b : Place, h.place = top ++ b ∧ b.IsSpelled e.path

/-- A step down is undone by putting its label back in front. -/
theorem Hit.IsFrom.below {h : Hit σ} {top step : Place} {e : Entry} {rest : Path}
    (hfrom : h.IsFrom (top ++ step) { e with path := rest })
    (hstep : ∀ b : Place, b.IsSpelled rest → (step ++ b).IsSpelled e.path) : h.IsFrom top e := by
  obtain ⟨hposition, hold, hnew, b, hplace, hb⟩ := hfrom
  refine ⟨hposition, hold, hnew, step ++ b, ?_, hstep b hb⟩
  rw [hplace, List.append_assoc]

namespace Script

open Reading

/-- **A field takes one of the changes that are left, and its key spells the place of the field.** -/
theorem origin_of_mem_hits {s : Script σ} {root : String} {top : Place} {r : Reading σ} {h : Hit σ}
    (hh : h ∈ s.hits root top r) : ∃ e ∈ r.rest, h.IsFrom top e := by
  induction s generalizing root top r with
  | done => exact absurd hh List.not_mem_nil
  | field key slot rule next ih =>
      rw [hits, List.mem_append] at hh
      rcases hh with hh | hh
      · rw [Option.mem_toList, hit?, Option.map_eq_some_iff] at hh
        obtain ⟨e, hfind, rfl⟩ := hh
        have hkey : e.path = Path.ofString key := by simpa using List.find?_some hfind
        refine ⟨e, List.mem_of_find?_eq_some hfind, rfl, rfl, rfl, .ofKey key, rfl, ?_⟩
        rw [hkey]
        exact Place.isSpelled_ofKey key
      · obtain ⟨e, he, hfrom⟩ := ih hh
        rw [rest_field] at he
        exact ⟨e, List.mem_of_mem_eraseP he, hfrom⟩
  | under key needed inner next ihInner ih =>
      rw [hits, List.mem_append] at hh
      rcases hh with hh | hh
      · obtain ⟨e, he, hfrom⟩ := ihInner hh
        -- The inner script sees the entry with a shorter key; the key that was cut off goes back in front.
        obtain ⟨e', he', rest, hrest, rfl⟩ := mem_inside he
        exact ⟨e', he', hfrom.below fun b hb => hb.of_below? hrest⟩
      · obtain ⟨e, he, hfrom⟩ := ih hh
        rw [rest_descend] at he
        exact ⟨e, List.mem_of_mem_filter he, hfrom⟩
  | each always inner next ihInner ih =>
      rw [hits, List.mem_append] at hh
      rcases hh with hh | hh
      · obtain ⟨i, es, hgroup, r', hh⟩ := mem_gather hh
        obtain ⟨e, he, hfrom⟩ := ihInner i hh
        obtain ⟨e', he', rest, hrest, rfl⟩ := Entry.mem_groups hgroup he
        exact ⟨e', he', hfrom.below fun b hb => hb.of_indexStep? hrest⟩
      · obtain ⟨e, he, _⟩ := ih hh
        rw [rest_scatter] at he
        exact absurd he List.not_mem_nil
  | eachKey inner next ihInner ih =>
      rw [hits, List.mem_append] at hh
      rcases hh with hh | hh
      · obtain ⟨k, es, hgroup, r', hh⟩ := mem_gather hh
        obtain ⟨e, he, hfrom⟩ := ihInner k hh
        obtain ⟨e', he', rest, hrest, rfl⟩ := Entry.mem_groups hgroup he
        exact ⟨e', he', hfrom.below fun b hb => hb.of_keyStep? hrest⟩
      · obtain ⟨e, he, _⟩ := ih hh
        rw [rest_scatter] at he
        exact absurd he List.not_mem_nil
  | outOfRange next ih =>
      obtain ⟨e, he, _⟩ := ih hh
      exact absurd he List.not_mem_nil
  | consumed next ih =>
      obtain ⟨e, he, _⟩ := ih hh
      exact absurd he List.not_mem_nil
  | alter f next ih => exact ih (r := { r with draft := f r.draft }) hh
  | look next ih => exact ih _ hh

end Script

end PowerOfAttorney
