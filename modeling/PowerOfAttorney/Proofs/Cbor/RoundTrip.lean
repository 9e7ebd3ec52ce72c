import Mathlib.Tactic.Ring
import PowerOfAttorney.Proofs.Time.Instant
import PowerOfAttorney.Register.Audit

/-!
# `PowerOfAttorney.Proofs.Cbor.RoundTrip` — audit records read as they were written

Each reader takes off the front of some bytes what the writer put there, whatever comes after it. So the
readers of records put those of their fields in a row, and the bytes of a record give the record back.

## Contents
- **Heads.** `Cbor.ofBigEndian_bigEndian` and `Cbor.head?_head`.
- **Items.** `Cbor.readInt?_int?`, `Cbor.readString?_string`, `Cbor.times?_flatMap`.
- **Records.** `AuditRecord.isSome_encode?` and `AuditRecord.decode?_encode?`.
-/

namespace PowerOfAttorney

namespace Cbor

/-! ## Heads -/

theorem length_bigEndian (width n : Nat) : (bigEndian width n).length = width := by
  induction width with
  | zero => rfl
  | succ width ih => rw [bigEndian, List.length_cons, ih]

/-- Digits are read on top of those before them. -/
theorem foldl_bigEndian (width n high : Nat) :
    (bigEndian width n).foldl (fun n b => 256 * n + b.toNat) high =
      high * 256 ^ width + n % 256 ^ width := by
  induction width generalizing high with
  | zero => simp [bigEndian, Nat.mod_one]
  | succ width ih =>
      have hbyte : (UInt8.ofNat (n / Nat.pow 256 width % 256)).toNat = n / 256 ^ width % 256 := by
        rw [UInt8.toNat_ofNat']
        exact Nat.mod_mod _ _
      rw [bigEndian, List.foldl_cons, ih, hbyte, Nat.mod_pow_succ, Nat.pow_succ]
      ring

/-- A number that fits is read as it was written. -/
theorem ofBigEndian_bigEndian {width n : Nat} (h : n < 256 ^ width) :
    ofBigEndian (bigEndian width n) = n := by
  unfold ofBigEndian
  rw [foldl_bigEndian, Nat.zero_mul, Nat.zero_add, Nat.mod_eq_of_lt h]

theorem split?_append (bs rest : Bytes) : split? bs.length (bs ++ rest) = some (bs, rest) := by
  unfold split?
  rw [if_pos (by simp), List.take_left, List.drop_left]

/-- The argument of a long head. -/
theorem split?_bigEndian (width n : Nat) (rest : Bytes) :
    split? width (bigEndian width n ++ rest) = some (bigEndian width n, rest) := by
  have hsplit := split?_append (bigEndian width n) rest
  rw [length_bigEndian] at hsplit
  exact hsplit

/-- The first byte of a head. -/
theorem first_head {major low : Nat} (hmajor : major < 8) (hlow : low < 32) :
    (UInt8.ofNat (32 * major + low)).toNat / 32 = major ∧
      (UInt8.ofNat (32 * major + low)).toNat % 32 = low := by
  rw [UInt8.toNat_ofNat', Nat.mod_eq_of_lt (by omega)]
  omega

/-- A head whose argument follows in some bytes. -/
theorem head?_long {major low width n : Nat} (hmajor : major < 8)
    (hlow : (low, width) ∈ [(24, 1), (25, 2), (26, 4), (27, 8)]) (hn : n < 256 ^ width) (rest : Bytes) :
    head? (UInt8.ofNat (32 * major + low) :: bigEndian width n ++ rest) =
      some (major, some n, rest) := by
  have hlow32 : low < 32 := by
    simp only [List.mem_cons, Prod.mk.injEq, List.not_mem_nil, or_false] at hlow
    omega
  obtain ⟨hfirst, hsecond⟩ := first_head hmajor hlow32
  rw [List.cons_append]
  unfold head?
  dsimp only
  rw [hfirst, hsecond]
  simp only [List.mem_cons, Prod.mk.injEq, List.not_mem_nil, or_false] at hlow
  rcases hlow with ⟨rfl, rfl⟩ | ⟨rfl, rfl⟩ | ⟨rfl, rfl⟩ | ⟨rfl, rfl⟩ <;>
    simp [split?_bigEndian, ofBigEndian_bigEndian hn]

/-- **A head is read as it was written.** -/
theorem head?_head {major n : Nat} (hmajor : major < 8) (hn : n < 18446744073709551616)
    (rest : Bytes) : head? (head major n ++ rest) = some (major, some n, rest) := by
  unfold head
  dsimp only
  split
  · rename_i h
    obtain ⟨hfirst, hsecond⟩ := first_head hmajor (show n < 32 by omega)
    unfold head?
    simp only [List.cons_append, List.nil_append, hfirst, hsecond, if_pos h]
  split
  · exact head?_long hmajor (by simp) (by omega) rest
  split
  · exact head?_long hmajor (by simp) (by omega) rest
  split
  · exact head?_long hmajor (by simp) (by omega) rest
  · exact head?_long hmajor (by simp) (by omega) rest

/-- A head is not empty, and its first byte tells its major type. -/
theorem head_cons {major : Nat} (hmajor : major < 8) (n : Nat) :
    ∃ b bs, head major n = b :: bs ∧ b.toNat / 32 = major := by
  unfold head
  dsimp only
  split
  · exact ⟨_, _, rfl, (first_head hmajor (by omega)).1⟩
  split
  · exact ⟨_, _, rfl, (first_head hmajor (by omega)).1⟩
  split
  · exact ⟨_, _, rfl, (first_head hmajor (by omega)).1⟩
  split
  · exact ⟨_, _, rfl, (first_head hmajor (by omega)).1⟩
  · exact ⟨_, _, rfl, (first_head hmajor (by omega)).1⟩

/-! ## Items -/

theorem readInt?_int? {n : Int} {bs : Bytes} (h : int? n = some bs) (rest : Bytes) :
    readInt? (bs ++ rest) = some (n, rest) := by
  unfold int? at h
  split at h
  · rename_i hn
    obtain rfl := Option.some.inj h
    unfold readInt?
    rw [head?_head (by decide) (by omega)]
    show (if _ then some (((n.toNat : Nat) : Int), rest) else _) = _
    rw [if_pos (by omega), show ((n.toNat : Nat) : Int) = n by omega]
  · split at h
    · rename_i hn
      obtain rfl := Option.some.inj h
      unfold readInt?
      rw [head?_head (by decide) (by omega)]
      show (if _ then some (-1 - (((-1 - n).toNat : Nat) : Int), rest) else _) = _
      rw [if_pos (by omega), show -1 - (((-1 - n).toNat : Nat) : Int) = n by omega]
    · exact absurd h nofun

/-- A whole number does not begin like nothing. -/
theorem int?_cons {n : Int} {bs : Bytes} (h : int? n = some bs) : ∃ b cs, bs = b :: cs ∧ b ≠ null := by
  have hne : ∀ b : UInt8, b.toNat / 32 < 2 → b ≠ null := by
    rintro b hb rfl
    exact absurd hb (by decide)
  unfold int? at h
  split at h
  · obtain rfl := Option.some.inj h
    obtain ⟨b, cs, hhead, hb⟩ := head_cons (show 0 < 8 by decide) n.toNat
    exact ⟨b, cs, hhead, hne b (by omega)⟩
  · split at h
    · obtain rfl := Option.some.inj h
      obtain ⟨b, cs, hhead, hb⟩ := head_cons (show 1 < 8 by decide) (-1 - n).toNat
      exact ⟨b, cs, hhead, hne b (by omega)⟩
    · exact absurd h nofun

theorem readString?_string {s : String} (h : (Bytes.ofString s).length < 18446744073709551616)
    (rest : Bytes) : readString? (string s ++ rest) = some (s, rest) := by
  unfold string readString?
  dsimp only
  rw [List.append_assoc, head?_head (by decide) h]
  show (split? _ _).bind _ = _
  rw [split?_append]
  show (Bytes.string? _).bind _ = _
  rw [Bytes.string?_ofString]
  rfl

/-- Items in a row are read one by one. -/
theorem times?_flatMap {α : Type} {read : Bytes → Option (α × Bytes)} {write : α → Bytes}
    {xs : List α} (hread : ∀ x ∈ xs, ∀ rest, read (write x ++ rest) = some (x, rest)) {fuel : Nat}
    (hfuel : xs.length ≤ fuel) (rest : Bytes) :
    times? read fuel xs.length (xs.flatMap write ++ rest) = some (xs, rest) := by
  induction xs generalizing fuel with
  | nil =>
      unfold times?
      rfl
  | cons x xs ih =>
      obtain ⟨n, rfl⟩ : ∃ n, fuel = n + 1 := ⟨fuel - 1, by rw [List.length_cons] at hfuel; omega⟩
      rw [List.length_cons] at hfuel
      rw [List.flatMap_cons, List.append_assoc, List.length_cons, times?,
        hread x List.mem_cons_self]
      show (times? read n xs.length _).bind _ = _
      rw [ih (fun y hy => hread y (List.mem_cons_of_mem _ hy)) (by omega)]
      rfl

/-- Items that take a byte each are no more than the bytes. -/
theorem length_le_flatMap {α : Type} {write : α → Bytes} (hwrite : ∀ x, write x ≠ []) (xs : List α) :
    xs.length ≤ (xs.flatMap write).length := by
  induction xs with
  | nil => exact Nat.le_refl 0
  | cons x xs ih =>
      have hpos := List.length_pos_iff.mpr (hwrite x)
      rw [List.flatMap_cons, List.length_append, List.length_cons]
      omega

/-- A list is read as it was written. -/
theorem array?_flatMap {α : Type} {read : Bytes → Option (α × Bytes)} {write : α → Bytes}
    {xs : List α} (hread : ∀ x ∈ xs, ∀ rest, read (write x ++ rest) = some (x, rest))
    (hwrite : ∀ x, write x ≠ []) (hlength : xs.length < 18446744073709551616) (rest : Bytes) :
    array? read (head 4 xs.length ++ (xs.flatMap write ++ rest)) = some (xs, rest) := by
  have hfuel := length_le_flatMap hwrite xs
  unfold array?
  rw [head?_head (by decide) hlength]
  exact times?_flatMap hread (by rw [List.length_append]; omega) rest

/-- A record of just the fields that are read. -/
theorem record?_head {α : Type} {size : Nat} (hsize : size < 18446744073709551616)
    {read : Bytes → Option (α × Bytes)} {a : α} {bs rest : Bytes}
    (hread : read (bs ++ rest) = some (a, rest)) :
    record? size read (head 4 size ++ (bs ++ rest)) = some (a, rest) := by
  unfold record?
  rw [head?_head (by decide) hsize]
  show (if size < size then none else (read (bs ++ rest)).bind _) = _
  rw [if_neg (Nat.lt_irrefl size), hread]
  show (times? skip? _ (size - size) rest).bind _ = _
  rw [Nat.sub_self]
  unfold times?
  rfl

end Cbor

/-! ## Records -/

open Cbor

theorem Instant.readCbor?_cbor? {t : Instant} (h : t.isLeap = false) {bs : Bytes}
    (hbs : t.cbor? = some bs) (rest : Bytes) : readCbor? (bs ++ rest) = some (t, rest) := by
  unfold readCbor?
  rw [readInt?_int? hbs]
  show some (ofNanoseconds t.nanoseconds, rest) = _
  rw [ofNanoseconds_nanoseconds h]

/-- A storable instant has a count of 64 bits. -/
theorem Instant.cbor?_of_isStorable {t : Instant} (h : t.IsStorable) : ∃ bs, t.cbor? = some bs := by
  obtain ⟨_, hlow, hhigh⟩ := h
  unfold cbor? int?
  by_cases hsign : 0 ≤ t.nanoseconds
  · exact ⟨_, if_pos ⟨hsign, hhigh⟩⟩
  · exact ⟨_, by rw [if_neg (by omega), if_pos ⟨hlow, by omega⟩]⟩

namespace AuditRecord

theorem readChange_encodeChange {c : AuditChange}
    (h : ∀ s ∈ [c.key, c.old, c.new], (Bytes.ofString s).length < 18446744073709551616)
    (rest : Bytes) : record? 3 changeFields? (encodeChange c ++ rest) = some (c, rest) := by
  have hfields : changeFields? (string c.key ++ (string c.old ++ string c.new) ++ rest) =
      some (c, rest) := by
    unfold changeFields?
    rw [List.append_assoc, List.append_assoc, readString?_string (h c.key (by simp))]
    show (readString? _).bind _ = _
    rw [readString?_string (h c.old (by simp))]
    show (readString? _).bind _ = _
    rw [readString?_string (h c.new (by simp))]
    rfl
  have hrecord : record? 3 changeFields? (head 4 3 ++ _) = _ := record?_head (by decide) hfields
  unfold encodeChange
  simpa only [List.append_assoc] using hrecord

/-- The time of a record, if it has one. -/
def encodeApplied? : Option Instant → Option Bytes
  | none => some [null]
  | some t => t.cbor?

theorem readOption?_encodeApplied? {applied : Option Instant}
    (h : ∀ t ∈ applied, t.isLeap = false) {bs : Bytes} (hbs : encodeApplied? applied = some bs)
    (rest : Bytes) : readOption? Instant.readCbor? (bs ++ rest) = some (applied, rest) := by
  cases applied with
  | none =>
      obtain rfl := Option.some.inj hbs
      rfl
  | some t =>
      have hread := Instant.readCbor?_cbor? (h t rfl) hbs rest
      obtain ⟨b, cs, rfl, hb⟩ := int?_cons hbs
      rw [List.cons_append] at hread ⊢
      rw [readOption?, if_neg hb, hread]
      rfl

/-- A record is encoded once its time is, if its lengths fit. -/
theorem encode?_eq_bind (r : AuditRecord) :
    r.encode? = (encodeApplied? r.applied).bind fun applied =>
      if r.fits then some (encodeFields r applied) else none := by
  unfold encode?
  cases r.applied with
  | none => rfl
  | some t => rfl

/-- A record that has been encoded, by the bytes of its time. -/
theorem encode?_eq_some {r : AuditRecord} {bs : Bytes} (h : r.encode? = some bs) :
    ∃ applied, encodeApplied? r.applied = some applied ∧ r.fits = true ∧
      bs = encodeFields r applied := by
  rw [encode?_eq_bind] at h
  obtain ⟨applied, happlied, h⟩ := Option.bind_eq_some_iff.mp h
  refine ⟨applied, happlied, ?_⟩
  split at h
  · exact ⟨‹_›, (Option.some.inj h).symm⟩
  · exact absurd h nofun

/-- A record with a storable time has an encoding as soon as its lengths fit. -/
theorem isSome_encode? {r : AuditRecord} (h : ∀ t ∈ r.applied, t.IsStorable) :
    r.encode?.isSome = r.fits := by
  obtain ⟨applied, happlied⟩ : ∃ applied, encodeApplied? r.applied = some applied := by
    cases htime : r.applied with
    | none => exact ⟨_, rfl⟩
    | some t => exact Instant.cbor?_of_isStorable (h t htime)
  rw [encode?_eq_bind, happlied, Option.bind_some]
  cases r.fits with
  | true => rfl
  | false => rfl

/-- **The bytes of a record give it back**, if its time is in no leap second. -/
theorem decode?_encode? {r : AuditRecord} {bs : Bytes} (h : r.encode? = some bs)
    (hleap : ∀ t ∈ r.applied, t.isLeap = false) : decode? bs = some r := by
  obtain ⟨applied, happlied, hfits, rfl⟩ := encode?_eq_some h
  unfold fits at hfits
  rw [Bool.and_eq_true, decide_eq_true_eq, List.all_eq_true] at hfits
  obtain ⟨hcount, htexts⟩ := hfits
  have htext : ∀ s ∈ r.texts, (Bytes.ofString s).length < 18446744073709551616 :=
    fun s hs => of_decide_eq_true (htexts s hs)
  have hchange : ∀ c ∈ r.changes, ∀ rest,
      record? 3 changeFields? (encodeChange c ++ rest) = some (c, rest) := by
    intro c hc rest
    refine readChange_encodeChange (fun s hs => htext s ?_) rest
    exact List.mem_append_right _ (List.mem_flatMap.mpr ⟨c, hc, hs⟩)
  have hne : ∀ c, encodeChange c ≠ [] := by
    intro c hnil
    obtain ⟨b, bs, hhead, _⟩ := head_cons (show 4 < 8 by decide) 3
    unfold encodeChange at hnil
    rw [hhead] at hnil
    exact absurd hnil nofun
  have hfields : fields? (string r.id ++ (string r.uid ++ (applied ++ (string r.author ++
      (string r.type ++ (head 4 r.changes.length ++ r.changes.flatMap encodeChange))))) ++ []) =
        some (r, []) := by
    unfold fields?
    simp only [List.append_assoc]
    rw [readString?_string (htext r.id (by simp [texts]))]
    show (readString? _).bind _ = _
    rw [readString?_string (htext r.uid (by simp [texts]))]
    show (readOption? _ _).bind _ = _
    rw [readOption?_encodeApplied? hleap happlied]
    show (readString? _).bind _ = _
    rw [readString?_string (htext r.author (by simp [texts]))]
    show (readString? _).bind _ = _
    rw [readString?_string (htext r.type (by simp [texts]))]
    show (array? _ _).bind _ = _
    rw [array?_flatMap hchange hne hcount]
    rfl
  have hrecord : record? 6 fields? (head 4 6 ++ _) = _ := record?_head (by decide) hfields
  unfold decode? encodeFields
  simp only [List.append_assoc, List.append_nil] at hrecord ⊢
  rw [hrecord]
  rfl

end AuditRecord

end PowerOfAttorney
