import StreamGrammar.Proofs.Json.Writable

/-!
# What the writer refuses

The writer goes through a tree once and stops at the first thing it refuses, and what that is
depends on the order: of a container that nests too deep and an infinity the one is reported
that is met first. A container is met before what it holds, a key before its value. To say this
of a tree of any shape, the tree is laid out as a list, the parts that may be refused in the
order of writing (`JsonTree.parts`), each container with the number of containers around it.
In that list neither the recursion nor the counter of open containers is left, and the writer
refuses what a search through the list finds (`refused?_write`).

So that the number of containers around a part is the depth that the writer has counted is
what the induction has to carry. It goes up where a container is entered, and the siblings of
a container are written at the depth that it was entered from.
-/

namespace StreamGrammar.JsonTree

variable {φ : Type}

/-- **A part of a tree that may be refused.** -/
inductive Part where
  /-- A container, and how many there are around it. -/
  | container (around : Nat)
  /-- A number of the unsigned kind. -/
  | unsigned (value : Int)
  /-- A number of the signed kind. -/
  | signed (value : Int)
  /-- A floating-point number. -/
  | float (value : Binary64)
  /-- A string or a key. -/
  | text (value : Text)
  /-- A leaf of the foreign kind. -/
  | foreign (value : Datum)

namespace Part

/-- **What offends**, where so many containers may be open: one more of them, a number that
is not of its kind or not finite, a numeral that is too long, and a surrogate. -/
def Offends (limit : Nat) : Part → Prop
  | container around => limit ≤ around
  | unsigned n => n < 0 ∨ Numeral.maxDigits < (Numeral.digits n.natAbs).length
  | signed n => 0 < n ∨ Numeral.maxDigits < (Numeral.digits n.natAbs).length
  | float x => x.isFinite = false
  | text t => ∃ c ∈ t, c.isSurrogate = true
  | foreign _ => True

/-- Why a part has no JSON text, if it has none wherever it stands. A numeral that is too long
is not even shown. -/
def unwritable? : Part → Option Unwritable
  | container _ => none
  | unsigned n =>
    if Numeral.isWritable n.natAbs then
      if n < 0 then some (.negativeUnsigned n) else none
    else some .integerTooLong
  | signed n =>
    if Numeral.isWritable n.natAbs then
      if 0 < n then some (.positiveSigned n) else none
    else some .integerTooLong
  | float x => if x.isFinite then none else some (.nonFinite x)
  | text t => (t.find? CodePoint.isSurrogate).map .loneSurrogate
  | foreign d => some (.foreign d)

/-- **How a part is refused**: a container because of the limit, with the limit, and any
other for what it is. -/
inductive RefusedAs (limit : Nat) : Part → Failure → Prop
  /-- The container is one too many. -/
  | container {around : Nat} (h : limit ≤ around) :
    RefusedAs limit (.container around)
      (.limitExceeded (.diagnosed (.jsonDepthExceeded limit none none)) limit)
  /-- The part has no JSON text. -/
  | unwritable {part : Part} {cause : Unwritable} (h : part.unwritable? = some cause) :
    RefusedAs limit part (.unwritable cause)

/-- The failure of a container that is one too many. -/
def tooDeep? (limit : Nat) : Part → Option Failure
  | container around =>
    if limit ≤ around then
      some (.limitExceeded (.diagnosed (.jsonDepthExceeded limit none none)) limit)
    else none
  | _ => none

/-- The failure of a part that is refused, if it is. -/
def refusal? (limit : Nat) (part : Part) : Option Failure :=
  (part.tooDeep? limit).or (part.unwritable?.map .unwritable)

variable {limit : Nat} {part : Part}

theorem refusal?_container {around : Nat} :
    (container around).refusal? limit =
      if limit ≤ around then
        some (.limitExceeded (.diagnosed (.jsonDepthExceeded limit none none)) limit)
      else none := by
  rw [refusal?, tooDeep?, unwritable?, Option.map_none, Option.or_none]

theorem refusal?_of_no_container (part : Part) (h : ∀ around, part ≠ .container around) :
    part.refusal? limit = part.unwritable?.map .unwritable := by
  have hdepth : part.tooDeep? limit = none := by
    cases part with
    | container around => exact absurd rfl (h around)
    | _ => rfl
  rw [refusal?, hdepth, Option.none_or]

theorem refusal?_eq_some_iff {failure : Failure} :
    part.refusal? limit = some failure ↔ part.RefusedAs limit failure := by
  constructor
  · intro h
    by_cases hcontainer : ∃ around, part = .container around
    · obtain ⟨around, rfl⟩ := hcontainer
      rw [refusal?_container] at h
      split at h
      · cases h
        exact .container ‹_›
      · cases h
    · rw [refusal?_of_no_container _ (fun around h => hcontainer ⟨around, h⟩)] at h
      obtain ⟨cause, hcause, rfl⟩ := Option.map_eq_some_iff.mp h
      exact .unwritable hcause
  · rintro (h | h)
    · rw [refusal?_container, if_pos h]
    · rw [refusal?_of_no_container _ (by rintro around rfl; cases h), h]
      rfl

/-- A number has a numeral of so many digits if it may be written. -/
theorem isWritable_iff {n : Nat} :
    Numeral.isWritable n = true ↔ (Numeral.digits n).length ≤ Numeral.maxDigits := by
  constructor
  · exact Json.length_digits_of_isWritable
  · intro h
    have := Json.isWritable_ofDigits (fun _ hd => Numeral.digits_lt hd) h
    rwa [Numeral.ofDigits_digits] at this

theorem not_offends_unsigned {n : Int} :
    ¬(unsigned n).Offends limit ↔ 0 ≤ n ∧ Numeral.isWritable n.natAbs = true := by
  rw [Offends, not_or, Int.not_lt, Nat.not_lt, isWritable_iff]

theorem not_offends_signed {n : Int} :
    ¬(signed n).Offends limit ↔ n ≤ 0 ∧ Numeral.isWritable n.natAbs = true := by
  rw [Offends, not_or, Int.not_lt, Nat.not_lt, isWritable_iff]

theorem not_offends_float {x : Binary64} :
    ¬(float x).Offends limit ↔ x.isFinite = true := by
  rw [Offends, Bool.not_eq_false]

theorem not_offends_text {t : Text} : ¬(text t).Offends limit ↔ Json.IsEncodable t := by
  simp [Offends, Json.IsEncodable]

/-- **What does not offend is not refused.** -/
theorem refusal?_eq_none_iff : part.refusal? limit = none ↔ ¬part.Offends limit := by
  cases part with
  | container around => simp [refusal?_container, Offends]
  | unsigned n =>
    rw [refusal?_of_no_container (.unsigned n) nofun, Option.map_eq_none_iff, unwritable?,
      not_offends_unsigned]
    cases Numeral.isWritable n.natAbs <;> simp
  | signed n =>
    rw [refusal?_of_no_container (.signed n) nofun, Option.map_eq_none_iff, unwritable?,
      not_offends_signed]
    cases Numeral.isWritable n.natAbs <;> simp
  | float x =>
    rw [refusal?_of_no_container (.float x) nofun, Option.map_eq_none_iff, unwritable?,
      not_offends_float]
    cases x.isFinite <;> simp
  | text t => simp [refusal?_of_no_container, unwritable?, Offends]
  | foreign d => simp [refusal?_of_no_container, unwritable?, Offends]

/-- What is refused offends. -/
theorem RefusedAs.offends {failure : Failure} (h : part.RefusedAs limit failure) :
    part.Offends limit := by
  by_contra hnot
  rw [← refusal?_eq_some_iff, refusal?_eq_none_iff.mpr hnot] at h
  cases h

end Part

mutual

/-- **The parts of a tree in the order of writing**, inside so many containers. -/
def parts (leaf : φ → Datum) (around : Nat) : JsonTree φ → List Part
  | null => []
  | bool _ => []
  | unsigned n => [.unsigned n]
  | signed n => [.signed n]
  | float x => [.float x]
  | string s => [.text s]
  | array items => .container around :: partsOfItems leaf (around + 1) items
  | object members => .container around :: partsOfMembers leaf (around + 1) members
  | foreign x => [.foreign (leaf x)]

/-- The parts of the items of an array. -/
def partsOfItems (leaf : φ → Datum) (around : Nat) : List (JsonTree φ) → List Part
  | [] => []
  | item :: items => parts leaf around item ++ partsOfItems leaf around items

/-- The parts of the members of an object, of each the key and then the value. -/
def partsOfMembers (leaf : φ → Datum) (around : Nat) : List (Text × JsonTree φ) → List Part
  | [] => []
  | (key, item) :: members =>
    .text key :: parts leaf around item ++ partsOfMembers leaf around members

end

/-! ## One part -/

/-- What is refused, if something is. -/
def refused? {α : Type} : Except Failure α → Option Failure
  | .error failure => some failure
  | .ok _ => none

theorem refused?_append (out : Array CodePoint) (one : Except Failure Text) :
    refused? (append out one) = refused? one := by
  cases one <;> rfl

theorem refused?_writeCodePoint (c : CodePoint) :
    refused? (writeCodePoint c) =
      if c.isSurrogate then some (.unwritable (.loneSurrogate c)) else none := by
  by_cases hc : c.isSurrogate = true
  · have hrange := hc
    simp only [CodePoint.isSurrogate, Bool.and_eq_true, decide_eq_true_eq] at hrange
    -- a surrogate is none of the code points that have an escape
    unfold writeCodePoint
    rw [if_neg (by omega), if_neg (by omega), if_neg (by omega), if_neg (by omega),
      if_neg (by omega), if_neg (by omega), if_neg (by omega), if_neg (by omega), if_pos hc]
    rw [if_pos hc]
    rfl
  · obtain ⟨w, hw⟩ := exists_writeCodePoint (Bool.eq_false_iff.mpr hc)
    rw [hw, if_neg hc]
    rfl

theorem refused?_writeCodePoints (out : Array CodePoint) (t : Text) :
    refused? (writeCodePoints out t) =
      ((t.find? CodePoint.isSurrogate).map .loneSurrogate).map .unwritable := by
  induction t generalizing out with
  | nil => rfl
  | cons c t ih =>
    have hc := refused?_writeCodePoint c
    rw [writeCodePoints, List.find?_cons]
    cases hone : writeCodePoint c with
    | error failure =>
      rw [hone] at hc
      split at hc
      · rename_i hsurrogate
        rw [hsurrogate]
        exact hc
      · cases hc
    | ok written =>
      rw [hone] at hc
      split at hc
      · cases hc
      · rename_i hsurrogate
        rw [Bool.eq_false_iff.mpr hsurrogate]
        exact ih (out ++ written)

variable {limit : Nat}

theorem refused?_writeString (out : Array CodePoint) (t : Text) :
    refused? (writeString out t) = (Part.text t).refusal? limit := by
  have h := refused?_writeCodePoints (out.push (CodePoint.ofChar '"')) t
  rw [writeString]
  cases hpoints : writeCodePoints (out.push (CodePoint.ofChar '"')) t <;>
    rw [hpoints] at h <;> exact h

theorem refused?_writeNatural (n : Nat) :
    refused? (writeNatural n) =
      if Numeral.isWritable n then none else some (.unwritable .integerTooLong) := by
  unfold writeNatural
  split <;> rfl

theorem refused?_writeUnsigned (n : Int) :
    refused? (writeUnsigned n) = (Part.unsigned n).refusal? limit := by
  rw [Part.refusal?_of_no_container (.unsigned n) nofun, Part.unwritable?]
  cases n with
  | ofNat n =>
    show refused? (writeNatural n) = _
    rw [refused?_writeNatural]
    simp only [Int.ofNat_eq_natCast, Int.natAbs_natCast]
    split <;> simp
  | negSucc n =>
    simp only [writeUnsigned, Int.natAbs_negSucc, Int.negSucc_lt_zero, if_true]
    split <;> rfl

theorem refused?_writeSigned (n : Int) :
    refused? (writeSigned n) = (Part.signed n).refusal? limit := by
  rw [Part.refusal?_of_no_container (.signed n) nofun, Part.unwritable?, writeSigned]
  by_cases hn : 0 < n
  · have habs : n.toNat = n.natAbs := by omega
    rw [if_pos hn, if_pos hn, habs]
    split <;> rfl
  · have h := refused?_writeNatural n.natAbs
    rw [if_neg hn, if_neg hn]
    cases hdigits : writeNatural n.natAbs <;> rw [hdigits] at h
    · exact h.trans (by split <;> rfl)
    · exact h.trans (by split <;> rfl)

theorem refused?_writeFloat (x : Binary64) :
    refused? (writeFloat x) = (Part.float x).refusal? limit := by
  rw [Part.refusal?_of_no_container (.float x) nofun, Part.unwritable?, writeFloat]
  split <;> rfl

/-! ## The whole tree -/

/-- A container is refused, or what it holds is written one level deeper. -/
theorem refused?_enter {around : Nat} {inside : DepthGuard → Except Failure (Array CodePoint)}
    {held : List Part} (h : refused? (inside { maxDepth := limit, depth := (around + 1 : Nat) }) =
      held.findSome? (Part.refusal? limit)) :
    refused? (match DepthGuard.enter { maxDepth := limit, depth := around } with
      | .error failure => .error failure
      | .ok guard => inside guard) =
      (Part.container around :: held).findSome? (Part.refusal? limit) := by
  rw [List.findSome?_cons, Part.refusal?_container]
  by_cases hlimit : limit ≤ around
  · rw [DepthGuard.enter_of_le (Int.ofNat_le.mpr hlimit), if_pos hlimit]
    rfl
  · rw [DepthGuard.enter_of_lt (Int.ofNat_lt.mpr (Nat.not_le.mp hlimit)), if_neg hlimit]
    exact h

mutual

/-- **What the writer refuses is the first part that is refused**, where the containers that
it has counted are those around the tree. -/
theorem refused?_write (leaf : φ → Datum) : ∀ (v : JsonTree φ) (around : Nat)
    (out : Array CodePoint), refused? (write leaf { maxDepth := limit, depth := around } out v) =
      (parts leaf around v).findSome? (Part.refusal? limit)
  | null, _, _ => by
    rw [write]
    rfl
  | bool true, _, _ => by
    rw [write]
    rfl
  | bool false, _, _ => by
    rw [write]
    rfl
  | unsigned n, _, _ => by
    rw [write, refused?_append, refused?_writeUnsigned, parts, List.findSome?_singleton]
  | signed n, _, _ => by
    rw [write, refused?_append, refused?_writeSigned, parts, List.findSome?_singleton]
  | float x, _, _ => by
    rw [write, refused?_append, refused?_writeFloat, parts, List.findSome?_singleton]
  | string s, _, _ => by
    rw [write, refused?_writeString, parts, List.findSome?_singleton]
  | array items, around, out => by
    rw [write, parts]
    exact refused?_enter (refused?_writeItems leaf items (around + 1) _ true)
  | object members, around, out => by
    rw [write, parts]
    exact refused?_enter (refused?_writeMembers leaf members (around + 1) _ true)
  | foreign x, _, _ => by
    rw [write, parts, List.findSome?_singleton]
    rfl

/-- What is refused in the items of an array. -/
theorem refused?_writeItems (leaf : φ → Datum) : ∀ (items : List (JsonTree φ)) (around : Nat)
    (out : Array CodePoint) (first : Bool),
    refused? (writeItems leaf { maxDepth := limit, depth := around } out first items) =
      (partsOfItems leaf around items).findSome? (Part.refusal? limit)
  | [], _, _, _ => by
    rw [writeItems]
    rfl
  | item :: items, around, out, first => by
    have hitem := refused?_write leaf item around
      (if first then out else out.push (CodePoint.ofChar ','))
    rw [writeItems, partsOfItems, List.findSome?_append, ← hitem]
    cases write leaf { maxDepth := limit, depth := around }
        (if first then out else out.push (CodePoint.ofChar ',')) item with
    | error failure => rfl
    | ok written => exact refused?_writeItems leaf items around written false

/-- What is refused in the members of an object. -/
theorem refused?_writeMembers (leaf : φ → Datum) :
    ∀ (members : List (Text × JsonTree φ)) (around : Nat) (out : Array CodePoint) (first : Bool),
    refused? (writeMembers leaf { maxDepth := limit, depth := around } out first members) =
      (partsOfMembers leaf around members).findSome? (Part.refusal? limit)
  | [], _, _, _ => by
    rw [writeMembers]
    rfl
  | (key, item) :: members, around, out, first => by
    have hkey : _ = (Part.text key).refusal? limit :=
      refused?_writeString (if first then out else out.push (CodePoint.ofChar ',')) key
    rw [writeMembers, partsOfMembers, List.cons_append, List.findSome?_cons, ← hkey]
    cases writeString (if first then out else out.push (CodePoint.ofChar ',')) key with
    | error failure => rfl
    | ok name =>
      have hitem := refused?_write leaf item around (name.push (CodePoint.ofChar ':'))
      show refused? (match write leaf { maxDepth := limit, depth := around }
          (name.push (CodePoint.ofChar ':')) item with
        | .error failure => .error failure
        | .ok out => writeMembers leaf { maxDepth := limit, depth := around } out false members) = _
      rw [List.findSome?_append, ← hitem]
      cases write leaf { maxDepth := limit, depth := around } (name.push (CodePoint.ofChar ':'))
          item with
      | error failure => rfl
      | ok written => exact refused?_writeMembers leaf members around written false

end

/-! ## Nothing to refuse -/

/-- A container that is no offender leaves a level for what it holds. -/
theorem forall_not_offends_container {around levels : Nat} {held : List Part} {P : Prop}
    (h : around + 1 ≤ limit →
      ((∀ p ∈ held, ¬p.Offends limit) ↔ around + 1 + levels ≤ limit ∧ P)) :
    (∀ p ∈ Part.container around :: held, ¬p.Offends limit) ↔
      around + (levels + 1) ≤ limit ∧ P := by
  rw [List.forall_mem_cons]
  constructor
  · rintro ⟨hhere, hheld⟩
    obtain ⟨hroom, hP⟩ := (h (Nat.not_le.mp hhere)).mp hheld
    exact ⟨by omega, hP⟩
  · rintro ⟨hroom, hP⟩
    have hlevel : around + 1 ≤ limit := by omega
    exact ⟨Nat.not_le.mpr hlevel, (h hlevel).mpr ⟨by omega, hP⟩⟩

mutual

/-- **Nothing in a tree offends if its containers fit and it can be written.** -/
theorem forall_not_offends_iff (leaf : φ → Datum) : ∀ (v : JsonTree φ) (around : Nat),
    around ≤ limit → ((∀ p ∈ parts leaf around v, ¬p.Offends limit) ↔
      around + v.nesting ≤ limit ∧ v.Writable)
  | null, _, h => by simp [parts, nesting, Writable, h]
  | bool _, _, h => by simp [parts, nesting, Writable, h]
  | unsigned n, _, h => by simp [parts, nesting, Writable, h, Part.not_offends_unsigned]
  | signed n, _, h => by simp [parts, nesting, Writable, h, Part.not_offends_signed]
  | float x, _, h => by simp [parts, nesting, Writable, h, Part.not_offends_float]
  | string s, _, h => by simp [parts, nesting, Writable, h, Part.not_offends_text]
  | array items, around, _ => by
    rw [parts, nesting, Writable]
    exact forall_not_offends_container (forall_items_not_offends_iff leaf items (around + 1))
  | object members, around, _ => by
    rw [parts, nesting, Writable]
    exact forall_not_offends_container (forall_members_not_offends_iff leaf members (around + 1))
  | foreign _, _, _ => by simp [parts, Writable, Part.Offends]

/-- Nothing in the items of an array offends. -/
theorem forall_items_not_offends_iff (leaf : φ → Datum) : ∀ (items : List (JsonTree φ))
    (around : Nat), around ≤ limit → ((∀ p ∈ partsOfItems leaf around items, ¬p.Offends limit) ↔
      around + nestingItems items ≤ limit ∧ WritableItems items)
  | [], _, h => by simp [partsOfItems, nestingItems, WritableItems, h]
  | item :: items, around, h => by
    rw [partsOfItems, List.forall_mem_append, forall_not_offends_iff leaf item around h,
      forall_items_not_offends_iff leaf items around h, nestingItems, WritableItems,
      ← Nat.add_max_add_left, Nat.max_le, and_and_and_comm]

/-- Nothing in the members of an object offends. -/
theorem forall_members_not_offends_iff (leaf : φ → Datum) :
    ∀ (members : List (Text × JsonTree φ)) (around : Nat), around ≤ limit →
      ((∀ p ∈ partsOfMembers leaf around members, ¬p.Offends limit) ↔
        around + nestingMembers members ≤ limit ∧ WritableMembers members)
  | [], _, h => by simp [partsOfMembers, nestingMembers, WritableMembers, h]
  | (key, item) :: members, around, h => by
    rw [partsOfMembers, List.cons_append, List.forall_mem_cons, Part.not_offends_text,
      List.forall_mem_append, forall_not_offends_iff leaf item around h,
      forall_members_not_offends_iff leaf members around h, nestingMembers, WritableMembers,
      ← Nat.add_max_add_left, Nat.max_le, and_and_and_comm, and_left_comm]

end

end StreamGrammar.JsonTree

namespace StreamGrammar.Json

open JsonTree

/-- The parts of a value that may be refused, in the order of writing. -/
def parts (v : Json) : List Part := JsonTree.parts Empty.elim 0 v

/-- What is refused of a value is the first part that is refused, where so many containers may
be open as the limit and the stack allow. -/
theorem refused?_serialize (v : Json) {d : Int} (hd : 1 ≤ d) :
    refused? (v.serialize (some d)) = v.parts.findSome? (Part.refusal? (min d 950).toNat) := by
  have hguard : DepthGuard.ofDepth d.toNat =
      { maxDepth := (min d 950).toNat, depth := (0 : Nat) } := by
    rw [Int.toNat_of_nonneg (by omega), Int.toNat_of_nonneg (by omega)]
    rfl
  rw [serialize, JsonTree.serialize, Limits.resolveDepth_of_pos hd]
  dsimp only
  rw [hguard, parts, ← refused?_write Empty.elim v 0 #[]]
  cases write Empty.elim { maxDepth := (min d 950).toNat, depth := (0 : Nat) } #[] v <;> rfl

/-- **A value is serialized if its containers fit and nothing in it is refused, and otherwise
the first offender decides.** Of the parts of the value, in the order of writing, the first
that offends is refused for what it is: a container that has as many around it as may be open
because of that limit, and any other because it has no JSON text. -/
theorem serialize_stops_at_first_offender (v : Json) {d : Int} (hd : 1 ≤ d) :
    let limit := (min d 950).toNat
    ((∃ written, v.serialize (some d) = .ok written) ↔ v.nesting ≤ limit ∧ v.Writable) ∧
      ∀ failure, v.serialize (some d) = .error failure ↔
        ∃ before part after, v.parts = before ++ part :: after ∧
          (∀ p ∈ before, ¬p.Offends limit) ∧ part.Offends limit ∧
            part.RefusedAs limit failure := by
  intro limit
  have hrefused := refused?_serialize v hd
  constructor
  · have hnone : refused? (v.serialize (some d)) = none ↔ v.nesting ≤ limit ∧ v.Writable := by
      rw [hrefused, List.findSome?_eq_none_iff]
      have hfits := forall_not_offends_iff Empty.elim v 0 (Nat.zero_le limit)
      rw [Nat.zero_add] at hfits
      rw [← hfits]
      exact forall₂_congr fun p _ => Part.refusal?_eq_none_iff
    rw [← hnone]
    cases v.serialize (some d) <;> simp [refused?]
  · intro failure
    have hsome : refused? (v.serialize (some d)) = some failure ↔
        v.serialize (some d) = .error failure := by
      cases v.serialize (some d) <;> simp [refused?]
    rw [← hsome, hrefused, List.findSome?_eq_some_iff]
    constructor
    · rintro ⟨before, part, after, hsplit, hpart, hbefore⟩
      have hrefusal := Part.refusal?_eq_some_iff.mp hpart
      exact ⟨before, part, after, hsplit,
        fun p hp => Part.refusal?_eq_none_iff.mp (hbefore p hp), hrefusal.offends, hrefusal⟩
    · rintro ⟨before, part, after, hsplit, hbefore, -, hrefusal⟩
      exact ⟨before, part, after, hsplit, Part.refusal?_eq_some_iff.mpr hrefusal,
        fun p hp => Part.refusal?_eq_none_iff.mpr (hbefore p hp)⟩

/-- Of an array that nests too deep and an infinity the one that comes first is reported, and an
array nests too deep at one level more. -/
theorem serialize_stops_at_array_or_infinity :
    (1 : Int) ≤ 1 ∧
      serialize (.array [.array [], .float (.infinity false)]) (some 1) =
        .error (.limitExceeded (.diagnosed (.jsonDepthExceeded 1 none none)) 1) ∧
      serialize (.array [.float (.infinity false), .array []]) (some 1) =
        .error (.unwritable (.nonFinite (.infinity false))) ∧
      ∃ written, serialize (.array [.array [], .null]) (some 2) = .ok written := by
  refine ⟨by decide, ?_, ?_, ?_⟩
  · refine ((serialize_stops_at_first_offender _ (d := 1) (by decide)).2 _).mpr
      ⟨[.container 0], .container 1, [.float (.infinity false)], rfl, ?_, ?_, .container ?_⟩
    · exact List.forall_mem_singleton.mpr (show ¬1 ≤ 0 by decide)
    · exact show 1 ≤ 1 by decide
    · decide
  · refine ((serialize_stops_at_first_offender _ (d := 1) (by decide)).2 _).mpr
      ⟨[.container 0], .float (.infinity false), [.container 1], rfl, ?_, ?_, .unwritable rfl⟩
    · exact List.forall_mem_singleton.mpr (show ¬1 ≤ 0 by decide)
    · exact show (Binary64.infinity false).isFinite = false by decide
  · refine (serialize_stops_at_first_offender _ (d := 2) (by decide)).1.mpr ⟨by decide, ?_⟩
    exact ⟨trivial, trivial, trivial⟩

end StreamGrammar.Json
