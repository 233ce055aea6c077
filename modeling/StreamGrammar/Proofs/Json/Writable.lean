import StreamGrammar.Proofs.Json.Writer

/-!
# What can be written

The writer stops at the first thing that it refuses, and so what it does with a tree
depends on the order in which it goes through it, and on how many containers are open
already. But if nothing in the tree is refused (`JsonTree.Writable`) and its
containers fit into the levels that are left (`JsonTree.nesting`), then it is written,
and what is written of it depends neither on the levels nor on what is written before
(`exists_written`).
-/

namespace StreamGrammar.JsonTree

variable {φ : Type}

mutual

/-- **How deep containers nest** in a tree. -/
def nesting : JsonTree φ → Nat
  | array items => nestingItems items + 1
  | object members => nestingMembers members + 1
  | _ => 0

/-- How deep containers nest in the items of an array. -/
def nestingItems : List (JsonTree φ) → Nat
  | [] => 0
  | item :: items => max (nesting item) (nestingItems items)

/-- How deep containers nest in the members of an object. -/
def nestingMembers : List (Text × JsonTree φ) → Nat
  | [] => 0
  | (_, item) :: members => max (nesting item) (nestingMembers members)

end

mutual

/-- **A tree in which nothing is refused**, whatever limit there is on depth: its
strings can be encoded, its numbers have numerals that can be read back, and it has
no leaf of the foreign kind. -/
def Writable : JsonTree φ → Prop
  | unsigned n => 0 ≤ n ∧ Numeral.isWritable n.natAbs = true
  | signed n => n ≤ 0 ∧ Numeral.isWritable n.natAbs = true
  | float x => x.isFinite = true
  | string s => Json.IsEncodable s
  | array items => WritableItems items
  | object members => WritableMembers members
  | foreign _ => False
  | _ => True

/-- Nothing is refused in the items of an array. -/
def WritableItems : List (JsonTree φ) → Prop
  | [] => True
  | item :: items => Writable item ∧ WritableItems items

/-- Nothing is refused in the members of an object. -/
def WritableMembers : List (Text × JsonTree φ) → Prop
  | [] => True
  | (key, item) :: members => Json.IsEncodable key ∧ Writable item ∧ WritableMembers members

end

/-! ## Items and members one by one -/

section Members

variable {items : List (JsonTree φ)} {members : List (Text × JsonTree φ)} {levels : Nat}

theorem nestingItems_le_iff :
    nestingItems items ≤ levels ↔ ∀ v ∈ items, v.nesting ≤ levels := by
  induction items with
  | nil => simp [nestingItems]
  | cons v items ih => rw [nestingItems, Nat.max_le, ih, List.forall_mem_cons]

theorem nestingMembers_le_iff :
    nestingMembers members ≤ levels ↔ ∀ m ∈ members, m.2.nesting ≤ levels := by
  induction members with
  | nil => simp [nestingMembers]
  | cons m members ih => rw [nestingMembers, Nat.max_le, ih, List.forall_mem_cons]

theorem writableItems_iff : WritableItems items ↔ ∀ v ∈ items, v.Writable := by
  induction items with
  | nil => simp [WritableItems]
  | cons v items ih => rw [WritableItems, ih, List.forall_mem_cons]

theorem writableMembers_iff :
    WritableMembers members ↔ ∀ m ∈ members, Json.IsEncodable m.1 ∧ m.2.Writable := by
  induction members with
  | nil => simp [WritableMembers]
  | cons m members ih => rw [WritableMembers, ih, List.forall_mem_cons, and_assoc]

theorem wellKeyedItems_iff : WellKeyedItems items ↔ ∀ v ∈ items, v.WellKeyed := by
  induction items with
  | nil => simp [WellKeyedItems]
  | cons v items ih => rw [WellKeyedItems, ih, List.forall_mem_cons]

theorem wellKeyedMembers_iff : WellKeyedMembers members ↔ ∀ m ∈ members, m.2.WellKeyed := by
  induction members with
  | nil => simp [WellKeyedMembers]
  | cons m members ih => rw [WellKeyedMembers, ih, List.forall_mem_cons]

end Members

/-! ## Strings and numbers -/

theorem exists_writeCodePoint {c : CodePoint} (h : c.isSurrogate = false) :
    ∃ w, writeCodePoint c = .ok w := by
  unfold writeCodePoint
  rw [h, if_neg Bool.false_ne_true]
  split_ifs <;> exact ⟨_, rfl⟩

/-- Text that can be encoded is written, as the same whatever is before it. -/
theorem exists_writeCodePoints {t : Text} (h : Json.IsEncodable t) :
    ∃ w : Text, ∀ out, writeCodePoints out t = .ok (out ++ w) := by
  induction t with
  | nil => exact ⟨[], fun out => congrArg Except.ok (Array.ext' (by simp))⟩
  | cons c t ih =>
    obtain ⟨hc, ht⟩ := Json.isEncodable_cons.mp h
    obtain ⟨one, hone⟩ := exists_writeCodePoint hc
    obtain ⟨w, hw⟩ := ih ht
    refine ⟨one ++ w, fun out => ?_⟩
    rw [writeCodePoints, hone]
    show writeCodePoints (out ++ one) t = _
    rw [hw]
    exact congrArg Except.ok (Array.ext' (by simp))

theorem exists_writeString {t : Text} (h : Json.IsEncodable t) :
    ∃ w : Text, ∀ out, writeString out t = .ok (out ++ w) := by
  obtain ⟨w, hw⟩ := exists_writeCodePoints h
  refine ⟨CodePoint.ofChar '"' :: (w ++ [CodePoint.ofChar '"']), fun out => ?_⟩
  rw [writeString, hw]
  exact congrArg Except.ok (Array.ext' (by simp))

theorem exists_writeUnsigned {n : Int} (hn : 0 ≤ n) (h : Numeral.isWritable n.natAbs = true) :
    ∃ w, writeUnsigned n = .ok w := by
  obtain ⟨m, rfl⟩ := Int.eq_ofNat_of_zero_le hn
  rw [Int.natAbs_natCast] at h
  refine ⟨Numeral.decimal m, ?_⟩
  show writeNatural m = .ok (Numeral.decimal m)
  rw [writeNatural, if_pos h]

theorem exists_writeSigned {n : Int} (hn : n ≤ 0) (h : Numeral.isWritable n.natAbs = true) :
    ∃ w, writeSigned n = .ok w := by
  refine ⟨CodePoint.ofChar '-' :: Numeral.decimal n.natAbs, ?_⟩
  rw [writeSigned, if_neg (by omega), writeNatural, if_pos h]

/-! ## Trees -/

mutual

/-- **A tree in which nothing is refused is written wherever there is room for its
containers**, and always as the same text. -/
theorem exists_written (leaf : φ → Datum) : ∀ v : JsonTree φ, v.Writable →
    ∃ w : Text, ∀ (guard : DepthGuard) (out : Array CodePoint),
      guard.depth + v.nesting ≤ guard.maxDepth → write leaf guard out v = .ok (out ++ w)
  | null, _ => ⟨_, fun _ _ _ => by rw [write]⟩
  | bool true, _ => ⟨_, fun _ _ _ => by rw [write]⟩
  | bool false, _ => ⟨_, fun _ _ _ => by rw [write]⟩
  | unsigned n, h => by
    obtain ⟨w, hw⟩ := exists_writeUnsigned h.1 h.2
    exact ⟨w, fun _ _ _ => by rw [write, hw, append]⟩
  | signed n, h => by
    obtain ⟨w, hw⟩ := exists_writeSigned h.1 h.2
    exact ⟨w, fun _ _ _ => by rw [write, hw, append]⟩
  | float x, h => by
    have hfinite : x.isFinite = true := h
    exact ⟨x.numeral, fun _ _ _ => by rw [write, writeFloat, if_pos hfinite, append]⟩
  | string s, h => by
    obtain ⟨w, hw⟩ := exists_writeString h
    exact ⟨w, fun _ _ _ => by rw [write, hw]⟩
  | array items, h => by
    obtain ⟨w, hw⟩ := exists_writtenItems leaf items true h
    refine ⟨CodePoint.ofChar '[' :: w, fun guard out hroom => ?_⟩
    rw [nesting] at hroom
    -- the level that is entered is the one that the array itself takes
    have hinside : guard.depth + 1 + nestingItems items ≤ guard.maxDepth := by omega
    rw [write, DepthGuard.enter_of_lt (by omega)]
    show writeItems leaf _ (out.push (CodePoint.ofChar '[')) true items = _
    rw [hw _ _ hinside]
    exact congrArg Except.ok (Array.ext' (by simp))
  | object members, h => by
    obtain ⟨w, hw⟩ := exists_writtenMembers leaf members true h
    refine ⟨CodePoint.ofChar '\x7b' :: w, fun guard out hroom => ?_⟩
    rw [nesting] at hroom
    have hinside : guard.depth + 1 + nestingMembers members ≤ guard.maxDepth := by omega
    rw [write, DepthGuard.enter_of_lt (by omega)]
    show writeMembers leaf _ (out.push (CodePoint.ofChar '\x7b')) true members = _
    rw [hw _ _ hinside]
    exact congrArg Except.ok (Array.ext' (by simp))
  | foreign _, h => h.elim

/-- The items of an array are written, with the bracket that closes it. -/
theorem exists_writtenItems (leaf : φ → Datum) : ∀ (items : List (JsonTree φ)) (first : Bool),
    WritableItems items → ∃ w : Text, ∀ (guard : DepthGuard) (out : Array CodePoint),
      guard.depth + nestingItems items ≤ guard.maxDepth →
        writeItems leaf guard out first items = .ok (out ++ w)
  | [], _, _ => ⟨[CodePoint.ofChar ']'], fun _ _ _ => by
    rw [writeItems]
    exact congrArg Except.ok (Array.ext' (by simp))⟩
  | item :: items, first, h => by
    obtain ⟨one, hone⟩ := exists_written leaf item h.1
    obtain ⟨w, hw⟩ := exists_writtenItems leaf items false h.2
    refine ⟨(if first then [] else [CodePoint.ofChar ',']) ++ (one ++ w),
      fun guard out hroom => ?_⟩
    rw [nestingItems] at hroom
    rw [writeItems, hone _ _ (by omega)]
    show writeItems leaf guard _ false items = _
    rw [hw _ _ (by omega)]
    exact congrArg Except.ok (Array.ext' (by cases first <;> simp))

/-- The members of an object are written, with the bracket that closes it. -/
theorem exists_writtenMembers (leaf : φ → Datum) :
    ∀ (members : List (Text × JsonTree φ)) (first : Bool), WritableMembers members →
      ∃ w : Text, ∀ (guard : DepthGuard) (out : Array CodePoint),
        guard.depth + nestingMembers members ≤ guard.maxDepth →
          writeMembers leaf guard out first members = .ok (out ++ w)
  | [], _, _ => ⟨[CodePoint.ofChar '\x7d'], fun _ _ _ => by
    rw [writeMembers]
    exact congrArg Except.ok (Array.ext' (by simp))⟩
  | (key, item) :: members, first, h => by
    obtain ⟨name, hname⟩ := exists_writeString h.1
    obtain ⟨one, hone⟩ := exists_written leaf item h.2.1
    obtain ⟨w, hw⟩ := exists_writtenMembers leaf members false h.2.2
    refine ⟨(if first then [] else [CodePoint.ofChar ',']) ++
      (name ++ CodePoint.ofChar ':' :: (one ++ w)), fun guard out hroom => ?_⟩
    rw [nestingMembers] at hroom
    rw [writeMembers, hname]
    dsimp only
    rw [hone _ _ (by omega)]
    show writeMembers leaf guard _ false members = _
    rw [hw _ _ (by omega)]
    exact congrArg Except.ok (Array.ext' (by cases first <;> simp))

end

end StreamGrammar.JsonTree

namespace StreamGrammar.Json

open JsonTree

/-- **A value in which nothing is refused is serialized** under every limit that its
containers fit into, and always as the same text. -/
theorem exists_serialized {v : Json} (h : v.Writable) :
    ∃ written, ∀ maxDepth : Int, 1 ≤ maxDepth → (v.nesting : Int) ≤ min maxDepth 950 →
      v.serialize (some maxDepth) = .ok written := by
  obtain ⟨w, hw⟩ := exists_written Empty.elim v h
  refine ⟨w, fun maxDepth hpos hroom => (serialize_eq_ok_iff hpos).mpr ⟨_, hw _ _ ?_, ?_⟩⟩
  · show 0 + (v.nesting : Int) ≤ min maxDepth 950
    omega
  · simp

end StreamGrammar.Json
