import StreamGrammar.Charset
import StreamGrammar.Element

/-!
# What both alphabets have in common

The grammars name elements by ASCII characters and tests ask for their numbers.
That the two fit together – the element of an ASCII character has the number of
that character, and a number belongs to one element – is all that a statement
about a grammar over either alphabet needs to know.
-/

namespace StreamGrammar

/-- **An alphabet in which ASCII characters keep their numbers** and numbers
tell elements apart. -/
class LawfulElement (ε : Type) [Element ε] : Prop where
  /-- The element of an ASCII character has its number. -/
  code_ofAscii : ∀ c : Char, c.toNat < 0x80 → Element.code (Element.ofAscii c : ε) = c.toNat
  /-- Elements with the same number are the same. -/
  code_injective : ∀ a b : ε, Element.code a = Element.code b → a = b

instance : LawfulElement CodePoint where
  code_ofAscii _ _ := rfl
  code_injective _ _ h := CodePoint.ext h

instance : LawfulElement UInt8 where
  code_ofAscii c h := by
    show (UInt8.ofNat c.toNat).toNat = c.toNat
    rw [UInt8.toNat_ofNat']
    omega
  code_injective _ _ h := UInt8.toNat_inj.mp h

/-- What is tested of each entry of a table holds of each. -/
theorem forall_mem_of_all {α : Type} {p : α → Prop} [DecidablePred p] {l : List α}
    (h : l.all (fun a => decide (p a)) = true) : ∀ a ∈ l, p a := fun a ha =>
  of_decide_eq_true (List.all_eq_true.mp h a ha)

namespace Element

/-- Whether some characters are all ASCII. -/
def areAscii (chars : List Char) : Bool := chars.all (·.toNat < 0x80)

theorem areAscii_cons {c : Char} {chars : List Char} :
    areAscii (c :: chars) = true ↔ c.toNat < 0x80 ∧ areAscii chars = true := by
  simp [areAscii]

theorem lt_of_areAscii {chars : List Char} (h : areAscii chars = true) :
    ∀ c ∈ chars, c.toNat < 0x80 :=
  forall_mem_of_all h

/-- No number past ASCII is that of one of some ASCII characters. -/
theorem isOneOf_of_le {chars : List Char} (h : areAscii chars = true) {n : Nat} (hn : 0x80 ≤ n) :
    Charset.isOneOf chars n = false := by
  refine List.any_eq_false.mpr fun c hc heq => ?_
  have := lt_of_areAscii h c hc
  rw [beq_iff_eq] at heq
  omega

variable {ε : Type} [Element ε] [LawfulElement ε]

/-- An ASCII character that stands for the same element as another is that
character. -/
theorem ofAscii_injective {c d : Char} (hc : c.toNat < 0x80) (hd : d.toNat < 0x80)
    (h : (ofAscii c : ε) = ofAscii d) : c = d := by
  have h' := congrArg code h
  rw [LawfulElement.code_ofAscii c hc, LawfulElement.code_ofAscii d hd] at h'
  exact Char.toNat_inj.mp h'

/-- Two elements are the same if their numbers are. -/
theorem eq_ofAscii_iff {c : Char} (hc : c.toNat < 0x80) {e : ε} :
    e = ofAscii c ↔ code e = c.toNat := by
  constructor
  · rintro rfl
    exact LawfulElement.code_ofAscii c hc
  · intro h
    exact LawfulElement.code_injective _ _ (h.trans (LawfulElement.code_ofAscii c hc).symm)

/-- An element stands for one of some ASCII characters if it has the number of
one. -/
theorem mem_piece_iff {chars : List Char} (h : areAscii chars = true) {e : ε} :
    e ∈ (piece chars : List ε) ↔ Charset.isOneOf chars (code e) = true := by
  simp only [piece, List.mem_map, Charset.isOneOf, List.any_eq_true, beq_iff_eq]
  constructor
  · rintro ⟨c, hc, rfl⟩
    exact ⟨c, hc, (LawfulElement.code_ofAscii c (lt_of_areAscii h c hc)).symm⟩
  · rintro ⟨c, hc, hcode⟩
    exact ⟨c, hc, ((eq_ofAscii_iff (lt_of_areAscii h c hc)).mpr hcode.symm).symm⟩

/-- Whether some characters are ASCII and none of them is one of others, which
are ASCII too. -/
def areApart (a b : List Char) : Bool :=
  areAscii a && areAscii b && a.all fun c => !b.contains c

/-- **Pieces of input without a common character have no common element.** -/
theorem not_mem_piece {a b : List Char} (h : areApart a b = true) {e : ε}
    (ha : e ∈ (piece a : List ε)) : e ∉ (piece b : List ε) := by
  simp only [areApart, Bool.and_eq_true, List.all_eq_true, Bool.not_eq_true',
    List.contains_eq_mem, decide_eq_false_iff_not] at h
  obtain ⟨⟨hasciiA, hasciiB⟩, hapart⟩ := h
  intro hb
  obtain ⟨c, hc, rfl⟩ := List.mem_map.mp ha
  obtain ⟨d, hd, hcd⟩ := List.mem_map.mp hb
  have hdc : d = c :=
    ofAscii_injective (lt_of_areAscii hasciiB d hd) (lt_of_areAscii hasciiA c hc) hcd
  exact hapart c hc (hdc ▸ hd)

end Element

end StreamGrammar
