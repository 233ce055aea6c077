import StreamGrammar.Proofs.Element

/-!
# How text is spelled

The same text is written in either alphabet: as its code points, or as its UTF-8
bytes. What a grammar recognises is best said of the text, and what carries over
to the alphabet is little. An ASCII character is spelled by one element, with
its number; any other character by elements whose numbers are no ASCII; and a
piece of input stands for exactly the text that it spells.
-/

namespace StreamGrammar

/-- **An alphabet that text can be spelled in.** -/
class Spelling (ε : Type) [Element ε] extends LawfulElement ε where
  /-- The elements that spell a code point. -/
  spellOne : CodePoint → List ε
  /-- Whether a code point that is spelled can be read back. -/
  Readable : CodePoint → Prop
  /-- ASCII characters can be read back. -/
  readable_of_lt : ∀ c, c.val < 0x80 → Readable c
  /-- An ASCII character is one element. -/
  spellOne_of_lt : ∀ c, c.val < 0x80 → ∃ e, spellOne c = [e] ∧ Element.code e = c.val
  /-- The elements of another character are not those of ASCII characters. -/
  le_code_of_mem : ∀ c e, 0x80 ≤ c.val → e ∈ spellOne c → 0x80 ≤ Element.code e
  /-- A code point takes some element. -/
  spellOne_ne_nil : ∀ c, spellOne c ≠ []
  /-- Where a code point ends and which it is, its elements tell. -/
  spellOne_append_injective : ∀ (c d : CodePoint) (s u : List ε),
    spellOne c ++ s = spellOne d ++ u → c = d ∧ s = u
  /-- Text that is spelled is read back. -/
  decode_flatMap : ∀ t : Text, (∀ c ∈ t, Readable c) →
    Element.decode (t.flatMap spellOne) = .ok t
  /-- What is read as text spells it. -/
  of_decode : ∀ (s : List ε) (t : Text), Element.decode s = .ok t →
    s = t.flatMap spellOne ∧ ∀ c ∈ t, Readable c

instance : Spelling CodePoint where
  spellOne c := [c]
  Readable _ := True
  readable_of_lt _ _ := trivial
  spellOne_of_lt c _ := ⟨c, rfl, rfl⟩
  le_code_of_mem c e h he := by
    obtain rfl := List.mem_singleton.mp he
    exact h
  spellOne_ne_nil c := List.cons_ne_nil _ _
  spellOne_append_injective c d s u h := List.cons.inj h
  decode_flatMap t _ := by rw [List.flatMap_singleton']; rfl
  of_decode s t h := by
    cases h
    exact ⟨(List.flatMap_singleton' s).symm, fun _ _ => trivial⟩

variable {ε : Type} [Element ε] [Spelling ε]

/-- The elements that spell a text. -/
def spell (t : Text) : List ε := t.flatMap Spelling.spellOne

@[simp] theorem spell_nil : (spell [] : List ε) = [] := rfl

@[simp] theorem spell_append (t u : Text) : (spell (t ++ u) : List ε) = spell t ++ spell u :=
  List.flatMap_append

theorem spell_cons (c : CodePoint) (t : Text) :
    (spell (c :: t) : List ε) = Spelling.spellOne c ++ spell t :=
  List.flatMap_cons

/-- Text is its own spelling. -/
@[simp] theorem spell_codePoint (t : Text) : (spell t : List CodePoint) = t :=
  List.flatMap_singleton' t

/-- An ASCII character is spelled by its element. -/
theorem spell_ofChar {c : Char} (hc : c.toNat < 0x80) (t : Text) :
    (spell (CodePoint.ofChar c :: t) : List ε) = Element.ofAscii c :: spell t := by
  obtain ⟨e, he, hcode⟩ := Spelling.spellOne_of_lt (ε := ε) (CodePoint.ofChar c) hc
  have heq : e = Element.ofAscii c := by
    refine LawfulElement.code_injective _ _ ?_
    rw [hcode, LawfulElement.code_ofAscii c hc]
    rfl
  rw [spell_cons, he, heq]
  rfl

/-- Spelled text that begins with an ASCII character begins with its element. -/
theorem spell_ofChar_append {c : Char} (hc : c.toNat < 0x80) (t : Text) (rest : List ε) :
    spell (CodePoint.ofChar c :: t) ++ rest = Element.ofAscii c :: (spell t ++ rest) := by
  rw [spell_ofChar hc, List.cons_append]

/-- ASCII characters are spelled by the piece of input that they stand for. -/
theorem spell_ofChars {cs : List Char} (h : Element.areAscii cs = true) :
    (spell (Text.ofChars cs) : List ε) = Element.piece cs := by
  induction cs with
  | nil => rfl
  | cons c cs ih =>
    obtain ⟨hc, hcs⟩ := Element.areAscii_cons.mp h
    rw [Text.ofChars, List.map_cons, spell_ofChar hc]
    exact congrArg (Element.ofAscii c :: ·) (ih hcs)

/-! ## What a spelling says of its text -/

/-- A character that is not ASCII is spelled by elements that are none, the first
of them among others. -/
theorem spell_cons_of_le {c : CodePoint} (hc : 0x80 ≤ c.val) (t : Text) :
    ∃ e s, (spell (c :: t) : List ε) = e :: s ∧ 0x80 ≤ Element.code e := by
  obtain ⟨e, s, hes⟩ := List.exists_cons_of_ne_nil (Spelling.spellOne_ne_nil (ε := ε) c)
  refine ⟨e, s ++ spell t, by rw [spell_cons, hes, List.cons_append], ?_⟩
  exact Spelling.le_code_of_mem c e hc (hes ▸ List.mem_cons_self)

/-- A text that is not empty takes some elements. -/
theorem spell_eq_nil_iff {t : Text} : (spell t : List ε) = [] ↔ t = [] := by
  cases t with
  | nil => simp
  | cons c t => simp [spell_cons, Spelling.spellOne_ne_nil]

/-- **What the spelling of a text begins with, the text begins with.** -/
theorem prefix_of_spell {p t : Text} {rest : List ε} (h : spell t = spell p ++ rest) :
    ∃ t', t = p ++ t' ∧ rest = spell t' := by
  induction p generalizing t with
  | nil => exact ⟨t, rfl, h.symm⟩
  | cons c p ih =>
    rw [spell_cons, List.append_assoc] at h
    cases t with
    | nil => exact absurd (List.append_eq_nil_iff.mp h.symm).1 (Spelling.spellOne_ne_nil c)
    | cons d t =>
      rw [spell_cons] at h
      obtain ⟨rfl, htail⟩ := Spelling.spellOne_append_injective d c _ _ h
      obtain ⟨t', rfl, rfl⟩ := ih htail
      exact ⟨t', rfl, rfl⟩

/-- **Texts that are spelled alike are the same.** -/
theorem spell_injective {t u : Text} (h : (spell t : List ε) = spell u) : t = u := by
  obtain ⟨rest, rfl, hrest⟩ := prefix_of_spell (h.trans (List.append_nil _).symm)
  rw [spell_eq_nil_iff.mp hrest.symm, List.append_nil]

/-! ## Runs of ASCII characters -/

/-- The numbers of the elements are those of the characters. -/
theorem map_code_spell {t : Text} (h : ∀ c ∈ t, c.val < 0x80) :
    (spell t : List ε).map Element.code = t.map CodePoint.val := by
  induction t with
  | nil => rfl
  | cons c t ih =>
    obtain ⟨e, he, hcode⟩ := Spelling.spellOne_of_lt (ε := ε) c (h c List.mem_cons_self)
    rw [spell_cons, he, List.singleton_append, List.map_cons, List.map_cons, hcode,
      ih fun d hd => h d (List.mem_cons_of_mem _ hd)]

/-- **Elements whose numbers are ASCII spell the characters of these numbers.** -/
theorem spell_map_code {s : List ε} (h : ∀ e ∈ s, Element.code e < 0x80) :
    (spell (s.map fun e => CodePoint.ofNat (Element.code e)) : List ε) = s := by
  induction s with
  | nil => rfl
  | cons e s ih =>
    have hlt := h e List.mem_cons_self
    have hval : (CodePoint.ofNat (Element.code e)).val = Element.code e :=
      CodePoint.val_ofNat (by omega)
    obtain ⟨e', he', hcode⟩ :=
      Spelling.spellOne_of_lt (ε := ε) (CodePoint.ofNat (Element.code e)) (by omega)
    have heq : e' = e := LawfulElement.code_injective _ _ (hcode.trans hval)
    rw [List.map_cons, spell_cons, he', heq,
      ih fun d hd => h d (List.mem_cons_of_mem _ hd)]
    rfl

/-- **A run of ASCII elements is the spelling of a run of ASCII characters**, if it
is as long as it gets. -/
theorem takeWhile_spell {f : Nat → Bool} (hf : ∀ n, 0x80 ≤ n → f n = false) (t : Text) :
    (spell t : List ε).takeWhile (fun e => f (Element.code e)) =
        spell (t.takeWhile fun c => f c.val) ∧
      (spell t : List ε).dropWhile (fun e => f (Element.code e)) =
        spell (t.dropWhile fun c => f c.val) := by
  induction t with
  | nil => exact ⟨rfl, rfl⟩
  | cons c t ih =>
    by_cases hc : c.val < 0x80
    · obtain ⟨e, he, hcode⟩ := Spelling.spellOne_of_lt (ε := ε) c hc
      rw [spell_cons, he, List.singleton_append]
      cases htest : f c.val with
      | true => simp [hcode, htest, ih.1, ih.2, spell_cons, he]
      | false => simp [hcode, htest, spell_cons, he]
    · obtain ⟨e, s, hes, hle⟩ := spell_cons_of_le (ε := ε) (c := c) (by omega) t
      simp [hes, hf _ hle, hf c.val (by omega)]

end StreamGrammar
