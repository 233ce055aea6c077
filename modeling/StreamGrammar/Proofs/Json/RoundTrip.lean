import StreamGrammar.Proofs.Json.Acceptance
import StreamGrammar.Proofs.Json.Writer
import StreamGrammar.Proofs.Text.Utf8

/-!
# What is written reads back

What is written of a value is a text of a form that denotes the value, and every
text of a form is parsed as the value that the form denotes – of its characters,
and of its bytes, since no surrogate is written. Both count depth alike up to the
depth that the stack bears for parsing, so one limit serves for both.
-/

namespace StreamGrammar.Json

open JsonTree

/-- What is serialized is a text of a form that denotes the value. -/
theorem writes_of_serialize {v : Json} (hkeys : v.WellKeyed) {maxDepth : Int} (h : 1 ≤ maxDepth)
    {written : Text} (hwritten : v.serialize (some maxDepth) = .ok written) :
    ∃ f, Writes (min maxDepth 950) written f v := by
  obtain ⟨out, hout, rfl⟩ := (serialize_eq_ok_iff h).mp hwritten
  obtain ⟨f, w, htoList, hw⟩ := writes_of_write v hkeys (by dsimp only; omega) hout
  rw [Int.sub_zero] at hw
  rw [htoList]
  exact ⟨f, hw⟩

/-- **What is written reads back as the value that was written**, with its kinds of
numbers and the order of its members: from the text, and from its bytes. -/
theorem parse_serialize {v : Json} (hkeys : v.WellKeyed) {maxDepth : Int} (h : 1 ≤ maxDepth)
    (hstack : maxDepth ≤ 47) {written : Text}
    (hwritten : v.serialize (some maxDepth) = .ok written) :
    parse written (some maxDepth) (some 0) = .ok v ∧
      parse (Utf8.encode written) (some maxDepth) (some 0) = .ok v := by
  obtain ⟨f, hf⟩ := writes_of_serialize hkeys h hwritten
  have hpadded := padded_self hf.spells
  have hlevels : f.nesting ≤ (min maxDepth 47).toNat := by
    have := hf.nesting
    omega
  have htext := parse_of_form (ε := CodePoint) h hpadded (fun _ _ => trivial) hlevels hf.value
  have hbytes := parse_of_form (ε := UInt8) h hpadded hf.encodable hlevels hf.value
  rw [spell_codePoint] at htext
  rw [spell_uint8] at hbytes
  exact ⟨htext, hbytes⟩

/-- Numbers of all three kinds, under a key with a control character. -/
theorem parse_serialize_object :
    let v : Json := .object [(Text.ofChars ['\n', 'a'],
      .array [.signed 0, .unsigned 10, .float (Binary64.ofBits 0x3FF0000000000000)])]
    let written := Text.ofChars "\x7b\"\\na\":[-0,10,1.0]\x7d".toList
    (v.WellKeyed ∧ (1 : Int) ≤ 2 ∧ (2 : Int) ≤ 47 ∧ v.serialize (some 2) = .ok written) ∧
      parse written (some 2) (some 0) = .ok v ∧
      parse (Utf8.encode written) (some 2) (some 0) = .ok v := by
  intro v written
  have hkeys : v.WellKeyed := by
    simp [v, WellKeyed, WellKeyedMembers, WellKeyedItems]
  have hwritten : v.serialize (some 2) = .ok written := by
    have hsome : (v.serialize (some 2)).toOption = some written := by decide +kernel
    cases hv : v.serialize (some 2) with
    | error failure => rw [hv] at hsome; cases hsome
    | ok t => rw [hv] at hsome; exact congrArg Except.ok (Option.some.inj hsome)
  exact ⟨⟨hkeys, by decide, by decide, hwritten⟩,
    parse_serialize hkeys (by decide) (by decide) hwritten⟩

end StreamGrammar.Json
