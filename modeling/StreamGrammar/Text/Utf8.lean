import StreamGrammar.Text.Numeral

/-!
# UTF-8

Reading bytes as UTF-8 goes through them from the front. A byte that begins
no sequence is one kind of fault; a sequence that breaks off before a byte
that cannot continue it is the second; and one that the bytes end inside of
is the third. A fault names the bytes that did form a beginning: the lead and
every continuation byte that could still have led to a code point. Four leads
admit fewer second bytes than the others, since `E0`, `ED`, `F0` and `F4`
would otherwise reach overlong forms, surrogates and numbers past the code
space; it is also why a text that was read from bytes holds no surrogate.
-/

namespace StreamGrammar.Utf8

/-- What is wrong with bytes that are not UTF-8. -/
inductive Cause where
  /-- The byte begins no sequence. -/
  | invalidStart
  /-- The sequence is followed by a byte that does not continue it. -/
  | invalidContinuation
  /-- The bytes end inside the sequence. -/
  | unexpectedEnd
deriving DecidableEq

/-- **A fault in UTF-8 bytes**: where the bad sequence starts, the bytes that
did begin one, and what is wrong. -/
structure Fault where
  /-- The offset of the lead byte. -/
  position : Nat
  /-- The lead byte. -/
  lead : UInt8
  /-- How many bytes the fault covers, the lead included. -/
  length : Nat
  /-- What is wrong with them. -/
  cause : Cause
deriving DecidableEq

/-- What a lead byte announces: the bits it contributes, how many
continuation bytes follow, and the range of the first of them. -/
structure Lead where
  /-- The value contributed by the lead byte. -/
  bits : Nat
  /-- How many continuation bytes follow. -/
  more : Nat
  /-- The least second byte. -/
  low : Nat := 0x80
  /-- The greatest second byte. -/
  high : Nat := 0xBF
deriving DecidableEq

/-- What a byte announces as a lead, if it can be one. -/
def lead? (b : Nat) : Option Lead :=
  if b < 0x80 then some { bits := b, more := 0 }
  else if b < 0xC2 then none
  else if b < 0xE0 then some { bits := b - 0xC0, more := 1 }
  else if b = 0xE0 then some { bits := 0, more := 2, low := 0xA0 }
  else if b = 0xED then some { bits := 0xD, more := 2, high := 0x9F }
  else if b < 0xF0 then some { bits := b - 0xE0, more := 2 }
  else if b = 0xF0 then some { bits := 0, more := 3, low := 0x90 }
  else if b < 0xF4 then some { bits := b - 0xF0, more := 3 }
  else if b = 0xF4 then some { bits := 4, more := 3, high := 0x8F }
  else none

/-- **Reads the continuation bytes of one sequence**: the number they complete
and the bytes after them, or how many were good and why it ends there. -/
def continueWith (bits : Nat) : (more low high : Nat) → Bytes → Except (Nat × Cause) (Nat × Bytes)
  | 0, _, _, rest => .ok (bits, rest)
  | _ + 1, _, _, [] => .error (0, .unexpectedEnd)
  | more + 1, low, high, b :: rest =>
    if low ≤ b.toNat ∧ b.toNat ≤ high then
      match continueWith (bits * 64 + (b.toNat - 0x80)) more 0x80 0xBF rest with
      | .ok r => .ok r
      | .error (good, cause) => .error (good + 1, cause)
    else .error (0, .invalidContinuation)

theorem continueWith_length {bits more low high : Nat} {bytes : Bytes} {n : Nat} {rest : Bytes}
    (h : continueWith bits more low high bytes = .ok (n, rest)) :
    rest.length ≤ bytes.length := by
  induction more generalizing bits low high bytes with
  | zero => simp_all [continueWith]
  | succ more ih =>
    cases bytes with
    | nil => simp [continueWith] at h
    | cons b bytes =>
      simp only [continueWith] at h
      split at h
      · split at h
        · rename_i r hr
          cases h
          have := ih hr
          simp only [List.length_cons]
          omega
        · cases h
      · cases h

/-- Reads one code point: its number, how many bytes it takes, and the bytes
after it. -/
def step (position : Nat) (b : UInt8) (rest : Bytes) : Except Fault (Nat × Nat × Bytes) :=
  match lead? b.toNat with
  | none => .error { position, lead := b, length := 1, cause := .invalidStart }
  | some lead =>
    match continueWith lead.bits lead.more lead.low lead.high rest with
    | .ok (n, after) => .ok (n, 1 + lead.more, after)
    | .error (good, cause) => .error { position, lead := b, length := 1 + good, cause }

theorem step_length {position : Nat} {b : UInt8} {bytes : Bytes} {n size : Nat} {rest : Bytes}
    (h : step position b bytes = .ok (n, size, rest)) : rest.length ≤ bytes.length := by
  unfold step at h
  split at h
  · cases h
  · split at h
    · rename_i hr
      cases h
      exact continueWith_length hr
    · cases h

/-- Reads bytes from an offset on, after the code points already read (the
latest first). -/
def decodeFrom (position : Nat) (read : List CodePoint) : Bytes → Except Fault Text
  | [] => .ok read.reverse
  | b :: bytes =>
    match _h : step position b bytes with
    | .error fault => .error fault
    | .ok (n, size, rest) => decodeFrom (position + size) (CodePoint.ofNat n :: read) rest
termination_by bytes => bytes.length
decreasing_by
  have := step_length _h
  simp only [List.length_cons]
  omega

/-- **Reads bytes as UTF-8**, or says where they are none. -/
def decode (bytes : Bytes) : Except Fault Text := decodeFrom 0 [] bytes

/-- A byte of a continuation: its upper two bits are fixed. -/
def continuation (n : Nat) : UInt8 := UInt8.ofNat (0x80 + n % 64)

/-- The UTF-8 bytes of one code point. A surrogate has none in the standard;
here it gets the three bytes that its number would have. -/
def encodeOne (c : CodePoint) : Bytes :=
  let n := c.val
  if n < 0x80 then [UInt8.ofNat n]
  else if n < 0x800 then [UInt8.ofNat (0xC0 + n / 64), continuation n]
  else if n < 0x10000 then [UInt8.ofNat (0xE0 + n / 4096), continuation (n / 64), continuation n]
  else [UInt8.ofNat (0xF0 + n / 262144), continuation (n / 4096), continuation (n / 64),
    continuation n]

/-- The UTF-8 bytes of a text. -/
def encode (t : Text) : Bytes := t.flatMap encodeOne

/-! ## Fault messages -/

/-- What is wrong, in words. -/
def Cause.text : Cause → Text
  | .invalidStart => "invalid start byte"
  | .invalidContinuation => "invalid continuation byte"
  | .unexpectedEnd => "unexpected end of data"

/-- The message of a fault: one byte is named by its value, several by their
range. -/
def Fault.message (f : Fault) : Text :=
  if f.length = 1 then
    Text.concat ["'utf-8' codec can't decode byte 0x", Numeral.hex false 2 f.lead.toNat,
      " in position ", Numeral.decimal f.position, ": ", f.cause.text]
  else
    Text.concat ["'utf-8' codec can't decode bytes in position ", Numeral.decimal f.position, "-",
      Numeral.decimal (f.position + f.length - 1), ": ", f.cause.text]

end StreamGrammar.Utf8

namespace StreamGrammar.Ascii

/-- A byte outside ASCII and its offset. -/
structure Fault where
  /-- The offset of the byte. -/
  position : Nat
  /-- The byte. -/
  byte : UInt8
deriving DecidableEq

/-- Reads bytes from an offset on, after the code points already read (the
latest first). -/
def decodeFrom (position : Nat) (read : List CodePoint) : Bytes → Except Fault Text
  | [] => .ok read.reverse
  | b :: rest =>
    if b.toNat < 0x80 then decodeFrom (position + 1) (CodePoint.ofNat b.toNat :: read) rest
    else .error { position, byte := b }

/-- **Reads bytes as ASCII**, or says where they are not. -/
def decode (bytes : Bytes) : Except Fault Text := decodeFrom 0 [] bytes

/-- The message of a fault. -/
def Fault.message (f : Fault) : Text :=
  Text.concat ["'ascii' codec can't decode byte 0x", Numeral.hex false 2 f.byte.toNat,
    " in position ", Numeral.decimal f.position, ": ordinal not in range(128)"]

end StreamGrammar.Ascii
