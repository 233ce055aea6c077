import StreamGrammar.Charset
import StreamGrammar.Grammar.Complete
import StreamGrammar.Text.Lowercase
import StreamGrammar.Uri.Value

/-!
# The URI grammar

The grammar of RFC 3986 over text, with the characters of RFC 3987 beside those
of ASCII, and the request targets of RFC 9112. Delimiters are recognised in
the text as it stands, before any escape is decoded.

Escapes that follow one another are decoded together, as one character can
take several. The percent sign commits: two hexadecimal digits have to follow,
and together the escapes have to be UTF-8.
-/

namespace StreamGrammar.Uri

open Grammar

/-- Parsers over text. -/
abbrev TextGrammar (α : Type) := Grammar CodePoint α

/-! ## Escapes -/

/-- The conversion of the two digits of an escape. -/
def hexPairConversion : Conversion Text UInt8 where
  label := "percent escape"
  describe := .text
  convert digits :=
    if digits.all fun c => Charset.isHexDigit c.val then
      .ok (UInt8.ofNat (digits.foldl (fun n c => 16 * n + Charset.hexValue c.val) 0))
    else .error (.stated "not a hex pair")

/-- One escape: the byte it stands for. -/
def escapedByte : TextGrammar UInt8 :=
  preceded (ascii '%') (halt "percent escape" (convertOrHalt hexPairConversion (take 2)))

/-- The conversion of the bytes of a run of escapes. -/
def escapesConversion : Conversion Bytes Text where
  label := "percent-encoded UTF-8"
  describe bytes := .list (bytes.map fun b => .int b.toNat)
  convert bytes := (Utf8.decode bytes).mapError .utf8

/-- **A run of escapes**, as the text it stands for. -/
def percentEncoded : TextGrammar Text := convertOrHalt escapesConversion (repeatSome escapedByte)

/-- A plus sign, which stands for a blank. -/
def plusSign : TextGrammar Text := (ascii '+').map fun _ => " "

/-- A component: escapes, plus signs and characters that stand for themselves,
at least one of them. -/
def component (isPlain : Nat → Bool) : TextGrammar Text :=
  (repeatSome (eitherOf [percentEncoded, plusSign, takeSomeWhile fun c => isPlain c.val])).map
    Text.concat

/-! ## Character classes -/

/-- A character of a registered name. -/
def isNameChar (n : Nat) : Bool :=
  Charset.isUnreserved n || (Charset.isOneOf Charset.subDelims n && n != 0x2B)

/-- A character of the user information. -/
def isUserinfoChar (n : Nat) : Bool := isNameChar n || n == 0x3A

/-- A character of a path segment. -/
def isSegmentChar (n : Nat) : Bool := isNameChar n || Charset.isOneOf [':', '@'] n

/-- A character of a key or value of a query. -/
def isQueryChar (n : Nat) : Bool :=
  (isSegmentChar n && !Charset.isOneOf ['&', '='] n) || Charset.isOneOf ['/', '?'] n

/-- A character of a fragment. -/
def isFragmentChar (n : Nat) : Bool := isSegmentChar n || Charset.isOneOf ['/', '?'] n

/-! ## Scheme and authority -/

/-- A scheme. -/
def scheme : TextGrammar Text :=
  (serial alphaChar
    (takeWhile fun c =>
      Charset.isAlphanumeric c.val || Charset.isOneOf Charset.schemeMarks c.val)).map
    fun v => Text.asciiLower (v.1 :: v.2)

/-- The number that digits denote. -/
def digitsValue (digits : Text) : Nat := Numeral.ofDigits (digits.map fun c => c.val - 48)

/-- A digit. -/
def digit : TextGrammar CodePoint := satisfy (fun c => Charset.isDigit c.val) (.named "digit")

/-- **A number up to 255** without superfluous zeros, the alternatives with the
most digits first. -/
def decOctet : TextGrammar Nat :=
  either
    ((serial3 (ascii '2') (ascii '5') (asciiOf ['0', '1', '2', '3', '4', '5'])).map
      fun v => digitsValue [v.1, v.2.1, v.2.2])
    (either
      ((serial3 (ascii '2') (asciiOf ['0', '1', '2', '3', '4']) digit).map
        fun v => digitsValue [v.1, v.2.1, v.2.2])
      (either
        ((serial3 (ascii '1') digit digit).map fun v => digitsValue [v.1, v.2.1, v.2.2])
        (either
          ((serial (asciiOf ['1', '2', '3', '4', '5', '6', '7', '8', '9']) digit).map
            fun v => digitsValue [v.1, v.2])
          (digit.map fun c => digitsValue [c]))))

/-- An IPv4 address. -/
def ipv4Address : TextGrammar IPv4 :=
  (serial4 (terminated decOctet (ascii '.')) (terminated decOctet (ascii '.'))
    (terminated decOctet (ascii '.')) decOctet).map
    fun v => { a := v.1, b := v.2.1, c := v.2.2.1, d := v.2.2.2 }

/-- What ends a host: the start of the next component, a character that no URI
holds, or the end of the input. -/
def hostEnd : TextGrammar Unit :=
  eitherOf [
    (peek (satisfy
      (fun c => Charset.isOneOf [':', '/', '?', '#'] c.val || Charset.isUriEnd c.val)
      (.named "end of host"))).map fun _ => (),
    endOfInput]

/-- A registered name, possibly empty. -/
def regName : TextGrammar Text :=
  (repeatAny (eitherOf [percentEncoded, takeSomeWhile fun c => isNameChar c.val])).map
    fun parts => Text.lower (Text.concat parts)

/-- **A host**: an address where the whole host is one, and else a name. -/
def host : TextGrammar Host :=
  either ((terminated ipv4Address hostEnd).map .ipv4) (regName.map .name)

/-- The greatest port. -/
def maxPort : Nat := 65535

/-- The conversion of the digits of a port; no digits are no port. -/
def portConversion : Conversion Text (Option Nat) where
  label := "port"
  describe := .text
  convert digits :=
    if digits.isEmpty then .ok none
    else if Numeral.maxDigits < digits.length then .error (.tooManyDigits digits.length)
    else if maxPort < digitsValue digits then
      .error (.stated (Text.concat ["port out of range 0-", Numeral.decimal maxPort]))
    else .ok (some (digitsValue digits))

/-- A port after its colon. -/
def port : TextGrammar (Option Nat) :=
  preceded (ascii ':')
    (convertOrHalt portConversion (takeWhile fun c => Charset.isDigit c.val))

/-- The user information before its at sign. -/
def userinfo : TextGrammar Text :=
  terminated
    ((repeatAny (eitherOf [percentEncoded, takeSomeWhile fun c => isUserinfoChar c.val])).map
      Text.concat)
    (ascii '@')

/-- An authority. -/
def authority : TextGrammar Authority :=
  (serial3 (optional userinfo) host (optional port)).map
    fun v => { userinfo := v.1, host := v.2.1, port := v.2.2.join }

/-! ## Path, query and fragment -/

/-- A segment of a path that is not empty. -/
def segment : TextGrammar Text := component isSegmentChar

/-- The segments of a path, without an empty one at the end. -/
def pathOf (segments : List (Option Text)) : List Text :=
  let path := segments.map fun s => s.getD []
  if path.getLast? = some [] then path.dropLast else path

/-- A path without a slash before it. -/
def relativePath : TextGrammar (List Text) :=
  (separatedItems (ascii '/') (optional segment)).map pathOf

/-- A path after a slash. -/
def absolutePath : TextGrammar (List Text) := preceded (ascii '/') relativePath

/-- A key or a value of a query. -/
def queryToken : TextGrammar Text := component isQueryChar

/-- A parameter of a query: a key and, after an equals sign, a value. -/
def queryPair : TextGrammar (Text × Text) :=
  (serial queryToken (optional (preceded (ascii '=') (optional queryToken)))).map
    fun v => (v.1, v.2.join.getD [])

/-- **A query** after its question mark. -/
def query : TextGrammar (Entries Text Text) :=
  preceded (ascii '?') ((separatedItems (ascii '&') queryPair).map Entries.ofPairs)

/-- A fragment after its number sign. -/
def fragment : TextGrammar Text :=
  preceded (ascii '#') ((optional (component isFragmentChar)).map fun f => f.getD [])

/-! ## URIs and request targets -/

/-- The part of a URI between scheme and query. -/
def hierarchy : TextGrammar (Option Authority × List Text) :=
  eitherOf [
    (serial (preceded (token ['/', '/']) authority) (optional absolutePath)).map
      fun v => (some v.1, v.2.getD []),
    absolutePath.map fun path => (none, path),
    relativePath.map fun path => (none, path)]

/-- **An absolute URI.** -/
def absoluteUri : TextGrammar AbsoluteUri :=
  label
    ((serial4 (terminated scheme (ascii ':')) hierarchy (optional query) (optional fragment)).map
      fun v =>
        { scheme := v.1, authority := v.2.1.1, path := v.2.1.2, query := v.2.2.1,
          fragment := v.2.2.2 })
    "absolute URI"

/-- What ends a request target: a character that no URI holds, or the end of
the input. -/
def targetEnd : TextGrammar Unit :=
  eitherOf [
    (peek (satisfy (fun c => Charset.isUriEnd c.val) (.named "end of request target"))).map
      fun _ => (),
    endOfInput]

/-- **A request target.** -/
def requestTarget : TextGrammar RequestTarget :=
  eitherOf [
    terminated ((ascii '*').map fun _ => .asterisk) targetEnd,
    terminated ((serial absolutePath (optional query)).map fun v => .origin v.1 v.2) targetEnd,
    terminated (absoluteUri.map .absolute) targetEnd]

/-! ## Complete texts -/

/-- Any text with escapes and plus signs. -/
def anyComponent : TextGrammar Text :=
  (repeatAny (eitherOf [percentEncoded, plusSign, otherThan (Element.piece ['%', '+'])])).map
    Text.concat

/-- The settings of a decoding. -/
def decodeSettings (maxSourceSize : Option Int) : ParseSettings :=
  { maxSourceSize, template := some fun reason _ => .percentDecodingFailed reason }

/-- The settings of a parse of a URI or a request target. -/
def uriSettings (maxSourceSize : Option Int) : ParseSettings :=
  { maxSourceSize, template := some .uriInvalid }

/-- **A text with its escapes decoded.** -/
def decodeComponent (text : Text) (maxSourceSize : Option Int) : Except Failure Text :=
  anyComponent.parseAll text (decodeSettings maxSourceSize)

/-- **The URI that a text spells.** -/
def parseUri (text : Text) (maxSourceSize : Option Int) : Except Failure AbsoluteUri :=
  absoluteUri.parseAll text (uriSettings maxSourceSize)

/-- **The request target that a text spells.** -/
def parseRequestTarget (text : Text) (maxSourceSize : Option Int) :
    Except Failure RequestTarget :=
  requestTarget.parseAll text (uriSettings maxSourceSize)

end StreamGrammar.Uri
