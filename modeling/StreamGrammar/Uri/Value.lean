import StreamGrammar.Datum
import StreamGrammar.Entries
import StreamGrammar.Grammar.Outcome

/-!
# URIs and request targets

The components of a URI, decoded: escapes are gone, so a slash inside a path
segment or an ampersand inside a query value is only a character there.
-/

namespace StreamGrammar.Uri

/-- An IPv4 address by its four octets. -/
structure IPv4 where
  /-- The first octet. -/
  a : Nat
  /-- The second octet. -/
  b : Nat
  /-- The third octet. -/
  c : Nat
  /-- The fourth octet. -/
  d : Nat
deriving DecidableEq

instance : Vacancy IPv4 where

/-- A host: an address, or a registered name in lower case. -/
inductive Host where
  /-- An IPv4 address. -/
  | ipv4 (address : IPv4)
  /-- A registered name. -/
  | name (text : Text)
deriving DecidableEq

instance : Vacancy Host where

/-- The authority of a URI. -/
structure Authority where
  /-- The user information, if there is any. -/
  userinfo : Option Text
  /-- The host. -/
  host : Host
  /-- The port, if there is one with a number. -/
  port : Option Nat
deriving DecidableEq

instance : Vacancy Authority where

/-- **An absolute URI.** -/
structure AbsoluteUri where
  /-- The scheme, in lower case. -/
  scheme : Text
  /-- The authority, if two slashes announce one. -/
  authority : Option Authority
  /-- The segments of the path. An empty one at its end is dropped. -/
  path : List Text
  /-- The parameters of the query, if a question mark announces one. -/
  query : Option (Entries Text Text)
  /-- The fragment, if a number sign announces one. -/
  fragment : Option Text
deriving DecidableEq

instance : Vacancy AbsoluteUri where

/-- **What a request asks for.** -/
inductive RequestTarget where
  /-- A path and a query on the host that is asked. -/
  | origin (path : List Text) (query : Option (Entries Text Text))
  /-- A URI, as a proxy is asked for. -/
  | absolute (uri : AbsoluteUri)
  /-- The host as a whole. -/
  | asterisk
deriving DecidableEq

instance : Vacancy RequestTarget where

/-! ## Descriptions -/

/-- The address in the usual notation. -/
def IPv4.text (ip : IPv4) : Text :=
  Text.concat [Numeral.decimal ip.a, ".", Numeral.decimal ip.b, ".", Numeral.decimal ip.c, ".",
    Numeral.decimal ip.d]

/-- An address with its description. -/
def IPv4.describe (ip : IPv4) : Datum :=
  .record "IPv4Address" [("a", .int ip.a), ("b", .int ip.b), ("c", .int ip.c), ("d", .int ip.d)]

/-- A host with its description. -/
def Host.describe : Host → Datum
  | .ipv4 address => address.describe
  | .name text => .text text

/-- An authority with its description. -/
def Authority.describe (a : Authority) : Datum :=
  .record "Authority" [("userinfo", .option .text a.userinfo), ("host", a.host.describe),
    ("port", .option (fun n => .int n) a.port)]

/-- The segments of a path with their description. -/
def describePath (path : List Text) : Datum := .tuple (path.map .text)

/-- A URI with its description. -/
def AbsoluteUri.describe (u : AbsoluteUri) : Datum :=
  .record "URI" [("scheme", .text u.scheme), ("authority", .option Authority.describe u.authority),
    ("path", describePath u.path), ("query", .option .texts u.query),
    ("fragment", .option .text u.fragment)]

/-- A request target with its description. -/
def RequestTarget.describe : RequestTarget → Datum
  | origin path query =>
    .record "OriginForm" [("path", describePath path), ("query", .option .texts query)]
  | absolute uri => .record "AbsoluteForm" [("uri", uri.describe)]
  | asterisk => .record "AsteriskForm" [("text", .text "*")]

end StreamGrammar.Uri
