import ShaderInclude.Uri.Host

/-!
# The parts of a URI

A scheme is a letter followed by letters, digits, `+`, `.` and `-`, up to a colon. Two slashes
after it start the authority, which ends before the next `/`, `?` or `#`. A `#` ends the path,
and so does a `?`. In the last segment of the path a `;` starts parameters, but only for schemes
that have them; without a scheme they do.

Control characters and spaces in front of a URI do not count, nor do tabs and line ends inside
it. An authority is refused if it has unpaired brackets, brackets that do not enclose just the
host, a bad host in brackets, or a character that compatibility normalisation turns into a
delimiter.
-/

namespace ShaderInclude

/-- The parts of a URI that locate a file. -/
structure Uri where
  scheme : Text
  authority : Text
  path : Text

namespace Uri

/-- A character of a scheme. -/
def isSchemeChar (c : Char) : Bool := c.isAlphanum || c = '+' || c = '.' || c = '-'

/-- Schemes whose last segment may have parameters; the empty one stands for none. -/
def schemesWithParameters : List String :=
  ["", "ftp", "hdl", "prospero", "http", "imap", "https", "shttp", "rtsp", "rtspu", "sip", "sips",
    "mms", "sftp", "tel"]

/-- The scheme in small letters and what follows its colon; no scheme if there is none. -/
def splitScheme (t : Text) : Text × Text :=
  match t, Text.cutAt ':' t with
  | c :: _, (scheme, some rest) =>
    if c.isAlpha ∧ scheme.all isSchemeChar then (Text.toLower scheme, rest) else ([], t)
  | _, _ => ([], t)

/-- A character that ends an authority. -/
def endsAuthority (c : Char) : Bool := c = '/' || c = '?' || c = '#'

/-- The authority and what follows it; no authority if there is none. -/
def splitAuthority : Text → Text × Text
  | '/' :: '/' :: t => (t.takeWhile (!endsAuthority ·), t.dropWhile (!endsAuthority ·))
  | t => ([], t)

/-- Characters that compatibility normalisation turns into texts with a delimiter. -/
def hiddenDelimiters : List Char :=
  ['\u2047', '\u2048', '\u2049', '\u2100', '\u2101', '\u2105', '\u2106', '\u2a74', '\ufe13',
    '\ufe16', '\ufe55', '\ufe56', '\ufe5f', '\ufe6b', '\uff03', '\uff0f', '\uff1a', '\uff1f',
    '\uff20']

/-- What stands in an authority after the user: the host, and its port if there is one. -/
def hostAndPort (authority : Text) : Text := (authority.reverse.takeWhile (· ≠ '@')).reverse

/-- Why brackets that do not enclose just the host are refused. -/
def misplacedBrackets : Text := "Invalid IPv6 URL".toList

/-- Why the host and port of an authority with brackets are refused, if they are. An opening
bracket begins the host, which ends at the closing one; after that a port may follow. Without an
opening bracket here the host ends before the port. -/
def hostFault? (t : Text) : Option Text :=
  match Text.cutAt '[' t with
  | (_, none) => Host.fault? (Text.cutAt ':' t).1
  | (_ :: _, some _) => some misplacedBrackets
  | ([], some rest) =>
    match Text.cutAt ']' rest with
    | (host, none) | (host, some []) | (host, some (':' :: _)) => Host.fault? host
    | (_, some _) => some misplacedBrackets

/-- Why the brackets of an authority are refused, if they are. It may have none, but not only
opening or only closing ones. -/
def bracketFault? (authority : Text) : Option Text :=
  match authority.contains '[', authority.contains ']' with
  | true, true => hostFault? (hostAndPort authority)
  | false, false => none
  | _, _ => some misplacedBrackets

/-- Why an authority is refused, if it is. -/
def authorityFault? (authority : Text) : Option Text :=
  (bracketFault? authority).or
    (if authority.any hiddenDelimiters.contains then
      some ("netloc '".toList ++ authority ++
        "' contains invalid characters under NFKC normalization".toList)
    else none)

/-- The text up to the parameters of its last segment. -/
def cutParameters (t : Text) : Text :=
  let last := (t.reverse.takeWhile (· ≠ '/')).reverse
  t.take (t.length - last.length) ++ (Text.cutAt ';' last).1

/-- The text that counts. -/
def clean (t : Text) : Text :=
  (t.dropWhile fun c => c ≤ ' ').filter fun c => c ≠ '\t' && c ≠ '\r' && c ≠ '\n'

/-- Take a URI apart. Every text is one, unless its authority is refused. -/
def parse (t : Text) : Except Text Uri :=
  let (scheme, rest) := splitScheme (clean t)
  let (authority, rest) := splitAuthority rest
  match authorityFault? authority with
  | some reason => .error reason
  | none =>
    let path := (Text.cutAt '?' (Text.cutAt '#' rest).1).1
    .ok ⟨scheme, authority,
      if schemesWithParameters.contains (String.ofList scheme) then cutParameters path else path⟩

end Uri

end ShaderInclude
