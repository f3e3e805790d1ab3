import EnterpriseCopilot.Runtime.Network

/-! `urllib.parse` for texts. -/

namespace EnterpriseCopilot.Runtime

open EnterpriseCopilot.Python

/-- Letter case and normal forms of Unicode, and `ipaddress`.  `expands` holds of the characters
whose NFKC form has one of `/?#@:`, and `version` is that of an IP address. -/
structure Unicode where
  lower : String → String
  expands : Char → Bool
  version : String → Option Nat
  /-- A text of characters of a lower-case text stays. -/
  lower_fixed : ∀ s t : String, (∀ c ∈ t.toList, c ∈ (lower s).toList) → lower t = t
  lower_ascii : ∀ s : String, (∀ c ∈ s.toList, c.toNat < 128) → lower s = String.ofList (s.toList.map Char.toLower)
  /-- No character is the lower case of another one if it is an ASCII mark or has a delimiter in its form. -/
  lower_marks : ∀ (s : String) (c : Char), c ∈ (lower s).toList →
    (c.toNat < 128 ∧ c.isAlpha = false) ∨ expands c = true → c ∈ s.toList

namespace Url

/-- `text.partition(c)` and `text.rpartition(c)`, with the separator as a truth value. -/
def partition (c : Char) (text : List Char) : List Char × Bool × List Char :=
  (text.takeWhile (· != c), text.contains c, (text.dropWhile (· != c)).drop 1)

def rpartition (c : Char) (text : List Char) : List Char × Bool × List Char :=
  if text.contains c then
    (((text.reverse.dropWhile (· != c)).drop 1).reverse, true, (text.reverse.takeWhile (· != c)).reverse)
  else ([], false, text)

/-- `text.split(c, 1)`, where the second part may be missing. -/
def split (c : Char) (text : List Char) : List Char × List Char := ((partition c text).1, (partition c text).2.2)

def _splitnetloc (url : List Char) : List Char × List Char :=
  let inside := fun c => !(['/', '?', '#'].contains c)
  (url.takeWhile inside, url.dropWhile inside)

/-- The parameters of the last segment. -/
def _splitparams (url : List Char) : List Char × List Char :=
  let (before, found, last) := rpartition '/' url
  let (path, params) := split ';' last
  (if found then before ++ '/' :: path else path, params)

def isC0OrSpace (c : Char) : Bool := c.toNat ≤ 32

def isUnsafe (c : Char) : Bool := ['\t', '\r', '\n'].contains c

def scheme_chars (c : Char) : Bool := c.isAlphanum || ['+', '-', '.'].contains c

def uses_params : List String :=
  ["", "ftp", "hdl", "prospero", "http", "imap", "https", "shttp", "rtsp", "rtsps", "rtspu", "sip", "sips", "mms",
    "sftp", "tel"]

structure SplitResult where
  scheme : List Char
  netloc : List Char
  path : List Char
  query : List Char
  fragment : List Char

section

variable (U : Unicode)

def lower (text : List Char) : List Char := (U.lower (String.ofList text)).toList

/-- `v`, hexadecimal digits, a dot and something. -/
def isFuture (host : List Char) : Bool :=
  host.head? = some 'v' &&
    let (digits, dot, rest) := partition '.' (host.drop 1)
    dot && !digits.isEmpty && digits.all (fun c => c.isDigit || "abcdefABCDEF".toList.contains c) && !rest.isEmpty

def _check_bracketed_host (host : List Char) : Except PyError Unit :=
  if host.head? = some 'v' then
    if isFuture host then .ok () else .error (.valueError "IPvFuture address is invalid")
  else
    match U.version (String.ofList host) with
    | none => .error (.valueError
        ("\'" ++ String.ofList host ++ "\' does not appear to be an IPv4 or IPv6 address"))
    | some 4 => .error (.valueError "An IPv4 address cannot be in brackets")
    | some _ => .ok ()

def _check_bracketed_netloc (netloc : List Char) : Except PyError Unit :=
  let hostname_and_port := (rpartition '@' netloc).2.2
  let (before_bracket, have_open_br, bracketed) := partition '[' hostname_and_port
  if have_open_br then
    let (hostname, _, port) := partition ']' bracketed
    if !before_bracket.isEmpty || (!port.isEmpty && port.head? ≠ some ':') then .error (.valueError "Invalid IPv6 URL")
    else _check_bracketed_host U hostname
  else _check_bracketed_host U (partition ':' hostname_and_port).1

/-- A netloc with one bracket only is refused, one with both is checked. -/
def _check_brackets (netloc : List Char) : Except PyError Unit :=
  match netloc.contains '[', netloc.contains ']' with
  | true, true => _check_bracketed_netloc U netloc
  | false, false => .ok ()
  | _, _ => .error (.valueError "Invalid IPv6 URL")

/-- The NFKC form of a netloc must have no delimiters. -/
def _checknetloc (netloc : List Char) : Except PyError Unit :=
  if netloc.any fun c => 128 ≤ c.toNat && U.expands c then
    .error (.valueError
      ("netloc \'" ++ String.ofList netloc ++ "\' contains invalid characters under NFKC normalization"))
  else .ok ()

/-- The scheme, in lower case, and what follows its colon. -/
def splitScheme (url : List Char) : List Char × List Char :=
  let (scheme, found, rest) := partition ':' url
  if found && (scheme.head?.any Char.isAlpha && scheme.all scheme_chars) then (lower U scheme, rest) else ([], url)

def urlsplit (url : List Char) : Except PyError SplitResult := do
  let url := (url.dropWhile isC0OrSpace).filter (!isUnsafe ·)
  let (scheme, rest) := splitScheme U url
  let (netloc, rest) := if rest.take 2 = ['/', '/'] then _splitnetloc (rest.drop 2) else ([], rest)
  _check_brackets U netloc
  let (rest, fragment) := split '#' rest
  let (path, query) := split '?' rest
  _checknetloc U netloc
  return ⟨scheme, netloc, path, query, fragment⟩

/-- `_userinfo`. -/
def userinfo (netloc : List Char) : Option (List Char) × Option (List Char) :=
  let (info, have_info, _) := rpartition '@' netloc
  if have_info then
    let (username, have_password, password) := partition ':' info
    (some username, if have_password then some password else none)
  else (none, none)

/-- `_hostinfo`: the host and the text of the port. -/
def hostinfo (netloc : List Char) : List Char × List Char :=
  let info := (rpartition '@' netloc).2.2
  let (_, have_open_br, bracketed) := partition '[' info
  if have_open_br then
    let (hostname, _, port) := partition ']' bracketed
    (hostname, (partition ':' port).2.2)
  else ((partition ':' info).1, (partition ':' info).2.2)

/-- The zone of a scoped address keeps its case. -/
def hostname (netloc : List Char) : Option (List Char) :=
  let name := (hostinfo netloc).1
  if name.isEmpty then none
  else
    let (host, percent, zone) := partition '%' name
    some (lower U host ++ (if percent then '%' :: zone else []))

def port (netloc : List Char) : Except PyError (Option Int) :=
  let text := (hostinfo netloc).2
  if text.isEmpty then .ok none
  else if text.all Char.isDigit then do
    let port ← int text
    if port ≤ 65535 then return some port else throw (.valueError "Port out of range 0-65535")
  else .error (.valueError ("Port could not be cast to integer value as \'" ++ String.ofList text ++ "\'"))

def urlparse (url : String) : Except PyError ParseResult := do
  let parts ← urlsplit U url.toList
  let path := if uses_params.contains (String.ofList parts.scheme) then (_splitparams parts.path).1 else parts.path
  return {
    scheme := String.ofList parts.scheme
    username := (userinfo parts.netloc).1.map String.ofList
    password := (userinfo parts.netloc).2.map String.ofList
    hostname := (hostname U parts.netloc).map String.ofList
    port := port parts.netloc
    path := String.ofList path
    query := String.ofList parts.query
    fragment := String.ofList parts.fragment }

end

end Url

/-- The library, for a classification of IP addresses. -/
def Unicode.urls (U : Unicode) (is_global : String → Option Bool) : Urls where
  urlparse := Url.urlparse U
  lower := U.lower
  is_global := is_global

end EnterpriseCopilot.Runtime
