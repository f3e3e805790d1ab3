import EnterpriseCopilot.Python.Text

/-! Endpoint checks that the outbound adapters share. -/

namespace EnterpriseCopilot.Runtime

open EnterpriseCopilot.Python

/-- The attributes of a parsed URL that the checks read.  Reading the port may fail. -/
structure ParseResult where
  scheme : String
  username : Option String := none
  password : Option String := none
  hostname : Option String := none
  port : Except PyError (Option Int) := .ok none
  path : String := ""
  query : String := ""
  fragment : String := ""

/-- `urllib.parse.urlparse`, `str.lower` and `ipaddress.ip_address(host).is_global`, which is
`none` where the host is no address. -/
structure Urls where
  urlparse : String → Except PyError ParseResult
  lower : String → String
  is_global : String → Option Bool

def _BLOCKED_HOSTNAMES : List String :=
  ["localhost", "localhost.localdomain", "metadata", "metadata.google.internal",
    "instance-data.ec2.internal"]

section

variable (U : Urls)

/-- Literal private targets and well-known cloud metadata names. -/
def is_disallowed_host (host : String) : Bool :=
  let normalized := U.lower (rstrip '.' host)
  if _BLOCKED_HOSTNAMES.contains normalized ||
      ".localhost".toList.isSuffixOf normalized.toList then true
  else
    match U.is_global normalized with
    | none => false
    | some is_global => !is_global

/-- `urlunparse(("https", netloc, path, "", "", ""))`. -/
def urlunparse (netloc path : String) : String :=
  if path.isEmpty || path.toList.head? = some '/' then "https://" ++ netloc ++ path
  else "https://" ++ netloc ++ "/" ++ path

/-- An empty text is false. -/
def isTruthy (text : Option String) : Bool := (truthy text).isSome

def validated_https_endpoint (endpoint : String) (allowed_hosts : List String) (label : String)
    (default_path : String) : Except PyError String := do
  let parsed ← U.urlparse endpoint
  let host := rstrip '.' (U.lower (parsed.hostname.getD ""))
  let approved_hosts := (allowed_hosts.filter fun item => !isBlank item).map fun item =>
    rstrip '.' (U.lower (str_strip item))
  if parsed.scheme ≠ "https" || host.isEmpty || !approved_hosts.contains host ||
      is_disallowed_host U host then
    throw (.valueError (label ++ " endpoint must be HTTPS, public and match an approved host"))
  else if isTruthy parsed.username || isTruthy parsed.password || !parsed.query.isEmpty ||
      !parsed.fragment.isEmpty then
    throw (.valueError (label ++ " endpoint must not embed credentials or query values"))
  else
    match parsed.port with
    | .error (.valueError _) => throw (.valueError (label ++ " endpoint port is invalid"))
    | .error e => throw e
    | .ok port =>
      if port.any fun port => !(1 ≤ port && port ≤ 65535) then
        throw (.valueError (label ++ " endpoint port is invalid"))
      else
        let netloc := (port.map fun port => host ++ ":" ++ toString port).getD host
        let path := rstrip '/' (if parsed.path.isEmpty then default_path else parsed.path)
        return urlunparse netloc (if path.isEmpty then "/" else path)

end

end EnterpriseCopilot.Runtime
