import EnterpriseCopilot.Lib.Machine
import EnterpriseCopilot.Lib.Program
import EnterpriseCopilot.Auth.Token
import EnterpriseCopilot.Runtime.Network

/-! RS256 tokens and the cached keys of the OIDC provider. -/

namespace EnterpriseCopilot.Auth

open EnterpriseCopilot.Lib EnterpriseCopilot.Python EnterpriseCopilot.Runtime

/-- What else the authenticator uses: whether `cryptography` is installed, and its check of an RSA
signature with PKCS #1 v1.5 and SHA-256. -/
structure Libraries extends Library, Urls where
  cryptography : Bool
  rsa_verify : (exponent modulus : Nat) → (signature signed : Bytes) → Except PyError Unit

/-- How a request ends without a body.  `HTTPError`, `URLError` and `TimeoutError` are `OSError`s. -/
inductive FetchError
  | osError
  | other (e : PyError)

/-- The documents that are requested. -/
inductive Document
  | discovery | jwks
  deriving DecidableEq

/-- The keys by `kid`, a later one before an earlier one. -/
abbrev Keys := List (String × Payload)

/-- The attributes that change. -/
structure Cache where
  _keys : Keys := []
  _cache_expires_at : Rat := 0
  _jwks_uri : Option String := none

inductive Cmd
  | time
  | cache
  | set_keys (keys : Keys)
  | set_cache_expires_at (t : Rat)
  | set_jwks_uri (uri : String)
  | jwks_fetcher
  | fetch (document : Document) (endpoint : String)
  | verify (exponent modulus : Nat) (signature signed : Bytes)

abbrev Reply : Cmd → Type
  | .time => Rat
  | .cache => Cache
  | .set_keys _ | .set_cache_expires_at _ | .set_jwks_uri _ => Unit
  | .jwks_fetcher => Except Failure Json
  | .fetch _ _ => Except FetchError Bytes
  | .verify _ _ _ _ => Except PyError Unit

/-- The clock, and what the fetcher and the provider answer. -/
structure Choice where
  now : Rat
  fetched : Except Failure Json := .error (.other (.exception "NotImplementedError"))
  response : Document → Except FetchError Bytes := fun _ => .error .osError

def Cache.apply (L : Libraries) (s : Cache) (c : Cmd) (ch : Choice) : Reply c × Cache :=
  match c with
  | .time => (ch.now, s)
  | .cache => (s, s)
  | .set_keys keys => ((), { s with _keys := keys })
  | .set_cache_expires_at t => ((), { s with _cache_expires_at := t })
  | .set_jwks_uri uri => ((), { s with _jwks_uri := some uri })
  | .jwks_fetcher => (ch.fetched, s)
  | .fetch document _ => (ch.response document, s)
  | .verify exponent modulus signature signed =>
    (L.rsa_verify exponent modulus signature signed, s)

abbrev Code := Program Cmd Reply Failure
abbrev Log := Exchange Cmd Reply

namespace Code

def time : Code Rat := .cmd .time .pure
def cache : Code Cache := .cmd .cache .pure
def set_keys (keys : Keys) : Code Unit := .cmd (.set_keys keys) .pure
def set_cache_expires_at (t : Rat) : Code Unit := .cmd (.set_cache_expires_at t) .pure
def set_jwks_uri (uri : String) : Code Unit := .cmd (.set_jwks_uri uri) .pure
def jwks_fetcher : Code Json := .cmd .jwks_fetcher .ofExcept
def fetch (document : Document) (endpoint : String) : Code (Except FetchError Bytes) :=
  .cmd (.fetch document endpoint) .pure
def verify (exponent modulus : Nat) (signature signed : Bytes) : Code (Except PyError Unit) :=
  .cmd (.verify exponent modulus signature signed) .pure

end Code

/-- `int.from_bytes(value, "big")`. -/
def from_bytes (value : Bytes) : Nat := value.foldl (fun n byte => n * 256 + byte.toNat) 0

/-- At most 1 MiB of JSON, an object. -/
def objectOf (L : Library) (raw : Bytes) : Except Failure Payload :=
  if 1024 * 1024 < raw.length then
    .error (.authenticationError "OIDC discovery or JWKS response exceeded the limit")
  else
    match L.loads raw with
    | .error (.other e) => .error (.other e)
    | .error _ => .error (.authenticationError "OIDC discovery or JWKS returned invalid JSON")
    | .ok (.obj value) => .ok value
    | .ok _ => .error (.authenticationError "OIDC discovery or JWKS response must be an object")

/-- What `_fetch_json` makes of the answer; it reads one byte more than it accepts. -/
def answered (L : Library) : Except FetchError Bytes → Except Failure Payload
  | .error .osError => .error (.authenticationError "OIDC discovery or JWKS request failed")
  | .error (.other e) => .error (.other e)
  | .ok body => objectOf L (body.take (1024 * 1024 + 1))

/-- The entry that `_refresh_keys` makes of an item of the key set, if any. -/
def entry : Json → Option (String × Payload)
  | .obj item =>
    if !(Payload.get item "kty").eqScalar (.str "RSA") then none
    else
      match Payload.get item "kid" with
      | .str key_id =>
        if !key_id.isEmpty && ((item.lookup "alg").getD (.str "RS256")).eqScalar (.str "RS256") then
          some (key_id, item)
        else none
      | _ => none
  | _ => none

/-- The keys in the body of a key set. -/
def trusted_keys : Json → Except Failure Keys
  | .obj body =>
    match Payload.get body "keys" with
    | .arr items =>
      let keys := (items.filterMap entry).reverse
      if keys.isEmpty then
        .error (.authenticationError "OIDC JWKS contains no trusted RSA keys")
      else .ok keys
    | _ => .error (.authenticationError "OIDC JWKS response is invalid")
  | _ => .error (.authenticationError "OIDC JWKS response is invalid")

/-- The modulus and the exponent of a key. -/
def numbers (L : Library) (jwk : Payload) : Except Failure (Nat × Nat) := do
  let n ← (jwk.lookup "n").elim (throw (.other (.keyError "n"))) pure
  let modulus := from_bytes (← _decode_segment (L.str n).toList)
  let e ← (jwk.lookup "e").elim (throw (.other (.keyError "e"))) pure
  let exponent := from_bytes (← _decode_segment (L.str e).toList)
  return (modulus, exponent)

/-- `except (KeyError, ValueError, TypeError)`; an `AuthenticationError` is a `ValueError`. -/
def handled : Failure → Bool
  | .authenticationError _ => true
  | .other (.keyError _) | .other (.valueError _) | .other (.typeError _) => true
  | .other _ => false

def _verify_signature (L : Libraries) (jwk : Payload) (signed signature : Bytes) : Code Unit :=
  if !L.cryptography then
    throw (.authenticationError "cryptography is required for OIDC RS256 authentication")
  else
    (do
      let (modulus, exponent) ← Program.ofExcept (numbers L.toLibrary jwk)
      Program.ofExcept ((← Code.verify exponent modulus signature signed).mapError .other) :
      Code Unit).tryCatch fun e =>
        if handled e then throw (.authenticationError "OIDC token signature is invalid") else throw e

/-- A token whose header has been checked. -/
structure Parsed where
  kid : String
  claims : List Char
  signed : Bytes
  signature : List Char

def key_id (header : Payload) : Except Failure String :=
  match header.get "kid" with
  | .str kid =>
    if kid.isEmpty || 256 < kid.length then .error (.authenticationError "token key id is required")
    else .ok kid
  | _ => .error (.authenticationError "token key id is required")

/-- What `authenticate` does before it looks for the key. -/
def parse (L : Library) (authorization : Option String) : Except Failure Parsed := do
  let (p₀, p₁, p₂) ← segments authorization
  let header ← _json_segment L p₀
  checkHeader "RS256" header
  let kid ← key_id header
  let signed ← signedText p₀ p₁
  return ⟨kid, p₁, signed, p₂⟩

structure JwtJwksAuthenticator where
  issuer : String
  audience : Option String
  timeout_seconds : Rat
  cache_seconds : Int
  workspace_claim : String
  tenant_claim : String
  role_claim : String
  _approved_hosts : List String
  /-- A `jwks_fetcher` was passed. -/
  fetcher : Bool
  timely : 0 < timeout_seconds ∧ timeout_seconds ≤ 30
  lasting : 0 < cache_seconds ∧ cache_seconds ≤ 86400

namespace JwtJwksAuthenticator

section Construct

variable (L : Libraries)

def validate (approved_hosts : List String) (endpoint : String) : Except Failure String :=
  (validated_https_endpoint L.toUrls endpoint approved_hosts "OIDC" "/").mapError .other

def init (issuer : String) (audience : Option String) (allowed_hosts : List String)
    (jwks_uri : Option String) (timeout_seconds : Rat) (cache_seconds : Int)
    (workspace_claim tenant_claim role_claim : String) (fetcher : Bool) :
    Except Failure (JwtJwksAuthenticator × Cache) := do
  let parsed_issuer ← (L.urlparse issuer).mapError .other
  let host := L.lower (parsed_issuer.hostname.getD "")
  let approved_hosts := (allowed_hosts.filter fun item => !isBlank item).map fun item =>
    L.lower (str_strip item)
  if parsed_issuer.scheme ≠ "https" || host.isEmpty || !approved_hosts.contains host then
    throw (.other (.valueError "OIDC issuer must be HTTPS and match an approved host"))
  else if isTruthy parsed_issuer.username || isTruthy parsed_issuer.password ||
      !parsed_issuer.query.isEmpty || !parsed_issuer.fragment.isEmpty then
    throw (.other (.valueError "OIDC issuer must not embed credentials or query values"))
  else if timely : 0 < timeout_seconds ∧ timeout_seconds ≤ 30 then
    if lasting : 0 < cache_seconds ∧ cache_seconds ≤ 86400 then do
      let uri ← (truthy jwks_uri).mapM (validate L approved_hosts)
      return ({ issuer := rstrip '/' issuer, audience, timeout_seconds, cache_seconds, workspace_claim,
                tenant_claim, role_claim, _approved_hosts := approved_hosts, fetcher, timely,
                lasting }, { _jwks_uri := uri })
    else throw (.other (.valueError "OIDC JWKS cache must be between 1 and 86400 seconds"))
  else throw (.other (.valueError "OIDC timeout must be between 0 and 30 seconds"))

end Construct

variable (L : Libraries) (a : JwtJwksAuthenticator)

def _validate_endpoint (endpoint : String) : Except Failure String :=
  validate L a._approved_hosts endpoint

def _fetch_json (document : Document) (endpoint : String) : Code Payload := do
  Program.ofExcept (answered L.toLibrary (← Code.fetch document endpoint))

/-- The URI in a discovery document. -/
def discovered (body : Payload) : Except Failure String :=
  if !(body.get "issuer").eqScalar (.str a.issuer) then
    .error (.authenticationError "OIDC discovery issuer does not match configuration")
  else
    match body.get "jwks_uri" with
    | .str jwks_uri => a._validate_endpoint L jwks_uri
    | _ => .error (.authenticationError "OIDC discovery has no JWKS URI")

def _discovery_jwks_uri : Code String := do
  let body ← _fetch_json L .discovery (a.issuer ++ "/.well-known/openid-configuration")
  let jwks_uri ← Program.ofExcept (a.discovered L body)
  Code.set_jwks_uri jwks_uri
  return jwks_uri

/-- The endpoint of the key set, known or discovered. -/
def endpoint : Code String := do
  match truthy (← Code.cache)._jwks_uri with
  | some uri => return uri
  | none => a._discovery_jwks_uri L

theorem endpoint_eq : a.endpoint L =
    .cmd .cache fun c => (truthy c._jwks_uri).elim (a._discovery_jwks_uri L) .pure := by
  refine congrArg (Program.cmd Cmd.cache) (funext fun c => ?_)
  rw [Program.pure_bind]
  cases truthy c._jwks_uri <;> rfl

def body : Code Json :=
  if a.fetcher then Code.jwks_fetcher
  else do
    let endpoint ← a.endpoint L
    let value ← _fetch_json L .jwks endpoint
    return .obj value

def _refresh_keys : Code Unit := do
  let body ← a.body L
  let keys ← Program.ofExcept (trusted_keys body)
  Code.set_keys keys
  let now ← Code.time
  Code.set_cache_expires_at (now + a.cache_seconds)

/-- The last lookup of `_key_for`. -/
def lookup (kid : String) : Code Payload := do
  match (← Code.cache)._keys.lookup kid with
  | some key => return key
  | none => throw (.authenticationError "token signing key is not trusted")

theorem lookup_eq (kid : String) : lookup kid = .cmd .cache fun c =>
    (c._keys.lookup kid).elim (.throw (.authenticationError "token signing key is not trusted"))
      .pure := by
  refine congrArg (Program.cmd Cmd.cache) (funext fun c => ?_)
  rw [Program.pure_bind]
  cases c._keys.lookup kid <;> rfl

/-- The key, after a forced refresh if it is unknown. -/
def known (kid : String) : Code Payload := do
  match (← Code.cache)._keys.lookup kid with
  | some key => return key
  | none => do
    a._refresh_keys L
    lookup kid

theorem known_eq (kid : String) : a.known L kid = .cmd .cache fun c =>
    (c._keys.lookup kid).elim ((a._refresh_keys L).bind fun _ => lookup kid) .pure := by
  refine congrArg (Program.cmd Cmd.cache) (funext fun c => ?_)
  rw [Program.pure_bind]
  cases c._keys.lookup kid <;> rfl

def _key_for (kid : String) : Code Payload := do
  let now ← Code.time
  let cache ← Code.cache
  if cache._cache_expires_at ≤ now then do
    a._refresh_keys L
    a.known L kid
  else a.known L kid

def expected : Expected where
  issuer := some a.issuer
  audience := a.audience
  workspace_claim := a.workspace_claim
  tenant_claim := a.tenant_claim
  role_claim := a.role_claim

/-- What `authenticate` does once it has the key.  The clock is also read for claims of another
issuer or audience, which has no effect. -/
def check (token : Parsed) (key : Payload) : Code IdentityContext := do
  let signature ← Program.ofExcept (_decode_segment token.signature)
  _verify_signature L key token.signed signature
  let claims ← Program.ofExcept (_json_segment L.toLibrary token.claims)
  let now ← Code.time
  Program.ofExcept (_identity_from_claims a.expected claims now)

def authenticate (authorization : Option String) : Code IdentityContext := do
  let token ← Program.ofExcept (parse L.toLibrary authorization)
  let key ← a._key_for L token.kid
  a.check L token key

/-- One call: its result, the caches before and after, and what it asked. -/
structure Call where
  authorization : Option String
  result : Except Failure IdentityContext
  log : Log

def call (s : Cache) (authorization : Option String) (ω : Nat → Choice) : Call × Cache :=
  let o := Program.run (Cache.apply L) (a.authenticate L authorization) ω s
  (⟨authorization, o.result, o.log⟩, o.state)

/-- Calls one after the other. -/
def machine : Machine Cache (Option String × (Nat → Choice)) Call where
  step s x := some ((a.call L s x.1 x.2).2, (a.call L s x.1 x.2).1)

end JwtJwksAuthenticator

end EnterpriseCopilot.Auth
