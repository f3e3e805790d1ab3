import EnterpriseCopilot.Python.Base64
import EnterpriseCopilot.Runtime.Models

/-! Bearer tokens and the identity in their claims. -/

namespace EnterpriseCopilot.Auth

open EnterpriseCopilot.Python EnterpriseCopilot.Runtime

/-- What the authenticators raise. -/
inductive Failure
  | authenticationError (msg : String)
  | other (e : PyError)
  deriving DecidableEq, Repr

/-- How `json.loads` fails on bytes.  Deep nesting is a `RecursionError` and an integer of more
than 4300 digits a plain `ValueError`. -/
inductive LoadsError
  | unicodeDecodeError
  | jsonDecodeError
  | other (e : PyError)

/-- The reader of JSON, `hmac.new(key, msg, "sha256").digest()` and `str` on JSON values. -/
structure Library where
  loads : Bytes → Except LoadsError Json
  hmac_sha256 : Bytes → Bytes → Bytes
  str : Json → String

def _decode_segment (segment : List Char) : Except Failure Bytes :=
  match b64decode segment with
  | some bytes => .ok bytes
  | none => .error (.authenticationError "malformed token encoding")

def _json_segment (L : Library) (segment : List Char) : Except Failure Payload := do
  match L.loads (← _decode_segment segment) with
  | .error (.other e) => throw (.other e)
  | .error _ => throw (.authenticationError "malformed token JSON")
  | .ok (.obj value) => return value
  | .ok _ => throw (.authenticationError "token segment must be a JSON object")

/-- `now >= value` and `now < value` for the numbers of JSON; `True` is 1 and `False` is 0. -/
def reached (now : Rat) : Json → Option Bool
  | .num q => some (q ≤ now)
  | .bool b => some ((if b then 1 else 0) ≤ now)
  | .special text => some (text = "-Infinity")
  | _ => none

def precedes (now : Rat) : Json → Option Bool
  | .num q => some (now < q)
  | .bool b => some (now < if b then 1 else 0)
  | .special text => some (text = "Infinity")
  | _ => none

/-- `nbf is not None and (not isinstance(nbf, (int, float)) or now < nbf)`. -/
def tooEarly (now : Rat) : Json → Bool
  | .null => false
  | nbf => (precedes now nbf).getD true

def _claim (claims : Payload) (name : String) : Except Failure String :=
  match claims.get name with
  | .str value =>
    if isBlank value || 256 < value.length then
      .error (.authenticationError ("token claim " ++ name ++ " is required"))
    else .ok (str_strip value)
  | _ => .error (.authenticationError ("token claim " ++ name ++ " is required"))

/-- What the claims are compared with. -/
structure Expected where
  issuer : Option String := none
  audience : Option String := none
  workspace_claim : String := "workspace_id"
  tenant_claim : String := "tenant_id"
  role_claim : String := "role"

/-- `token_audience` is the audience or a list with it. -/
def hasAudience (audience : String) : Json → Bool
  | .arr xs => xs.any fun x => x.eqScalar (.str audience)
  | value => value.eqScalar (.str audience)

def _identity_from_claims (E : Expected) (claims : Payload) (now : Rat) :
    Except Failure IdentityContext :=
  if E.issuer.any fun issuer => !(claims.get "iss").eqScalar (.str issuer) then
    .error (.authenticationError "token issuer is not trusted")
  else if E.audience.any fun audience => !hasAudience audience (claims.get "aud") then
    .error (.authenticationError "token audience is not trusted")
  else if (reached now (claims.get "exp")).getD true then
    .error (.authenticationError "token is expired or has no expiry")
  else if tooEarly now (claims.get "nbf") then
    .error (.authenticationError "token is not active")
  else do
    return ⟨← _claim claims "sub", ← _claim claims E.workspace_claim, ← _claim claims E.tenant_claim,
      ← _claim claims E.role_claim⟩

/-- The three segments of the token in the header. -/
def segments (authorization : Option String) : Except Failure (List Char × List Char × List Char) :=
  match authorization with
  | none => .error (.authenticationError "Bearer authentication is required")
  | some text =>
    if "Bearer ".toList.isPrefixOf text.toList then
      match (text.toList.drop 7).splitOn '.' with
      | [header, claims, signature] =>
        if header.isEmpty || claims.isEmpty || signature.isEmpty then
          .error (.authenticationError "malformed bearer token")
        else .ok (header, claims, signature)
      | _ => .error (.authenticationError "malformed bearer token")
    else .error (.authenticationError "Bearer authentication is required")

/-- `value in {None, "JWT"}`: lists and dictionaries have no hash. -/
def isJwtType : Json → Except Failure Bool
  | .null => .ok true
  | .str value => .ok (value == "JWT")
  | .arr _ => .error (.other (.typeError "unhashable type: \'list\'"))
  | .obj _ => .error (.other (.typeError "unhashable type: \'dict\'"))
  | _ => .ok false

/-- The check of `alg` and `typ`. -/
def checkHeader (alg : String) (header : Payload) : Except Failure Unit :=
  if (header.get "alg").eqScalar (.str alg) then do
    if ← isJwtType (header.get "typ") then return ()
    else throw (.authenticationError ("only " ++ alg ++ " JWT tokens are accepted"))
  else .error (.authenticationError ("only " ++ alg ++ " JWT tokens are accepted"))

/-- The text that is signed. -/
def signedText (header claims : List Char) : Except Failure Bytes :=
  match encode_ascii (header ++ '.' :: claims) with
  | some signed => .ok signed
  | none => .error (.authenticationError "malformed bearer token")

structure JwtHs256Authenticator where
  secret : String
  issuer : Option String
  audience : Option String
  long : 32 ≤ (utf8 secret).length

namespace JwtHs256Authenticator

variable (L : Library) (a : JwtHs256Authenticator)

def authenticate (authorization : Option String) (now : Rat) : Except Failure IdentityContext := do
  let (p₀, p₁, p₂) ← segments authorization
  checkHeader "HS256" (← _json_segment L p₀)
  let signed ← signedText p₀ p₁
  let expected := L.hmac_sha256 (utf8 a.secret) signed
  let actual ← _decode_segment p₂
  if actual ≠ expected then throw (.authenticationError "invalid bearer signature")
  else _identity_from_claims { issuer := a.issuer, audience := a.audience } (← _json_segment L p₁) now

end JwtHs256Authenticator

end EnterpriseCopilot.Auth
