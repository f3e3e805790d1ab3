import EnterpriseCopilot.Auth.Provider

/-! Which exceptions leave `authenticate`. -/

namespace EnterpriseCopilot.Auth

open EnterpriseCopilot.Lib EnterpriseCopilot.Python EnterpriseCopilot.Runtime

/-- The outcome is a value or an `AuthenticationError`. -/
def Contained {α : Type} (o : Except Failure α) : Prop :=
  (∃ a, o = .ok a) ∨ ∃ msg, o = .error (.authenticationError msg)

/-- Any other exception. -/
def Other {α : Type} (o : Except Failure α) : Prop := ∃ e, o = .error (.other e)

section Outcomes

variable {α β : Type}

theorem contained_iff {o : Except Failure α} : Contained o ↔ ¬ Other o := by
  cases o with
  | ok a => simp [Contained, Other]
  | error e => cases e <;> simp [Contained, Other]

@[simp] theorem not_other_ok {a : α} : ¬ Other (.ok a : Except Failure α) := nofun

@[simp] theorem not_other_authenticationError {msg : String} :
    ¬ Other (.error (.authenticationError msg) : Except Failure α) := nofun

theorem other_bind {x : Except Failure α} {f : α → Except Failure β} :
    Other (x >>= f) ↔ Other x ∨ ∃ a, x = .ok a ∧ Other (f a) := by
  cases x with
  | error e =>
    have h : ((.error e : Except Failure α) >>= f) = .error e := rfl
    simp [h, Other]
  | ok a => simp [ok_bind]

theorem not_other_bind {x : Except Failure α} {f : α → Except Failure β} (hx : ¬ Other x)
    (hf : ∀ a, ¬ Other (f a)) : ¬ Other (x >>= f) := by
  rw [other_bind]
  rintro (h | ⟨a, _, h⟩)
  · exact hx h
  · exact hf a h

end Outcomes

section Segments

variable {L : Library} {p : List Char}

/-- The segment is valid base64 on which the JSON decoder raises something other than
`UnicodeDecodeError` and `JSONDecodeError`. -/
def Breaks (L : Library) (segment : List Char) : Prop :=
  ∃ bytes e, b64decode segment = some bytes ∧ L.loads bytes = .error (.other e)

def Unhashable (typ : Json) : Prop := (∃ xs, typ = .arr xs) ∨ ∃ kvs, typ = .obj kvs

/-- The header segment breaks the decoder, or has the algorithm and a list or dictionary as `typ`. -/
def HeaderBreaks (L : Library) (alg : String) (segment : List Char) : Prop :=
  Breaks L segment ∨ ∃ header, Decodes L segment header ∧ header.get "alg" = .str alg ∧
    Unhashable (header.get "typ")

theorem decode_not_other : ¬ Other (_decode_segment p) := by
  unfold _decode_segment
  cases b64decode p <;> simp

theorem json_other : Other (_json_segment L p) ↔ Breaks L p := by
  unfold _json_segment Breaks
  rw [other_bind]
  simp only [decode_not_other, false_or, _decode_segment_ok]
  refine exists_congr fun bytes => ?_
  cases L.loads bytes with
  | error e => cases e <;> simp [Other, throw, throwThe, MonadExceptOf.throw]
  | ok value => cases value <;> simp [Other, throw, throwThe, MonadExceptOf.throw, pure, Except.pure]

theorem checkHeader_other {alg : String} {header : Payload} :
    Other (checkHeader alg header) ↔ header.get "alg" = .str alg ∧ Unhashable (header.get "typ") := by
  unfold checkHeader Unhashable
  rw [← eqScalar_str]
  cases (header.get "alg").eqScalar (.str alg) with
  | false => simp
  | true =>
    cases header.get "typ" with
    | str s =>
      by_cases h : s = "JWT" <;>
        simp [isJwtType, h, ok_bind, throw, throwThe, MonadExceptOf.throw, pure, Except.pure]
    | _ => simp [isJwtType, Other, bind, Except.bind, throw, throwThe, MonadExceptOf.throw, pure,
        Except.pure]

theorem signedText_not_other {p₀ p₁ : List Char} : ¬ Other (signedText p₀ p₁) := by
  unfold signedText
  cases encode_ascii (p₀ ++ '.' :: p₁) <;> simp

theorem segments_not_other {authorization : Option String} : ¬ Other (segments authorization) := by
  rintro ⟨e, h⟩
  obtain ⟨msg, hmsg⟩ := segments_error h
  cases hmsg

theorem claim_not_other {claims : Payload} {name : String} : ¬ Other (_claim claims name) := by
  unfold _claim
  split
  · split <;> simp
  · simp

theorem identity_not_other {E : Expected} {claims : Payload} {now : Rat} :
    ¬ Other (_identity_from_claims E claims now) := by
  unfold _identity_from_claims
  split
  · simp
  · split
    · simp
    · split
      · simp
      · split
        · simp
        · exact not_other_bind claim_not_other fun _ => not_other_bind claim_not_other fun _ =>
            not_other_bind claim_not_other fun _ => not_other_bind claim_not_other fun _ => nofun

end Segments

section HS256

/-- The inputs on which something else than an `AuthenticationError` is raised. -/
def HS256Breaks (L : Library) (a : JwtHs256Authenticator) (authorization : Option String) : Prop :=
  ∃ p₀ p₁ p₂, Bearer authorization p₀ p₁ p₂ ∧ (HeaderBreaks L "HS256" p₀ ∨
    ((∃ header, Decodes L p₀ header ∧ checkHeader "HS256" header = .ok ()) ∧
      (∃ signed, encode_ascii (p₀ ++ '.' :: p₁) = some signed ∧
        b64decode p₂ = some (L.hmac_sha256 (utf8 a.secret) signed)) ∧ Breaks L p₁))

theorem hs256_other_iff {L : Library} {a : JwtHs256Authenticator} {authorization : Option String}
    {now : Rat} : Other (a.authenticate L authorization now) ↔ HS256Breaks L a authorization := by
  unfold JwtHs256Authenticator.authenticate HS256Breaks
  simp only [other_bind, segments_not_other, false_or, Prod.exists, segments_ok, json_other,
    _json_segment_ok, checkHeader_other, signedText_not_other, signedText_ok, decode_not_other,
    _decode_segment_ok]
  refine exists_congr fun p₀ => exists_congr fun p₁ => exists_congr fun p₂ => and_congr_right fun _ => ?_
  constructor
  · rintro (hbreaks | ⟨header, hheader, htyp | ⟨_, hcheck, signed, hsigned, actual, hactual, hrest⟩⟩)
    · exact .inl (.inl hbreaks)
    · exact .inl (.inr ⟨header, hheader, htyp⟩)
    · split at hrest
      · exact absurd hrest not_other_authenticationError
      · rename_i heq
        refine .inr ⟨⟨header, hheader, hcheck⟩, ⟨signed, hsigned, ?_⟩, ?_⟩
        · rw [hactual, not_not.mp heq]
        · rw [other_bind, json_other] at hrest
          exact hrest.resolve_right fun ⟨_, _, h⟩ => identity_not_other h
  · rintro ((hbreaks | ⟨header, hheader, htyp⟩) |
      ⟨⟨header, hheader, hcheck⟩, ⟨signed, hsigned, hsig⟩, hbreaks⟩)
    · exact .inl hbreaks
    · exact .inr ⟨header, hheader, .inl htyp⟩
    · refine .inr ⟨header, hheader, .inr ⟨(), hcheck, signed, hsigned, _, hsig, ?_⟩⟩
      rw [if_neg (not_not.mpr rfl), other_bind]
      exact .inl (json_other.mpr hbreaks)

end HS256

section Jwks

variable (L : Libraries) (a : JwtJwksAuthenticator)

/-- A request that ends in something else than `OSError`, or a body of at most 1 MiB that breaks the
decoder of JSON. -/
def Unread (r : Except FetchError Bytes) : Prop := (∃ e, r = .error (.other e)) ∨
  ∃ body e, r = .ok body ∧ body.length ≤ 1024 * 1024 ∧ L.loads body = .error (.other e)

/-- A discovery document of the issuer whose `jwks_uri` is refused. -/
def Refused (r : Except FetchError Bytes) : Prop := ∃ body value uri e, r = .ok body ∧
  body.length ≤ 1024 * 1024 ∧ L.loads body = .ok (.obj value) ∧
  Payload.get value "issuer" = .str a.issuer ∧ Payload.get value "jwks_uri" = .str uri ∧
  a._validate_endpoint L uri = .error e

/-- An answer for which the code has no handler. -/
def Escapes : (c : Cmd) × Reply c → Prop
  | ⟨.jwks_fetcher, r⟩ => ∃ e, r = .error (.other e)
  | ⟨.fetch .jwks _, r⟩ => Unread L r
  | ⟨.fetch .discovery _, r⟩ => Unread L r ∨ Refused L a r
  | ⟨.verify _ _ _ _, r⟩ => ∃ e, r = .error e ∧ handled (.other e) = false
  | _ => False

/-- The token in the header has a signature that was found valid and claims that break the decoder
of JSON. -/
def ClaimsBreak (authorization : Option String) (log : Log) : Prop :=
  (∃ e n signature signed, ⟨.verify e n signature signed, .ok ()⟩ ∈ log) ∧
    ∃ p₀ p₁ p₂, Bearer authorization p₀ p₁ p₂ ∧ Breaks L.toLibrary p₁

/-- The program raises another exception exactly when it gets an answer that escapes. -/
structure Telling {α : Type} (p : Code α) : Prop where
  tells : ∀ {s log o t}, Program.Exec (Cache.apply L) p s log o t →
    (Other o ↔ ∃ x ∈ log, Escapes L a x)

variable {L a} {α β : Type}

theorem Telling.pure (v : α) : Telling L a (.pure v) := by
  refine ⟨fun {s log o t} h => ?_⟩
  obtain ⟨rfl, rfl, rfl⟩ := Program.exec_pure.mp h
  simp

theorem Telling.ofExcept {x : Except Failure α} (hx : ¬ Other x) :
    Telling L a (Program.ofExcept x) := by
  refine ⟨fun {s log o t} h => ?_⟩
  obtain ⟨rfl, rfl, rfl⟩ := Program.exec_ofExcept.mp h
  simp [hx]

theorem Telling.bind {p : Code α} {f : α → Code β} (hp : Telling L a p)
    (hf : ∀ v, Telling L a (f v)) : Telling L a (p.bind f) := by
  refine ⟨fun {s log o t} h => ?_⟩
  obtain ⟨e, h₁, rfl⟩ | ⟨v, u, l₁, l₂, h₁, h₂, rfl⟩ := Program.exec_bind.mp h
  · rw [← hp.tells h₁]
    simp [Other]
  · have hquiet := mt (hp.tells h₁).mpr not_other_ok
    rw [(hf v).tells h₂]
    simp only [List.mem_append, or_and_right, exists_or, hquiet, false_or]

/-- A command that is no request. -/
theorem Telling.silent {c : Cmd} {k : Reply c → Code α} (hc : ∀ r, ¬ Escapes L a ⟨c, r⟩)
    (hk : ∀ r, Telling L a (k r)) : Telling L a (.cmd c k) := by
  refine ⟨fun {s log o t} h => ?_⟩
  obtain ⟨ch, rest, rfl, hrest⟩ := Program.exec_issue.mp h
  rw [(hk _).tells hrest]
  simp [hc]

/-- A request whose answer decides by way of `f`. -/
theorem Telling.request {c : Cmd} {f : Reply c → Except Failure β} {k : β → Code α}
    (hc : ∀ r, Escapes L a ⟨c, r⟩ ↔ Other (f r)) (hk : ∀ v, Telling L a (k v)) :
    Telling L a (.cmd c fun r => (Program.ofExcept (f r)).bind k) := by
  refine ⟨fun {s log o t} h => ?_⟩
  obtain ⟨ch, rest, rfl, hrest⟩ := Program.exec_issue.mp h
  clear h
  obtain ⟨e, h₁, rfl⟩ | ⟨v, u, l₁, l₂, h₁, h₂, rfl⟩ := Program.exec_bind.mp hrest
  · obtain ⟨rfl, he, rfl⟩ := Program.exec_ofExcept.mp h₁
    simp only [List.mem_singleton, exists_eq_left, hc, ← he]
    simp [Other]
  · obtain ⟨rfl, hok, rfl⟩ := Program.exec_ofExcept.mp h₁
    rw [(hk v).tells h₂]
    simp only [List.nil_append, List.mem_cons, exists_eq_or_imp, hc, ← hok, not_other_ok, false_or]

theorem Telling.answer {c : Cmd} {f : Reply c → Except Failure α}
    (hc : ∀ r, Escapes L a ⟨c, r⟩ ↔ Other (f r)) :
    Telling L a (.cmd c fun r => Program.ofExcept (f r)) := by
  refine ⟨fun {s log o t} h => ?_⟩
  obtain ⟨ch, rest, rfl, hrest⟩ := Program.exec_issue.mp h
  obtain ⟨rfl, rfl, rfl⟩ := Program.exec_ofExcept.mp hrest
  simp [hc]

theorem ofExcept_bind {x : Except Failure α} {f : α → Except Failure β} :
    (Program.ofExcept (x >>= f) : Code β) = (Program.ofExcept x).bind fun v => .ofExcept (f v) := by
  cases x <;> rfl

theorem trusted_keys_not_other {body : Json} : ¬ Other (trusted_keys body) := by
  rintro ⟨e, h⟩
  obtain ⟨⟨msg, hmsg⟩, _⟩ := trusted_keys_error h
  cases hmsg

theorem objectOf_ok {L : Library} {raw : Bytes} {value : Payload} : objectOf L raw = .ok value ↔
    raw.length ≤ 1024 * 1024 ∧ L.loads raw = .ok (.obj value) := by
  unfold objectOf
  split
  · rename_i hlong
    simp only [reduceCtorEq, false_iff, not_and]
    intro hshort
    omega
  · rename_i hshort
    cases L.loads raw with
    | error e => cases e <;> simp
    | ok json => cases json <;> simp [Nat.not_lt.mp hshort]

theorem objectOf_other {L : Library} {raw : Bytes} : Other (objectOf L raw) ↔
    raw.length ≤ 1024 * 1024 ∧ ∃ e, L.loads raw = .error (.other e) := by
  unfold objectOf
  split
  · rename_i hlong
    simp only [not_other_authenticationError, false_iff, not_and]
    intro hshort
    omega
  · rename_i hshort
    cases L.loads raw with
    | error e => cases e <;> simp [Other, Nat.not_lt.mp hshort]
    | ok json => cases json <;> simp

/-- Reading one byte more than the limit tells whether the body exceeds it. -/
theorem read_iff {P : Bytes → Prop} {body : Bytes} :
    ((body.take (1024 * 1024 + 1)).length ≤ 1024 * 1024 ∧ P (body.take (1024 * 1024 + 1))) ↔
      (body.length ≤ 1024 * 1024 ∧ P body) := by
  rw [List.length_take]
  constructor
  · rintro ⟨hlen, hP⟩
    have hshort : body.length ≤ 1024 * 1024 := by omega
    exact ⟨hshort, by rwa [List.take_of_length_le (by omega)] at hP⟩
  · rintro ⟨hlen, hP⟩
    exact ⟨by omega, by rwa [List.take_of_length_le (by omega)]⟩

theorem answered_other {r : Except FetchError Bytes} :
    Other (answered L.toLibrary r) ↔ Unread L r := by
  unfold answered Unread
  cases r with
  | error e => cases e <;> simp [Other]
  | ok body =>
    simp only [objectOf_other, read_iff (P := fun raw => ∃ e, L.loads raw = .error (.other e))]
    simp

theorem answered_ok {r : Except FetchError Bytes} {value : Payload} :
    answered L.toLibrary r = .ok value ↔ ∃ body, r = .ok body ∧ body.length ≤ 1024 * 1024 ∧
      L.loads body = .ok (.obj value) := by
  unfold answered
  cases r with
  | error e => cases e <;> simp
  | ok body =>
    simp only [objectOf_ok, read_iff (P := fun raw => L.loads raw = .ok (.obj value))]
    simp

theorem discovered_other {value : Payload} : Other (a.discovered L value) ↔
    value.get "issuer" = .str a.issuer ∧ ∃ uri e, value.get "jwks_uri" = .str uri ∧
      a._validate_endpoint L uri = .error e := by
  have hvalidate : ∀ uri, Other (a._validate_endpoint L uri) ↔
      ∃ e, a._validate_endpoint L uri = .error e := by
    intro uri
    unfold JwtJwksAuthenticator._validate_endpoint JwtJwksAuthenticator.validate
    cases validated_https_endpoint L.toUrls uri a._approved_hosts "OIDC" "/" <;>
      simp [Except.mapError, Other]
  unfold JwtJwksAuthenticator.discovered
  rw [← eqScalar_str]
  cases (value.get "issuer").eqScalar (.str a.issuer) with
  | false => simp
  | true =>
    cases value.get "jwks_uri" with
    | str uri => simp [hvalidate]
    | _ => simp

theorem discovery_other {r : Except FetchError Bytes} :
    Other (answered L.toLibrary r >>= a.discovered L) ↔ Unread L r ∨ Refused L a r := by
  rw [other_bind, answered_other]
  refine or_congr_right ?_
  simp only [answered_ok, discovered_other]
  constructor
  · rintro ⟨value, ⟨body, hr, hlen, hload⟩, hissuer, uri, e, huri, he⟩
    exact ⟨body, value, uri, e, hr, hlen, hload, hissuer, huri, he⟩
  · rintro ⟨body, value, uri, e, hr, hlen, hload, hissuer, huri, he⟩
    exact ⟨value, ⟨body, hr, hlen, hload⟩, hissuer, uri, e, huri, he⟩

theorem telling_discovery : Telling L a (a._discovery_jwks_uri L) := by
  have h : a._discovery_jwks_uri L = .cmd (.fetch .discovery (a.issuer ++ "/.well-known/openid-configuration"))
      fun r => (Program.ofExcept (answered L.toLibrary r >>= a.discovered L)).bind fun uri =>
        .cmd (.set_jwks_uri uri) fun _ => .pure uri := by
    simp only [ofExcept_bind, Program.bind_assoc]
    rfl
  rw [h]
  exact .request (fun _ => discovery_other.symm) fun uri => .silent (fun _ => id) fun _ => .pure uri

theorem telling_endpoint : Telling L a (a.endpoint L) := by
  rw [JwtJwksAuthenticator.endpoint_eq]
  refine .silent (fun _ => id) fun c => ?_
  change Telling L a ((truthy c._jwks_uri).elim (a._discovery_jwks_uri L) .pure)
  cases truthy c._jwks_uri with
  | some uri => exact .pure _
  | none => exact telling_discovery

theorem telling_body : Telling L a (a.body L) := by
  unfold JwtJwksAuthenticator.body
  split
  · have hc : ∀ r, Escapes L a ⟨.jwks_fetcher, r⟩ ↔ Other r := fun _ => Iff.rfl
    exact Telling.answer hc
  · refine .bind telling_endpoint fun uri => ?_
    have hc : ∀ r, Escapes L a ⟨.fetch .jwks uri, r⟩ ↔ Other (answered L.toLibrary r) :=
      fun _ => answered_other.symm
    exact Telling.request hc fun value => .pure (Json.obj value)

theorem telling_refresh : Telling L a (a._refresh_keys L) :=
  .bind telling_body fun _ => .bind (.ofExcept trusted_keys_not_other) fun _ =>
    .silent (fun _ => id) fun _ => .silent (fun _ => id) fun _ => .silent (fun _ => id) fun _ =>
      .pure ()

theorem telling_lookup {kid : String} : Telling L a (JwtJwksAuthenticator.lookup kid) := by
  rw [JwtJwksAuthenticator.lookup_eq]
  refine .silent (fun _ => id) fun c => ?_
  change Telling L a ((c._keys.lookup kid).elim
    (Program.ofExcept (.error (.authenticationError _))) .pure)
  cases c._keys.lookup kid with
  | some key => exact .pure _
  | none => exact .ofExcept not_other_authenticationError

theorem telling_known {kid : String} : Telling L a (a.known L kid) := by
  rw [JwtJwksAuthenticator.known_eq]
  refine .silent (fun _ => id) fun c => ?_
  change Telling L a ((c._keys.lookup kid).elim
    ((a._refresh_keys L).bind fun _ => JwtJwksAuthenticator.lookup kid) .pure)
  cases c._keys.lookup kid with
  | some key => exact .pure _
  | none => exact telling_refresh.bind fun _ => telling_lookup

theorem telling_key_for {kid : String} : Telling L a (a._key_for L kid) := by
  refine .silent (fun _ => id) fun now => .silent (fun _ => id) fun c => ?_
  change Telling L a (if c._cache_expires_at ≤ now then
    (a._refresh_keys L).bind fun _ => a.known L kid else a.known L kid)
  split
  · exact telling_refresh.bind fun _ => telling_known
  · exact telling_known

theorem decode_handled {p : List Char} {e : Failure} (h : _decode_segment p = .error e) :
    handled e = true := by
  unfold _decode_segment at h
  split at h
  · cases h
  · cases h
    rfl

/-- The numbers of a key fail with `KeyError` or `AuthenticationError`. -/
theorem numbers_handled {jwk : Payload} {e : Failure} (h : numbers L.toLibrary jwk = .error e) :
    handled e = true := by
  obtain hn | ⟨n, hn, h₁⟩ := bind_error h
  · cases hlook : jwk.lookup "n" with
    | none =>
      rw [hlook] at hn
      cases hn
      rfl
    | some x =>
      rw [hlook] at hn
      cases hn
  · obtain hm | ⟨m, hm, h₂⟩ := bind_error h₁
    · exact decode_handled hm
    · obtain he | ⟨x, he, h₃⟩ := bind_error h₂
      · cases hlook : jwk.lookup "e" with
        | none =>
          rw [hlook] at he
          cases he
          rfl
        | some x =>
          rw [hlook] at he
          cases he
      · obtain hd | ⟨d, hd, h₄⟩ := bind_error h₃
        · exact decode_handled hd
        · cases h₄

theorem telling_verify {jwk : Payload} {signed signature : Bytes} :
    Telling L a (_verify_signature L jwk signed signature) := by
  cases hcrypto : L.cryptography with
  | false =>
    have h : _verify_signature L jwk signed signature = Program.ofExcept (.error
        (.authenticationError "cryptography is required for OIDC RS256 authentication")) := by
      simp only [_verify_signature, hcrypto]
      rfl
    rw [h]
    exact .ofExcept not_other_authenticationError
  | true =>
    cases hnum : numbers L.toLibrary jwk with
    | error e =>
      have h : _verify_signature L jwk signed signature = Program.ofExcept (.error
          (.authenticationError "OIDC token signature is invalid")) := by
        simp only [_verify_signature, hcrypto, hnum]
        exact if_pos (numbers_handled hnum)
      rw [h]
      exact .ofExcept not_other_authenticationError
    | ok ne =>
      rw [verify_eq hcrypto hnum]
      refine .answer fun r => ?_
      cases r with
      | ok _ => simp [Escapes, verdict]
      | error e => cases h : handled (.other e) <;> simp [Escapes, verdict, h, Other]

theorem key_id_not_other {header : Payload} : ¬ Other (key_id header) := by
  unfold key_id
  split
  · split <;> simp
  · simp

theorem parse_other {L : Library} {authorization : Option String} : Other (parse L authorization) ↔
    ∃ p₀ p₁ p₂, Bearer authorization p₀ p₁ p₂ ∧ HeaderBreaks L "RS256" p₀ := by
  unfold parse HeaderBreaks
  simp only [other_bind, segments_not_other, false_or, Prod.exists, segments_ok, json_other,
    _json_segment_ok, checkHeader_other, key_id_not_other, signedText_not_other]
  refine exists_congr fun p₀ => exists_congr fun p₁ => exists_congr fun p₂ => and_congr_right fun _ =>
    or_congr_right (exists_congr fun header => and_congr_right fun _ => ?_)
  simp [Pure.pure, Except.pure]

/-- `authorization` carries the RS256 token. -/
structure Presents (L : Library) (authorization : Option String) (token : Parsed) where
  p₀ : List Char
  header : Payload
  bearer : Bearer authorization p₀ token.claims token.signature
  decodes : Decodes L p₀ header
  alg : header.get "alg" = .str "RS256"
  typ : header.get "typ" = .null ∨ header.get "typ" = .str "JWT"
  kid : header.get "kid" = .str token.kid
  named : token.kid.isEmpty = false
  short : token.kid.length ≤ 256
  ascii : encode_ascii (p₀ ++ '.' :: token.claims) = some token.signed

theorem key_id_ok {header : Payload} {kid : String} : key_id header = .ok kid ↔
    header.get "kid" = .str kid ∧ kid.isEmpty = false ∧ kid.length ≤ 256 := by
  unfold key_id
  cases header.get "kid" with
  | str s =>
    simp only [Json.str.injEq]
    split
    · rename_i hbad
      simp only [Bool.or_eq_true, decide_eq_true_eq] at hbad
      simp only [reduceCtorEq, false_iff]
      rintro ⟨rfl, hnamed, hshort⟩
      obtain h | h := hbad
      · rw [hnamed] at h
        cases h
      · omega
    · rename_i hgood
      simp only [Bool.or_eq_true, decide_eq_true_eq, not_or, Bool.not_eq_true, Nat.not_lt] at hgood
      simp only [Except.ok.injEq]
      exact ⟨fun h => ⟨h, h ▸ hgood⟩, fun h => h.1⟩
  | _ => simp

theorem parse_ok {L : Library} {authorization : Option String} {token : Parsed} :
    parse L authorization = .ok token ↔ Nonempty (Presents L authorization token) := by
  constructor
  · intro h
    obtain ⟨⟨p₀, p₁, p₂⟩, hseg, h₁⟩ := bind_ok h
    obtain ⟨header, hheader, h₂⟩ := bind_ok h₁
    obtain ⟨_, hcheck, h₃⟩ := bind_ok h₂
    obtain ⟨kid, hkid, h₄⟩ := bind_ok h₃
    obtain ⟨signed, hsigned, h₅⟩ := bind_ok h₄
    cases h₅
    obtain ⟨halg, htyp⟩ := checkHeader_ok.mp hcheck
    obtain ⟨hkid, hnamed, hshort⟩ := key_id_ok.mp hkid
    exact ⟨⟨p₀, header, segments_ok.mp hseg, _json_segment_ok.mp hheader, halg, htyp, hkid, hnamed,
      hshort, signedText_ok.mp hsigned⟩⟩
  · rintro ⟨p₀, header, hbearer, hdec, halg, htyp, hkid, hnamed, hshort, hsigned⟩
    unfold parse
    rw [segments_ok.mpr hbearer]
    simp only [ok_bind]
    rw [_json_segment_ok.mpr hdec]
    simp only [ok_bind]
    rw [checkHeader_ok.mpr ⟨halg, htyp⟩]
    simp only [ok_bind]
    rw [key_id_ok.mpr ⟨hkid, hnamed, hshort⟩]
    simp only [ok_bind]
    rw [signedText_ok.mpr hsigned]
    rfl

theorem telling_claims {E : Expected} {claims : Payload} :
    Telling L a (.cmd .time fun now => Program.ofExcept (_identity_from_claims E claims now)) :=
  .silent (fun _ => id) fun _ => .ofExcept identity_not_other

theorem exec_check_other {token : Parsed} {jwk : Payload} {s t : Cache} {log : Log}
    {o : Except Failure IdentityContext}
    (h : Program.Exec (Cache.apply L) (a.check L token jwk) s log o t) :
    Other o ↔ (∃ x ∈ log, Escapes L a x) ∨
      ((∃ e n signature signed, ⟨.verify e n signature signed, .ok ()⟩ ∈ log) ∧
        Breaks L.toLibrary token.claims) := by
  obtain ⟨e, hdec, rfl⟩ | ⟨signature, u, l₁, l₂, hdec, h₁, rfl⟩ := Program.exec_bind.mp h
  · obtain ⟨rfl, he, rfl⟩ := Program.exec_ofExcept.mp hdec
    have hnot : ¬ Other (.error e : Except Failure Bytes) := he ▸ decode_not_other
    simpa [Other] using hnot
  · obtain ⟨rfl, -, rfl⟩ := Program.exec_ofExcept.mp hdec
    clear h hdec
    rw [List.nil_append]
    obtain ⟨e, hver, rfl⟩ | ⟨_, u, l₁, l₂, hver, h₂, rfl⟩ := Program.exec_bind.mp h₁
    · rw [or_iff_left, ← telling_verify.tells hver]
      · simp [Other]
      · rintro ⟨⟨e', n, signature', signed', hmem⟩, _⟩
        obtain ⟨rfl, ⟨rfl, _⟩ | ⟨_, _, r, _, rfl, hr⟩⟩ := exec_verify hver
        · cases hmem
        · cases List.mem_singleton.mp hmem
          cases hr.mpr rfl
    · have hquiet : ¬ ∃ x ∈ l₁, Escapes L a x := mt (telling_verify.tells hver).mpr not_other_ok
      have hvalid : ∃ e n signature signed, ⟨.verify e n signature signed, .ok ()⟩ ∈ l₁ := by
        obtain ⟨-, ⟨_, _, he⟩ | ⟨n, e, r, _, rfl, hr⟩⟩ := exec_verify hver
        · cases he
        · rw [hr.mp rfl]
          exact ⟨e, n, signature, token.signed, List.mem_singleton_self _⟩
      have hvalid' : ∃ e n signature signed, ⟨.verify e n signature signed, .ok ()⟩ ∈ l₁ ++ l₂ := by
        obtain ⟨e, n, signature, signed, hmem⟩ := hvalid
        exact ⟨e, n, signature, signed, List.mem_append_left _ hmem⟩
      simp only [hvalid', true_and]
      obtain ⟨e, hjson, rfl⟩ | ⟨claims, v, l₃, l₄, hjson, h₃, rfl⟩ := Program.exec_bind.mp h₂
      · obtain ⟨rfl, he, rfl⟩ := Program.exec_ofExcept.mp hjson
        rw [List.append_nil, or_iff_right hquiet, ← json_other, ← he]
        simp [Other]
      · obtain ⟨rfl, hok, rfl⟩ := Program.exec_ofExcept.mp hjson
        rw [← json_other, ← hok, or_iff_left not_other_ok,
          (telling_claims (a := a)).tells h₃]
        simp only [List.nil_append, List.mem_append, or_and_right, exists_or, hquiet, false_or]

/-- The segments of a header are determined. -/
theorem Bearer.unique {authorization : Option String} {p₀ p₁ p₂ q₀ q₁ q₂ : List Char}
    (h : Bearer authorization p₀ p₁ p₂) (h' : Bearer authorization q₀ q₁ q₂) :
    p₀ = q₀ ∧ p₁ = q₁ ∧ p₂ = q₂ := by
  have := Except.ok.inj ((segments_ok.mpr h).symm.trans (segments_ok.mpr h'))
  simpa using this

theorem exec_other {s t : Cache} {log : Log} {authorization : Option String}
    {o : Except Failure IdentityContext}
    (h : Program.Exec (Cache.apply L) (a.authenticate L authorization) s log o t) :
    Other o ↔ (∃ p₀ p₁ p₂, Bearer authorization p₀ p₁ p₂ ∧ HeaderBreaks L.toLibrary "RS256" p₀) ∨
      (∃ x ∈ log, Escapes L a x) ∨ ClaimsBreak L authorization log := by
  rw [← parse_other]
  obtain ⟨e, hparse, rfl⟩ | ⟨token, u, l₁, l₂, hparse, h₁, rfl⟩ := Program.exec_bind.mp h
  · obtain ⟨rfl, he, rfl⟩ := Program.exec_ofExcept.mp hparse
    rw [← he]
    simp [ClaimsBreak, Other]
  · obtain ⟨rfl, htoken, rfl⟩ := Program.exec_ofExcept.mp hparse
    clear h hparse
    obtain ⟨present⟩ := parse_ok.mp htoken.symm
    rw [← htoken]
    simp only [not_other_ok, false_or, List.nil_append]
    obtain ⟨e, hkey, rfl⟩ | ⟨jwk, u, l₁, l₂, hkey, h₂, rfl⟩ := Program.exec_bind.mp h₁
    · rw [or_iff_left, ← telling_key_for.tells hkey]
      · simp [Other]
      · rintro ⟨⟨e, n, signature, signed, hmem⟩, _⟩
        exact key_for_unverified.exec hkey _ hmem e n signature signed rfl
    · have hkeyless : ¬ ∃ x ∈ l₁, Escapes L a x := mt (telling_key_for.tells hkey).mpr not_other_ok
      have hl₁ := key_for_unverified.exec hkey
      rw [exec_check_other h₂]
      refine or_congr ?_ (and_congr ?_ ?_)
      · simp only [List.mem_append, or_and_right, exists_or, hkeyless, false_or]
      · refine exists_congr fun e => exists_congr fun n => exists_congr fun signature =>
          exists_congr fun signed => ?_
        rw [List.mem_append, or_iff_right fun hmem => hl₁ _ hmem e n signature signed rfl]
      · refine ⟨fun hbreaks => ⟨_, _, _, present.bearer, hbreaks⟩, ?_⟩
        rintro ⟨p₀, p₁, p₂, hbearer, hbreaks⟩
        rwa [(hbearer.unique present.bearer).2.1] at hbreaks

/-- The inputs and answers on which something else than an `AuthenticationError` is raised. -/
def JwksBreaks (L : Libraries) (a : JwtJwksAuthenticator) (authorization : Option String)
    (log : Log) : Prop :=
  (∃ p₀ p₁ p₂, Bearer authorization p₀ p₁ p₂ ∧ HeaderBreaks L.toLibrary "RS256" p₀) ∨
    (∃ x ∈ log, Escapes L a x) ∨ ClaimsBreak L authorization log

/-- Exactly when `authenticate` returns an identity or raises an `AuthenticationError`. -/
theorem contained_iff_unbroken (L : Libraries) :
    (∀ (a : JwtHs256Authenticator) (authorization : Option String) (now : Rat),
      Contained (a.authenticate L.toLibrary authorization now) ↔
        ¬ HS256Breaks L.toLibrary a authorization) ∧
    ∀ (a : JwtJwksAuthenticator) (s : Cache) (authorization : Option String) (ω : Nat → Choice),
      Contained (a.call L s authorization ω).1.result ↔
        ¬ JwksBreaks L a authorization (a.call L s authorization ω).1.log := by
  refine ⟨fun a authorization now => ?_, fun a s authorization ω => ?_⟩
  · rw [contained_iff, hs256_other_iff]
  · rw [contained_iff]
    exact not_congr (exec_other (Program.exec_of_run (Cache.apply L) (a.authenticate L authorization) ω s))

namespace Unhandled

/-! A header whose `typ` is a list, and a token with a signature that is not the key's. -/

def typText : String := "\x7b\"alg\":\"HS256\",\"typ\":[]\x7d"

def typed : Libraries := { Oidc.libraries with
  loads := fun bytes =>
    if bytes = utf8 typText then .ok (.obj [("alg", .str "HS256"), ("typ", .arr [])])
    else .error .jsonDecodeError }

def authorization : Option String := bearerOf (utf8 Oidc.headerText) (utf8 Oidc.claimsText) [0]

theorem loads_typ : typed.loads (utf8 typText) =
    .ok (.obj [("alg", .str "HS256"), ("typ", .arr [])]) := by
  simp only [typed, if_true]

def token : Parsed where
  kid := "k"
  claims := encoded (utf8 Oidc.claimsText)
  signed := Oidc.signed
  signature := encoded [0]

theorem header_ne_nil : utf8 Oidc.headerText ≠ [] := by
  decide +kernel

theorem claims_ne_nil : utf8 Oidc.claimsText ≠ [] := by
  decide +kernel

theorem header_decodes : Decodes Oidc.libraries.toLibrary (encoded (utf8 Oidc.headerText))
    [("alg", .str "RS256"), ("kid", .str "k")] :=
  decodes_encoded.mpr (by simp only [Oidc.libraries, if_true])

theorem header_alg : Payload.get [("alg", .str "RS256"), ("kid", .str "k")] "alg" = .str "RS256" := rfl

theorem header_typ : Payload.get [("alg", .str "RS256"), ("kid", .str "k")] "typ" = .null ∨
    Payload.get [("alg", .str "RS256"), ("kid", .str "k")] "typ" = .str "JWT" :=
  .inl rfl

theorem header_kid : Payload.get [("alg", .str "RS256"), ("kid", .str "k")] "kid" = .str "k" := rfl

theorem header_ascii : encode_ascii (encoded (utf8 Oidc.headerText) ++ '.' :: encoded (utf8 Oidc.claimsText)) =
    some Oidc.signed :=
  encode_ascii_encoded _ _

def presented : Presents Oidc.libraries.toLibrary authorization token where
  p₀ := encoded (utf8 Oidc.headerText)
  header := [("alg", .str "RS256"), ("kid", .str "k")]
  bearer := bearer_encoded header_ne_nil claims_ne_nil (by decide)
  decodes := header_decodes
  alg := header_alg
  typ := header_typ
  kid := header_kid
  named := rfl
  short := by decide
  ascii := header_ascii

end Unhandled

/-- A list as `typ` raises `TypeError`, and an invalid signature raises `InvalidSignature`. -/
theorem other_exceptions :
    ¬ (∀ (L : Library) (a : JwtHs256Authenticator) (authorization : Option String) (now : Rat),
        Contained (a.authenticate L authorization now)) ∧
      ¬ ∀ (L : Libraries) (a : JwtJwksAuthenticator) (s : Cache) (authorization : Option String)
        (ω : Nat → Choice), Contained (a.call L s authorization ω).1.result := by
  constructor
  · intro h
    refine contained_iff.mp (h Unhandled.typed.toLibrary Sample.authenticator
      (bearerOf (utf8 Unhandled.typText) [0] [0]) 0) (hs256_other_iff.mpr ?_)
    refine ⟨_, _, _, bearer_encoded (by decide +kernel) (by decide) (by decide), .inl (.inr ?_)⟩
    exact ⟨_, decodes_encoded.mpr Unhandled.loads_typ, rfl, .inl ⟨[], rfl⟩⟩
  · intro h
    refine contained_iff.mp (h Oidc.libraries Oidc.authenticator {} Unhandled.authorization
      Oidc.honest) ?_
    obtain ⟨ch, _, hresult⟩ := served_call (s := {}) (P := (· = Oidc.honest 0)) (ω := Oidc.honest) (fun _ => rfl)
      (fun ch hch => hch ▸ Oidc.serves) nofun (parse_ok.mpr ⟨Unhandled.presented⟩) Oidc.offered rfl
      Oidc.numbered (_decode_segment_ok.mpr (b64decode_encoded [0]))
    have hbad : Oidc.libraries.rsa_verify 65537 (from_bytes Oidc.modulus) [0] Unhandled.token.signed =
        .error (.exception "InvalidSignature") := by
      rw [Oidc.rsa_verify_eq, if_neg]
      rintro ⟨-, -, h, -⟩
      revert h
      decide
    rw [hresult, hbad, other_bind]
    exact .inl ⟨_, rfl⟩

end Jwks

end EnterpriseCopilot.Auth
