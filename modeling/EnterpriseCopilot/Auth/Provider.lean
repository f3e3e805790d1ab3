import EnterpriseCopilot.Auth.Window

/-! Calls while the provider answers with one key set. -/

namespace EnterpriseCopilot.Auth

open EnterpriseCopilot.Lib EnterpriseCopilot.Python EnterpriseCopilot.Runtime

variable {L : Libraries} {a : JwtJwksAuthenticator} {items : List Json} {s t : Cache} {log : Log}
  {P : Choice → Prop}

/-- The requests are answered, with `items` as the key set. -/
structure Serves (L : Libraries) (a : JwtJwksAuthenticator) (items : List Json) (ch : Choice) :
    Prop where
  fetched : a.fetcher = true →
    ∃ value : Payload, ch.fetched = .ok (.obj value) ∧ value.get "keys" = .arr items
  jwks : a.fetcher = false → ∃ value : Payload,
    answered L.toLibrary (ch.response .jwks) = .ok value ∧ value.get "keys" = .arr items
  discovery : a.fetcher = false → ∃ value uri,
    answered L.toLibrary (ch.response .discovery) = .ok value ∧ a.discovered L value = .ok uri

/-- Commands with choices that meet `P`. -/
abbrev among (L : Libraries) (P : Choice → Prop) (s : Cache) (c : Cmd) (ch : Subtype P) :
    Reply c × Cache :=
  Cache.apply L s c ch

/-- The keys of `items`, as they are cached. -/
def keysOf (items : List Json) : Keys := (items.filterMap entry).reverse

theorem served_lookup {kid : String} {jwk : Payload} (hjwk : Offers items kid jwk)
    {o : Except Failure Payload} (hs : s._keys = keysOf items)
    (h : Program.Exec (among L P) (JwtJwksAuthenticator.lookup kid) s log o t) : o = .ok jwk := by
  rw [JwtJwksAuthenticator.lookup_eq] at h
  obtain ⟨ch, rest, rfl, h₁⟩ := Program.exec_issue.mp h
  change Program.Exec _ ((s._keys.lookup kid).elim (.throw _) .pure) _ _ _ _ at h₁
  rw [hs, keysOf, lookup_iff_offers.mpr hjwk] at h₁
  exact (Program.exec_pure.mp h₁).2.1

section Served

variable (hP : ∀ ch, P ch → Serves L a items ch)
include hP

theorem served_endpoint {o : Except Failure String} (hfetcher : a.fetcher = false)
    (h : Program.Exec (among L P) (a.endpoint L) s log o t) : ∃ uri, o = .ok uri := by
  rw [JwtJwksAuthenticator.endpoint_eq] at h
  obtain ⟨ch, rest, rfl, hrest⟩ := Program.exec_issue.mp h
  clear h
  change Program.Exec _ ((truthy s._jwks_uri).elim (a._discovery_jwks_uri L) .pure) _ _ _ _ at hrest
  cases hknown : truthy s._jwks_uri with
  | some uri =>
    rw [hknown] at hrest
    obtain ⟨-, rfl, -⟩ := Program.exec_pure.mp hrest
    exact ⟨_, rfl⟩
  | none =>
    rw [hknown] at hrest
    obtain ⟨ch, l₁, rfl, h₁⟩ := Program.exec_issue.mp hrest
    obtain ⟨value, uri, hvalue, huri⟩ := (hP ch ch.2).discovery hfetcher
    change Program.Exec _ ((Program.ofExcept (answered L.toLibrary (ch.1.response .discovery))).bind
      fun body => (Program.ofExcept (a.discovered L body)).bind fun uri =>
        (.cmd (.set_jwks_uri uri) fun _ => .pure uri : Code String)) _ _ _ _ at h₁
    rw [hvalue, Program.ofExcept_ok, Program.pure_bind, huri] at h₁
    obtain ⟨ch', l₂, rfl, h₂⟩ := Program.exec_issue.mp h₁
    obtain ⟨-, rfl, -⟩ := Program.exec_pure.mp h₂
    exact ⟨uri, rfl⟩

theorem served_body {o : Except Failure Json}
    (h : Program.Exec (among L P) (a.body L) s log o t) :
    ∃ value : Payload, o = .ok (.obj value) ∧ value.get "keys" = .arr items := by
  unfold JwtJwksAuthenticator.body at h
  split at h
  · rename_i hfetcher
    obtain ⟨ch, rest, rfl, hrest⟩ := Program.exec_issue.mp h
    obtain ⟨-, ho, -⟩ := Program.exec_ofExcept.mp hrest
    obtain ⟨value, hvalue, hkeys⟩ := (hP ch ch.2).fetched hfetcher
    exact ⟨value, ho.trans hvalue, hkeys⟩
  · rename_i hfetcher
    have hfetcher' := Bool.eq_false_iff.mpr hfetcher
    obtain ⟨e, hend, rfl⟩ | ⟨uri, u, l₁, l₂, hend, h₁, rfl⟩ := Program.exec_bind.mp h
    · obtain ⟨uri, hok⟩ := served_endpoint hP hfetcher' hend
      cases hok
    · obtain ⟨ch, l₃, rfl, h₂⟩ := Program.exec_issue.mp h₁
      obtain ⟨value, hvalue, hkeys⟩ := (hP ch ch.2).jwks hfetcher'
      change Program.Exec _ ((Program.ofExcept (answered L.toLibrary (ch.1.response .jwks))).bind
        fun value => (.pure (.obj value) : Code Json)) _ _ _ _ at h₂
      rw [hvalue] at h₂
      obtain ⟨-, rfl, -⟩ := Program.exec_pure.mp h₂
      exact ⟨value, rfl, hkeys⟩

variable {kid : String} {jwk : Payload} (hjwk : Offers items kid jwk)
include hjwk

theorem served_refresh {o : Except Failure Unit}
    (h : Program.Exec (among L P) (a._refresh_keys L) s log o t) :
    o = .ok () ∧ t._keys = keysOf items := by
  obtain ⟨e, hbody, rfl⟩ | ⟨body, u, l₁, l₂, hbody, h₁, rfl⟩ := Program.exec_bind.mp h
  · obtain ⟨value, hok, _⟩ := served_body hP hbody
    cases hok
  · obtain ⟨value, hok, hkeys⟩ := served_body hP hbody
    cases hok
    obtain ⟨before, after, hitems, htrust, _⟩ := hjwk
    have hset : trusted_keys (.obj value) = .ok (keysOf items) :=
      trusted_keys_ok.mpr ⟨items, ⟨value, rfl, hkeys, kid, jwk, by simp [hitems], htrust⟩, rfl⟩
    change Program.Exec _ ((Program.ofExcept (trusted_keys (.obj value))).bind _) _ _ _ _ at h₁
    rw [hset] at h₁
    obtain ⟨_, l₅, rfl, h₂⟩ := Program.exec_issue.mp h₁
    obtain ⟨ch, l₆, rfl, h₃⟩ := Program.exec_issue.mp h₂
    obtain ⟨_, l₇, rfl, h₄⟩ := Program.exec_issue.mp h₃
    obtain ⟨-, rfl, rfl⟩ := Program.exec_pure.mp h₄
    exact ⟨rfl, rfl⟩

theorem served_known {o : Except Failure Payload}
    (hs : ∀ jwk', s._keys.lookup kid = some jwk' → jwk' = jwk)
    (h : Program.Exec (among L P) (a.known L kid) s log o t) : o = .ok jwk := by
  rw [JwtJwksAuthenticator.known_eq] at h
  obtain ⟨ch, rest, rfl, h₁⟩ := Program.exec_issue.mp h
  clear h
  change Program.Exec _ ((s._keys.lookup kid).elim
    ((a._refresh_keys L).bind fun _ => JwtJwksAuthenticator.lookup kid) .pure) _ _ _ _ at h₁
  cases hlook : s._keys.lookup kid with
  | some jwk' =>
    rw [hlook] at h₁
    rw [(Program.exec_pure.mp h₁).2.1, hs jwk' hlook]
  | none =>
    rw [hlook] at h₁
    obtain ⟨e, hrefresh, _⟩ | ⟨_, u, l₁, l₂, hrefresh, h₂, _⟩ := Program.exec_bind.mp h₁
    · cases (served_refresh hP hjwk hrefresh).1
    · exact served_lookup hjwk (served_refresh hP hjwk hrefresh).2 h₂

theorem served_key_for {o : Except Failure Payload}
    (hs : ∀ jwk', s._keys.lookup kid = some jwk' → jwk' = jwk)
    (h : Program.Exec (among L P) (a._key_for L kid) s log o t) : o = .ok jwk := by
  obtain ⟨ch, l₁, rfl, h₁⟩ := Program.exec_issue.mp h
  clear h
  obtain ⟨_, l₂, rfl, h₂⟩ := Program.exec_issue.mp h₁
  clear h₁
  change Program.Exec _ (if s._cache_expires_at ≤ ch.1.now then
    (a._refresh_keys L).bind fun _ => a.known L kid else a.known L kid) s _ _ _ at h₂
  split at h₂
  · obtain ⟨e, hrefresh, _⟩ | ⟨_, u, l₁, l₂, hrefresh, h₃, _⟩ := Program.exec_bind.mp h₂
    · cases (served_refresh hP hjwk hrefresh).1
    · refine served_known hP hjwk (fun jwk' hlook => ?_) h₃
      rw [(served_refresh hP hjwk hrefresh).2, keysOf, lookup_iff_offers.mpr hjwk] at hlook
      exact (Option.some.inj hlook).symm
  · exact served_known hP hjwk hs h₂

end Served

/-- What becomes of the answer of the check of a signature. -/
def verdict : Except PyError Unit → Except Failure Unit
  | .ok () => .ok ()
  | .error e =>
    if handled (.other e) then .error (.authenticationError "OIDC token signature is invalid")
    else .error (.other e)

theorem tryCatch_verdict {r : Except PyError Unit} :
    ((Program.ofExcept (r.mapError .other) : Code Unit).tryCatch fun e =>
      if handled e then throw (.authenticationError "OIDC token signature is invalid") else throw e) =
      Program.ofExcept (verdict r) := by
  cases r with
  | ok _ => rfl
  | error e =>
    simp only [Except.mapError, Program.ofExcept_error, Program.throw_tryCatch, verdict]
    split <;> rfl

/-- The check of a signature with a sound key. -/
theorem verify_eq {jwk : Payload} {signed signature : Bytes} {n e : Nat}
    (hcrypto : L.cryptography = true) (hnum : numbers L.toLibrary jwk = .ok (n, e)) :
    _verify_signature L jwk signed signature =
      .cmd (.verify e n signature signed) fun r => Program.ofExcept (verdict r) := by
  simp only [_verify_signature, hcrypto, hnum, ← tryCatch_verdict]
  rfl

theorem served_check {token : Parsed} {jwk : Payload} {n e : Nat} {signature : Bytes}
    {o : Except Failure IdentityContext} (hcrypto : L.cryptography = true)
    (hnum : numbers L.toLibrary jwk = .ok (n, e))
    (hsig : _decode_segment token.signature = .ok signature)
    (h : Program.Exec (among L P) (a.check L token jwk) s log o t) :
    ∃ ch, P ch ∧ o = (verdict (L.rsa_verify e n signature token.signed) >>= fun _ =>
      _json_segment L.toLibrary token.claims >>= fun claims =>
        _identity_from_claims a.expected claims ch.now) := by
  unfold JwtJwksAuthenticator.check at h
  rw [hsig] at h
  simp only [Program.ofExcept_ok, Program.bind_eq, Program.pure_bind, verify_eq hcrypto hnum,
    Program.cmd_bind] at h
  obtain ⟨ch, l₁, rfl, h₁⟩ := Program.exec_issue.mp h
  clear h
  change Program.Exec _ ((Program.ofExcept (verdict (L.rsa_verify e n signature token.signed))).bind _)
    _ _ _ _ at h₁
  cases hv : verdict (L.rsa_verify e n signature token.signed) with
  | error err =>
    rw [hv] at h₁
    obtain ⟨-, rfl, -⟩ := Program.exec_throw.mp h₁
    exact ⟨ch, ch.2, rfl⟩
  | ok v =>
    rw [hv] at h₁
    simp only [ok_bind]
    cases hc : _json_segment L.toLibrary token.claims with
    | error err =>
      rw [hc] at h₁
      obtain ⟨-, rfl, -⟩ := Program.exec_throw.mp h₁
      exact ⟨ch, ch.2, rfl⟩
    | ok claims =>
      rw [hc] at h₁
      obtain ⟨ch', l₂, rfl, h₂⟩ := Program.exec_issue.mp h₁
      obtain ⟨-, ho, -⟩ := Program.exec_ofExcept.mp h₂
      exact ⟨ch', ch'.2, ho⟩

/-- What a call returns while the provider serves the key of the token. -/
theorem served_call {authorization : Option String} {token : Parsed} {jwk : Payload}
    {n e : Nat} {signature : Bytes} {ω : Nat → Choice} (hω : ∀ i, P (ω i))
    (hP : ∀ ch, P ch → Serves L a items ch)
    (hs : ∀ jwk', s._keys.lookup token.kid = some jwk' → jwk' = jwk)
    (hparse : parse L.toLibrary authorization = .ok token) (hjwk : Offers items token.kid jwk)
    (hcrypto : L.cryptography = true) (hnum : numbers L.toLibrary jwk = .ok (n, e))
    (hsig : _decode_segment token.signature = .ok signature) :
    ∃ ch, P ch ∧ (a.call L s authorization ω).1.result =
      (verdict (L.rsa_verify e n signature token.signed) >>= fun _ =>
        _json_segment L.toLibrary token.claims >>= fun claims =>
          _identity_from_claims a.expected claims ch.now) := by
  have h := Program.exec_of_run_where (Cache.apply L) (P := P) (a.authenticate L authorization) s hω
  change ∃ ch, P ch ∧ (Program.run (Cache.apply L) (a.authenticate L authorization) ω s).result = _
  generalize (Program.run (Cache.apply L) (a.authenticate L authorization) ω s) = out at h ⊢
  unfold JwtJwksAuthenticator.authenticate at h
  rw [hparse, Program.ofExcept_ok, Program.bind_eq, Program.pure_bind] at h
  obtain ⟨e', hkey, _⟩ | ⟨jwk', u, l₁, l₂, hkey, h₁, _⟩ := Program.exec_bind.mp h
  · cases served_key_for hP hjwk hs hkey
  · cases served_key_for hP hjwk hs hkey
    exact served_check hcrypto hnum hsig h₁

theorem numbers_ok {L : Library} {jwk : Payload} {n e : Json} {modulus exponent : Bytes}
    (hn : jwk.lookup "n" = some n) (hmodulus : _decode_segment (L.str n).toList = .ok modulus)
    (he : jwk.lookup "e" = some e) (hexponent : _decode_segment (L.str e).toList = .ok exponent) :
    numbers L jwk = .ok (from_bytes modulus, from_bytes exponent) := by
  unfold numbers
  rw [hn, he]
  change (do
    let modulus := from_bytes (← _decode_segment (L.str n).toList)
    let exponent := from_bytes (← _decode_segment (L.str e).toList)
    return (modulus, exponent)) = _
  rw [hmodulus, hexponent]
  rfl

namespace Oidc

theorem numbered : numbers libraries.toLibrary jwk = .ok (from_bytes modulus, 65537) := by
  have he : _decode_segment (libraries.str (.str "AQAB")).toList = .ok [1, 0, 1] := by
    rw [_decode_segment_ok]
    decide
  refine numbers_ok rfl ?_ rfl he
  rw [show libraries.str (.str (String.ofList (encoded modulus))) =
    String.ofList (encoded modulus) from rfl, String.toList_ofList, _decode_segment_ok,
    b64decode_encoded]

theorem rsa_verify_eq (e n : Nat) (signature' signed' : Bytes) :
    libraries.rsa_verify e n signature' signed' =
      if e = 65537 ∧ n = from_bytes modulus ∧ signature' = signature ∧ signed' = signed then .ok ()
      else .error (.exception "InvalidSignature") := rfl

theorem offered : Offers [.obj jwk] "k" jwk :=
  ⟨[], [], rfl, ⟨rfl, rfl, rfl, .inl rfl⟩, nofun⟩

theorem serves : Serves libraries authenticator [.obj jwk] (honest 0) :=
  ⟨fun _ => ⟨_, rfl, rfl⟩, nofun, nofun⟩

end Oidc

end EnterpriseCopilot.Auth
