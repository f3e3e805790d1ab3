import EnterpriseCopilot.Auth.Containment

/-! The configured issuer, and the one that is compared. -/

namespace EnterpriseCopilot.Auth

open EnterpriseCopilot.Lib EnterpriseCopilot.Python EnterpriseCopilot.Runtime

section Constructed

variable {L : Libraries} {a : JwtJwksAuthenticator} {s₀ : Cache}

theorem rstrip_eq_iff {c : Char} {s : String} : rstrip c s = s ↔ s.toList.getLast? ≠ some c := by
  have h : rstrip c s = s ↔ s.toList.reverse.dropWhile (· == c) = s.toList.reverse := by
    rw [rstrip, ← String.toList_inj, String.toList_ofList, List.reverse_eq_iff]
  rw [h, List.getLast?_eq_head?_reverse]
  cases s.toList.reverse with
  | nil => simp
  | cons x xs =>
    rw [List.dropWhile_cons]
    by_cases hx : x = c
    · subst hx
      have hlen := (List.dropWhile_sublist (· == x) (l := xs)).length_le
      simp only [beq_self_eq_true, if_true, List.head?_cons, ne_eq, not_true_eq_false, iff_false]
      intro heq
      rw [heq, List.length_cons] at hlen
      omega
    · simp [hx]

/-- The arguments of the constructor. -/
structure Arguments where
  issuer : String
  audience : Option String := none
  allowed_hosts : List String
  jwks_uri : Option String := none
  timeout_seconds : Rat := 5
  cache_seconds : Int := 300
  workspace_claim : String := "workspace_id"
  tenant_claim : String := "tenant_id"
  role_claim : String := "role"
  fetcher : Bool := false

def Arguments.construct (L : Libraries) (x : Arguments) :
    Except Failure (JwtJwksAuthenticator × Cache) :=
  JwtJwksAuthenticator.init L x.issuer x.audience x.allowed_hosts x.jwks_uri x.timeout_seconds
    x.cache_seconds x.workspace_claim x.tenant_claim x.role_claim x.fetcher

/-- What tokens should be compared with. -/
def Arguments.expected (x : Arguments) : Expected where
  issuer := some x.issuer
  audience := x.audience
  workspace_claim := x.workspace_claim
  tenant_claim := x.tenant_claim
  role_claim := x.role_claim

theorem construct_ok {x : Arguments} (h : x.construct L = .ok (a, s₀)) :
    a.issuer = rstrip '/' x.issuer ∧ a.expected = { x.expected with issuer := some a.issuer } ∧
      ∃ uri, s₀ = { _jwks_uri := uri } := by
  obtain ⟨parsed, _, h₁⟩ := bind_ok h
  dsimp only at h₁
  split at h₁
  · cases h₁
  · split at h₁
    · cases h₁
    · split at h₁
      · split at h₁
        · obtain ⟨uri, _, h₂⟩ := bind_ok h₁
          cases h₂
          exact ⟨rfl, rfl, uri, rfl⟩
        · cases h₁
      · cases h₁

end Constructed

section History

variable {L : Libraries} {a : JwtJwksAuthenticator} {items : List Json} {s t : Cache} {log : Log}

/-- No other key set than `items` is published. -/
structure Publishes (L : Libraries) (items : List Json) (ch : Choice) : Prop where
  fetched : ∀ {body items'}, ch.fetched = .ok body → KeySet body items' → items' = items
  jwks : ∀ {value items'}, answered L.toLibrary (ch.response .jwks) = .ok value →
    KeySet (.obj value) items' → items' = items

theorem brings_published {x : (c : Cmd) × Reply c} {ch : Choice} {items' : List Json}
    (hx : x.2 = (Cache.apply L s x.1 ch).1) (hch : Publishes L items ch) (h : Brings L x items') :
    items' = items := by
  obtain ⟨body, hbody, hset⟩ := h
  obtain ⟨c, r⟩ := x
  cases c with
  | jwks_fetcher => exact hch.fetched (hx.symm.trans hbody) hset
  | fetch document endpoint =>
    cases document with
    | discovery => cases hbody
    | jwks =>
      obtain ⟨value, hvalue, rfl⟩ := hbody
      rw [show r = ch.response .jwks from hx] at hvalue
      exact hch.jwks hvalue hset
  | _ => cases hbody

theorem offers_unique {kid : String} {jwk jwk' : Payload} (h : Offers items kid jwk)
    (h' : Offers items kid jwk') : jwk = jwk' :=
  Option.some.inj ((lookup_iff_offers.mpr h).symm.trans (lookup_iff_offers.mpr h'))

/-- While one key set is published, the cache holds no other key for a `kid` of it. -/
theorem published_lookup {jwks_uri : Option String} {es : List JwtJwksAuthenticator.Call}
    (h : (a.machine L).Run (fun _ x => ∀ i, Publishes L items (x.2 i)) { _jwks_uri := jwks_uri } es t)
    {kid : String} {jwk jwk' : Payload} (hjwk : Offers items kid jwk)
    (hlook : t._keys.lookup kid = some jwk') : jwk' = jwk := by
  have hbrings : ∀ x ∈ history es, ∀ items', Brings L x items' → items' = items := by
    refine h.invariant (I := fun es _ => ∀ x ∈ history es, ∀ items', Brings L x items' → items' = items)
      (by simp [history]) ?_
    rintro es s ⟨authorization, ω⟩ u c - hω hstep ih x hx
    simp only [JwtJwksAuthenticator.machine, Option.some.injEq, Prod.mk.injEq] at hstep
    obtain ⟨rfl, rfl⟩ := hstep
    rw [history, List.flatMap_append, List.mem_append] at hx
    obtain hx | hx := hx
    · exact ih x hx
    · rw [List.flatMap_singleton] at hx
      obtain ⟨n, v, hv⟩ := Program.mem_log (Cache.apply L) (a.authenticate L authorization) hx
      exact fun items' => brings_published hv (hω n)
  cases run_window h with
  | empty _ hkeys _ =>
    rw [hkeys] at hlook
    cases hlook
  | filled hrecent hheld =>
    have hoffers := (hheld.keys kid jwk').mp hlook
    obtain ⟨before, x, after, he, hx, _, _⟩ := hrecent
    rw [hbrings x (by simp [he]) _ hx] at hoffers
    exact offers_unique hoffers hjwk

end History

section Tokens

variable {L : Libraries} {a : JwtJwksAuthenticator} {items : List Json} {s t : Cache} {log : Log}

/-- The provider of `issuer` answers every request, with `items` as its key set. -/
structure Answers (L : Libraries) (a : JwtJwksAuthenticator) (issuer : String) (items : List Json)
    (ch : Choice) : Prop where
  fetched : a.fetcher = true →
    ∃ value : Payload, ch.fetched = .ok (.obj value) ∧ value.get "keys" = .arr items
  jwks : a.fetcher = false → ∃ value : Payload,
    answered L.toLibrary (ch.response .jwks) = .ok value ∧ value.get "keys" = .arr items
  discovery : a.fetcher = false → ∃ value jwks_uri uri,
    answered L.toLibrary (ch.response .discovery) = .ok value ∧ value.get "issuer" = .str issuer ∧
      value.get "jwks_uri" = .str jwks_uri ∧ a._validate_endpoint L jwks_uri = .ok uri

theorem Answers.serves {ch : Choice} (h : Answers L a a.issuer items ch) : Serves L a items ch := by
  refine ⟨h.fetched, h.jwks, fun hfetcher => ?_⟩
  obtain ⟨value, jwks_uri, uri, hvalue, hissuer, huri, hvalid⟩ := h.discovery hfetcher
  refine ⟨value, uri, hvalue, ?_⟩
  simp [JwtJwksAuthenticator.discovered, eqScalar_str.mpr hissuer, huri, hvalid]

/-- A token for `X` that a key in `items` has signed and whose claims are in order at `now`. -/
structure Good (L : Libraries) (E : Expected) (items : List Json) (authorization : Option String)
    (now : Rat) (X : IdentityContext) where
  token : Parsed
  jwk : Payload
  n : Nat
  e : Nat
  signature : Bytes
  claims : Payload
  presents : Presents L.toLibrary authorization token
  offers : Offers items token.kid jwk
  numbered : numbers L.toLibrary jwk = .ok (n, e)
  decoded : b64decode token.signature = some signature
  verified : L.rsa_verify e n signature token.signed = .ok ()
  decodes : Decodes L.toLibrary token.claims claims
  granted : Granted E Active claims now X

theorem Granted.dated {E : Expected} {claims : Payload} {now : Rat} {X : IdentityContext}
    (h : Granted E Active claims now X) : Dated (claims.get "exp") ∧ Dated (claims.get "nbf") := by
  refine ⟨fun text htext => ?_, fun text htext => ?_⟩
  · obtain ⟨q, hq, _⟩ := h.exp
    rw [htext] at hq
    cases hq
  · obtain hnull | ⟨q, hq, _⟩ := h.nbf
    · rw [htext] at hnull
      cases hnull
    · rw [htext] at hq
      cases hq

/-- The issuer in the claims of an accepted token. -/
theorem exec_accepted {authorization : Option String} {X : IdentityContext}
    (h : Program.Exec (Cache.apply L) (a.authenticate L authorization) s log (.ok X) t) :
    ∃ token claims, Nonempty (Presents L.toLibrary authorization token) ∧
      Decodes L.toLibrary token.claims claims ∧ claims.get "iss" = .str a.issuer := by
  obtain ⟨_, _, herr⟩ | ⟨token, u, l₁, l₂, hparse, h₁, _⟩ := Program.exec_bind.mp h
  · cases herr
  · obtain ⟨-, htoken, -⟩ := Program.exec_ofExcept.mp hparse
    obtain ⟨_, _, herr⟩ | ⟨jwk, u, l₁, l₂, -, h₂, _⟩ := Program.exec_bind.mp h₁
    · cases herr
    · obtain ⟨_, _, herr⟩ | ⟨signature, u, l₁, l₂, -, h₃, _⟩ := Program.exec_bind.mp h₂
      · cases herr
      · obtain ⟨_, _, herr⟩ | ⟨_, u, l₁, l₂, -, h₄, _⟩ := Program.exec_bind.mp h₃
        · cases herr
        · obtain ⟨_, _, herr⟩ | ⟨claims, u, l₁, l₂, hjson, h₅, _⟩ := Program.exec_bind.mp h₄
          · cases herr
          · obtain ⟨-, hclaims, -⟩ := Program.exec_ofExcept.mp hjson
            obtain ⟨ch, l₃, -, h₆⟩ := Program.exec_issue.mp h₅
            obtain ⟨-, hok, -⟩ := Program.exec_ofExcept.mp h₆
            refine ⟨token, claims, parse_ok.mp htoken.symm, _json_segment_ok.mp hclaims.symm, ?_⟩
            unfold _identity_from_claims at hok
            split at hok
            · cases hok
            · rename_i hiss
              exact issuer_iff.mp hiss a.issuer rfl

theorem Presents.unique {L : Library} {authorization : Option String} {token token' : Parsed}
    (h : Presents L authorization token) (h' : Presents L authorization token') : token = token' :=
  Except.ok.inj ((parse_ok.mpr ⟨h⟩).symm.trans (parse_ok.mpr ⟨h'⟩))

theorem Decodes.unique {L : Library} {segment : List Char} {value value' : Payload}
    (h : Decodes L segment value) (h' : Decodes L segment value') : value = value' :=
  Except.ok.inj ((_json_segment_ok.mpr h).symm.trans (_json_segment_ok.mpr h'))

/-- Tokens of the configured issuer, and no others, are accepted exactly when its name does not end
with a slash. -/
theorem issuer_honoured_iff {L : Libraries} {x : Arguments} {a : JwtJwksAuthenticator} {s₀ t : Cache}
    (hconstruct : x.construct L = .ok (a, s₀)) {items : List Json}
    {es : List JwtJwksAuthenticator.Call}
    (hrun : (a.machine L).Run (fun _ y => ∀ i, Publishes L items (y.2 i)) s₀ es t)
    (hcrypto : L.cryptography = true) (authorization : Option String) (ω : Nat → Choice)
    (X : IdentityContext) :
    ((∀ i, Answers L a x.issuer items (ω i)) →
      (∀ i, Nonempty (Good L x.expected items authorization (ω i).now X)) →
      ((a.call L t authorization ω).1.result = .ok X ↔ x.issuer.toList.getLast? ≠ some '/')) ∧
    ((a.call L t authorization ω).1.result = .ok X →
      ∃ token claims, Nonempty (Presents L.toLibrary authorization token) ∧
        Decodes L.toLibrary token.claims claims ∧
        (claims.get "iss" = .str x.issuer ↔ x.issuer.toList.getLast? ≠ some '/')) := by
  obtain ⟨hissuer, hexpected, uri, rfl⟩ := construct_ok hconstruct
  rw [← rstrip_eq_iff, ← hissuer]
  have accepted : (a.call L t authorization ω).1.result = .ok X →
      ∃ token claims, Nonempty (Presents L.toLibrary authorization token) ∧
        Decodes L.toLibrary token.claims claims ∧ claims.get "iss" = .str a.issuer := by
    intro hok
    have h := Program.exec_of_run (Cache.apply L) (a.authenticate L authorization) ω t
    rw [show (Program.run (Cache.apply L) (a.authenticate L authorization) ω t).result = .ok X from
      hok] at h
    exact exec_accepted h
  refine ⟨fun hanswers hgood => ⟨fun hok => ?_, fun hslash => ?_⟩, fun hok => ?_⟩
  · obtain ⟨token, claims, ⟨hpresents⟩, hdecodes, hiss⟩ := accepted hok
    obtain ⟨good⟩ := hgood 0
    obtain rfl := hpresents.unique good.presents
    obtain rfl := hdecodes.unique good.decodes
    exact Json.str.inj (hiss.symm.trans (good.granted.iss x.issuer rfl))
  · have hsame : a.expected = x.expected := by
      rw [hexpected, hslash]
      rfl
    obtain ⟨good⟩ := hgood 0
    obtain ⟨ch, ⟨_, ⟨good'⟩⟩, hresult⟩ := served_call (a := a) (ω := ω)
      (P := fun ch => Answers L a x.issuer items ch ∧
        Nonempty (Good L x.expected items authorization ch.now X)) (fun i => ⟨hanswers i, hgood i⟩)
      (fun ch hch => Answers.serves (hslash ▸ hch.1))
      (fun jwk' hlook => published_lookup hrun good.offers hlook)
      (parse_ok.mpr ⟨good.presents⟩) good.offers hcrypto good.numbered
      (_decode_segment_ok.mpr good.decoded)
    rw [hresult, good.verified, _json_segment_ok.mpr good.decodes, hsame]
    have hclaims : good'.claims = good.claims := by
      have hdecodes := good'.decodes
      rw [good'.presents.unique good.presents] at hdecodes
      exact hdecodes.unique good.decodes
    have hgranted := good'.granted
    rw [hclaims] at hgranted
    exact (_identity_from_claims_ok hgranted.dated.1 hgranted.dated.2).mpr hgranted
  · obtain ⟨token, claims, hpresents, hdecodes, hiss⟩ := accepted hok
    refine ⟨token, claims, hpresents, hdecodes, ?_⟩
    rw [hiss, Json.str.injEq]

namespace Oidc

def arguments : Arguments where
  issuer := "https://idp.example.test"
  allowed_hosts := ["idp.example.test"]
  fetcher := true

theorem constructed : arguments.construct libraries = .ok (authenticator, {}) := by
  rfl

/-- A slash at the end makes no difference to the authenticator. -/
theorem constructed_slash :
    { arguments with issuer := "https://idp.example.test/" : Arguments }.construct libraries =
      .ok (authenticator, {}) := by
  rfl

theorem loads_claims : libraries.loads (utf8 claimsText) = .ok (.obj claims) := by
  have hne : utf8 claimsText ≠ utf8 headerText := by decide +kernel
  simp only [libraries, if_neg hne, if_true]

def good : Good libraries arguments.expected [.obj jwk] authorization 30 ⟨"u", "w", "t", "r"⟩ where
  token := ⟨"k", encoded (utf8 claimsText), signed, encoded signature⟩
  jwk := jwk
  n := from_bytes modulus
  e := 65537
  signature := signature
  claims := claims
  presents :=
    { p₀ := encoded (utf8 headerText)
      header := [("alg", .str "RS256"), ("kid", .str "k")]
      bearer := bearer_encoded Unhandled.header_ne_nil Unhandled.claims_ne_nil (by decide)
      decodes := Unhandled.header_decodes
      alg := Unhandled.header_alg
      typ := Unhandled.header_typ
      kid := Unhandled.header_kid
      named := rfl
      short := by decide
      ascii := Unhandled.header_ascii }
  offers := offered
  numbered := numbered
  decoded := b64decode_encoded signature
  verified := by rw [rsa_verify_eq, if_pos ⟨rfl, rfl, rfl, rfl⟩]
  decodes := decodes_encoded.mpr loads_claims
  granted :=
    { iss := fun issuer h => by cases h; rfl
      aud := nofun
      exp := ⟨60, rfl, by decide⟩
      nbf := .inl rfl
      user_id := .plain rfl (by decide)
      workspace_id := .plain rfl (by decide)
      tenant_id := .plain rfl (by decide)
      role := .plain rfl (by decide) }

theorem answers (issuer : String) (i : Nat) :
    Answers libraries authenticator issuer [.obj jwk] (honest i) :=
  ⟨fun _ => ⟨_, rfl, rfl⟩, nofun, nofun⟩

theorem accepted :
    (authenticator.call libraries {} authorization honest).1.result = .ok ⟨"u", "w", "t", "r"⟩ := by
  obtain ⟨ch, rfl, hresult⟩ := served_call (s := {}) (P := (· = honest 0)) (ω := honest)
    (fun _ => rfl) (fun ch hch => hch ▸ serves) nofun (parse_ok.mpr ⟨good.presents⟩) good.offers rfl
    good.numbered (_decode_segment_ok.mpr good.decoded)
  rw [hresult, good.verified, _json_segment_ok.mpr good.decodes]
  exact (_identity_from_claims_ok good.granted.dated.1 good.granted.dated.2).mpr good.granted

end Oidc

theorem issuer_honoured_iff_sample :
    (Oidc.authenticator.call Oidc.libraries {} Oidc.authorization Oidc.honest).1.result =
      .ok ⟨"u", "w", "t", "r"⟩ :=
  ((issuer_honoured_iff Oidc.constructed .nil rfl Oidc.authorization Oidc.honest
    ⟨"u", "w", "t", "r"⟩).1 (Oidc.answers _) fun _ => ⟨Oidc.good⟩).mpr (by decide +kernel)

/-- With a slash at the end of the issuer, a token of another issuer is accepted. -/
theorem slash_ignored : ¬ ∀ (L : Libraries) (x : Arguments) (a : JwtJwksAuthenticator) (s₀ t : Cache)
    (items : List Json) (es : List JwtJwksAuthenticator.Call), x.construct L = .ok (a, s₀) →
    (a.machine L).Run (fun _ y => ∀ i, Publishes L items (y.2 i)) s₀ es t → L.cryptography = true →
    ∀ (authorization : Option String) (ω : Nat → Choice) (X : IdentityContext),
      ((∀ i, Answers L a x.issuer items (ω i)) →
        (∀ i, Nonempty (Good L x.expected items authorization (ω i).now X)) →
        (a.call L t authorization ω).1.result = .ok X) ∧
      ((a.call L t authorization ω).1.result = .ok X →
        ∃ token claims, Nonempty (Presents L.toLibrary authorization token) ∧
          Decodes L.toLibrary token.claims claims ∧ claims.get "iss" = .str x.issuer) := by
  intro hclaim
  obtain ⟨token, claims, ⟨hpresents⟩, hdecodes, hiss⟩ := (hclaim Oidc.libraries _ _ _ _ [.obj Oidc.jwk] []
    Oidc.constructed_slash .nil rfl Oidc.authorization Oidc.honest ⟨"u", "w", "t", "r"⟩).2 Oidc.accepted
  obtain rfl := hpresents.unique Oidc.good.presents
  obtain rfl := hdecodes.unique Oidc.good.decodes
  have hother : Oidc.good.claims.get "iss" = .str "https://idp.example.test" := rfl
  have hsame : "https://idp.example.test" = "https://idp.example.test/" :=
    Json.str.inj (hother.symm.trans hiss)
  exact absurd hsame (by decide +kernel)

end Tokens

end EnterpriseCopilot.Auth
