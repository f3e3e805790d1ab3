import Mathlib.Algebra.Order.Ring.Unbundled.Rat
import EnterpriseCopilot.Auth.Token

/-! Which tokens are accepted. -/

namespace EnterpriseCopilot.Auth

open EnterpriseCopilot.Python EnterpriseCopilot.Runtime

section Segments

theorem splitOn_single {x : Char} {cs a : List Char} (h : cs.splitOn x = [a]) : cs = a ∧ x ∉ a := by
  by_cases hx : x ∈ cs
  · obtain ⟨l, r, rfl, hl⟩ := List.eq_append_cons_of_mem hx
    rw [List.splitOn_append_cons_self_of_not_mem hl] at h
    exact absurd (List.cons.inj h).2 (List.splitOn_ne_nil x r)
  · rw [List.splitOn_eq_singleton hx] at h
    obtain rfl := List.singleton_inj.mp h
    exact ⟨rfl, hx⟩

theorem splitOn_several {x : Char} {cs a b : List Char} {rest : List (List Char)}
    (h : cs.splitOn x = a :: b :: rest) :
    ∃ cs', cs = a ++ x :: cs' ∧ x ∉ a ∧ cs'.splitOn x = b :: rest := by
  by_cases hx : x ∈ cs
  · obtain ⟨l, r, rfl, hl⟩ := List.eq_append_cons_of_mem hx
    rw [List.splitOn_append_cons_self_of_not_mem hl] at h
    obtain ⟨rfl, hr⟩ := List.cons.inj h
    exact ⟨r, rfl, hl, hr⟩
  · rw [List.splitOn_eq_singleton hx] at h
    cases h

theorem splitOn_three {x : Char} {cs a b c : List Char} : cs.splitOn x = [a, b, c] ↔
    cs = a ++ x :: (b ++ x :: c) ∧ x ∉ a ∧ x ∉ b ∧ x ∉ c := by
  constructor
  · intro h
    obtain ⟨cs', rfl, ha, h'⟩ := splitOn_several h
    obtain ⟨cs'', rfl, hb, h''⟩ := splitOn_several h'
    obtain ⟨rfl, hc⟩ := splitOn_single h''
    exact ⟨rfl, ha, hb, hc⟩
  · rintro ⟨rfl, ha, hb, hc⟩
    rw [List.splitOn_append_cons_self_of_not_mem ha, List.splitOn_append_cons_self_of_not_mem hb,
      List.splitOn_eq_singleton hc]

/-- The header is `Bearer ` and three segments, none of them empty. -/
structure Bearer (authorization : Option String) (p₀ p₁ p₂ : List Char) : Prop where
  text : authorization =
    some ("Bearer " ++ String.ofList (p₀ ++ '.' :: (p₁ ++ '.' :: p₂)))
  filled : p₀ ≠ [] ∧ p₁ ≠ [] ∧ p₂ ≠ []
  undotted : '.' ∉ p₀ ∧ '.' ∉ p₁ ∧ '.' ∉ p₂

theorem segments_ok {authorization : Option String} {p₀ p₁ p₂ : List Char} :
    segments authorization = .ok (p₀, p₁, p₂) ↔ Bearer authorization p₀ p₁ p₂ := by
  constructor
  · intro h
    unfold segments at h
    split at h
    · cases h
    · rename_i text
      split at h
      · rename_i hpre
        split at h
        · rename_i a b c hsplit
          split at h
          · cases h
          · rename_i hfull
            cases h
            simp only [Bool.or_eq_true, List.isEmpty_iff, not_or] at hfull
            obtain ⟨hcs, hdots⟩ := splitOn_three.mp hsplit
            refine ⟨?_, ⟨hfull.1.1, hfull.1.2, hfull.2⟩, hdots⟩
            obtain ⟨token, htoken⟩ := List.isPrefixOf_iff_prefix.mp hpre
            rw [← htoken] at hcs
            have hcs' : token = p₀ ++ '.' :: (p₁ ++ '.' :: p₂) := hcs
            have htext : text = String.ofList ("Bearer ".toList ++ token) := by
              rw [htoken, String.ofList_toList]
            rw [htext, hcs', String.ofList_append, String.ofList_toList]
        · cases h
      · cases h
  · rintro ⟨rfl, ⟨h₀, h₁, h₂⟩, d₀, d₁, d₂⟩
    have hdrop : ("Bearer ".toList ++ (p₀ ++ '.' :: (p₁ ++ '.' :: p₂))).drop 7 =
        p₀ ++ '.' :: (p₁ ++ '.' :: p₂) := rfl
    simp only [segments, String.toList_append, String.toList_ofList, hdrop,
      splitOn_three.mpr ⟨rfl, d₀, d₁, d₂⟩]
    simp [h₀, h₁, h₂]

theorem segments_error {authorization : Option String} {e : Failure}
    (h : segments authorization = .error e) : ∃ msg, e = .authenticationError msg := by
  unfold segments at h
  split at h
  · exact ⟨_, (Except.error.inj h).symm⟩
  · split at h
    · split at h
      · split at h
        · exact ⟨_, (Except.error.inj h).symm⟩
        · cases h
      · exact ⟨_, (Except.error.inj h).symm⟩
    · exact ⟨_, (Except.error.inj h).symm⟩

end Segments

section Decoding

variable {L : Library}

/-- The segment is the encoding of an object. -/
def Decodes (L : Library) (segment : List Char) (value : Payload) : Prop :=
  ∃ bytes, b64decode segment = some bytes ∧ L.loads bytes = .ok (.obj value)

theorem _decode_segment_ok {segment : List Char} {bytes : Bytes} :
    _decode_segment segment = .ok bytes ↔ b64decode segment = some bytes := by
  unfold _decode_segment
  cases b64decode segment <;> simp

theorem _json_segment_ok {segment : List Char} {value : Payload} :
    _json_segment L segment = .ok value ↔ Decodes L segment value := by
  unfold _json_segment Decodes _decode_segment
  cases b64decode segment with
  | none => simp [bind, Except.bind]
  | some bytes =>
    simp only [Option.some_inj, exists_eq_left', ok_bind]
    cases L.loads bytes with
    | error e => cases e <;> simp [throw, throwThe, MonadExceptOf.throw]
    | ok json => cases json <;> simp [throw, throwThe, MonadExceptOf.throw, pure, Except.pure]

theorem eqScalar_str {x : Json} {s : String} : x.eqScalar (.str s) = true ↔ x = .str s := by
  cases x <;> simp [Json.eqScalar]

theorem isJwtType_ok {typ : Json} : isJwtType typ = .ok true ↔ typ = .null ∨ typ = .str "JWT" := by
  cases typ <;> simp [isJwtType]

theorem checkHeader_ok {alg : String} {header : Payload} :
    checkHeader alg header = .ok () ↔ header.get "alg" = .str alg ∧
      (header.get "typ" = .null ∨ header.get "typ" = .str "JWT") := by
  unfold checkHeader
  rw [← isJwtType_ok, ← eqScalar_str]
  cases (header.get "alg").eqScalar (.str alg) with
  | false => simp
  | true =>
    cases isJwtType (header.get "typ") with
    | error e => simp [bind, Except.bind]
    | ok b => cases b <;> simp [bind, Except.bind, throw, throwThe, MonadExceptOf.throw, pure, Except.pure]

theorem signedText_ok {p₀ p₁ : List Char} {signed : Bytes} :
    signedText p₀ p₁ = .ok signed ↔ encode_ascii (p₀ ++ '.' :: p₁) = some signed := by
  unfold signedText
  cases encode_ascii (p₀ ++ '.' :: p₁) <;> simp

end Decoding

section Tokens

/-- The header with a token of these three segments. -/
def bearerOf (header claims signature : Bytes) : Option String :=
  some ("Bearer " ++ String.ofList (encoded header ++ '.' :: (encoded claims ++ '.' :: encoded signature)))

theorem bearer_encoded {header claims signature : Bytes} (h₀ : header ≠ []) (h₁ : claims ≠ [])
    (h₂ : signature ≠ []) :
    Bearer (bearerOf header claims signature) (encoded header) (encoded claims) (encoded signature) :=
  ⟨rfl, ⟨encoded_ne_nil h₀, encoded_ne_nil h₁, encoded_ne_nil h₂⟩, encoded_undotted _,
    encoded_undotted _, encoded_undotted _⟩

theorem decodes_encoded {L : Library} {bytes : Bytes} {value : Payload} :
    Decodes L (encoded bytes) value ↔ L.loads bytes = .ok (.obj value) := by
  simp [Decodes, b64decode_encoded]

end Tokens

section Claims

/-- A date of JSON as a number; `true` and `false` are 1 and 0. -/
def numeric : Json → Option Rat
  | .num q => some q
  | .bool b => some (if b then 1 else 0)
  | _ => none

/-- Numbers only: neither NaN nor an infinity. -/
def Dated (x : Json) : Prop := ∀ text, x ≠ .special text

/-- The claim is a text that is neither blank nor too long, and `value` is what `strip` leaves. -/
def Carries (claims : Payload) (name value : String) : Prop :=
  ∃ text, claims.get name = .str text ∧ isBlank text = false ∧ text.length ≤ 256 ∧
    value = str_strip text

/-- `nbf` is absent or null, or not after `now`. -/
def Active (claims : Payload) (now : Rat) : Prop :=
  claims.get "nbf" = .null ∨ ∃ q, numeric (claims.get "nbf") = some q ∧ q ≤ now

/-- `nbf` is absent, or not after `now`. -/
def ActiveUnlessAbsent (claims : Payload) (now : Rat) : Prop :=
  claims.lookup "nbf" = none ∨ ∃ q, numeric (claims.get "nbf") = some q ∧ q ≤ now

/-- The claims are in order at `now`, with `active` for `nbf`, and name `X`. -/
structure Granted (E : Expected) (active : Payload → Rat → Prop) (claims : Payload) (now : Rat)
    (X : IdentityContext) : Prop where
  iss : ∀ issuer, E.issuer = some issuer → claims.get "iss" = .str issuer
  aud : ∀ audience, E.audience = some audience → claims.get "aud" = .str audience ∨
    ∃ xs, claims.get "aud" = .arr xs ∧ .str audience ∈ xs
  exp : ∃ q, numeric (claims.get "exp") = some q ∧ now < q
  nbf : active claims now
  user_id : Carries claims "sub" X.user_id
  workspace_id : Carries claims E.workspace_claim X.workspace_id
  tenant_id : Carries claims E.tenant_claim X.tenant_id
  role : Carries claims E.role_claim X.role

theorem Carries.plain {claims : Payload} {name value : String} (h : claims.get name = .str value)
    (hvalue : isBlank value = false ∧ value.length ≤ 256 ∧ str_strip value = value) :
    Carries claims name value :=
  ⟨value, h, hvalue.1, hvalue.2.1, hvalue.2.2.symm⟩

theorem _claim_ok {claims : Payload} {name value : String} :
    _claim claims name = .ok value ↔ Carries claims name value := by
  unfold _claim Carries
  cases claims.get name with
  | str text =>
    simp only [Json.str.injEq, exists_eq_left']
    by_cases hb : isBlank text = true
    · simp [hb]
    · simp only [hb, Bool.false_or, decide_eq_true_eq]
      split
      · rename_i hlen
        simp [Nat.not_le.mpr hlen]
      · rename_i hlen
        simp [Nat.not_lt.mp hlen, eq_comm]
  | _ => simp

theorem hasAudience_iff {audience : String} {x : Json} : hasAudience audience x = true ↔
    x = .str audience ∨ ∃ xs, x = .arr xs ∧ .str audience ∈ xs := by
  unfold hasAudience
  split
  · simp [eqScalar_str]
  · rename_i hne
    rw [eqScalar_str]
    exact ⟨.inl, fun h => h.resolve_right fun ⟨xs, hx, _⟩ => hne xs hx⟩

theorem unreached_iff {x : Json} {now : Rat} (hx : Dated x) :
    (reached now x).getD true = false ↔ ∃ q, numeric x = some q ∧ now < q := by
  cases x with
  | special text => exact absurd rfl (hx text)
  | _ => simp [reached, numeric]

theorem active_iff {claims : Payload} {now : Rat} (hx : Dated (claims.get "nbf")) :
    ¬ tooEarly now (claims.get "nbf") = true ↔ Active claims now := by
  unfold Active
  cases h : claims.get "nbf" with
  | special text => exact absurd h (hx text)
  | _ => simp [tooEarly, precedes, numeric]

theorem issuer_iff {E : Expected} {claims : Payload} :
    ¬ (E.issuer.any fun issuer => !(claims.get "iss").eqScalar (.str issuer)) = true ↔
      ∀ issuer, E.issuer = some issuer → claims.get "iss" = .str issuer := by
  cases E.issuer <;> simp [eqScalar_str]

theorem audience_iff {E : Expected} {claims : Payload} :
    ¬ (E.audience.any fun audience => !hasAudience audience (claims.get "aud")) = true ↔
      ∀ audience, E.audience = some audience → claims.get "aud" = .str audience ∨
        ∃ xs, claims.get "aud" = .arr xs ∧ .str audience ∈ xs := by
  cases E.audience <;> simp [hasAudience_iff]

theorem _identity_from_claims_ok {E : Expected} {claims : Payload} {now : Rat} {X : IdentityContext}
    (hexp : Dated (claims.get "exp")) (hnbf : Dated (claims.get "nbf")) :
    _identity_from_claims E claims now = .ok X ↔ Granted E Active claims now X := by
  constructor
  · intro h
    unfold _identity_from_claims at h
    split at h
    · cases h
    · rename_i hiss
      split at h
      · cases h
      · rename_i haud
        split at h
        · cases h
        · rename_i hlate
          split at h
          · cases h
          · rename_i hearly
            obtain ⟨user_id, hu, h₁⟩ := bind_ok h
            obtain ⟨workspace_id, hw, h₂⟩ := bind_ok h₁
            obtain ⟨tenant_id, ht, h₃⟩ := bind_ok h₂
            obtain ⟨role, hr, h₄⟩ := bind_ok h₃
            cases h₄
            exact ⟨issuer_iff.mp hiss, audience_iff.mp haud,
              (unreached_iff hexp).mp (by simpa using hlate), (active_iff hnbf).mp hearly,
              _claim_ok.mp hu, _claim_ok.mp hw, _claim_ok.mp ht, _claim_ok.mp hr⟩
  · intro h
    have hlate : ¬ (reached now (claims.get "exp")).getD true = true := by
      simpa using (unreached_iff hexp).mpr h.exp
    unfold _identity_from_claims
    rw [if_neg (issuer_iff.mpr h.iss), if_neg (audience_iff.mpr h.aud), if_neg hlate,
      if_neg ((active_iff hnbf).mpr h.nbf), _claim_ok.mpr h.user_id, _claim_ok.mpr h.workspace_id,
      _claim_ok.mpr h.tenant_id, _claim_ok.mpr h.role]
    rfl

end Claims

section HS256

/-- The token that `authorization` carries is the one specified, with `active` for `nbf`. -/
structure Accepts (L : Library) (a : JwtHs256Authenticator) (active : Payload → Rat → Prop)
    (authorization : Option String) (now : Rat) (X : IdentityContext) where
  p₀ : List Char
  p₁ : List Char
  p₂ : List Char
  header : Payload
  claims : Payload
  signed : Bytes
  bearer : Bearer authorization p₀ p₁ p₂
  decodes₀ : Decodes L p₀ header
  alg : header.get "alg" = .str "HS256"
  typ : header.get "typ" = .null ∨ header.get "typ" = .str "JWT"
  ascii : encode_ascii (p₀ ++ '.' :: p₁) = some signed
  signature : b64decode p₂ = some (L.hmac_sha256 (utf8 a.secret) signed)
  decodes₁ : Decodes L p₁ claims
  granted : Granted { issuer := a.issuer, audience := a.audience } active claims now X

/-- `exp` and `nbf` of the token are numbers, if anything numeric. -/
def Library.Dated (L : Library) (authorization : Option String) : Prop := ∀ p₀ p₁ p₂ (claims : Payload),
  Bearer authorization p₀ p₁ p₂ → Decodes L p₁ claims → Auth.Dated (claims.get "exp") ∧ Auth.Dated (claims.get "nbf")

theorem Accepts.of_ok {L : Library} {a : JwtHs256Authenticator} {authorization : Option String}
    (hdates : L.Dated authorization) {now : Rat} {X : IdentityContext}
    (h : a.authenticate L authorization now = .ok X) :
    Nonempty (Accepts L a Active authorization now X) := by
  obtain ⟨⟨p₀, p₁, p₂⟩, hseg, h₁⟩ := bind_ok h
  obtain ⟨header, hheader, h₂⟩ := bind_ok h₁
  obtain ⟨_, hcheck, h₃⟩ := bind_ok h₂
  obtain ⟨signed, hsigned, h₄⟩ := bind_ok h₃
  obtain ⟨actual, hactual, h₅⟩ := bind_ok h₄
  split at h₅
  · cases h₅
  · rename_i heq
    obtain ⟨claims, hclaims, h₆⟩ := bind_ok h₅
    have hbearer := segments_ok.mp hseg
    have hdec := _json_segment_ok.mp hclaims
    obtain ⟨hexp, hnbf⟩ := hdates _ _ _ _ hbearer hdec
    obtain ⟨halg, htyp⟩ := checkHeader_ok.mp hcheck
    exact ⟨{ p₀, p₁, p₂, header, claims, signed
             bearer := hbearer
             decodes₀ := _json_segment_ok.mp hheader
             alg := halg
             typ := htyp
             ascii := signedText_ok.mp hsigned
             signature := by rw [_decode_segment_ok.mp hactual, not_not.mp heq]
             decodes₁ := hdec
             granted := (_identity_from_claims_ok hexp hnbf).mp h₆ }⟩

theorem Accepts.ok {L : Library} {a : JwtHs256Authenticator} {authorization : Option String}
    (hdates : L.Dated authorization) {now : Rat} {X : IdentityContext}
    (h : Accepts L a Active authorization now X) : a.authenticate L authorization now = .ok X := by
  obtain ⟨hexp, hnbf⟩ := hdates _ _ _ _ h.bearer h.decodes₁
  unfold JwtHs256Authenticator.authenticate
  rw [segments_ok.mpr h.bearer]
  simp only [ok_bind]
  rw [_json_segment_ok.mpr h.decodes₀]
  simp only [ok_bind]
  rw [checkHeader_ok.mpr ⟨h.alg, h.typ⟩]
  simp only [ok_bind]
  rw [signedText_ok.mpr h.ascii]
  simp only [ok_bind]
  rw [_decode_segment_ok.mpr h.signature]
  simp only [ok_bind, ne_eq, not_true_eq_false, if_false]
  rw [_json_segment_ok.mpr h.decodes₁]
  exact (_identity_from_claims_ok hexp hnbf).mpr h.granted

/-- The accepted tokens are the specified ones. -/
theorem hs256_accepts_iff {L : Library} (a : JwtHs256Authenticator) (authorization : Option String)
    (hdates : L.Dated authorization) (now : Rat) (X : IdentityContext) :
    a.authenticate L authorization now = .ok X ↔ Nonempty (Accepts L a Active authorization now X) :=
  ⟨Accepts.of_ok hdates, fun ⟨h⟩ => h.ok hdates⟩

namespace Sample

/-! A token whose `nbf` is null. -/

def headerText : String := "\x7b\"alg\":\"HS256\"\x7d"

def claimsText : String := "\x7b\"sub\":\"u\",\"workspace_id\":\"w\",\"tenant_id\":\"t\"," ++
  "\"role\":\"r\",\"exp\":60,\"nbf\":null\x7d"

def claims : Payload := [("sub", .str "u"), ("workspace_id", .str "w"), ("tenant_id", .str "t"),
  ("role", .str "r"), ("exp", .num 60), ("nbf", .null)]

def digest : Bytes := [2, 140, 103, 134, 164, 174, 228, 233, 165, 198, 20, 164, 200, 157, 103, 2, 198,
  134, 224, 88, 51, 93, 161, 159, 46, 190, 188, 60, 198, 123, 158, 51]

/-- JSON and HMAC on the texts of that token. -/
def library : Library where
  loads bytes :=
    if bytes = utf8 headerText then .ok (.obj [("alg", .str "HS256")])
    else if bytes = utf8 claimsText then .ok (.obj claims)
    else .error .jsonDecodeError
  hmac_sha256 _ _ := digest
  str _ := ""

def authenticator : JwtHs256Authenticator where
  secret := "ssssssssssssssssssssssssssssssss"
  issuer := none
  audience := none
  long := by decide

def authorization : Option String := bearerOf (utf8 headerText) (utf8 claimsText) digest

theorem dated : library.Dated authorization := by
  rintro p₀ p₁ p₂ value - ⟨bytes, -, h⟩
  simp only [library] at h
  split at h
  · cases h
    exact ⟨fun text => nofun, fun text => nofun⟩
  · split at h
    · cases h
      exact ⟨fun text => nofun, fun text => nofun⟩
    · cases h

theorem loads_header : library.loads (utf8 headerText) = .ok (.obj [("alg", .str "HS256")]) := by
  simp only [library, if_true]

theorem loads_claims : library.loads (utf8 claimsText) = .ok (.obj claims) := by
  have hne : utf8 claimsText ≠ utf8 headerText := by decide +kernel
  simp only [library, if_neg hne, if_true]

def accepts : Accepts library authenticator Active authorization 0 ⟨"u", "w", "t", "r"⟩ where
  p₀ := encoded (utf8 headerText)
  p₁ := encoded (utf8 claimsText)
  p₂ := encoded digest
  header := [("alg", .str "HS256")]
  claims := claims
  signed := (encoded (utf8 headerText) ++ '.' :: encoded (utf8 claimsText)).map
    fun c => UInt8.ofNat c.toNat
  bearer := bearer_encoded (by decide +kernel) (by decide +kernel) (by decide)
  decodes₀ := decodes_encoded.mpr loads_header
  alg := rfl
  typ := .inl rfl
  ascii := encode_ascii_encoded _ _
  signature := b64decode_encoded digest
  decodes₁ := decodes_encoded.mpr loads_claims
  granted :=
    { iss := nofun
      aud := nofun
      exp := ⟨60, rfl, by decide⟩
      nbf := .inl rfl
      user_id := .plain rfl (by decide)
      workspace_id := .plain rfl (by decide)
      tenant_id := .plain rfl (by decide)
      role := .plain rfl (by decide) }

end Sample

theorem hs256_accepts_iff_sample :
    Sample.authenticator.authenticate Sample.library Sample.authorization 0 =
      .ok ⟨"u", "w", "t", "r"⟩ :=
  (hs256_accepts_iff Sample.authenticator Sample.authorization Sample.dated 0
    ⟨"u", "w", "t", "r"⟩).mpr ⟨Sample.accepts⟩

/-- A token whose `nbf` is null is accepted. -/
theorem null_nbf_accepted : ¬ ∀ (L : Library) (a : JwtHs256Authenticator) (authorization : Option String),
    L.Dated authorization → ∀ (now : Rat) (X : IdentityContext),
    a.authenticate L authorization now = .ok X ↔
      Nonempty (Accepts L a ActiveUnlessAbsent authorization now X) := by
  intro hclaim
  obtain ⟨h⟩ := (hclaim Sample.library Sample.authenticator Sample.authorization Sample.dated 0
    ⟨"u", "w", "t", "r"⟩).mp (Sample.accepts.ok Sample.dated)
  have hseg := (segments_ok.mpr h.bearer).symm.trans (segments_ok.mpr Sample.accepts.bearer)
  have hp₁ : h.p₁ = encoded (utf8 Sample.claimsText) := by
    injection hseg with hseg
    exact (Prod.mk.inj (Prod.mk.inj hseg).2).1
  have hdec := h.decodes₁
  rw [hp₁, decodes_encoded, Sample.loads_claims] at hdec
  have hnbf := h.granted.nbf
  rw [← Json.obj.inj (Except.ok.inj hdec)] at hnbf
  obtain habsent | ⟨q, hq, _⟩ := hnbf
  · cases habsent
  · cases hq

end HS256

end EnterpriseCopilot.Auth
