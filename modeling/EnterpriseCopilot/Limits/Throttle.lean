import EnterpriseCopilot.Auth.Acceptance
import EnterpriseCopilot.Lib.Keyed
import EnterpriseCopilot.Limits.Limiter

/-! The throttles of the upload and the analysis endpoint, and who shares one. -/

namespace EnterpriseCopilot.Limits

open EnterpriseCopilot.Lib EnterpriseCopilot.Python EnterpriseCopilot.Runtime
open EnterpriseCopilot.Auth (Expected _identity_from_claims)

structure HTTPException where
  status_code : Nat
  detail : String
  retry_after : Option String
  deriving DecidableEq

def _header_identity (user_id workspace_id tenant_id role : Option String) : Except HTTPException IdentityContext :=
  match user_id, workspace_id, tenant_id, role with
  | some user_id, some workspace_id, some tenant_id, some role =>
    if isBlank user_id || isBlank workspace_id || isBlank tenant_id || isBlank role then
      .error ⟨401, "authenticated identity and workspace scope are required", none⟩
    else .ok ⟨user_id, workspace_id, tenant_id, role⟩
  | _, _, _, _ => .error ⟨401, "authenticated identity and workspace scope are required", none⟩

/-- What `request_identity` can return, in each of its modes. -/
inductive Admitted : IdentityContext → Prop
  | headers {user_id workspace_id tenant_id role X} :
      _header_identity user_id workspace_id tenant_id role = .ok X → Admitted X
  | token {E claims now X} : _identity_from_claims E claims now = .ok X → Admitted X
  | bearer : Admitted ⟨"demo-user", "demo-workspace", "demo-tenant", "customer"⟩

inductive Endpoint
  | upload | analyze
  deriving DecidableEq

def Endpoint.detail : Endpoint → String
  | .upload => "image upload rate limit exceeded"
  | .analyze => "image analysis rate limit exceeded"

/-- A request of an authenticated identity: the clock of the process, and the clock of the server and what
becomes of the command. -/
structure Request where
  endpoint : Endpoint
  identity : IdentityContext
  now : Rat
  ms : Int
  link : Link

/-- `upload_limiter` and `analysis_limiter`. -/
inductive Limiters
  | in_memory (limiter : Endpoint → InMemoryRateLimiter)
  | redis (limiter : Endpoint → RedisRateLimiter)

/-- The deques of the two limiters in memory, and the counters of the server. -/
structure Store where
  _events : Endpoint → String → List Rat
  strings : String → Option Counter

def Store.empty : Store := ⟨fun _ _ => [], fun _ => none⟩

def limiter_key (identity : IdentityContext) : String :=
  identity.workspace_id ++ ":" ++ identity.tenant_id ++ ":" ++ identity.user_id

/-- The answer of a limiter as the endpoint turns it into a response. -/
def respond (e : Endpoint) (answer : Bool × Int) : Except HTTPException Unit :=
  if answer.1 then .ok () else .error ⟨429, e.detail, some (toString answer.2)⟩

def throttle (L : Limiters) (sha256 : Bytes → Hex 64) (s : Store) (r : Request) :
    Store × Except HTTPException Unit :=
  match L with
  | .in_memory limiter =>
    let checked := (limiter r.endpoint).check (s._events r.endpoint) (limiter_key r.identity) r.now
    ({ s with _events := Function.update s._events r.endpoint checked.2 }, respond r.endpoint checked.1)
  | .redis limiter =>
    let checked := (limiter r.endpoint).check sha256 s.strings (limiter_key r.identity) r.ms r.link
    ({ s with strings := checked.2 }, respond r.endpoint checked.1)

/-- Workspace, tenant and user. -/
def principal (X : IdentityContext) : String × String × String := (X.workspace_id, X.tenant_id, X.user_id)

def Request.isFrom (X : IdentityContext) (r : Request) : Bool := principal r.identity = principal X

/-- The requests and their responses, in order. -/
def serve (L : Limiters) (sha256 : Bytes → Hex 64) : Store → List Request → List (Request × Except HTTPException Unit)
  | _, [] => []
  | s, r :: rs => (r, (throttle L sha256 s r).2) :: serve L sha256 (throttle L sha256 s r).1 rs

/-- The responses to the requests of one identity. -/
def responses (L : Limiters) (sha256 : Bytes → Hex 64) (X : IdentityContext) (rs : List Request) :
    List (Request × Except HTTPException Unit) :=
  (serve L sha256 .empty rs).filter (·.1.isFrom X)

/-- Whatever requests are sent, `A` gets the responses it would get if `B` had sent nothing. -/
def Isolated (L : Limiters) (sha256 : Bytes → Hex 64) (A B : IdentityContext) : Prop :=
  ∀ rs : List Request, responses L sha256 A rs = responses L sha256 A (rs.filter fun r => !r.isFrom B)

/-- The limiters tell the two keys apart. -/
def Limiters.Apart (L : Limiters) (sha256 : Bytes → Hex 64) (a b : String) : Prop :=
  match L with
  | .in_memory _ => a ≠ b
  | .redis _ => sha256 (utf8 a) ≠ sha256 (utf8 b)

section Machines

/-- In memory there is a deque for each endpoint and key. -/
def inMemory (limiter : Endpoint → InMemoryRateLimiter) (sha256 : Bytes → Hex 64) :
    Keyed Store Request (Except HTTPException Unit) (Endpoint × String) (List Rat) where
  step := throttle (.in_memory limiter) sha256
  key r := (r.endpoint, limiter_key r.identity)
  view s k := s._events k.1 k.2
  frame := by
    rintro s r ⟨e, key⟩ hne
    simp only [throttle, InMemoryRateLimiter.check]
    by_cases he : e = r.endpoint
    · subst he
      rw [Function.update_self, Function.update_of_ne fun hkey => hne (by rw [hkey])]
    · rw [Function.update_of_ne he]
  reads := by
    intro s t r h
    simp only [throttle, InMemoryRateLimiter.check, Function.update_self, h, and_self]

/-- On the server there is a counter for each key of Redis. -/
def onRedis (limiter : Endpoint → RedisRateLimiter) (sha256 : Bytes → Hex 64) :
    Keyed Store Request (Except HTTPException Unit) String (Option Counter) where
  step := throttle (.redis limiter) sha256
  key r := (limiter r.endpoint).redis_key sha256 (limiter_key r.identity)
  view s := s.strings
  frame := by
    intro s r k hne
    exact Function.update_of_ne hne _ _
  reads := by
    intro s t r h
    simp only [throttle, RedisRateLimiter.check, Function.update_self, h, and_self]

variable {sha256 : Bytes → Hex 64} {κ σ : Type} {M : Keyed Store Request (Except HTTPException Unit) κ σ}
  {L : Limiters} {A B X : IdentityContext}

theorem responses_eq (hstep : M.step = throttle L sha256) {rs : List Request} :
    responses L sha256 X rs = M.answersTo (Request.isFrom X) .empty rs := by
  have hserve : ∀ s, serve L sha256 s rs = M.answers s rs := by
    induction rs with
    | nil => exact fun s => rfl
    | cons r rs ih =>
      intro s
      rw [serve, Keyed.answers, hstep, ih]
  rw [responses, hserve]
  rfl

/-- Requests at keys of their own are isolated, -/
theorem isolated_of_keys (hstep : M.step = throttle L sha256)
    (hkeys : ∀ a b, a.isFrom A = true → b.isFrom B = true → M.key b ≠ M.key a) : Isolated L sha256 A B := by
  intro rs
  rw [responses_eq hstep, responses_eq hstep]
  refine Keyed.answersTo_filter (K := fun k => ∃ a, Request.isFrom A a = true ∧ M.key a = k)
    (fun a ha => ⟨a, ha, rfl⟩) (fun b hb => ?_) (fun _ _ => rfl)
  rintro ⟨a, ha, hkey⟩
  exact hkeys a b ha (by simpa using hb) hkey.symm

/-- and requests that fill the slot of others are not. -/
theorem not_isolated_of_full (hstep : M.step = throttle L sha256) {a b : Request} (ha : a.isFrom A = true)
    (hb : b.isFrom B = true) (hA : a.isFrom B = false) (hB : b.isFrom A = false) (hkey : M.key a = M.key b)
    (slot : Nat → σ) {n : Nat} (hempty : M.view .empty (M.key b) = slot 0)
    (hfill : ∀ k < n, ∀ s, M.view s (M.key b) = slot k → M.view (M.step s b).1 (M.key b) = slot (k + 1))
    (hfirst : (M.step .empty a).2 = .ok ()) (hfull : ∀ s, M.view s (M.key a) = slot n → (M.step s a).2 ≠ .ok ()) :
    ¬ Isolated L sha256 A B := by
  intro h
  have hrun := h (List.replicate n b ++ [a])
  have hother : ∀ r ∈ List.replicate n b, r.isFrom A = false := fun r hr => List.eq_of_mem_replicate hr ▸ hB
  have hfilter : (List.replicate n b ++ [a]).filter (fun r => !r.isFrom B) = [a] := by
    simp [hb, hA]
  rw [hfilter, responses_eq hstep, responses_eq hstep, Keyed.answersTo_append, Keyed.answersTo_others hother,
    Keyed.answersTo_cons, Keyed.answersTo_cons, if_pos ha, if_pos ha, hfirst] at hrun
  have hview := Keyed.view_after_replicate hfill le_rfl hempty
  exact hfull _ (hkey ▸ hview) (Prod.mk.inj (List.cons.inj hrun).1).2

end Machines

section Isolation

variable {sha256 : Bytes → Hex 64} {L : Limiters} {A B X : IdentityContext}

theorem isFrom_iff {r : Request} : r.isFrom X = true ↔ principal r.identity = principal X := by
  simp [Request.isFrom]

theorem key_of_isFrom {r : Request} (h : r.isFrom X = true) : limiter_key r.identity = limiter_key X := by
  obtain ⟨hw, hrest⟩ := Prod.mk.inj (isFrom_iff.mp h)
  obtain ⟨ht, hu⟩ := Prod.mk.inj hrest
  rw [limiter_key, hw, ht, hu]
  rfl

theorem digest_of_redis_key {l l' : RedisRateLimiter} {a b : String}
    (h : l.redis_key sha256 a = l'.redis_key sha256 b) : sha256 (utf8 a) = sha256 (utf8 b) := by
  have hchars := congrArg String.toList h
  simp only [RedisRateLimiter.redis_key, String.toList_append, Hex.text, String.toList_ofList] at hchars
  refine Hex.ext (List.append_inj' hchars ?_).2
  rw [(sha256 (utf8 a)).length, (sha256 (utf8 b)).length]

/-- An upload of the identity. -/
def uploadOf (X : IdentityContext) : Request := ⟨.upload, X, 0, 0, .replied⟩

theorem uploadOf_isFrom : (uploadOf X).isFrom X = true := isFrom_iff.mpr rfl

theorem uploadOf_other (h : principal A ≠ principal B) : (uploadOf A).isFrom B = false :=
  Bool.eq_false_iff.mpr fun hf => h (isFrom_iff.mp hf)

theorem respond_ok {e : Endpoint} {answer : Bool × Int} : respond e answer = .ok () ↔ answer.1 = true := by
  unfold respond
  split <;> simp_all

/-- With one deque, the uploads of one use up what the other may send. -/
theorem in_memory_shared {limiter : Endpoint → InMemoryRateLimiter} (hne : principal A ≠ principal B)
    (hkey : limiter_key A = limiter_key B) : ¬ Isolated (.in_memory limiter) sha256 A B := by
  have hbound : ((limiter .upload).max_events.toNat : Int) = (limiter .upload).max_events :=
    Int.toNat_of_nonneg (limiter .upload).positive.1.le
  have hkeys : (inMemory limiter sha256).key (uploadOf A) = (inMemory limiter sha256).key (uploadOf B) :=
    congrArg (Prod.mk Endpoint.upload) hkey
  refine not_isolated_of_full (n := (limiter .upload).max_events.toNat) rfl
    uploadOf_isFrom uploadOf_isFrom (uploadOf_other hne) (uploadOf_other hne.symm) hkeys
    (fun k => List.replicate k 0) rfl ?_ rfl ?_
  · intro k hk s hs
    change s._events .upload (limiter_key B) = List.replicate k 0 at hs
    have hreply : (limiter .upload).answer (List.replicate k 0) 0 = _ := InMemoryRateLimiter.answer_filling (by omega)
    change Function.update s._events .upload (Function.update (s._events .upload) (limiter_key B)
      ((limiter .upload).answer (s._events .upload (limiter_key B)) 0).2) .upload (limiter_key B) = _
    rw [Function.update_self, Function.update_self, hs, hreply]
  · intro s hs hok
    change s._events .upload (limiter_key A) = List.replicate _ 0 at hs
    change respond .upload ((limiter .upload).answer (s._events .upload (limiter_key A)) 0).1 = .ok () at hok
    rw [respond_ok, hs, InMemoryRateLimiter.answer_full hbound.ge] at hok
    cases hok

/-- With one counter, too. -/
theorem redis_shared {limiter : Endpoint → RedisRateLimiter} (hne : principal A ≠ principal B)
    (hdigest : sha256 (utf8 (limiter_key A)) = sha256 (utf8 (limiter_key B))) :
    ¬ Isolated (.redis limiter) sha256 A B := by
  have hbound : ((limiter .upload).max_events.toNat : Int) = (limiter .upload).max_events :=
    Int.toNat_of_nonneg (limiter .upload).positive.1.le
  have hkeys : (onRedis limiter sha256).key (uploadOf A) = (onRedis limiter sha256).key (uploadOf B) :=
    congrArg (fun digest : Hex 64 => (limiter .upload).prefix_ ++ ":rate:" ++ digest.text) hdigest
  have hfirst : ((limiter .upload).answer none 0 .replied).1.1 = true := by
    rw [show none = (limiter .upload).counted 0 0 from rfl,
      RedisRateLimiter.answer_filling (by exact_mod_cast (limiter .upload).positive.1)]
  refine not_isolated_of_full (n := (limiter .upload).max_events.toNat) rfl
    uploadOf_isFrom uploadOf_isFrom (uploadOf_other hne) (uploadOf_other hne.symm) hkeys
    ((limiter .upload).counted 0) rfl ?_ (respond_ok.mpr hfirst) ?_
  · intro k hk s hs
    change s.strings ((limiter .upload).redis_key sha256 (limiter_key B)) = (limiter .upload).counted 0 k at hs
    have hreply : (limiter .upload).answer ((limiter .upload).counted 0 k) 0 .replied = _ :=
      RedisRateLimiter.answer_filling (by omega)
    change Function.update s.strings ((limiter .upload).redis_key sha256 (limiter_key B))
      ((limiter .upload).answer (s.strings ((limiter .upload).redis_key sha256 (limiter_key B))) 0 .replied).2
      ((limiter .upload).redis_key sha256 (limiter_key B)) = _
    rw [Function.update_self, hs, hreply]
  · intro s hs hok
    change s.strings ((limiter .upload).redis_key sha256 (limiter_key A)) = _ at hs
    change respond .upload ((limiter .upload).answer
      (s.strings ((limiter .upload).redis_key sha256 (limiter_key A))) 0 .replied).1 = .ok () at hok
    rw [respond_ok, hs, RedisRateLimiter.answer_full hbound.ge] at hok
    cases hok

/-- Two identities are isolated exactly when the limiters tell their keys apart. -/
theorem isolated_iff (hne : principal A ≠ principal B) :
    Isolated L sha256 A B ↔ L.Apart sha256 (limiter_key A) (limiter_key B) := by
  cases L with
  | in_memory limiter =>
    refine ⟨fun h hkey => in_memory_shared hne hkey h, fun hkey => ?_⟩
    refine isolated_of_keys (M := inMemory limiter sha256) rfl fun a b ha hb he => hkey ?_
    rw [← key_of_isFrom ha, ← key_of_isFrom hb]
    exact (Prod.mk.inj he).2.symm
  | redis limiter =>
    refine ⟨fun h hdigest => redis_shared hne hdigest h, fun hdigest => ?_⟩
    refine isolated_of_keys (M := onRedis limiter sha256) rfl fun a b ha hb he => hdigest ?_
    rw [← key_of_isFrom ha, ← key_of_isFrom hb]
    exact (digest_of_redis_key he).symm

/-- Without a colon in workspace and tenant the key tells the identities apart. -/
theorem limiter_key_injective (hA : ':' ∉ A.workspace_id.toList ∧ ':' ∉ A.tenant_id.toList)
    (hB : ':' ∉ B.workspace_id.toList ∧ ':' ∉ B.tenant_id.toList) (h : limiter_key A = limiter_key B) :
    principal A = principal B := by
  have hsplit : ∀ X : IdentityContext, ':' ∉ X.workspace_id.toList → ':' ∉ X.tenant_id.toList →
      ∃ rest, (limiter_key X).toList.splitOn ':' = X.workspace_id.toList :: X.tenant_id.toList :: rest := by
    intro X hw ht
    have hlist : (limiter_key X).toList =
        X.workspace_id.toList ++ ':' :: (X.tenant_id.toList ++ ':' :: X.user_id.toList) := by
      simp [limiter_key]
    rw [hlist, List.splitOn_append_cons_self_of_not_mem hw, List.splitOn_append_cons_self_of_not_mem ht]
    exact ⟨_, rfl⟩
  obtain ⟨restA, hsA⟩ := hsplit A hA.1 hA.2
  obtain ⟨restB, hsB⟩ := hsplit B hB.1 hB.2
  rw [h, hsB] at hsA
  obtain ⟨hw, hrest⟩ := List.cons.inj hsA
  obtain ⟨ht, _⟩ := List.cons.inj hrest
  have hworkspace : A.workspace_id = B.workspace_id := String.toList_injective hw.symm
  have htenant : A.tenant_id = B.tenant_id := String.toList_injective ht.symm
  have hkey := congrArg String.toList h
  rw [limiter_key, limiter_key, hworkspace, htenant] at hkey
  simp only [String.toList_append, List.append_cancel_left_eq] at hkey
  rw [principal, principal, hworkspace, htenant, String.toList_injective hkey]

end Isolation

section Sample

theorem minute_positive : 0 < (1 : Int) ∧ 0 < (60 : Int) := by
  decide

def onePerMinute : InMemoryRateLimiter := ⟨1, 60, minute_positive⟩

def alice : IdentityContext := ⟨"alice", "acme", "eu:ops", "operator"⟩

/-- A user of the same name in another workspace, and another tenant. -/
def otherAlice : IdentityContext := ⟨"alice", "acme:eu", "ops", "operator"⟩

def claimsOf (X : IdentityContext) : Payload :=
  [("sub", .str X.user_id), ("workspace_id", .str X.workspace_id), ("tenant_id", .str X.tenant_id),
    ("role", .str X.role), ("exp", .num 60)]

theorem zeros_length : (List.replicate 64 '0').length = 64 :=
  List.length_replicate

theorem zeros_digits : ∀ c ∈ List.replicate 64 '0', c ∈ "0123456789abcdef".toList := by
  intro c hc
  rw [List.eq_of_mem_replicate hc]
  decide

def noDigest : Bytes → Hex 64 := fun _ => ⟨List.replicate 64 '0', zeros_length, zeros_digits⟩

theorem isolated_sample : principal alice ≠ principal ⟨"bob", "acme", "eu:ops", "operator"⟩ ∧
    Isolated (.in_memory fun _ => onePerMinute) noDigest alice ⟨"bob", "acme", "eu:ops", "operator"⟩ := by
  have hne : principal alice ≠ principal ⟨"bob", "acme", "eu:ops", "operator"⟩ := by decide
  have hkeys : limiter_key alice ≠ limiter_key ⟨"bob", "acme", "eu:ops", "operator"⟩ := by decide
  exact ⟨hne, (isolated_iff hne).mpr hkeys⟩

/-- Two identities of two workspaces share a key. -/
theorem workspaces_share : ¬ ∀ (L : Limiters) (sha256 : Bytes → Hex 64) (A B : IdentityContext),
    Admitted A → Admitted B → principal A ≠ principal B → Isolated L sha256 A B := by
  intro h
  have hA : Admitted alice := .token (show _identity_from_claims {} (claimsOf alice) 0 = .ok alice from rfl)
  have hB : Admitted otherAlice :=
    .token (show _identity_from_claims {} (claimsOf otherAlice) 0 = .ok otherAlice from rfl)
  have hne : principal alice ≠ principal otherAlice := by decide
  have hkeys : limiter_key alice = limiter_key otherAlice := by decide
  exact in_memory_shared hne hkeys (h (.in_memory fun _ => onePerMinute) noDigest alice otherAlice hA hB hne)

end Sample

end EnterpriseCopilot.Limits
