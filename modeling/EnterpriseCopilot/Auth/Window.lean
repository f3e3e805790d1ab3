import Mathlib.Algebra.Order.Ring.Rat
import EnterpriseCopilot.Auth.Acceptance
import EnterpriseCopilot.Auth.Jwks

/-! Which keys are trusted, and for how long. -/

namespace EnterpriseCopilot.Auth

open EnterpriseCopilot.Lib EnterpriseCopilot.Python EnterpriseCopilot.Runtime

section Keys

/-- `jwk` is an RSA key for RS256 under `kid`. -/
structure Trusted (jwk : Payload) (kid : String) : Prop where
  kty : jwk.get "kty" = .str "RSA"
  key_id : jwk.get "kid" = .str kid
  named : kid.isEmpty = false
  alg : jwk.lookup "alg" = none ∨ jwk.lookup "alg" = some (.str "RS256")

/-- `jwk` is the last of the items that are trusted under `kid`. -/
def Offers (items : List Json) (kid : String) (jwk : Payload) : Prop :=
  ∃ before after, items = before ++ .obj jwk :: after ∧ Trusted jwk kid ∧
    ∀ jwk', .obj jwk' ∈ after → ¬ Trusted jwk' kid

/-- A key set with at least one trusted key. -/
def KeySet (body : Json) (items : List Json) : Prop :=
  ∃ value : Payload, body = .obj value ∧ value.get "keys" = .arr items ∧
    ∃ kid jwk, .obj jwk ∈ items ∧ Trusted jwk kid

theorem entry_eq_some {item : Json} {kid : String} {jwk : Payload} :
    entry item = some (kid, jwk) ↔ item = .obj jwk ∧ Trusted jwk kid := by
  constructor
  · intro h
    unfold entry at h
    split at h
    · rename_i item
      split at h
      · cases h
      · rename_i hkty
        split at h
        · rename_i key_id hkid
          split at h
          · rename_i hcond
            cases h
            simp only [Bool.and_eq_true, Bool.not_eq_true'] at hcond
            refine ⟨rfl, eqScalar_str.mp (by simpa using hkty), hkid, hcond.1, ?_⟩
            cases halg : List.lookup "alg" jwk with
            | none => exact .inl rfl
            | some alg =>
              rw [halg] at hcond
              exact .inr (congrArg some (eqScalar_str.mp hcond.2))
          · cases h
        · cases h
    · cases h
  · rintro ⟨rfl, hkty, hkid, hnamed, halg⟩
    have halg' : (((jwk.lookup "alg").getD (.str "RS256")).eqScalar (.str "RS256")) = true := by
      obtain h | h := halg <;> rw [h] <;> rfl
    simp [entry, eqScalar_str.mpr hkty, hkid, hnamed, halg']

theorem offers_snoc {items : List Json} {x : Json} {kid : String} {jwk : Payload} :
    Offers (items ++ [x]) kid jwk ↔ (x = .obj jwk ∧ Trusted jwk kid) ∨
      (Offers items kid jwk ∧ ∀ jwk', x = .obj jwk' → ¬ Trusted jwk' kid) := by
  constructor
  · rintro ⟨before, after, he, htrust, hlast⟩
    rcases List.eq_nil_or_concat after with rfl | ⟨after', y, rfl⟩
    · obtain ⟨_, hx⟩ := List.append_inj' he rfl
      exact .inl ⟨List.singleton_inj.mp hx, htrust⟩
    · rw [List.concat_eq_append, ← List.cons_append, ← List.append_assoc] at he
      obtain ⟨rfl, hx⟩ := List.append_inj' he rfl
      obtain rfl := List.singleton_inj.mp hx
      exact .inr ⟨⟨before, after', rfl, htrust, fun jwk' h => hlast jwk' (by simp [h])⟩,
        fun jwk' h => hlast jwk' (by simp [h])⟩
  · rintro (⟨rfl, htrust⟩ | ⟨⟨before, after, rfl, htrust, hlast⟩, hx⟩)
    · exact ⟨items, [], rfl, htrust, by simp⟩
    · refine ⟨before, after ++ [x], by simp, htrust, fun jwk' h => ?_⟩
      rcases List.mem_append.mp h with h | h
      · exact hlast jwk' h
      · exact hx jwk' (List.mem_singleton.mp h).symm

/-- The last trusted entry of a `kid` is the one that is found. -/
theorem lookup_iff_offers {items : List Json} {kid : String} {jwk : Payload} :
    (items.filterMap entry).reverse.lookup kid = some jwk ↔ Offers items kid jwk := by
  induction items using List.reverseRecOn with
  | nil => simp [Offers]
  | append_singleton items x ih =>
    rw [offers_snoc, ← ih, List.filterMap_append, List.reverse_append]
    cases hx : entry x with
    | none =>
      have hx' : ∀ jwk' kid', ¬ (x = .obj jwk' ∧ Trusted jwk' kid') := by
        intro jwk' kid' h
        rw [entry_eq_some.mpr h] at hx
        cases hx
      simp only [List.filterMap_cons, hx, List.filterMap_nil, List.reverse_nil, List.nil_append]
      exact ⟨fun h => .inr ⟨h, fun jwk' he ht => hx' jwk' kid ⟨he, ht⟩⟩,
        fun h => (h.resolve_left (hx' jwk kid)).1⟩
    | some kv =>
      obtain ⟨kid', jwk'⟩ := kv
      obtain ⟨rfl, htrust⟩ := entry_eq_some.mp hx
      simp only [List.filterMap_cons, hx, List.filterMap_nil, List.reverse_cons, List.reverse_nil,
        List.nil_append, List.cons_append, List.lookup_cons]
      by_cases hkid : kid = kid'
      · subst hkid
        simp only [beq_self_eq_true, Option.some.injEq, Json.obj.injEq]
        exact ⟨fun h => .inl ⟨h, h ▸ htrust⟩,
          fun h => h.elim And.left fun h => absurd htrust (h.2 jwk' rfl)⟩
      · have hne : ∀ jwk'', Json.obj jwk' = .obj jwk'' → ¬ Trusted jwk'' kid := by
          rintro jwk'' ⟨⟩ h
          exact hkid (Json.str.inj (h.key_id.symm.trans htrust.key_id))
        simp only [beq_eq_false_iff_ne.mpr hkid]
        exact ⟨fun h => .inr ⟨h, hne⟩, fun h => h.elim (fun h => absurd h.2 (hne jwk h.1)) And.left⟩

theorem trusted_keys_ok {body : Json} {keys : Keys} : trusted_keys body = .ok keys ↔
    ∃ items, KeySet body items ∧ keys = (items.filterMap entry).reverse := by
  constructor
  · intro h
    unfold trusted_keys at h
    split at h
    · rename_i value
      split at h
      · rename_i items hkeys
        dsimp only at h
        split at h
        · cases h
        · rename_i hne
          cases h
          refine ⟨items, ⟨value, rfl, hkeys, ?_⟩, rfl⟩
          simp only [List.isEmpty_reverse, List.isEmpty_iff] at hne
          obtain ⟨⟨kid, jwk⟩, hmem⟩ := List.exists_mem_of_ne_nil _ hne
          obtain ⟨item, hitem, hentry⟩ := List.mem_filterMap.mp hmem
          obtain ⟨rfl, htrust⟩ := entry_eq_some.mp hentry
          exact ⟨kid, jwk, hitem, htrust⟩
      · cases h
    · cases h
  · rintro ⟨items, ⟨value, rfl, hkeys, kid, jwk, hmem, htrust⟩, rfl⟩
    have hne : (items.filterMap entry).reverse.isEmpty = false := by
      rw [List.isEmpty_reverse, List.isEmpty_eq_false_iff]
      exact List.ne_nil_of_mem (List.mem_filterMap.mpr ⟨_, hmem, entry_eq_some.mpr ⟨rfl, htrust⟩⟩)
    simp only [trusted_keys, hkeys, hne, Bool.false_eq_true, if_false]

theorem trusted_keys_error {body : Json} {e : Failure} (h : trusted_keys body = .error e) :
    (∃ msg, e = .authenticationError msg) ∧ ∀ items, ¬ KeySet body items := by
  refine ⟨?_, fun items hset => ?_⟩
  · unfold trusted_keys at h
    split at h
    · split at h
      · dsimp only at h
        split at h
        · exact ⟨_, (Except.error.inj h).symm⟩
        · cases h
      · exact ⟨_, (Except.error.inj h).symm⟩
    · exact ⟨_, (Except.error.inj h).symm⟩
  · rw [trusted_keys_ok.mpr ⟨items, hset, rfl⟩] at h
    cases h

end Keys

section Fetches

variable (L : Libraries) (a : JwtJwksAuthenticator)

/-- The request brought this body of a key set. -/
def Carried : (c : Cmd) × Reply c → Json → Prop
  | ⟨.jwks_fetcher, r⟩, body => r = .ok body
  | ⟨.fetch .jwks _, r⟩, body => ∃ value, answered L.toLibrary r = .ok value ∧ body = .obj value
  | _, _ => False

/-- The request was a successful fetch of keys. -/
def Brings (x : (c : Cmd) × Reply c) (items : List Json) : Prop :=
  ∃ body, Carried L x body ∧ KeySet body items

/-- A failure reported as `AuthenticationError`, or a malformed body. -/
def Fails : (c : Cmd) × Reply c → Prop
  | ⟨.jwks_fetcher, r⟩ => (∃ msg, r = .error (.authenticationError msg)) ∨
    ∃ body, r = .ok body ∧ ∀ items, ¬ KeySet body items
  | ⟨.fetch .jwks _, r⟩ => (∃ msg, answered L.toLibrary r = .error (.authenticationError msg)) ∨
    ∃ value, answered L.toLibrary r = .ok value ∧ ∀ items, ¬ KeySet (.obj value) items
  | ⟨.fetch .discovery _, r⟩ =>
    ∃ msg, (answered L.toLibrary r >>= a.discovered L) = .error (.authenticationError msg)
  | _ => False

/-- The readings of the clock. -/
def readings (log : Log) : List Rat :=
  log.filterMap fun
    | ⟨.time, now⟩ => some now
    | _ => none

@[simp] theorem readings_append (l₁ l₂ : Log) : readings (l₁ ++ l₂) = readings l₁ ++ readings l₂ :=
  List.filterMap_append

/-- The most recent successful fetch brought `items`; the clock next read `stamp`. -/
def Recent (log : Log) (items : List Json) (stamp : Rat) : Prop :=
  ∃ before x after, log = before ++ x :: after ∧ Brings L x items ∧
    (∀ y ∈ after, ∀ items', ¬ Brings L y items') ∧ (readings after).head? = some stamp

/-- The most recent successful fetch brought `jwk` under `kid`, less than `cache_seconds` before
the clock was last read. -/
def Fresh (log : Log) (kid : String) (jwk : Payload) : Prop :=
  ∃ items stamp now, Recent L log items stamp ∧ Offers items kid jwk ∧
    (readings log).getLast? = some now ∧ now - stamp < a.cache_seconds

/-- The cache holds the keys of `items`, fetched at `stamp`. -/
structure Held (items : List Json) (stamp : Rat) (s : Cache) : Prop where
  keys : ∀ kid jwk, s._keys.lookup kid = some jwk ↔ Offers items kid jwk
  expires_at : s._cache_expires_at = stamp + a.cache_seconds

/-- The keys and their expiry follow from the most recent successful fetch. -/
inductive Window (log : Log) (s : Cache) : Prop
  | empty : (∀ x ∈ log, ∀ items, ¬ Brings L x items) → s._keys = [] → s._cache_expires_at = 0 →
      Window log s
  | filled {items stamp} : Recent L log items stamp → Held a items stamp s → Window log s

end Fetches

section Steps

variable {L : Libraries} {a : JwtJwksAuthenticator} {s t : Cache} {log : Log}

theorem carried_unique {x : (c : Cmd) × Reply c} {body body' : Json} (h : Carried L x body)
    (h' : Carried L x body') : body = body' := by
  obtain ⟨c, r⟩ := x
  cases c with
  | jwks_fetcher => exact Except.ok.inj (Eq.trans (Eq.symm h) h')
  | fetch document endpoint =>
    cases document with
    | discovery => cases h
    | jwks =>
      obtain ⟨value, hr, rfl⟩ := h
      obtain ⟨value', hr', rfl⟩ := h'
      exact congrArg Json.obj (Except.ok.inj (hr.symm.trans hr'))
  | _ => cases h

/-- A request that brought a body fails only through that body. -/
theorem carried_fails {x : (c : Cmd) × Reply c} {body : Json} (h : Carried L x body)
    (hfail : Fails L a x) : ∀ items, ¬ KeySet body items := by
  obtain ⟨c, r⟩ := x
  cases c with
  | jwks_fetcher =>
    obtain ⟨msg, hr⟩ | ⟨body', hr, hset⟩ := hfail
    · cases Eq.trans (Eq.symm h) hr
    · exact carried_unique (x := ⟨.jwks_fetcher, r⟩) h hr ▸ hset
  | fetch document endpoint =>
    cases document with
    | discovery => cases h
    | jwks =>
      obtain ⟨value, hr, rfl⟩ := h
      obtain ⟨msg, hr'⟩ | ⟨value', hr', hset⟩ := hfail
      · cases hr.symm.trans hr'
      · exact Except.ok.inj (hr.symm.trans hr') ▸ hset
  | _ => cases h

/-- No fetch of keys succeeds, and a request that fails decides the outcome. -/
structure Idle {α : Type} (L : Libraries) (a : JwtJwksAuthenticator) (s : Cache) (log : Log)
    (o : Except Failure α) (t : Cache) : Prop where
  quiet : ∀ x ∈ log, ∀ items, ¬ Brings L x items
  reported : ∀ x ∈ log, Fails L a x → ∃ msg, o = .error (.authenticationError msg)
  unread : readings log = []
  keys : t._keys = s._keys
  expires_at : t._cache_expires_at = s._cache_expires_at

theorem Idle.nil {α : Type} {o : Except Failure α} : Idle L a s [] o s :=
  ⟨by simp, by simp, rfl, rfl, rfl⟩

theorem Idle.single {α : Type} {o : Except Failure α} {x : (c : Cmd) × Reply c}
    (hquiet : ∀ items, ¬ Brings L x items)
    (hreport : Fails L a x → ∃ msg, o = .error (.authenticationError msg))
    (hread : readings [x] = []) (hkeys : t._keys = s._keys)
    (hexp : t._cache_expires_at = s._cache_expires_at) : Idle L a s [x] o t := by
  refine ⟨?_, ?_, hread, hkeys, hexp⟩
  · intro y hy
    obtain rfl := List.mem_singleton.mp hy
    exact hquiet
  · intro y hy
    obtain rfl := List.mem_singleton.mp hy
    exact hreport

theorem Idle.outcome {α β : Type} {o : Except Failure α} {o' : Except Failure β}
    (h : Idle L a s log o t)
    (ho : ∀ msg, o = .error (.authenticationError msg) → o' = .error (.authenticationError msg)) :
    Idle L a s log o' t :=
  ⟨h.quiet, fun x hx hfail => (h.reported x hx hfail).imp ho, h.unread, h.keys, h.expires_at⟩

theorem Idle.trans {α β : Type} {v : α} {o : Except Failure β} {u : Cache} {l₁ l₂ : Log}
    (h₁ : Idle L a s l₁ (.ok v) u) (h₂ : Idle L a u l₂ o t) : Idle L a s (l₁ ++ l₂) o t := by
  refine ⟨?_, ?_, ?_, h₂.keys.trans h₁.keys, h₂.expires_at.trans h₁.expires_at⟩
  · intro x hx
    exact (List.mem_append.mp hx).elim (h₁.quiet x) (h₂.quiet x)
  · intro x hx hfail
    rcases List.mem_append.mp hx with hx | hx
    · obtain ⟨msg, hmsg⟩ := h₁.reported x hx hfail
      cases hmsg
    · exact h₂.reported x hx hfail
  · rw [readings_append, h₁.unread, h₂.unread, List.nil_append]

theorem exec_fetch_json {document : Document} {endpoint : String} {o : Except Failure Payload}
    (h : Program.Exec (Cache.apply L) (JwtJwksAuthenticator._fetch_json L document endpoint) s log o t) :
    ∃ r, log = [⟨.fetch document endpoint, r⟩] ∧ o = answered L.toLibrary r ∧ t = s := by
  obtain ⟨ch, rest, rfl, hrest⟩ := Program.exec_issue.mp h
  clear h
  obtain ⟨rfl, rfl, rfl⟩ := Program.exec_ofExcept.mp hrest
  exact ⟨_, rfl, rfl, rfl⟩

theorem exec_discovery {o : Except Failure String}
    (h : Program.Exec (Cache.apply L) (a._discovery_jwks_uri L) s log o t) : Idle L a s log o t := by
  have quiet : ∀ url r items, ¬ Brings L ⟨.fetch .discovery url, r⟩ items := by
    rintro url r items ⟨body, h, -⟩
    exact h
  obtain ⟨e, hfetch, rfl⟩ | ⟨value, u, l₁, l₂, hfetch, hrest, rfl⟩ := Program.exec_bind.mp h
  · obtain ⟨r, rfl, hr, rfl⟩ := exec_fetch_json hfetch
    refine .single (quiet _ r) (fun hfail => ?_) rfl rfl rfl
    obtain ⟨msg, hmsg⟩ := hfail
    rw [← hr] at hmsg
    exact ⟨msg, hmsg⟩
  · obtain ⟨r, rfl, hr, rfl⟩ := exec_fetch_json hfetch
    clear h
    obtain ⟨e, hdoc, rfl⟩ | ⟨uri, v, l₃, l₄, hdoc, hset, rfl⟩ := Program.exec_bind.mp hrest
    · obtain ⟨rfl, he, rfl⟩ := Program.exec_ofExcept.mp hdoc
      refine .single (quiet _ r) (fun hfail => ?_) rfl rfl rfl
      obtain ⟨msg, hmsg⟩ := hfail
      rw [← hr, ok_bind, ← he] at hmsg
      cases hmsg
      exact ⟨msg, rfl⟩
    · obtain ⟨rfl, he, rfl⟩ := Program.exec_ofExcept.mp hdoc
      obtain ⟨ch, l₅, rfl, hpure⟩ := Program.exec_issue.mp hset
      obtain ⟨rfl, rfl, rfl⟩ := Program.exec_pure.mp hpure
      refine Idle.trans (v := uri) (u := v) (.single (quiet _ r) (fun hfail => ?_) rfl rfl rfl)
        (.single (fun items hbring => ?_) (fun hfail => hfail.elim) rfl rfl rfl)
      · obtain ⟨msg, hmsg⟩ := hfail
        rw [← hr, ok_bind, ← he] at hmsg
        cases hmsg
      · obtain ⟨body, hbody, -⟩ := hbring
        exact hbody

theorem idle_cache {α : Type} {o : Except Failure α} : Idle L a s [⟨.cache, s⟩] o s :=
  .single (fun _ ⟨_, h, _⟩ => h) (fun h => h.elim) rfl rfl rfl

theorem exec_endpoint {o : Except Failure String}
    (h : Program.Exec (Cache.apply L) (a.endpoint L) s log o t) : Idle L a s log o t := by
  rw [JwtJwksAuthenticator.endpoint_eq] at h
  obtain ⟨ch, rest, rfl, hrest⟩ := Program.exec_issue.mp h
  clear h
  change Program.Exec _ ((truthy s._jwks_uri).elim (a._discovery_jwks_uri L) .pure) _ _ _ _ at hrest
  refine Idle.trans (v := ()) idle_cache (?_ : Idle L a s rest o t)
  cases huri : truthy s._jwks_uri with
  | some uri =>
    rw [huri] at hrest
    obtain ⟨rfl, rfl, rfl⟩ := Program.exec_pure.mp hrest
    exact .nil
  | none =>
    rw [huri] at hrest
    exact exec_discovery hrest

/-- The body of a key set, or a failure on the way to it. -/
theorem exec_body {o : Except Failure Json}
    (h : Program.Exec (Cache.apply L) (a.body L) s log o t) :
    (∃ e, o = .error e ∧ Idle L a s log o t) ∨
      ∃ body before x, o = .ok body ∧ log = before ++ [x] ∧ Carried L x body ∧
        Idle L a s before (.ok ()) t ∧ readings [x] = [] := by
  unfold JwtJwksAuthenticator.body at h
  split at h
  · obtain ⟨ch, rest, rfl, hrest⟩ := Program.exec_issue.mp h
    clear h
    obtain ⟨rfl, ho, rfl⟩ := Program.exec_ofExcept.mp hrest
    change o = ch.fetched at ho
    cases o with
    | error e =>
      refine .inl ⟨e, rfl, .single (fun items hbring => ?_) (fun hfail => ?_) rfl rfl rfl⟩
      · obtain ⟨body, hbody, -⟩ := hbring
        cases ho.trans hbody
      · obtain ⟨msg, hmsg⟩ | ⟨body, hbody, -⟩ := hfail
        · exact ⟨msg, ho.trans hmsg⟩
        · cases ho.trans hbody
    | ok body => exact .inr ⟨body, [], _, rfl, rfl, ho.symm, .nil, rfl⟩
  · obtain ⟨e, hend, rfl⟩ | ⟨uri, u, l₁, l₂, hend, hrest, rfl⟩ := Program.exec_bind.mp h
    · have hidle := exec_endpoint hend
      exact .inl ⟨e, rfl, hidle.outcome fun msg hmsg => by cases hmsg; rfl⟩
    · have hidle := exec_endpoint hend
      clear h
      obtain ⟨e, hfetch, rfl⟩ | ⟨value, v, l₃, l₄, hfetch, hpure, rfl⟩ := Program.exec_bind.mp hrest
      · obtain ⟨r, rfl, hr, rfl⟩ := exec_fetch_json hfetch
        refine .inl ⟨e, rfl, hidle.trans (.single (fun items hbring => ?_) (fun hfail => ?_) rfl rfl rfl)⟩
        · obtain ⟨body, ⟨value, hvalue, -⟩, -⟩ := hbring
          cases hr.trans hvalue
        · obtain ⟨msg, hmsg⟩ | ⟨value, hvalue, -⟩ := hfail
          · cases hr.trans hmsg
            exact ⟨msg, rfl⟩
          · cases hr.trans hvalue
      · obtain ⟨r, rfl, hr, rfl⟩ := exec_fetch_json hfetch
        obtain ⟨rfl, rfl, rfl⟩ := Program.exec_pure.mp hpure
        exact .inr ⟨.obj value, l₁, _, rfl, rfl, ⟨value, hr.symm, rfl⟩, hidle.outcome nofun, rfl⟩

theorem Recent.mono {log rest : Log} {items : List Json} {stamp : Rat} (h : Recent L log items stamp)
    (hquiet : ∀ x ∈ rest, ∀ items, ¬ Brings L x items) : Recent L (log ++ rest) items stamp := by
  obtain ⟨before, x, after, rfl, hbring, hlast, hstamp⟩ := h
  refine ⟨before, x, after ++ rest, by simp, hbring, fun y hy => ?_, ?_⟩
  · exact (List.mem_append.mp hy).elim (hlast y) (hquiet y)
  · rw [readings_append, List.head?_append_of_ne_nil _ fun hnil => by simp [hnil] at hstamp]
    exact hstamp

theorem Recent.prepend {log : Log} {items : List Json} {stamp : Rat} (pre : Log)
    (h : Recent L log items stamp) : Recent L (pre ++ log) items stamp := by
  obtain ⟨before, x, after, rfl, hbring, hlast, hstamp⟩ := h
  exact ⟨pre ++ before, x, after, by simp, hbring, hlast, hstamp⟩

theorem Window.mono {H : Log} (h : Window L a H s) (hquiet : ∀ x ∈ log, ∀ items, ¬ Brings L x items)
    (hkeys : t._keys = s._keys) (hexp : t._cache_expires_at = s._cache_expires_at) :
    Window L a (H ++ log) t := by
  cases h with
  | empty hnone hempty hzero =>
    refine .empty (fun x hx => ?_) (hkeys.trans hempty) (hexp.trans hzero)
    exact (List.mem_append.mp hx).elim (hnone x) (hquiet x)
  | filled hrecent hheld =>
    refine .filled (hrecent.mono hquiet) ⟨?_, hexp.trans hheld.expires_at⟩
    rw [hkeys]
    exact hheld.keys

theorem Window.idle {α : Type} {o : Except Failure α} {H : Log} (h : Window L a H s)
    (hidle : Idle L a s log o t) : Window L a (H ++ log) t :=
  h.mono hidle.quiet hidle.keys hidle.expires_at

/-- What a refresh that returns has done. -/
structure Refreshed (L : Libraries) (a : JwtJwksAuthenticator) (log : Log) (t : Cache)
    (items : List Json) (stamp : Rat) : Prop where
  sound : ∀ x ∈ log, ¬ Fails L a x
  recent : Recent L log items stamp
  read : readings log = [stamp]
  held : Held a items stamp t

theorem exec_refresh {o : Except Failure Unit}
    (h : Program.Exec (Cache.apply L) (a._refresh_keys L) s log o t) :
    (∃ e, o = .error e ∧ Idle L a s log o t) ∨
      (o = .ok () ∧ ∃ items stamp, Refreshed L a log t items stamp) := by
  obtain ⟨e, hbody, rfl⟩ | ⟨body, u, l₁, l₂, hbody, hrest, rfl⟩ := Program.exec_bind.mp h
  · obtain ⟨e, he, hidle⟩ | ⟨_, _, _, hok, _⟩ := exec_body hbody
    · exact .inl ⟨_, rfl, hidle.outcome fun msg hmsg => by cases hmsg; rfl⟩
    · cases hok
  · obtain ⟨_, herr, _⟩ | ⟨_, before, x, hok, rfl, hx, hidle, hunread⟩ := exec_body hbody
    · cases herr
    · cases hok
      clear h
      obtain ⟨e, hkeys, rfl⟩ | ⟨keys, v, l₃, l₄, hkeys, hrest', rfl⟩ := Program.exec_bind.mp hrest
      · obtain ⟨rfl, he, rfl⟩ := Program.exec_ofExcept.mp hkeys
        obtain ⟨⟨msg, rfl⟩, hset⟩ := trusted_keys_error he.symm
        refine .inl ⟨_, rfl, ?_⟩
        rw [List.append_nil]
        refine hidle.trans (.single (fun items hbring => ?_) (fun _ => ⟨msg, rfl⟩) hunread rfl rfl)
        obtain ⟨body', hbody', hset'⟩ := hbring
        exact hset items (carried_unique hbody' hx ▸ hset')
      · obtain ⟨rfl, hok, rfl⟩ := Program.exec_ofExcept.mp hkeys
        obtain ⟨items, hset, rfl⟩ := trusted_keys_ok.mp hok.symm
        clear hrest
        obtain ⟨_, l₅, rfl, h₁⟩ := Program.exec_issue.mp hrest'
        obtain ⟨ch, l₆, rfl, h₂⟩ := Program.exec_issue.mp h₁
        obtain ⟨_, l₇, rfl, h₃⟩ := Program.exec_issue.mp h₂
        obtain ⟨rfl, rfl, rfl⟩ := Program.exec_pure.mp h₃
        refine .inr ⟨rfl, items, ch.now, ?_, ?_, ?_, fun kid jwk => lookup_iff_offers, rfl⟩
        · intro y hy hfail
          simp only [List.mem_append, List.mem_cons, List.not_mem_nil, or_false, false_or] at hy
          obtain (hy | rfl) | rfl | rfl | rfl := hy
          · obtain ⟨msg, hmsg⟩ := hidle.reported y hy hfail
            cases hmsg
          · exact carried_fails hx hfail items hset
          all_goals exact hfail
        · refine ⟨before, x, _, (List.append_assoc _ _ _), ⟨body, hx, hset⟩, ?_, rfl⟩
          simp [Brings, Carried]
        · simp only [readings_append, hidle.unread, hunread, List.nil_append]
          rfl

theorem Fresh.mono {H rest : Log} {kid : String} {jwk : Payload} (h : Fresh L a H kid jwk)
    (hquiet : ∀ x ∈ rest, ∀ items, ¬ Brings L x items) (hread : readings rest = []) :
    Fresh L a (H ++ rest) kid jwk := by
  obtain ⟨items, stamp, now, hrecent, hoffers, hnow, hlt⟩ := h
  exact ⟨items, stamp, now, hrecent.mono hquiet, hoffers, by rw [readings_append, hread,
    List.append_nil, hnow], hlt⟩

/-- A key that is there right after a refresh. -/
theorem Refreshed.fresh {kid : String} {items : List Json} {stamp : Rat} {jwk : Payload}
    (h : Refreshed L a log t items stamp) (H : Log) (hjwk : t._keys.lookup kid = some jwk) :
    Fresh L a (H ++ log) kid jwk := by
  refine ⟨items, stamp, stamp, h.recent.prepend H, (h.held.keys kid jwk).mp hjwk, ?_, ?_⟩
  · rw [readings_append, h.read, List.getLast?_concat]
  · rw [sub_self]
    exact_mod_cast a.lasting.1

/-- What is known when a search for a key ends, after the history `H`. -/
structure Looked (L : Libraries) (a : JwtJwksAuthenticator) (H log : Log) (kid : String)
    (o : Except Failure Payload) (t : Cache) : Prop where
  window : Window L a (H ++ log) t
  reported : ∀ x ∈ log, Fails L a x → ∃ msg, o = .error (.authenticationError msg)
  found : ∀ jwk, o = .ok jwk → Fresh L a (H ++ log) kid jwk

/-- Steps before the search that report no failure. -/
theorem Looked.after {H before : Log} {kid : String} {o : Except Failure Payload}
    (h : Looked L a (H ++ before) log kid o t) (hsound : ∀ x ∈ before, ¬ Fails L a x) :
    Looked L a H (before ++ log) kid o t := by
  obtain ⟨hwindow, hreported, hfound⟩ := h
  rw [List.append_assoc] at hwindow
  refine ⟨hwindow, fun x hx hfail => ?_, fun jwk ho => ?_⟩
  · exact (List.mem_append.mp hx).elim (fun hx => absurd hfail (hsound x hx))
      fun hx => hreported x hx hfail
  · have := hfound jwk ho
    rwa [List.append_assoc] at this

theorem exec_lookup {kid : String} {o : Except Failure Payload} {H : Log} (hwindow : Window L a H s)
    (hfresh : ∀ jwk, s._keys.lookup kid = some jwk → Fresh L a H kid jwk)
    (h : Program.Exec (Cache.apply L) (JwtJwksAuthenticator.lookup kid) s log o t) :
    Looked L a H log kid o t := by
  rw [JwtJwksAuthenticator.lookup_eq] at h
  obtain ⟨ch, rest, rfl, hrest⟩ := Program.exec_issue.mp h
  clear h
  change Program.Exec _ ((s._keys.lookup kid).elim (.throw _) .pure) _ _ _ _ at hrest
  have hidle : ∀ {α : Type} (o : Except Failure α), Idle L a s [⟨.cache, s⟩] o s := fun _ => idle_cache
  cases hjwk : s._keys.lookup kid with
  | some jwk =>
    rw [hjwk] at hrest
    obtain ⟨rfl, rfl, rfl⟩ := Program.exec_pure.mp hrest
    refine ⟨hwindow.idle (hidle (.ok jwk)), (hidle _).reported, ?_⟩
    rintro _ ⟨⟩
    exact (hfresh jwk hjwk).mono (hidle (.ok jwk)).quiet rfl
  | none =>
    rw [hjwk] at hrest
    obtain ⟨rfl, rfl, rfl⟩ := Program.exec_throw.mp hrest
    exact ⟨hwindow.idle (hidle (.ok ())), (hidle _).reported, nofun⟩

theorem exec_refresh_then {kid : String} {o : Except Failure Payload} {H : Log} {p : Code Payload}
    (hwindow : Window L a H s)
    (hp : ∀ {H s log}, Window L a H s →
      (∀ jwk, s._keys.lookup kid = some jwk → Fresh L a H kid jwk) →
      Program.Exec (Cache.apply L) p s log o t → Looked L a H log kid o t)
    (h : Program.Exec (Cache.apply L) ((a._refresh_keys L).bind fun _ => p) s log o t) :
    Looked L a H log kid o t := by
  obtain ⟨e, hrefresh, rfl⟩ | ⟨_, u, l₁, l₂, hrefresh, hrest, rfl⟩ := Program.exec_bind.mp h
  · obtain ⟨e, he, hidle⟩ | ⟨hok, _⟩ := exec_refresh hrefresh
    · cases he
      exact ⟨hwindow.idle hidle, (hidle.outcome fun msg hmsg => by cases hmsg; rfl).reported, nofun⟩
    · cases hok
  · obtain ⟨e, he, _⟩ | ⟨_, items, stamp, hdone⟩ := exec_refresh hrefresh
    · cases he
    · exact (hp (.filled (hdone.recent.prepend H) hdone.held) (fun jwk => hdone.fresh H) hrest).after
        hdone.sound

theorem exec_known {kid : String} {o : Except Failure Payload} {H : Log} (hwindow : Window L a H s)
    (hfresh : ∀ jwk, s._keys.lookup kid = some jwk → Fresh L a H kid jwk)
    (h : Program.Exec (Cache.apply L) (a.known L kid) s log o t) : Looked L a H log kid o t := by
  rw [JwtJwksAuthenticator.known_eq] at h
  obtain ⟨ch, rest, rfl, hrest⟩ := Program.exec_issue.mp h
  clear h
  change Program.Exec _ ((s._keys.lookup kid).elim
    ((a._refresh_keys L).bind fun _ => JwtJwksAuthenticator.lookup kid) .pure) _ _ _ _ at hrest
  have hidle : Idle L a s [⟨.cache, s⟩] (.ok ()) s := idle_cache
  have hwindow' := hwindow.idle hidle
  change Looked L a H ([⟨.cache, s⟩] ++ rest) kid o t
  refine Looked.after ?_ (by simp [Fails])
  cases hjwk : s._keys.lookup kid with
  | some jwk =>
    rw [hjwk] at hrest
    obtain ⟨rfl, rfl, rfl⟩ := Program.exec_pure.mp hrest
    refine ⟨by simpa using hwindow', by simp, ?_⟩
    rintro _ ⟨⟩
    simpa using (hfresh jwk hjwk).mono hidle.quiet rfl
  | none =>
    rw [hjwk] at hrest
    exact exec_refresh_then hwindow' exec_lookup hrest

theorem exec_key_for {kid : String} {o : Except Failure Payload} {H : Log} (hwindow : Window L a H s)
    (h : Program.Exec (Cache.apply L) (a._key_for L kid) s log o t) : Looked L a H log kid o t := by
  obtain ⟨ch, rest, rfl, h₁⟩ := Program.exec_issue.mp h
  clear h
  obtain ⟨_, rest, rfl, h₂⟩ := Program.exec_issue.mp h₁
  clear h₁
  change Program.Exec _ (if s._cache_expires_at ≤ ch.now then
    (a._refresh_keys L).bind fun _ => a.known L kid else a.known L kid) s _ _ _ at h₂
  change Looked L a H ([⟨.time, ch.now⟩, ⟨.cache, s⟩] ++ rest) kid o t
  have hquiet : ∀ x ∈ ([⟨.time, ch.now⟩, ⟨.cache, s⟩] : Log), ∀ items, ¬ Brings L x items := by
    simp [Brings, Carried]
  have hwindow' : Window L a (H ++ [⟨.time, ch.now⟩, ⟨.cache, s⟩]) s := hwindow.mono hquiet rfl rfl
  refine Looked.after ?_ (by simp [Fails])
  split at h₂
  · exact exec_refresh_then hwindow' exec_known h₂
  · rename_i hlate
    refine exec_known hwindow' (fun jwk hjwk => ?_) h₂
    cases hwindow with
    | empty _ hkeys _ =>
      rw [hkeys] at hjwk
      cases hjwk
    | filled hrecent hheld =>
      refine ⟨_, _, ch.now, hrecent.mono hquiet, (hheld.keys kid jwk).mp hjwk, ?_, ?_⟩
      · rw [readings_append]
        exact List.getLast?_concat
      · rw [hheld.expires_at] at hlate
        exact sub_lt_iff_lt_add'.mpr (Rat.not_le.mp hlate)

end Steps

section Calls

variable {L : Libraries} {a : JwtJwksAuthenticator} {s t : Cache} {log : Log}

/-- What a call did and returned, after the history `H`. -/
structure Judged (L : Libraries) (a : JwtJwksAuthenticator) (H : Log) (authorization : Option String)
    (log : Log) (o : Except Failure IdentityContext) : Prop where
  /-- Every signature is checked with a fresh key of the token's `kid`. -/
  fresh : ∀ {l₁ e n signature signed r l₂}, log = l₁ ++ ⟨.verify e n signature signed, r⟩ :: l₂ →
    ∃ token jwk, parse L.toLibrary authorization = .ok token ∧ Fresh L a (H ++ l₁) token.kid jwk ∧
      numbers L.toLibrary jwk = .ok (n, e)
  /-- A token is accepted only after its signature was found valid. -/
  verified : ∀ {X}, o = .ok X → ∃ token signature e n, parse L.toLibrary authorization = .ok token ∧
    _decode_segment token.signature = .ok signature ∧
    ⟨.verify e n signature token.signed, .ok ()⟩ ∈ log
  reported : ∀ x ∈ log, Fails L a x → ∃ msg, o = .error (.authenticationError msg)

theorem exec_verify {jwk : Payload} {signed signature : Bytes} {o : Except Failure Unit}
    (h : Program.Exec (Cache.apply L) (_verify_signature L jwk signed signature) s log o t) :
    t = s ∧ ((log = [] ∧ ∃ e, o = .error e) ∨
      ∃ n e r, numbers L.toLibrary jwk = .ok (n, e) ∧ log = [⟨.verify e n signature signed, r⟩] ∧
        (o = .ok () ↔ r = .ok ())) := by
  unfold _verify_signature at h
  split at h
  · obtain ⟨rfl, rfl, rfl⟩ := Program.exec_throw.mp h
    exact ⟨rfl, .inl ⟨rfl, _, rfl⟩⟩
  · have body : ∀ {l o u}, Program.Exec (Cache.apply L) ((Program.ofExcept (numbers L.toLibrary jwk)).bind
        fun x => (Code.verify x.2 x.1 signature signed).bind fun r =>
          Program.ofExcept (r.mapError .other)) s l o u →
        u = s ∧ ((l = [] ∧ ∃ e, o = .error e) ∨
          ∃ n e r, numbers L.toLibrary jwk = .ok (n, e) ∧ l = [⟨.verify e n signature signed, r⟩] ∧
            o = r.mapError .other) := by
      intro l o u hb
      obtain ⟨e, hnum, rfl⟩ | ⟨⟨n, e⟩, v, l₁, l₂, hnum, hrest, rfl⟩ := Program.exec_bind.mp hb
      · obtain ⟨rfl, -, rfl⟩ := Program.exec_ofExcept.mp hnum
        exact ⟨rfl, .inl ⟨rfl, e, rfl⟩⟩
      · obtain ⟨rfl, hok, rfl⟩ := Program.exec_ofExcept.mp hnum
        obtain ⟨ch, l₃, rfl, h₁⟩ := Program.exec_issue.mp hrest
        obtain ⟨rfl, rfl, rfl⟩ := Program.exec_ofExcept.mp h₁
        exact ⟨rfl, .inr ⟨n, e, _, hok.symm, rfl, rfl⟩⟩
    obtain ⟨u, hb, rfl⟩ | ⟨e, u, l₁, l₂, hb, hthrow, rfl⟩ := Program.exec_tryCatch.mp h
    · obtain ⟨rfl, ⟨rfl, e, he⟩ | ⟨n, e, r, hnum, rfl, hr⟩⟩ := body hb
      · cases he
      · refine ⟨rfl, .inr ⟨n, e, r, hnum, rfl, ?_⟩⟩
        cases r with
        | error e => cases hr
        | ok v => simp
    · have herr : l₂ = [] ∧ (∃ e, o = .error e) ∧ t = u := by
        split at hthrow
        · obtain ⟨rfl, rfl, rfl⟩ := Program.exec_throw.mp hthrow
          exact ⟨rfl, ⟨_, rfl⟩, rfl⟩
        · obtain ⟨rfl, rfl, rfl⟩ := Program.exec_throw.mp hthrow
          exact ⟨rfl, ⟨_, rfl⟩, rfl⟩
      obtain ⟨rfl, ⟨e', rfl⟩, rfl⟩ := herr
      obtain ⟨rfl, ⟨rfl, _⟩ | ⟨n, e, r, hnum, rfl, hr⟩⟩ := body hb
      · exact ⟨rfl, .inl ⟨rfl, _, rfl⟩⟩
      · refine ⟨rfl, .inr ⟨n, e, r, hnum, rfl, ?_⟩⟩
        cases r with
        | error e => simp
        | ok v => cases hr

/-- What follows the search for the key. -/
structure Checked (L : Libraries) (token : Parsed) (jwk : Payload) (log : Log)
    (o : Except Failure IdentityContext) where
  n : Nat
  e : Nat
  signature : Bytes
  r : Except PyError Unit
  tail : Log
  numbered : numbers L.toLibrary jwk = .ok (n, e)
  decoded : _decode_segment token.signature = .ok signature
  issued : log = ⟨.verify e n signature token.signed, r⟩ :: tail
  last : ∀ x ∈ tail, ∃ now, x = ⟨.time, now⟩
  valid : ∀ X, o = .ok X → r = .ok ()

theorem exec_check {token : Parsed} {jwk : Payload} {o : Except Failure IdentityContext}
    (h : Program.Exec (Cache.apply L) (a.check L token jwk) s log o t) :
    t = s ∧ ((log = [] ∧ ∃ e, o = .error e) ∨ Nonempty (Checked L token jwk log o)) := by
  obtain ⟨e, hdec, rfl⟩ | ⟨signature, u, l₁, l₂, hdec, h₁, rfl⟩ := Program.exec_bind.mp h
  · obtain ⟨rfl, -, rfl⟩ := Program.exec_ofExcept.mp hdec
    exact ⟨rfl, .inl ⟨rfl, e, rfl⟩⟩
  · obtain ⟨rfl, hsig, rfl⟩ := Program.exec_ofExcept.mp hdec
    clear h
    obtain ⟨e, hver, rfl⟩ | ⟨_, u, l₁, l₂, hver, h₂, rfl⟩ := Program.exec_bind.mp h₁
    · obtain ⟨rfl, ⟨rfl, _⟩ | ⟨n, e, r, hnum, rfl, hr⟩⟩ := exec_verify hver
      · exact ⟨rfl, .inl ⟨rfl, _, rfl⟩⟩
      · exact ⟨rfl, .inr ⟨⟨n, e, signature, r, [], hnum, hsig.symm, rfl, by simp, nofun⟩⟩⟩
    · obtain ⟨rfl, ⟨_, _, he⟩ | ⟨n, e, r, hnum, rfl, hr⟩⟩ := exec_verify hver
      · cases he
      · have tail : t = u ∧ ∀ x ∈ l₂, ∃ now, x = ⟨.time, now⟩ := by
          obtain ⟨_, hjson, rfl⟩ | ⟨claims, v, l₃, l₄, hjson, h₃, rfl⟩ := Program.exec_bind.mp h₂
          · obtain ⟨rfl, -, rfl⟩ := Program.exec_ofExcept.mp hjson
            exact ⟨rfl, by simp⟩
          · obtain ⟨rfl, -, rfl⟩ := Program.exec_ofExcept.mp hjson
            obtain ⟨ch, l₅, rfl, h₄⟩ := Program.exec_issue.mp h₃
            obtain ⟨rfl, -, rfl⟩ := Program.exec_ofExcept.mp h₄
            exact ⟨rfl, fun x hx => ⟨ch.now, List.mem_singleton.mp hx⟩⟩
        exact ⟨tail.1, .inr ⟨⟨n, e, signature, r, l₂, hnum, hsig.symm, rfl, tail.2, fun _ _ => hr.mp rfl⟩⟩⟩

/-- The command is no check of a signature. -/
def Unverified (c : Cmd) : Prop := ∀ e n signature signed, c ≠ .verify e n signature signed

theorem refresh_unverified : (a._refresh_keys L).All Unverified := by
  refine Program.All.bind ?_ fun body => Program.All.bind (Program.all_ofExcept _) fun keys =>
    ⟨nofun, fun _ => ⟨nofun, fun _ => ⟨nofun, fun _ => trivial⟩⟩⟩
  have fetch : ∀ document endpoint,
      (JwtJwksAuthenticator._fetch_json L document endpoint).All Unverified :=
    fun document endpoint => ⟨nofun, fun _ => Program.all_ofExcept _⟩
  unfold JwtJwksAuthenticator.body
  split
  · exact ⟨nofun, fun _ => Program.all_ofExcept _⟩
  · refine Program.All.bind ?_ fun uri => (fetch _ _).bind fun _ => trivial
    rw [JwtJwksAuthenticator.endpoint_eq]
    refine ⟨nofun, fun c => ?_⟩
    change Program.All Unverified ((truthy c._jwks_uri).elim (a._discovery_jwks_uri L) .pure)
    cases truthy c._jwks_uri with
    | some uri => trivial
    | none =>
      exact (fetch _ _).bind fun value => Program.All.bind (Program.all_ofExcept _) fun uri =>
        ⟨nofun, fun _ => trivial⟩

theorem lookup_unverified {kid : String} : (JwtJwksAuthenticator.lookup kid).All Unverified := by
  rw [JwtJwksAuthenticator.lookup_eq]
  refine ⟨nofun, fun c => ?_⟩
  change Program.All Unverified ((c._keys.lookup kid).elim (.throw _) .pure)
  cases c._keys.lookup kid <;> trivial

theorem known_unverified {kid : String} : (a.known L kid).All Unverified := by
  rw [JwtJwksAuthenticator.known_eq]
  refine ⟨nofun, fun c => ?_⟩
  change Program.All Unverified ((c._keys.lookup kid).elim
    ((a._refresh_keys L).bind fun _ => JwtJwksAuthenticator.lookup kid) .pure)
  cases c._keys.lookup kid with
  | some key => trivial
  | none => exact refresh_unverified.bind fun _ => lookup_unverified

/-- The search for a key checks no signature. -/
theorem key_for_unverified {kid : String} : (a._key_for L kid).All Unverified := by
  refine ⟨nofun, fun now => ⟨nofun, fun c => ?_⟩⟩
  change Program.All Unverified (if c._cache_expires_at ≤ now then
    (a._refresh_keys L).bind fun _ => a.known L kid else a.known L kid)
  split
  · exact refresh_unverified.bind fun _ => known_unverified
  · exact known_unverified

/-- The only check of a signature in the log. -/
theorem verify_unique {l₁ tail m₁ m₂ : Log} {x y : (c : Cmd) × Reply c}
    (hl₁ : ∀ z ∈ l₁, Unverified z.1) (htail : ∀ z ∈ tail, Unverified z.1) (hy : ¬ Unverified y.1)
    (h : l₁ ++ x :: tail = m₁ ++ y :: m₂) : m₁ = l₁ ∧ y = x := by
  obtain ⟨c, rfl, hc⟩ | ⟨c, rfl, hc⟩ := List.append_eq_append_iff.mp h
  · cases c with
    | nil =>
      obtain ⟨rfl, rfl⟩ := List.cons.inj hc
      exact ⟨List.append_nil _, rfl⟩
    | cons z c =>
      obtain ⟨rfl, rfl⟩ := List.cons.inj hc
      exact absurd (htail y (by simp)) hy
  · cases c with
    | nil =>
      obtain ⟨rfl, rfl⟩ := List.cons.inj hc
      exact ⟨(List.append_nil _).symm, rfl⟩
    | cons z c =>
      obtain ⟨rfl, rfl⟩ := List.cons.inj hc
      exact absurd (hl₁ y (by simp)) hy

theorem exec_authenticate {H : Log} {authorization : Option String}
    {o : Except Failure IdentityContext} (hwindow : Window L a H s)
    (h : Program.Exec (Cache.apply L) (a.authenticate L authorization) s log o t) :
    Judged L a H authorization log o ∧ Window L a (H ++ log) t := by
  obtain ⟨e, hparse, rfl⟩ | ⟨token, u, l₁, l₂, hparse, h₁, rfl⟩ := Program.exec_bind.mp h
  · obtain ⟨rfl, -, rfl⟩ := Program.exec_ofExcept.mp hparse
    exact ⟨⟨by simp, nofun, by simp⟩, by simpa using hwindow⟩
  · obtain ⟨rfl, htoken, rfl⟩ := Program.exec_ofExcept.mp hparse
    clear h
    rw [List.nil_append]
    obtain ⟨e, hkey, rfl⟩ | ⟨jwk, v, l₁, l₂, hkey, h₂, rfl⟩ := Program.exec_bind.mp h₁
    · have hlooked := exec_key_for hwindow hkey
      refine ⟨⟨?_, nofun, fun x hx hfail => ?_⟩, hlooked.window⟩
      · rintro m₁ e n signature signed r m₂ rfl
        exact absurd rfl (key_for_unverified.exec hkey ⟨_, r⟩ (by simp) e n signature signed)
      · obtain ⟨msg, hmsg⟩ := hlooked.reported x hx hfail
        cases hmsg
        exact ⟨msg, rfl⟩
    · have hlooked := exec_key_for hwindow hkey
      have hfresh := hlooked.found jwk rfl
      have hsound : ∀ x ∈ l₁, ¬ Fails L a x := fun x hx hfail =>
        (hlooked.reported x hx hfail).elim fun _ hmsg => by cases hmsg
      have hl₁ := key_for_unverified.exec hkey
      obtain ⟨rfl, ⟨rfl, e, rfl⟩ | ⟨c⟩⟩ := exec_check h₂
      · rw [List.append_nil]
        refine ⟨⟨?_, nofun, fun x hx hfail => absurd hfail (hsound x hx)⟩, hlooked.window⟩
        rintro m₁ e n signature signed r m₂ rfl
        exact absurd rfl (hl₁ ⟨_, r⟩ (by simp) e n signature signed)
      · obtain ⟨n, e, signature, r, tail, hnum, hsig, rfl, htail, hvalid⟩ := c
        have htail' : ∀ z ∈ tail, Unverified z.1 := by
          intro z hz
          obtain ⟨now, rfl⟩ := htail z hz
          nofun
        refine ⟨⟨?_, fun {X} hX => ?_, fun x hx hfail => ?_⟩, ?_⟩
        · intro m₁ e' n' signature' signed' r' m₂ hm
          obtain ⟨rfl, hy⟩ := verify_unique hl₁ htail' (fun hne => hne _ _ _ _ rfl) hm
          cases hy
          exact ⟨token, jwk, htoken.symm, hfresh, hnum⟩
        · refine ⟨token, signature, e, n, htoken.symm, hsig, ?_⟩
          rw [← hvalid X hX]
          simp
        · rcases List.mem_append.mp hx with hx | hx
          · exact absurd hfail (hsound x hx)
          · rcases List.mem_cons.mp hx with rfl | hx
            · exact hfail.elim
            · obtain ⟨now, rfl⟩ := htail x hx
              exact hfail.elim
        · rw [← List.append_assoc]
          refine hlooked.window.mono (fun x hx => ?_) rfl rfl
          rintro items ⟨body, hbody, -⟩
          rcases List.mem_cons.mp hx with rfl | hx
          · exact hbody
          · obtain ⟨now, rfl⟩ := htail x hx
            exact hbody

/-- The exchanges of the calls so far. -/
def history (es : List JwtJwksAuthenticator.Call) : Log := es.flatMap (·.log)

theorem run_window {G : Cache → Option String × (Nat → Choice) → Prop} {jwks_uri : Option String}
    {es : List JwtJwksAuthenticator.Call} (h : (a.machine L).Run G { _jwks_uri := jwks_uri } es t) :
    Window L a (history es) t := by
  refine h.invariant (I := fun es t => Window L a (history es) t)
    (.empty (by simp [history]) rfl rfl) ?_
  rintro es s ⟨authorization, ω⟩ u c - - hstep hwindow
  simp only [JwtJwksAuthenticator.machine, Option.some.injEq, Prod.mk.injEq] at hstep
  obtain ⟨rfl, rfl⟩ := hstep
  have hwindow' := (exec_authenticate hwindow
    (Program.exec_of_run (Cache.apply L) (a.authenticate L authorization) ω s)).2
  simpa [history, JwtJwksAuthenticator.call] using hwindow'

/-- Every call of a run respects the window, and the cache follows it. -/
theorem trust_window (L : Libraries) (a : JwtJwksAuthenticator) (jwks_uri : Option String)
    {es : List JwtJwksAuthenticator.Call} {t : Cache}
    (h : (a.machine L).Run Machine.Free { _jwks_uri := jwks_uri } es t) :
    (∀ pre c post, es = pre ++ c :: post →
      Judged L a (history pre) c.authorization c.log c.result) ∧ Window L a (history es) t := by
  refine ⟨fun pre c post he => ?_, run_window h⟩
  obtain ⟨s, ⟨authorization, ω⟩, u, hpre, -, hstep, -⟩ := h.at_event he
  simp only [JwtJwksAuthenticator.machine, Option.some.injEq, Prod.mk.injEq] at hstep
  obtain ⟨-, rfl⟩ := hstep
  exact (exec_authenticate (run_window hpre)
    (Program.exec_of_run (Cache.apply L) (a.authenticate L authorization) ω s)).1

namespace Oidc

/-! A provider with one key, and a token that it signed. -/

def modulus : Bytes := [
  209, 42, 156, 144, 99, 202, 134, 10, 54, 204, 63, 18, 57, 244, 52, 81, 255, 25, 187, 6, 123, 183,
    116, 120, 242, 251, 255, 82, 42, 211, 171, 216, 107, 110, 30, 14, 50, 150, 184, 135, 211, 33,
    215, 12, 16, 71, 188, 152, 191, 89, 215, 160, 180, 93, 25, 60, 97, 105, 165, 149, 192, 188, 198,
    220, 136, 100, 199, 123, 230, 198, 199, 30, 230, 7, 56, 220, 118, 212, 230, 59, 54, 45, 240,
    212, 74, 214, 66, 145, 98, 72, 117, 128, 195, 40, 26, 135, 123, 89, 67, 99, 152, 192, 13, 21, 7,
    249, 139, 109, 65, 42, 80, 195, 97, 110, 131, 115, 182, 54, 201, 164, 168, 178, 123, 110, 17,
    188, 99, 77]

def signature : Bytes := [
  117, 45, 37, 106, 5, 161, 186, 150, 95, 186, 7, 25, 216, 26, 235, 144, 80, 245, 142, 63, 70, 190,
    142, 237, 187, 75, 71, 102, 110, 36, 204, 57, 117, 52, 169, 98, 118, 162, 5, 197, 85, 83, 146,
    125, 5, 174, 192, 177, 79, 168, 195, 33, 41, 147, 190, 199, 85, 237, 207, 6, 125, 122, 221, 99,
    214, 153, 181, 41, 220, 118, 86, 166, 81, 144, 127, 76, 90, 246, 136, 162, 134, 254, 240, 3,
    133, 176, 76, 132, 221, 44, 213, 163, 158, 165, 206, 163, 121, 212, 68, 49, 221, 81, 249, 244,
    34, 199, 225, 25, 90, 247, 133, 244, 214, 114, 102, 56, 20, 244, 34, 69, 215, 4, 118, 55, 210,
    158, 93, 46]

def jwk : Payload := [("kty", .str "RSA"), ("kid", .str "k"), ("e", .str "AQAB"),
  ("n", .str (String.ofList (encoded modulus)))]

def headerText : String := "\x7b\"alg\":\"RS256\",\"kid\":\"k\"\x7d"

def claimsText : String := "\x7b\"iss\":\"https://idp.example.test\",\"sub\":\"u\"," ++
  "\"workspace_id\":\"w\",\"tenant_id\":\"t\",\"role\":\"r\",\"exp\":60\x7d"

def claims : Payload := [("iss", .str "https://idp.example.test"), ("sub", .str "u"),
  ("workspace_id", .str "w"), ("tenant_id", .str "t"), ("role", .str "r"), ("exp", .num 60)]

def signed : Bytes := (encoded (utf8 headerText) ++ '.' :: encoded (utf8 claimsText)).map
  fun c => UInt8.ofNat c.toNat

def host : ParseResult := { scheme := "https", hostname := some "idp.example.test" }

/-- The outside world on the inputs at hand. -/
def libraries : Libraries where
  loads bytes :=
    if bytes = utf8 headerText then .ok (.obj [("alg", .str "RS256"), ("kid", .str "k")])
    else if bytes = utf8 claimsText then .ok (.obj claims)
    else .error .jsonDecodeError
  hmac_sha256 _ _ := []
  str x :=
    match x with
    | .str s => s
    | _ => ""
  urlparse url :=
    if url = "https://idp.example.test" then .ok host
    else if url = "https://idp.example.test/" then .ok { host with path := "/" }
    else .error (.exception "NotImplementedError")
  lower s := s
  is_global _ := none
  cryptography := true
  rsa_verify e n signature' signed' :=
    if e = 65537 ∧ n = from_bytes modulus ∧ signature' = signature ∧ signed' = signed then .ok ()
    else .error (.exception "InvalidSignature")

def authenticator : JwtJwksAuthenticator where
  issuer := "https://idp.example.test"
  audience := none
  timeout_seconds := 5
  cache_seconds := 300
  workspace_claim := "workspace_id"
  tenant_claim := "tenant_id"
  role_claim := "role"
  _approved_hosts := ["idp.example.test"]
  fetcher := true
  timely := by decide
  lasting := by decide

def authorization : Option String := bearerOf (utf8 headerText) (utf8 claimsText) signature

/-- Half a minute past, and the fetcher returns the key set. -/
def honest (_ : Nat) : Choice where
  now := 30
  fetched := .ok (.obj [("keys", .arr [.obj jwk])])

/-- The call with that token. -/
def outcome : JwtJwksAuthenticator.Call × Cache :=
  authenticator.call libraries {} authorization honest

theorem run : (authenticator.machine libraries).Run Machine.Free {} [outcome.1] outcome.2 :=
  Machine.Run.snoc (a := (authorization, honest)) .nil trivial rfl

end Oidc

theorem trust_window_sample :
    Window Oidc.libraries Oidc.authenticator (history [Oidc.outcome.1]) Oidc.outcome.2 :=
  (trust_window Oidc.libraries Oidc.authenticator none Oidc.run).2

end Calls

end EnterpriseCopilot.Auth
