import EnterpriseCopilot.Plugin.Names
import EnterpriseCopilot.Schedule.Contract
import EnterpriseCopilot.Schedule.Due
import Mathlib.Data.List.TakeWhile

/-! When a schedule document without issues can be loaded, registered and asked for its slots. -/

namespace EnterpriseCopilot.Schedule

open EnterpriseCopilot.Python
open EnterpriseCopilot.Plugin (id_re semver_re)

/-- The answer to a cron expression that matches no minute of a year. -/
def noOccurrence : PyError := .valueError "cron expression has no occurrence within one year"

/-- The `k`-th minute from the cursor on. -/
structure MinuteAt (cursor : DateTime) (k : Nat) (m : DateTime) : Prop where
  wall : m.wall = cursor.wall + 60000000 * k
  tzinfo : m.tzinfo = cursor.tzinfo
  fold : m.fold = (cursor.fold && k = 0)

/-- The time is one of the years 1 to 9999 in UTC. -/
def InCalendar (d : DateTime) : Prop := 0 ≤ d.instant ∧ d.instant < wallEnd

/-- The first match within `n` minutes has a time in UTC, or there is no match and the calendar goes on
after the `n` minutes. -/
def WithinCalendar (cron : CronExpression) (n : Nat) (cursor : DateTime) : Prop :=
  (∃ k m, k < n ∧ MinuteAt cursor k m ∧ cron.matches_ m ∧ InCalendar m ∧
      ∀ j < k, ∀ x, MinuteAt cursor j x → ¬ cron.matches_ x) ∨
    (cursor.wall + 60000000 * n < wallEnd ∧ ∀ k < n, ∀ x, MinuteAt cursor k x → ¬ cron.matches_ x)

section Search

variable {cron : CronExpression} {cursor next m : DateTime} {k n : Nat}

theorem MinuteAt.self : MinuteAt cursor 0 cursor := ⟨rfl, rfl, by simp⟩

theorem MinuteAt.eq_self (h : MinuteAt cursor 0 m) : m = cursor := by
  obtain ⟨hwall, htz, hfold⟩ := h
  cases m
  cases cursor
  simp_all

theorem minuteAt_next (h : cursor.add 60000000 = .ok next) : MinuteAt next k m ↔ MinuteAt cursor (k + 1) m := by
  obtain ⟨hwall, hfold, htz⟩ := DateTime.make_ok h
  have hnext : next.wall = cursor.wall + 60000000 := by omega
  constructor
  · rintro ⟨hw, ht, hf⟩
    exact ⟨by rw [hw, hnext]; ring, ht.trans htz, by simpa [hfold] using hf⟩
  · rintro ⟨hw, ht, hf⟩
    exact ⟨by rw [hw, hnext]; ring, ht.trans htz.symm, by simpa [hfold] using hf⟩

theorem make_error {w : Int} {f : Bool} {tz : TzInfo} {e : PyError} (h : DateTime.make w f tz = .error e) :
    e = .overflowError "date value out of range" ∧ ¬ (0 ≤ w ∧ w < wallEnd) := by
  unfold DateTime.make at h
  split at h
  · cases h
  · rename_i hw
    cases h
    exact ⟨rfl, hw⟩

theorem astimezone_error {d : DateTime} {tz : TzInfo} {e : PyError} (h : d.astimezone tz = .error e) :
    e = .overflowError "date value out of range" := by
  unfold DateTime.astimezone at h
  split at h
  · cases h
  · obtain h | ⟨_, _, h⟩ := bind_error h
    · exact (make_error h).1
    · exact (make_error h).1

theorem searchCron_match (h : cron.matches_ cursor = true) :
    ((∃ slot, searchCron cron (n + 1) cursor = .ok slot) ∨ searchCron cron (n + 1) cursor = .error noOccurrence) ↔
      InCalendar cursor := by
  unfold searchCron
  rw [if_pos h, InCalendar, ← DateTime.exists_astimezone_utc]
  cases hutc : cursor.astimezone .utc with
  | ok u => exact ⟨fun _ => ⟨u, rfl⟩, fun _ => .inl ⟨some u, rfl⟩⟩
  | error e =>
    obtain rfl := astimezone_error hutc
    constructor
    · rintro (⟨_, h⟩ | h) <;> cases h
    · rintro ⟨_, h⟩
      cases h

theorem searchCron_ends : ∀ {n cursor}, ((∃ slot, searchCron cron n cursor = .ok slot) ∨
    searchCron cron n cursor = .error noOccurrence) ↔ WithinCalendar cron n cursor := by
  intro n
  induction n with
  | zero =>
    intro cursor
    have := cursor.inRange
    exact ⟨fun _ => .inr ⟨by simpa using this, fun k hk => absurd hk (Nat.not_lt_zero k)⟩, fun _ => .inr rfl⟩
  | succ n ih =>
    intro cursor
    by_cases hmatch : cron.matches_ cursor = true
    · rw [searchCron_match hmatch]
      constructor
      · exact fun h => .inl ⟨0, cursor, Nat.succ_pos n, .self, hmatch, h, fun j hj => absurd hj (Nat.not_lt_zero j)⟩
      · rintro (⟨k, m, _, hm, _, hin, hfirst⟩ | ⟨_, hnone⟩)
        · cases k with
          | zero => exact hm.eq_self ▸ hin
          | succ k => exact absurd hmatch (hfirst 0 (Nat.succ_pos k) cursor .self)
        · exact absurd hmatch (hnone 0 (Nat.succ_pos n) cursor .self)
    · -- the search goes on a minute later, if there is one
      unfold searchCron
      rw [if_neg hmatch]
      cases hnext : cursor.add 60000000 with
      | error e =>
        obtain ⟨rfl, hout⟩ := make_error hnext
        constructor
        · rintro (⟨_, h⟩ | h) <;> cases h
        · rintro (⟨k, m, _, hm, hmm, _⟩ | ⟨hlt, _⟩)
          · cases k with
            | zero => exact absurd (hm.eq_self ▸ hmm) hmatch
            | succ k =>
              have hw := hm.wall
              have := m.inRange
              omega
          · omega
      | ok next =>
        rw [ok_bind, ih]
        have hwall : next.wall = cursor.wall + 60000000 := by
          have := (DateTime.make_ok hnext).1
          omega
        -- no match before the next minute either
        have hshift : ∀ {N}, (∀ j < N, ∀ x, MinuteAt next j x → ¬ cron.matches_ x) ↔
            ∀ j < N + 1, ∀ x, MinuteAt cursor j x → ¬ cron.matches_ x := by
          intro N
          constructor
          · intro h j hj x hx
            cases j with
            | zero => exact hx.eq_self ▸ hmatch
            | succ j => exact h j (Nat.lt_of_succ_lt_succ hj) x ((minuteAt_next hnext).mpr hx)
          · exact fun h j hj x hx => h (j + 1) (Nat.succ_lt_succ hj) x ((minuteAt_next hnext).mp hx)
        constructor
        · rintro (⟨k, m, hk, hm, hmm, hin, hfirst⟩ | ⟨hlt, hnone⟩)
          · exact .inl ⟨k + 1, m, Nat.succ_lt_succ hk, (minuteAt_next hnext).mp hm, hmm, hin, hshift.mp hfirst⟩
          · exact .inr ⟨by omega, hshift.mp hnone⟩
        · rintro (⟨k, m, hk, hm, hmm, hin, hfirst⟩ | ⟨hlt, hnone⟩)
          · cases k with
            | zero => exact absurd (hm.eq_self ▸ hmm) hmatch
            | succ k =>
              exact .inl ⟨k, m, Nat.lt_of_succ_lt_succ hk, (minuteAt_next hnext).mpr hm, hmm, hin, hshift.mpr hfirst⟩
          · exact .inr ⟨by omega, hshift.mpr hnone⟩

end Search

/-- The value at a key of a mapping. -/
def field (value : Yaml) (key : String) : Option Yaml := value.asMapping.bind fun m => Mapping.lookup m key

/-- The value at a key of the mapping at another key; a key that is missing reads as null. -/
def at_path (raw : Yaml) (outer key : String) : Yaml := ((field raw outer).bind fun value => field value key).getD .null

def zone_name (raw : Yaml) : String :=
  match ((field raw "schedule").bind fun value => field value "timezone").getD (.str "UTC") with
  | .str name => name
  | _ => ""

/-- The text can be read as a time, and if the time has come it is in the calendar. -/
def OneShotReads (L : Library) (at_ : Yaml) (tz : TzInfo) (local_now : DateTime) : Prop :=
  ∃ text parsed, at_ = .str text ∧ text ≠ "" ∧ L.isoParser text = .ok parsed ∧
    ((parsed.orZone tz).ble local_now = true → InCalendar (parsed.orZone tz))

/-- The multiple of `n` seconds since the epoch at the time. -/
def intervalStart (now : DateTime) (n : Int) : Int :=
  epoch.wall + (truncSeconds (now.instant - epoch.wall) - (truncSeconds (now.instant - epoch.wall)).fmod n) * 1000000

/-- The time, and the start of its interval, are in the calendar. -/
def IntervalStarts (seconds : Yaml) (now : DateTime) : Prop :=
  InCalendar now ∧ ∃ n, seconds.asInt = some n ∧ 0 ≤ intervalStart now n ∧ intervalStart now n < wallEnd

/-- The expression is one of cron, and what it names next is in the calendar. -/
def CronReads (expression : Yaml) (local_now : DateTime) : Prop :=
  ∃ text cron cursor, expression = .str text ∧ CronExpression.parse text = .ok cron ∧
    ceilMinute local_now = .ok cursor ∧ WithinCalendar cron (60 * 24 * 366) cursor

/-- What a document needs besides passing the check. -/
structure Runnable (L : Library) (raw : Yaml) (now : DateTime) : Prop where
  id : ∀ text, field raw "id" = some (.str text) → str_strip text = text
  version : ∀ text, field raw "version" = some (.str text) → str_strip text = text
  consent : (field raw "run").bind (field · "allow_external_processing") ≠ some .null
  time : ∃ z local_now, L.zoneInfo (zone_name raw) = .ok z ∧ now.astimezone (.zone (zone_name raw) z) = .ok local_now ∧
    ((isText "one_shot" (at_path raw "schedule" "type") = true ∧
        OneShotReads L (at_path raw "schedule" "at") (.zone (zone_name raw) z) local_now) ∨
      (isText "interval" (at_path raw "schedule" "type") = true ∧ IntervalStarts (at_path raw "schedule" "seconds") now) ∨
      (isText "cron" (at_path raw "schedule" "type") = true ∧
        CronReads (at_path raw "schedule" "expression") local_now))

/-- The document is loaded, the definition registered, and its slot computed; id, version and interval
are as the check wants them. -/
structure Runs (L : Library) (Y : YamlLibrary) (raw : Yaml) (now : DateTime) : Prop where
  loads : ∃ d, load_schedule Y raw = .ok d
  registers : ∀ d, load_schedule Y raw = .ok d → ∃ definitions, d.register L (fun _ => none) = .ok definitions
  scheduled : ∀ d, load_schedule Y raw = .ok d → (∃ slot, d.scheduled_for L Y now = .ok slot) ∨
    (d.schedule_type = "cron" ∧ d.scheduled_for L Y now = .error noOccurrence)
  rules : ∀ d, load_schedule Y raw = .ok d → (id_re d.id ∧ d.id.length ≤ 63) ∧
    (semver_re d.version ∧ d.version.length ≤ 64) ∧
    (d.schedule_type = "interval" → ∃ n, d.interval_seconds.asInt = some n ∧ 0 < n)

section Slots

variable {L : Library} {Y : YamlLibrary} {d : LoadedDefinition} {tz : TzInfo} {now local_now : DateTime}

theorem truthy_of_ne {text : String} (h : text ≠ "") : truthy (some text) = some text := by
  simp [truthy, h]

theorem inCalendar_of_ok {x u : DateTime} (h : x.astimezone .utc = .ok u) : InCalendar x :=
  DateTime.exists_astimezone_utc.mp ⟨u, h⟩

theorem oneShotSlot_iff : (∃ slot, d.oneShotSlot L tz local_now = .ok slot) ↔ OneShotReads L d.at_ tz local_now := by
  constructor
  · rintro ⟨slot, h⟩
    obtain ⟨at_, hread, h⟩ := bind_ok h
    unfold ScheduleDefinition.oneShotSlot at h
    split at h
    · cases h
    · rename_i text htext
      have hat : at_ = some text := truthy_some htext
      obtain ⟨parsed, hparsed, h⟩ := bind_ok h
      have hne : text ≠ "" := by
        rintro rfl
        rw [show at_ = some "" from hat] at htext
        cases htext
      have hvalue : d.at_ = .str text := by
        unfold LoadedDefinition.readText at hread
        split at hread
        · rename_i hvalue
          cases hread
          cases hat
          exact hvalue
        · split at hread <;> cases hread
          cases hat
      have hiso : L.isoParser text = .ok parsed := by
        unfold Library.fromisoformat at hparsed
        split at hparsed
        · cases hparsed
          assumption
        · cases hparsed
      refine ⟨text, parsed, hvalue, hne, hiso, fun hble => ?_⟩
      rw [if_pos hble] at h
      obtain ⟨u, hu, _⟩ := bind_ok h
      exact inCalendar_of_ok hu
  · rintro ⟨text, parsed, hvalue, hne, hiso, hcal⟩
    have hslot : d.oneShotSlot L tz local_now =
        if (parsed.orZone tz).ble local_now then do return some (← (parsed.orZone tz).astimezone .utc)
        else return none := by
      simp only [LoadedDefinition.oneShotSlot, hvalue, LoadedDefinition.readText, ok_bind,
        ScheduleDefinition.oneShotSlot, LoadedDefinition.typed, truthy_of_ne hne, Library.fromisoformat, hiso]
    rw [hslot]
    split
    · rename_i hble
      obtain ⟨u, hu⟩ := DateTime.exists_astimezone_utc.mpr (hcal hble)
      exact ⟨some u, by rw [hu]; rfl⟩
    · exact ⟨none, rfl⟩

theorem intervalSlot_eq {n : Int} (hn : d.interval_seconds.asInt = some n) :
    d.intervalSlot Y now = (d.typed none none (some n)).intervalSlot now := by
  unfold LoadedDefinition.intervalSlot
  cases hvalue : d.interval_seconds with
  | bool b =>
    rw [hvalue] at hn
    simp only [hn]
  | int k =>
    rw [hvalue] at hn
    simp only [hn]
  | _ =>
    rw [hvalue] at hn
    cases hn

theorem intervalSlot_iff {n : Int} (hn : d.interval_seconds.asInt = some n) (hpos : 0 < n) :
    (∃ slot, d.intervalSlot Y now = .ok slot) ↔ IntervalStarts d.interval_seconds now := by
  have hslot : d.intervalSlot Y now = now.astimezone .utc >>= fun current =>
      timedelta (truncSeconds (current.wall - epoch.wall) - (truncSeconds (current.wall - epoch.wall)).fmod n) >>=
        fun delta => epoch.add delta >>= fun slot => .ok (some slot) := by
    rw [intervalSlot_eq hn]
    unfold ScheduleDefinition.intervalSlot
    split
    · rename_i h
      cases h
    · rename_i h
      cases h
      exact absurd hpos (lt_irrefl 0)
    · rename_i k _ h
      cases h
      rfl
  have hwall : ∀ {utc}, now.astimezone .utc = .ok utc → (utc.wall : Int) = now.instant := by
    intro utc hutc
    rw [← DateTime.instant_of_astimezone hutc, DateTime.instant_utc (DateTime.tzinfo_of_astimezone hutc)]
  rw [hslot]
  constructor
  · rintro ⟨slot, h⟩
    obtain ⟨utc, hutc, h⟩ := bind_ok h
    obtain ⟨delta, hdelta, h⟩ := bind_ok h
    obtain ⟨start, hstart, _⟩ := bind_ok h
    rw [hwall hutc] at hdelta
    unfold timedelta at hdelta
    split at hdelta
    · cases hdelta
      refine ⟨inCalendar_of_ok hutc, n, hn, ?_⟩
      have hin : (start.wall : Int) < wallEnd := by exact_mod_cast start.inRange
      rw [intervalStart, ← (DateTime.make_ok hstart).1]
      exact ⟨Int.natCast_nonneg _, hin⟩
    · cases hdelta
  · rintro ⟨hcal, n', hn', hlo, hhi⟩
    cases hn.symm.trans hn'
    obtain ⟨utc, hutc⟩ := DateTime.exists_astimezone_utc.mpr hcal
    unfold intervalStart at hlo hhi
    generalize hvalue : truncSeconds (now.instant - epoch.wall) - (truncSeconds (now.instant - epoch.wall)).fmod n = seconds
      at hlo hhi
    have hdelta : timedelta seconds = .ok (seconds * 1000000) := by
      have hepoch : (epoch.wall : Int) = 719162 * 86400000000 := rfl
      have hend : (wallEnd : Int) = 3652059 * 86400000000 := rfl
      refine timedelta_ok ?_
      omega
    obtain ⟨start, hstart⟩ := DateTime.exists_make false epoch.tzinfo hlo hhi
    refine ⟨some start, ?_⟩
    rw [hutc, ok_bind, hwall hutc, hvalue, hdelta, ok_bind, DateTime.add, hstart]
    rfl

theorem cronSlot_iff {text : String} {cron : CronExpression} (htext : d.expression = .str text) (hne : text ≠ "")
    (hcron : CronExpression.parse text = .ok cron) :
    ((∃ slot, d.cronSlot local_now = .ok slot) ∨ d.cronSlot local_now = .error noOccurrence) ↔
      CronReads d.expression local_now := by
  have hslot : d.cronSlot local_now = ceilMinute local_now >>= fun cursor => searchCron cron (60 * 24 * 366) cursor := by
    simp only [LoadedDefinition.cronSlot, htext, ScheduleDefinition.cronSlot, LoadedDefinition.typed, truthy_of_ne hne,
      hcron, ok_bind]
  rw [hslot]
  cases hceil : ceilMinute local_now with
  | error e =>
    have he : e = .overflowError "date value out of range" := by
      unfold ceilMinute at hceil
      split at hceil
      · exact (make_error hceil).1
      · cases hceil
    subst he
    constructor
    · rintro (⟨_, h⟩ | h) <;> cases h
    · rintro ⟨_, _, cursor, _, _, hcursor, _⟩
      cases hceil.symm.trans hcursor
  | ok cursor =>
    rw [ok_bind, searchCron_ends]
    constructor
    · exact fun h => ⟨text, cron, cursor, htext, hcron, hceil, h⟩
    · rintro ⟨text', cron', cursor', htext', hcron', hceil', h⟩
      cases htext.symm.trans htext'
      cases hcron.symm.trans hcron'
      cases hceil.symm.trans hceil'
      exact h

end Slots

section Forms

variable {text : String} {c : Char}

theorem dropWhile_of_none {p : Char → Bool} {cs : List Char} (h : ∀ c ∈ cs, p c = false) : cs.dropWhile p = cs := by
  cases cs with
  | nil => rfl
  | cons c cs => rw [List.dropWhile_cons_of_neg (by simp [h c (.head _)])]

theorem strip_of_no_space (h : ∀ c ∈ text.toList, isSpace c = false) : str_strip text = text := by
  unfold str_strip
  rw [dropWhile_of_none h, dropWhile_of_none (fun c hc => h c (List.mem_reverse.mp hc)), List.reverse_reverse,
    String.ofList_toList]

/-- No digit is white space. -/
theorem decimals_not_space : ∀ z ∈ decimalZeros, ∀ i < 10, ((9 ≤ z + i && z + i ≤ 13) || (28 ≤ z + i && z + i ≤ 32) ||
    z + i == 0x85 || z + i == 0xa0 || z + i == 0x1680 || (0x2000 ≤ z + i && z + i ≤ 0x200a) || z + i == 0x2028 ||
    z + i == 0x2029 || z + i == 0x202f || z + i == 0x205f || z + i == 0x3000) = false := by decide

theorem decimal_not_space (h : (decimalValue c).isSome) : isSpace c = false := by
  unfold decimalValue at h
  rw [Option.isSome_map] at h
  obtain ⟨z, hz⟩ := Option.isSome_iff_exists.mp h
  have hrange := List.find?_some hz
  have hmem := List.mem_of_find?_eq_some hz
  simp only [Bool.and_eq_true, decide_eq_true_eq] at hrange
  have hdigit := decimals_not_space z hmem (c.toNat - z) (by omega)
  rw [Nat.add_sub_cancel' hrange.1] at hdigit
  exact hdigit

theorem suffix_not_space (h : Plugin.isSuffixChar c = true) : isSpace c = false := by
  simp only [Plugin.isSuffixChar, Bool.or_eq_true, Bool.and_eq_true, decide_eq_true_eq, beq_iff_eq, Char.le_def,
    UInt32.le_iff_toNat_le] at h
  have hword : 33 ≤ c.toNat ∧ c.toNat ≤ 126 := by
    rcases h with (((h | h) | h) | rfl) | rfl
    · exact ⟨le_trans (by decide) h.1, le_trans h.2 (by decide)⟩
    · exact ⟨le_trans (by decide) h.1, le_trans h.2 (by decide)⟩
    · exact ⟨le_trans (by decide) h.1, le_trans h.2 (by decide)⟩
    · decide
    · decide
  simp only [isSpace, Bool.or_eq_false_iff, Bool.and_eq_false_iff, decide_eq_false_iff_not, beq_eq_false_iff_ne]
  omega

/-- A run of digits. -/
theorem digitRun_mem {cs rest : List Char} (h : Plugin.digitRun cs = some rest) :
    ∀ c ∈ cs, (decimalValue c).isSome ∨ c ∈ rest := by
  unfold Plugin.digitRun at h
  dsimp only at h
  split at h
  · cases h
    intro c hc
    rw [← List.takeWhile_append_dropWhile (p := fun c => (decimalValue c).isSome) (l := cs)] at hc
    rcases List.mem_append.mp hc with hc | hc
    · exact .inl (by simpa using List.mem_takeWhile_imp hc)
    · exact .inr hc
  · cases h

theorem id_re_strip (h : id_re text = true) : str_strip text = text := by
  refine strip_of_no_space fun c hc => suffix_not_space ?_
  rcases Plugin.id_re_mem h hc with hc | rfl
  · simp only [Plugin.isIdChar, Bool.or_eq_true, Bool.and_eq_true] at hc
    simp only [Plugin.isSuffixChar, Bool.or_eq_true, Bool.and_eq_true]
    tauto
  · rfl

theorem semver_re_strip (h : semver_re text = true) : str_strip text = text := by
  have hdot : isSpace '.' = false := by decide
  have hrun : ∀ {cs rest : List Char}, Plugin.digitRun cs = some ('.' :: rest) →
      (∀ c ∈ rest, isSpace c = false) → ∀ c ∈ cs, isSpace c = false := by
    intro cs rest hcs hrest c hc
    rcases digitRun_mem hcs c hc with hdigit | hc
    · exact decimal_not_space hdigit
    · rcases List.mem_cons.mp hc with rfl | hc
      · exact hdot
      · exact hrest c hc
  refine strip_of_no_space ?_
  unfold semver_re at h
  split at h
  · rename_i cs hcs
    refine hrun hcs ?_
    split at h
    · rename_i ds hds
      refine hrun hds fun c hc => ?_
      split at h
      · rename_i hes
        rcases digitRun_mem hes c hc with hdigit | hc
        · exact decimal_not_space hdigit
        · cases hc
      · rename_i es hes
        rcases digitRun_mem hes c hc with hdigit | hc
        · exact decimal_not_space hdigit
        · rcases List.mem_cons.mp hc with rfl | hc
          · decide
          · exact suffix_not_space (List.all_eq_true.mp (Bool.and_eq_true _ _ ▸ h).2 c hc)
      · cases h
    · cases h
  · cases h

end Forms

section Checks

variable {mapping : Mapping} {value raw : Yaml} {key text issue : String} {max_length : Nat}

theorem issue_if_nil {condition : Bool} : issue_if condition issue = [] ↔ condition = false := by
  cases condition <;> simp [issue_if]

theorem asMapping_eq {m : Mapping} (h : value.asMapping = some m) : value = .map m := by
  cases value with
  | map kvs =>
    cases h
    rfl
  | _ => cases h

theorem lookup_of_get (h : mapping.get key = value) (hne : value ≠ .null) : mapping.lookup key = some value := by
  unfold Mapping.get at h
  cases hl : mapping.lookup key with
  | none =>
    rw [hl] at h
    exact absurd h.symm hne
  | some v =>
    rw [hl] at h
    rw [← h]
    rfl

/-- A text with a form passes its check. -/
theorem check_form_nil {form : String → Bool} (h : check_form mapping key max_length form issue = []) :
    ∃ text, mapping.get key = .str text ∧ isBlank text = false ∧ text.length ≤ max_length ∧
      form (str_strip text) = true := by
  unfold check_form _require_string at h
  obtain ⟨hrequired, hform⟩ := List.append_eq_nil_iff.mp h
  split at hrequired
  · rename_i text hget
    simp only [hget] at hform
    split at hrequired
    · cases hrequired
    · rename_i hblank
      rw [if_neg hblank] at hform
      refine ⟨text, hget, by simpa using hblank, ?_, ?_⟩
      · by_contra hlong
        rw [if_pos (by omega)] at hrequired
        cases hrequired
      · by_contra hno
        simp [hno] at hform
  · cases hrequired

/-- What a checked `schedule` has. -/
structure ValidTiming (schedule : Mapping) (schedule_type timezone_name : String) : Prop where
  type : schedule.get "type" = .str schedule_type
  known : schedule_type ∈ schedule_types
  cron : schedule_type = "cron" → ∃ expression, schedule.get "expression" = .str expression ∧
    (split expression.toList).length = 5
  interval : schedule_type = "interval" → ∃ n, (schedule.get "seconds").asInt = some n ∧ 0 < n
  timezone : (schedule.lookup "timezone").getD (.str "UTC") = .str timezone_name

theorem schedule_issues_nil (h : schedule_issues value = .ok []) :
    ∃ schedule schedule_type timezone_name, value = .map schedule ∧ ValidTiming schedule schedule_type timezone_name := by
  unfold schedule_issues at h
  split at h
  · rename_i schedule hmap
    obtain ⟨known, hknown, h⟩ := bind_ok h
    have h := Except.ok.inj h
    simp only [List.append_eq_nil_iff, issue_if_nil, Bool.not_eq_false'] at h
    obtain ⟨⟨⟨rfl, hcron⟩, hinterval⟩, hzone⟩ := h
    obtain ⟨schedule_type, hin, htype⟩ := Yaml.oneOf_true hknown
    cases hz : (schedule.lookup "timezone").getD (.str "UTC") with
    | str timezone_name =>
      refine ⟨schedule, schedule_type, timezone_name, asMapping_eq hmap, htype, hin, ?_, ?_, hz⟩
      · rintro rfl
        cases hexpression : schedule.get "expression" with
        | str expression =>
          simp [htype, isText, hexpression] at hcron
          exact ⟨expression, rfl, hcron⟩
        | _ => simp [htype, isText, hexpression] at hcron
      · rintro rfl
        cases hseconds : (schedule.get "seconds").asInt with
        | some n =>
          simp [htype, isText, hseconds] at hinterval
          exact ⟨n, rfl, hinterval⟩
        | none => simp [htype, isText, hseconds] at hinterval
    | _ =>
      rw [hz] at hzone
      cases hzone
  · cases h

theorem text_issues_nil (h : text_issues value max_length issue = []) :
    value = .null ∨ ∃ s, value = .str s ∧ isBlank s = false ∧ s.length ≤ max_length := by
  cases value with
  | null => exact .inl rfl
  | str s =>
    simp only [text_issues, issue_if_nil, Bool.or_eq_false_iff, decide_eq_false_iff_not, Nat.not_lt] at h
    exact .inr ⟨s, rfl, h⟩
  | _ => cases h

/-- What a checked `run` has. -/
structure ValidRun (run : Mapping) : Prop where
  numbers : ∀ key ∈ ["max_runtime_seconds", "max_concurrency", "retry_limit"], ∃ n, (run.get key).asInt = some n ∧ 0 ≤ n
  concurrency : (run.get "max_concurrency").isZero = false
  texts : ∀ key ∈ ["query", "order_id"], run.get key = .null ∨ ∃ s, run.get key = .str s
  consent : run.get "allow_external_processing" = .null ∨ ∃ b, run.get "allow_external_processing" = .bool b

theorem run_issues_nil (h : run_issues value = .ok []) : ∃ run, value = .map run ∧ ValidRun run := by
  unfold run_issues at h
  split at h
  · rename_i run hmap
    obtain ⟨mode, hmode, h⟩ := bind_ok h
    have h := Except.ok.inj h
    simp only [List.append_eq_nil_iff, issue_if_nil, List.flatMap_eq_nil_iff, Bool.not_eq_false'] at h
    obtain ⟨⟨⟨⟨⟨hnumbers, hzero⟩, _⟩, hquery⟩, horder⟩, hconsent⟩ := h
    refine ⟨run, asMapping_eq hmap, fun key hkey => ?_, ?_, fun key hkey => ?_, ?_⟩
    · have := hnumbers key hkey
      cases hn : (run.get key).asInt with
      | none => simp [hn] at this
      | some n =>
        simp [hn] at this
        exact ⟨n, rfl, this⟩
    · unfold Mapping.get
      cases hl : run.lookup "max_concurrency" with
      | none => rfl
      | some v =>
        rw [hl] at hzero
        exact hzero
    · simp only [List.mem_cons, List.not_mem_nil, or_false] at hkey
      rcases hkey with rfl | rfl
      · exact (text_issues_nil hquery).imp_right fun ⟨s, hs, _⟩ => ⟨s, hs⟩
      · exact (text_issues_nil horder).imp_right fun ⟨s, hs, _⟩ => ⟨s, hs⟩
    · cases hallow : run.get "allow_external_processing" with
      | null => exact .inl rfl
      | bool b => exact .inr ⟨b, rfl⟩
      | _ =>
        rw [hallow] at hconsent
        cases hconsent
  · cases h

theorem permission_issues_nil (h : permission_issues value = .ok []) :
    ∃ (permissions : Mapping) (mode : String), value = .map permissions ∧ permissions.get "mode" = .str mode := by
  unfold permission_issues at h
  split at h
  · rename_i permissions hmap
    obtain ⟨known, hknown, h⟩ := bind_ok h
    simp only [Except.ok.injEq, issue_if_nil, Bool.not_eq_false', pure, Except.pure] at h
    subst h
    obtain ⟨mode, _, hmode⟩ := Yaml.oneOf_true hknown
    exact ⟨permissions, mode, asMapping_eq hmap, hmode⟩
  · cases h

/-- What a checked `notify` has. -/
structure ValidNotify (notify : Mapping) (condition : String) : Prop where
  channel : notify.get "channel" = .null ∨ ∃ s, notify.get "channel" = .str s ∧ isBlank s = false ∧ s.length ≤ 64
  only_if : (notify.lookup "only_if").getD (.str "finding_or_failure") = .str condition
  known : condition ∈ notify_conditions

theorem notify_issues_nil (h : notify_issues value = .ok []) :
    ∃ notify condition, value = .map notify ∧ ValidNotify notify condition := by
  unfold notify_issues at h
  split at h
  · rename_i notify hmap
    obtain ⟨known, hknown, h⟩ := bind_ok h
    have h := Except.ok.inj h
    simp only [List.append_eq_nil_iff, issue_if_nil, Bool.not_eq_false'] at h
    obtain ⟨hchannel, rfl⟩ := h
    obtain ⟨condition, hin, hcondition⟩ := Yaml.oneOf_true hknown
    exact ⟨notify, condition, asMapping_eq hmap, text_issues_nil hchannel, hcondition, hin⟩
  · cases h

/-- The parts of a document. -/
structure Document where
  id : String
  version : String
  agent : String
  schedule : Mapping
  schedule_type : String
  timezone_name : String
  run : Mapping
  permissions : Mapping
  mode : String
  notify : Mapping
  condition : String

/-- What is known of a document without issues. -/
structure ValidDocument (mapping : Mapping) (c : Document) : Prop where
  id : mapping.get "id" = .str c.id
  id_form : isBlank c.id = false ∧ c.id.length ≤ 63 ∧ id_re (str_strip c.id) = true
  version : mapping.get "version" = .str c.version
  version_form : isBlank c.version = false ∧ c.version.length ≤ 64 ∧ semver_re (str_strip c.version) = true
  agent : mapping.get "agent" = .str c.agent
  schedule : mapping.get "schedule" = .map c.schedule
  timing : ValidTiming c.schedule c.schedule_type c.timezone_name
  run : mapping.get "run" = .map c.run
  limits : ValidRun c.run
  permissions : mapping.get "permissions" = .map c.permissions
  mode : c.permissions.get "mode" = .str c.mode
  notify : (mapping.lookup "notify").getD (.map []) = .map c.notify
  notifies : ValidNotify c.notify c.condition

theorem validate_schedule_nil (h : validate_schedule raw = .ok []) :
    ∃ mapping c, raw = .map mapping ∧ ValidDocument mapping c := by
  unfold validate_schedule at h
  split at h
  · rename_i mapping hmap
    obtain ⟨schedule_list, hschedule, h⟩ := bind_ok h
    obtain ⟨run_list, hrun, h⟩ := bind_ok h
    obtain ⟨permission_list, hpermissions, h⟩ := bind_ok h
    obtain ⟨notify_list, hnotify, h⟩ := bind_ok h
    have h := Except.ok.inj h
    simp only [List.append_eq_nil_iff, List.flatMap_eq_nil_iff, _check_id_and_version] at h
    obtain ⟨⟨⟨⟨⟨hfields, hid, hversion⟩, rfl⟩, rfl⟩, rfl⟩, rfl⟩ := h
    obtain ⟨id, hidget, hidform⟩ := check_form_nil hid
    obtain ⟨version, hversionget, hversionform⟩ := check_form_nil hversion
    obtain ⟨schedule, schedule_type, timezone_name, hsget, htiming⟩ := schedule_issues_nil hschedule
    obtain ⟨run, hrget, hlimits⟩ := run_issues_nil hrun
    obtain ⟨permissions, mode, hpget, hmode⟩ := permission_issues_nil hpermissions
    obtain ⟨notify, condition, hnget, hnotifies⟩ := notify_issues_nil hnotify
    obtain ⟨agent, hagent⟩ : ∃ agent, mapping.get "agent" = .str agent := by
      have := hfields "agent" (by simp)
      unfold _require_string at this
      split at this
      · exact ⟨_, by assumption⟩
      · cases this
    exact ⟨mapping, ⟨id, version, agent, schedule, schedule_type, timezone_name, run, permissions, mode, notify, condition⟩,
      asMapping_eq hmap, hidget, hidform, hversionget, hversionform, hagent, hsget, htiming, hrget, hlimits, hpget, hmode,
      hnget, hnotifies⟩
  · cases h

/-- What the loader makes of the parts. -/
structure Loads (c : Document) (d : LoadedDefinition) : Prop where
  id : d.id = c.id
  version : d.version = c.version
  schedule_type : d.schedule_type = c.schedule_type
  timezone_name : d.timezone_name = c.timezone_name
  expression : d.expression = c.schedule.get "expression"
  at_ : d.at_ = c.schedule.get "at"
  interval_seconds : d.interval_seconds = c.schedule.get "seconds"
  limits : 0 < d.max_concurrency ∧ 0 ≤ d.retry_limit
  condition : d.notify_only_if = c.condition
  channel : ∀ channel ∈ d.notify_channel, isBlank channel = false ∧ channel.length ≤ 64

variable {c : Document} {Y : YamlLibrary}

theorem orEmpty_map (m : Mapping) : (Yaml.map m).orEmpty.asMapping = some m := by
  cases m <;> rfl

theorem isZero_of_asInt (h : value.asInt = some 0) : value.isZero = true := by
  cases value with
  | bool b =>
    cases b with
    | false => rfl
    | true => cases h
  | int n =>
    cases h
    rfl
  | _ => cases h

theorem item_of_get (h : mapping.get key = .str text) : mapping.item key = .ok (.str text) := by
  rw [Mapping.item, lookup_of_get h (by simp)]

theorem to_int_of_get {n default : Int} (h : (mapping.get key).asInt = some n) :
    Y.to_int ((mapping.lookup key).getD (.int default)) = .ok n := by
  unfold Mapping.get at h
  cases hl : mapping.lookup key with
  | none =>
    rw [hl] at h
    cases h
  | some v =>
    rw [hl] at h
    change v.asInt = some n at h
    simp only [Option.getD_some, YamlLibrary.to_int, h]

theorem optional_text_ok (h : mapping.get key = .null ∨ ∃ s, mapping.get key = .str s) :
    ∃ o, optional_text mapping key = .ok o := by
  unfold optional_text
  obtain h | ⟨s, h⟩ := h
  · exact ⟨none, by rw [h]⟩
  · exact ⟨some s, by rw [h]⟩

theorem load_schedule_eq (h : ValidDocument mapping c) :
    load_schedule Y (.map mapping) = load_definition Y mapping c.schedule c.run c.permissions c.notify := by
  have hnotify : (mapping.get "notify").orEmpty.asMapping = some c.notify := by
    have hn := h.notify
    unfold Mapping.get
    cases hl : mapping.lookup "notify" with
    | none =>
      rw [hl] at hn
      change Yaml.map [] = .map c.notify at hn
      rw [← Yaml.map.inj hn]
      rfl
    | some v =>
      rw [hl] at hn
      change v = .map c.notify at hn
      subst hn
      exact orEmpty_map _
  have hraw : (Yaml.map mapping).asMapping = some mapping := rfl
  simp only [load_schedule, hraw, h.schedule, h.run, h.permissions, orEmpty_map, hnotify]

/-- A document without issues is loaded, unless its consent is null. -/
theorem load_valid (h : ValidDocument mapping c) (hconsent : c.run.lookup "allow_external_processing" ≠ some .null) :
    ∃ d, load_schedule Y (.map mapping) = .ok d ∧ Loads c d := by
  rw [load_schedule_eq h]
  obtain ⟨query, hquery⟩ := optional_text_ok (h.limits.texts "query" (by simp))
  obtain ⟨order_id, horder⟩ := optional_text_ok (h.limits.texts "order_id" (by simp))
  obtain ⟨runtime, hruntime, _⟩ := h.limits.numbers "max_runtime_seconds" (by simp)
  obtain ⟨concurrency, hconcurrency, hpos⟩ := h.limits.numbers "max_concurrency" (by simp)
  obtain ⟨retry, hretry, hretrypos⟩ := h.limits.numbers "retry_limit" (by simp)
  obtain ⟨allow, hallow⟩ : ∃ b, read_consent c.run = .ok b := by
    have hchecked := h.limits.consent
    unfold Mapping.get at hchecked
    unfold read_consent
    cases hl : c.run.lookup "allow_external_processing" with
    | none => exact ⟨false, rfl⟩
    | some v =>
      rw [hl] at hchecked hconsent
      obtain hnull | ⟨b, hb⟩ := hchecked
      · exact absurd (congrArg some hnull) hconsent
      · exact ⟨b, by rw [show v = .bool b from hb]; rfl⟩
  unfold load_definition
  simp only [hquery, horder, hallow, ok_bind, item_of_get h.id, item_of_get h.version, item_of_get h.agent,
    item_of_get h.timing.type, to_int_of_get hruntime, to_int_of_get hconcurrency, to_int_of_get hretry]
  refine ⟨_, rfl, rfl, rfl, rfl, ?_, rfl, rfl, rfl, ⟨?_, hretrypos⟩, ?_, ?_⟩
  · simp only [h.timing.timezone]
    rfl
  · refine lt_of_le_of_ne hpos fun hzero => ?_
    have hnot := h.limits.concurrency
    rw [isZero_of_asInt (hzero ▸ hconcurrency)] at hnot
    cases hnot
  · simp only [h.notifies.only_if]
    rfl
  · intro channel hchannel
    obtain hnull | ⟨s, hs, hform⟩ := h.notifies.channel
    · simp only [hnull] at hchannel
      cases hchannel
    · simp only [hs] at hchannel
      cases hchannel
      exact hform

theorem load_without_consent (h : ValidDocument mapping c)
    (hconsent : c.run.lookup "allow_external_processing" = some .null) :
    ¬ ∃ d, load_schedule Y (.map mapping) = .ok d := by
  rw [load_schedule_eq h]
  rintro ⟨d, hd⟩
  obtain ⟨query, _, hd⟩ := bind_ok hd
  obtain ⟨order_id, _, hd⟩ := bind_ok hd
  obtain ⟨allow, hallow, _⟩ := bind_ok hd
  rw [read_consent, hconsent] at hallow
  cases hallow

variable {L : Library} {d : LoadedDefinition} {now : DateTime}

theorem timezone_ok {tz : TzInfo} : d.timezone L = .ok tz ↔
    ∃ z, L.zoneInfo d.timezone_name = .ok z ∧ tz = .zone d.timezone_name z := by
  unfold LoadedDefinition.timezone ScheduleDefinition.timezone LoadedDefinition.typed
  dsimp only
  constructor
  · intro h
    split at h
    · rename_i z hz
      cases h
      exact ⟨z, hz, rfl⟩
    all_goals cases h
  · rintro ⟨z, hz, rfl⟩
    simp only [hz]

theorem checkCron_ok {expression : String} (htype : d.schedule_type = "cron") (h : d.expression = .str expression)
    (hne : expression ≠ "") : d.checkCron = .ok () ↔ ∃ cron, CronExpression.parse expression = .ok cron := by
  have hcheck : d.checkCron = CronExpression.parse expression >>= fun _ => .ok () := by
    simp only [LoadedDefinition.checkCron, htype, if_true, h, LoadedDefinition.readText, ok_bind, Scheduler.checkCron,
      LoadedDefinition.typed, truthy_of_ne hne]
    rfl
  rw [hcheck]
  constructor
  · intro hok
    obtain ⟨cron, hcron, _⟩ := bind_ok hok
    exact ⟨cron, hcron⟩
  · rintro ⟨cron, hcron⟩
    rw [hcron]
    rfl

/-- A new scheduler accepts what was loaded if it knows the zone and can read the expression. -/
theorem register_iff (hv : ValidDocument mapping c) (hd : Loads c d) :
    (∃ definitions, d.register L (fun _ => none) = .ok definitions) ↔
      (∃ tz, d.timezone L = .ok tz) ∧ d.checkCron = .ok () := by
  have hchannel : (d.notify_channel.any fun c => isBlank c || 64 < c.length) = false := by
    cases hc : d.notify_channel with
    | none => rfl
    | some channel =>
      obtain ⟨hblank, hlength⟩ := hd.channel channel hc
      simp [hblank, hlength]
  unfold LoadedDefinition.register
  rw [if_neg (by simp), if_neg (by have := hd.limits; omega), if_neg (by simpa [hd.condition] using hv.notifies.known),
    if_neg (by simp [hchannel])]
  constructor
  · rintro ⟨definitions, h⟩
    obtain ⟨tz, htz, h⟩ := bind_ok h
    obtain ⟨_, hcron, _⟩ := bind_ok h
    exact ⟨⟨tz, htz⟩, hcron⟩
  · rintro ⟨⟨tz, htz⟩, hcron⟩
    exact ⟨_, by rw [htz, ok_bind, hcron, ok_bind]; rfl⟩

/-- The type, and what it needs, of a slot that can be computed. -/
theorem scheduled_iff {tz : TzInfo} {local_now : DateTime} (hv : ValidDocument mapping c) (hd : Loads c d)
    (hcheck : d.checkCron = .ok ()) (htz : d.timezone L = .ok tz) (hlocal : now.astimezone tz = .ok local_now) :
    ((∃ slot, d.scheduled_for L Y now = .ok slot) ∨
      (d.schedule_type = "cron" ∧ d.scheduled_for L Y now = .error noOccurrence)) ↔
      ((c.schedule_type = "one_shot" ∧ OneShotReads L (c.schedule.get "at") tz local_now) ∨
        (c.schedule_type = "interval" ∧ IntervalStarts (c.schedule.get "seconds") now) ∨
        (c.schedule_type = "cron" ∧ CronReads (c.schedule.get "expression") local_now)) := by
  have hslot : d.scheduled_for L Y now =
      if d.schedule_type = "one_shot" then d.oneShotSlot L tz local_now
      else if d.schedule_type = "interval" then d.intervalSlot Y now
      else if d.schedule_type = "cron" then d.cronSlot local_now
      else throw (.valueError ("unsupported schedule type: " ++ d.schedule_type)) := by
    simp only [LoadedDefinition.scheduled_for, htz, hlocal, ok_bind]
  have hknown := hv.timing.known
  simp only [schedule_types, List.mem_cons, List.not_mem_nil, or_false] at hknown
  rw [hslot, hd.schedule_type, ← hd.at_, ← hd.interval_seconds, ← hd.expression]
  rcases hknown with htype | htype | htype
  · simp only [htype, if_true, String.reduceEq, false_and, or_false, true_and]
    exact oneShotSlot_iff
  · obtain ⟨n, hn, hpos⟩ := hv.timing.interval htype
    simp only [htype, if_true, if_false, String.reduceEq, false_and, or_false, false_or, true_and]
    exact intervalSlot_iff (hd.interval_seconds ▸ hn) hpos
  · obtain ⟨expression, hexpression, hfields⟩ := hv.timing.cron htype
    have hne : expression ≠ "" := by
      rintro rfl
      cases hfields
    have htext : d.expression = .str expression := hd.expression ▸ hexpression
    obtain ⟨cron, hcron⟩ := (checkCron_ok (hd.schedule_type ▸ htype) htext hne).mp hcheck
    simp only [htype, if_true, if_false, String.reduceEq, false_and, false_or, true_and]
    exact cronSlot_iff htext hne hcron

/-- Exactly when a document without issues does run. -/
theorem valid_runs_iff (h : validate_schedule raw = .ok []) : Runs L Y raw now ↔ Runnable L raw now := by
  obtain ⟨mapping, c, rfl, hv⟩ := validate_schedule_nil h
  have hid : field (.map mapping) "id" = some (.str c.id) := lookup_of_get hv.id (by simp)
  have hversion : field (.map mapping) "version" = some (.str c.version) := lookup_of_get hv.version (by simp)
  have hrun : field (.map mapping) "run" = some (.map c.run) := lookup_of_get hv.run (by simp)
  have hschedule : field (.map mapping) "schedule" = some (.map c.schedule) := lookup_of_get hv.schedule (by simp)
  have hconsent : (field (.map mapping) "run").bind (field · "allow_external_processing") =
      c.run.lookup "allow_external_processing" := by
    rw [hrun]
    rfl
  have hpath : ∀ key, at_path (.map mapping) "schedule" key = c.schedule.get key := by
    intro key
    rw [at_path, hschedule]
    rfl
  have hzone : zone_name (.map mapping) = c.timezone_name := by
    unfold zone_name
    rw [hschedule]
    simp only [Option.bind_some, field, Yaml.asMapping, hv.timing.timezone]
  have htype : ∀ text, isText text (at_path (.map mapping) "schedule" "type") = true ↔ c.schedule_type = text := by
    intro text
    rw [hpath, hv.timing.type]
    simp [isText]
  constructor
  · intro hr
    have hc : c.run.lookup "allow_external_processing" ≠ some .null := fun h => load_without_consent hv h hr.loads
    obtain ⟨d, hload, hd⟩ := load_valid (Y := Y) hv hc
    obtain ⟨⟨tz, htz⟩, hcheck⟩ := (register_iff hv hd).mp (hr.registers d hload)
    have hslot := hr.scheduled d hload
    obtain ⟨local_now, hlocal⟩ : ∃ local_now, now.astimezone tz = .ok local_now := by
      cases hl : now.astimezone tz with
      | ok local_now => exact ⟨local_now, rfl⟩
      | error e =>
        obtain rfl := astimezone_error hl
        have herror : d.scheduled_for L Y now = .error (.overflowError "date value out of range") := by
          rw [LoadedDefinition.scheduled_for, htz, ok_bind, hl]
          rfl
        rw [herror] at hslot
        obtain ⟨_, h⟩ | ⟨_, h⟩ := hslot <;> cases h
    have htime := (scheduled_iff hv hd hcheck htz hlocal).mp hslot
    obtain ⟨⟨hidform, _⟩, ⟨hversionform, _⟩, _⟩ := hr.rules d hload
    obtain ⟨z, hz, rfl⟩ := timezone_ok.mp htz
    rw [hd.timezone_name] at hz hlocal htime
    refine ⟨fun text ht => ?_, fun text ht => ?_, by rw [hconsent]; exact hc, z, local_now, ?_, ?_, ?_⟩
    · cases hid.symm.trans ht
      exact id_re_strip (hd.id ▸ hidform)
    · cases hversion.symm.trans ht
      exact semver_re_strip (hd.version ▸ hversionform)
    · rw [hzone, hz]
    · rw [hzone, hlocal]
    · rw [htype, htype, htype, hpath, hpath, hpath, hzone]
      exact htime
  · rintro ⟨hidstrip, hversionstrip, hc, z, local_now, hz, hlocal, htime⟩
    rw [hconsent] at hc
    rw [hzone] at hz hlocal
    rw [htype, htype, htype, hpath, hpath, hpath, hzone] at htime
    obtain ⟨d, hload, hd⟩ := load_valid (Y := Y) hv hc
    have htz : d.timezone L = .ok (.zone c.timezone_name z) :=
      timezone_ok.mpr ⟨z, hd.timezone_name ▸ hz, by rw [hd.timezone_name]⟩
    have hcheck : d.checkCron = .ok () := by
      obtain ⟨hkind, _⟩ | ⟨hkind, _⟩ | ⟨hkind, text, cron, _, htext, hcron, _⟩ := htime
      · rw [LoadedDefinition.checkCron, hd.schedule_type, hkind]
        rfl
      · rw [LoadedDefinition.checkCron, hd.schedule_type, hkind]
        rfl
      · have hne : text ≠ "" := by
          rintro rfl
          cases hcron
        exact (checkCron_ok (hd.schedule_type ▸ hkind) (hd.expression ▸ htext) hne).mpr ⟨cron, hcron⟩
    have huniq : ∀ d', load_schedule Y (.map mapping) = .ok d' → d' = d := fun d' h =>
      (Except.ok.inj (hload.symm.trans h)).symm
    refine ⟨⟨d, hload⟩, fun d' h => ?_, fun d' h => ?_, fun d' h => ?_⟩
    · obtain rfl := huniq d' h
      exact (register_iff hv hd).mpr ⟨⟨_, htz⟩, hcheck⟩
    · obtain rfl := huniq d' h
      exact (scheduled_iff hv hd hcheck htz hlocal).mpr htime
    · obtain rfl := huniq d' h
      rw [hd.id, hd.version, hd.schedule_type, hd.interval_seconds]
      refine ⟨⟨?_, hv.id_form.2.1⟩, ⟨?_, hv.version_form.2.1⟩, hv.timing.interval⟩
      · rw [← hidstrip c.id hid]
        exact hv.id_form.2.2
      · rw [← hversionstrip c.version hversion]
        exact hv.version_form.2.2

end Checks

section Sample

/-- A document with a schedule of its own. -/
def sampleDocument (schedule : List (Yaml × Yaml)) : Yaml :=
  .map [(.str "id", .str "order-status-demo"), (.str "version", .str "0.1.0"), (.str "agent", .str "customer-service-agent"),
    (.str "schedule", .map schedule),
    (.str "run", .map [(.str "max_runtime_seconds", .int 30), (.str "max_concurrency", .int 1), (.str "retry_limit", .int 1)]),
    (.str "permissions", .map [(.str "mode", .str "read_only")])]

def hourlyDocument : Yaml := sampleDocument [(.str "type", .str "interval"), (.str "seconds", .int 3600)]

/-- Five fields, one of which is out of range. -/
def cronDocument : Yaml := sampleDocument [(.str "type", .str "cron"), (.str "expression", .str "99 * * * *")]

def sampleYaml : YamlLibrary := ⟨fun _ => "", fun _ => .error (.typeError "int()"), fun _ _ => .error (.typeError "%")⟩

def utcOnly : Library where
  zoneInfo key := if key = "UTC" then .ok (.fixed 0) else .error .notFound
  isoParser _ := .error "Invalid isoformat string"

theorem valid_runs_sample : validate_schedule hourlyDocument = .ok [] ∧ Runs utcOnly sampleYaml hourlyDocument epoch := by
  have hvalid : validate_schedule hourlyDocument = .ok [] := rfl
  refine ⟨hvalid, (valid_runs_iff hvalid).mpr ⟨?_, ?_, ?_, ?_⟩⟩
  · rintro text htext
    cases htext
    rfl
  · rintro text htext
    cases htext
    rfl
  · intro hconsent
    cases hconsent
  · have hcal : InCalendar epoch := ⟨by decide, by decide⟩
    refine ⟨.fixed 0, ⟨epoch.wall, false, .zone "UTC" (.fixed 0), epoch.inRange⟩, rfl, rfl, .inr (.inl ⟨rfl, hcal, ?_⟩)⟩
    exact ⟨3600, rfl, by decide, by decide⟩

/-- The check counts the fields of an expression and does not read them. -/
theorem valid_not_registered : ¬ ∀ (L : Library) (Y : YamlLibrary) (raw : Yaml) (now : DateTime),
    validate_schedule raw = .ok [] → Runs L Y raw now := by
  intro h
  have hruns := h utcOnly sampleYaml cronDocument epoch rfl
  obtain ⟨d, hload⟩ := hruns.loads
  obtain ⟨definitions, hregister⟩ := hruns.registers d hload
  cases hload
  cases hregister

end Sample

end EnterpriseCopilot.Schedule
