import EnterpriseCopilot.Lib.Civil
import EnterpriseCopilot.Python.Basic

/-! Aware datetimes.  Wall clocks and offsets count microseconds, wall clocks from
0001-01-01T00:00. -/

namespace EnterpriseCopilot.Python

open EnterpriseCopilot.Lib

def dayMicros : Nat := 86400000000

/-- The first wall clock after the year 9999. -/
def wallEnd : Nat := 3652059 * dayMicros

/-- Rules of a zone: the offset of a wall clock, where `fold` picks the second
reading of a repeated hour, and the offset and fold of an instant. -/
structure Zone where
  utcoffset : Int → Bool → Int
  fromutc : Int → Int × Bool
  round_trip : ∀ u, utcoffset (u + (fromutc u).1) (fromutc u).2 = (fromutc u).1

def Zone.fixed (offset : Int) : Zone := ⟨fun _ _ => offset, fun _ => (offset, false), fun _ => rfl⟩

/-- The zone has one offset, all year round. -/
def Zone.IsFixed (z : Zone) (offset : Int) : Prop :=
  (∀ w f, z.utcoffset w f = offset) ∧ ∀ u, (z.fromutc u).1 = offset

inductive TzInfo
  | utc
  | fixed (offset : Int)
  | zone (key : String) (rules : Zone)

namespace TzInfo

/-- Object identity: `ZoneInfo` returns one object for each key. -/
def same : TzInfo → TzInfo → Bool
  | .utc, .utc => true
  | .zone a _, .zone b _ => a == b
  | _, _ => false

def utcoffset : TzInfo → Int → Bool → Int
  | .utc, _, _ => 0
  | .fixed offset, _, _ => offset
  | .zone _ z, w, f => z.utcoffset w f

def fromutc : TzInfo → Int → Int × Bool
  | .utc, _ => (0, false)
  | .fixed offset, _ => (offset, false)
  | .zone _ z, u => z.fromutc u

end TzInfo

structure DateTime where
  wall : Nat
  fold : Bool
  tzinfo : TzInfo
  inRange : wall < wallEnd

/-- What `datetime.fromisoformat` reads: the text may leave out the offset. -/
structure Parsed where
  wall : Nat
  offset : Option Int
  inRange : wall < wallEnd

/-- A text that names the offset zero is read as UTC itself. -/
def Parsed.tzinfo (p : Parsed) : Option TzInfo :=
  p.offset.map fun n => if n = 0 then .utc else .fixed n

/-- `dt if dt.tzinfo is not None else dt.replace(tzinfo=tz)`. -/
def Parsed.orZone (p : Parsed) (tz : TzInfo) : DateTime :=
  ⟨p.wall, false, p.tzinfo.getD tz, p.inRange⟩

namespace DateTime

def make (wall : Int) (fold : Bool) (tz : TzInfo) : Except PyError DateTime :=
  if h : 0 ≤ wall ∧ wall < wallEnd then .ok ⟨wall.toNat, fold, tz, by omega⟩
  else .error (.overflowError "date value out of range")

theorem make_ok {w : Int} {f : Bool} {tz : TzInfo} {d : DateTime} (h : make w f tz = .ok d) :
    (d.wall : Int) = w ∧ d.fold = f ∧ d.tzinfo = tz := by
  unfold make at h
  split at h
  · rename_i hw
    cases h
    exact ⟨Int.toNat_of_nonneg hw.1, rfl, rfl⟩
  · cases h

theorem exists_make {w : Int} (f : Bool) (tz : TzInfo) (hw : 0 ≤ w) (hw' : w < wallEnd) :
    ∃ d, make w f tz = .ok d := ⟨_, dif_pos ⟨hw, hw'⟩⟩

theorem make_wall (d : DateTime) : make d.wall d.fold d.tzinfo = .ok d := by
  have h : 0 ≤ (d.wall : Int) ∧ (d.wall : Int) < wallEnd :=
    ⟨Int.natCast_nonneg _, by exact_mod_cast d.inRange⟩
  simp [make, h]

def utcoffset (d : DateTime) : Int := d.tzinfo.utcoffset d.wall d.fold

/-- Microseconds from 0001-01-01T00:00 UTC. -/
def instant (d : DateTime) : Int := d.wall - d.utcoffset

/-- Wall clock arithmetic: the result has `fold` 0. -/
def add (d : DateTime) (micros : Int) : Except PyError DateTime :=
  make (d.wall + micros) false d.tzinfo

def astimezone (d : DateTime) (tz : TzInfo) : Except PyError DateTime :=
  if d.tzinfo.same tz then .ok d
  else do
    let utc ← make (d.wall - d.utcoffset) false tz
    let local' := tz.fromutc utc.wall
    make (utc.wall + local'.1) local'.2 tz

theorem astimezone_utc {d : DateTime} (h : d.tzinfo = .utc) : d.astimezone .utc = .ok d := by
  simp [astimezone, h, TzInfo.same]

theorem tzinfo_of_astimezone {d u : DateTime} (h : d.astimezone .utc = .ok u) :
    u.tzinfo = .utc := by
  unfold astimezone at h
  split at h
  · rename_i hs
    cases h
    cases htz : d.tzinfo <;> simp_all [TzInfo.same]
  · cases hm : make (d.wall - d.utcoffset) false .utc with
    | error e => simp [hm, bind, Except.bind] at h
    | ok v =>
      simp only [hm, bind, Except.bind] at h
      exact (make_ok h).2.2

/-- Conversion between zones keeps the instant. -/
theorem instant_of_astimezone {d u : DateTime} {tz : TzInfo} (h : d.astimezone tz = .ok u) :
    u.instant = d.instant := by
  unfold astimezone at h
  split at h
  · cases h
    rfl
  · obtain ⟨v, hv, h⟩ := bind_ok h
    obtain ⟨hw, _, _⟩ := make_ok hv
    obtain ⟨hw', hf', htz'⟩ := make_ok h
    have hoff : u.utcoffset = (tz.fromutc v.wall).1 := by
      rw [utcoffset, htz', hw', hf']
      cases tz with
      | utc => rfl
      | fixed offset => rfl
      | zone key z => exact z.round_trip v.wall
    rw [instant, hoff, hw', instant]
    omega

theorem instant_utc {d : DateTime} (h : d.tzinfo = .utc) : d.instant = d.wall := by
  simp [instant, utcoffset, h, TzInfo.utcoffset]

/-- The conversion to UTC fails only outside the years 1 to 9999. -/
theorem exists_astimezone_utc {d : DateTime} :
    (∃ u, d.astimezone .utc = .ok u) ↔ 0 ≤ d.instant ∧ d.instant < wallEnd := by
  constructor
  · rintro ⟨u, hu⟩
    have hin : (u.wall : Int) < wallEnd := by exact_mod_cast u.inRange
    rw [← instant_of_astimezone hu, instant_utc (tzinfo_of_astimezone hu)]
    exact ⟨Int.natCast_nonneg _, hin⟩
  · intro h
    unfold astimezone
    split
    · exact ⟨d, rfl⟩
    · obtain ⟨v, hv⟩ : ∃ v, make (d.wall - d.utcoffset) false .utc = .ok v :=
        exists_make _ _ h.1 h.2
      obtain ⟨_, hf, htz⟩ := make_ok hv
      refine ⟨v, ?_⟩
      have hback : make v.wall false .utc = .ok v := by
        rw [← hf, ← htz, make_wall]
      simp only [hv, bind, Except.bind, TzInfo.fromutc, add_zero, hback]

/-- The result is in the zone asked for, if it is not the datetime itself. -/
theorem astimezone_tzinfo {d u : DateTime} {tz : TzInfo} (h : d.astimezone tz = .ok u) :
    u.tzinfo = tz ∨ (d.tzinfo.same tz ∧ u = d) := by
  unfold astimezone at h
  split at h
  · rename_i hs
    cases h
    exact .inr ⟨hs, rfl⟩
  · obtain ⟨v, _, h⟩ := bind_ok h
    exact .inl (make_ok h).2.2

/-- Datetimes of one zone compare by wall clock, all others by instant. -/
def ble (a b : DateTime) : Bool :=
  if a.tzinfo.same b.tzinfo then a.wall ≤ b.wall else a.instant ≤ b.instant

def blt (a b : DateTime) : Bool :=
  if a.tzinfo.same b.tzinfo then a.wall < b.wall else a.instant < b.instant

def date (d : DateTime) : Civil.Date := Civil.ofDays (d.wall / dayMicros)
def hour (d : DateTime) : Nat := d.wall % dayMicros / 3600000000
def minute (d : DateTime) : Nat := d.wall % 3600000000 / 60000000
def second (d : DateTime) : Nat := d.wall % 60000000 / 1000000
def microsecond (d : DateTime) : Nat := d.wall % 1000000
/-- Monday is 0. -/
def weekday (d : DateTime) : Nat := d.wall / dayMicros % 7

/-- `replace(second=0, microsecond=0)`. -/
def floorMinute (d : DateTime) : DateTime :=
  ⟨d.wall - d.wall % 60000000, d.fold, d.tzinfo, Nat.lt_of_le_of_lt (Nat.sub_le _ _) d.inRange⟩

end DateTime

section Isoformat

/-- The last `w` decimal digits of `n`. -/
def pad : Nat → Nat → List Char
  | 0, _ => []
  | w + 1, n => pad w (n / 10) ++ [Nat.digitChar (n % 10)]

@[simp] theorem pad_length (w n : Nat) : (pad w n).length = w := by
  induction w generalizing n with
  | zero => rfl
  | succ w ih => simp [pad, ih]

theorem pad_injective (w : Nat) : ∀ {a b}, a < 10 ^ w → b < 10 ^ w → pad w a = pad w b → a = b := by
  induction w with
  | zero =>
    intro a b ha hb _
    simp only [pow_zero, Nat.lt_one_iff] at ha hb
    rw [ha, hb]
  | succ w ih =>
    intro a b ha hb h
    obtain ⟨hinit, hlast⟩ := List.append_inj' h rfl
    have hdiv := ih (Nat.div_lt_of_lt_mul (by rwa [mul_comm, ← pow_succ]))
      (Nat.div_lt_of_lt_mul (by rwa [mul_comm, ← pow_succ])) hinit
    have hdigit : ∀ i j : Fin 10, Nat.digitChar i = Nat.digitChar j → i = j := by decide
    have hmod := hdigit ⟨a % 10, Nat.mod_lt _ (by decide)⟩ ⟨b % 10, Nat.mod_lt _ (by decide)⟩
      (List.singleton_inj.mp hlast)
    have hmod' : a % 10 = b % 10 := congrArg Fin.val hmod
    omega

theorem pad_append_inj {w a b : Nat} {x y : List Char} (ha : a < 10 ^ w) (hb : b < 10 ^ w)
    (h : pad w a ++ x = pad w b ++ y) : a = b ∧ x = y := by
  obtain ⟨hp, hxy⟩ := List.append_inj h (by simp)
  exact ⟨pad_injective w ha hb hp, hxy⟩

/-- `+HH:MM`, with seconds and microseconds where they are not zero. -/
def offsetText (offset : Int) : List Char :=
  let n := offset.natAbs
  (if offset < 0 then '-' else '+') :: (pad 2 (n / 3600000000) ++ ':' ::
    (pad 2 (n % 3600000000 / 60000000) ++
      (if n % 60000000 = 0 then [] else ':' :: (pad 2 (n % 60000000 / 1000000) ++
        if n % 1000000 = 0 then [] else '.' :: pad 6 (n % 1000000)))))

def DateTime.isoChars (d : DateTime) : List Char :=
  pad 4 d.date.year ++ '-' :: (pad 2 d.date.month ++ '-' :: (pad 2 d.date.day ++ 'T' ::
    (pad 2 d.hour ++ ':' :: (pad 2 d.minute ++ ':' :: (pad 2 d.second ++
      ((if d.microsecond = 0 then [] else '.' :: pad 6 d.microsecond) ++
        offsetText d.utcoffset))))))

def DateTime.isoformat (d : DateTime) : String := String.ofList d.isoChars

theorem DateTime.wall_eq {a b : DateTime} (hdate : a.date = b.date) (hhour : a.hour = b.hour)
    (hminute : a.minute = b.minute) (hsecond : a.second = b.second)
    (hmicro : a.microsecond = b.microsecond) : a.wall = b.wall := by
  have hday := Civil.ofDays_injective hdate
  simp only [hour, minute, second, microsecond, dayMicros] at *
  omega

/-- The fields fit their printed widths. -/
theorem DateTime.bounds (d : DateTime) : d.date.year < 10 ^ 4 ∧ d.date.month < 10 ^ 2 ∧
    d.date.day < 10 ^ 2 ∧ d.hour < 10 ^ 2 ∧ d.minute < 10 ^ 2 ∧ d.second < 10 ^ 2 ∧
    d.microsecond < 10 ^ 6 := by
  have hw := d.inRange
  obtain ⟨hy, hm, hd⟩ := Civil.ofDays_bounds (n := d.wall / dayMicros) (by
    simp only [wallEnd, dayMicros] at hw ⊢
    omega)
  refine ⟨hy, hm, hd, ?_⟩
  simp only [hour, minute, second, microsecond, dayMicros]
  omega

/-- In UTC the text determines the wall clock. -/
theorem DateTime.isoformat_injective {a b : DateTime} (ha : a.tzinfo = .utc) (hb : b.tzinfo = .utc)
    (h : a.isoformat = b.isoformat) : a.wall = b.wall := by
  have hoff : a.utcoffset = b.utcoffset := by simp [utcoffset, ha, hb, TzInfo.utcoffset]
  have hchars : a.isoChars = b.isoChars := String.ofList_injective h
  obtain ⟨ay, am, ad, ah, ami, as, au⟩ := a.bounds
  obtain ⟨bY, bm, bd, bh, bmi, bs, bu⟩ := b.bounds
  unfold isoChars at hchars
  rw [hoff] at hchars
  obtain ⟨hy, h1⟩ := pad_append_inj ay bY hchars
  obtain ⟨hm, h2⟩ := pad_append_inj am bm (List.cons.inj h1).2
  obtain ⟨hd, h3⟩ := pad_append_inj ad bd (List.cons.inj h2).2
  obtain ⟨hh, h4⟩ := pad_append_inj ah bh (List.cons.inj h3).2
  obtain ⟨hmi, h5⟩ := pad_append_inj ami bmi (List.cons.inj h4).2
  obtain ⟨hs, h6⟩ := pad_append_inj as bs (List.cons.inj h5).2
  have hu := List.append_cancel_right h6
  have hdate : a.date = b.date := by
    cases ha' : a.date
    cases hb' : b.date
    simp_all
  refine wall_eq hdate hh hmi hs ?_
  split at hu <;> split at hu
  · omega
  · cases hu
  · cases hu
  · exact pad_injective 6 au bu (List.cons.inj hu).2

theorem DateTime.isoformat_eq {a b : DateTime} (ha : a.tzinfo = .utc) (hb : b.tzinfo = .utc)
    (h : a.wall = b.wall) : a.isoformat = b.isoformat := by
  have hoff : a.utcoffset = b.utcoffset := by simp [utcoffset, ha, hb, TzInfo.utcoffset]
  have hmicro : a.microsecond = b.microsecond := by simp only [microsecond, h]
  unfold isoformat isoChars
  rw [hoff, hmicro]
  simp only [date, hour, minute, second, h]

theorem DateTime.isoformat_length {d : DateTime} (h : d.tzinfo = .utc) (hm : d.microsecond = 0) :
    d.isoformat.length = 25 := by
  have hoff : d.utcoffset = 0 := by simp [utcoffset, h, TzInfo.utcoffset]
  have htext : (offsetText 0).length = 6 := by decide
  simp only [isoformat, String.length_ofList, isoChars, hm, hoff, if_true, List.length_append,
    List.length_cons, List.length_nil, pad_length, htext]

/-- Up to the seconds, and the rest of the text. -/
theorem DateTime.isoChars_split (d : DateTime) : ∃ front : List Char, d.isoChars =
    front ++ ':' :: (pad 2 d.second ++ ((if d.microsecond = 0 then [] else
      '.' :: pad 6 d.microsecond) ++ offsetText d.utcoffset)) := by
  refine ⟨pad 4 d.date.year ++ '-' :: (pad 2 d.date.month ++ '-' :: (pad 2 d.date.day ++ 'T' ::
    (pad 2 d.hour ++ ':' :: pad 2 d.minute))), ?_⟩
  simp [isoChars]

theorem digitChar_ne_colon (n : Nat) : Nat.digitChar (n % 10) ≠ ':' := by
  have h : ∀ i : Fin 10, Nat.digitChar i ≠ ':' := by decide
  exact h ⟨n % 10, Nat.mod_lt _ (by decide)⟩

/-- A text with microseconds does not end like one without. -/
theorem pad_ne_fraction {x y : List Char} {m n : Nat} : x ++ ':' :: pad 2 m ≠ y ++ '.' :: pad 6 n := by
  intro h
  have hpad : pad 6 n = pad 4 (n / 100) ++ pad 2 n := by
    simp [pad, Nat.div_div_eq_div_mul]
  rw [hpad, ← List.cons_append, ← List.append_assoc, List.append_cons] at h
  obtain ⟨hfront, _⟩ := List.append_inj' h (by simp)
  have hlast := congrArg List.getLast? hfront
  simp only [List.getLast?_concat, pad, ← List.cons_append, ← List.append_assoc,
    Option.some.injEq] at hlast
  exact digitChar_ne_colon _ hlast.symm

/-- The text of a run key determines the schedule and the slot. -/
theorem key_injective {i j : String} {a b : DateTime} (ha : a.tzinfo = .utc) (hb : b.tzinfo = .utc)
    (h : i ++ ":" ++ a.isoformat = j ++ ":" ++ b.isoformat) : i = j ∧ a.wall = b.wall := by
  have hoff : a.utcoffset = b.utcoffset := by simp [DateTime.utcoffset, ha, hb, TzInfo.utcoffset]
  have hl : (i.toList ++ [':']) ++ a.isoChars = (j.toList ++ [':']) ++ b.isoChars := by
    simpa [DateTime.isoformat] using congrArg String.toList h
  have hlen : a.isoChars.length = b.isoChars.length := by
    obtain ⟨fa, hfa⟩ := a.isoChars_split
    obtain ⟨fb, hfb⟩ := b.isoChars_split
    by_cases hma : a.microsecond = 0 <;> by_cases hmb : b.microsecond = 0
    · simp [DateTime.isoChars, hma, hmb, hoff]
    · rw [hfa, hfb, hoff, if_pos hma, if_neg hmb] at hl
      refine absurd (List.append_cancel_right (?_ : _ ++ offsetText b.utcoffset = _))
        (pad_ne_fraction (x := i.toList ++ ':' :: fa) (m := a.second) (n := b.microsecond)
          (y := j.toList ++ ':' :: (fb ++ ':' :: pad 2 b.second)))
      simpa using hl
    · rw [hfa, hfb, hoff, if_neg hma, if_pos hmb] at hl
      refine absurd (List.append_cancel_right (?_ : _ ++ offsetText b.utcoffset = _))
        (pad_ne_fraction (x := j.toList ++ ':' :: fb) (m := b.second) (n := a.microsecond)
          (y := i.toList ++ ':' :: (fa ++ ':' :: pad 2 a.second)))
      simpa using hl.symm
    · simp [DateTime.isoChars, hma, hmb, hoff]
  obtain ⟨hij, hiso⟩ := List.append_inj' hl hlen
  refine ⟨String.toList_injective (List.append_cancel_right hij), ?_⟩
  exact DateTime.isoformat_injective ha hb (congrArg String.ofList hiso)

end Isoformat

/-- How `ZoneInfo(key)` fails: no such zone, a malformed key, or an `OSError`. -/
inductive ZoneError
  | notFound
  | valueError (msg : String)
  | osError (name : String)

/-- What the code takes from the standard library at run time: the zone database
and the parser of ISO 8601 texts, which raises `ValueError` with a message. -/
structure Library where
  zoneInfo : String → Except ZoneError Zone
  isoParser : String → Except String Parsed

def Library.fromisoformat (L : Library) (text : String) : Except PyError Parsed :=
  match L.isoParser text with
  | .ok parsed => .ok parsed
  | .error msg => .error (.valueError msg)

end EnterpriseCopilot.Python
