import Mathlib.Data.Char
import EnterpriseCopilot.Lib.Calendar
import EnterpriseCopilot.Lib.Lexical
import EnterpriseCopilot.Python.Utf8
import EnterpriseCopilot.Python.DateTime

/-! UTC times as texts, and the order of the texts. -/

namespace EnterpriseCopilot.Python

open EnterpriseCopilot.Lib

/-- A text for the time as `isoformat` makes it, or with the microseconds also where they are zero. -/
def DateTime.stampChars (d : DateTime) (microseconds : Bool) : List Char :=
  pad 4 d.date.year ++ '-' :: (pad 2 d.date.month ++ '-' :: (pad 2 d.date.day ++ 'T' ::
    (pad 2 d.hour ++ ':' :: (pad 2 d.minute ++ ':' :: (pad 2 d.second ++
      ((if d.microsecond = 0 ∧ microseconds = false then [] else '.' :: pad 6 d.microsecond) ++
        offsetText d.utcoffset))))))

/-- A text for a time in UTC. -/
def Stamp (text : String) (d : DateTime) : Prop :=
  d.tzinfo = .utc ∧ ∃ microseconds, text = String.ofList (d.stampChars microseconds)

theorem DateTime.isoChars_eq (d : DateTime) : d.isoChars = d.stampChars false := by
  simp [isoChars, stampChars]

theorem DateTime.stamp_isoformat {d : DateTime} (h : d.tzinfo = .utc) : Stamp d.isoformat d :=
  ⟨h, false, congrArg String.ofList d.isoChars_eq⟩

section Order

variable {w m n : Nat} {x y : List Char} {a b : DateTime} {e e' : Bool}

theorem precedes_pad (hn : n < 10 ^ w) (h : m < n ∨ m = n ∧ Precedes x y) : Precedes (pad w m ++ x) (pad w n ++ y) := by
  have hdigit : ∀ i j : Fin 10, i < j → Nat.digitChar i < Nat.digitChar j := by decide
  rcases h with hlt | ⟨rfl, h⟩
  · refine Precedes.append ?_
    induction w generalizing m n with
    | zero =>
      rw [pow_zero] at hn
      omega
    | succ w ih =>
      have hdiv : n / 10 < 10 ^ w := Nat.div_lt_of_lt_mul (by rwa [mul_comm, ← pow_succ])
      by_cases hfront : m / 10 < n / 10
      · exact (ih hdiv hfront).append
      · have heq : m / 10 = n / 10 := by omega
        rw [pad, pad, heq]
        exact (Precedes.here (hdigit ⟨m % 10, Nat.mod_lt _ (by decide)⟩ ⟨n % 10, Nat.mod_lt _ (by decide)⟩
          (by rw [Fin.mk_lt_mk]; omega))).after _
  · exact h.after _

/-- A sign comes before a point. -/
theorem precedes_fraction (hn : n < 10 ^ 6) (h : m < n) :
    Precedes ((if m = 0 ∧ e = false then [] else '.' :: pad 6 m) ++ offsetText 0)
      ((if n = 0 ∧ e' = false then [] else '.' :: pad 6 n) ++ offsetText 0) := by
  rw [if_neg (by omega : ¬ (n = 0 ∧ e' = false))]
  split
  · exact .here (by decide)
  · exact .cons '.' (precedes_pad hn (.inl h))

/-- The first field in which two times differ decides between them. -/
theorem DateTime.fields_lt (h : a.wall < b.wall) : a.date.year < b.date.year ∨ a.date.year = b.date.year ∧
    (a.date.month < b.date.month ∨ a.date.month = b.date.month ∧ (a.date.day < b.date.day ∨ a.date.day = b.date.day ∧
      (a.hour < b.hour ∨ a.hour = b.hour ∧ (a.minute < b.minute ∨ a.minute = b.minute ∧
        (a.second < b.second ∨ a.second = b.second ∧ a.microsecond < b.microsecond))))) := by
  rcases Nat.lt_or_ge (a.wall / dayMicros) (b.wall / dayMicros) with hday | hday
  · have hdate := Civil.ofDays_lt hday
    unfold date
    omega
  · have hsame : a.wall / dayMicros = b.wall / dayMicros :=
      Nat.le_antisymm (Nat.div_le_div_right (Nat.le_of_lt h)) hday
    have hclock : a.hour < b.hour ∨ a.hour = b.hour ∧ (a.minute < b.minute ∨ a.minute = b.minute ∧
        (a.second < b.second ∨ a.second = b.second ∧ a.microsecond < b.microsecond)) := by
      simp only [hour, minute, second, microsecond, dayMicros] at hsame ⊢
      omega
    unfold date
    rw [hsame]
    exact .inr ⟨rfl, .inr ⟨rfl, .inr ⟨rfl, hclock⟩⟩⟩

/-- Earlier times have earlier texts. -/
theorem DateTime.precedes_stamp (e e' : Bool) (ha : a.tzinfo = .utc) (hb : b.tzinfo = .utc) (h : a.wall < b.wall) :
    Precedes (a.stampChars e) (b.stampChars e') := by
  have hoff : ∀ {d : DateTime}, d.tzinfo = .utc → d.utcoffset = 0 := fun hd => by
    simp [utcoffset, hd, TzInfo.utcoffset]
  obtain ⟨hyear, hmonth, hday, hhour, hminute, hsecond, hmicro⟩ := b.bounds
  unfold stampChars
  rw [hoff ha, hoff hb]
  refine precedes_pad hyear ((fields_lt h).imp_right (And.imp_right fun h => .cons '-' ?_))
  refine precedes_pad hmonth (h.imp_right (And.imp_right fun h => .cons '-' ?_))
  refine precedes_pad hday (h.imp_right (And.imp_right fun h => .cons 'T' ?_))
  refine precedes_pad hhour (h.imp_right (And.imp_right fun h => .cons ':' ?_))
  refine precedes_pad hminute (h.imp_right (And.imp_right fun h => .cons ':' ?_))
  exact precedes_pad hsecond (h.imp_right (And.imp_right fun h => precedes_fraction hmicro h))

/-- Of the texts for one time, the one of `isoformat` comes first. -/
theorem DateTime.stamp_same (ha : a.tzinfo = .utc) (hb : b.tzinfo = .utc) (h : a.wall = b.wall) :
    a.stampChars e = b.stampChars false ∨ Precedes (b.stampChars false) (a.stampChars e) := by
  have hoff : ∀ {d : DateTime}, d.tzinfo = .utc → d.utcoffset = 0 := fun hd => by
    simp [utcoffset, hd, TzInfo.utcoffset]
  unfold stampChars date hour minute second microsecond
  rw [hoff ha, hoff hb, h]
  by_cases hplain : b.wall % 1000000 = 0 ∧ e = true
  · obtain ⟨hzero, rfl⟩ := hplain
    rw [if_neg (by simp), if_pos ⟨hzero, rfl⟩]
    refine .inr ?_
    refine .after _ (.cons '-' (.after _ (.cons '-' (.after _ (.cons 'T' (.after _ (.cons ':' (.after _
      (.cons ':' (.after _ ?_))))))))))
    exact .here (by decide)
  · refine .inl ?_
    cases e with
    | false => rfl
    | true => rw [if_neg (by simp), if_neg (by simpa using hplain)]

end Order

section Bytes

variable {text text' : String} {d : DateTime} {e : Bool}

theorem utf8_ascii (h : ∀ c ∈ text.toList, c.toNat < 128) :
    utf8 text = text.toList.map fun c => UInt8.ofNat c.toNat := by
  unfold utf8
  generalize text.toList = chars at h
  induction chars with
  | nil => rfl
  | cons c cs ih =>
    obtain ⟨hc, hcs⟩ := List.forall_mem_cons.mp h
    have hone : String.utf8EncodeChar c = [UInt8.ofNat c.toNat] := if_pos (Nat.le_of_lt_succ hc)
    rw [List.flatMap_cons, List.map_cons, hone, ih hcs, List.singleton_append]

theorem pad_ascii (w n : Nat) : ∀ c ∈ pad w n, c.toNat < 128 := by
  have hdigit : ∀ i : Fin 10, (Nat.digitChar i).toNat < 128 := by decide
  induction w generalizing n with
  | zero => simp [pad]
  | succ w ih =>
    intro c hc
    rcases List.mem_append.mp hc with hc | hc
    · exact ih _ c hc
    · rw [List.mem_singleton.mp hc]
      exact hdigit ⟨n % 10, Nat.mod_lt _ (by decide)⟩

theorem stampChars_ascii (h : d.tzinfo = .utc) : ∀ c ∈ d.stampChars e, c.toNat < 128 := by
  have hoff : d.utcoffset = 0 := by simp [DateTime.utcoffset, h, TzInfo.utcoffset]
  have hzone : (offsetText 0).all (fun c => c.toNat < 128) = true := by decide
  have hfraction : ∀ c ∈ (if d.microsecond = 0 ∧ e = false then [] else '.' :: pad 6 d.microsecond),
      c.toNat < 128 := by
    split
    · simp
    · exact List.forall_mem_cons.mpr ⟨by decide, pad_ascii _ _⟩
  unfold DateTime.stampChars
  rw [hoff]
  simp only [List.forall_mem_append, List.forall_mem_cons]
  exact ⟨pad_ascii _ _, by decide, pad_ascii _ _, by decide, pad_ascii _ _, by decide, pad_ascii _ _, by decide,
    pad_ascii _ _, by decide, pad_ascii _ _, hfraction, by simpa using hzone⟩

/-- The texts are in the same order byte by byte. -/
theorem DateTime.precedes_bytes {a b : DateTime} {e e' : Bool} (ha : a.tzinfo = .utc) (hb : b.tzinfo = .utc)
    (h : Precedes (a.stampChars e) (b.stampChars e')) :
    Precedes (utf8 (String.ofList (a.stampChars e))) (utf8 (String.ofList (b.stampChars e'))) := by
  have hbytes : ∀ {d : DateTime} {e : Bool}, d.tzinfo = .utc →
      utf8 (String.ofList (d.stampChars e)) = (d.stampChars e).map fun c => UInt8.ofNat c.toNat := by
    intro d e hd
    rw [utf8_ascii (by rw [String.toList_ofList]; exact stampChars_ascii hd), String.toList_ofList]
  rw [hbytes ha, hbytes hb]
  refine h.map fun c hc c' hc' hlt => ?_
  have hsmall := stampChars_ascii ha c hc
  have hsmall' := stampChars_ascii hb c' hc'
  have hnat : c.toNat < c'.toNat := hlt
  rw [UInt8.lt_iff_toNat_lt, UInt8.toNat_ofNat', UInt8.toNat_ofNat']
  omega

end Bytes

end EnterpriseCopilot.Python
