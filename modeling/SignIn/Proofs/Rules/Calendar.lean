import Mathlib.Tactic.IntervalCases
import SignIn.Proofs.Message.Counting
/-!
# Date-times by the rules and by the calendar

A text that the rules accept as a date-time is cut into parts in one way, each part by the rule of its own
(`DateTimeParts.Cuts`).  The calendar accepts it exactly if these parts name a day and a time that exist, and what it reads
is what the parts say (`parse?_text`).  So the two never disagree on the shape of a text, however malformed, and to ask
the rules first refuses nothing that the calendar accepts.

Only the digits of a fraction are any number, so only there it matters what the rules count in.  A fraction whose digits
begin the count anew the calendar reads and the rules refuse (`not_calendar_reads_wide`).
-/
namespace SignIn

open Lexicon

structure DateTimeParts where
  year : Text
  month : Text
  day : Text
  mark : Char
  hour : Text
  minute : Text
  second : Text
  fraction : Text
  offset : Text

/-- The digits of an offset: its hours after the sign, its minutes after the colon. -/
def offsetHours (offset : Text) : Nat := decimalValue ((offset.drop 1).take 2)

def offsetMinutes (offset : Text) : Nat := decimalValue (offset.drop 4)

/-- An offset in minutes; `Z` is none. -/
def offsetValue (offset : Text) : Int :=
  if offset.head? = some '+' then 60 * offsetHours offset + offsetMinutes offset
  else if offset.head? = some '-' then -(60 * offsetHours offset + offsetMinutes offset)
  else 0

/-- A leap year is a multiple of four, and one of 400 if it ends a century. -/
def IsLeap (year : Nat) : Prop := 4 ∣ year ∧ (100 ∣ year → 400 ∣ year)

instance (year : Nat) : Decidable (IsLeap year) := inferInstanceAs (Decidable (_ ∧ _))

/-- The days of a month of the Gregorian calendar. -/
def monthLength (year month : Nat) : Nat :=
  if month = 2 then if IsLeap year then 29 else 28
  else if month ∈ [4, 6, 9, 11] then 30
  else 31

namespace DateTimeParts

variable (p : DateTimeParts)

/-- The parts put together again. -/
def text : Text :=
  (p.year ++ ("-" ++ (p.month ++ ("-" ++ p.day)))) ++
    (p.mark :: ((p.hour ++ (":" ++ (p.minute ++ (":" ++ (p.second ++ p.fraction))))) ++ p.offset))

/-- **Each part is accepted by its own rule,** and a fraction may be left out. -/
structure Accepted : Prop where
  year : matchesRule "date-fullyear" p.year = .ok true
  month : matchesRule "date-month" p.month = .ok true
  day : matchesRule "date-mday" p.day = .ok true
  mark : p.mark = 'T' ∨ p.mark = 't'
  hour : matchesRule "time-hour" p.hour = .ok true
  minute : matchesRule "time-minute" p.minute = .ok true
  second : matchesRule "time-second" p.second = .ok true
  fraction : p.fraction = [] ∨ matchesRule "time-secfrac" p.fraction = .ok true
  offset : matchesRule "time-offset" p.offset = .ok true

/-- **A text is cut into parts** as the rules of a date-time have them. -/
def Cuts (t : Text) : Prop := t = p.text ∧ p.Accepted

def fields : DateTime :=
  ⟨decimalValue p.year, decimalValue p.month, decimalValue p.day, decimalValue p.hour, decimalValue p.minute,
    decimalValue p.second, offsetValue p.offset⟩

/-- **The parts name a day and a time that exist,** and an offset within a day. -/
structure Exists : Prop where
  month : 1 ≤ decimalValue p.month ∧ decimalValue p.month ≤ 12
  day : 1 ≤ decimalValue p.day ∧ decimalValue p.day ≤ monthLength (decimalValue p.year) (decimalValue p.month)
  hour : decimalValue p.hour ≤ 23
  minute : decimalValue p.minute ≤ 59
  second : decimalValue p.second ≤ 59
  offset : p.offset.head? = some '+' ∨ p.offset.head? = some '-' → offsetHours p.offset ≤ 23 ∧ offsetMinutes p.offset ≤ 59

end DateTimeParts

/-! ## The rules of the parts -/

def IsFraction (f : Text) : Prop := ∃ w, f = "." ++ w ∧ w ≠ [] ∧ ∀ c ∈ w, c.isDigit = true

section

variable {name : Text} {n : Nat} {es : List Expr} {pre x post : Text} {d d' : UriCapture} {counter : Counter}

/-- **The digits of a fraction, if there is one, are more than none to the counter.** -/
def FractionShown (counter : Counter) (f : Text) : Prop := ∀ w, f = "." ++ w → counter.shows w.length ≠ 0

theorem of_takes_cat_digits (hrule : (name, n) ∈ digitRules)
    (h : (fieldLexicon counter).Takes (.cat (.rnm name :: es)) pre x post d d') :
    ∃ w y, x = w ++ y ∧ Digits n w ∧ (fieldLexicon counter).Takes (.cat es) (pre ++ w) y post d d' := by
  obtain ⟨w, y, d₁, rfl, hw, hy⟩ := takes_cat_cons.1 h
  obtain ⟨hdigits, rfl⟩ := (takes_digits hrule).1 hw
  exact ⟨w, y, rfl, hdigits, hy⟩

theorem of_takes_cat_last (hrule : (name, n) ∈ digitRules)
    (h : (fieldLexicon counter).Takes (.cat [.rnm name]) pre x post d d') : Digits n x :=
  ((takes_digits hrule).1 (takes_cat_one.1 h)).1

theorem of_takes_fraction (h : (fieldLexicon counter).Takes (.rnm "time-secfrac") pre x post d d') :
    IsFraction x ∧ FractionShown counter x := by
  rw [takes_rnm (defines_dateTime "time-secfrac" 6 rfl), takes_cat_tbs] at h
  obtain ⟨w, rfl, h⟩ := h
  obtain ⟨hshown, hdigits, -, -⟩ := (takes_plus_class_shown class_digit).1 (takes_cat_one.1 h)
  rw [counter_fieldLexicon] at hshown
  refine ⟨⟨w, rfl, ?_, hdigits⟩, fun v hv => List.append_cancel_left hv ▸ hshown⟩
  rintro rfl
  exact hshown counter.shows_zero

theorem of_takes_numOffset (h : (fieldLexicon counter).Takes (.rnm "time-numoffset") pre x post d d') : IsOffset x := by
  rw [takes_rnm (defines_dateTime "time-numoffset" 7 rfl)] at h
  obtain ⟨sign, _, _, rfl, hsign, hrest⟩ := takes_cat_cons.1 h
  have hsigns : sign = "+" ∨ sign = "-" := by
    simp only [takes_alt_cons, takes_tbs] at hsign
    rcases hsign with ⟨rfl, -⟩ | ⟨_, -, ⟨rfl, -⟩ | ⟨_, -, hnone⟩⟩
    · exact .inl rfl
    · exact .inr rfl
    · exact absurd hnone takes_alt_nil
  obtain ⟨hh, _, rfl, hhour, hcolon⟩ := of_takes_cat_digits (n := 2) (by decide) hrest
  obtain ⟨mm, rfl, hlast⟩ := takes_cat_tbs.1 hcolon
  exact .inr ⟨sign, hh, mm, hsigns, rfl, hhour, of_takes_cat_last (by decide) hlast⟩

theorem of_takes_offset (h : (fieldLexicon counter).Takes (.rnm "time-offset") pre x post d d') : IsOffset x := by
  have hz : (fieldLexicon counter).Class (.tls "Z") fun c => c.toLower = 'z' := class_folded 'Z'
  rw [takes_rnm (defines_dateTime "time-offset" 8 rfl), takes_alt_cons, hz.takes] at h
  rcases h with ⟨⟨c, rfl, hc⟩, -⟩ | ⟨_, -, h⟩
  · exact .inl ⟨c, rfl, hc⟩
  · exact of_takes_numOffset ((takes_alt_cons.1 h).resolve_right fun ⟨_, _, hnone⟩ => takes_alt_nil hnone)

theorem of_takes_fullDate (h : (fieldLexicon counter).Takes (.rnm "full-date") pre x post d d') : ∃ year month day : Text,
    x = year ++ ("-" ++ (month ++ ("-" ++ day))) ∧ Digits 4 year ∧ Digits 2 month ∧ Digits 2 day := by
  rw [takes_rnm (defines_dateTime "full-date" 10 rfl)] at h
  obtain ⟨year, _, rfl, hyear, hdash⟩ := of_takes_cat_digits (n := 4) (by decide) h
  obtain ⟨_, rfl, hrest⟩ := takes_cat_tbs.1 hdash
  obtain ⟨month, _, rfl, hmonth, hdash'⟩ := of_takes_cat_digits (n := 2) (by decide) hrest
  obtain ⟨day, rfl, hlast⟩ := takes_cat_tbs.1 hdash'
  exact ⟨year, month, day, rfl, hyear, hmonth, of_takes_cat_last (by decide) hlast⟩

theorem of_takes_partialTime (h : (fieldLexicon counter).Takes (.rnm "partial-time") pre x post d d') :
    ∃ hh mm ss f : Text, x = hh ++ (":" ++ (mm ++ (":" ++ (ss ++ f)))) ∧ Digits 2 hh ∧ Digits 2 mm ∧ Digits 2 ss ∧
      (f = [] ∨ IsFraction f) ∧ FractionShown counter f := by
  rw [takes_rnm (defines_dateTime "partial-time" 9 rfl)] at h
  obtain ⟨hh, _, rfl, hhour, hcolon⟩ := of_takes_cat_digits (n := 2) (by decide) h
  obtain ⟨_, rfl, hrest⟩ := takes_cat_tbs.1 hcolon
  obtain ⟨mm, _, rfl, hminute, hcolon'⟩ := of_takes_cat_digits (n := 2) (by decide) hrest
  obtain ⟨_, rfl, hrest'⟩ := takes_cat_tbs.1 hcolon'
  obtain ⟨ss, f, rfl, hsecond, hlast⟩ := of_takes_cat_digits (n := 2) (by decide) hrest'
  have hnone : f = [] → FractionShown counter f := by
    rintro rfl w hw
    cases hw
  refine ⟨hh, mm, ss, f, rfl, hhour, hminute, hsecond, ?_⟩
  rcases takes_opt.1 (takes_cat_one.1 hlast) with ⟨hf, -⟩ | ⟨-, hfraction | ⟨hf, -⟩⟩
  · exact ⟨.inl hf, hnone hf⟩
  · exact (of_takes_fraction hfraction).imp_left .inr
  · exact ⟨.inl hf, hnone hf⟩

theorem matches_digits (hrule : (name, n) ∈ digitRules) : matchesRule name x = .ok true ↔ Digits n x := by
  have hmem := List.mem_append_right Rules.fields (mem_digitRules hrule)
  rw [matches_field hmem]
  simp only [← takes_rnm (defines_field hmem), takes_digits hrule, exists_and_left, exists_eq, and_true]

theorem matches_fraction : matchesRule "time-secfrac" x = .ok true ↔ IsFraction x := by
  have hdef : fieldLexicon.Defines "time-secfrac" _ none := defines_dateTime "time-secfrac" 6 rfl
  rw [matches_field (dateTime_rule "time-secfrac" 6 rfl)]
  constructor
  · rintro ⟨_, h⟩
    exact (of_takes_fraction ((takes_rnm hdef).2 h)).1
  · rintro ⟨w, rfl, hne, hw⟩
    exact ⟨.empty, takes_cat_tbs.2 ⟨w, rfl, takes_cat_one.2 ((takes_plus_class class_digit).2 ⟨hne, hw, by simp, rfl⟩)⟩⟩

theorem matches_offset : matchesRule "time-offset" x = .ok true ↔ IsOffset x := by
  have hdef : fieldLexicon.Defines "time-offset" _ none := defines_dateTime "time-offset" 8 rfl
  rw [matches_field (dateTime_rule "time-offset" 8 rfl)]
  exact ⟨fun ⟨_, h⟩ => of_takes_offset ((takes_rnm hdef).2 h), fun h => ⟨.empty, (takes_rnm hdef).1 (takes_offset h)⟩⟩

end

/-! ## The cut -/

theorem toLower_eq_t {c : Char} : c.toLower = 't' ↔ c = 'T' ∨ c = 't' := by
  rw [← Char.toNat_inj, ← Char.toNat_inj, ← Char.toNat_inj, toNat_toLower]
  have hT : ('T' : Char).toNat = 84 := rfl
  have ht : ('t' : Char).toNat = 116 := rfl
  split <;> omega

theorem head_of_isOffset {z : Text} (h : IsOffset z) : ∃ c rest, z = c :: rest ∧ c.isDigit = false ∧ c ≠ '.' := by
  rcases h with ⟨c, rfl, hc⟩ | ⟨sign, hh, mm, rfl | rfl, rfl, -, -⟩
  · refine ⟨c, [], rfl, ?_, ?_⟩
    · rw [← Bool.not_eq_true, isDigit_iff]
      intro hd
      rw [← Char.toNat_inj, toNat_toLower, if_neg (by omega)] at hc
      have hz : ('z' : Char).toNat = 122 := rfl
      omega
    · rintro rfl
      exact absurd hc (by decide)
  · exact ⟨'+', _, rfl, by decide, by decide⟩
  · exact ⟨'-', _, rfl, by decide, by decide⟩

/-- A fraction ends where the offset begins. -/
theorem fraction_of_isOffset {f z : Text} (hf : f = [] ∨ IsFraction f) (hz : IsOffset z) : Fraction f z := by
  obtain ⟨c, rest, rfl, hdigit, hpoint⟩ := head_of_isOffset hz
  rcases hf with rfl | ⟨w, rfl, hne, hw⟩
  · exact .inl ⟨rfl, by simpa using hpoint⟩
  · exact .inr ⟨w, rfl, hne, hw, by simpa using hdigit⟩

namespace DateTimeParts

variable {p q : DateTimeParts} {t : Text} {d : DateTime} {counter : Counter}

theorem accepted_iff : p.Accepted ↔ Digits 4 p.year ∧ Digits 2 p.month ∧ Digits 2 p.day ∧ p.mark.toLower = 't' ∧
    Digits 2 p.hour ∧ Digits 2 p.minute ∧ Digits 2 p.second ∧ (p.fraction = [] ∨ IsFraction p.fraction) ∧ IsOffset p.offset := by
  have hfour : ∀ x, matchesRule "date-fullyear" x = .ok true ↔ Digits 4 x := fun x => matches_digits (by decide)
  have htwo : ∀ name ∈ (["date-month", "date-mday", "time-hour", "time-minute", "time-second"] : List Text),
      ∀ x, matchesRule name x = .ok true ↔ Digits 2 x := by
    intro name hname x
    have hmem : ∀ name ∈ (["date-month", "date-mday", "time-hour", "time-minute", "time-second"] : List Text),
      (name, 2) ∈ digitRules := by decide
    exact matches_digits (hmem name hname)
  simp only [List.forall_mem_cons] at htwo
  obtain ⟨hmonth, hday, hhour, hminute, hsecond, -⟩ := htwo
  rw [← hfour, ← hmonth, ← hday, ← hhour, ← hminute, ← hsecond, ← matches_fraction, ← matches_offset, toLower_eq_t]
  exact ⟨fun h => ⟨h.1, h.2, h.3, h.4, h.5, h.6, h.7, h.8, h.9⟩, fun ⟨h₁, h₂, h₃, h₄, h₅, h₆, h₇, h₈, h₉⟩ =>
    ⟨h₁, h₂, h₃, h₄, h₅, h₆, h₇, h₈, h₉⟩⟩

theorem cuts_of_matches (h : matchesRule "date-time" t counter = .ok true) :
    ∃ p : DateTimeParts, p.Cuts t ∧ FractionShown counter p.fraction := by
  have hT : (fieldLexicon counter).Class (.tls "T") fun c => c.toLower = 't' := class_folded 'T'
  obtain ⟨d', h⟩ := takes_of_matchesRule h
  rw [takes_rnm (defines_dateTime "date-time" 12 rfl)] at h
  obtain ⟨date, _, _, rfl, hdate, hafter⟩ := takes_cat_cons.1 h
  obtain ⟨year, month, day, rfl, hyear, hmonth, hday⟩ := of_takes_fullDate hdate
  obtain ⟨_, _, _, rfl, hmark, hrest⟩ := takes_cat_cons.1 hafter
  obtain ⟨⟨mark, rfl, hlower⟩, rfl⟩ := hT.takes.1 hmark
  rw [takes_cat_one, takes_rnm (defines_dateTime "full-time" 11 rfl)] at hrest
  obtain ⟨_, z, _, rfl, hpartial, hoffset⟩ := takes_cat_cons.1 hrest
  obtain ⟨hh, mm, ss, f, rfl, hhour, hminute, hsecond, hf, hshown⟩ := of_takes_partialTime hpartial
  exact ⟨⟨year, month, day, mark, hh, mm, ss, f, z⟩, ⟨rfl, accepted_iff.2 ⟨hyear, hmonth, hday, hlower, hhour, hminute,
    hsecond, hf, of_takes_offset (takes_cat_one.1 hoffset)⟩⟩, hshown⟩

theorem Cuts.matches (h : p.Cuts t) : matchesRule "date-time" t = .ok true := by
  obtain ⟨rfl, haccepted⟩ := h
  obtain ⟨hyear, hmonth, hday, hmark, hhour, hminute, hsecond, hf, hz⟩ := accepted_iff.1 haccepted
  exact matches_of_shape hyear hmonth hday hmark hhour hminute hsecond (fraction_of_isOffset hf hz) hz

end DateTimeParts

/-! ## What the calendar reads -/

theorem readDigits_append {n : Nat} {w : Text} (h : Digits n w) (rest : Text) :
    readDigits n (w ++ rest) = some (decimalValue w, rest) := by
  obtain ⟨rfl, hw⟩ := h
  simp [readDigits, List.all_eq_true.2 hw]

theorem readMark_cons {mark c : Char} (h : c.toLower = mark.toLower) (rest : Text) : readMark mark (c :: rest) = some rest :=
  if_pos h

theorem readHourMinute_append {hh mm : Text} (hhour : Digits 2 hh) (hminute : Digits 2 mm) (rest : Text) :
    readHourMinute (hh ++ (":" ++ (mm ++ rest))) = some (decimalValue hh, decimalValue mm, rest) := by
  have hcolon : readMark ':' (":" ++ (mm ++ rest)) = some (mm ++ rest) := readMark_cons rfl _
  simp only [readHourMinute, readDigits_append hhour, hcolon, readDigits_append hminute, Option.bind_eq_bind, Option.bind_some,
    Option.pure_def]

theorem skipFraction_append {f z : Text} (h : Fraction f z) : skipFraction (f ++ z) = some z := by
  rcases h with ⟨rfl, hpoint⟩ | ⟨w, rfl, hne, hw, hend⟩
  · exact skipFraction_of_head hpoint
  · have hfirst : z.takeWhile Char.isDigit = [] := by
      cases z with
      | nil => rfl
      | cons c z => exact List.takeWhile_cons_of_neg (hend c rfl)
    have hrest : z.dropWhile Char.isDigit = z := by
      cases z with
      | nil => rfl
      | cons c z => exact List.dropWhile_cons_of_neg (hend c rfl)
    show skipFraction ('.' :: (w ++ z)) = some z
    rw [skipFraction_point, List.takeWhile_append_of_pos hw, List.dropWhile_append_of_pos hw, hfirst,
      hrest, List.append_nil, if_neg (by simpa using hne)]

section

variable {c : Char} {hh mm : Text}

theorem offsetHours_signed (hhour : Digits 2 hh) : offsetHours (c :: (hh ++ (":" ++ mm))) = decimalValue hh := by
  have htake : (hh ++ (":" ++ mm)).take 2 = hh := List.take_left' hhour.1
  rw [offsetHours, List.drop_one, List.tail_cons, htake]

theorem offsetMinutes_signed (hhour : Digits 2 hh) : offsetMinutes (c :: (hh ++ (":" ++ mm))) = decimalValue mm := by
  have hsplit : c :: (hh ++ (":" ++ mm)) = ([c] ++ (hh ++ ":")) ++ mm := by
    rw [List.append_assoc, List.append_assoc, List.singleton_append]
  rw [offsetMinutes, hsplit, List.drop_left' (by simp [hhour.1])]

theorem readOffset_signed (hc : c = '+' ∨ c = '-') (hhour : Digits 2 hh) (hminute : Digits 2 mm) :
    readOffset (c :: (hh ++ (":" ++ mm))) = if decimalValue hh ≤ 23 ∧ decimalValue mm ≤ 59 then
      some (offsetValue (c :: (hh ++ (":" ++ mm)))) else none := by
  have hz : c.toLower ≠ 'z' := by rcases hc with rfl | rfl <;> decide
  have hread : readHourMinute (hh ++ (":" ++ mm)) = some (decimalValue hh, decimalValue mm, []) := by
    simpa using readHourMinute_append hhour hminute []
  have hvalue : offsetValue (c :: (hh ++ (":" ++ mm))) =
      if c = '-' then -((decimalValue hh : Int) * 60 + decimalValue mm) else decimalValue hh * 60 + decimalValue mm := by
    rw [offsetValue, offsetHours_signed hhour, offsetMinutes_signed hhour, Int.mul_comm 60]
    rcases hc with rfl | rfl <;> simp
  rw [hvalue, readOffset, if_neg hz, if_pos hc, hread]
  simp only [Option.bind_eq_bind, Option.bind_some, List.isEmpty_nil, Bool.and_eq_true, decide_eq_true_eq, true_and]
  rfl

end

theorem readOffset_eq_some_iff {z : Text} {o : Int} (h : IsOffset z) : readOffset z = some o ↔
    (z.head? = some '+' ∨ z.head? = some '-' → offsetHours z ≤ 23 ∧ offsetMinutes z ≤ 59) ∧ o = offsetValue z := by
  rcases h with ⟨c, rfl, hc⟩ | ⟨sign, hh, mm, hsign, rfl, hhour, hminute⟩
  · have hplus : c ≠ '+' := by rintro rfl; exact absurd hc (by decide)
    have hminus : c ≠ '-' := by rintro rfl; exact absurd hc (by decide)
    simp [readOffset, hc, offsetValue, hplus, hminus, eq_comm]
  · obtain ⟨c, hc, rfl⟩ : ∃ c, (c = '+' ∨ c = '-') ∧ sign = [c] := by
      rcases hsign with rfl | rfl
      · exact ⟨'+', .inl rfl, rfl⟩
      · exact ⟨'-', .inr rfl, rfl⟩
    rw [List.singleton_append, readOffset_signed hc hhour hminute, offsetHours_signed hhour, offsetMinutes_signed hhour]
    simp only [List.head?_cons, Option.some.injEq, hc, true_implies]
    split <;> simp_all [eq_comm]

/-! ## The days of the calendar -/

theorem isLeapYear_iff {year : Nat} : isLeapYear year = true ↔ IsLeap year := by
  simp only [isLeapYear, Bool.or_eq_true, Bool.and_eq_true, beq_iff_eq, bne_iff_ne, IsLeap]
  omega

theorem daysInMonth_eq {year month : Nat} (hlow : 1 ≤ month) (hhigh : month ≤ 12) :
    daysInMonth year month = monthLength year month := by
  have hleap : (if isLeapYear year then 29 else 28) = if IsLeap year then 29 else 28 := by
    simp only [isLeapYear_iff]
  interval_cases month <;> simp [daysInMonth, monthLength, hleap]

theorem DateTime.exists_iff {d : DateTime} : d.exists = true ↔ (1 ≤ d.month ∧ d.month ≤ 12) ∧
    (1 ≤ d.day ∧ d.day ≤ monthLength d.year d.month) ∧ d.hour ≤ 23 ∧ d.minute ≤ 59 ∧ d.second ≤ 59 := by
  simp only [DateTime.exists, Bool.and_eq_true, decide_eq_true_eq, and_assoc]
  constructor
  · rintro ⟨hlow, hhigh, hday⟩
    rw [daysInMonth_eq hlow hhigh] at hday
    exact ⟨hlow, hhigh, hday⟩
  · rintro ⟨hlow, hhigh, hday⟩
    rw [daysInMonth_eq hlow hhigh]
    exact ⟨hlow, hhigh, hday⟩

namespace DateTimeParts

variable {p q : DateTimeParts} {t : Text} {d : DateTime}

/-- **The calendar reads what the parts say,** if they say a day and a time that exist. -/
theorem parse?_text (h : p.Accepted) : DateTime.parse? p.text = some d ↔ p.Exists ∧ d = p.fields := by
  obtain ⟨hyear, hmonth, hday, hmark, hhour, hminute, hsecond, hf, hz⟩ := accepted_iff.1 h
  have hdash (rest : Text) : readMark '-' ("-" ++ rest) = some rest := readMark_cons rfl rest
  have hcolon (rest : Text) : readMark ':' (":" ++ rest) = some rest := readMark_cons rfl rest
  have hT (rest : Text) : readMark 'T' (p.mark :: rest) = some rest := readMark_cons hmark rest
  rw [parse?_eq]
  simp only [DateTime.read?, text, List.append_assoc, readDigits_append hyear, readDigits_append hmonth,
    readDigits_append hday, readDigits_append hsecond, readHourMinute_append hhour hminute, hdash, hcolon, hT,
    skipFraction_append (fraction_of_isOffset hf hz), Option.bind_eq_bind, Option.bind_some, Option.bind_eq_some_iff,
    readOffset_eq_some_iff hz, DateTime.exists_iff]
  constructor
  · rintro ⟨_, ⟨hoffset, rfl⟩, hd⟩
    obtain ⟨⟨hmonth', hday', hhour', hminute', hsecond'⟩, heq⟩ := Option.ite_none_right_eq_some.1 hd
    exact ⟨⟨hmonth', hday', hhour', hminute', hsecond', hoffset⟩, (Option.some.inj heq).symm⟩
  · rintro ⟨hexists, rfl⟩
    exact ⟨_, ⟨hexists.offset, rfl⟩,
      if_pos ⟨hexists.month, hexists.day, hexists.hour, hexists.minute, hexists.second⟩⟩

/-- **A text is cut in one way.** -/
theorem text_inj (hp : p.Accepted) (hq : q.Accepted) (h : p.text = q.text) : p = q := by
  obtain ⟨hyear, hmonth, hday, -, hhour, hminute, hsecond, hf, hz⟩ := accepted_iff.1 hp
  obtain ⟨hyear', hmonth', hday', -, hhour', hminute', hsecond', hf', hz'⟩ := accepted_iff.1 hq
  simp only [text, List.append_assoc] at h
  obtain ⟨eyear, h⟩ := List.append_inj h (hyear.1.trans hyear'.1.symm)
  obtain ⟨emonth, h⟩ := List.append_inj (List.append_cancel_left h) (hmonth.1.trans hmonth'.1.symm)
  obtain ⟨eday, h⟩ := List.append_inj (List.append_cancel_left h) (hday.1.trans hday'.1.symm)
  obtain ⟨emark, h⟩ := List.cons.inj h
  obtain ⟨ehour, h⟩ := List.append_inj h (hhour.1.trans hhour'.1.symm)
  obtain ⟨eminute, h⟩ := List.append_inj (List.append_cancel_left h) (hminute.1.trans hminute'.1.symm)
  obtain ⟨esecond, h⟩ := List.append_inj (List.append_cancel_left h) (hsecond.1.trans hsecond'.1.symm)
  -- no length says where the fraction ends; what reads past it does
  have eoffset : p.offset = q.offset := by
    have hskip := skipFraction_append (fraction_of_isOffset hf hz)
    rw [h, skipFraction_append (fraction_of_isOffset hf' hz'), Option.some.injEq] at hskip
    exact hskip.symm
  have efraction : p.fraction = q.fraction := by
    rw [eoffset] at h
    exact List.append_cancel_right h
  cases p
  cases q
  simp_all

theorem Cuts.unique (hp : p.Cuts t) (hq : q.Cuts t) : p = q := text_inj hp.2 hq.2 (hp.1.symm.trans hq.1)

end DateTimeParts

/-- **The rules and the calendar agree on date-times.**  The rules accept a text exactly if it is cut into parts, which is
then done in one way; and the calendar reads a date-time from it exactly if the rules accept it and its parts name a day
and a time that exist, and reads what they say.  The rules may count in anything that holds the length of the text. -/
theorem calendar_reads {t : Text} {counter : Counter} (hlen : counter.Holds t.length) :
    (matchesRule "date-time" t counter = .ok true ↔ ∃! p : DateTimeParts, p.Cuts t) ∧
    (∀ d, DateTime.parse? t = some d ↔
      matchesRule "date-time" t counter = .ok true ∧ ∃ p : DateTimeParts, p.Cuts t ∧ p.Exists ∧ d = p.fields) ∧
    (isDateTime t = true → matchesRule "date-time" t counter = .ok true) ∧
    (∀ (c : Capture) (line : Text), c.text = t → (c.requireDateTime line counter = .ok () ↔ isDateTime t = true)) := by
  rw [matchesRule_counter hlen]
  refine ⟨⟨fun h => ?_, fun ⟨p, hp, _⟩ => hp.matches⟩, fun d => ⟨fun h => ?_, ?_⟩, matches_dateTime, ?_⟩
  · obtain ⟨p, hp, -⟩ := DateTimeParts.cuts_of_matches h
    exact ⟨p, hp, fun q hq => hq.unique hp⟩
  · have hrule := matches_dateTime (Option.isSome_iff_exists.2 ⟨d, h⟩)
    obtain ⟨p, ⟨rfl, hp⟩, -⟩ := DateTimeParts.cuts_of_matches hrule
    exact ⟨hrule, p, ⟨rfl, hp⟩, (DateTimeParts.parse?_text hp).1 h⟩
  · rintro ⟨-, p, ⟨rfl, hp⟩, hexists⟩
    exact (DateTimeParts.parse?_text hp).2 hexists
  · rintro c line rfl
    rw [Capture.requireDateTime_counter hlen]
    exact Capture.requireDateTime_eq_ok

/-- Counted in words, a leap day with a fraction is read, and its rule accepts it. -/
theorem calendar_reads_west : isDateTime "2020-02-29t16:25:24.123-07:30" = true ∧
    DateTime.parse? "2020-02-29t16:25:24.123-07:30" = some ⟨2020, 2, 29, 16, 25, 24, -450⟩ ∧
    matchesRule "date-time" "2020-02-29t16:25:24.123-07:30" .word = .ok true ∧
    (∃! p : DateTimeParts, p.Cuts "2020-02-29t16:25:24.123-07:30") ∧
    Capture.requireDateTime ⟨"2020-02-29t16:25:24.123-07:30", 0⟩ "issued-at" .word = .ok () := by
  have hparse : DateTime.parse? "2020-02-29t16:25:24.123-07:30" = some ⟨2020, 2, 29, 16, 25, 24, -450⟩ := by decide +kernel
  have hdate : isDateTime "2020-02-29t16:25:24.123-07:30" = true := Option.isSome_iff_exists.2 ⟨_, hparse⟩
  obtain ⟨hcut, -, hrule, hline⟩ := @calendar_reads "2020-02-29t16:25:24.123-07:30" .word (by decide +kernel)
  exact ⟨hdate, hparse, hrule hdate, hcut.1 (hrule hdate), (hline _ _ rfl).2 hdate⟩

/-! ## A fraction that begins the count anew -/

/-- **The rules refuse a fraction whose digits the counter shows as none,** whatever else the text has. -/
theorem not_matches_of_shows {p : DateTimeParts} {w : Text} {counter : Counter} (hp : p.Accepted)
    (hfraction : p.fraction = "." ++ w) (hshows : counter.shows w.length = 0) :
    matchesRule "date-time" p.text counter ≠ .ok true := by
  intro h
  obtain ⟨q, hq, hshown⟩ := DateTimeParts.cuts_of_matches h
  obtain rfl : p = q := DateTimeParts.text_inj hp hq.2 hq.1
  exact hshown w hfraction hshows

/-- The first second of a year, with a fraction. -/
def newYear (w : Text) : DateTimeParts := ⟨"2020", "01", "01", 'T', "00", "00", "00", "." ++ w, "Z"⟩

theorem text_newYear (w : Text) : (newYear w).text = "2020-01-01T00:00:00." ++ (w ++ "Z") := rfl

theorem newYear_accepted {w : Text} (hne : w ≠ []) (hw : ∀ c ∈ w, c.isDigit = true) : (newYear w).Accepted := by
  have hoffset : IsOffset "Z" := .inl ⟨'Z', rfl, rfl⟩
  refine DateTimeParts.accepted_iff.2 ⟨?_, ?_, ?_, rfl, ?_, ?_, ?_, .inr ⟨w, rfl, hne, hw⟩, hoffset⟩
  all_goals exact ⟨rfl, List.all_eq_true.1 rfl⟩

theorem parse?_newYear {w : Text} (hne : w ≠ []) (hw : ∀ c ∈ w, c.isDigit = true) :
    DateTime.parse? (newYear w).text = some ⟨2020, 1, 1, 0, 0, 0, 0⟩ := by
  have hoffset : (newYear w).offset.head? = some '+' ∨ (newYear w).offset.head? = some '-' → False := by
    simp only [newYear]
    decide
  refine (DateTimeParts.parse?_text (newYear_accepted hne hw)).2 ⟨⟨?_, ?_, ?_, ?_, ?_, fun h => (hoffset h).elim⟩, ?_⟩
  all_goals
    simp only [newYear, DateTimeParts.fields]
    decide

/-- **Counted in words, a fraction of 2 ^ 32 digits is read by the calendar and refused by the rules.** -/
theorem not_calendar_reads_wide :
    DateTime.parse? ("2020-01-01T00:00:00." ++ (List.replicate (2 ^ 32) '0' ++ "Z")) = some ⟨2020, 1, 1, 0, 0, 0, 0⟩ ∧
    matchesRule "date-time" ("2020-01-01T00:00:00." ++ (List.replicate (2 ^ 32) '0' ++ "Z")) .word ≠ .ok true := by
  have hw : ∀ c ∈ List.replicate (2 ^ 32) '0', c.isDigit = true := fun c hc => (List.mem_replicate.1 hc).2 ▸ rfl
  have hne : List.replicate (2 ^ 32) '0' ≠ [] := by
    rw [ne_eq, List.replicate_eq_nil_iff]
    decide
  have hshows : Counter.word.shows (List.replicate (2 ^ 32) '0').length = 0 := by
    rw [List.length_replicate]
    rfl
  generalize List.replicate (2 ^ 32) '0' = w at hw hne hshows ⊢
  rw [← text_newYear]
  exact ⟨parse?_newYear hne hw, not_matches_of_shows (newYear_accepted hne hw) rfl hshows⟩

end SignIn
