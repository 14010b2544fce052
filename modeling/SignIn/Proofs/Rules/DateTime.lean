import SignIn.DateTime
import SignIn.Proofs.Rules.Fields
/-!
# The shape of a date-time

A message's times are judged twice, by a rule that counts digits and by the calendar.  The calendar reads the same shape:
what it accepts the rule accepts (`matches_dateTime`), so for a message to be valid the calendar alone has to be asked.
-/
namespace SignIn

open Lexicon

/-- A field of so many digits. -/
def Digits (n : Nat) (w : Text) : Prop := w.length = n ∧ ∀ c ∈ w, c.isDigit = true

/-! ## Reading characters -/

/-- A number of exactly `n` digits at the front of a text, and the rest. -/
def readDigits (n : Nat) (t : Text) : Option (Nat × Text) :=
  let window := t.take n
  if window.length = n ∧ window.all Char.isDigit then some (decimalValue window, t.drop n) else none

/-- The rest of a text after a character that has to stand at its front, in either ASCII case. -/
def readMark (mark : Char) : Text → Option Text
  | c :: t => if c.toLower = mark.toLower then some t else none
  | [] => none

/-- **The rest after the fraction of a second:** a point needs a digit after it. -/
def skipFraction : Text → Option Text
  | '.' :: t =>
    if (t.takeWhile Char.isDigit).isEmpty then none else some (t.dropWhile Char.isDigit)
  | t => some t

/-- Hours and minutes with a colon between them, and the rest. -/
def readHourMinute (t : Text) : Option (Nat × Nat × Text) := do
  let (hours, t) ← readDigits 2 t
  let t ← readMark ':' t
  let (minutes, t) ← readDigits 2 t
  return (hours, minutes, t)

/-- **The offset at the end:** `Z`, or a sign with hours and minutes of a day. -/
def readOffset : Text → Option Int
  | [] => none
  | c :: t =>
    if c.toLower = 'z' then if t.isEmpty then some 0 else none
    else if c = '+' ∨ c = '-' then do
      let (hours, minutes, rest) ← readHourMinute t
      if rest.isEmpty && decide (hours ≤ 23) && decide (minutes ≤ 59) then
        let total : Int := hours * 60 + minutes
        return if c = '-' then -total else total
      else none
    else none

/-- **The date-time that the characters of a text say,** if it names an instant. -/
def DateTime.read? (t : Text) : Option DateTime := do
  let (year, t) ← readDigits 4 t
  let t ← readMark '-' t
  let (month, t) ← readDigits 2 t
  let t ← readMark '-' t
  let (day, t) ← readDigits 2 t
  let t ← readMark 'T' t
  let (hour, minute, t) ← readHourMinute t
  let t ← readMark ':' t
  let (second, t) ← readDigits 2 t
  let t ← skipFraction t
  let offset ← readOffset t
  let d : DateTime := ⟨year, month, day, hour, minute, second, offset⟩
  if d.exists then some d else none

theorem readDigits_eq_some {n v : Nat} {t rest : Text} (h : readDigits n t = some (v, rest)) :
    ∃ w, t = w ++ rest ∧ Digits n w := by
  unfold readDigits at h
  dsimp only at h
  split at h
  · rename_i hw
    rw [Option.some.injEq, Prod.mk.injEq] at h
    refine ⟨t.take n, ?_, hw.1, List.all_eq_true.1 hw.2⟩
    rw [← h.2, List.take_append_drop]
  · cases h

theorem readMark_eq_some {mark : Char} {t rest : Text} (h : readMark mark t = some rest) :
    ∃ c, t = c :: rest ∧ c.toLower = mark.toLower := by
  cases t with
  | nil => cases h
  | cons c t =>
    rw [readMark] at h
    split at h
    · rename_i hc
      cases h
      exact ⟨c, rfl, hc⟩
    · cases h

/-- A mark that is no letter is that character. -/
theorem readMark_sign {mark : Char} (hmark : mark.isAlpha = false) {t rest : Text} (h : readMark mark t = some rest) :
    t = [mark] ++ rest := by
  obtain ⟨c, rfl, hc⟩ := readMark_eq_some h
  rw [(toLower_eq_iff hmark).2 rfl, toLower_eq_iff hmark] at hc
  rw [hc]
  rfl

theorem readHourMinute_eq_some {t rest : Text} {h m : Nat} (heq : readHourMinute t = some (h, m, rest)) :
    ∃ hh mm, t = hh ++ (":" ++ (mm ++ rest)) ∧ Digits 2 hh ∧ Digits 2 mm := by
  simp only [readHourMinute, Option.bind_eq_bind, Option.bind_eq_some_iff, Option.pure_def, Option.some.injEq,
    Prod.mk.injEq] at heq
  obtain ⟨⟨_, t₁⟩, hhour, t₂, hcolon, ⟨_, t₃⟩, hminute, -, -, rfl⟩ := heq
  obtain ⟨hh, rfl, hhd⟩ := readDigits_eq_some hhour
  obtain rfl := readMark_sign (by decide) hcolon
  obtain ⟨mm, rfl, hmd⟩ := readDigits_eq_some hminute
  exact ⟨hh, mm, rfl, hhd, hmd⟩

/-- **A fraction of a second,** or none, before a rest that does not go on with it. -/
def Fraction (f rest : Text) : Prop :=
  (f = [] ∧ rest.head? ≠ some '.') ∨
    ∃ w, f = "." ++ w ∧ w ≠ [] ∧ (∀ c ∈ w, c.isDigit = true) ∧ ∀ c, rest.head? = some c → ¬ c.isDigit = true

theorem skipFraction_point (t : Text) : skipFraction ('.' :: t) =
    if (t.takeWhile Char.isDigit).isEmpty then none else some (t.dropWhile Char.isDigit) := rfl

theorem skipFraction_of_head {t : Text} (h : t.head? ≠ some '.') : skipFraction t = some t := by
  unfold skipFraction
  split
  · exact absurd rfl h
  · rfl

theorem skipFraction_eq_some {t rest : Text} (h : skipFraction t = some rest) : ∃ f, t = f ++ rest ∧ Fraction f rest := by
  unfold skipFraction at h
  split at h
  · rename_i t
    split at h
    · cases h
    rename_i hne
    rw [Option.some.injEq] at h
    subst h
    refine ⟨'.' :: t.takeWhile Char.isDigit, ?_, .inr ⟨t.takeWhile Char.isDigit, rfl, ?_, ?_, ?_⟩⟩
    · rw [List.cons_append, List.takeWhile_append_dropWhile]
    · simpa using hne
    · exact fun c hc => List.all_eq_true.1 List.all_takeWhile c hc
    · intro c hc
      have hnot := List.head?_dropWhile_not Char.isDigit t
      rw [hc] at hnot
      simpa using hnot
  · rename_i hdot
    rw [Option.some.injEq] at h
    subst h
    refine ⟨[], rfl, .inl ⟨rfl, fun hhead => ?_⟩⟩
    exact hdot _ (List.eq_cons_of_mem_head? hhead)

/-- **An offset:** `Z`, or a sign with hours and minutes. -/
def IsOffset (z : Text) : Prop :=
  (∃ c, z = [c] ∧ c.toLower = 'z') ∨
    ∃ sign hh mm : Text, (sign = "+" ∨ sign = "-") ∧ z = sign ++ (hh ++ (":" ++ mm)) ∧ Digits 2 hh ∧ Digits 2 mm

theorem readOffset_eq_some {z : Text} {offset : Int} (h : readOffset z = some offset) : IsOffset z := by
  cases z with
  | nil => cases h
  | cons c t =>
    rw [readOffset] at h
    by_cases hz : c.toLower = 'z'
    · rw [if_pos hz] at h
      split at h
      · rename_i hempty
        rw [List.isEmpty_iff] at hempty
        exact .inl ⟨c, by rw [hempty], hz⟩
      · cases h
    rw [if_neg hz] at h
    by_cases hsign : c = '+' ∨ c = '-'
    · rw [if_pos hsign] at h
      simp only [Option.bind_eq_bind, Option.bind_eq_some_iff] at h
      obtain ⟨⟨hour, minute, rest⟩, hread, h⟩ := h
      obtain ⟨hh, mm, rfl, hhd, hmd⟩ := readHourMinute_eq_some hread
      split at h
      · rename_i hrest
        obtain rfl : rest = [] := by simp_all
        refine .inr ⟨[c], hh, mm, hsign.imp (fun hc => by rw [hc]; rfl) (fun hc => by rw [hc]; rfl), ?_, hhd, hmd⟩
        rw [List.append_nil]
        rfl
      · cases h
    · rw [if_neg hsign] at h
      cases h

/-- **The shape of what the calendar accepts.** -/
theorem shape_of_read? {t : Text} {d : DateTime} (h : DateTime.read? t = some d) :
    ∃ (year month day : Text) (mark : Char) (hh mm ss f z : Text),
    t = (year ++ ("-" ++ (month ++ ("-" ++ day)))) ++ (mark :: ((hh ++ (":" ++ (mm ++ (":" ++ (ss ++ f))))) ++ z)) ∧
      Digits 4 year ∧ Digits 2 month ∧ Digits 2 day ∧ mark.toLower = 't' ∧ Digits 2 hh ∧ Digits 2 mm ∧ Digits 2 ss ∧
      Fraction f z ∧ IsOffset z := by
  simp only [DateTime.read?, Option.bind_eq_bind, Option.bind_eq_some_iff] at h
  obtain ⟨⟨_, _⟩, hyear, _, hdash, ⟨_, _⟩, hmonth, _, hdash', ⟨_, _⟩, hday, _, hmark, ⟨_, _, _⟩, htime, _, hcolon,
    ⟨_, _⟩, hsecond, _, hfraction, _, hoffset, -⟩ := h
  obtain ⟨year, rfl, dyear⟩ := readDigits_eq_some hyear
  obtain rfl := readMark_sign (by decide) hdash
  obtain ⟨month, rfl, dmonth⟩ := readDigits_eq_some hmonth
  obtain rfl := readMark_sign (by decide) hdash'
  obtain ⟨day, rfl, dday⟩ := readDigits_eq_some hday
  obtain ⟨mark, rfl, lmark⟩ := readMark_eq_some hmark
  obtain ⟨hh, mm, rfl, dhh, dmm⟩ := readHourMinute_eq_some htime
  obtain rfl := readMark_sign (by decide) hcolon
  obtain ⟨ss, rfl, dss⟩ := readDigits_eq_some hsecond
  obtain ⟨f, rfl, hf⟩ := skipFraction_eq_some hfraction
  refine ⟨year, month, day, mark, hh, mm, ss, f, _, ?_, dyear, dmonth, dday, lmark, dhh, dmm, dss, hf,
    readOffset_eq_some hoffset⟩
  simp only [List.append_assoc]
  rfl

/-! ## What the rules take -/

section

variable {name : Text} {n : Nat} {es : List Expr} {pre w x post : Text} {d d' : UriCapture} {counter : Counter}

/-- The fields of a date-time, each with the number of its digits. -/
def digitRules : List (Text × Nat) :=
  [("date-fullyear", 4), ("date-month", 2), ("date-mday", 2), ("time-hour", 2), ("time-minute", 2), ("time-second", 2)]

theorem dateTime_digitRules : Rules.dateTime.take 6 = digitRules.map fun r => (r.1, Rules.digits r.2) := rfl

/-- **A rule of date-times,** by its place in their list. -/
theorem dateTime_rule (name : Text) (i : Nat) {body : Expr} (h : Rules.dateTime[i]? = some (name, body)) :
    (name, body) ∈ Rules.fields ++ Rules.dateTime := List.mem_append_right _ (List.mem_of_getElem? h)

theorem defines_dateTime (name : Text) (i : Nat) {body : Expr} (h : Rules.dateTime[i]? = some (name, body)) :
    (fieldLexicon counter).Defines name body none := defines_field (dateTime_rule name i h)

theorem mem_digitRules (h : (name, n) ∈ digitRules) : (name, Rules.digits n) ∈ Rules.dateTime := by
  have hmem := List.mem_map_of_mem (f := fun r : Text × Nat => (r.1, Rules.digits r.2)) h
  rw [← dateTime_digitRules] at hmem
  exact List.mem_of_mem_take hmem

/-- So many digits are counted alike by every counter. -/
theorem takes_number {D : Type} {l : Lexicon D} {d d' : D} (hdef : l.Defines name (Rules.digits n) none) (hn : n ≠ 0)
    (hholds : l.counter.Holds n) : l.Takes (.rnm name) pre x post d d' ↔ Digits n x ∧ d' = d := by
  have hmost : ∀ m, some n = some m → l.counter.Holds m := fun m hm => Option.some.inj hm ▸ hholds
  rw [takes_rnm hdef, Rules.digits, takes_rep_class_shown class_digit (by simpa using hn) hmost]
  constructor
  · rintro ⟨hdigits, hmin, hmax, -, rfl⟩
    exact ⟨⟨Nat.le_antisymm (hmax n rfl) (Nat.le_trans hmin (l.counter.shows_le _)), hdigits⟩, rfl⟩
  · rintro ⟨⟨rfl, hdigits⟩, rfl⟩
    exact ⟨hdigits, Nat.le_of_eq hholds.shows_eq.symm, fun m hm => Nat.le_of_eq (Option.some.inj hm), .inl rfl, rfl⟩

theorem takes_digits (h : (name, n) ∈ digitRules) :
    (fieldLexicon counter).Takes (.rnm name) pre x post d d' ↔ Digits n x ∧ d' = d := by
  have hbounds : ∀ r ∈ digitRules, r.2 ≠ 0 ∧ r.2 < 2 ^ 32 := by decide
  obtain ⟨hn, hlt⟩ := hbounds _ h
  refine takes_number (defines_field (List.mem_append_right _ (mem_digitRules h))) hn ?_
  rw [counter_fieldLexicon]
  exact Counter.holds_of_lt hlt

theorem takes_cat_digits (hrule : (name, n) ∈ digitRules) (hw : Digits n w)
    (h : fieldLexicon.Takes (.cat es) (pre ++ w) x post d d') :
    fieldLexicon.Takes (.cat (.rnm name :: es)) pre (w ++ x) post d d' :=
  takes_cat_cons.2 ⟨w, x, d, rfl, (takes_digits hrule).2 ⟨hw, rfl⟩, h⟩

/-- A sequence that ends with a field of digits. -/
theorem takes_cat_last (hrule : (name, n) ∈ digitRules) (hw : Digits n w) :
    fieldLexicon.Takes (.cat [.rnm name]) pre w post d d :=
  takes_cat_one.2 ((takes_digits hrule).2 ⟨hw, rfl⟩)

variable {year month day hh mm ss f z : Text} {mark : Char}

theorem takes_fullDate (hyear : Digits 4 year) (hmonth : Digits 2 month) (hday : Digits 2 day) :
    fieldLexicon.Takes (.rnm "full-date") pre (year ++ ("-" ++ (month ++ ("-" ++ day)))) post d d := by
  rw [takes_rnm (defines_dateTime "full-date" 10 rfl)]
  refine takes_cat_digits (by decide) hyear (takes_cat_tbs.2 ⟨_, rfl, ?_⟩)
  refine takes_cat_digits (by decide) hmonth (takes_cat_tbs.2 ⟨_, rfl, ?_⟩)
  exact takes_cat_last (by decide) hday

/-- The fraction is read if it is there, and not looked for where the offset stands. -/
theorem takes_fraction (hf : Fraction f post) : fieldLexicon.Takes (.opt (.rnm "time-secfrac")) pre f post d d := by
  have hdef : fieldLexicon.Defines "time-secfrac" _ none := defines_dateTime "time-secfrac" 6 rfl
  rcases hf with ⟨rfl, hdot⟩ | ⟨w, rfl, hne, hw, hpost⟩
  · by_cases hend : post = []
    · exact takes_opt.2 (.inl ⟨rfl, hend, rfl⟩)
    refine takes_opt.2 (.inr ⟨hend, .inr ⟨rfl, (refuses_rnm hdef).2 (refuses_cat_cons.2 (.inl (refuses_tbs.2 ⟨?_, rfl⟩)))⟩⟩)
    rintro ⟨rest, rfl⟩
    exact hdot rfl
  · refine takes_opt.2 (.inr ⟨by simp, .inl ((takes_rnm hdef).2 (takes_cat_tbs.2 ⟨w, rfl, ?_⟩))⟩)
    refine takes_cat_cons.2 ⟨w, [], d, (List.append_nil w).symm, ?_, takes_cat_nil.2 ⟨rfl, rfl⟩⟩
    exact (takes_plus_class class_digit).2 ⟨hne, hw, hpost, rfl⟩

theorem takes_partialTime (hhour : Digits 2 hh) (hminute : Digits 2 mm) (hsecond : Digits 2 ss) (hf : Fraction f post) :
    fieldLexicon.Takes (.rnm "partial-time") pre (hh ++ (":" ++ (mm ++ (":" ++ (ss ++ f))))) post d d := by
  rw [takes_rnm (defines_dateTime "partial-time" 9 rfl)]
  refine takes_cat_digits (by decide) hhour (takes_cat_tbs.2 ⟨_, rfl, ?_⟩)
  refine takes_cat_digits (by decide) hminute (takes_cat_tbs.2 ⟨_, rfl, ?_⟩)
  refine takes_cat_digits (by decide) hsecond ?_
  exact takes_cat_cons.2 ⟨f, [], d, (List.append_nil f).symm, takes_fraction hf, takes_cat_nil.2 ⟨rfl, rfl⟩⟩

theorem takes_numOffset {sign : Text} (hsign : sign = "+" ∨ sign = "-") (hhour : Digits 2 hh) (hminute : Digits 2 mm) :
    fieldLexicon.Takes (.rnm "time-numoffset") pre (sign ++ (hh ++ (":" ++ mm))) post d d := by
  rw [takes_rnm (defines_dateTime "time-numoffset" 7 rfl)]
  refine takes_cat_cons.2 ⟨sign, _, d, rfl, takes_alt_cons.2 ?_, ?_⟩
  · rcases hsign with rfl | rfl
    · exact .inl (takes_tbs.2 ⟨rfl, rfl⟩)
    · exact .inr ⟨d, refuses_tbs.2 ⟨by simp, rfl⟩, takes_alt_cons.2 (.inl (takes_tbs.2 ⟨rfl, rfl⟩))⟩
  · refine takes_cat_digits (by decide) hhour (takes_cat_tbs.2 ⟨_, rfl, ?_⟩)
    exact takes_cat_last (by decide) hminute

theorem takes_offset (hz : IsOffset z) : fieldLexicon.Takes (.rnm "time-offset") pre z post d d := by
  rw [takes_rnm (defines_dateTime "time-offset" 8 rfl), takes_alt_cons]
  rcases hz with ⟨c, rfl, hc⟩ | ⟨sign, hh, mm, hsign, rfl, hhour, hminute⟩
  · exact .inl (takes_tls.2 ⟨by simp [foldCase, hc], rfl⟩)
  · refine .inr ⟨d, refuses_tls.2 ⟨?_, rfl⟩, takes_alt_cons.2 (.inl (takes_numOffset hsign hhour hminute))⟩
    rcases hsign with rfl | rfl
    · simp [foldCase]
    · simp [foldCase]

/-- **A text of this shape the rules accept.** -/
theorem matches_of_shape (hyear : Digits 4 year) (hmonth : Digits 2 month) (hday : Digits 2 day) (hmark : mark.toLower = 't')
    (hhour : Digits 2 hh) (hminute : Digits 2 mm) (hsecond : Digits 2 ss) (hf : Fraction f z) (hz : IsOffset z) :
    matchesRule "date-time" ((year ++ ("-" ++ (month ++ ("-" ++ day)))) ++
      (mark :: ((hh ++ (":" ++ (mm ++ (":" ++ (ss ++ f))))) ++ z))) = .ok true := by
  rw [matches_field (dateTime_rule "date-time" 12 rfl)]
  refine ⟨.empty, takes_cat_cons.2 ⟨_, _, .empty, rfl, takes_fullDate hyear hmonth hday, ?_⟩⟩
  refine takes_cat_cons.2 ⟨[mark], _, .empty, rfl, takes_tls.2 ⟨by simp [foldCase, hmark], rfl⟩, ?_⟩
  refine takes_cat_cons.2 ⟨_, [], .empty, (List.append_nil _).symm, ?_, takes_cat_nil.2 ⟨rfl, rfl⟩⟩
  rw [takes_rnm (defines_dateTime "full-time" 11 rfl)]
  refine takes_cat_cons.2 ⟨_, z, .empty, rfl, takes_partialTime hhour hminute hsecond ?_, ?_⟩
  · rwa [List.append_nil, List.append_nil]
  · exact takes_cat_cons.2 ⟨z, [], .empty, (List.append_nil z).symm, takes_offset hz, takes_cat_nil.2 ⟨rfl, rfl⟩⟩

end

/-- **What is read as a date-time has the shape of one.** -/
theorem matches_of_read? {t : Text} {d : DateTime} (h : DateTime.read? t = some d) :
    matchesRule "date-time" t = .ok true := by
  obtain ⟨year, month, day, mark, hh, mm, ss, f, z, rfl, hyear, hmonth, hday, hmark, hhour, hminute, hsecond, hf, hz⟩ :=
    shape_of_read? h
  exact matches_of_shape hyear hmonth hday hmark hhour hminute hsecond hf hz

end SignIn
