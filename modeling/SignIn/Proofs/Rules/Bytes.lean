import SignIn.Proofs.Rules.DateTime
/-!
# Date-times byte by byte

The calendar reads bytes at their places, and the rules read characters one after another.  Bytes taken as characters are
read to the same date-time (`read?_byteChars`).  The characters of a date-time are ASCII and are their own bytes, and of a
character that is not, every byte lies beyond ASCII and is none that a date-time has.  So a text is read the same by its
bytes and by its characters, whatever characters it has (`parse?_eq`).
-/
namespace SignIn

/-- Bytes taken as characters. -/
def byteChars (bytes : List UInt8) : Text := bytes.map Char.ofUInt8

variable {b : UInt8} {bytes : List UInt8} {c : Char} {t : Text}

/-! ## Single bytes -/

theorem toNat_ofUInt8 (b : UInt8) : (Char.ofUInt8 b).toNat = b.toNat := UInt8.toNat_toUInt32 b

theorem toNat_toUInt8 (hc : c.toNat < 256) : c.toUInt8.toNat = c.toNat := by
  show c.val.toUInt8.toNat = c.toNat
  rw [UInt32.toNat_toUInt8]
  exact Nat.mod_eq_of_lt hc

theorem ofUInt8_eq_iff (hc : c.toNat < 256) : Char.ofUInt8 b = c ↔ b = c.toUInt8 := by
  rw [← Char.toNat_inj, toNat_ofUInt8, ← UInt8.toNat_inj, toNat_toUInt8 hc]

theorem isDigit_ofUInt8 (b : UInt8) : (Char.ofUInt8 b).isDigit = isDigitByte b := by
  rw [Bool.eq_iff_iff, isDigit_iff, toNat_ofUInt8]
  simp [isDigitByte, UInt8.le_iff_toNat_le]
  rfl

theorem toLower_ofUInt8 (b : UInt8) : (Char.ofUInt8 b).toLower = Char.ofUInt8 (lowerByte b) := by
  rw [← Char.toNat_inj, toNat_toLower, toNat_ofUInt8, toNat_ofUInt8, lowerByte]
  have hA : ('A' : Char).toUInt8.toNat = 65 := rfl
  have hZ : ('Z' : Char).toUInt8.toNat = 90 := rfl
  simp only [UInt8.le_iff_toNat_le, hA, hZ]
  split
  · rw [UInt8.toNat_add, show (32 : UInt8).toNat = 32 from rfl]
    omega
  · rfl

/-- **A number has the same digits as bytes and as characters.** -/
theorem foldlM_addDigit : ∀ (window : List UInt8) (value : Nat), window.foldlM addDigit value =
    if (byteChars window).all Char.isDigit then some (Nat.ofDigitChars 10 (byteChars window) value) else none
  | [], value => rfl
  | b :: window, value => by
    have hvalue : isDigitByte b = true → (b - '0'.toUInt8).toNat = (Char.ofUInt8 b).toNat - '0'.toNat := by
      intro hb
      rw [← isDigit_ofUInt8, isDigit_iff, toNat_ofUInt8] at hb
      rw [toNat_ofUInt8, UInt8.toNat_sub, show ('0' : Char).toUInt8.toNat = 48 from rfl,
        show ('0' : Char).toNat = 48 from rfl]
      omega
    rw [List.foldlM_cons, addDigit, byteChars, List.map_cons, List.all_cons, isDigit_ofUInt8]
    by_cases hb : isDigitByte b = true
    · rw [if_pos hb, hb, Bool.true_and, hvalue hb]
      exact foldlM_addDigit window _
    · rw [if_neg hb, Bool.eq_false_iff.2 hb]
      rfl

/-! ## Fields at their places -/

section

variable {place : Nat}

/-- What stands at a place, and what after it. -/
theorem drop_byteChars : (byteChars bytes).drop place =
    bytes[place]?.elim [] fun b => Char.ofUInt8 b :: (byteChars bytes).drop (place + 1) := by
  cases hb : bytes[place]? with
  | none =>
    refine List.drop_eq_nil_of_le ?_
    rw [byteChars, List.length_map]
    exact List.getElem?_eq_none_iff.1 hb
  | some b =>
    obtain ⟨hlt, rfl⟩ := List.getElem?_eq_some_iff.1 hb
    rw [List.drop_eq_getElem_cons (by rwa [byteChars, List.length_map])]
    simp [byteChars]

theorem readDigits_byteChars {n : Nat} (hn : n ≠ 0) : readDigits n ((byteChars bytes).drop place) =
    (digitsAt bytes place n).map fun v => (v, (byteChars bytes).drop (place + n)) := by
  have hwindow : ((byteChars bytes).drop place).take n = byteChars ((bytes.drop place).take n) := by
    rw [byteChars, byteChars, List.map_take, List.map_drop]
  have hlen : (byteChars ((bytes.drop place).take n)).length = n ↔ place + n ≤ bytes.length := by
    rw [byteChars, List.length_map, List.length_take, List.length_drop]
    omega
  simp only [readDigits, digitsAt, foldlM_addDigit, hwindow, List.drop_drop, hlen]
  by_cases hfit : place + n ≤ bytes.length
  · by_cases hall : (byteChars ((bytes.drop place).take n)).all Char.isDigit = true
    · rw [if_pos ⟨hfit, hall⟩, if_pos hfit, if_pos hall]
      rfl
    · rw [if_neg fun h => hall h.2, if_pos hfit, if_neg hall]
      rfl
  · rw [if_neg fun h => hfit h.1, if_neg hfit]
    rfl

theorem readMark_byteChars {mark : Char} (hmark : mark.isAlpha = false) (hlt : mark.toNat < 256) :
    readMark mark ((byteChars bytes).drop place) =
      (markAt bytes place mark).map fun _ => (byteChars bytes).drop (place + 1) := by
  rw [drop_byteChars, markAt]
  cases bytes[place]? with
  | none => rfl
  | some b =>
    have hsame : (Char.ofUInt8 b).toLower = mark.toLower ↔ b = mark.toUInt8 := by
      rw [(toLower_eq_iff hmark).2 rfl, toLower_eq_iff hmark, ofUInt8_eq_iff hlt]
    simp only [Option.elim_some, readMark, hsame, Option.some.injEq]
    split <;> rfl

theorem readLetter_byteChars : readMark 'T' ((byteChars bytes).drop place) =
    (letterAt bytes place 't').map fun _ => (byteChars bytes).drop (place + 1) := by
  rw [drop_byteChars, letterAt]
  cases bytes[place]? with
  | none => rfl
  | some b =>
    have hsame : (Char.ofUInt8 b).toLower = ('T' : Char).toLower ↔ lowerByte b = 't'.toUInt8 := by
      rw [toLower_ofUInt8, show ('T' : Char).toLower = 't' by decide, ofUInt8_eq_iff (by decide)]
    simp only [Option.elim_some, readMark, hsame, Option.map_some, Option.some.injEq]
    split <;> rfl

theorem skipFraction_byteChars :
    skipFraction ((byteChars bytes).drop place) = (fractionEnd bytes place).map (byteChars bytes).drop := by
  have hdigits : ∀ l : List UInt8, (byteChars l).takeWhile Char.isDigit = byteChars (l.takeWhile isDigitByte) := by
    intro l
    rw [byteChars, List.takeWhile_map, show Char.isDigit ∘ Char.ofUInt8 = isDigitByte from funext isDigit_ofUInt8]
    rfl
  rw [fractionEnd]
  by_cases hpoint : bytes[place]? = some '.'.toUInt8
  · have hnext : (byteChars bytes).drop (place + 1) = byteChars (bytes.drop (place + 1)) := by
      rw [byteChars, byteChars, List.map_drop]
    have hrest : ∀ l : Text, l.dropWhile Char.isDigit = l.drop (l.takeWhile Char.isDigit).length :=
      fun l => (List.drop_left' rfl).symm.trans (by rw [List.takeWhile_append_dropWhile])
    rw [drop_byteChars, if_pos hpoint, hpoint, Option.elim_some, show Char.ofUInt8 '.'.toUInt8 = '.' by decide,
      skipFraction_point, hrest, hnext, hdigits, ← hnext, List.drop_drop, byteChars, List.length_map]
    cases (bytes.drop (place + 1)).takeWhile isDigitByte with
    | nil => rfl
    | cons b l => rfl
  · rw [if_neg hpoint]
    refine skipFraction_of_head fun hhead => hpoint ?_
    rw [drop_byteChars] at hhead
    cases hb : bytes[place]? with
    | none =>
      rw [hb] at hhead
      cases hhead
    | some b =>
      rw [hb, Option.elim_some, List.head?_cons, Option.some.injEq, ofUInt8_eq_iff (by decide)] at hhead
      rw [hhead]

theorem readHourMinute_byteChars : readHourMinute ((byteChars bytes).drop place) =
    (do let hours ← digitsAt bytes place 2
        markAt bytes (place + 2) ':'
        let minutes ← digitsAt bytes (place + 3) 2
        return (hours, minutes, (byteChars bytes).drop (place + 5))) := by
  have htwo : (2 : Nat) ≠ 0 := by decide
  have hcolon : ∀ place, readMark ':' ((byteChars bytes).drop place) = _ :=
    fun place => readMark_byteChars (by decide) (by decide)
  simp only [readHourMinute, readDigits_byteChars htwo, hcolon, Option.bind_eq_bind, Option.bind_map, Function.comp_def,
    Option.pure_def]

end

theorem readOffset_byteChars (bytes : List UInt8) : readOffset (byteChars bytes) = offsetOf bytes := by
  cases bytes with
  | nil => rfl
  | cons sign rest =>
    have hz : (Char.ofUInt8 sign).toLower = 'z' ↔ lowerByte sign = 'z'.toUInt8 := by
      rw [toLower_ofUInt8, ofUInt8_eq_iff (by decide)]
    have hplus : Char.ofUInt8 sign = '+' ↔ sign = '+'.toUInt8 := ofUInt8_eq_iff (by decide)
    have hminus : Char.ofUInt8 sign = '-' ↔ sign = '-'.toUInt8 := ofUInt8_eq_iff (by decide)
    have hread := @readHourMinute_byteChars rest 0
    rw [List.drop_zero] at hread
    rw [byteChars, List.map_cons, ← byteChars, readOffset, offsetOf, hread]
    simp only [hz, hplus, hminus]
    by_cases hzone : lowerByte sign = 'z'.toUInt8
    · have hsign : ¬ (sign = '+'.toUInt8 ∨ sign = '-'.toUInt8) := by
        rintro (rfl | rfl)
        · exact absurd hzone (by decide)
        · exact absurd hzone (by decide)
      simp only [hzone, hsign, if_true, if_false, true_and, false_and]
      cases rest with
      | nil => rfl
      | cons b rest => rfl
    simp only [hzone, if_false, false_and]
    by_cases hsign : sign = '+'.toUInt8 ∨ sign = '-'.toUInt8
    · have hlen : ((byteChars rest).drop 5).isEmpty = true ↔ rest.length ≤ 5 := by
        rw [List.isEmpty_iff, List.drop_eq_nil_iff, byteChars, List.length_map]
      have hlast : ∀ v, digitsAt rest 3 2 = some v → 5 ≤ rest.length := by
        intro v hv
        rw [digitsAt] at hv
        exact (Option.ite_none_right_eq_some.1 hv).1
      simp only [hsign, if_true, true_and]
      by_cases hfive : rest.length = 5
      · have hend : ((byteChars rest).drop 5).isEmpty = true := hlen.2 (Nat.le_of_eq hfive)
        simp only [hfive, if_true, Option.bind_eq_bind, Option.bind_assoc, Option.bind_some, Option.pure_def, hend,
          Bool.and_eq_true, decide_eq_true_eq, true_and, Nat.reduceAdd]
      · rw [if_neg hfive]
        refine Option.eq_none_iff_forall_not_mem.2 fun offset hoffset => ?_
        simp only [Option.mem_def, Option.bind_eq_bind, Option.bind_eq_some_iff, Option.pure_def,
          Option.some.injEq] at hoffset
        obtain ⟨_, ⟨_, _, _, _, minutes, hminutes, rfl⟩, hvalue⟩ := hoffset
        have hend := (Option.ite_none_right_eq_some.1 hvalue).1
        rw [Bool.and_eq_true, Bool.and_eq_true] at hend
        exact hfive (Nat.le_antisymm (hlen.1 hend.1.1) (hlast _ hminutes))
    · simp only [hsign, if_false, false_and]

/-- No date-time is shorter than 20 characters. -/
theorem length_of_read? {d : DateTime} (h : DateTime.read? t = some d) : 20 ≤ t.length := by
  obtain ⟨year, month, day, mark, hh, mm, ss, f, z, rfl, hyear, hmonth, hday, -, hhour, hminute, hsecond, -, hz⟩ :=
    shape_of_read? h
  have hzone : 1 ≤ z.length := by
    rcases hz with ⟨c, rfl, -⟩ | ⟨sign, _, _, rfl | rfl, rfl, -, -⟩ <;> simp
  simp only [List.length_append, List.length_cons, hyear.1, hmonth.1, hday.1, hhour.1, hminute.1, hsecond.1]
  simp
  omega

/-- **Bytes taken as characters are read to the same date-time.** -/
theorem read?_byteChars (bytes : List UInt8) : DateTime.read? (byteChars bytes) = DateTime.ofBytes? bytes := by
  by_cases hshort : bytes.length < 20
  · rw [DateTime.ofBytes?, if_pos hshort]
    refine Option.eq_none_iff_forall_not_mem.2 fun d hd => absurd hshort (Nat.not_lt.2 ?_)
    have hlen := length_of_read? hd
    rwa [byteChars, List.length_map] at hlen
  have htwo : (2 : Nat) ≠ 0 := by decide
  have hfour : (4 : Nat) ≠ 0 := by decide
  have hdash : ∀ place, readMark '-' ((byteChars bytes).drop place) = _ :=
    fun place => readMark_byteChars (by decide) (by decide)
  have hcolon : ∀ place, readMark ':' ((byteChars bytes).drop place) = _ :=
    fun place => readMark_byteChars (by decide) (by decide)
  have hoffset : ∀ place, readOffset ((byteChars bytes).drop place) = offsetOf (bytes.drop place) := by
    intro place
    rw [← readOffset_byteChars, byteChars, byteChars, List.map_drop]
  rw [DateTime.ofBytes?, if_neg hshort, ← List.drop_zero (l := byteChars bytes)]
  simp only [DateTime.read?, readDigits_byteChars htwo, readDigits_byteChars hfour, hdash, hcolon, readLetter_byteChars,
    readHourMinute_byteChars, skipFraction_byteChars, hoffset, Option.bind_eq_bind, Option.bind_map, Function.comp_def,
    Option.bind_assoc, Option.bind_some, Option.pure_def, Nat.reduceAdd]

/-! ## The bytes of a text -/

/-- A date-time has characters of ASCII only. -/
theorem ascii_of_read? {d : DateTime} (h : DateTime.read? t = some d) : ∀ c ∈ t, c.toNat ≤ 127 :=
  fun c hc => (dateTime_characters (matches_of_read? h) c hc).1

/-- **Characters of ASCII are their own bytes.** -/
theorem byteChars_ascii : ∀ {t : Text}, (∀ c ∈ t, c.toNat ≤ 127) → byteChars (t.flatMap String.utf8EncodeChar) = t
  | [], _ => rfl
  | c :: t, h => by
    rw [List.forall_mem_cons] at h
    have hc : String.utf8EncodeChar c = [UInt8.ofNat c.toNat] := if_pos h.1
    have hchar : Char.ofUInt8 (UInt8.ofNat c.toNat) = c := by
      have := h.1
      rw [← Char.toNat_inj, toNat_ofUInt8, UInt8.toNat_ofNat']
      omega
    have ih := byteChars_ascii h.2
    rw [List.flatMap_cons, hc, List.singleton_append, byteChars, List.map_cons, hchar]
    exact congrArg (c :: ·) ih

/-- Of a character beyond ASCII no byte is ASCII. -/
theorem not_ascii_bytes (hc : c ∈ t) (hhigh : ¬ c.toNat ≤ 127) :
    ∃ k ∈ byteChars (t.flatMap String.utf8EncodeChar), ¬ k.toNat ≤ 127 := by
  obtain ⟨b, hb, hbhigh⟩ : ∃ b ∈ String.utf8EncodeChar c, 127 < b.toNat := by
    -- the last byte is one, however many there are
    refine ⟨UInt8.ofNat (c.toNat % 64 + 128), ?_, ?_⟩
    · rw [String.utf8EncodeChar, Char.toNat_val, if_neg hhigh]
      split
      · simp
      · split <;> simp
    · rw [UInt8.toNat_ofNat']
      omega
  refine ⟨Char.ofUInt8 b, List.mem_map_of_mem (List.mem_flatMap.2 ⟨c, hc, hb⟩), ?_⟩
  rw [toNat_ofUInt8]
  omega

/-- **A text is read the same by its bytes and by its characters.** -/
theorem parse?_eq (t : Text) : DateTime.parse? t = DateTime.read? t := by
  rw [DateTime.parse?, ← read?_byteChars]
  by_cases hascii : ∀ c ∈ t, c.toNat ≤ 127
  · rw [byteChars_ascii hascii]
  · -- neither reading gets to the end
    simp only [not_forall] at hascii
    obtain ⟨c, hc, hhigh⟩ := hascii
    obtain ⟨k, hk, hhigh'⟩ := not_ascii_bytes hc hhigh
    have hbytes : DateTime.read? (byteChars (t.flatMap String.utf8EncodeChar)) = none :=
      Option.eq_none_iff_forall_not_mem.2 fun d hd => hhigh' (ascii_of_read? hd k hk)
    have hchars : DateTime.read? t = none := Option.eq_none_iff_forall_not_mem.2 fun d hd => hhigh (ascii_of_read? hd c hc)
    rw [hbytes, hchars]

/-- **What the calendar accepts has the shape of a date-time.** -/
theorem matches_dateTime (h : isDateTime t = true) : matchesRule "date-time" t = .ok true := by
  rw [isDateTime, parse?_eq] at h
  obtain ⟨d, hd⟩ := Option.isSome_iff_exists.1 h
  exact matches_of_read? hd

end SignIn
