import SignIn.Proofs.Json.Strings
import SignIn.Proofs.Message.Valid
/-!
# One casing of each address

Of all the ways to write the letters of an address, its checksum allows one (`checksummed_canonical`).  The hash is taken
of the digits in lower case, so it is the same for all of them, and each digit of the address has a digit of the hash at
its own place (`getElem?_caseHash`).  A text that is no address is blamed for the first thing that is wrong with it.
-/
namespace SignIn

/-- Two texts are the same up to the case of what follows their first two characters. -/
def SameAddress (a b : Text) : Prop := a.take 2 = b.take 2 ∧ foldCase (a.drop 2) = foldCase (b.drop 2)

/-- **What is wrong with a text that is no address:** its length, else its lead, else the first character after the lead that
is no digit. -/
def AddressError.Blames (a : Text) : AddressError → Prop
  | .invalidLength n => a.length = n ∧ n ≠ 42
  | .missingLead => a.length = 42 ∧ ¬ ("0x" : Text) <+: a
  | .invalidHexDigit found offset => a.length = 42 ∧ ("0x" : Text) <+: a ∧ 2 ≤ offset ∧ a[offset]? = some found ∧
      isHexDigit found = false ∧ ∀ i c, 2 ≤ i → i < offset → a[i]? = some c → isHexDigit c = true

/-- The hash of an address is that of its digits in lower case. -/
def addressHash (a : Text) : Vector UInt8 Keccak.digestLength :=
  Keccak.digest ((foldCase (a.drop 2)).map fun c => c.toNat.toUInt8)

/-- The half bytes of a hash, the high half of each byte first. -/
def nibble (hash : Vector UInt8 Keccak.digestLength) (i : Fin 64) : UInt8 :=
  have : i.val / 2 < Keccak.digestLength := by
    have := i.isLt
    simp only [Keccak.digestLength]
    omega
  if i.val % 2 = 0 then hash[i.val / 2] >>> 4 else hash[i.val / 2] &&& 0x0f

/-! ## The first thing that is wrong -/

theorem firstFailing_eq_some {ok : Char → Bool} {t : Text} {c : Char} {i : Nat} :
    firstFailing ok t = some (c, i) ↔
      t[i]? = some c ∧ ok c = false ∧ ∀ j d, j < i → t[j]? = some d → ok d = true := by
  rw [firstFailing, List.find?_eq_some_iff_getElem]
  simp only [List.getElem_zipIdx, List.length_zipIdx, Prod.mk.injEq, Nat.zero_add, Bool.not_eq_true', Bool.not_not]
  constructor
  · rintro ⟨hc, k, hk, ⟨rfl, rfl⟩, hbefore⟩
    refine ⟨List.getElem?_eq_getElem hk, hc, fun j d hj hd => ?_⟩
    obtain ⟨_, rfl⟩ := List.getElem?_eq_some_iff.1 hd
    exact hbefore j hj
  · rintro ⟨hc, hfails, hbefore⟩
    obtain ⟨hi, rfl⟩ := List.getElem?_eq_some_iff.1 hc
    exact ⟨hfails, i, hi, ⟨rfl, rfl⟩, fun j hj => hbefore j _ hj (List.getElem?_eq_getElem (Nat.lt_trans hj hi))⟩

theorem checksummed_of_length {a : Text} (h : a.length ≠ 42) : checksummed a = .error (.invalidLength a.length) := if_pos h

theorem checksummed_of_lead {a : Text} (hlen : a.length = 42) (hlead : ¬ ("0x" : Text) <+: a) :
    checksummed a = .error .missingLead := by
  unfold checksummed
  rw [if_neg (not_not_intro (show a.length = addressLength from hlen))]
  split
  · rename_i digits
    exact absurd ⟨digits, rfl⟩ hlead
  · rfl

theorem checksummed_of_digit {digits : Text} {c : Char} {i : Nat} (hlen : ("0x" ++ digits : Text).length = 42)
    (h : firstFailing isHexDigit digits = some (c, i)) :
    checksummed ("0x" ++ digits) = .error (.invalidHexDigit c (i + 2)) := by
  show checksummed ('0' :: 'x' :: digits) = _
  unfold checksummed
  rw [if_neg (not_not_intro (show ('0' :: 'x' :: digits).length = addressLength from hlen))]
  simp only [h]

theorem error_of_blames {a : Text} : ∀ {e : AddressError}, e.Blames a → checksummed a = .error e
  | .invalidLength n, ⟨hlen, hn⟩ => hlen ▸ checksummed_of_length (hlen ▸ hn)
  | .missingLead, ⟨hlen, hlead⟩ => checksummed_of_lead hlen hlead
  | .invalidHexDigit found offset, ⟨hlen, ⟨digits, hdigits⟩, hoff, hfound, hfails, hbefore⟩ => by
    subst hdigits
    obtain ⟨i, rfl⟩ := Nat.exists_eq_add_of_le' hoff
    refine checksummed_of_digit hlen (firstFailing_eq_some.2 ⟨hfound, hfails, fun j d hj hd => ?_⟩)
    exact hbefore (j + 2) d (Nat.le_add_left 2 j) (Nat.add_lt_add_right hj 2) hd

theorem blames_of_error {a : Text} {e : AddressError} (h : checksummed a = .error e) : e.Blames a := by
  by_cases hlen : a.length = 42
  case neg =>
    rw [checksummed_of_length hlen] at h
    cases h
    exact ⟨rfl, hlen⟩
  by_cases hlead : ("0x" : Text) <+: a
  case neg =>
    rw [checksummed_of_lead hlen hlead] at h
    cases h
    exact ⟨hlen, hlead⟩
  obtain ⟨digits, rfl⟩ := hlead
  cases hfirst : firstFailing isHexDigit digits with
  | none =>
    have hdigits : digits.length = 40 := by simpa using hlen
    rw [checksummed_eq_ok.2 ⟨digits, rfl, hdigits, firstFailing_eq_none.1 hfirst, rfl⟩] at h
    cases h
  | some p =>
    obtain ⟨c, i⟩ := p
    rw [checksummed_of_digit hlen hfirst] at h
    cases h
    obtain ⟨hfound, hfails, hbefore⟩ := firstFailing_eq_some.1 hfirst
    refine ⟨hlen, List.prefix_append _ _, Nat.le_add_left 2 i, hfound, hfails, fun j d hj hlt hd => ?_⟩
    obtain ⟨k, rfl⟩ := Nat.exists_eq_add_of_le' hj
    exact hbefore k d (Nat.lt_of_add_lt_add_right hlt) hd

/-! ## The hash at the place of a digit -/

theorem getElem?_hexBytes : ∀ (bytes : List UInt8) (i : Nat), (hexBytes bytes)[i]? =
    bytes[i / 2]?.map fun b => Nat.digitChar (if i % 2 = 0 then b.toNat / 16 else b.toNat % 16)
  | [], _ => rfl
  | _ :: _, 0 => rfl
  | _ :: _, 1 => rfl
  | b :: bs, i + 2 => by
    have hrest : hexBytes (b :: bs) = hexByte b ++ hexBytes bs := List.flatMap_cons
    have hhalf : (i + 2) / 2 = i / 2 + 1 := by omega
    rw [hrest, hexByte, List.cons_append, List.cons_append, List.nil_append, List.getElem?_cons_succ, List.getElem?_cons_succ,
      getElem?_hexBytes bs i, hhalf, List.getElem?_cons_succ, Nat.add_mod_right]

theorem nibble_toNat (hash : Vector UInt8 Keccak.digestLength) (i : Fin 64) {b : UInt8}
    (hb : hash.toList[i.val / 2]? = some b) :
    (nibble hash i).toNat = if i.val % 2 = 0 then b.toNat / 16 else b.toNat % 16 := by
  obtain ⟨hlt, rfl⟩ := List.getElem?_eq_some_iff.1 hb
  unfold nibble
  split
  · rw [UInt8.toNat_shiftRight, Vector.getElem_toList, show (4 : UInt8).toNat % 8 = 4 from rfl, Nat.shiftRight_eq_div_pow]
  · rw [UInt8.toNat_and, Vector.getElem_toList]
    exact Nat.and_two_pow_sub_one_eq_mod _ 4

/-- **The hash has a digit for each digit of the address:** half a byte at the same place. -/
theorem getElem?_caseHash (lower : Text) (i : Fin 64) : ∃ h, (caseHash lower)[i.val]? = some h ∧
    hexValue? h = some (nibble (Keccak.digest (lower.map fun c => c.toNat.toUInt8)) i).toNat := by
  have hlt : i.val / 2 < (Keccak.digest (lower.map fun c => c.toNat.toUInt8)).toList.length := by
    have := i.isLt
    rw [Vector.length_toList, Keccak.digestLength]
    omega
  have hb := List.getElem?_eq_getElem hlt
  rw [caseHash, getElem?_hexBytes, hb, Option.map_some]
  refine ⟨_, rfl, ?_⟩
  rw [nibble_toNat _ i hb, Json.hexValue?_digitChar]
  have := UInt8.toNat_lt (Keccak.digest (lower.map fun c => c.toNat.toUInt8)).toList[i.val / 2]
  split <;> omega

theorem toUpper_toLower (c : Char) : c.toLower.toUpper = c.toUpper := by
  rw [← Char.toNat_inj, toNat_toUpper, toNat_toUpper, toNat_toLower]
  grind

theorem toUpper_eq_self {c : Char} (h : c.isAlpha = false) : c.toUpper = c := by
  rw [← Bool.not_eq_true, isAlpha_iff] at h
  rw [← Char.toNat_inj, toNat_toUpper]
  split <;> omega

/-- **A letter is a capital where the hash has 8 or more,** and small elsewhere. -/
theorem getElem?_spelling {digits : Text} {i : Fin 64} : (spelling digits)[i.val]? = digits[i.val]?.map fun c =>
    if 8 ≤ nibble (Keccak.digest ((foldCase digits).map fun c => c.toNat.toUInt8)) i then c.toUpper else c.toLower := by
  obtain ⟨h, hh, hvalue⟩ := getElem?_caseHash (foldCase digits) i
  generalize nibble (Keccak.digest ((foldCase digits).map fun c => c.toNat.toUInt8)) i = n at hvalue
  rw [spelling, checksumCase, List.getElem?_zipWith, hh, foldCase, List.getElem?_map]
  cases digits[i.val]? with
  | none => rfl
  | some c =>
    simp only [Option.map_some, hvalue, Option.getD_some, toUpper_toLower, UInt8.le_iff_toNat_le]
    cases halpha : c.toLower.isAlpha with
    | true => simp
    | false =>
      have hsame : c.toUpper = c.toLower := by rw [← toUpper_toLower, toUpper_eq_self halpha]
      simp [hsame]

/-! ## The one casing -/

theorem sameAddress_elim {a' digits : Text} (h : SameAddress a' ("0x" ++ digits)) :
    a' = "0x" ++ a'.drop 2 ∧ foldCase (a'.drop 2) = foldCase digits := by
  obtain ⟨hlead, hfold⟩ := h
  have hlead' : a'.take 2 = ("0x" : Text) := hlead
  refine ⟨?_, hfold⟩
  rw [← hlead', List.take_append_drop]

/-- **All casings of an address have one checksummed spelling.** -/
theorem checksummed_of_same {a a' b : Text} (hsame : SameAddress a' a) (h : checksummed a = .ok b) :
    checksummed a' = .ok b := by
  obtain ⟨digits, rfl, hlen, hhex, rfl⟩ := checksummed_eq_ok.1 h
  obtain ⟨hlead, hfold⟩ := sameAddress_elim hsame
  refine checksummed_eq_ok.2 ⟨a'.drop 2, hlead, ?_, hex_of_foldCase hfold hhex, ?_⟩
  · have := congrArg List.length hfold
    rwa [foldCase, foldCase, List.length_map, List.length_map, hlen] at this
  · rw [spelling, spelling, hfold]

theorem sameAddress_of_checksummed {a b : Text} (h : checksummed a = .ok b) : SameAddress b a := by
  obtain ⟨digits, rfl, hlen, -, rfl⟩ := checksummed_eq_ok.1 h
  exact ⟨rfl, foldCase_spelling hlen⟩

theorem foldCase_of_same {a b : Text} (h : SameAddress a b) : foldCase a = foldCase b := by
  rw [← List.take_append_drop 2 a, ← List.take_append_drop 2 b, foldCase, foldCase, List.map_append, List.map_append, h.1]
  exact congrArg _ h.2

/-- **The checksum is a canonical casing.**  It is found for addresses only, and any other text is blamed for the first thing
wrong with it.  The spelling found for an address differs from it in the case of letters only, is its own spelling and
that of every casing of the address, and follows the rule of the checksum; so of all casings one is accepted. -/
theorem checksummed_canonical (a : Text) :
    ((∃ b, checksummed a = .ok b) ↔ IsAddress a) ∧
    (∀ e, checksummed a = .error e ↔ e.Blames a) ∧
    (∀ b, checksummed a = .ok b →
      foldCase b = foldCase a ∧ ("0x" : Text) <+: b ∧ checksummed b = .ok b ∧ isChecksummed b = true ∧
      (∀ a', SameAddress a' a → checksummed a' = .ok b) ∧
      (isChecksummed a = true ↔ a = b) ∧
      ∀ i : Fin 40, b[i.val + 2]? = a[i.val + 2]?.map fun c =>
        if 8 ≤ nibble (addressHash a) (i.castLE (by decide)) then c.toUpper else c.toLower) ∧
    (IsAddress a → ∃! c, SameAddress c a ∧ isChecksummed c = true) := by
  have hfound : IsAddress a → ∃ b, checksummed a = .ok b := fun ⟨digits, hdigits, hlen, hhex⟩ =>
    ⟨_, checksummed_eq_ok.2 ⟨digits, hdigits, hlen, hhex, rfl⟩⟩
  refine ⟨⟨?_, hfound⟩, fun e => ⟨blames_of_error, error_of_blames⟩, fun b hb => ?_, fun ha => ?_⟩
  · rintro ⟨b, hb⟩
    obtain ⟨digits, hdigits, hlen, hhex, -⟩ := checksummed_eq_ok.1 hb
    exact ⟨digits, hdigits, hlen, hhex⟩
  · have hown := (checksummed_spelling hb).2
    refine ⟨foldCase_of_same (sameAddress_of_checksummed hb), ?_, hown, Capture.isChecksummed_iff.2 hown,
      fun a' h => checksummed_of_same h hb, ?_, fun i => ?_⟩
    · obtain ⟨digits, -, -, -, rfl⟩ := checksummed_eq_ok.1 hb
      exact List.prefix_append _ _
    · rw [Capture.isChecksummed_iff, hb, Except.ok.injEq, eq_comm]
    · obtain ⟨digits, rfl, -, -, rfl⟩ := checksummed_eq_ok.1 hb
      exact @getElem?_spelling digits (i.castLE (by decide))
  · obtain ⟨b, hb⟩ := hfound ha
    refine ⟨b, ⟨sameAddress_of_checksummed hb, Capture.isChecksummed_iff.2 (checksummed_spelling hb).2⟩, ?_⟩
    rintro c ⟨hsame, hc⟩
    exact Except.ok.inj ((Capture.isChecksummed_iff.1 hc).symm.trans (checksummed_of_same hsame hb))

/-- Two casings of an address have one spelling, and it is that of one of all its casings. -/
theorem checksummed_canonical_letters :
    ∃ b, checksummed "0xfb6916095ca1df60bb79ce92ce3ea74c37c5d359" = .ok b ∧
      checksummed "0xFB6916095CA1DF60BB79CE92CE3EA74C37C5D359" = .ok b ∧
      ∃! c, SameAddress c "0xfb6916095ca1df60bb79ce92ce3ea74c37c5d359" ∧ isChecksummed c = true := by
  have haddress : IsAddress "0xfb6916095ca1df60bb79ce92ce3ea74c37c5d359" :=
    ⟨"fb6916095ca1df60bb79ce92ce3ea74c37c5d359", rfl, rfl, List.all_eq_true.1 (by decide)⟩
  have hsame : SameAddress "0xFB6916095CA1DF60BB79CE92CE3EA74C37C5D359" "0xfb6916095ca1df60bb79ce92ce3ea74c37c5d359" :=
    ⟨by decide +kernel, by decide +kernel⟩
  obtain ⟨hfound, -, hspelling, hone⟩ := checksummed_canonical "0xfb6916095ca1df60bb79ce92ce3ea74c37c5d359"
  obtain ⟨b, hb⟩ := hfound.2 haddress
  exact ⟨b, hb, (hspelling b hb).2.2.2.2.1 _ hsame, hone haddress⟩

end SignIn
