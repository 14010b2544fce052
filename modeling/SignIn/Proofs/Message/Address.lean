import SignIn.Address
import SignIn.Proofs.Rules.Fields
/-!
# Spellings of an address

The checksummed spelling of an address is an address, and is its own checksummed spelling: the digits are hashed in lower
case, and the spelling differs from the address in the case of its letters only.
-/
namespace SignIn

theorem firstFailing_eq_none {ok : Char → Bool} {t : Text} : firstFailing ok t = none ↔ ∀ c ∈ t, ok c = true := by
  rw [firstFailing, List.find?_eq_none]
  constructor
  · intro h c hc
    obtain ⟨i, hi⟩ := List.getElem?_of_mem hc
    simpa using h (c, i) (by rw [List.mem_zipIdx_iff_getElem?]; exact hi)
  · rintro h ⟨c, i⟩ hc
    rw [List.mem_zipIdx_iff_getElem?] at hc
    simpa using h c (List.mem_of_getElem? hc)

theorem length_hexBytes (bs : List UInt8) : (hexBytes bs).length = 2 * bs.length := by
  induction bs with
  | nil => rfl
  | cons b bs ih =>
    rw [hexBytes, List.flatMap_cons, List.length_append, ← hexBytes, ih, List.length_cons]
    have hbyte : (hexByte b).length = 2 := rfl
    omega

/-- The hash that the case of digits is taken from. -/
def caseHash (lower : Text) : Text := hexBytes (Keccak.digest (lower.map fun c => c.toNat.toUInt8)).toList

theorem length_caseHash (lower : Text) : (caseHash lower).length = 64 := by
  rw [caseHash, length_hexBytes, Vector.length_toList]
  rfl

theorem toLower_hex {c : Char} (h : isHexDigit c = true) : isHexDigit c.toLower = true := by
  rw [isHexDigit_iff] at h ⊢
  rw [toNat_toLower]
  split <;> omega

theorem toLower_toUpper (c : Char) : c.toUpper.toLower = c.toLower := by
  rw [← Char.toNat_inj, toNat_toLower, toNat_toLower, toNat_toUpper]
  grind

theorem toLower_toLower (c : Char) : c.toLower.toLower = c.toLower := by
  rw [← Char.toNat_inj, toNat_toLower, toNat_toLower]
  grind

theorem foldCase_foldCase (t : Text) : foldCase (foldCase t) = foldCase t := by
  rw [foldCase, foldCase, List.map_map]
  exact List.map_congr_left fun c _ => toLower_toLower c

/-- **The spelling changes the case of letters only,** if the hash is long enough. -/
theorem foldCase_checksumCase : ∀ {digits hash : Text}, digits.length ≤ hash.length →
    foldCase (checksumCase digits hash) = foldCase digits
  | [], _, _ => rfl
  | c :: digits, [], h => by simp at h
  | c :: digits, g :: hash, h => by
    have ih := @foldCase_checksumCase digits hash (Nat.le_of_succ_le_succ h)
    have hc : (if c.isAlpha && decide (8 ≤ (hexValue? g).getD 0) then c.toUpper else c).toLower = c.toLower := by
      split
      · exact toLower_toUpper c
      · rfl
    rw [checksumCase, List.zipWith_cons_cons, foldCase, List.map_cons, hc, foldCase, List.map_cons]
    exact congrArg (c.toLower :: ·) ih

theorem hex_of_foldCase {s t : Text} (h : foldCase s = foldCase t) (ht : ∀ c ∈ t, isHexDigit c = true) :
    ∀ c ∈ s, isHexDigit c = true := by
  intro c hc
  have hmem : c.toLower ∈ foldCase t := by
    rw [← h]
    exact List.mem_map_of_mem hc
  obtain ⟨k, hk, heq⟩ := List.mem_map.1 hmem
  have hlow := (isHexDigit_iff _).1 (toLower_hex (ht k hk))
  rw [heq, toNat_toLower] at hlow
  rw [isHexDigit_iff]
  split at hlow <;> omega

/-- The checksummed digits. -/
def spelling (digits : Text) : Text := checksumCase (foldCase digits) (caseHash (foldCase digits))

theorem foldCase_spelling {digits : Text} (h : digits.length = 40) : foldCase (spelling digits) = foldCase digits := by
  have hlen : (foldCase digits).length ≤ (caseHash (foldCase digits)).length := by
    rw [length_caseHash, foldCase, List.length_map, h]
    decide
  rw [spelling, foldCase_checksumCase hlen, foldCase_foldCase]

theorem checksummed_eq_ok {a s : Text} : checksummed a = .ok s ↔
    ∃ digits, a = "0x" ++ digits ∧ digits.length = 40 ∧ (∀ c ∈ digits, isHexDigit c = true) ∧ s = "0x" ++ spelling digits := by
  constructor
  · intro h
    unfold checksummed at h
    split at h
    · cases h
    rename_i hlen
    split at h
    · rename_i digits
      split at h
      · cases h
      rename_i hhex
      rw [Except.ok.injEq] at h
      refine ⟨digits, rfl, ?_, firstFailing_eq_none.1 hhex, h.symm⟩
      simpa [addressLength] using hlen
    · cases h
  · rintro ⟨digits, rfl, hlen, hhex, rfl⟩
    have hlen' : ¬ ('0' :: 'x' :: digits).length ≠ addressLength := by simp [hlen, addressLength]
    show checksummed ('0' :: 'x' :: digits) = .ok _
    rw [checksummed, if_neg hlen']
    simp only [firstFailing_eq_none.2 hhex]
    rfl

/-- **A checksummed spelling is an address,** and its own checksummed spelling. -/
theorem checksummed_spelling {a s : Text} (h : checksummed a = .ok s) : IsAddress s ∧ checksummed s = .ok s := by
  obtain ⟨digits, rfl, hlen, hhex, rfl⟩ := checksummed_eq_ok.1 h
  have hfold := foldCase_spelling hlen
  have hlen' : (spelling digits).length = 40 := by
    have := congrArg List.length hfold
    rwa [foldCase, foldCase, List.length_map, List.length_map, hlen] at this
  have hhex' := hex_of_foldCase hfold hhex
  have hown : spelling (spelling digits) = spelling digits := by
    show checksumCase (foldCase (spelling digits)) (caseHash (foldCase (spelling digits))) = _
    rw [hfold, ← spelling]
  exact ⟨⟨spelling digits, rfl, hlen', hhex'⟩, checksummed_eq_ok.2 ⟨spelling digits, rfl, hlen', hhex', by rw [hown]⟩⟩

end SignIn
