import SignIn.Proofs.Expr.Recognizes
import SignIn.Proofs.Rules.Fields
/-!
# The language of URIs

The productions of RFC 3986 as languages: `+` chooses freely, `*` joins, `∗` repeats, and nothing is ordered or greedy.
Two productions say more than the RFC's text does.  An IPv6 address is what the rule of that name accepts by itself, and
a port is a number of 64 bits.

Below them stands what tells their words apart: with which characters they begin, and which they never have.
-/
namespace SignIn
namespace Production

open Computability

/-! ## Characters -/

def alpha : Language Char := oneOf (·.isAlpha = true)

def digit : Language Char := oneOf (·.isDigit = true)

def hexDigit : Language Char := oneOf (isHexDigit · = true)

def unreserved : Language Char := oneOf IsUnreserved

def subDelims : Language Char := oneOf IsSubDelim

def pctEncoded : Language Char := word ['%'] * hexDigit * hexDigit

def pchar : Language Char := unreserved + pctEncoded + subDelims + word [':'] + word ['@']

/-! ## Paths -/

def segment : Language Char := pchar∗

def segmentNz : Language Char := pchar * pchar∗

/-- Any number of segments, each after a slash. -/
def segments : Language Char := (word ['/'] * segment)∗

def pathAbempty : Language Char := segments

def pathAbsolute : Language Char := word ['/'] * optional (segmentNz * segments)

def pathRootless : Language Char := segmentNz * segments

def pathEmpty : Language Char := 1

/-! ## Authorities -/

def userinfo : Language Char := (unreserved + pctEncoded + subDelims + word [':'])∗

def regName : Language Char := (unreserved + pctEncoded + subDelims)∗

/-- A digit from one to another. -/
def digitIn (lo hi : Char) : Language Char := oneOf fun c => lo ≤ c ∧ c ≤ hi

/-- The numbers up to 255, without leading zeros. -/
def decOctet : Language Char :=
  digit + digitIn '1' '9' * digit + word ['1'] * digit * digit + word ['2'] * digitIn '0' '4' * digit +
    word ['2', '5'] * digitIn '0' '5'

def ipv4Address : Language Char := decOctet * word ['.'] * decOctet * word ['.'] * decOctet * word ['.'] * decOctet

/-- **An IPv6 address is what its rule accepts by itself.** -/
def ipv6Address : Language Char := {x | matchesRule "IPv6address" x = .ok true}

/-- A version in hexadecimal digits and an address of that version. -/
def ipvFuture : Language Char :=
  (word ['v'] + word ['V']) * (hexDigit * hexDigit∗) * word ['.'] *
    ((unreserved + subDelims + word [':']) * (unreserved + subDelims + word [':'])∗)

def ipLiteral : Language Char := word ['['] * (ipv6Address + ipvFuture) * word [']']

def host : Language Char := ipLiteral + ipv4Address + regName

/-- **A port is a number of 64 bits,** in any number of digits, or nothing. -/
def port : Language Char := {x | x ∈ digit∗ ∧ (x ≠ [] → decimalValue x ≤ greatestPort)}

def authority : Language Char := optional (userinfo * word ['@']) * host * optional (word [':'] * port)

/-! ## URIs -/

def scheme : Language Char := alpha * (alpha + digit + word ['+'] + word ['-'] + word ['.'])∗

def hierPart : Language Char := word ['/', '/'] * authority * pathAbempty + pathAbsolute + pathRootless + pathEmpty

def query : Language Char := (pchar + word ['/'] + word ['?'])∗

def fragment : Language Char := (pchar + word ['/'] + word ['?'])∗

/-- **The language of URIs.** -/
def uri : Language Char :=
  scheme * word [':'] * hierPart * optional (word ['?'] * query) * optional (word ['#'] * fragment)

/-! ## Characters written as they are, or as octets -/

/-- A character of a class, or the hexadecimal digits of an octet. -/
def encoded (P : Char → Prop) : Language Char := oneOf P + pctEncoded

/-- A character of a registered name that is written as it is. -/
def IsNameChar (c : Char) : Prop := IsUnreserved c ∨ IsSubDelim c

/-- A character of user information that is written as it is. -/
def IsUserChar (c : Char) : Prop := IsNameChar c ∨ c = ':'

variable {P Q : Char → Prop} {x : Text} {c : Char}

theorem word_eq_oneOf (k : Char) : word [k] = oneOf (· = k) := by
  ext x
  constructor
  · rintro rfl
    exact ⟨k, rfl, rfl⟩
  · rintro ⟨c, rfl, rfl⟩
    rfl

theorem oneOf_add : oneOf P + oneOf Q = oneOf fun c => P c ∨ Q c := by
  ext x
  constructor
  · rintro (⟨c, rfl, hc⟩ | ⟨c, rfl, hc⟩)
    · exact ⟨c, rfl, .inl hc⟩
    · exact ⟨c, rfl, .inr hc⟩
  · rintro ⟨c, rfl, hc | hc⟩
    · exact .inl ⟨c, rfl, hc⟩
    · exact .inr ⟨c, rfl, hc⟩

theorem encoded_add : encoded P + oneOf Q = encoded fun c => P c ∨ Q c := by
  rw [encoded, encoded, ← oneOf_add, add_right_comm]

theorem encoded_congr (h : ∀ c, P c ↔ Q c) : encoded P = encoded Q := by
  rw [show P = Q from funext fun c => propext (h c)]

theorem nameChar_eq : unreserved + pctEncoded + subDelims = encoded IsNameChar := encoded_add

theorem userChar_eq : unreserved + pctEncoded + subDelims + word [':'] = encoded IsUserChar := by
  rw [nameChar_eq, word_eq_oneOf, encoded_add]
  rfl

theorem pchar_eq : pchar = encoded IsPathChar := by
  rw [pchar, userChar_eq, word_eq_oneOf, encoded_add]
  exact encoded_congr fun c => by simp only [IsUserChar, IsNameChar, IsPathChar, or_assoc]

/-! ## How words begin, and what is in them -/

theorem opens_pctEncoded : Opens (· = '%') pctEncoded := opens_word.mul.mul

theorem opens_encoded : Opens (fun c => P c ∨ c = '%') (encoded P) :=
  (opens_oneOf.mono fun _ => .inl).add (opens_pctEncoded.mono fun _ => .inr)

theorem within_encoded (h : ∀ c, Q c → P c) (hpct : P '%') (hhex : ∀ c, isHexDigit c = true → P c) :
    Within P (encoded Q) :=
  (within_oneOf h).add (((within_word (by simpa using hpct)).mul (within_oneOf hhex)).mul (within_oneOf hhex))

theorem isNameChar_iff (c : Char) : IsNameChar c ↔
    ((65 ≤ c.toNat ∧ c.toNat ≤ 90) ∨ (97 ≤ c.toNat ∧ c.toNat ≤ 122) ∨ (48 ≤ c.toNat ∧ c.toNat ≤ 57)) ∨
      c.toNat = 33 ∨ c.toNat = 36 ∨ (38 ≤ c.toNat ∧ c.toNat ≤ 46) ∨ c.toNat = 59 ∨ c.toNat = 61 ∨ c.toNat = 95 ∨
      c.toNat = 126 := by
  rw [IsNameChar, isUnreserved_iff, isSubDelim_iff]
  omega

theorem isUserChar_iff (c : Char) : IsUserChar c ↔
    ((65 ≤ c.toNat ∧ c.toNat ≤ 90) ∨ (97 ≤ c.toNat ∧ c.toNat ≤ 122) ∨ (48 ≤ c.toNat ∧ c.toNat ≤ 57)) ∨
      c.toNat = 33 ∨ c.toNat = 36 ∨ (38 ≤ c.toNat ∧ c.toNat ≤ 46) ∨ c.toNat = 58 ∨ c.toNat = 59 ∨ c.toNat = 61 ∨
      c.toNat = 95 ∨ c.toNat = 126 := by
  rw [IsUserChar, isNameChar_iff, ← Char.toNat_inj]
  simp
  omega

/-- No path has the delimiters around it. -/
theorem pathChar_outside (c : Char) (h : IsPathChar c ∨ c = '%') : c ∉ ("/?#[]" : Text) := by
  rw [isPathChar_iff] at h
  simp [← Char.toNat_inj] at h ⊢
  omega

theorem userChar_outside (c : Char) (h : IsUserChar c ∨ c = '%') : c ∉ ("/?#[]@" : Text) := by
  rw [isUserChar_iff] at h
  simp [← Char.toNat_inj] at h ⊢
  omega

theorem nameChar_outside (c : Char) (h : IsNameChar c ∨ c = '%') : c ∉ (":/?#[]@" : Text) := by
  rw [isNameChar_iff] at h
  simp [← Char.toNat_inj] at h ⊢
  omega

end Production
end SignIn
