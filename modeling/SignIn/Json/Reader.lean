import SignIn.Json.Error
import SignIn.Json.Record
/-!
# Reading words and strings

Blanks, words and strings, read from the front of a text.  A string is read character by character: a
backslash and what it escapes count as one, and two surrogate escapes in a row are one character too.
-/
namespace SignIn.Json

/-- **Blanks are the space, the tab and the two line ends.** -/
def isBlank (c : Char) : Bool := c == ' ' || c == '\n' || c == '\t' || c == '\r'

/-- A text without the blanks in front. -/
def skipBlanks (t : Text) : Text := t.dropWhile isBlank

/-- **A word has to follow.** -/
def readWord : Text → Text → Except Stop Text
  | [], t => .ok t
  | _ :: _, [] => .error (.unfinished .value)
  | w :: ws, c :: t => if c = w then readWord ws t else .error (.atNext .wordExpected (c :: t))

/-- The character that a letter behind a backslash stands for: the short escapes of the writer, and the
slash. -/
def shortEscape? (letter : Char) : Option Char :=
  if letter = '/' then some '/' else (shortEscapes.find? (·.2 == letter)).map (·.1)

/-- **Four hexadecimal digits.**  They are looked for in the next four bytes. -/
def readHex (t : Text) : Except Stop (Nat × Text) :=
  if utf8Length t < 4 then .error (.unfinished .string)
  else
    match (t.take 4).mapM hexValue? with
    | some [a, b, c, d] => .ok (((a * 16 + b) * 16 + c) * 16 + d, t.drop 4)
    | _ => .error ⟨.malformed .badEscape, t, 4⟩

/-- **A surrogate that has to be followed by another.** -/
def isLeading (n : Nat) : Bool := decide (0xd800 ≤ n) && decide (n ≤ 0xdbff)

/-- A surrogate that has to follow another. -/
def isTrailing (n : Nat) : Bool := decide (0xdc00 ≤ n) && decide (n ≤ 0xdfff)

/-- One character has to follow inside a string. -/
def readMark (mark : Char) : Text → Except Stop Text
  | [] => .error (.unfinished .string)
  | c :: t => if c = mark then .ok t else .error (.atNext .surrogateExpected (c :: t))

/-- The character of the escape that begins with a leading surrogate. -/
def readTrailing (leading : Nat) (t : Text) : Except Stop (Char × Text) := do
  let t ← readMark '\\' t
  let t ← readMark 'u' t
  let (trailing, t) ← readHex t
  if isTrailing trailing then
    return (.ofNat (0x10000 + (leading - 0xd800) * 0x400 + (trailing - 0xdc00)), t)
  else throw (.atLast .loneSurrogate t)

/-- **The character of an escape,** read from behind its backslash. -/
def readEscape : Text → Except Stop (Char × Text)
  | [] => .error (.unfinished .string)
  | letter :: t =>
    match shortEscape? letter with
    | some c => .ok (c, t)
    | none =>
      if letter = 'u' then do
        let (n, t) ← readHex t
        if isTrailing n then throw (.atLast .loneSurrogate t)
        else if isLeading n then readTrailing n t
        else return (.ofNat n, t)
      else .error (.atNext .badEscape (letter :: t))

theorem readHex_length {t r : Text} {n : Nat} (h : readHex t = .ok (n, r)) :
    r.length ≤ t.length := by
  unfold readHex at h
  split at h
  · cases h
  · split at h
    · cases h
      simp
    · cases h

theorem readMark_length {mark : Char} {t r : Text} (h : readMark mark t = .ok r) :
    r.length ≤ t.length := by
  cases t with
  | nil => cases h
  | cons c t =>
    simp only [readMark] at h
    split at h
    · cases h
      simp
    · cases h

theorem readTrailing_length {leading : Nat} {t r : Text} {c : Char}
    (h : readTrailing leading t = .ok (c, r)) : r.length ≤ t.length := by
  unfold readTrailing at h
  rcases h₁ : readMark '\\' t with e | t₁
  · simp [bind, Except.bind, h₁] at h
  rcases h₂ : readMark 'u' t₁ with e | t₂
  · simp [bind, Except.bind, h₁, h₂] at h
  rcases h₃ : readHex t₂ with e | ⟨n, t₃⟩
  · simp [bind, Except.bind, h₁, h₂, h₃] at h
  simp only [bind, Except.bind, h₁, h₂, h₃] at h
  split at h
  · simp only [pure, Except.pure, Except.ok.injEq, Prod.mk.injEq] at h
    obtain ⟨-, rfl⟩ := h
    exact Nat.le_trans (readHex_length h₃)
      (Nat.le_trans (readMark_length h₂) (readMark_length h₁))
  · cases h

/-- **An escape leaves less than it was given.** -/
theorem readEscape_length {t r : Text} {c : Char} (h : readEscape t = .ok (c, r)) :
    r.length < t.length := by
  cases t with
  | nil => cases h
  | cons letter t =>
    simp only [readEscape] at h
    split at h
    · cases h
      simp
    split at h
    · rcases h₁ : readHex t with e | ⟨n, t₁⟩
      · simp [bind, Except.bind, h₁] at h
      have := readHex_length h₁
      simp only [bind, Except.bind, h₁] at h
      split at h
      · cases h
      split at h
      · have := readTrailing_length h
        simp only [List.length_cons]
        omega
      · cases h
        simp only [List.length_cons]
        omega
    · cases h

/-- **A string,** read from behind its opening quotation mark. -/
def readString (t : Text) : Except Stop (Text × Text) :=
  match t with
  | [] => .error (.unfinished .string)
  | c :: t =>
    if c = '"' then .ok ([], t)
    else if c = '\\' then
      match h : readEscape t with
      | .error e => .error e
      | .ok (x, r) =>
        have := readEscape_length h
        (readString r).map fun (s, r) => (x :: s, r)
    else if c.toNat < 0x20 then .error (.atNext .controlCharacter (c :: t))
    else (readString t).map fun (s, r) => (c :: s, r)
termination_by t.length

end SignIn.Json
