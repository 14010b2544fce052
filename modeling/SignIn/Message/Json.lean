import SignIn.Json.Expect
import SignIn.Json.Skip
import SignIn.Message.Field
/-!
# Messages as JSON

A message is written as a record of its fields in their order, absent fields left out.  It is read from
an object with its keys in any order, other keys read past, or from the list of its thirteen values.
What is read is a message in shape only: its fields are not judged.
-/
namespace SignIn

open Json (Stop)

/-- The value of a field in a record, if it is there. -/
def Field.toJson? : (f : Field) → f.Value → Option Json.Value
  | scheme, v | statement, v | expirationTime, v | notBefore, v | requestId, v =>
    v.map Json.Value.string
  | domain, v | address, v | uri, v | nonce, v | issuedAt, v => some (.string v)
  | version, v | chainId, v => some (.number v.val)
  | resources, v => v.map Json.Value.strings

/-- **The record of a message.** -/
def Message.record (m : Message) : Json.Record :=
  Field.all.filterMap fun f => (f.toJson? (m.get f)).map fun v => (f.key, v)

/-- **The value of a field is read as the field asks.** -/
def Field.read : (f : Field) → Text → Except Stop (f.Value × Text)
  | scheme | statement | expirationTime | notBefore | requestId => Json.readNullable Json.readText
  | domain | address | uri | nonce | issuedAt => Json.readText
  | version => Json.readInteger (.pow 2 32) "u32"
  | chainId => fun t => Json.readBounded (.pow 2 128) (Json.skipBlanks t)
  | resources => Json.readNullable Json.readTexts

/-- The fields of an object, up to its end.  The first argument bounds the members by the characters
left: where none is left the text has ended. -/
def Draft.readMembers : Nat → Bool → Draft → Text → Except Stop (Draft × Text)
  | 0, _, _, _ => .error (.unfinished .object)
  | fuel + 1, first, d, t => do
    match ← Json.nextKey first t with
    | none => return (d, t)
    | some t =>
      let (key, t) ← Json.readString t
      match Field.ofKey? key with
      | some f =>
        if (d f).isSome then
          throw (.unsuitable (.duplicate key) (Json.pastBracket '\x7d' t))
        let (v, t) ← f.read (← Json.readColon t)
        readMembers fuel false (d.set f v) t
      | none =>
        let t ← Json.skipValue (← Json.readColon t)
        readMembers fuel false d t

/-- What a reader of messages asks for. -/
def Message.expected : Text := "struct SiweMessage"

/-- What a reader of messages asks of a list. -/
def Message.expectedList : Text := "struct SiweMessage with 13 elements"

/-- The fields of a list, the first of them at an index.  A field whose item is missing is absent, if it
may be. -/
def Draft.readItems : List Field → Nat → Draft → Text → Except Stop (Draft × Text)
  | [], _, d, t => .ok (d, t)
  | f :: fs, index, d, t => do
    match ← Json.nextItem (index == 0) t with
    | some t =>
      let (v, t) ← f.read t
      readItems fs (index + 1) (d.set f v) t
    | none =>
      match f.absent? with
      | some v => readItems fs (index + 1) (d.set f v) t
      | none =>
        throw (.unsuitable (.length index Message.expectedList) (Json.pastBracket ']' t))

/-- **A message is asked for.** -/
def Message.read (t : Text) : Except Stop (Message × Text) :=
  let finish (d : Draft) (t : Text) : Except Stop Message :=
    match d.message with
    | .ok m => .ok m
    | .error f => .error (.unsuitable (.missing f.key) t)
  match Json.skipBlanks t with
  | '\x7b' :: t => do
    let (d, t) ← Draft.readMembers (t.length + 1) true .empty t
    let t := Json.pastBracket '\x7d' t
    return (← finish d t, t)
  | '[' :: t => do
    let (d, t) ← Draft.readItems Field.all 0 .empty t
    let m ← finish d (Json.pastBracket ']' t)
    return (m, ← Json.readListEnd t)
  | t => .error (Json.refusal Message.expected t)

/-- **The message of a JSON text.** -/
def Message.ofJson (text : Text) : Except Json.Error Message :=
  let whole : Except Stop Message := do
    let (m, t) ← Message.read text
    Json.readEnd t
    return m
  whole.mapError fun s => s.error text

end SignIn
