import SignIn.Text.Escaped
import SignIn.Keccak.Sponge
/-!
# Checksummed addresses

An address is `0x` and the 40 hexadecimal digits of 20 bytes.  Its checksum (ERC-55) is the case of
its letters: the digits are hashed in lower case, and a letter is upper case exactly where the digit
of the hash at its place is 8 or more.  The hash does not see the case it is given, so every spelling
of an address has the same checksummed spelling, and that one is its own.
-/
namespace SignIn

/-- **What keeps a text from being an address.** -/
inductive AddressError where
  | invalidLength (length : Nat)
  | missingLead
  | invalidHexDigit (found : Char) (offset : Nat)
  deriving DecidableEq

/-- The sentence that tells of the error. -/
def AddressError.message : AddressError → Text
  | .invalidLength _ => "toERC55: input must be hex string representing 20 bytes"
  | .missingLead => "toERC55: address must begin with \"0x\""
  | .invalidHexDigit found offset =>
    "toERC55: invalid hex digit " ++ quotedChar found ++ " at offset " ++ decimal offset

/-- The characters of an address: `0x` and 40 digits. -/
def addressLength : Nat := 42

/-- **A letter is upper case where the hash's digit is 8 or more.** -/
def checksumCase (digits : Text) (hash : Text) : Text :=
  List.zipWith (fun c h => if c.isAlpha && decide (8 ≤ (hexValue? h).getD 0) then c.toUpper else c)
    digits hash

/-- **The checksummed spelling of an address.**  The length is judged first, then the lead `0x`, then
the first character that is no digit. -/
def checksummed (address : Text) : Except AddressError Text :=
  if address.length ≠ addressLength then .error (.invalidLength address.length)
  else match address with
    | '0' :: 'x' :: digits =>
      match firstFailing isHexDigit digits with
      | some (found, i) => .error (.invalidHexDigit found (i + 2))
      | none =>
        let lower := foldCase digits
        let hash := hexBytes (Keccak.digest (lower.map fun c => c.toNat.toUInt8)).toList
        .ok ('0' :: 'x' :: checksumCase lower hash)
    | _ => .error .missingLead

/-- **An address is checksummed when its checksummed spelling is its own.** -/
def isChecksummed (address : Text) : Bool :=
  match checksummed address with
  | .ok spelling => spelling == address
  | .error _ => false

end SignIn
