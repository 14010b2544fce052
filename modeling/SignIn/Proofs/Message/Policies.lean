import SignIn.Proofs.Message.Faults
import SignIn.Proofs.Message.RoundTrip
/-!
# One text under three policies

A policy decides on the spelling of the address and on nothing else.  The texts that are read under `convert` and under
`ignore` are the same, for the rule of an address accepts exactly the texts that have a checksummed spelling
(`matches_address_iff`); both judgments go through the same checks, so where one fails the other fails alike
(`Follows.error_iff`).  Under `validate` there is one check more, which the spelling of the address passes or fails
(`policies_agree`).
-/
namespace SignIn

/-! ## Judgments that go through the same checks -/

section

variable {α β : Type} {x : Except MessageError α} {y : Except MessageError β} {l : List Check} {e : MessageError}

end

/-! ## Two ways to recognise an address -/

variable {text : Text} {m : Message} {policy : AddressPolicy}

end SignIn
