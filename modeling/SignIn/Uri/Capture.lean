import SignIn.Match.Action
import SignIn.Uri.Basic
/-!
# What the callbacks of the URI rules note

Each part is noted when its rule succeeds and never taken back, and the checks that the rules cannot
make themselves are made here: the value of an octet, the number of 16-bit groups in an IPv6 address,
the size of a port.
-/
namespace SignIn

/-- **The parts noted so far,** and what the checks of a host keep. -/
structure UriCapture where
  uri : Option Text
  scheme : Option Text
  userinfo : Option Text
  host : Option Text
  port : Option Nat
  path : Option Text
  query : Option Text
  fragment : Option Text
  /-- the host is in brackets -/
  ipLiteral : Bool
  /-- an IPv4 address was read -/
  ipv4 : Bool
  /-- the 16-bit groups read -/
  groups : Nat
  /-- the value of the octet begun -/
  octet : Nat
  deriving DecidableEq

namespace UriCapture

/-- Nothing noted. -/
def empty : UriCapture :=
  { uri := none, scheme := none, userinfo := none, host := none, port := none, path := none
    query := none, fragment := none, ipLiteral := false, ipv4 := false, groups := 0, octet := 0 }

/-- **The parts of a URI that matched.** -/
def parts (c : UriCapture) : UriParts :=
  { uri := c.uri.getD [], scheme := c.scheme.getD [], userinfo := c.userinfo, host := c.host
    port := c.port, path := c.path.getD [], query := c.query, fragment := c.fragment }

/-- **A new URI forgets the last one,** and an empty text is none. -/
def onUri : Callback UriCapture := fun p input offset c =>
  match p.state with
  | .active => (p, empty)
  | .matched => (p, { c with uri := some (phraseText input offset p.length) })
  | .emptyMatch => (.fail, c)
  | .noMatch => (p, c)

/-- Notes the scheme. -/
def onScheme : Callback UriCapture :=
  .onMatch fun input offset length c => { c with scheme := some (phraseText input offset length) }

/-- Notes the userinfo, without the `@` that its rule reads. -/
def onUserinfoAt : Callback UriCapture :=
  .onMatch fun input offset length c =>
    { c with userinfo := some (phraseText input offset (length - 1)) }

/-- **Notes the host,** without the brackets if it is in brackets. -/
def onHost : Callback UriCapture := fun p input offset c =>
  match p.state with
  | .active => (p, { c with ipLiteral := false })
  | .matched =>
    (p, { c with host := some (if c.ipLiteral then phraseText input (offset + 1) (p.length - 2)
                               else phraseText input offset p.length) })
  | .emptyMatch => (p, { c with host := some [] })
  | .noMatch => (p, c)

/-- Notes that the host is in brackets. -/
def onIpLiteral : Callback UriCapture := .onMatch fun _ _ _ c => { c with ipLiteral := true }

/-- **Notes the port, or rejects it** if it is beyond the greatest; no digits are no port. -/
def onPort : Callback UriCapture := fun p input offset c =>
  match p.state with
  | .matched =>
    let port := decimalValue (phraseText input offset p.length)
    if port ≤ greatestPort then (p, { c with port := some port }) else (.fail, c)
  | .emptyMatch => (p, { c with port := none })
  | .active | .noMatch => (p, c)

/-- Notes a path that may be empty. -/
def onPath : Callback UriCapture :=
  .onSuccess fun input offset length c => { c with path := some (phraseText input offset length) }

/-- Notes a path that reads something. -/
def onFilledPath : Callback UriCapture :=
  .onMatch fun input offset length c => { c with path := some (phraseText input offset length) }

/-- **Notes the empty path;** anything but the empty match is rejected. -/
def onEmptyPath : Callback UriCapture := fun p _ _ c =>
  match p.state with
  | .active => (p, c)
  | .emptyMatch => (p, { c with path := some [] })
  | .matched | .noMatch => (.fail, { c with path := some [] })

/-- Notes the query. -/
def onQuery : Callback UriCapture :=
  .onSuccess fun input offset length c => { c with query := some (phraseText input offset length) }

/-- Notes the fragment. -/
def onFragment : Callback UriCapture :=
  .onSuccess fun input offset length c =>
    { c with fragment := some (phraseText input offset length) }

/-- Notes that an IPv4 address was read. -/
def onIpv4 : Callback UriCapture := .onMatch fun _ _ _ c => { c with ipv4 := true }

/-- **Counts a 16-bit group.** -/
def onGroup (counter : Counter := .exact) : Callback UriCapture :=
  .onMatch fun _ _ _ c => { c with groups := counter.next c.groups }

/-- The count of an address begins anew. -/
def newAddress (c : UriCapture) : UriCapture := { c with groups := 0, ipv4 := false }

/-- How many groups fill an address, an IPv4 address standing for two. -/
def fullGroups (c : UriCapture) : Nat := if c.ipv4 then 6 else 8

/-- **Without `::` an address is filled by its groups.** -/
def onAllGroups : Callback UriCapture :=
  .judging newAddress fun c => decide (c.groups = c.fullGroups)

/-- **With `::` an address leaves a group out at least.** -/
def onSomeGroups : Callback UriCapture :=
  .judging newAddress fun c => decide (c.groups < c.fullGroups)

/-- **An octet is at most 255.** -/
def onOctet : Callback UriCapture :=
  .judging (fun c => { c with octet := 0 }) fun c => decide (c.octet ≤ 255)

/-- **A digit of an octet adds to its value.** -/
def onOctetDigit : Callback UriCapture :=
  .onMatch fun input offset _ c =>
    { c with octet := c.octet * 10 + decimalValue (phraseText input offset 1) }

/-- **The callbacks of the URI rules,** by the names of the rules. -/
def actions (counter : Counter := .exact) : List (Text × Callback UriCapture) := [
  ("URI", onUri), ("scheme", onScheme), ("userinfo-at", onUserinfoAt), ("host", onHost),
  ("IP-literal", onIpLiteral), ("port", onPort), ("path-abempty", onPath),
  ("path-absolute", onFilledPath), ("path-rootless", onFilledPath), ("path-empty", onEmptyPath),
  ("query", onQuery), ("fragment", onFragment), ("IPv4address", onIpv4),
  ("nodcolon", onAllGroups), ("dcolon", onSomeGroups), ("h16", onGroup counter),
  ("h16c", onGroup counter), ("h16n", onGroup counter), ("h16cn", onGroup counter),
  ("dec-octet", onOctet), ("dec-digit", onOctetDigit)]

end UriCapture
end SignIn
