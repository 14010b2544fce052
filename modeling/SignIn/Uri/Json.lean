import SignIn.Json.Record
import SignIn.Uri.Basic
/-!
# URIs as JSON

A split URI is a record of its parts in their order, absent parts left out.
-/
namespace SignIn

/-- A member that may be absent. -/
def optionalMember (key : Text) (v : Option Json.Value) : Json.Record :=
  match v with
  | some v => [(key, v)]
  | none => []

/-- **The record of a URI.** -/
def UriParts.record (u : UriParts) : Json.Record :=
  [("uri".toList, .string u.uri), ("scheme".toList, .string u.scheme)] ++
    optionalMember "userinfo" (u.userinfo.map .string) ++
    optionalMember "host" (u.host.map .string) ++
    optionalMember "port" (u.port.map .number) ++
    [("path".toList, .string u.path)] ++
    optionalMember "query" (u.query.map .string) ++
    optionalMember "fragment" (u.fragment.map .string)

end SignIn
