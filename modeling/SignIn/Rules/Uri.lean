import SignIn.Rules.Characters
/-!
# The rules of URIs

The rules of RFC 3986 as an ordered, greedy matcher can run them.  Three things are left to callbacks,
which see what a rule read and may reject it:

* an octet of an IPv4 address is up to three digits, whose value is checked on the way up, so
  zero-padded octets are accepted;
* the 16-bit groups of an IPv6 address are counted, in the form without `::` (`nodcolon`) and in the
  form with it (`dcolon`); the rules ending in `n` do not take digits that an IPv4 address begins with;
* a port is a number of 64 bits.

A host that begins with an IPv4 address and goes on is a registered name.
-/
namespace SignIn
namespace Rules

/-- Any number of segments, each after a slash. -/
def segments : Expr := .star (.cat [.tbs "/", .rnm "segment"])

/-- 16-bit groups that no IPv4 address begins with. -/
def groups : Expr := .cat [.rnm "h16n", .star (.rnm "h16cn")]

/-- An IPv4 address after a colon, or nothing. -/
def ipv4Tail : Expr := .opt (.cat [.ch 58, .rnm "IPv4address"])

/-- **What a query and a fragment are made of.** -/
def afterPath : Expr := .star (.alt [.rnm "pchar", .ch 47, .ch 63])

/-- The rules of a URI down to its parts. -/
def uriParts : List (Text × Expr) := [
  ("URI",
    .cat [.rnm "scheme", .tbs ":", .rnm "hier-part", .opt (.cat [.tbs "?", .rnm "query"]),
      .opt (.cat [.tbs "#", .rnm "fragment"])]),
  ("hier-part",
    .alt [.cat [.tbs "//", .rnm "authority", .rnm "path-abempty"], .rnm "path-absolute",
      .rnm "path-rootless", .rnm "path-empty"]),
  ("authority",
    .cat [.opt (.rnm "userinfo-at"), .rnm "host", .opt (.cat [.tbs ":", .rnm "port"])]),
  ("path-abempty", segments),
  ("path-absolute", .cat [.tbs "/", .opt (.cat [.rnm "segment-nz", segments])]),
  ("path-rootless", .cat [.rnm "segment-nz", segments]),
  ("path-empty", .tls ""),
  ("userinfo-at", .cat [.rnm "userinfo", .ch 64]),
  ("userinfo",
    .star (.alt [lower, upper, digit, .rnm "pct-encoded", .ch 33, .ch 36, .trg 38 46, .trg 58 59,
      .ch 61, .ch 95, .ch 126]))]

/-- The rules of a host. -/
def host : List (Text × Expr) := [
  ("host",
    .alt [.rnm "IP-literal", .cat [.rnm "IPv4address", .not (.rnm "reg-name-char")],
      .rnm "reg-name"]),
  ("IP-literal", .cat [.tbs "[", .alt [.rnm "IPv6address", .rnm "IPvFuture"], .tbs "]"]),
  ("IPvFuture",
    .cat [.tls "v", .plus hexDigit, .tls ".",
      .plus (.alt [lower, upper, digit, .ch 33, .ch 36, .trg 38 46, .trg 58 59, .ch 61, .ch 95,
        .ch 126])]),
  ("IPv6address", .alt [.rnm "nodcolon", .rnm "dcolon"]),
  ("nodcolon", .cat [groups, ipv4Tail]),
  ("dcolon",
    .cat [.opt (.cat [.rnm "h16", .star (.rnm "h16c")]), .tbs "::",
      .alt [.cat [groups, ipv4Tail], .opt (.rnm "IPv4address")]]),
  ("h16", .rep 1 (some 4) hexDigit),
  ("h16c", .cat [.ch 58, .rep 1 (some 4) hexDigit]),
  ("h16n", .cat [.rep 1 (some 4) hexDigit, .not (.ch 46)]),
  ("h16cn", .cat [.ch 58, .rep 1 (some 4) hexDigit, .not (.ch 46)]),
  ("IPv4address",
    .cat [.rnm "dec-octet", .tbs ".", .rnm "dec-octet", .tbs ".", .rnm "dec-octet", .tbs ".",
      .rnm "dec-octet"]),
  ("dec-octet", .rep 0 (some 3) (.rnm "dec-digit")),
  ("dec-digit", digit),
  ("reg-name", .star (.rnm "reg-name-char")),
  ("reg-name-char",
    .alt [lower, upper, digit, .rnm "pct-encoded", .ch 33, .ch 36, .trg 38 46, .ch 59, .ch 61,
      .ch 95, .ch 126])]

/-- The rules of what a URI is made of at last. -/
def uriCharacters : List (Text × Expr) := [
  ("port", .star digit),
  ("query", afterPath),
  ("fragment", afterPath),
  ("segment", .star (.rnm "pchar")),
  ("segment-nz", .plus (.rnm "pchar")),
  ("scheme",
    .cat [.alt [lower, upper], .star (.alt [lower, upper, digit, .ch 43, .trg 45 46])]),
  ("pchar",
    .alt [lower, .trg 64 90, .trg 48 59, .ch 33, .ch 36, .trg 38 46, .ch 61, .ch 95, .ch 126,
      .rnm "pct-encoded"]),
  ("pct-encoded", .cat [.tbs "%", hexDigit, hexDigit]),
  ("unreserved", .alt [lower, upper, digit, .trg 45 46, .ch 95, .ch 126]),
  ("reserved",
    .alt [.ch 33, .trg 35 36, .trg 38 44, .ch 47, .trg 58 59, .ch 61, .trg 63 64, .ch 91, .ch 93])]

/-- **The rules of RFC 3986.** -/
def uri : List (Text × Expr) := uriParts ++ host ++ uriCharacters

end Rules
end SignIn
