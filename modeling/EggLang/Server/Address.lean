import EggLang.Bytes

/-!
# Addresses

A server listens on a host and a service, written `host:service`; a host with colons stands in
brackets. An address that is no such text is refused.
-/

namespace EggLang.Address

/-- Why an address is refused. -/
inductive Refusal where
  | missingService
  | tooManyColons
  | missingBracket
  | unexpectedOpening
  | unexpectedClosing
  /-- The service is no number from 0 to 65535. -/
  | invalidService (service : Bytes)
  /-- The service is a name that nothing goes by. -/
  | unknownService (service : Bytes)
  deriving DecidableEq, Repr

def Refusal.message (address : Bytes) (r : Refusal) : Bytes :=
  let about (subject : Bytes) (what : String) : Bytes :=
    utf8 "address " ++ subject ++ utf8 ": " ++ utf8 what
  utf8 "listen tcp: " ++ (match r with
    | missingService => about address "missing port in address"
    | tooManyColons => about address "too many colons in address"
    | missingBracket => about address "missing ']' in address"
    | unexpectedOpening => about address "unexpected '[' in address"
    | unexpectedClosing => about address "unexpected ']' in address"
    | invalidService service => about service "invalid port"
    | unknownService service => utf8 "lookup tcp/" ++ service ++ utf8 ": unknown port")

/-- The text up to the last colon and the text after it. -/
def cutLastColon (text : Bytes) : Option (Bytes × Bytes) :=
  let service := (text.reverse.takeWhile (· != 58)).reverse
  if service.length = text.length then none
  else some (text.take (text.length - service.length - 1), service)

def split (address : Bytes) : Except Refusal (Bytes × Bytes) :=
  match cutLastColon address with
  | none => .error .missingService
  | some (host, service) =>
    match address with
    | 91 :: inner =>
      let name := inner.takeWhile (· != 93)
      let rest := inner.drop (name.length + 1)
      if name.length = inner.length then .error .missingBracket
      else if rest.isEmpty then .error .missingService
      else if rest.length = service.length + 1 then
        if name.any (· == 91) || service.any (· == 91) then .error .unexpectedOpening
        else if service.any (· == 93) then .error .unexpectedClosing
        else .ok (name, service)
      else if rest.head? = some 58 then .error .tooManyColons
      else .error .missingService
    | _ =>
      if host.any (· == 58) then .error .tooManyColons
      else if address.any (· == 91) then .error .unexpectedOpening
      else if address.any (· == 93) then .error .unexpectedClosing
      else .ok (host, service)

/-- The service names that need no number. -/
def knownServices : List (Bytes × Nat) :=
  [(utf8 "domain", 53), (utf8 "ftp", 21), (utf8 "ftps", 990), (utf8 "gopher", 70),
    (utf8 "http", 80), (utf8 "https", 443), (utf8 "imap2", 143), (utf8 "imap3", 220),
    (utf8 "imaps", 993), (utf8 "pop3", 110), (utf8 "pop3s", 995), (utf8 "smtp", 25),
    (utf8 "submissions", 465), (utf8 "ssh", 22), (utf8 "telnet", 23)]

/-- The number of a service. No text is service zero. -/
def serviceNumber (service : Bytes) : Except Refusal Nat :=
  let (negative, digits) := match service with
    | 45 :: rest => (true, rest)
    | 43 :: rest => (false, rest)
    | rest => (false, rest)
  if service.isEmpty then .ok 0
  else if digits.all Bytes.isDigit then
    let n := Bytes.digitsValue digits
    if n ≤ 65535 && (!negative || n = 0) then .ok n else .error (.invalidService service)
  else
    match knownServices.lookup service with
    | some n => .ok n
    | none => .error (.unknownService service)

def parse (address : Bytes) : Except Refusal (Bytes × Nat) := do
  let (host, service) ← split address
  let n ← serviceNumber service
  return (host, n)

end EggLang.Address
