import ScanPolicy.Service
import ScanPolicy.Json.Reader

/-!
# The HTTP interface

Five routes over the service and one that tells that the program is up. The fields of a request are
checked first, then the key; numbers may be written as texts where a number is expected.

- `Http.Request`, `Http.Response`.
- `Http.Field`: readers for the fields of a request body.
- `Http.respond`: the response to a request.
-/

namespace ScanPolicy.Http

/-- A request; `body` is null where none is sent. -/
structure Request where
  method : String
  path : String
  headers : List (String × String)
  body : Json

/-- A response: a status, and a body where one is defined. -/
structure Response where
  status : Nat
  body : Option Json

namespace Response

/-- A response without a defined body. -/
def bare (status : Nat) : Response := ⟨status, none⟩

/-- A response with fields. -/
def ok (fields : List (String × Json)) : Response := ⟨200, some (.object fields)⟩

/-- The response to a request with the wrong key. -/
def unauthorized : Response := ⟨401, some (.object [("detail", .text "invalid api key")])⟩

end Response

/-! ## Fields -/

namespace Field

/-- An optional text. -/
def text? : Json → Option (Option Text)
  | .null => some none
  | .text s => some (some s.toList)
  | _ => none

/-- A text without underscores, if single ones stand between other characters. -/
def joined? (t : Text) : Option Text :=
  let parts := Text.pieces '_' t
  if parts.all fun p => !p.isEmpty then some parts.flatten else none

/-- Whether a character is white space around a number: any blank but a separator of information. -/
def isNumberSpace (c : Char) : Bool := Text.isBlank c && !(28 ≤ c.toNat && c.toNat ≤ 31)

/-- A text without the white space around a number. -/
def trimNumber (t : Text) : Text := Text.dropEndWhile isNumberSpace (t.dropWhile isNumberSpace)

/-- A sign and the text after it. -/
def sign (t : Text) : Bool × Text :=
  match t with
  | '-' :: rest => (true, rest)
  | '+' :: rest => (false, rest)
  | _ => (false, t)

/-- A decimal number without white space: digits with a point among them or at either end, and an
exponent if there is one. -/
def unsignedFloat? (t : Text) : Option Float :=
  let name := Text.asciiLower t
  if name == "nan".toList then some (0.0 / 0.0)
  else if name == "inf".toList || name == "infinity".toList then some (1.0 / 0.0)
  else
    let whole := t.takeWhile Char.isDigit
    let rest := t.dropWhile Char.isDigit
    let (fraction, rest) := match rest with
      | '.' :: more => (more.takeWhile Char.isDigit, more.dropWhile Char.isDigit)
      | _ => ([], rest)
    if whole.isEmpty && fraction.isEmpty then none
    else match Json.readExponent rest with
      | some (exponent, _, []) =>
        some (Json.scientific (Json.digitsValue (whole ++ fraction))
          (exponent - (fraction.length : Int)))
      | _ => none

/-- A number written as a text. -/
def floatOfText? (t : Text) : Option Float :=
  let read (t : Text) : Option Float :=
    let (negative, body) := sign t
    (unsignedFloat? body).map fun x => if negative then -x else x
  match read (trimNumber t) with
  | some x => some x
  | none => (joined? t).bind read

/-- An optional number. -/
def float? : Json → Option (Option Float)
  | .null => some none
  | .float x => some (some x)
  | .int n => if (Float.ofInt n).isInf then none else some (some (Float.ofInt n))
  | .bool b => some (some (if b then 1.0 else 0.0))
  | .text s => (floatOfText? s.toList).map some
  | _ => none

/-- The whole value of a number without a part after the point. -/
def wholeFloat? (x : Float) : Option Int :=
  if x.isNaN || x.isInf then none
  else
    let (negative, b) := Binary.ofFloat x
    let (num, den) := b.ratio
    if num % den = 0 then some (if negative then -(num / den : Nat) else (num / den : Nat)) else none

/-- A whole number written as a text, a part after the point being zero. -/
def intOfText? (t : Text) : Option Int :=
  let (negative, body) := sign (trimNumber t)
  let (whole, fraction) := Text.cut '.' body
  let fractionIsZero := match fraction with
    | none => true
    | some zeros => !zeros.isEmpty && zeros.all (· = '0')
  match joined? whole with
  | none => none
  | some digits =>
    if fractionIsZero && digits.length ≤ Text.numeralLimit then
      (Text.asciiNat? digits).map fun n => if negative then -(n : Int) else n
    else none

/-- A whole number. -/
def int? : Json → Option Int
  | .int n => some n
  | .bool b => some (if b then 1 else 0)
  | .float x => wholeFloat? x
  | .text s => intOfText? s.toList
  | _ => none

/-- A whole number that is not below zero, with a default for an absent one. -/
def natural? (default : Int) : Option Json → Option Int
  | none => some default
  | some v => (int? v).bind fun n => if 0 ≤ n then some n else none

end Field

/-! ## Routes -/

/-- A checked request body. -/
inductive Call where
  | hostsContain (hosts host : Option Text)
  | hostCount (hosts exclude : Option Text)
  | nextTime (calendar zone : Option Text) (offset : Int)
  | severity (value threshold : Option Float)
  | pattern (string pattern : Option Text)

/-- The routes that take a body. -/
inductive Route where
  | hostsContain
  | hostCount
  | nextTime
  | severity
  | pattern

namespace Route

/-- The paths of the routes. -/
def paths : List (String × Route) := [
  ("/hosts/contains", hostsContain), ("/hosts/count", hostCount), ("/schedule/next", nextTime),
  ("/severity/matches", severity), ("/regexp", pattern)]

/-- The checked body of a request to a route. -/
def call? (route : Route) (body : Json) : Option Call :=
  match body with
  | .object _ =>
    let text (name : String) := Field.text? (body.field name)
    let float (name : String) := Field.float? (body.field name)
    match route with
    | hostsContain => do some (.hostsContain (← text "hosts") (← text "host"))
    | hostCount => do some (.hostCount (← text "hosts") (← text "exclude"))
    | nextTime => do
      some (.nextTime (← text "ical") (← text "timezone")
        (← Field.natural? 0 (body.get? "periods_offset")))
    | severity => do some (.severity (← float "value") (← float "threshold"))
    | pattern => do some (.pattern (← text "string") (← text "pattern"))
  | _ => none

end Route

/-- The seconds of universal time from the start of 1970. -/
def epoch (m : Moment) : Int := m.instant.fdiv Span.second - Zone.epochSeconds

/-- The response to a checked request. -/
def Call.respond (service : Service) (now : Moment) : Call → Traced Response
  | .hostsContain hosts host => do
    match ← service.hostsContain hosts host with
    | .ok b => pure (.ok [("result", .bool b)])
    | .error _ => pure (.bare 500)
  | .hostCount hosts exclude => do
    match ← service.hostCount hosts exclude with
    | .ok n =>
      .noting (.ok [("result", .int n)])
        ⟨"adapter.api", Level.info, "hosts.count", [("result", .int n)]⟩
    | .error _ => pure (.bare 500)
  | .nextTime calendar zone offset => do
    match ← (Service.nextTime calendar zone offset now).run with
    | .ok (some m) =>
      pure (.ok [("next_time", .text (String.ofList m.render)), ("epoch", .int (epoch m))])
    | .ok none => pure (.ok [("next_time", .null), ("epoch", .int 0)])
    | .error _ => pure (.bare 500)
  | .severity value threshold => pure (.ok [("result", .bool (Severity.reaches value threshold))])
  | .pattern text wanted => do
    match ← Service.patternOccurs text wanted with
    | .ok b => pure (.ok [("result", .bool b)])
    | .error _ => pure (.bare 500)

/-- A path without its query and without slashes at its end. -/
def routePath (path : String) : String :=
  let plain := (Text.cut '?' path.toList).1
  let short := Text.dropEndWhile (· = '/') plain
  String.ofList (if short.isEmpty then plain else short)

/-- Whether a request shows the key that the settings ask for. -/
def showsKey (settings : Settings) (r : Request) : Bool :=
  match settings.apiKey with
  | none => true
  | some key =>
    key.isEmpty ||
      (r.headers.find? fun (name, _) => Text.asciiLower name.toList == "x-api-key".toList).any
        (·.2 == key)

/-- The response to a request at a moment. -/
def respond (settings : Settings) (service : Service) (now : Moment) (r : Request) :
    Traced Response :=
  let path := routePath r.path
  let method := String.ofList (Text.upper r.method.toList)
  if path = "/health" then
    .quiet (if method = "GET" then .ok [("status", .text "ok")] else .bare 405)
  else match Route.paths.lookup path with
    | none => .quiet (.bare 404)
    | some route =>
      if method ≠ "POST" then .quiet (.bare 405)
      else match route.call? r.body with
        | none => .quiet (.bare 422)
        | some call =>
          if showsKey settings r then call.respond service now else .quiet .unauthorized

end ScanPolicy.Http
