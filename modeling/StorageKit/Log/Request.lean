/-
Requests in a structured entry.

A record that has a method, headers and a socket is taken for a request that a server received.
What is written of it are nine facts at most, whatever else the record holds.

* `Value.asRequest?` — the facts of a request.

Design notes: the same fact is kept under different names by different servers: the number of a
request and the connection may be under `info`, and the address under `originalUrl`, `path`, `url`
or the `path` of the `url`.
-/
import StorageKit.Fault.Shape

namespace StorageKit
namespace Value

/-- The first value, or the second if the first counts as false. -/
def orElse (v w : Value) : Value := if v.isFalsy then w else v

/-- A fact that is left out if it counts as false. -/
def factIfAny (name : String) (v : Value) : Fields Value := if v.isFalsy then [] else [(name, v)]

/-- The address that a request asks for. -/
def requestAddress (fact : String → Value) : Value :=
  if !(fact "originalUrl").isFalsy then fact "originalUrl"
  else if (fact "path").isText then fact "path"
  else if (fact "url").isFalsy then .undefined
  else orElse ((fact "url").property "path") (fact "url")

/-- What is written of a request. -/
def requestFacts (fact : String → Value) : Fields Value :=
  let info := fact "info"
  let connection := orElse info (fact "socket")
  [("id", orElse (fact "id") (if info.isFalsy then .undefined else info.property "id")),
    ("method", fact "method"), ("url", requestAddress fact)]
    ++ factIfAny "query" (fact "query") ++ factIfAny "params" (fact "params")
    ++ [("headers", fact "headers"), ("remoteAddress", connection.property "remoteAddress"),
      ("remotePort", connection.property "remotePort")]

/-- What is written of a record that is taken for a request. -/
def asRequest? (v : Value) : Option (Fields Value) :=
  match v with
  | .record _ =>
    if (v.property "method").isFalsy || (v.property "headers").isFalsy
        || (v.property "socket").isFalsy then none
    else some (requestFacts v.property)
  | _ => none

end Value
end StorageKit
