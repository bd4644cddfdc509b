import YantraRgs.Services.CanonicalJson

/-! # Paths into JSON values

A path leads from a value to one inside of it, over elements of arrays and fields of objects.

* **`Step`** — an element or a field.
* **`getAt`** — the value at a path; **`putAt`** — the value with another one there. -/

namespace YantraRgs.JsonPaths

/-- One step of a path. -/
inductive Step
  | index (n : Nat)
  | key (name : String)
  deriving DecidableEq

/-- **The value at a path**, where there is one. -/
def getAt : List Step → Value → Option Value
  | [], v => some v
  | .index n :: p, .array vs => vs[n]?.bind (getAt p)
  | .key name :: p, .object es => (es.lookup name).bind (getAt p)
  | _ :: _, _ => none

/-- **A value with `x` at a path.** Where the path leads nowhere, nothing changes. -/
def putAt (x : Value) : List Step → Value → Value
  | [], _ => x
  | .index n :: p, .array vs => .array (vs.modify n (putAt x p))
  | .key name :: p, .object es =>
      .object (es.map fun e => if e.1 = name then (e.1, putAt x p e.2) else e)
  | _ :: _, v => v

end YantraRgs.JsonPaths
