import YantraRgs.Services.JsonParse

/-! # Key case of the operator SDK

Operators whose wallets were built for keys in snake case have the keys of their messages renamed: those
of what comes in to camel case, and those of what goes out back to snake case.

* **`toSnake`**, **`toCamel`** — one key.
* **`transformKeys`** — the keys of a value, at every depth.
* **`toSnakeCase`**, **`fromSnakeCase`** — the conversions; **`snakeToCamelMiddleware`** — both around a
  handler. -/

namespace YantraRgs.KeyCase

/-! ## Keys -/

/-- A character of a key: a capital becomes an underscore and its small letter. -/
def snakeChar (c : Char) : Text := if c.isUpper then ['_', c.toLower] else [c]

/-- Every underscore before a small letter goes, and the letter becomes its capital. -/
def camelChars : Text → Text
  | '_' :: c :: cs => if c.isLower then c.toUpper :: camelChars cs else '_' :: camelChars (c :: cs)
  | c :: cs => c :: camelChars cs
  | [] => []

def toSnake (key : String) : String := .ofList (key.toList.flatMap snakeChar)

def toCamel (key : String) : String := .ofList (camelChars key.toList)

/-! ## Values -/

/-- `value.constructor === Object`: an object has its constructor from its prototype, unless an entry of
its own hides it. -/
def isPlain (es : List (String × Value)) : Bool := es.all (·.1 ≠ "constructor")

/-- `out[key] = value`: the key `__proto__` stands for the prototype, and adds no entry. -/
def assign (out : List (String × Value)) (e : String × Value) : List (String × Value) :=
  if e.1 = "__proto__" then out else JsonParse.setEntry out e

section Transform

variable (convert : String → String)

mutual

/-- **The keys of a value converted.** What is neither an array nor a plain object stays as it is. -/
def transformKeys : Value → Value
  | .array vs => .array (transformElements vs)
  | .object es =>
      if isPlain es then .object ((transformEntries es).foldl assign []) else .object es
  | v => v

/-- The elements of an array. -/
def transformElements : List Value → List Value
  | [] => []
  | v :: vs => transformKeys v :: transformElements vs

/-- What is assigned to the new object, in order. -/
def transformEntries : List (String × Value) → List (String × Value)
  | [] => []
  | e :: es => (convert e.1, transformKeys e.2) :: transformEntries es

end

end Transform

/-- **The keys of a value in snake case.** -/
def toSnakeCase : Value → Value := transformKeys toSnake

/-- **The keys of a value in camel case.** -/
def fromSnakeCase : Value → Value := transformKeys toCamel

/-- The middleware: what the handler answers to a body. Only arrays and objects are converted on their
way in. -/
def snakeToCamelMiddleware (handler : Value → Value) (body : Value) : Value :=
  toSnakeCase <| handler <| match body with
    | .array _ | .object _ | .date _ => fromSnakeCase body
    | _ => body

end YantraRgs.KeyCase
