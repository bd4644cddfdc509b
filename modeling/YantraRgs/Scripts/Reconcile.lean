import YantraRgs.Services.Settlement
import YantraRgs.Text.Lines

/-! # The settlement script

The script reads the settlements of operators from a file, or one settlement from its options, and says by
its exit code how they compare.

* **`parseCsv`**, **`toInput`** — the rows of a file, and the settlement of a row.
* **`main`** — a run of the script. -/

namespace YantraRgs.Reconciliation

open BigInt (trim)

/-- The columns that a file must have. -/
def FIELDS : List Text :=
  ["operatorId", "date", "currency", "betsAmountMicro", "winsAmountMicro",
    "rollbacksAmountMicro"].map String.toList

/-- A row of a file. -/
structure CsvRow where
  operatorId : Text
  date : Text
  currency : Text
  betsAmountMicro : Text
  winsAmountMicro : Text
  rollbacksAmountMicro : Text
  deriving DecidableEq

/-- The cells of a line. -/
def cellsOf (line : Text) : List Text := (line.splitOn ',').map trim

/-- The cell of a column; the last one counts where columns have one name. -/
def cell (header cells : List Text) (column : String) : Text :=
  (((header.zip cells).reverse.find? fun c => c.1 = column.toList).map Prod.snd).getD []

/-- The row of a line. -/
def rowOf (header cells : List Text) : CsvRow where
  operatorId := cell header cells "operatorId"
  date := cell header cells "date"
  currency := cell header cells "currency"
  betsAmountMicro := cell header cells "betsAmountMicro"
  winsAmountMicro := cell header cells "winsAmountMicro"
  rollbacksAmountMicro := cell header cells "rollbacksAmountMicro"

/-- The lines of a file that are not empty and no comments. -/
def linesOf (text : Text) : List Text :=
  ((Lines.splitLines text).map trim).filter fun l => l ≠ [] ∧ l.head? ≠ some '#'

/-- A row for each line behind the header. -/
def parseRows (header : List Text) : Nat → List Text → Except Text (List CsvRow)
  | _, [] => .ok []
  | i, line :: lines => do
      let cells := cellsOf line
      if cells.length ≠ header.length then
        .error ("CSV line ".toList ++ (toString (i + 1)).toList ++ ": expected ".toList ++
          (toString header.length).toList ++ " columns, got ".toList ++ (toString cells.length).toList)
      else
        let rows ← parseRows header (i + 1) lines
        .ok (rowOf header cells :: rows)

/-- **The rows of a file.** -/
def parseCsv (text : Text) : Except Text (List CsvRow) :=
  match linesOf text with
  | [] => .ok []
  | line :: lines =>
      let header := cellsOf line
      match FIELDS.find? fun f => !header.contains f with
      | some f => .error ("CSV header missing required column \"".toList ++ f ++
          "\". Expected: ".toList ++ [',', ' '].intercalate FIELDS)
      | none => parseRows header 1 lines

/-- An amount of a row. -/
def parseBig (s : Text) (name : String) : Except Text Int :=
  match BigInt.ofText s with
  | some n => .ok n
  | none => .error ("cannot parse ".toList ++ name.toList ++ '=' :: s ++ " as bigint".toList)

/-- Whether a text has the form `YYYY-MM-DD`. -/
def isDate : Text → Bool
  | [y₁, y₂, y₃, y₄, '-', m₁, m₂, '-', d₁, d₂] =>
      [y₁, y₂, y₃, y₄, m₁, m₂, d₁, d₂].all Char.isDigit
  | _ => false

/-- **The settlement of a row.** -/
def toInput (row : CsvRow) : Except Text OperatorSettlementInput :=
  if isDate row.date then do
    .ok {
      operatorId := row.operatorId
      date := row.date
      currency := row.currency
      betsAmountMicro := ← parseBig row.betsAmountMicro "betsAmountMicro"
      winsAmountMicro := ← parseBig row.winsAmountMicro "winsAmountMicro"
      rollbacksAmountMicro := ← parseBig row.rollbacksAmountMicro "rollbacksAmountMicro" }
  else .error ("date \"".toList ++ row.date ++ "\" not in YYYY-MM-DD".toList)

/-- The exit code of a status. -/
def statusToExit : ReconciliationStatus → Nat
  | .matched => 0
  | .minorDrift => 1
  | .majorDrift => 2

/-- The options of a run. -/
structure Options where
  help : Bool
  file : Option Text
  operator : Option Text
  currency : Option Text
  date : Option Text
  bets : Option Text
  wins : Option Text
  rollbacks : Option Text

/-- An option that is there and not empty. -/
def given (option : Option Text) : Option Text := option.filter (· ≠ [])

/-- The row that the options make, if they are all there. -/
def Options.row (o : Options) : Option CsvRow := do
  some {
    operatorId := ← given o.operator
    currency := ← given o.currency
    date := ← given o.date
    betsAmountMicro := ← given o.bets
    winsAmountMicro := ← given o.wins
    rollbacksAmountMicro := ← given o.rollbacks }

/-- Compare the settlements one after the other, with the greatest exit code; `worlds i` is what the
database holds when settlement `i` is compared. -/
def reconcileAll (env : Env) (worlds : Nat → World) :
    Nat → Nat → List OperatorSettlementInput → Except Text Nat
  | _, worstExit, [] => .ok worstExit
  | i, worstExit, input :: inputs => do
      let diff ← reconcileAgainstOperator env (worlds i) input
      let code := statusToExit diff.status
      reconcileAll env worlds (i + 1) (if code > worstExit then code else worstExit) inputs

/-- The settlements of a run, or `none` when there are none or they cannot be read. -/
def inputsOf (readFile : Text → Option Text) (o : Options) : Option (List OperatorSettlementInput) :=
  match given o.file with
  | some file => do
      let text ← readFile file
      let inputs ← ((parseCsv text).bind fun rows => rows.mapM toInput).toOption
      if inputs = [] then none else some inputs
  | none => do
      let row ← o.row
      let input ← (toInput row).toOption
      some [input]

/-- **The exit code of a run**: 3 for what cannot be read, and for what throws. -/
def main (env : Env) (readFile : Text → Option Text) (worlds : Nat → World) (o : Options) : Nat :=
  if o.help then 0
  else
    match inputsOf readFile o with
    | none => 3
    | some inputs => (reconcileAll env worlds 0 0 inputs).toOption.getD 3

end YantraRgs.Reconciliation
