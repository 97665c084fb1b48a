import Marksmith.Syntax.Span

/-!
Diagnostics with the place they are reported at, and their reporting order. The ids of their codes
are stable: a suppression in a user's project names them.
-/

namespace Marksmith

open Syntax (Span)

/-! ### Codes -/

/-- How grave a diagnostic is, in increasing order. -/
inductive Severity where
  | info | warning | error
deriving DecidableEq, Repr

namespace Severity

/-- The wording of a severity. -/
def text : Severity → String
  | info => "info"
  | warning => "warning"
  | error => "error"

/-- The heading under which a terminal shows a severity. -/
def heading : Severity → String
  | info => "Advice"
  | warning => "Warning"
  | error => "Error"

end Severity

/-- The conditions that are reported. -/
inductive DiagnosticCode where
  | registrationModeMismatch
  | duplicateGeneratedAccessor
  | undeterminedExpressionType
  | missingProjectSettings
  | invalidMarkerTarget
  | duplicateForcedUnionId
  | unionCapacityExceeded
  | malformedMarkerAttribute
  | unionVariantWithoutHeader
  | generationCancelled
  | injectedExpressionHasNoValue
deriving DecidableEq, Repr

namespace DiagnosticCode

/-- Every code, in the order of its number. -/
def all : List DiagnosticCode :=
  [registrationModeMismatch, duplicateGeneratedAccessor, undeterminedExpressionType,
   missingProjectSettings, invalidMarkerTarget, duplicateForcedUnionId, unionCapacityExceeded,
   malformedMarkerAttribute, unionVariantWithoutHeader, generationCancelled,
   injectedExpressionHasNoValue]

/-- The position of a code in the table, from zero. -/
def index : DiagnosticCode → Nat
  | registrationModeMismatch => 0
  | duplicateGeneratedAccessor => 1
  | undeterminedExpressionType => 2
  | missingProjectSettings => 3
  | invalidMarkerTarget => 4
  | duplicateForcedUnionId => 5
  | unionCapacityExceeded => 6
  | malformedMarkerAttribute => 7
  | unionVariantWithoutHeader => 8
  | generationCancelled => 9
  | injectedExpressionHasNoValue => 10

/-- The id of a code, such as `DG0003`. -/
def id : DiagnosticCode → String
  | registrationModeMismatch => "DG0001"
  | duplicateGeneratedAccessor => "DG0002"
  | undeterminedExpressionType => "DG0003"
  | missingProjectSettings => "DG0004"
  | invalidMarkerTarget => "DG0005"
  | duplicateForcedUnionId => "DG0006"
  | unionCapacityExceeded => "DG0007"
  | malformedMarkerAttribute => "DG0008"
  | unionVariantWithoutHeader => "DG0009"
  | generationCancelled => "DG0010"
  | injectedExpressionHasNoValue => "DG0011"

/-- The name of a condition. -/
def label : DiagnosticCode → String
  | registrationModeMismatch => "RegistrationModeMismatch"
  | duplicateGeneratedAccessor => "DuplicateGeneratedAccessor"
  | undeterminedExpressionType => "UndeterminedExpressionType"
  | missingProjectSettings => "MissingProjectSettings"
  | invalidMarkerTarget => "InvalidMarkerTarget"
  | duplicateForcedUnionId => "DuplicateForcedUnionId"
  | unionCapacityExceeded => "UnionCapacityExceeded"
  | malformedMarkerAttribute => "MalformedMarkerAttribute"
  | unionVariantWithoutHeader => "UnionVariantWithoutHeader"
  | generationCancelled => "GenerationCancelled"
  | injectedExpressionHasNoValue => "InjectedExpressionHasNoValue"

/-- How grave the condition is. -/
def severity : DiagnosticCode → Severity
  | missingProjectSettings => .warning
  | generationCancelled => .info
  | _ => .error

/-- What the condition is. -/
def title : DiagnosticCode → String
  | registrationModeMismatch =>
    "mismatched manual/automatic registration in inheritance chain"
  | duplicateGeneratedAccessor =>
    "duplicate generated property name collision between two storage types"
  | undeterminedExpressionType => "could not determine expression type"
  | missingProjectSettings => "project settings asset not found"
  | invalidMarkerTarget => "marker attribute applied to an unsupported declaration"
  | duplicateForcedUnionId => "two union variants force the same type id"
  | unionCapacityExceeded => "union family has more variants than type ids"
  | malformedMarkerAttribute => "marker attribute arguments could not be read"
  | unionVariantWithoutHeader => "union variant does not start with a union header field"
  | generationCancelled => "generation was cancelled"
  | injectedExpressionHasNoValue => "injected expression does not produce a value"

end DiagnosticCode

/-! ### Diagnostics -/

/-- A declaration, narrowed down to a member and to a span of a statement of it. -/
structure Location where
  symbol : String
  member : Option String := none
  file : Option String := none
  span : Option Span := none
deriving DecidableEq, Repr

namespace Location

/-- The place of what belongs to no declaration. -/
def assembly : Location := { symbol := "<assembly>" }

/-- The text of a location. -/
def text (l : Location) : String :=
  let file := match l.file with
    | some f => f ++ ": "
    | none => ""
  let member := match l.member with
    | some m => "." ++ m
    | none => ""
  let span := match l.span with
    | some s => " [" ++ toString s.start ++ ".." ++ toString s.stop ++ "]"
    | none => ""
  file ++ l.symbol ++ member ++ span

/-- An absent part stands before a present one. -/
def compareOption {α : Type} (compare : α → α → Ordering) : Option α → Option α → Ordering
  | none, none => .eq
  | none, some _ => .lt
  | some _, none => .gt
  | some a, some b => compare a b

/-- Locations are ordered by symbol, member, file and span. -/
def compare (a b : Location) : Ordering :=
  (Ord.compare a.symbol b.symbol).then <|
    (compareOption Ord.compare a.member b.member).then <|
      (compareOption Ord.compare a.file b.file).then <|
        compareOption
          (fun s t => (Ord.compare s.start t.start).then (Ord.compare s.stop t.stop)) a.span b.span

end Location

/-- A reported condition. -/
structure Diagnostic where
  location : Location
  code : DiagnosticCode
  message : String
deriving DecidableEq, Repr

namespace Diagnostic

/-- How grave the condition is. -/
def severity (d : Diagnostic) : Severity := d.code.severity

def isError (d : Diagnostic) : Bool := d.severity == .error

/-- Diagnostics are ordered by location, code and message. -/
def compare (a b : Diagnostic) : Ordering :=
  (a.location.compare b.location).then <|
    (Ord.compare a.code.index b.code.index).then (Ord.compare a.message b.message)

/-- Whether a diagnostic may stand before another one. -/
def notAfter (a b : Diagnostic) : Bool := (a.compare b).isLE

/-- A list without the elements that equal the one before them. -/
def dropRepeats : List Diagnostic → List Diagnostic
  | a :: b :: rest => if a = b then dropRepeats (b :: rest) else a :: dropRepeats (b :: rest)
  | short => short

/-- The reporting order: sorted, each diagnostic once. -/
def normalize (ds : List Diagnostic) : List Diagnostic := dropRepeats (ds.mergeSort notAfter)

end Diagnostic

end Marksmith
