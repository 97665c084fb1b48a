import Marksmith.Inference.Resolver
import Marksmith.Source.File
import Marksmith.Source.Page
import Marksmith.Source.Project

/-!
Injected properties. Every assignment in a method that is marked for injection becomes a property
with the type of its value. The first assignment to a name decides; names that the class declares
itself are left alone. A value whose type is not found gives a property of type `object` and a
report; a call that gives no value gives a report only. What is generated for a property is a
backing field and the property itself.
-/

namespace Marksmith

open Syntax
open Source (Piece)
open Source.Piece (block privateField reference)

/-! ### Properties -/

/-- A property that an assignment asks for. -/
structure InjectedProperty where
  name : String
  /-- Nothing if the type has not been found. -/
  type : Option TypeRef
  isPublic : Bool
  isStatic : Bool
  /-- The method with the assignment. -/
  method : String
deriving DecidableEq, Repr

namespace Injection

/-- A statement of a method that is marked for injection. -/
structure Source where
  options : InjectOptions
  method : MethodDecl
  /-- The place of the statement in the method. -/
  place : Nat
  statement : BodyStatement

/-- The statements of the methods that are marked for injection. A method is looked up by its
name. -/
def sources (d : TypeDecl) (methods : List InjectMethod) : List Source :=
  methods.flatMap fun inject =>
    match d.methods.find? (·.name == inject.name) with
    | none => []
    | some method =>
      method.body.zipIdx.map fun (statement, i) => ⟨inject.options, method, i, statement⟩

variable (project : Project) (token : Token) (d : TypeDecl)

/-- The location of a method's statement. -/
def location (method : MethodDecl) (span : Option Span) : Location :=
  { d.location with member := some method.name, span }

/-- The report that a statement cannot be parsed. -/
def parseReport (s : Source) (e : SyntaxError) : Diagnostic :=
  ⟨location d s.method none, .undeterminedExpressionType,
    "could not parse `" ++ s.statement.text ++ "`: " ++ e.message⟩

/-- The report that a value gives nothing to assign. -/
def valueReport (s : Source) (target : String) (value : Expr) : Diagnostic :=
  ⟨location d s.method (some value.span), .injectedExpressionHasNoValue,
    "`" ++ value.text ++ "` does not produce a value to assign to `" ++ target ++ "`"⟩

/-- The report that the type of a value has not been found. -/
def typeReport (s : Source) (target : String) (value : Expr) (e : ResolveError) : Diagnostic :=
  ⟨location d s.method (some value.span), .undeterminedExpressionType,
    e.message ++ "; `" ++ target ++ "` is typed `object`"⟩

/-- The property of a first assignment. -/
def property (s : Source) (target : String) (type : Option TypeRef) : InjectedProperty :=
  ⟨target, type, s.options.isPublic, s.method.isStatic, s.method.name⟩

/-- What a first assignment gives. -/
def assigned (s : Source) (target : String) (value : Expr) :
    Except Cancelled (Option InjectedProperty × Option Diagnostic) :=
  let site : Site := ⟨d.symbol, some s.method.name, some s.place⟩
  match Resolver.resolveAssignment project.host project.index token site target value with
  | .ok resolution =>
    if resolution.type.name == "void" then .ok (none, some (valueReport d s target value))
    else .ok (some (property s target (some resolution.type)), none)
  | .error .cancelled => .error .cancelled
  | .error e => .ok (some (property s target none), some (typeReport d s target value e))

/-- The properties that statements ask for, and the reports on them; `seen` are the names that have
been assigned to. -/
def collect (seen : List String) :
    List Source → Except Cancelled (List InjectedProperty × List Diagnostic)
  | [] => .ok ([], [])
  | s :: rest => do
    token.checkpoint
    match parseStatement s.statement.text with
    | .error e =>
      let (properties, reports) ← collect seen rest
      return (properties, parseReport d s e :: reports)
    | .ok (.expr _) => collect seen rest
    | .ok (.assign _ target value) =>
      if d.declaresMember target.node || seen.contains target.node then collect seen rest
      else
        let (property?, report?) ← assigned project token d s target.node value
        let (properties, reports) ← collect (target.node :: seen) rest
        return (property?.toList ++ properties, report?.toList ++ reports)

/-- The properties that the methods of a declaration ask for, and the reports on them. -/
def properties (methods : List InjectMethod) :
    Except Cancelled (List InjectedProperty × List Diagnostic) :=
  collect project token d [] (sources d methods)

end Injection

/-! ### Generated members -/

namespace InjectedProperty

variable (host : Host) (p : InjectedProperty)

/-- The type in generated text. -/
def typeText : String :=
  match p.type with
  | some t => host.typeText t
  | none => "object"

/-- The name of the backing field. -/
def fieldName : String := "_" ++ Identifier.lowerFirst p.name

/-- The modifier and the type. -/
def typed : String := (if p.isStatic then "static " else "") ++ p.typeText host

/-- The backing field and the property. -/
def pieces : List Piece :=
  .blankLine ::
    privateField (p.typed host ++ " " ++ p.fieldName ++ " = default!") ++
    .blankLine ::
    .doc ("Assigned in " ++ reference p.method ++ ".") ::
    block ((if p.isPublic then "public" else "private") ++ " " ++ p.typed host ++ " " ++ p.name)
      (Piece.getter p.fieldName ++
        [.line ((if p.isPublic then "private set" else "set") ++ " => " ++ p.fieldName ++
          " = value;")])

end InjectedProperty

/-- The source for the methods of a type that are marked for injection. -/
def Project.injectionOutput (project : Project) (token : Token) (symbol : Symbol) :
    Except Cancelled Output :=
  match project.host.declaration? symbol, project.index.injectors.get? symbol with
  | some d, some methods => do
    let (properties, diagnostics) ← Injection.properties project token d methods
    if properties.isEmpty then return { diagnostics }
    else
      return {
        files :=
          [{ name := SourceFile.nameFor symbol .injection
             text := SourceFile.textOf project.settings <|
               Piece.within (SourceFile.scopeOf project.host d)
                 (properties.flatMap (·.pieces project.host)) }]
        diagnostics }
  | _, _ => .ok {}

end Marksmith
