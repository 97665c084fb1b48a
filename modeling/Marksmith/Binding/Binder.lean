import Marksmith.Binding.Conversion

/-!
Binding of expressions. Names refer to lambda parameters, then to members of the owner and its
supertypes, then to types. A call takes the first candidate whose arguments fit; extension methods
come after methods of the receiver. What names refer to is recorded on the way, also while a
candidate that fails later is being tried.

Every expression gets a `Meaning`: how it binds as a value and as a qualifier. Both run over a
`Scope` and leave its parameters and its depth as they were.
-/

namespace Marksmith.Binding

open Syntax

/-- What binding runs over: the lambda parameters in scope, innermost first, the number of
expressions around the one being bound, and what names have been found to refer to, latest first. -/
structure Scope where
  locals : List (String × TypeRef) := []
  depth : Nat := 0
  referents : List (Span × Referent) := []
deriving Repr

/-- A computation over a scope that may fail; a failure keeps what has been recorded. -/
abbrev Bind := OptionT (StateM Scope)

/-- What an expression stands for in front of a point. -/
inductive Qualifier where
  | type (t : TypeRef)
  | value (t : TypeRef)
deriving Repr

namespace Bind

variable {α : Type}

def ofOption (a : Option α) : Bind α := OptionT.mk (pure a)

/-- Records what the name at a span refers to. -/
def record (span : Span) (referent : Referent) : Bind Unit :=
  modify fun s => { s with referents := (span, referent) :: s.referents }

/-- Runs a computation and keeps its failure as a value. -/
def attempt (b : Bind α) : Bind (Option α) := OptionT.mk do
  let result ← b.run
  return some result

/-- The first computation that does not fail. -/
def first (bs : List (Bind α)) : Bind α := bs.foldr (· <|> ·) failure

/-- Expressions nested more deeply than this do not bind. -/
def maxDepth : Nat := 64

/-- Runs a computation one level deeper. -/
def nested (b : Bind α) : Bind α := OptionT.mk do
  if (← get).depth > maxDepth then return none
  modify fun s => { s with depth := s.depth + 1 }
  let result ← b.run
  modify fun s => { s with depth := s.depth - 1 }
  return result

/-- Runs a computation with parameters in scope, the last one innermost, and drops as many
afterwards. -/
def withLocals (params : List (String × TypeRef)) (b : Bind α) : Bind α := OptionT.mk do
  modify fun s => { s with locals := params.reverse ++ s.locals }
  let result ← b.run
  modify fun s => { s with locals := s.locals.drop params.length }
  return result

end Bind

/-- How an expression binds. -/
structure Meaning where
  value : Bind TypeRef
  qualifier : Bind Qualifier

/-- The meaning of an expression that stands for a value only. -/
def Meaning.ofValue (b : Bind TypeRef) : Meaning :=
  ⟨b.nested, Qualifier.value <$> b.nested⟩

/-- The meaning of an expression that may stand for a type. -/
def Meaning.ofQualifier (q : Bind Qualifier) : Meaning :=
  let value : Bind TypeRef := do
    match ← q with
    | .value t => return t
    | .type _ => failure
  ⟨value.nested, q⟩

/-- An argument of a call. -/
inductive Argument where
  | plain (value : Bind TypeRef)
  | null
  | lambda (params : List String) (body : Bind TypeRef)

/-- The type of an argument on its own; `null` and lambdas have none. -/
def Argument.value : Argument → Bind TypeRef
  | plain value => value
  | null | lambda _ _ => failure

/-- A dotted name as a type, with type arguments on its last segment only. -/
def typePath? : Expr → Option TypeRef
  | .name _ n => some (.generic n.ident n.typeArgs)
  | .member _ target n => do
    let before ← typePath? target
    if before.args.isEmpty then
      return .generic (before.name ++ "." ++ n.node.ident) n.node.typeArgs
    else none
  | _ => none

section

variable (host : Host) (site : Site)

/-- The type of the owner over its own type parameters. -/
def ownerType? : Option TypeRef := (host.declaration? site.owner).map (·.selfType)

/-- A type as it is written at the site. -/
def resolve (t : TypeRef) : Bind TypeRef := Bind.ofOption (host.resolve? site.owner t)

/-- The field or else the property of this name that a declaration has: its type, and whether it is
a field. -/
def declaredMember? (d : TypeDecl) (name : String) : Option (TypeRef × Bool) :=
  ((d.fields.find? (·.name == name)).map fun f => (f.type, true)).or
    ((d.properties.find? (·.name == name)).map fun p => (p.type, false))

/-- The field or property of a type or of its nearest supertype that has one of this name. An array
has a length and nothing else. -/
def member? (t : TypeRef) (name : String) : Option (Referent × TypeRef) :=
  if t.rank > 0 then
    if name == "Length" then
      some (.property ⟨"System.Array", 0⟩ name (.named "int"), .named "int")
    else none
  else do
    let (current, d, declared, isField) ← (host.supertypes t).findSome? fun current => do
      let d ← host.declaration? (.ofType current)
      let (declared, isField) ← declaredMember? d name
      return (current, d, declared, isField)
    let type := (← host.resolve? d.symbol declared).substitute d.typeParams current.args
    return (if isField then .field d.symbol name type else .property d.symbol name type, type)

/-- A name as a lambda parameter or as a member of the owner. -/
def bindValueName (span : Span) (n : SimpleName) : Bind TypeRef := do
  let s ← get
  match if n.typeArgs.isEmpty then s.locals.lookup n.ident else none with
  | some t =>
    Bind.record span (.local n.ident t)
    return t
  | none =>
    let owner ← Bind.ofOption (ownerType? host site)
    let (referent, t) ← Bind.ofOption (member? host owner n.ident)
    Bind.record span referent
    return t

/-- A name as a value, and else as a type. -/
def bindName (span : Span) (n : SimpleName) : Bind Qualifier :=
  (Qualifier.value <$> bindValueName host site span n) <|> do
    let t ← resolve host site (.generic n.ident n.typeArgs)
    Bind.record span (.type t)
    return .type t

/-- A dotted name as a type behind a namespace. -/
def bindPath (span : Span) (path : Option TypeRef) : Bind Qualifier := do
  let t ← resolve host site (← Bind.ofOption path)
  Bind.record span (.type t)
  return .type t

/-- The type nested in another one under a name. -/
def nestedType? (outer : TypeRef) (n : SimpleName) : Option TypeRef :=
  host.resolve? site.owner (.generic (outer.name ++ "." ++ n.ident) n.typeArgs)

/-- A member access whose target stands for `target`: a nested type, or a member of the target. -/
def bindMember (span : Span) (n : Located SimpleName) (target : Qualifier) : Bind Qualifier :=
  match target with
  | .value t => access t
  | .type t =>
    match nestedType? host site t n.node with
    | some nested => do
      Bind.record span (.type nested)
      return .type nested
    | none => access t
where
  access (t : TypeRef) : Bind Qualifier := do
    let (referent, type) ← Bind.ofOption (member? host t n.node.ident)
    Bind.record n.span referent
    return .value type

/-! ### Calls -/

/-- A candidate of a call: a method with the type that declares it. -/
structure Candidate where
  decl : TypeDecl
  declaring : TypeRef
  method : MethodDecl

/-- The methods of this name that a type and its supertypes declare, nearest first. -/
def methodsOf (t : TypeRef) (name : String) : List Candidate :=
  (host.supertypes t).flatMap fun current =>
    match host.declaration? (.ofType current) with
    | none => []
    | some d =>
      (d.methods.filter fun m => m.name == name && !m.isExtension).map fun m => ⟨d, current, m⟩

/-- The extension methods of this name. -/
def extensionsOf (name : String) : List Candidate :=
  (host.extensionMethods.filter fun (_, m) => m.name == name).map fun (d, m) => ⟨d, d.selfType, m⟩

/-- The signature of a candidate at a call: the types of the parameters that take arguments, the
return type, and what is inferred from written type arguments and the receiver. -/
structure Signature where
  params : List TypeRef
  returns : TypeRef
  inferred : Host.Inferred

/-- The type arguments written at a call, for the type parameters in order. -/
def writtenTypeArgs? (typeParams : List String) (written : List TypeRef) : Option Host.Inferred :=
  if written.isEmpty then some []
  else if written.length ≠ typeParams.length then none
  else do
    let args ← written.mapM (host.resolve? site.owner)
    return (typeParams.zip args).reverse

/-- The signature of a candidate, if its types resolve and it takes the written type arguments, the
receiver and this number of arguments. -/
def signature? (c : Candidate) (written : List TypeRef) (receiver : Option TypeRef) (count : Nat) :
    Option Signature := do
  let typeOf (t : TypeRef) : Option TypeRef :=
    (host.resolveWith? c.decl.symbol c.method.typeParams t).map
      (·.substitute c.decl.typeParams c.declaring.args)
  let params ← c.method.params.mapM fun p => typeOf p.type
  let returns ← typeOf c.method.returns
  let inferred ← writtenTypeArgs? host site c.method.typeParams written
  match receiver, params with
  | none, params => if params.length = count then some ⟨params, returns, inferred⟩ else none
  | some t, first :: params =>
    let inferred ← host.unify? c.method.typeParams inferred first t
    if params.length = count then some ⟨params, returns, inferred⟩ else none
  | some _, [] => none

/-- The types of a lambda's parameters and, for a function, of its result, where a value of the
given type is wanted. -/
def lambdaShape? (expected : TypeRef) (count : Nat) : Option (List TypeRef × Option TypeRef) :=
  if expected.name == "System.Func" then
    match expected.args.getLast? with
    | some result =>
      if expected.args.length - 1 = count then some (expected.args.dropLast, some result) else none
    | none => none
  else if expected.name == "System.Action" then
    if expected.args.length = count then some (expected.args, none) else none
  else none

/-- Fits plain arguments to parameters. -/
def fitPlain (typeParams : List String) (inferred : Host.Inferred) :
    List TypeRef → List Argument → Bind Host.Inferred
  | param :: params, arg :: args =>
    match arg with
    | .plain value => do
      let inferred ← Bind.ofOption (host.unify? typeParams inferred param (← value))
      fitPlain typeParams inferred params args
    | _ => fitPlain typeParams inferred params args
  | _, _ => return inferred

/-- Fits lambda arguments to parameters. -/
def fitLambdas (typeParams : List String) (inferred : Host.Inferred) :
    List TypeRef → List Argument → Bind Host.Inferred
  | param :: params, arg :: args =>
    match arg with
    | .lambda names body => do
      let (inputs, result?) ← Bind.ofOption
        (lambdaShape? (param.withInferred typeParams inferred) names.length)
      if TypeRef.mentionsAny typeParams inputs then failure
      let type? ← Bind.attempt (Bind.withLocals (names.zip inputs) body)
      match result? with
      | none => fitLambdas typeParams inferred params args
      | some result =>
        let type ← Bind.ofOption type?
        let inferred ← Bind.ofOption (host.unify? typeParams inferred result type)
        fitLambdas typeParams inferred params args
    | _ => fitLambdas typeParams inferred params args
  | _, _ => return inferred

/-- The return type of a candidate, if the call fits it. Plain arguments are fitted first, so that
lambdas see what is inferred from them. -/
def tryCall (c : Candidate) (written : List TypeRef) (receiver : Option TypeRef)
    (args : List Argument) : Bind TypeRef := do
  let signature ← Bind.ofOption (signature? host site c written receiver args.length)
  let inferred ← fitPlain host c.method.typeParams signature.inferred signature.params args
  let inferred ← fitLambdas host c.method.typeParams inferred signature.params args
  let result := signature.returns.withInferred c.method.typeParams inferred
  if result.mentions c.method.typeParams then failure else return result

/-- Calls a candidate and records it. -/
def callCandidate (n : Located SimpleName) (receiver : Option TypeRef) (args : List Argument)
    (c : Candidate) : Bind TypeRef := do
  let returns ← tryCall host site c n.node.typeArgs receiver args
  Bind.record n.span (.method c.decl.symbol n.node.ident returns)
  return returns

/-- Calls a method of a type. -/
def callOn (t : TypeRef) (n : Located SimpleName) (args : List Argument) : Bind TypeRef :=
  Bind.first ((methodsOf host t n.node.ident).map (callCandidate host site n none args))

/-- Calls an extension method. -/
def callExtension (receiver : TypeRef) (n : Located SimpleName) (args : List Argument) :
    Bind TypeRef :=
  Bind.first ((extensionsOf host n.node.ident).map (callCandidate host site n (some receiver) args))

/-- Calls a method behind a point. -/
def callMember (n : Located SimpleName) (args : List Argument) : Qualifier → Bind TypeRef
  | .type t => callOn host site t n args
  | .value t => callOn host site t n args <|> callExtension host site t n args

/-! ### Expressions -/

/-- Binds every argument on its own. -/
def bindAll : List Argument → Bind Unit
  | [] => return ()
  | arg :: args => do
    let _ ← arg.value
    bindAll args

/-- Binds every argument on its own, failures included. -/
def attemptAll : List Argument → Bind Unit
  | [] => return ()
  | arg :: args => do
    let _ ← arg.value.attempt
    attemptAll args

/-- The type of an element of a value under an index: of an array's elements, or of its `Item`. -/
def elementType? (t : TypeRef) : Option TypeRef :=
  if t.rank > 0 then some { t with rank := t.rank - 1 }
  else (member? host t "Item").map (·.2)

/-- The type of a binary operation. Both operands are bound before a failure counts. -/
def bindBinary (op : BinaryOp) (left right : Bind (Option TypeRef)) : Bind TypeRef := do
  let l? ← left.attempt
  let r? ← right.attempt
  let l ← Bind.ofOption l?
  let r ← Bind.ofOption r?
  if op.isBoolean then return .named "bool" else Bind.ofOption (operationResult? op l r)

mutual

/-- The meaning of an expression. -/
def meaning : Expr → Meaning
  | .literal _ value => .ofValue (Bind.ofOption (literalType? value))
  | .this _ => .ofValue (Bind.ofOption (ownerType? host site))
  | .name span n => .ofQualifier (bindName host site span n)
  | .member span target n => .ofQualifier do
    match ← (meaning target).qualifier.attempt with
    | some q => bindMember host site span n q
    | none => bindPath host site span (typePath? (.member span target n))
  | .invoke _ (.name span n) args => .ofValue do
    let owner ← Bind.ofOption (ownerType? host site)
    callOn host site owner ⟨n, span⟩ (arguments args)
  | .invoke _ (.member _ target n) args => .ofValue do
    callMember host site n (arguments args) (← (meaning target).qualifier)
  | .invoke .. => .ofValue failure
  | .index _ target args => .ofValue do
    let t ← (meaning target).value
    bindAll (arguments args)
    Bind.ofOption (elementType? host t)
  | .cast _ type operand => .ofValue do
    let _ ← (meaning operand).value.attempt
    resolve host site type.node
  | .new _ type args => .ofValue do
    attemptAll (arguments args)
    resolve host site type.node
  | .lambda .. => .ofValue failure
  | .unary _ .not operand => .ofValue do
    let _ ← (meaning operand).value
    return .named "bool"
  | .unary _ .neg operand => .ofValue (meaning operand).value
  | .binary _ left op right => .ofValue (bindBinary op (operand left) (operand right))
  | .paren _ inner => .ofValue (meaning inner).value

/-- An operand; `null` binds to no type. -/
def operand : Expr → Bind (Option TypeRef)
  | .literal _ .null => return none
  | e => some <$> (meaning e).value

/-- The arguments of a call. -/
def arguments : List Expr → List Argument
  | [] => []
  | .literal _ .null :: es => .null :: arguments es
  | .lambda _ params body :: es =>
    .lambda (params.map (·.node)) (meaning body).value :: arguments es
  | e :: es => .plain (meaning e).value :: arguments es

end

end

end Marksmith.Binding

namespace Marksmith.Host

open Syntax Binding

/-- The type of an expression at a site, if it binds. -/
def speculativeType? (host : Host) (site : Site) (e : Expr) : Option TypeRef :=
  ((meaning host site e).value.run {}).1

/-- What the names of an expression refer to, by their spans: what is recorded last counts. -/
def nameReferents (host : Host) (site : Site) (e : Expr) : List (Span × Referent) :=
  ((meaning host site e).value.run {}).2.referents.foldr
    (fun entry found => entry :: found.filter (·.1 ≠ entry.1)) []

end Marksmith.Host
