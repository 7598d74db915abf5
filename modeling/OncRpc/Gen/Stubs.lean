import OncRpc.Gen.Layout
import OncRpc.Server.Dispatch

/-!
# Client and server stubs

For every version of a program the stub emitter writes a constant for each procedure, two clients, a
further implementation of caller-owned calls, and two servers.  A client method names its procedure
by the constant; an arm of a dispatcher has the number written out.  Methods are named by the
lower-case form of the procedure's name.

`GeneratedVersion` is what is written.  A dispatcher takes the first arm of a number, so that of two
procedures with the same number only the first is ever called.
-/

namespace OncRpc

open Foundation

/-! ## What is written -/

/-- The function of the runtime that a client method calls. -/
inductive ClientCall where
  | callTyped
  | callTypedWithOptions
  | callXdrSegmented
  | tryCallXdrSegmented
  | callXdrInto
  | tryCallXdrInto
  deriving DecidableEq

/-- A method of a client. -/
structure ClientMethod where
  name : String
  call : ClientCall
  /-- The constant with the number of the procedure. -/
  constant : String
  argument : RustType
  reply : RustType
  deriving DecidableEq

/-- A method of a service. -/
structure ServiceMethod where
  name : String
  argument : RustType
  reply : RustType
  deriving DecidableEq

/-- An arm of a dispatcher: it decodes the argument, calls a method and encodes the reply. -/
structure DispatchArm where
  number : UInt32
  argument : RustType
  method : String
  reply : RustType
  deriving DecidableEq

/-- The modules `client` and `async_client`; the latter has a second implementation. -/
structure ClientStubs where
  client : List ClientMethod
  asyncClient : List ClientMethod
  ownedClient : List ClientMethod
  deriving DecidableEq

/-- A service and its dispatcher. -/
structure ServerModule where
  service : List ServiceMethod
  arms : List DispatchArm
  deriving DecidableEq

/-- The modules `server` and `async_server`. -/
structure ServerStubs where
  server : ServerModule
  asyncServer : ServerModule
  deriving DecidableEq

/-- The module of a version. -/
structure GeneratedVersion where
  constants : List (String × UInt32)
  client : Option ClientStubs
  server : Option ServerStubs
  deriving DecidableEq

/-! ## The emitter -/

/-- What the stub emitter knows. -/
structure StubEmitter where
  currentModule : Option String
  typeOwners : List (String × String)
  emitClient : Bool
  emitServer : Bool
  ownedLayouts : OwnedLayouts

/-- The name of a method. -/
def toSnakeCase (input : String) : String := String.ofList (input.toList.map Char.toLower)

/-- The types of the arguments and of the reply of a procedure. -/
structure ProcedureTypes where
  argument : RustType
  reply : RustType

namespace StubEmitter

variable (emitter : StubEmitter)

/-- A sibling of a type: with the path of the type's owner, if modules are written. -/
def siblingType (name sibling : String) : String :=
  match emitter.currentModule, emitter.typeOwners.reverse.lookup name with
  | some _, some owner => "crate::" ++ owner ++ "::" ++ sibling
  | _, _ => sibling

/-- The name of a type. -/
def qualifyTypeName (name : String) : String := emitter.siblingType name name

/-- The type of an argument or of a reply. -/
def procedureRustType : TypeSpec → Except GeneratorError RustType
  | .void => .ok .unit
  | .bool => .ok .bool
  | .int => .ok .i32
  | .unsignedInt => .ok .u32
  | .hyper => .ok .i64
  | .unsignedHyper => .ok .u64
  | .float => .ok .f32
  | .double => .ok .f64
  | .quadruple => .ok (.array .u8 (.number 16))
  | .opaqueData => .ok .u8
  | .string => .ok (.string none)
  | .identifier name => .ok (.named (emitter.qualifyTypeName name))
  | .enum _ | .struct _ | .union _ => .error (.unsupportedConstruct
      "inline program procedure types are not yet supported in stub emission")
  | .opaqueLength bound => .ok (.opaqueLength bound)
  | .opaqueSegments bound => .ok (.opaqueSegments bound)

/-- The types of a procedure. -/
def procedureTypes (procedure : ProcedureDecl) : Except GeneratorError ProcedureTypes := do
  let request ← emitter.procedureRustType procedure.argumentType
  let reply ← emitter.procedureRustType procedure.returnType
  return ⟨request, reply⟩

/-- The metadata of a reply type. -/
def metadataName (procedure : ProcedureDecl) : Option String :=
  match procedure.returnType with
  | .identifier name =>
    (emitter.ownedLayouts.metadataName name).map (emitter.siblingType name)
  | _ => none

/-- The segmented form of an argument type. -/
def segmentsName (procedure : ProcedureDecl) : Option String :=
  match procedure.argumentType with
  | .identifier name =>
    (emitter.ownedLayouts.segmentsName name).map (emitter.siblingType name)
  | _ => none

/-- The names of the caller-owned methods of a procedure. -/
def ownedNames (procedure : ProcedureDecl) : List String :=
  let method := toSnakeCase procedure.name
  [method ++ "_segmented", "try_" ++ method ++ "_segmented"] ++
    if (emitter.metadataName procedure).isSome then [method ++ "_into", "try_" ++ method ++ "_into"]
    else []

/-- The names of the ordinary methods of a procedure. -/
def ordinaryNames (procedure : ProcedureDecl) : List String :=
  let method := toSnakeCase procedure.name
  [method, method ++ "_with_options"]

/-- Take the name of a caller-owned method, unless it is taken. -/
def insertOwned (version : String) (names : List String) (name : String) :
    Except GeneratorError (List String) :=
  if name ∈ names then .error (.unsupportedConstruct
    ("generated caller-owned method name collides in version " ++ version ++ ": " ++ name))
  else .ok (name :: names)

/-- The names that are taken before any caller-owned method. -/
def takenNames (version : VersionDecl) : List String :=
  "new" :: version.procedures.flatMap ordinaryNames

/-- Check the names of the caller-owned methods. -/
def validateOwnedMethodNames (version : VersionDecl) : Except GeneratorError Unit := do
  let _ ← (version.procedures.flatMap emitter.ownedNames).foldlM (insertOwned version.name)
    (takenNames version)
  return ()

/-- The two ordinary client methods of a procedure. -/
def clientMethods (procedure : ProcedureDecl) : Except GeneratorError (List ClientMethod) := do
  let method := toSnakeCase procedure.name
  let types ← emitter.procedureTypes procedure
  return [⟨method, .callTyped, procedure.name, types.argument, types.reply⟩,
    ⟨method ++ "_with_options", .callTypedWithOptions, procedure.name, types.argument, types.reply⟩]

/-- The blocking methods. -/
def emitClientMethod := emitter.clientMethods

/-- The methods that are awaited. -/
def emitAsyncClientMethod := emitter.clientMethods

/-- The caller-owned methods; an argument with a segmented form is taken in that form. -/
def emitOwnedClientMethods (procedure : ProcedureDecl) :
    Except GeneratorError (List ClientMethod) := do
  let method := toSnakeCase procedure.name
  let types ← emitter.procedureTypes procedure
  let argument := ((emitter.segmentsName procedure).map RustType.named).getD types.argument
  let segmented : List ClientMethod :=
    [⟨method ++ "_segmented", .callXdrSegmented, procedure.name, argument, types.reply⟩,
      ⟨"try_" ++ method ++ "_segmented", .tryCallXdrSegmented, procedure.name,
        argument, types.reply⟩]
  match emitter.metadataName procedure with
  | none => return segmented
  | some metadata => return segmented ++
      [⟨method ++ "_into", .callXdrInto, procedure.name, argument, .named metadata⟩,
        ⟨"try_" ++ method ++ "_into", .tryCallXdrInto, procedure.name, argument, .named metadata⟩]

/-- The method of a service. -/
def serviceMethod (procedure : ProcedureDecl) : Except GeneratorError ServiceMethod := do
  let types ← emitter.procedureTypes procedure
  return ⟨toSnakeCase procedure.name, types.argument, types.reply⟩

/-- The method of a blocking service. -/
def emitServiceMethod := emitter.serviceMethod

/-- The method of an asynchronous service. -/
def emitAsyncServiceMethod := emitter.serviceMethod

/-- The arm of a dispatcher. -/
def dispatchArm (procedure : ProcedureDecl) : Except GeneratorError DispatchArm := do
  let types ← emitter.procedureTypes procedure
  return ⟨procedure.number, types.argument, toSnakeCase procedure.name, types.reply⟩

/-- The arm of a blocking dispatcher. -/
def emitDispatchArm := emitter.dispatchArm

/-- The arm of an asynchronous dispatcher. -/
def emitAsyncDispatchArm := emitter.dispatchArm

/-- The clients of a version. -/
def emitClientStubs (version : VersionDecl) : Except GeneratorError ClientStubs := do
  let client ← version.procedures.mapM emitter.emitClientMethod
  let asyncClient ← version.procedures.mapM emitter.emitAsyncClientMethod
  let ownedClient ← version.procedures.mapM emitter.emitOwnedClientMethods
  return ⟨client.flatten, asyncClient.flatten, ownedClient.flatten⟩

/-- The servers of a version. -/
def emitServerStubs (version : VersionDecl) : Except GeneratorError ServerStubs := do
  let service ← version.procedures.mapM emitter.emitServiceMethod
  let arms ← version.procedures.mapM emitter.emitDispatchArm
  let asyncService ← version.procedures.mapM emitter.emitAsyncServiceMethod
  let asyncArms ← version.procedures.mapM emitter.emitAsyncDispatchArm
  return ⟨⟨service, arms⟩, ⟨asyncService, asyncArms⟩⟩

/-- A part that is written only if it is asked for. -/
def emitIf {α : Type} (on : Bool) (part : Except GeneratorError α) :
    Except GeneratorError (Option α) :=
  if on then part.map some else .ok none

/-- The module of a version. -/
def emitVersion (version : VersionDecl) : Except GeneratorError GeneratedVersion := do
  let _ ← emitIf emitter.emitClient (emitter.validateOwnedMethodNames version)
  let client ← emitIf emitter.emitClient (emitter.emitClientStubs version)
  let server ← emitIf emitter.emitServer (emitter.emitServerStubs version)
  return ⟨("VERSION", version.number) :: version.procedures.map fun p => (p.name, p.number), client,
    server⟩

end StubEmitter

/-! ## What it means -/

/-- The codecs of the types that stubs use. -/
structure StubCodec where
  decode : RustType → Bytes → Option Value
  encode : RustType → Value → Option Bytes

/-- A service: what its methods do. -/
abbrev StubService := String → Value → Except DispatchError Value

/-- Run an arm. -/
def DispatchArm.serve (arm : DispatchArm) (codec : StubCodec) (service : StubService)
    (payload : Bytes) :
    Except DispatchError Bytes :=
  match codec.decode arm.argument payload with
  | none => .error .garbageArgs
  | some argument => do
    let response ← service arm.method argument
    match codec.encode arm.reply response with
    | none => .error .systemError
    | some bytes => .ok bytes

/-- Run a dispatcher: the first arm with the number is taken. -/
def ServerModule.dispatch (m : ServerModule) (codec : StubCodec) (service : StubService)
    (procedure : UInt32) (payload : Bytes) : Except DispatchError Bytes :=
  match m.arms.find? fun arm => arm.number = procedure with
  | some arm => arm.serve codec service payload
  | none => .error .procedureUnavailable

/-- What a name means in a scope.  Two definitions of one name in a scope are an error of the
compiler. -/
def resolve {α : Type} (key : α → String) (scope : List α) (name : String) : Option α :=
  match scope.filter fun a => key a = name with
  | [a] => some a
  | _ => none

/-- The number a client method sends. -/
def GeneratedVersion.sends (g : GeneratedVersion) (method : ClientMethod) : Option UInt32 :=
  (resolve Prod.fst g.constants method.constant).map Prod.snd

end OncRpc
