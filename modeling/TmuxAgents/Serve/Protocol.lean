/-
The remote wire protocol (`tma-proto`), as far as a session of `tma serve` reads it: what a
device asks for, and what it is answered. An open vocabulary keeps what it does not know,
so a value of one is its token.
-/
import TmuxAgents.Serve.Device

namespace TmuxAgents.Serve

/-- The wire version. -/
def schema : Nat := 1

def Scope.token : Scope → Text
  | .read => "read".toList
  | .actAnswer => "act:answer".toList
  | .actAlways => "act:always".toList
  | .actSteer => "act:steer".toList

/-! ## Requests -/

/-- What the device says of itself. `device` is its own claim. -/
structure Hello where
  app : Text
  appVersion : Text
  device : Text
deriving DecidableEq

/-- The binder's zero is no expectation. -/
structure Binder where
  expectEpisodeMs : Nat
  expectPermissionRequest : Option Text
deriving DecidableEq

/-- Fire one action at one pane. `device` is the device's own claim. -/
structure Dispatch where
  slot : Text
  host : Text
  pane : Text
  action : Text
  binder : Binder
  text : Option Text
  answers : Option (List (List Text))
  device : Option Text
deriving DecidableEq

structure Subscribe where
  events : Bool
deriving DecidableEq

/-- A request that reads, by what it reads. -/
inductive ReadRequest
  | snapshot
  | receipts
  | card (pane : Text)
  | window (pane : Text)
  | event (pane : Text)
deriving DecidableEq

inductive Request
  | hello (hello : Hello)
  | subscribe (subscribe : Subscribe)
  | dispatch (dispatch : Dispatch)
  | read (request : ReadRequest)
deriving DecidableEq

structure RequestFrame where
  schema : Nat
  id : Text
  body : Request
deriving DecidableEq

/-! ## Responses -/

inductive ErrorCode
  | unsupportedSchema
  | badRequest
  | notFound
  | cursorInvalid
  | scopeDenied
  | tooManyConnections
  | unsupported
  | internal
deriving DecidableEq

structure ErrorFrame where
  code : ErrorCode
  message : Text
deriving DecidableEq

structure HelloOk where
  host : Text
  tmaVersion : Text
  reconcileIntervalMs : Nat
  scopes : List Scope
deriving DecidableEq

structure Receipt where
  slot : Text
  pane : Text
  action : Text
  outcome : String
  reason : Option String
  exitCode : Int
  cached : Bool
  device : Option Text
  atMs : Nat
deriving DecidableEq

inductive Response
  | hello (ok : HelloOk)
  | receipt (receipt : Receipt)
  | ack
  | error (frame : ErrorFrame)
  /-- What a read came to, as it goes out. -/
  | read (body : Text)
deriving DecidableEq

/-- The version claim is judged before the shape. -/
def RequestFrame.acceptHello (frame : RequestFrame) : Except ErrorFrame Hello :=
  if frame.schema ≠ Serve.schema then
    .error { code := .unsupportedSchema
             message := "this host speaks protocol schema ".toList ++ Text.decimal Serve.schema ++
              "; the client asked for ".toList ++ Text.decimal frame.schema }
  else match frame.body with
    | .hello hello => .ok hello
    | _ => .error { code := .badRequest, message := "the first frame of a session must be `hello`".toList }

end TmuxAgents.Serve
