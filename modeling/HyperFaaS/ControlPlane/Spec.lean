import Mathlib.Data.List.AList
import Mathlib.Data.List.Sort

/-!
What the control plane stores (`pkg/core`), and what its store interface returns
(`pkg/controlplane/store/store.go`).

Users, functions and the platform configuration keep the fields that a store or a
leaf looks at; the rest of each message is one text, which is cloned, encoded and
decoded as a whole and never read. `ObservedAt` of an event is left out.
-/

namespace HyperFaaS.ControlPlane

/-- The status codes of gRPC that the stores use; `unknown` is that of a plain error. -/
inductive Code
  | invalidArgument
  | notFound
  | alreadyExists
  | aborted
  | failedPrecondition
  | internal
  | unknown
  deriving DecidableEq, Repr

structure Status where
  code : Code
  message : String
  deriving DecidableEq, Repr

structure UserSpec where
  userId : UInt64
  name : String
  deriving DecidableEq, Repr

structure RuntimeSpec where
  image : String
  protocol : String
  rest : String
  deriving DecidableEq, Repr

structure FunctionSpec where
  userId : UInt64
  functionId : UInt64
  runtime : Option RuntimeSpec
  scale : String
  deriving DecidableEq, Repr

/-- The event of a deletion has the two ids only. -/
def FunctionSpec.deleted (userID functionID : UInt64) : FunctionSpec :=
  ⟨userID, functionID, none, ""⟩

inductive FunctionEventType
  | created
  | updated
  | deleted
  deriving DecidableEq, Repr

structure FunctionEvent where
  type : FunctionEventType
  function : FunctionSpec
  deriving DecidableEq, Repr

/-- Versions count writes. -/
structure PlatformConfig where
  version : Nat
  document : String
  deriving DecidableEq, Repr

/-- One call of the store interface; a missing message is `none`. -/
inductive Op
  | createUser (user : Option UserSpec)
  | updateUser (user : Option UserSpec)
  | deleteUser (userID : UInt64)
  | getUser (userID : UInt64)
  | listUsers
  | createFunction (function : Option FunctionSpec)
  | updateFunction (function : Option FunctionSpec)
  | deleteFunction (userID functionID : UInt64)
  | getFunction (userID functionID : UInt64)
  | listFunctions (userID : UInt64)
  | getPlatformConfig
  | putPlatformConfig (cfg : Option PlatformConfig) (expectedVersion : Nat)
  deriving DecidableEq, Repr

/-- What a call returns. A creation leaves the assigned id in its argument, so it
returns the argument. -/
inductive Reply
  | done
  | user (user : UserSpec)
  | users (users : List UserSpec)
  | function (function : FunctionSpec)
  | functions (functions : List FunctionSpec)
  | config (cfg : PlatformConfig)
  deriving DecidableEq, Repr

abbrev Result := Except Status Reply

/-- The order of `sort.Slice` in the two listings. -/
def byUserId (x y : UserSpec) : Prop := x.userId ≤ y.userId

def byFunctionId (x y : FunctionSpec) : Prop := x.functionId ≤ y.functionId

instance : DecidableRel byUserId := fun x y => inferInstanceAs (Decidable (x.userId ≤ y.userId))

instance : DecidableRel byFunctionId := fun x y =>
  inferInstanceAs (Decidable (x.functionId ≤ y.functionId))

def invalid (message : String) : Status := ⟨.invalidArgument, message⟩

def userNotFound (userID : UInt64) : Status :=
  ⟨.notFound, "user " ++ toString userID ++ " not found"⟩

def functionNotFound (userID functionID : UInt64) : Status :=
  ⟨.notFound, "function " ++ toString userID ++ "/" ++ toString functionID ++ " not found"⟩

def badProtocol (protocol : String) : Status :=
  invalid ("function.runtime.protocol must be http or grpc, got " ++ reprStr protocol)

end HyperFaaS.ControlPlane
