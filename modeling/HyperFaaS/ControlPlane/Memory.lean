import HyperFaaS.ControlPlane.Spec

/-!
The store in memory (`pkg/controlplane/store/memory/memory.go`), call by call. Every
call holds the store's lock, so a call is one step.

Maps are finite; the order of their entries is not observable but in the events of
one `DeleteUser`. A call returns the events it hands to `emitLocked`; what becomes of
them in a full channel is left out here. The mailboxes of config watchers have their
own module.
-/

namespace HyperFaaS.ControlPlane.Memory

abbrev Users := AList fun _ : UInt64 => UserSpec

abbrev Functions := AList fun _ : UInt64 => FunctionSpec

structure Store where
  nextUserID : UInt64
  nextFunctionID : UInt64
  users : Users
  functions : AList fun _ : UInt64 => Functions
  closed : Bool
  configVersion : Nat
  platformConfig : Option PlatformConfig

namespace Store

def new : Store where
  nextUserID := 1
  nextFunctionID := 1
  users := ∅
  functions := ∅
  closed := false
  configVersion := 0
  platformConfig := none

/-- `s.functions[userID]`; a missing map reads as an empty one. -/
def functionsOf (s : Store) (userID : UInt64) : Functions := (s.functions.lookup userID).getD ∅

def storeClosed : Status := ⟨.failedPrecondition, "store is closed"⟩

def close (s : Store) : Store := { s with closed := true }

/-- A call that fails. -/
def fail (s : Store) (e : Status) : Result × Store × List FunctionEvent := (.error e, s, [])

def createUser (s : Store) : Option UserSpec → Result × Store × List FunctionEvent
  | none => s.fail (invalid "user is required")
  | some user =>
      if user.name = "" then s.fail (invalid "user.name is required")
      else if s.closed then s.fail storeClosed
      else
        let id := if user.userId = 0 then s.nextUserID else user.userId
        let s := if user.userId = 0 then { s with nextUserID := s.nextUserID + 1 } else s
        let user := { user with userId := id }
        if (s.users.lookup id).isSome then
          s.fail ⟨.alreadyExists, "user " ++ toString id ++ " already exists"⟩
        else (.ok (.user user), { s with users := s.users.insert id user }, [])

def updateUser (s : Store) : Option UserSpec → Result × Store × List FunctionEvent
  | none => s.fail (invalid "user.user_id is required")
  | some user =>
      if user.userId = 0 then s.fail (invalid "user.user_id is required")
      else if user.name = "" then s.fail (invalid "user.name is required")
      else if s.closed then s.fail storeClosed
      else if (s.users.lookup user.userId).isNone then s.fail (userNotFound user.userId)
      else (.ok .done, { s with users := s.users.insert user.userId user }, [])

def deleteUser (s : Store) (userID : UInt64) : Result × Store × List FunctionEvent :=
  if userID = 0 then s.fail (invalid "user_id is required")
  else if s.closed then s.fail storeClosed
  else if (s.users.lookup userID).isNone then s.fail (userNotFound userID)
  else
    (.ok .done,
      { s with users := s.users.erase userID, functions := s.functions.erase userID },
      (s.functionsOf userID).keys.map fun functionID =>
        ⟨.deleted, .deleted userID functionID⟩)

def getUser (s : Store) (userID : UInt64) : Result × Store × List FunctionEvent :=
  match s.users.lookup userID with
  | none => s.fail (userNotFound userID)
  | some user => (.ok (.user user), s, [])

def listUsers (s : Store) : Result × Store × List FunctionEvent :=
  (.ok (.users ((s.users.entries.map (·.2)).insertionSort byUserId)), s, [])

def validateFunction : Option FunctionSpec → Except Status FunctionSpec
  | none => .error (invalid "function is required")
  | some function =>
      if function.userId = 0 then .error (invalid "function.user_id is required")
      else
        match function.runtime with
        | none => .error (invalid "function.runtime is required")
        | some runtime =>
            if runtime.image = "" then .error (invalid "function.runtime.image is required")
            else if runtime.protocol ≠ "http" ∧ runtime.protocol ≠ "grpc" then
              .error (badProtocol runtime.protocol)
            else .ok function

def createFunction (s : Store) (function : Option FunctionSpec) :
    Result × Store × List FunctionEvent :=
  match validateFunction function with
  | .error e => s.fail e
  | .ok function =>
      if s.closed then s.fail storeClosed
      else if (s.users.lookup function.userId).isNone then s.fail (userNotFound function.userId)
      else
        let id := if function.functionId = 0 then s.nextFunctionID else function.functionId
        let s := if function.functionId = 0 then { s with nextFunctionID := s.nextFunctionID + 1 }
          else s
        let function := { function with functionId := id }
        let userFuncs := s.functionsOf function.userId
        let s := { s with functions := s.functions.insert function.userId userFuncs }
        if (userFuncs.lookup id).isSome then
          s.fail ⟨.alreadyExists,
            "function " ++ toString function.userId ++ "/" ++ toString id ++ " already exists"⟩
        else
          (.ok (.function function),
            { s with
              functions := s.functions.insert function.userId (userFuncs.insert id function) },
            [⟨.created, function⟩])

def updateFunction (s : Store) (function : Option FunctionSpec) :
    Result × Store × List FunctionEvent :=
  match validateFunction function with
  | .error e => s.fail e
  | .ok function =>
      if function.functionId = 0 then s.fail (invalid "function.function_id is required")
      else if s.closed then s.fail storeClosed
      else
        match s.functions.lookup function.userId with
        | none => s.fail (functionNotFound function.userId function.functionId)
        | some userFuncs =>
            if (userFuncs.lookup function.functionId).isNone then
              s.fail (functionNotFound function.userId function.functionId)
            else
              (.ok .done,
                { s with
                  functions := s.functions.insert function.userId
                    (userFuncs.insert function.functionId function) },
                [⟨.updated, function⟩])

def deleteFunction (s : Store) (userID functionID : UInt64) :
    Result × Store × List FunctionEvent :=
  if userID = 0 ∨ functionID = 0 then s.fail (invalid "user_id and function_id are required")
  else if s.closed then s.fail storeClosed
  else
    match s.functions.lookup userID with
    | none => s.fail (functionNotFound userID functionID)
    | some userFuncs =>
        if (userFuncs.lookup functionID).isNone then s.fail (functionNotFound userID functionID)
        else
          let userFuncs := userFuncs.erase functionID
          -- the map of a user without functions is dropped
          let functions := if userFuncs.entries.isEmpty then s.functions.erase userID
            else s.functions.insert userID userFuncs
          (.ok .done, { s with functions := functions }, [⟨.deleted, .deleted userID functionID⟩])

def getFunction (s : Store) (userID functionID : UInt64) : Result × Store × List FunctionEvent :=
  match (s.functionsOf userID).lookup functionID with
  | none => s.fail (functionNotFound userID functionID)
  | some function => (.ok (.function function), s, [])

def listFunctions (s : Store) (userID : UInt64) : Result × Store × List FunctionEvent :=
  (.ok (.functions (((s.functionsOf userID).entries.map (·.2)).insertionSort byFunctionId)), s, [])

def getPlatformConfig (s : Store) : Result × Store × List FunctionEvent :=
  match s.platformConfig with
  | none => s.fail ⟨.notFound, "platform config not set"⟩
  | some cfg => (.ok (.config cfg), s, [])

def putPlatformConfig (s : Store) (cfg : Option PlatformConfig) (expectedVersion : Nat) :
    Result × Store × List FunctionEvent :=
  match cfg with
  | none => s.fail (invalid "platform config is required")
  | some cfg =>
      if s.closed then s.fail storeClosed
      else if expectedVersion ≠ 0 ∧ expectedVersion ≠ s.configVersion then
        s.fail ⟨.aborted, "platform config version changed: expected " ++
          toString expectedVersion ++ ", current " ++ toString s.configVersion⟩
      else
        let stored := { cfg with version := s.configVersion + 1 }
        (.ok (.config stored),
          { s with configVersion := s.configVersion + 1, platformConfig := some stored }, [])

def step (s : Store) : Op → Result × Store × List FunctionEvent
  | .createUser user => s.createUser user
  | .updateUser user => s.updateUser user
  | .deleteUser userID => s.deleteUser userID
  | .getUser userID => s.getUser userID
  | .listUsers => s.listUsers
  | .createFunction function => s.createFunction function
  | .updateFunction function => s.updateFunction function
  | .deleteFunction userID functionID => s.deleteFunction userID functionID
  | .getFunction userID functionID => s.getFunction userID functionID
  | .listFunctions userID => s.listFunctions userID
  | .getPlatformConfig => s.getPlatformConfig
  | .putPlatformConfig cfg expectedVersion => s.putPlatformConfig cfg expectedVersion

end Store

end HyperFaaS.ControlPlane.Memory
