import HyperFaaS.ControlPlane.Spec
import HyperFaaS.Lib.Decimal
import Mathlib.Algebra.Ring.Nat

/-!
The store in etcd (`pkg/controlplane/store/etcd/etcd.go`). `KV` is the part of etcd
that it uses: keys with their values and their create and modification revisions, one
revision for each transaction that changes something, and the watch events of that
change. The calls are written over its operations in the order in which the code
issues them.

A value is a message in its JSON form, which decodes to the message it was encoded
from. The order of keys in a range is not observable: the listings sort, and the
bootstrap takes a maximum.
-/

namespace HyperFaaS.ControlPlane.Etcd

abbrev Key := List Char

/-- An encoded message. -/
inductive Value
  | user (user : UserSpec)
  | function (function : FunctionSpec)
  | config (cfg : PlatformConfig)
  deriving DecidableEq, Repr

def undecodable : Status := ⟨.unknown, "proto: syntax error"⟩

def decodeUser : Value → Except Status UserSpec
  | .user user => .ok user
  | _ => .error undecodable

def decodeFunction : Value → Except Status FunctionSpec
  | .function function => .ok function
  | _ => .error undecodable

def decodePlatformConfig : Value → Except Status PlatformConfig
  | .config cfg => .ok cfg
  | _ => .error undecodable

structure KeyValue where
  value : Value
  createRevision : Nat
  modRevision : Nat
  deriving DecidableEq, Repr

inductive Event
  | put (key : Key) (kv : KeyValue)
  | delete (key : Key)
  deriving DecidableEq, Repr

inductive Write
  | put (key : Key) (value : Value)
  | delete (key : Key)
  deriving DecidableEq, Repr

/-! ## The key-value store -/

structure KV where
  revision : Nat
  kvs : AList fun _ : Key => KeyValue

namespace KV

def get (e : KV) (key : Key) : Option KeyValue := e.kvs.lookup key

/-- A range read: all keys that begin with `p`. -/
def getPrefixed (e : KV) (p : Key) : List (Key × KeyValue) :=
  (e.kvs.entries.filter fun x => p.isPrefixOf x.1).map fun x => (x.1, x.2)

/-- Zero for a key that is not there. -/
def createRevision (e : KV) (key : Key) : Nat := ((e.get key).map KeyValue.createRevision).getD 0

def modRevision (e : KV) (key : Key) : Nat := ((e.get key).map KeyValue.modRevision).getD 0

/-- One write of the transaction that makes revision `r`. -/
def write (r : Nat) (kvs : AList fun _ : Key => KeyValue) : Write →
    (AList fun _ : Key => KeyValue) × List Event
  | .put key value =>
      let created := ((kvs.lookup key).map KeyValue.createRevision).getD r
      (kvs.insert key ⟨value, created, r⟩, [.put key ⟨value, created, r⟩])
  | .delete key =>
      if (kvs.lookup key).isSome then (kvs.erase key, [.delete key]) else (kvs, [])

def writes (r : Nat) : (AList fun _ : Key => KeyValue) → List Write →
    (AList fun _ : Key => KeyValue) × List Event
  | kvs, [] => (kvs, [])
  | kvs, x :: xs =>
      let (kvs, es) := write r kvs x
      let (kvs, es') := writes r kvs xs
      (kvs, es ++ es')

/-- The revision moves on when something has changed. -/
def commit (e : KV) (xs : List Write) : KV × List Event :=
  let (kvs, es) := writes (e.revision + 1) e.kvs xs
  if es.isEmpty then (e, []) else (⟨e.revision + 1, kvs⟩, es)

end KV

/-! ## Keys -/

/-- `root` is the configured prefix. -/
def usersPrefix (root : Key) : Key := root ++ "/users/".toList

def functionsPrefix (root : Key) : Key := root ++ "/functions/".toList

def userKey (root : Key) (userID : UInt64) : Key := usersPrefix root ++ Lib.decimal userID.toNat

def functionPrefix (root : Key) (userID : UInt64) : Key :=
  functionsPrefix root ++ Lib.decimal userID.toNat ++ ['/']

def functionKey (root : Key) (userID functionID : UInt64) : Key :=
  functionPrefix root userID ++ Lib.decimal functionID.toNat

def platformConfigKey (root : Key) : Key := root ++ "/config/platform".toList

/-- `strconv.ParseUint(s, 10, 64)` -/
def parseUint (cs : List Char) : Option UInt64 :=
  match Lib.parse cs with
  | some n => if n < 2 ^ 64 then some (UInt64.ofNat n) else none
  | none => none

/-- `strings.TrimPrefix` -/
def trimPrefix (cs p : List Char) : List Char := if p.isPrefixOf cs then cs.drop p.length else cs

def parseFunctionKey (key root : Key) : Option (UInt64 × UInt64) :=
  match Lib.split '/' (trimPrefix key (functionsPrefix root)) with
  | [x, y] =>
      match parseUint x, parseUint y with
      | some userID, some functionID => some (userID, functionID)
      | _, _ => none
  | _ => none

def parseTrailingID (key : Key) : Option UInt64 :=
  match (Lib.split '/' key).getLast? with
  | some x => parseUint x
  | none => none

/-! ## The store -/

structure Store where
  root : Key
  etcd : KV
  nextUserID : UInt64
  nextFunctionID : UInt64

/-- The loop of `bootstrapCounters` over the ids of one range. -/
def advanceCounter (next : UInt64) : List (Option UInt64) → UInt64
  | [] => next
  | some id :: ids => advanceCounter (if next ≤ id then id + 1 else next) ids
  | none :: ids => advanceCounter next ids

/-- What the loop of the function watch makes of one event. Without a function key, or
when the value does not decode, there is none. -/
def functionEvent (root : Key) : Event → Option FunctionEvent
  | .put key kv =>
      match parseFunctionKey key root, decodeFunction kv.value with
      | some _, .ok function =>
          some ⟨if kv.createRevision = kv.modRevision then .created else .updated, function⟩
      | _, _ => none
  | .delete key =>
      match parseFunctionKey key root with
      | some (userID, functionID) => some ⟨.deleted, .deleted userID functionID⟩
      | none => none

/-- The watch is on the keys of functions. -/
def functionEvents (root : Key) (es : List Event) : List FunctionEvent :=
  (es.filter fun e => match e with
    | .put key _ | .delete key => (functionsPrefix root).isPrefixOf key).filterMap
      (functionEvent root)

def validateFunction : Option FunctionSpec → Except Status FunctionSpec
  | none => .error (invalid "function is required")
  | some function =>
      if function.userId = 0 then .error (invalid "function.user_id is required")
      else
        match function.runtime with
        | none => .error (invalid "function.runtime.image is required")
        | some runtime =>
            if runtime.image = "" then .error (invalid "function.runtime.image is required")
            else if runtime.protocol ≠ "http" ∧ runtime.protocol ≠ "grpc" then
              .error (badProtocol runtime.protocol)
            else .ok function

namespace Store

/-- `New` over the keys that are there. -/
def new (root : Key) (etcd : KV) : Store where
  root := root
  etcd := etcd
  nextUserID := advanceCounter 1
    ((etcd.getPrefixed (usersPrefix root)).map fun x => parseTrailingID x.1)
  nextFunctionID := advanceCounter 1
    ((etcd.getPrefixed (functionsPrefix root)).map fun x =>
      (parseFunctionKey x.1 root).map Prod.snd)

def empty (root : Key) : Store := new root ⟨1, ∅⟩

def fail (s : Store) (e : Status) : Result × Store × List FunctionEvent := (.error e, s, [])

/-- A transaction that writes if its condition holds. -/
def txn (s : Store) (condition : Bool) (xs : List Write) (reply : Reply) (otherwise : Status) :
    Result × Store × List FunctionEvent :=
  if condition then
    let (etcd, es) := s.etcd.commit xs
    (.ok reply, { s with etcd := etcd }, functionEvents s.root es)
  else s.fail otherwise

def putIfAbsent (s : Store) (key : Key) (value : Value) (reply : Reply) :
    Result × Store × List FunctionEvent :=
  s.txn (s.etcd.createRevision key == 0) [.put key value] reply
    ⟨.alreadyExists, "resource already exists"⟩

def putIfExists (s : Store) (key : Key) (value : Value) (reply : Reply) :
    Result × Store × List FunctionEvent :=
  s.txn (decide (s.etcd.createRevision key > 0)) [.put key value] reply
    ⟨.notFound, "resource not found"⟩

/-- The section of `CreateUser` that holds the lock: the id, and the counter after it. -/
def allocateUser (s : Store) (user : UserSpec) : UserSpec × Store :=
  if user.userId = 0 then
    ({ user with userId := s.nextUserID }, { s with nextUserID := s.nextUserID + 1 })
  else (user, s)

def allocateFunction (s : Store) (function : FunctionSpec) : FunctionSpec × Store :=
  if function.functionId = 0 then
    ({ function with functionId := s.nextFunctionID },
      { s with nextFunctionID := s.nextFunctionID + 1 })
  else (function, s)

def createUser (s : Store) : Option UserSpec → Result × Store × List FunctionEvent
  | none => s.fail (invalid "user.name is required")
  | some user =>
      if user.name = "" then s.fail (invalid "user.name is required")
      else
        let (user, s) := s.allocateUser user
        s.putIfAbsent (userKey s.root user.userId) (.user user) (.user user)

def updateUser (s : Store) : Option UserSpec → Result × Store × List FunctionEvent
  | none => s.fail (invalid "user.user_id and user.name are required")
  | some user =>
      if user.userId = 0 ∨ user.name = "" then
        s.fail (invalid "user.user_id and user.name are required")
      else s.putIfExists (userKey s.root user.userId) (.user user) .done

/-- The writes of `DeleteUser`, once its functions are listed. -/
def deletions (root : Key) (userID : UInt64) (functions : List (Key × KeyValue)) : List Write :=
  .delete (userKey root userID) :: functions.map fun x => .delete x.1

def deleteUser (s : Store) (userID : UInt64) : Result × Store × List FunctionEvent :=
  if userID = 0 then s.fail (invalid "user_id is required")
  else
    s.txn (decide (s.etcd.createRevision (userKey s.root userID) > 0))
      (deletions s.root userID (s.etcd.getPrefixed (functionPrefix s.root userID))) .done
      (userNotFound userID)

/-- `GetUser` up to its result. -/
def readUser (s : Store) (userID : UInt64) : Except Status UserSpec :=
  match s.etcd.get (userKey s.root userID) with
  | none => .error (userNotFound userID)
  | some kv => decodeUser kv.value

def getUser (s : Store) (userID : UInt64) : Result × Store × List FunctionEvent :=
  match s.readUser userID with
  | .error e => s.fail e
  | .ok user => (.ok (.user user), s, [])

def listUsers (s : Store) : Result × Store × List FunctionEvent :=
  match (s.etcd.getPrefixed (usersPrefix s.root)).mapM fun x => decodeUser x.2.value with
  | .error e => s.fail e
  | .ok users => (.ok (.users (users.insertionSort byUserId)), s, [])

def createFunction (s : Store) (function : Option FunctionSpec) :
    Result × Store × List FunctionEvent :=
  match validateFunction function with
  | .error e => s.fail e
  | .ok function =>
      match s.readUser function.userId with
      | .error e => s.fail e
      | .ok _ =>
          let (function, s) := s.allocateFunction function
          s.putIfAbsent (functionKey s.root function.userId function.functionId)
            (.function function) (.function function)

def updateFunction (s : Store) (function : Option FunctionSpec) :
    Result × Store × List FunctionEvent :=
  match validateFunction function with
  | .error e => s.fail e
  | .ok function =>
      if function.functionId = 0 then s.fail (invalid "function.function_id is required")
      else
        s.putIfExists (functionKey s.root function.userId function.functionId)
          (.function function) .done

def deleteFunction (s : Store) (userID functionID : UInt64) :
    Result × Store × List FunctionEvent :=
  if userID = 0 ∨ functionID = 0 then s.fail (invalid "user_id and function_id are required")
  else
    s.txn (decide (s.etcd.createRevision (functionKey s.root userID functionID) > 0))
      [.delete (functionKey s.root userID functionID)] .done (functionNotFound userID functionID)

def getFunction (s : Store) (userID functionID : UInt64) : Result × Store × List FunctionEvent :=
  match s.etcd.get (functionKey s.root userID functionID) with
  | none => s.fail (functionNotFound userID functionID)
  | some kv =>
      match decodeFunction kv.value with
      | .error e => s.fail e
      | .ok function => (.ok (.function function), s, [])

def listFunctions (s : Store) (userID : UInt64) : Result × Store × List FunctionEvent :=
  match (s.etcd.getPrefixed (functionPrefix s.root userID)).mapM
      fun x => decodeFunction x.2.value with
  | .error e => s.fail e
  | .ok functions => (.ok (.functions (functions.insertionSort byFunctionId)), s, [])

def getPlatformConfig (s : Store) : Result × Store × List FunctionEvent :=
  match s.etcd.get (platformConfigKey s.root) with
  | none => s.fail ⟨.notFound, "platform config not set"⟩
  | some kv =>
      match decodePlatformConfig kv.value with
      | .error e => s.fail e
      | .ok cfg => (.ok (.config { cfg with version := kv.modRevision }), s, [])

/-- The write of `PutPlatformConfig`: a plain put without an expected version, else a
transaction on it. -/
def writeConfig (s : Store) (cfg : PlatformConfig) (expectedVersion : Nat) : Except Status Store :=
  if expectedVersion = 0 ∨ s.etcd.modRevision (platformConfigKey s.root) = expectedVersion then
    .ok { s with etcd := (s.etcd.commit [.put (platformConfigKey s.root) (.config cfg)]).1 }
  else
    .error ⟨.aborted, "platform config version changed: expected " ++ toString expectedVersion⟩

/-- The read after it. -/
def readVersion (s : Store) (cfg : PlatformConfig) : Except Status PlatformConfig :=
  match s.etcd.get (platformConfigKey s.root) with
  | none => .error ⟨.internal, "platform config missing after write"⟩
  | some kv => .ok { cfg with version := kv.modRevision }

def putPlatformConfig (s : Store) (cfg : Option PlatformConfig) (expectedVersion : Nat) :
    Result × Store × List FunctionEvent :=
  match cfg with
  | none => s.fail (invalid "platform config is required")
  | some cfg =>
      match s.writeConfig cfg expectedVersion with
      | .error e => s.fail e
      | .ok s =>
          match s.readVersion cfg with
          | .error e => s.fail e
          | .ok stored => (.ok (.config stored), s, [])

def step (s : Store) : Op → Result × Store × List FunctionEvent
  | .createUser user => s.createUser user
  | .updateUser user => s.updateUser user
  | .deleteUser userID => s.deleteUser userID
  | .getUser userID => s.getUser userID
  | .listUsers => s.listUsers
  | .createFunction function => s.createFunction function
  | .updateFunction function => s.updateFunction function
  | .deleteFunction userID functionID => s.deleteFunction userID functionID
  | .getFunction userID functionID => s.getFunction userID functionID
  | .listFunctions userID => s.listFunctions userID
  | .getPlatformConfig => s.getPlatformConfig
  | .putPlatformConfig cfg expectedVersion => s.putPlatformConfig cfg expectedVersion

/-- The control plane restarts: the counters are rebuilt from the keys. -/
def restart (s : Store) : Store := new s.root s.etcd

end Store

end HyperFaaS.ControlPlane.Etcd
