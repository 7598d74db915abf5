import OncRpc.Runtime.Error
import OncRpc.Server.Dispatch

/-!
# rpcbind

A server tells rpcbind where its programs are: it connects to it, and sets and unsets mappings, each
of a program, a version and the name of a transport to an address.  Every call is answered with a
truth value or fails, and a call that fails may have been carried out.

`Rpcbind` stands for everything that decides how connecting and the calls come out.  `World` counts
what was asked of it so far and holds the mappings that stand because this server set them.

A client that blocks starts a runtime of its own and waits on it for the connection.  Waiting panics
on a thread that drives a runtime already, so connecting does not return there.
-/

namespace OncRpc

open Foundation

/-! ## Mappings -/

/-- The errors of the operations on rpcbind. -/
inductive BindError where
  | runtime (error : RuntimeError)
  | invalidUniversalAddress (value : String)
  | unspecifiedServiceAddress (addr : SocketAddr)
  | missingRpcbindAddress
  | serverTransport (text : String)
  deriving DecidableEq

/-- The four parts of an IPv4 address. -/
def ipv4Text (address : BitVec 32) : String :=
  String.intercalate "." ((List.range 4).map fun i =>
    toString (address.toNat / 2 ^ (24 - 8 * i) % 2 ^ 8))

/-- The eight parts of an IPv6 address. -/
def ipv6Segments (address : BitVec 128) : List ℕ :=
  (List.range 8).map fun i => address.toNat / 2 ^ (112 - 16 * i) % 2 ^ 16

/-- Some parts of an IPv6 address in hexadecimal. -/
def segmentsText (segments : List ℕ) : String :=
  String.intercalate ":" (segments.map fun segment => String.ofList (Nat.toDigits 16 segment))

/-- A stretch of zero parts. -/
structure ZeroSpan where
  start : ℕ
  length : ℕ

/-- The first of the longest stretches of zero parts; `i` is the number of the next part, `current`
the stretch that ends there. -/
def longestZeros : List ℕ → ℕ → ZeroSpan → ZeroSpan → ZeroSpan
  | [], _, _, longest => longest
  | segment :: segments, i, current, longest =>
    if segment = 0 then
      let current := ⟨if current.length = 0 then i else current.start, current.length + 1⟩
      longestZeros segments (i + 1) current
        (if longest.length < current.length then current else longest)
    else longestZeros segments (i + 1) ⟨0, 0⟩ longest

/-- An IPv6 address as text: IPv4 in its last part where it is mapped, and the longest stretch of
zeros left out. -/
def ipv6Text (address : BitVec 128) : String :=
  if address.toNat / 2 ^ 32 = 0xffff then "::ffff:" ++ ipv4Text (address.truncate 32)
  else
    let segments := ipv6Segments address
    let zeros := longestZeros segments 0 ⟨0, 0⟩ ⟨0, 0⟩
    if 1 < zeros.length then
      segmentsText (segments.take zeros.start) ++ "::" ++
        segmentsText (segments.drop (zeros.start + zeros.length))
    else segmentsText segments

/-- The address of a service as rpcbind writes it. -/
def universalAddr (addr : SocketAddr) : String :=
  let (ip, port) := match addr with
    | .v4 address port => (ipv4Text address, port)
    | .v6 address port _ _ => (ipv6Text address, port)
  ip ++ "." ++ toString (port.toNat / 2 ^ 8) ++ "." ++ toString (port.toNat % 2 ^ 8)

example : universalAddr (.v4 0x7f000001 2049) = "127.0.0.1.8.1" := by decide +kernel

example : universalAddr (.v6 1 2049 0 0) = "::1.8.1" := by decide +kernel

/-- The name of TCP for a service with the given address. -/
def tcpNetid : SocketAddr → String
  | .v4 _ _ => "tcp"
  | .v6 _ _ _ _ => "tcp6"

/-- The name of UDP for a service with the given address. -/
def udpNetid : SocketAddr → String
  | .v4 _ _ => "udp"
  | .v6 _ _ _ _ => "udp6"

/-- A mapping. -/
structure Rpcb where
  program : UInt32
  version : UInt32
  netid : String
  address : String
  owner : String
  deriving DecidableEq

/-- A mapping to a service over the transport with the given name. -/
def Rpcb.forNetid (netid : SocketAddr → String) (program : ProgramVersion)
    (serviceAddr : SocketAddr) (owner : String) : Rpcb :=
  ⟨program.program, program.version, netid serviceAddr, universalAddr serviceAddr, owner⟩

/-- The mapping of a program that is served over TCP. -/
def Rpcb.forTcp : ProgramVersion → SocketAddr → String → Rpcb := Rpcb.forNetid tcpNetid

/-- The mapping of a program that is served over UDP. -/
def Rpcb.forUdp : ProgramVersion → SocketAddr → String → Rpcb := Rpcb.forNetid udpNetid

/-- Two mappings of the same program, version and transport: rpcbind keeps one of them. -/
def Rpcb.SameKey (a b : Rpcb) : Prop :=
  a.program = b.program ∧ a.version = b.version ∧ a.netid = b.netid

instance (a b : Rpcb) : Decidable (a.SameKey b) := inferInstanceAs (Decidable (_ ∧ _ ∧ _))

/-- Having one key is symmetric. -/
theorem Rpcb.SameKey.symm {a b : Rpcb} (h : a.SameKey b) : b.SameKey a :=
  ⟨h.1.symm, h.2.1.symm, h.2.2.symm⟩

/-- Having one key is transitive. -/
theorem Rpcb.SameKey.trans {a b c : Rpcb} (h : a.SameKey b) (h' : b.SameKey c) : a.SameKey c :=
  ⟨h.1.trans h'.1, h.2.1.trans h'.2.1, h.2.2.trans h'.2.2⟩

/-- Services must have an address of their own. -/
def checkedServiceAddr (addr : SocketAddr) : Except BindError SocketAddr :=
  match addr with
  | .v4 address _ => if address = 0 then .error (.unspecifiedServiceAddress addr) else .ok addr
  | .v6 address _ _ _ => if address = 0 then .error (.unspecifiedServiceAddress addr) else .ok addr

/-! ## The registry -/

/-- How a call to rpcbind comes out. -/
inductive Answer where
  | replied (value : Bool)
  /-- The call fails; it may have been carried out all the same. -/
  | failed (error : RuntimeError) (carriedOut : Bool)
  deriving DecidableEq

/-- The call has changed the mappings. -/
def Answer.applied : Answer → Bool
  | .replied value => value
  | .failed _ carriedOut => carriedOut

/-- The call failed. -/
def Answer.isFailure : Answer → Bool
  | .replied _ => false
  | .failed _ _ => true

/-- How starting a runtime, connecting to rpcbind and calling it come out, by number, and whether
the thread that connects drives a runtime. -/
structure Rpcbind where
  startRuntime : ℕ → Except RuntimeError Unit
  insideRuntime : ℕ → Bool
  connect : ℕ → SocketAddr → Except RuntimeError Unit
  answer : ℕ → Answer

/-- How a function ends. -/
inductive Ending (α : Type) where
  | returned (value : α)
  | panicked
  deriving DecidableEq

/-- What has been asked of rpcbind, and the mappings that stand because this server set them. -/
structure World where
  connects : ℕ
  calls : ℕ
  standing : List Rpcb

/-- Before the first request no mapping stands. -/
def World.initial : World := ⟨0, 0, []⟩

/-- The procedures that change mappings. -/
inductive BindProcedure where
  | set
  | unset
  deriving DecidableEq

/-- The mappings after a procedure was carried out. -/
def BindProcedure.apply (procedure : BindProcedure) (request : Rpcb) (standing : List Rpcb) :
    List Rpcb :=
  match procedure with
  | .set => request :: standing.filter fun other => ¬ request.SameKey other
  | .unset => standing.filter fun other => ¬ request.SameKey other

/-! ## The clients -/

/-- How connecting a client that blocks ends. -/
def Rpcbind.connectBlocking (r : Rpcbind) (n : ℕ) (rpcbindAddr : SocketAddr) :
    Ending (Except RuntimeError Unit) :=
  match r.startRuntime n with
  | .error error => .returned (.error error)
  -- `block_on` on a thread that drives a runtime
  | .ok () => if r.insideRuntime n then .panicked else .returned (r.connect n rpcbindAddr)

/-- How connecting a client that does not block ends. -/
def Rpcbind.connectAsync (r : Rpcbind) (n : ℕ) (rpcbindAddr : SocketAddr) :
    Ending (Except RuntimeError Unit) :=
  .returned (r.connect n rpcbindAddr)

/-- Connect to rpcbind, with a client whose connecting ends as given. -/
def connectTo (connecting : ℕ → SocketAddr → Ending (Except RuntimeError Unit))
    (rpcbindAddr : SocketAddr) (w : World) : Ending (Except BindError Unit) × World :=
  let ended := match connecting w.connects rpcbindAddr with
    | .returned result => .returned (result.mapError .runtime)
    | .panicked => .panicked
  (ended, { w with connects := w.connects + 1 })

/-- Call a procedure of rpcbind. -/
def Rpcbind.callTyped (r : Rpcbind) (procedure : BindProcedure) (request : Rpcb) (w : World) :
    Except BindError Bool × World :=
  let answer := r.answer w.calls
  let result := match answer with
    | .replied value => .ok value
    | .failed error _ => .error (.runtime error)
  let standing := if answer.applied then procedure.apply request w.standing else w.standing
  (result, { w with calls := w.calls + 1, standing := standing })

/-- Set or unset the mapping of a service, after a check of its address. -/
def Rpcbind.update (r : Rpcbind) (rpcb : ProgramVersion → SocketAddr → String → Rpcb)
    (procedure : BindProcedure) (serviceAddr : SocketAddr) (program : ProgramVersion)
    (owner : String) (w : World) : Except BindError Bool × World :=
  match checkedServiceAddr serviceAddr with
  | .error error => (.error error, w)
  | .ok addr => r.callTyped procedure (rpcb program addr owner) w

namespace RpcbindClient

/-- The asynchronous client opens its transport. -/
def connect (r : Rpcbind) : SocketAddr → World → Ending (Except BindError Unit) × World :=
  connectTo r.connectBlocking

/-- The asynchronous client sets the mapping of a TCP program. -/
def registerTcp (r : Rpcbind) : SocketAddr → ProgramVersion → String → World →
    Except BindError Bool × World := r.update .forTcp .set

/-- The asynchronous client unsets the mapping of a TCP program. -/
def unregisterTcp (r : Rpcbind) : SocketAddr → ProgramVersion → String → World →
    Except BindError Bool × World := r.update .forTcp .unset

/-- The asynchronous client sets the mapping of a UDP program. -/
def registerUdp (r : Rpcbind) : SocketAddr → ProgramVersion → String → World →
    Except BindError Bool × World := r.update .forUdp .set

/-- The asynchronous client unsets the mapping of a UDP program. -/
def unregisterUdp (r : Rpcbind) : SocketAddr → ProgramVersion → String → World →
    Except BindError Bool × World := r.update .forUdp .unset

end RpcbindClient

namespace AsyncRpcbindClient

/-- The blocking client opens its transport. -/
def connect (r : Rpcbind) : SocketAddr → World → Ending (Except BindError Unit) × World :=
  connectTo r.connectAsync

/-- The blocking client sets the mapping of a TCP program. -/
def registerTcp (r : Rpcbind) : SocketAddr → ProgramVersion → String → World →
    Except BindError Bool × World := r.update .forTcp .set

/-- The blocking client unsets the mapping of a TCP program. -/
def unregisterTcp (r : Rpcbind) : SocketAddr → ProgramVersion → String → World →
    Except BindError Bool × World := r.update .forTcp .unset

/-- The blocking client sets the mapping of a UDP program. -/
def registerUdp (r : Rpcbind) : SocketAddr → ProgramVersion → String → World →
    Except BindError Bool × World := r.update .forUdp .set

/-- The blocking client unsets the mapping of a UDP program. -/
def unregisterUdp (r : Rpcbind) : SocketAddr → ProgramVersion → String → World →
    Except BindError Bool × World := r.update .forUdp .unset

end AsyncRpcbindClient

end OncRpc
