import Darwin.Ipc.Entry
import Darwin.Lib.Links

/-! Receive rights on their way, from `ipc/ipc_port.c`: the threads that move, destroy and queue
ports, lock by lock. -/
open Function
namespace Darwin.Ipc
open Darwin.Lib.Links

variable {Port Thread : Type}

/-- The fields of a port that say where its receive right is. `destination` is a union: it means
something only for an active port without a receiver name. -/
structure IpcPort (Port : Type) where
  ipActive : Bool
  ipReceiverName : MachPortName
  ipDestination : Option Port

def IpcPort.inTransit (port : IpcPort Port) : Bool :=
  port.ipActive && port.ipReceiverName == 0 && port.ipDestination.isSome

def IpcPort.limbo : IpcPort Port := ⟨true,0,none⟩

def Link (ports : Port → IpcPort Port) (port dest : Port) : Prop :=
  (ports port).inTransit=true ∧ (ports port).ipDestination=some dest

section Threads

/-- Where a thread is in `ipc_port_check_circularity`, named by what it does next. -/
inductive Place (Port : Type)
  | outside
  | lockPort (port dest : Port)
  | tryDest (port dest : Port)
  | multipleLock (port dest : Port)
  | search (port dest base : Port)
  | lockLast (port dest base : Port)
  | unlockChain (port base : Port)
  | unlockCircular (dest : Option Port)
  | returned (circular : Bool)

/-- `inHand` is the thread that has the receive right of a port in limbo. -/
structure Transit (Port Thread : Type) where
  ports : Port → IpcPort Port
  locks : Port → Option Thread
  multipleLock : Option Thread
  inHand : Port → Option Thread
  place : Thread → Place Port

/-- Before any right has moved: some ports are in spaces, the others do not exist yet. -/
def Transit.start (name : Port → MachPortName) (receiver : Port → Option Port) :
    Transit Port Thread :=
  ⟨fun port => ⟨name port != 0,name port,receiver port⟩,fun _ => none,none,fun _ => none,
    fun _ => .outside⟩

inductive PortAction (Port : Type)
  | alloc (port : Port) (name : MachPortName) (receiver : Option Port)
  | copyin (port : Port)
  | copyout (port : Port) (name : MachPortName) (receiver : Option Port)
  | destroy (port : Port) (timestamp : Option Port)
  | backup (port : Port)
  | checkCircularity (port dest : Port)
  | proceed (tryLock : Bool)
  | resume

variable [DecidableEq Port] [DecidableEq Thread]

namespace Transit

def setPort (σ : Transit Port Thread) (port : Port) (value : IpcPort Port) : Transit Port Thread :=
  {σ with ports := update σ.ports port value}

def setLock (σ : Transit Port Thread) (port : Port) (holder : Option Thread) :
    Transit Port Thread :=
  {σ with locks := update σ.locks port holder}

def setHand (σ : Transit Port Thread) (port : Port) (holder : Option Thread) :
    Transit Port Thread :=
  {σ with inHand := update σ.inHand port holder}

def setPlace (σ : Transit Port Thread) (t : Thread) (place : Place Port) : Transit Port Thread :=
  {σ with place := update σ.place t place}

def link (σ : Transit Port Thread) (port dest : Port) : Transit Port Thread :=
  (σ.setPort port {σ.ports port with ipDestination := some dest}).setHand port none

/-- The next step of a thread inside `ipc_port_check_circularity`. There is none while the lock it
asks for is taken, and none where an assertion fails. -/
def proceed (σ : Transit Port Thread) (t : Thread) (tryLock : Bool) :
    Option (Transit Port Thread) :=
  match σ.place t with
  | .outside => none
  | .lockPort port dest =>
    if (σ.locks port).isSome then none
    else some ((σ.setLock port (some t)).setPlace t (.tryDest port dest))
  | .tryDest port dest =>
    if tryLock && (σ.locks dest).isNone then
      if (σ.ports dest).inTransit then
        some ((σ.setLock port none).setPlace t (.multipleLock port dest))
      else
        some (((σ.setLock dest (some t)).link port dest).setPlace t (.unlockChain port dest))
    else some ((σ.setLock port none).setPlace t (.multipleLock port dest))
  | .multipleLock port dest =>
    if σ.multipleLock.isSome then none
    else some ({σ with multipleLock := some t}.setPlace t (.search port dest dest))
  | .search port dest base =>
    if (σ.locks base).isSome then none
    else
      let σ := σ.setLock base (some t)
      match (σ.ports base).inTransit,(σ.ports base).ipDestination with
      | true,some next => some (σ.setPlace t (.search port dest next))
      | _,_ =>
        if port=base then
          some ({σ with multipleLock := none}.setPlace t (.unlockCircular (some dest)))
        else some (σ.setPlace t (.lockLast port dest base))
  | .lockLast port dest base =>
    if (σ.locks port).isSome then none
    else
      let σ := {σ.setLock port (some t) with multipleLock := none}
      some ((σ.link port dest).setPlace t (.unlockChain port base))
  | .unlockChain port base =>
    if port=base then some ((σ.setLock base none).setPlace t (.returned false))
    else
      match (σ.ports port).ipDestination with
      | some next => some ((σ.setLock port none).setPlace t (.unlockChain next base))
      | none => none
  | .unlockCircular none => some (σ.setPlace t (.returned true))
  | .unlockCircular (some dest) =>
    some ((σ.setLock dest none).setPlace t (.unlockCircular (σ.ports dest).ipDestination))
  | .returned _ => none

/-- Whether a thread may take and change a port: it is in no routine of its own, nobody has locked
the port, and the right is in its hand if it is in limbo. -/
def mayTake (σ : Transit Port Thread) (t : Thread) (port : Port) : Bool :=
  (match σ.place t with | .outside => true | _ => false) && (σ.locks port).isNone &&
    (σ.inHand port == none || σ.inHand port == some t)

/-- A step of a thread. Besides the routine itself these are the ways in which a receive right
moves: a new port in a space, the right taken out of its space for a message, the right given to
a receiver, and the end of the port with and without a backup port to send it to. -/
def step (σ : Transit Port Thread) (t : Thread) : PortAction Port → Option (Transit Port Thread)
  | .alloc port name receiver =>
    if σ.mayTake t port && !(σ.ports port).ipActive && name != 0 then
      some (σ.setPort port ⟨true,name,receiver⟩)
    else none
  | .copyin port =>
    if σ.mayTake t port && (σ.ports port).ipActive && (σ.ports port).ipReceiverName != 0 then
      some ((σ.setPort port .limbo).setHand port (some t))
    else none
  | .copyout port name receiver =>
    if σ.mayTake t port && (σ.ports port).ipActive && (σ.ports port).ipReceiverName == 0 &&
        name != 0 then
      some ((σ.setPort port ⟨true,name,receiver⟩).setHand port none)
    else none
  | .destroy port timestamp =>
    if σ.mayTake t port && (σ.ports port).ipActive then
      some ((σ.setPort port { σ.ports port with
        ipActive := false,ipDestination := timestamp}).setHand port none)
    else none
  | .backup port =>
    if σ.mayTake t port && (σ.ports port).ipActive then
      some ((σ.setPort port .limbo).setHand port (some t))
    else none
  | .checkCircularity port dest =>
    match σ.place t with
    | .outside =>
      if σ.inHand port=some t then
        some (σ.setPlace t (if port=dest then .returned true else .lockPort port dest))
      else none
    | _ => none
  | .proceed tryLock => σ.proceed t tryLock
  | .resume =>
    match σ.place t with
    | .returned _ => some (σ.setPlace t .outside)
    | _ => none

def run (σ : Transit Port Thread) : List (Thread × PortAction Port) → Option (Transit Port Thread)
  | [] => some σ
  | (t,a)::as => (σ.step t a).bind fun σ => run σ as

end Transit

end Threads

end Darwin.Ipc
