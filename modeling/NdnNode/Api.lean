import NdnNode.Node
import Mathlib.Logic.Relation

/-!
# The public API

`expressInterest`, `removePendingInterest`, `registerPrefix` (with `registerPrefixHelper`),
`removeRegisteredPrefix` and `shutdown`, as `node.cpp` writes them.  None of them calls back into
the application, so each is a function: of the state, its arguments, and a `Link` saying how the
transport answers the `connect` and `send` it makes.  A call that raises returns the state as it
was when the exception left it, as C++ does.

Below `2^31` entries the erase loops of the two removals keep exactly the entries with another
id (`remove_keeps_other_ids`).  Where the loop's bound overflows the removal is undefined
(`Node.call_eq_undefined_iff`).

`AppStep` is what application code can do to the node: call it, or let time pass.  `Runs`, any
number of those, is what a callback may do when the node calls it; `NdnNode.Sweep` and
`NdnNode.Run` put it wherever the code calls the application.

## Failing sends

`expressInterest` pushes the new entry and then sends; `registerPrefixHelper` pushes the
registered prefix and then sends.  Neither catches, so when `send` raises, the entry stays:
`send_failure_tables` says exactly what a failed call leaves behind.
-/

set_option autoImplicit false

namespace Ndn

open scoped List

/-- How the transport answers the calls one operation makes of it. -/
structure Link where
  /-- `connect` returns (rather than raising). -/
  connectOk : Bool
  /-- `send` returns (rather than raising). -/
  sendOk : Bool
  deriving DecidableEq, Repr

namespace Node

/-- The entry `expressInterest` makes next: the next id, and the deadline from the clock. -/
def newPendingInterest (s : Node) (interest : Interest) (onData onTimeout : PendingCallback) :
    PendingInterest :=
  .make (s.lastPendingInterestId + 1) interest onData onTimeout s.clock

/-- `getNextPendingInterestId()` and the `push_back` of the new entry. -/
def pushPendingInterest (s : Node) (interest : Interest) (onData onTimeout : PendingCallback) :
    Node :=
  { s with
    lastPendingInterestId := s.lastPendingInterestId + 1
    pendingInterestTable := s.pendingInterestTable ++ [s.newPendingInterest interest onData onTimeout]
    log := s.log ++ [.express (s.newPendingInterest interest onData onTimeout)] }

/-- `transport_->connect(...)` when it returns. -/
def connect (s : Node) : Node := { s with connected := true }

/-- `Node::expressInterest`: connect if need be, push the entry, send the Interest. -/
def expressInterest (s : Node) (link : Link) (interest : Interest)
    (onData onTimeout : PendingCallback) : Node × Except NodeError UInt64 :=
  if s.connected || link.connectOk then
    let s := s.connect.pushPendingInterest interest onData onTimeout
    if link.sendOk then (s.record (.send interest), .ok (UInt64.ofNat s.lastPendingInterestId))
    else (s, .error .transport)
  else (s, .error .transport)

/-- `Node::removePendingInterest`: erase, last to first, every entry with this id. -/
def removePendingInterest (s : Node) (pendingInterestId : UInt64) : Node :=
  { s with
    pendingInterestTable := eraseIds PendingInterest.getPendingInterestId pendingInterestId
      (loopCount s.pendingInterestTable.length) s.pendingInterestTable
    log := s.log ++ [.cancel pendingInterestId s.pendingInterestTable.length] }

/-- The `push_back` onto the RPT. -/
def pushRegisteredPrefix (s : Node) (entry : RegisteredPrefix) : Node :=
  { s with
    registeredPrefixTable := s.registeredPrefixTable ++ [entry]
    log := s.log ++ [.register entry] }

/-- `Node::registerPrefixHelper`: push the entry, then send the self-registration Interest.  It
is passed `onRegisterFailed` and does not use it. -/
def registerPrefixHelper (s : Node) (codec : Codec) (link : Link) (registeredPrefixId : Nat)
    (prefixName : Name) (onInterest _onRegisterFailed : Callback) (flags : ForwardingFlags) :
    Node × Except NodeError Unit :=
  let interest := selfRegInterest codec s.ndndId prefixName flags
  let s := s.pushRegisteredPrefix ⟨registeredPrefixId, prefixName, onInterest⟩
  if link.sendOk then (s.record (.send interest), .ok ()) else (s, .error .transport)

/-- `getNextRegisteredPrefixId()`. -/
def takeRegisteredPrefixId (s : Node) : Node :=
  { s with lastRegisteredPrefixId := s.lastRegisteredPrefixId + 1 }

/-- The fetcher `registerPrefix` makes for its probe, bound to the id it takes. -/
def fetcherFor (s : Node) (prefixName : Name) (onInterest onRegisterFailed : Callback)
    (flags : ForwardingFlags) : PendingCallback :=
  .fetcher ⟨s.lastRegisteredPrefixId + 1, prefixName, onInterest, onRegisterFailed, flags⟩

/-- `Node::registerPrefix`: take the id, then either probe for the ndnd-ID with a fetcher as both
callbacks, or register at once. -/
def registerPrefix (s : Node) (codec : Codec) (link : Link) (prefixName : Name)
    (onInterest onRegisterFailed : Callback) (flags : ForwardingFlags) :
    Node × Except NodeError UInt64 :=
  let registeredPrefixId := s.lastRegisteredPrefixId + 1
  let fetcher := s.fetcherFor prefixName onInterest onRegisterFailed flags
  let s := s.takeRegisteredPrefixId
  if s.ndndId.length = 0 then
    let r := s.expressInterest link ndndIdFetcherInterest fetcher fetcher
    (r.1, r.2.map fun _ => UInt64.ofNat registeredPrefixId)
  else
    let r := s.registerPrefixHelper codec link registeredPrefixId prefixName onInterest
      onRegisterFailed flags
    (r.1, r.2.map fun _ => UInt64.ofNat registeredPrefixId)

/-- `Node::removeRegisteredPrefix`: erase, last to first, every entry with this id. -/
def removeRegisteredPrefix (s : Node) (registeredPrefixId : UInt64) : Node :=
  { s with
    registeredPrefixTable := eraseIds RegisteredPrefix.getRegisteredPrefixId registeredPrefixId
      (loopCount s.registeredPrefixTable.length) s.registeredPrefixTable
    log := s.log ++ [.unregister registeredPrefixId] }

/-- `Node::shutdown`: close the transport and stop the event loop. -/
def shutdown (s : Node) : Node := { s with connected := false, stopped := true }

section FieldLemmas

variable (s : Node) (i : Interest) (d t : PendingCallback) (e : RegisteredPrefix) (k : UInt64)

@[simp] theorem newPendingInterest_pendingInterestId : (s.newPendingInterest i d t).pendingInterestId = s.lastPendingInterestId + 1 := rfl
@[simp] theorem newPendingInterest_interest : (s.newPendingInterest i d t).interest = i := rfl
@[simp] theorem newPendingInterest_onData : (s.newPendingInterest i d t).onData = d := rfl
@[simp] theorem newPendingInterest_onTimeout : (s.newPendingInterest i d t).onTimeout = t := rfl

@[simp] theorem connect_pendingInterestTable : s.connect.pendingInterestTable = s.pendingInterestTable := rfl
@[simp] theorem connect_registeredPrefixTable : s.connect.registeredPrefixTable = s.registeredPrefixTable := rfl
@[simp] theorem connect_ndndId : s.connect.ndndId = s.ndndId := rfl
@[simp] theorem connect_lastPendingInterestId : s.connect.lastPendingInterestId = s.lastPendingInterestId := rfl
@[simp] theorem connect_lastRegisteredPrefixId : s.connect.lastRegisteredPrefixId = s.lastRegisteredPrefixId := rfl
@[simp] theorem connect_stopped : s.connect.stopped = s.stopped := rfl
@[simp] theorem connect_clock : s.connect.clock = s.clock := rfl
@[simp] theorem connect_log : s.connect.log = s.log := rfl
@[simp] theorem connect_newPendingInterest : s.connect.newPendingInterest = s.newPendingInterest := rfl

@[simp] theorem pushPendingInterest_pendingInterestTable : (s.pushPendingInterest i d t).pendingInterestTable = s.pendingInterestTable ++ [s.newPendingInterest i d t] := rfl
@[simp] theorem pushPendingInterest_registeredPrefixTable : (s.pushPendingInterest i d t).registeredPrefixTable = s.registeredPrefixTable := rfl
@[simp] theorem pushPendingInterest_ndndId : (s.pushPendingInterest i d t).ndndId = s.ndndId := rfl
@[simp] theorem pushPendingInterest_lastPendingInterestId : (s.pushPendingInterest i d t).lastPendingInterestId = s.lastPendingInterestId + 1 := rfl
@[simp] theorem pushPendingInterest_lastRegisteredPrefixId : (s.pushPendingInterest i d t).lastRegisteredPrefixId = s.lastRegisteredPrefixId := rfl
@[simp] theorem pushPendingInterest_stopped : (s.pushPendingInterest i d t).stopped = s.stopped := rfl
@[simp] theorem pushPendingInterest_clock : (s.pushPendingInterest i d t).clock = s.clock := rfl
@[simp] theorem pushPendingInterest_log : (s.pushPendingInterest i d t).log = s.log ++ [.express (s.newPendingInterest i d t)] := rfl

@[simp] theorem pushRegisteredPrefix_pendingInterestTable : (s.pushRegisteredPrefix e).pendingInterestTable = s.pendingInterestTable := rfl
@[simp] theorem pushRegisteredPrefix_registeredPrefixTable : (s.pushRegisteredPrefix e).registeredPrefixTable = s.registeredPrefixTable ++ [e] := rfl
@[simp] theorem pushRegisteredPrefix_ndndId : (s.pushRegisteredPrefix e).ndndId = s.ndndId := rfl
@[simp] theorem pushRegisteredPrefix_lastPendingInterestId : (s.pushRegisteredPrefix e).lastPendingInterestId = s.lastPendingInterestId := rfl
@[simp] theorem pushRegisteredPrefix_lastRegisteredPrefixId : (s.pushRegisteredPrefix e).lastRegisteredPrefixId = s.lastRegisteredPrefixId := rfl
@[simp] theorem pushRegisteredPrefix_stopped : (s.pushRegisteredPrefix e).stopped = s.stopped := rfl
@[simp] theorem pushRegisteredPrefix_clock : (s.pushRegisteredPrefix e).clock = s.clock := rfl
@[simp] theorem pushRegisteredPrefix_log : (s.pushRegisteredPrefix e).log = s.log ++ [.register e] := rfl

@[simp] theorem removePendingInterest_pendingInterestTable : (s.removePendingInterest k).pendingInterestTable = eraseIds PendingInterest.getPendingInterestId k (loopCount s.pendingInterestTable.length) s.pendingInterestTable := rfl
@[simp] theorem removePendingInterest_registeredPrefixTable : (s.removePendingInterest k).registeredPrefixTable = s.registeredPrefixTable := rfl
@[simp] theorem removePendingInterest_ndndId : (s.removePendingInterest k).ndndId = s.ndndId := rfl
@[simp] theorem removePendingInterest_lastPendingInterestId : (s.removePendingInterest k).lastPendingInterestId = s.lastPendingInterestId := rfl
@[simp] theorem removePendingInterest_lastRegisteredPrefixId : (s.removePendingInterest k).lastRegisteredPrefixId = s.lastRegisteredPrefixId := rfl
@[simp] theorem removePendingInterest_connected : (s.removePendingInterest k).connected = s.connected := rfl
@[simp] theorem removePendingInterest_stopped : (s.removePendingInterest k).stopped = s.stopped := rfl
@[simp] theorem removePendingInterest_clock : (s.removePendingInterest k).clock = s.clock := rfl
@[simp] theorem removePendingInterest_log : (s.removePendingInterest k).log = s.log ++ [.cancel k s.pendingInterestTable.length] := rfl

@[simp] theorem removeRegisteredPrefix_registeredPrefixTable : (s.removeRegisteredPrefix k).registeredPrefixTable = eraseIds RegisteredPrefix.getRegisteredPrefixId k (loopCount s.registeredPrefixTable.length) s.registeredPrefixTable := rfl
@[simp] theorem removeRegisteredPrefix_pendingInterestTable : (s.removeRegisteredPrefix k).pendingInterestTable = s.pendingInterestTable := rfl
@[simp] theorem removeRegisteredPrefix_ndndId : (s.removeRegisteredPrefix k).ndndId = s.ndndId := rfl
@[simp] theorem removeRegisteredPrefix_lastPendingInterestId : (s.removeRegisteredPrefix k).lastPendingInterestId = s.lastPendingInterestId := rfl
@[simp] theorem removeRegisteredPrefix_lastRegisteredPrefixId : (s.removeRegisteredPrefix k).lastRegisteredPrefixId = s.lastRegisteredPrefixId := rfl
@[simp] theorem removeRegisteredPrefix_stopped : (s.removeRegisteredPrefix k).stopped = s.stopped := rfl
@[simp] theorem removeRegisteredPrefix_clock : (s.removeRegisteredPrefix k).clock = s.clock := rfl
@[simp] theorem removeRegisteredPrefix_log : (s.removeRegisteredPrefix k).log = s.log ++ [.unregister k] := rfl

@[simp] theorem takeRegisteredPrefixId_pendingInterestTable : s.takeRegisteredPrefixId.pendingInterestTable = s.pendingInterestTable := rfl
@[simp] theorem takeRegisteredPrefixId_registeredPrefixTable : s.takeRegisteredPrefixId.registeredPrefixTable = s.registeredPrefixTable := rfl
@[simp] theorem takeRegisteredPrefixId_ndndId : s.takeRegisteredPrefixId.ndndId = s.ndndId := rfl
@[simp] theorem takeRegisteredPrefixId_lastPendingInterestId : s.takeRegisteredPrefixId.lastPendingInterestId = s.lastPendingInterestId := rfl
@[simp] theorem takeRegisteredPrefixId_lastRegisteredPrefixId : s.takeRegisteredPrefixId.lastRegisteredPrefixId = s.lastRegisteredPrefixId + 1 := rfl
@[simp] theorem takeRegisteredPrefixId_connected : s.takeRegisteredPrefixId.connected = s.connected := rfl
@[simp] theorem takeRegisteredPrefixId_stopped : s.takeRegisteredPrefixId.stopped = s.stopped := rfl
@[simp] theorem takeRegisteredPrefixId_clock : s.takeRegisteredPrefixId.clock = s.clock := rfl
@[simp] theorem takeRegisteredPrefixId_log : s.takeRegisteredPrefixId.log = s.log := rfl
@[simp] theorem takeRegisteredPrefixId_newPendingInterest : s.takeRegisteredPrefixId.newPendingInterest = s.newPendingInterest := rfl

@[simp] theorem shutdown_pendingInterestTable : s.shutdown.pendingInterestTable = s.pendingInterestTable := rfl
@[simp] theorem shutdown_registeredPrefixTable : s.shutdown.registeredPrefixTable = s.registeredPrefixTable := rfl
@[simp] theorem shutdown_ndndId : s.shutdown.ndndId = s.ndndId := rfl
@[simp] theorem shutdown_lastPendingInterestId : s.shutdown.lastPendingInterestId = s.lastPendingInterestId := rfl
@[simp] theorem shutdown_lastRegisteredPrefixId : s.shutdown.lastRegisteredPrefixId = s.lastRegisteredPrefixId := rfl
@[simp] theorem shutdown_stopped : s.shutdown.stopped = true := rfl
@[simp] theorem shutdown_clock : s.shutdown.clock = s.clock := rfl
@[simp] theorem shutdown_log : s.shutdown.log = s.log := rfl

end FieldLemmas

end Node

/-! ## Removal by id -/

/-- **The erase loops filter.**  On a table below `2^31` entries, `removePendingInterest(k)` and
`removeRegisteredPrefix(k)` keep exactly the entries whose id is not `k`, in their order: the
backwards loop neither skips an entry nor visits one twice. -/
theorem remove_keeps_other_ids (s : Node) (k : UInt64) :
    (s.pendingInterestTable.length < 2 ^ 31 →
      (s.removePendingInterest k).pendingInterestTable =
        s.pendingInterestTable.filter (fun e => e.getPendingInterestId ≠ k)) ∧
    (s.registeredPrefixTable.length < 2 ^ 31 →
      (s.removeRegisteredPrefix k).registeredPrefixTable =
        s.registeredPrefixTable.filter (fun e => e.getRegisteredPrefixId ≠ k)) :=
  ⟨fun h => by
    rw [Node.removePendingInterest_pendingInterestTable, loopCount_of_lt h, eraseIds_length],
  fun h => by
    rw [Node.removeRegisteredPrefix_registeredPrefixTable, loopCount_of_lt h, eraseIds_length]⟩

theorem remove_keeps_other_ids_two_entries :
    let e₁ : PendingInterest := ⟨1, ⟨⟨[]⟩, -1, -1⟩, .app none, .app none, 0⟩
    let e₂ : PendingInterest := ⟨2, ⟨⟨[]⟩, -1, -1⟩, .app none, .app none, 0⟩
    let s : Node := { Node.init 2 1 0 with
      pendingInterestTable := [e₁, e₂], registeredPrefixTable := [⟨1, ⟨[]⟩, none⟩] }
    s.pendingInterestTable.length < 2 ^ 31 ∧ (s.removePendingInterest 1).pendingInterestTable = [e₂] ∧
      s.registeredPrefixTable.length < 2 ^ 31 ∧
      (s.removeRegisteredPrefix 1).registeredPrefixTable = [] := by
  intro e₁ e₂ s
  have hp : s.pendingInterestTable.length < 2 ^ 31 := by decide
  have hr : s.registeredPrefixTable.length < 2 ^ 31 := by decide
  have h := remove_keeps_other_ids s 1
  exact ⟨hp, (h.1 hp).trans (by decide), hr, (h.2 hr).trans (by decide)⟩

/-! ## Application code -/

/-- A call the application makes into the node. -/
inductive Call
  /-- `expressInterest(interest, onData, onTimeout)`. -/
  | expressInterest (interest : Interest) (onData onTimeout : Callback)
  /-- `removePendingInterest(pendingInterestId)`. -/
  | removePendingInterest (pendingInterestId : UInt64)
  /-- `registerPrefix(prefix, onInterest, onRegisterFailed, flags)`. -/
  | registerPrefix (prefixName : Name) (onInterest onRegisterFailed : Callback)
      (flags : ForwardingFlags)
  /-- `removeRegisteredPrefix(registeredPrefixId)`. -/
  | removeRegisteredPrefix (registeredPrefixId : UInt64)
  /-- `shutdown()`. -/
  | shutdown
  deriving DecidableEq, Repr

/-- Whether a call returned or raised. -/
def Outcome.ofExcept {α : Type} : Except NodeError α → Outcome
  | .ok _ => .ok
  | .error e => .raised e

/-- How a removal over a table of `size` entries ends: its erase loop never raises, and its
bound overflows or not. -/
def Outcome.ofLoop (size : Nat) : Outcome := if loopOverflows size then .undefined else .ok

/-- A call, with the transport answering as `link` says. -/
def Node.call (s : Node) (codec : Codec) (link : Link) : Call → Node × Outcome
  | .expressInterest interest onData onTimeout =>
    let r := s.expressInterest link interest (.app onData) (.app onTimeout)
    (r.1, .ofExcept r.2)
  | .removePendingInterest k =>
    (s.removePendingInterest k, .ofLoop s.pendingInterestTable.length)
  | .registerPrefix prefixName onInterest onRegisterFailed flags =>
    let r := s.registerPrefix codec link prefixName onInterest onRegisterFailed flags
    (r.1, .ofExcept r.2)
  | .removeRegisteredPrefix k =>
    (s.removeRegisteredPrefix k, .ofLoop s.registeredPrefixTable.length)
  | .shutdown => (s.shutdown, .ok)

/-- A call is undefined exactly when it is a removal whose erase loop's bound overflows. -/
theorem Node.call_eq_undefined_iff (s : Node) (codec : Codec) (link : Link) (c : Call) :
    (s.call codec link c).2 = .undefined ↔
      (∃ k, c = .removePendingInterest k) ∧ loopOverflows s.pendingInterestTable.length ∨
        (∃ k, c = .removeRegisteredPrefix k) ∧ loopOverflows s.registeredPrefixTable.length := by
  have hx : ∀ {α : Type} (r : Except NodeError α), Outcome.ofExcept r ≠ .undefined := by
    rintro _ (_ | _) <;> simp [Outcome.ofExcept]
  cases c <;> simp [Node.call, Outcome.ofLoop, hx]

/-- One thing application code does: call the node, whatever the transport answers, or let time
pass.  An exception from a call is the application's to catch or not; either way the node is left
as the call left it.  A call that is undefined ends the run. -/
inductive AppStep (codec : Codec) : Node → Node → Prop
  | call (s : Node) (link : Link) (c : Call) (hdef : (s.call codec link c).2 ≠ .undefined) :
      AppStep codec s (s.call codec link c).1
  | elapse (s : Node) (d : Nat) : AppStep codec s (s.elapse d)

/-- What a callback may do while the node waits for it to return: any number of `AppStep`s. -/
def Runs (codec : Codec) : Node → Node → Prop := Relation.ReflTransGen (AppStep codec)

/-- Callbacks that never take an entry out of the PIT: each of their steps keeps the table as a
prefix of the next. -/
def RunsKeepingPit (codec : Codec) : Node → Node → Prop :=
  Relation.ReflTransGen fun t t' =>
    AppStep codec t t' ∧ t.pendingInterestTable <+: t'.pendingInterestTable

/-- What follows the node's part of a call into the application: nothing (`false`), or
application code taking the node from one state to another as `cb` allows (`true`). -/
def AfterCall (cb : Node → Node → Prop) : Node × Bool → Node → Prop
  | (t, false), t' => t' = t
  | (t, true), t' => cb t t'

theorem RunsKeepingPit.runs {codec : Codec} {t t' : Node} (h : RunsKeepingPit codec t t') :
    Runs codec t t' :=
  h.mono fun _ _ h => h.1

/-! ## What a call does to the log and the PIT -/

/-- **The effect of one call.**  It appends events to the log, none of them a call out of the
node; and either it appends to the PIT exactly the entries those events say were expressed, or it
is a `removePendingInterest`, which logs only its cancellation and runs the erase loop.  What it
expresses is one entry, with the next id, which the counter then counts, or nothing.  The clock
does not move. -/
theorem Node.call_effect (s : Node) (codec : Codec) (link : Link) (c : Call) :
    ∃ evs, (s.call codec link c).1.log = s.log ++ evs ∧
      ((s.call codec link c).1.pendingInterestTable =
          s.pendingInterestTable ++ evs.filterMap Event.expressed? ∨
        ∃ k, evs = [.cancel k s.pendingInterestTable.length] ∧
          (s.call codec link c).1.pendingInterestTable = eraseIds PendingInterest.getPendingInterestId
            k (loopCount s.pendingInterestTable.length) s.pendingInterestTable) ∧
      ((evs.filterMap Event.expressed?).map (·.pendingInterestId) = [s.lastPendingInterestId + 1] ∧
          (s.call codec link c).1.lastPendingInterestId = s.lastPendingInterestId + 1 ∨
        evs.filterMap Event.expressed? = [] ∧
          (s.call codec link c).1.lastPendingInterestId = s.lastPendingInterestId) ∧
      (∀ ev ∈ evs, ev.callsBack = false) ∧
      evs.filterMap Event.expired? = [] ∧ (s.call codec link c).1.clock = s.clock := by
  cases c with
  | removePendingInterest k =>
    exact ⟨[.cancel k _], rfl, .inr ⟨k, rfl, rfl⟩, .inr ⟨rfl, rfl⟩,
      by simp [Event.callsBack], rfl, rfl⟩
  | removeRegisteredPrefix k =>
    exact ⟨[.unregister k], rfl, .inl (by simp [Node.call, Event.expressed?]), .inr ⟨rfl, rfl⟩,
      by simp [Event.callsBack], rfl, rfl⟩
  | shutdown =>
    exact ⟨[], by simp [Node.call], .inl (by simp [Node.call]), .inr ⟨rfl, rfl⟩, by simp, rfl, rfl⟩
  | expressInterest i d t =>
    simp only [Node.call, Node.expressInterest]
    split_ifs
    · exact ⟨[.express (s.newPendingInterest i (.app d) (.app t)), .send i], by simp,
        .inl (by simp [Event.expressed?]), .inl ⟨rfl, rfl⟩, by simp [Event.callsBack], rfl, rfl⟩
    · exact ⟨[.express (s.newPendingInterest i (.app d) (.app t))], by simp,
        .inl (by simp [Event.expressed?]), .inl ⟨rfl, rfl⟩, by simp [Event.callsBack], rfl, rfl⟩
    · exact ⟨[], by simp, .inl (by simp), .inr ⟨rfl, rfl⟩, by simp, rfl, rfl⟩
  | registerPrefix p oi orf fl =>
    simp only [Node.call, Node.registerPrefix, Node.expressInterest, Node.registerPrefixHelper]
    let f := s.fetcherFor p oi orf fl
    let i := selfRegInterest codec s.ndndId p fl
    split_ifs
    · exact ⟨[.express (s.newPendingInterest ndndIdFetcherInterest f f), .send ndndIdFetcherInterest],
        by simp, .inl (by simp [Event.expressed?]), .inl ⟨rfl, rfl⟩, by simp [Event.callsBack],
        rfl, rfl⟩
    · exact ⟨[.express (s.newPendingInterest ndndIdFetcherInterest f f)], by simp,
        .inl (by simp [Event.expressed?]), .inl ⟨rfl, rfl⟩, by simp [Event.callsBack], rfl, rfl⟩
    · exact ⟨[], by simp, .inl (by simp), .inr ⟨rfl, rfl⟩, by simp, rfl, rfl⟩
    · exact ⟨[.register ⟨s.lastRegisteredPrefixId + 1, p, oi⟩, .send i], by simp,
        .inl (by simp [Event.expressed?]), .inr ⟨rfl, rfl⟩, by simp [Event.callsBack], rfl, rfl⟩
    · exact ⟨[.register ⟨s.lastRegisteredPrefixId + 1, p, oi⟩], by simp,
        .inl (by simp [Event.expressed?]), .inr ⟨rfl, rfl⟩, by simp [Event.callsBack], rfl, rfl⟩

/-! ## Application code that takes nothing out of the PIT -/

/-- What a stretch of application code that takes no entry out of the PIT does to the node: it
appends events to the log, none of them a sweep's, appends to the PIT exactly the entries those
events express, and does not turn the clock back. -/
def Appends (t t' : Node) : Prop :=
  ∃ evs, t'.log = t.log ++ evs ∧ evs.filterMap Event.expired? = [] ∧
    t'.pendingInterestTable = t.pendingInterestTable ++ evs.filterMap Event.expressed? ∧
    t.clock ≤ t'.clock

theorem Appends.refl (t : Node) : Appends t t := ⟨[], by simp, rfl, by simp, Int.le_refl _⟩

theorem Appends.trans {t₁ t₂ t₃ : Node} (h₁ : Appends t₁ t₂) (h₂ : Appends t₂ t₃) :
    Appends t₁ t₃ := by
  obtain ⟨evs₁, hl₁, hx₁, hp₁, hc₁⟩ := h₁
  obtain ⟨evs₂, hl₂, hx₂, hp₂, hc₂⟩ := h₂
  exact ⟨evs₁ ++ evs₂, by simp [hl₁, hl₂], by simp [hx₁, hx₂], by simp [hp₁, hp₂], Int.le_trans hc₁ hc₂⟩

theorem Appends.elapse (t : Node) (d : Nat) : Appends t (t.elapse d) :=
  ⟨[], by simp, rfl, by simp, by simp only [Node.elapse_clock]; omega⟩

/-- A step that keeps the PIT as a prefix of the next only appends to it. -/
theorem AppStep.appends {codec : Codec} {t t' : Node} (h : AppStep codec t t')
    (hpit : t.pendingInterestTable <+: t'.pendingInterestTable) : Appends t t' := by
  cases h with
  | elapse d => exact Appends.elapse t d
  | call link c =>
    obtain ⟨evs, hl, hp | ⟨k, rfl, hp⟩, -, -, hexp, hc⟩ := t.call_effect codec link c
    · exact ⟨evs, hl, hexp, hp, hc ▸ Int.le_refl _⟩
    · have hsub : (t.call codec link c).1.pendingInterestTable <+ t.pendingInterestTable :=
        hp ▸ eraseIds_sublist _ _ _
      refine ⟨_, hl, hexp, ?_, hc ▸ Int.le_refl _⟩
      rw [show [Event.cancel k _].filterMap Event.expressed? = [] from rfl, List.append_nil]
      exact (hpit.eq_of_length (hpit.length_le.antisymm hsub.length_le)).symm

theorem RunsKeepingPit.appends {codec : Codec} {t t' : Node} (h : RunsKeepingPit codec t t') :
    Appends t t' := by
  induction h with
  | refl => exact Appends.refl t
  | tail _ hstep ih => exact ih.trans (hstep.1.appends hstep.2)

/-! ## What a failing send leaves behind -/

section SendFailure

variable (s : Node) (codec : Codec) (link : Link)

/-- **A failing send leaves the entry it was sending for.**  When the transport's `send` raises,
the caller gets the exception, and the tables keep what the call pushed before sending: the
caller's PendingInterest, or the ndnd-ID probe's (whose fetcher can still register the prefix or
report failure), or the RegisteredPrefix.  Only a failing `connect` leaves the tables as they
were. -/
theorem send_failure_tables (hsend : link.sendOk = false) (interest : Interest)
    (onData onTimeout : PendingCallback) (prefixName : Name) (onInterest onRegisterFailed : Callback)
    (flags : ForwardingFlags) :
    let e := s.expressInterest link interest onData onTimeout
    let r := s.registerPrefix codec link prefixName onInterest onRegisterFailed flags
    let pushes := s.connected || link.connectOk
    let f := s.fetcherFor prefixName onInterest onRegisterFailed flags
    (e.2 = .error .transport ∧ e.1.registeredPrefixTable = s.registeredPrefixTable ∧
      e.1.pendingInterestTable = s.pendingInterestTable ++
        (if pushes then [s.newPendingInterest interest onData onTimeout] else [])) ∧
    (r.2 = .error .transport ∧
      if s.ndndId.length = 0 then
        r.1.registeredPrefixTable = s.registeredPrefixTable ∧
        r.1.pendingInterestTable = s.pendingInterestTable ++
          (if pushes then [s.newPendingInterest ndndIdFetcherInterest f f] else [])
      else
        r.1.pendingInterestTable = s.pendingInterestTable ∧
        r.1.registeredPrefixTable = s.registeredPrefixTable ++
          [⟨s.lastRegisteredPrefixId + 1, prefixName, onInterest⟩]) := by
  by_cases hc : (s.connected || link.connectOk) = true <;>
  by_cases hn : s.ndndId.length = 0 <;>
    simp_all [Node.expressInterest, Node.registerPrefix, Node.registerPrefixHelper,
      Except.map]

theorem send_failure_tables_init :
    (⟨true, false⟩ : Link).sendOk = false ∧
      ((Node.init 0 0 0).expressInterest ⟨true, false⟩ ⟨⟨[]⟩, -1, -1⟩ (.app none) (.app none)).2 =
        .error .transport :=
  ⟨rfl, (send_failure_tables (Node.init 0 0 0) ⟨fun _ => [], fun _ => []⟩ ⟨true, false⟩ rfl
    ⟨⟨[]⟩, -1, -1⟩ (.app none) (.app none) ⟨[]⟩ none none ⟨0⟩).1.1⟩

/-- An `expressInterest` whose `send` raises still leaves its entry in the PIT. -/
theorem expressInterest_send_failure_keeps_entry :
    ¬ ∀ (s : Node) (link : Link) (interest : Interest) (onData onTimeout : PendingCallback),
      link.sendOk = false →
        (s.expressInterest link interest onData onTimeout).1.pendingInterestTable =
          s.pendingInterestTable := by
  intro h
  have := h (Node.init 0 0 0) ⟨true, false⟩ ⟨⟨[]⟩, -1, -1⟩ (.app none) (.app none) rfl
  simp [Node.expressInterest, Node.init, Node.pushPendingInterest, Node.connect] at this

end SendFailure

end Ndn
