import NdnNode.Packet

/-!
# The node's state

`Node` is the state `node.cpp` works on: the Pending Interest Table, the Registered Prefix Table,
the ndnd-ID, the two static id counters, and what it needs of its transport and clock.

## What a callback is

The node stores `func_lib::function`s it never looks into: it only calls them.  An application
callback is therefore a `Callback`, an optional handle — `none` is the empty function, which
throws `bad_function_call` when called.  What the application does once called is not part of the
node: `NdnNode.Api` lets it make any sequence of calls back into the node.  The one callback the
node makes itself is the `NdndIdFetcher` that `registerPrefix` passes as *both* callbacks of its
ndnd-ID probe; a `PendingCallback` is one or the other.

## Ids

`getNextPendingInterestId` and `getNextRegisteredPrefixId` increment a static `uint64_t` counter.
The counters here are natural numbers — the number of ids handed out so far — and an entry keeps
the counter's value as its id; the code's `uint64_t` is that modulo 2^64, which is what
`getPendingInterestId` and `getRegisteredPrefixId` return and what removal compares.  So the model
computes what the code computes, and also knows which entry an id belongs to after 2^64 ids.

## The erase loops

`removePendingInterest`, `removeRegisteredPrefix` and `checkPitExpire` all run
`for (int i = (int)v.size() - 1; i >= 0; --i)`.  The `int` cast narrows a `size_t`: `loopCount`
is the number of indices such a loop visits, which is the table's length only below 2^31.  Where
the cast gives `INT_MIN` the `- 1` overflows (`loopOverflows`), which is undefined: the call or
the sweep that runs such a loop ends there with the outcome `undefined`.

## The log

`log` is not part of the code's state.  It records, in order, what the node did that anyone could
observe: an entry entering or leaving a table, a callback called, a packet sent, a cancellation
asked for.  The theorems about runs are statements about it.
-/

set_option autoImplicit false

namespace Ndn

open scoped List

/-- An application callback as the node holds it: empty (`none`), or a closure the node knows
only by a handle. -/
abbrev Callback := Option Nat

/-- `NdndIdFetcher`, with what `registerPrefix` binds into it: the arguments of the
`registerPrefixHelper` call it makes when the ndnd-ID arrives, and the `onRegisterFailed` it
calls if the probe times out. -/
structure NdndIdFetcher where
  /-- The id `registerPrefix` returned. -/
  registeredPrefixId : Nat
  /-- The prefix to register. -/
  prefixName : Name
  /-- The prefix's Interest handler. -/
  onInterest : Callback
  /-- Called with the prefix if the probe fails. -/
  onRegisterFailed : Callback
  /-- The forwarding flags. -/
  flags : ForwardingFlags
  deriving DecidableEq, Repr

/-- What a `PendingInterest` holds as `onData_` or `onTimeout_`. -/
inductive PendingCallback
  /-- A callback of the application. -/
  | app (callback : Callback)
  /-- The ndnd-ID fetcher of a registration. -/
  | fetcher (fetcher : NdndIdFetcher)
  deriving DecidableEq, Repr

/-- The registration whose fetcher this is, if it is one. -/
def PendingCallback.fetcherId? : PendingCallback → Option Nat
  | .app _ => none
  | .fetcher f => some f.registeredPrefixId

@[simp] theorem PendingCallback.fetcherId?_app (callback : Callback) :
    (PendingCallback.app callback).fetcherId? = none := rfl

@[simp] theorem PendingCallback.fetcherId?_fetcher (f : NdndIdFetcher) :
    (PendingCallback.fetcher f).fetcherId? = some f.registeredPrefixId := rfl

/-- `Node::PendingInterest`. -/
structure PendingInterest where
  /-- The counter's value when the entry was made. -/
  pendingInterestId : Nat
  /-- The Interest, copied. -/
  interest : Interest
  /-- Called when Data satisfies the Interest. -/
  onData : PendingCallback
  /-- Called when the Interest times out. -/
  onTimeout : PendingCallback
  /-- The deadline, in milliseconds since 1970. -/
  timeoutTimeMilliseconds : Int
  deriving DecidableEq, Repr

namespace PendingInterest

/-- The deadline the constructor computes: the Interest's lifetime from now, or 4000 ms when it
gives none. -/
def timeoutTime (nowMilliseconds : Int) (interest : Interest) : Int :=
  if 0 ≤ interest.interestLifetime then nowMilliseconds + interest.interestLifetime
  else nowMilliseconds + 4000

/-- `PendingInterest::PendingInterest`, at clock reading `nowMilliseconds`. -/
def make (pendingInterestId : Nat) (interest : Interest) (onData onTimeout : PendingCallback)
    (nowMilliseconds : Int) : PendingInterest :=
  ⟨pendingInterestId, interest, onData, onTimeout, timeoutTime nowMilliseconds interest⟩

/-- `getPendingInterestId()`: the `uint64_t` the code holds. -/
def getPendingInterestId (e : PendingInterest) : UInt64 := UInt64.ofNat e.pendingInterestId

/-- Modelled from the spec: `PendingInterest::isTimedOut` (declared outside `src/`).  The sweep
removes every entry with `deadline ≤ nowMs` (spec §4.3). -/
def isTimedOut (e : PendingInterest) (nowMilliseconds : Int) : Bool :=
  decide (e.timeoutTimeMilliseconds ≤ nowMilliseconds)

@[simp] theorem make_pendingInterestId (k : Nat) (i : Interest) (d t : PendingCallback) (now : Int) :
    (make k i d t now).pendingInterestId = k := rfl

@[simp] theorem make_interest (k : Nat) (i : Interest) (d t : PendingCallback) (now : Int) :
    (make k i d t now).interest = i := rfl

@[simp] theorem make_onData (k : Nat) (i : Interest) (d t : PendingCallback) (now : Int) :
    (make k i d t now).onData = d := rfl

@[simp] theorem make_onTimeout (k : Nat) (i : Interest) (d t : PendingCallback) (now : Int) :
    (make k i d t now).onTimeout = t := rfl

/-- An entry is never made already expired: its deadline is at or after its creation. -/
theorem le_make_timeoutTimeMilliseconds (k : Nat) (i : Interest) (d t : PendingCallback)
    (now : Int) : now ≤ (make k i d t now).timeoutTimeMilliseconds := by
  simp only [make, timeoutTime]
  split <;> omega

end PendingInterest

/-- `Node::RegisteredPrefix`. -/
structure RegisteredPrefix where
  /-- The counter's value when `registerPrefix` was called. -/
  registeredPrefixId : Nat
  /-- The registered prefix. -/
  prefixName : Name
  /-- The Interest handler. -/
  onInterest : Callback
  deriving DecidableEq, Repr

/-- `getRegisteredPrefixId()`: the `uint64_t` the code holds. -/
def RegisteredPrefix.getRegisteredPrefixId (e : RegisteredPrefix) : UInt64 :=
  UInt64.ofNat e.registeredPrefixId

/-- What the node did, as its log records it. -/
inductive Event
  /-- `expressInterest` put an entry into the PIT. -/
  | express (entry : PendingInterest)
  /-- `removePendingInterest` was called, on a PIT of `tableSize` entries. -/
  | cancel (pendingInterestId : UInt64) (tableSize : Nat)
  /-- `onReceiveElement` took a Data's first match out of the PIT and called its `onData`. -/
  | onData (entry : PendingInterest)
  /-- `checkPitExpire`, at clock reading `nowMilliseconds`, took a timed-out entry out of the PIT
  and called its `callTimeout`. -/
  | onTimeout (entry : PendingInterest) (nowMilliseconds : Int)
  /-- `registerPrefixHelper` put an entry into the RPT. -/
  | register (entry : RegisteredPrefix)
  /-- `removeRegisteredPrefix` was called. -/
  | unregister (registeredPrefixId : UInt64)
  /-- `onReceiveElement` called an RPT entry's `onInterest`. -/
  | onInterest (entry : RegisteredPrefix)
  /-- The `onRegisterFailed` of registration `registeredPrefixId` was called. -/
  | onRegisterFailed (registeredPrefixId : Nat)
  /-- The transport sent an Interest. -/
  | send (interest : Interest)
  deriving DecidableEq, Repr

namespace Event

/-- The event takes PIT entry `k` out of the table and calls one of its callbacks. -/
def firesPendingInterest (k : Nat) : Event → Bool
  | .onData e | .onTimeout e _ => e.pendingInterestId == k
  | _ => false

/-- The event settles registration `r`: its entry enters the RPT, or its `onRegisterFailed`
is called. -/
def settlesRegistration (r : Nat) : Event → Bool
  | .register e => e.registeredPrefixId == r
  | .onRegisterFailed r' => r' == r
  | _ => false

/-- The entry a sweep retired, if that is what the event is. -/
def expired? : Event → Option PendingInterest
  | .onTimeout e _ => some e
  | _ => none

/-- The entry `expressInterest` added, if that is what the event is. -/
def expressed? : Event → Option PendingInterest
  | .express e => some e
  | _ => none

/-- The clock reading a timeout was called at, if that is what the event is. -/
def timeoutReading? : Event → Option Int
  | .onTimeout _ c => some c
  | _ => none

/-- The event is the node calling out: a PIT entry's `onData` or `callTimeout`, an RPT entry's
`onInterest`, or a registration's `onRegisterFailed`. -/
def callsBack : Event → Bool
  | .onData _ | .onTimeout _ _ | .onInterest _ | .onRegisterFailed _ => true
  | _ => false

end Event

/-- Why a call into the node raised. -/
inductive NodeError
  /-- The transport's `connect` or `send` raised. -/
  | transport
  /-- An empty `func_lib::function` was called. -/
  | badFunctionCall
  deriving DecidableEq, Repr

/-- How a call into the node ended. -/
inductive Outcome
  /-- It returned. -/
  | ok
  /-- An exception left it. -/
  | raised (e : NodeError)
  /-- It read past the end of a vector: from here on the C++ semantics say nothing. -/
  | undefined
  deriving DecidableEq, Repr

/-- The state of a `Node`. -/
structure Node where
  /-- `pendingInterestTable_`, in insertion order. -/
  pendingInterestTable : List PendingInterest
  /-- `registeredPrefixTable_`, in insertion order. -/
  registeredPrefixTable : List RegisteredPrefix
  /-- `ndndId_`, empty until an ndnd-ID probe is answered. -/
  ndndId : Blob
  /-- `PendingInterest::lastPendingInterestId_`, as the number of ids handed out. -/
  lastPendingInterestId : Nat
  /-- `RegisteredPrefix::lastRegisteredPrefixId_`, likewise. -/
  lastRegisteredPrefixId : Nat
  /-- `transport_->isConnected()`. -/
  connected : Bool
  /-- Whether `ioService_` has been stopped by `shutdown`. -/
  stopped : Bool
  /-- `ndn_getNowMilliseconds()`. -/
  clock : Int
  /-- When `timer_` fires: it is armed for 100 ms at construction and after each sweep. -/
  timerExpiry : Int
  /-- What the node has done, oldest first. -/
  log : List Event

namespace Node

/-- `Node::Node`: empty tables and ndnd-ID, a transport not yet connected.  The id counters are
static, so they stand wherever earlier nodes of the process left them. -/
def init (lastPendingInterestId lastRegisteredPrefixId : Nat) (clock : Int) : Node :=
  ⟨[], [], [], lastPendingInterestId, lastRegisteredPrefixId, false, false, clock, clock + 100, []⟩

/-- The node records an event. -/
def record (s : Node) (ev : Event) : Node := { s with log := s.log ++ [ev] }

/-- Time passes. -/
def elapse (s : Node) (d : Nat) : Node := { s with clock := s.clock + d }

section FieldLemmas

variable (s : Node) (ev : Event) (d : Nat)

@[simp] theorem record_pendingInterestTable : (s.record ev).pendingInterestTable = s.pendingInterestTable := rfl
@[simp] theorem record_registeredPrefixTable : (s.record ev).registeredPrefixTable = s.registeredPrefixTable := rfl
@[simp] theorem record_ndndId : (s.record ev).ndndId = s.ndndId := rfl
@[simp] theorem record_lastPendingInterestId : (s.record ev).lastPendingInterestId = s.lastPendingInterestId := rfl
@[simp] theorem record_lastRegisteredPrefixId : (s.record ev).lastRegisteredPrefixId = s.lastRegisteredPrefixId := rfl
@[simp] theorem record_stopped : (s.record ev).stopped = s.stopped := rfl
@[simp] theorem record_clock : (s.record ev).clock = s.clock := rfl
@[simp] theorem record_log : (s.record ev).log = s.log ++ [ev] := rfl

@[simp] theorem elapse_pendingInterestTable : (s.elapse d).pendingInterestTable = s.pendingInterestTable := rfl
@[simp] theorem elapse_registeredPrefixTable : (s.elapse d).registeredPrefixTable = s.registeredPrefixTable := rfl
@[simp] theorem elapse_ndndId : (s.elapse d).ndndId = s.ndndId := rfl
@[simp] theorem elapse_lastPendingInterestId : (s.elapse d).lastPendingInterestId = s.lastPendingInterestId := rfl
@[simp] theorem elapse_lastRegisteredPrefixId : (s.elapse d).lastRegisteredPrefixId = s.lastRegisteredPrefixId := rfl
@[simp] theorem elapse_stopped : (s.elapse d).stopped = s.stopped := rfl
@[simp] theorem elapse_clock : (s.elapse d).clock = s.clock + d := rfl
@[simp] theorem elapse_log : (s.elapse d).log = s.log := rfl

end FieldLemmas

end Node

/-! ## The backwards erase loops -/

/-- `(int)v.size() - 1` overflows: the `size_t` narrowed to a 32-bit `int` (modulo 2^32, as
compilers do and C++20 requires) is `INT_MIN`, and subtracting one from it is undefined. -/
def loopOverflows (size : Nat) : Bool := size % 2 ^ 32 == 2 ^ 31

/-- How many indices `for (int i = (int)v.size() - 1; i >= 0; --i)` visits where its bound does
not overflow: the size modulo 2^32 when that is below 2^31; otherwise `(int)size - 1` is negative
and the loop does not run.  Where the bound overflows no run gets this far (`loopOverflows`). -/
def loopCount (size : Nat) : Nat := if size % 2 ^ 32 < 2 ^ 31 then size % 2 ^ 32 else 0

theorem loopOverflows_of_lt {size : Nat} (h : size < 2 ^ 31) : loopOverflows size = false := by
  simp only [loopOverflows, beq_eq_false_iff_ne, ne_eq]
  omega

theorem loopCount_of_lt {size : Nat} (h : size < 2 ^ 31) : loopCount size = size := by
  simp only [loopCount]
  split <;> omega

theorem loopCount_le (size : Nat) : loopCount size ≤ size := by
  simp only [loopCount]
  split <;> omega

/-- The loop `removePendingInterest` and `removeRegisteredPrefix` share: `i` runs down from
`n - 1` to `0`, and entry `i` is erased when its id is `k`. -/
def eraseIds {α : Type} (getId : α → UInt64) (k : UInt64) : Nat → List α → List α
  | 0, t => t
  | n + 1, t => eraseIds getId k n (if t[n]?.map getId = some k then t.eraseIdx n else t)

/-- The loop leaves the entries from index `n` on alone and filters the first `n`. -/
theorem eraseIds_eq {α : Type} (getId : α → UInt64) (k : UInt64) :
    ∀ (n : Nat) (t : List α), n ≤ t.length →
      eraseIds getId k n t = (t.take n).filter (fun e => getId e ≠ k) ++ t.drop n
  | 0, t, _ => by simp [eraseIds]
  | n + 1, t, h => by
    have hn : n < t.length := h
    have htake : t.take (n + 1) = t.take n ++ [t[n]] := by
      rw [List.take_succ, List.getElem?_eq_getElem hn]; rfl
    have hdrop : t.drop n = t[n] :: t.drop (n + 1) := List.drop_eq_getElem_cons hn
    rw [eraseIds, List.getElem?_eq_getElem hn]
    by_cases hk : getId t[n] = k
    · have hlen : n ≤ (t.eraseIdx n).length := by rw [List.length_eraseIdx_of_lt hn]; omega
      rw [if_pos (by simp [hk]), eraseIds_eq getId k n _ hlen, List.eraseIdx_eq_take_drop_succ,
        List.take_append_of_le_length (by simp only [List.length_take]; omega), List.take_take,
        min_self, List.drop_append_of_le_length (by simp only [List.length_take]; omega),
        List.drop_of_length_le (by simp only [List.length_take]; omega),
        htake, List.filter_append]
      simp [hk]
    · rw [if_neg (by simpa using hk), eraseIds_eq getId k n _ (by omega), htake, hdrop,
        List.filter_append]
      simp [hk]

theorem eraseIds_sublist {α : Type} (getId : α → UInt64) (k : UInt64) (t : List α) :
    eraseIds getId k (loopCount t.length) t <+ t := by
  rw [eraseIds_eq _ _ _ _ (loopCount_le _)]
  have h := (List.filter_sublist (p := fun e => decide (getId e ≠ k))
    (t.take (loopCount t.length))).append (List.Sublist.refl (t.drop (loopCount t.length)))
  rwa [List.take_append_drop] at h

/-- The loop erases only entries with the id. -/
theorem mem_eraseIds_of_ne {α : Type} (getId : α → UInt64) (k : UInt64) {n : Nat} {t : List α}
    (hn : n ≤ t.length) {x : α} (hx : x ∈ t) (hk : getId x ≠ k) : x ∈ eraseIds getId k n t := by
  rw [eraseIds_eq _ _ _ _ hn]
  rw [← List.take_append_drop n t, List.mem_append] at hx
  rcases hx with hx | hx
  · exact List.mem_append_left _ (List.mem_filter.2 ⟨hx, by simpa using hk⟩)
  · exact List.mem_append_right _ hx

/-- Erasing index `i`, which holds `e`, keeps every other entry. -/
theorem mem_eraseIdx_or_eq {α : Type} {l : List α} {i : Nat} {e x : α} (hi : l[i]? = some e)
    (hx : x ∈ l) : x ∈ l.eraseIdx i ∨ x = e := by
  obtain ⟨j, hj⟩ := List.mem_iff_getElem?.1 hx
  by_cases hji : j = i
  · subst hji
    exact .inr (Option.some.inj (hj.symm.trans hi))
  · exact .inl (List.mem_eraseIdx_iff_getElem?.2 ⟨j, hji, hj⟩)

/-- Run over the whole table, the loop filters it. -/
theorem eraseIds_length {α : Type} (getId : α → UInt64) (k : UInt64) (t : List α) :
    eraseIds getId k t.length t = t.filter (fun e => getId e ≠ k) := by
  rw [eraseIds_eq _ _ _ _ (Nat.le_refl _), List.take_length, List.drop_length, List.append_nil]

end Ndn
